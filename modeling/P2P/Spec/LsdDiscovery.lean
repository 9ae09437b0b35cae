import P2P.Native.LsdDiscovery
import P2P.Spec.Base32
import P2P.Spec.ResumeRestore

/-!
# Local discovery from end to end

An announcement is parsed back to port and info hash, and different info hashes have different
texts.
-/

namespace P2P

open Bytes List Decimal LsdCrypto

theorem firstAt_of_not_mem {α : Type*} {a : α} {pat pad : List α} (h : a ∉ pad) :
    FirstAt (a :: pat) pad := by
  intro i hi hpre
  obtain ⟨rest, hrest⟩ := hpre
  rw [drop_append_of_le_length hi.le, drop_eq_getElem_cons hi] at hrest
  have ha : a = pad[i] := (cons.inj hrest).1
  exact h (ha ▸ getElem_mem hi)

theorem mem_base32Encode {x : Bytes} {c : UInt8} (h : c ∈ base32Encode x) : c ≠ 13 := by
  obtain ⟨vals, -, hlt, hchars, -⟩ := base32Encode_spec x
  rw [hchars] at h
  obtain ⟨v, hv, rfl⟩ := mem_map.mp h
  have hall : ∀ v : Fin 32, base32Char v ≠ 13 := by decide +kernel
  exact hall ⟨v, hlt v hv⟩

namespace LsdDiscovery

theorem field_append {name pad value : Bytes} (hname : FirstAt name pad) (hne : name ≠ [])
    (hvalue : (13 : UInt8) ∉ value) (rest : Bytes) :
    field name (pad ++ name ++ (value ++ ascii "\r\n" ++ rest)) = some value := by
  have hend : search (ascii "\r\n") (value ++ ascii "\r\n" ++ rest) = some value.length :=
    search_append (firstAt_of_not_mem hvalue) (by decide) rest
  have hdrop : (pad ++ name ++ (value ++ ascii "\r\n" ++ rest)).drop (pad.length + name.length) =
      value ++ ascii "\r\n" ++ rest := by
    rw [← length_append, drop_left]
  rw [field, search_append hname hne]
  dsimp only [Option.bind_eq_bind, Option.bind_some]
  rw [hdrop, hend]
  dsimp only [Option.bind_eq_bind, Option.bind_some, Option.pure_def]
  rw [append_assoc, take_left]

theorem parseAnnouncement_build (infoHash : Bytes) (port : UInt16) :
    parseAnnouncement (buildAnnounceMessage infoHash port) =
      some (base32Encode infoHash, port) := by
  have hport : ∀ c ∈ printNat port.toNat, isDigit c :=
    all_eq_true.mp (printNat_all_isDigit port.toNat)
  have hhead : ascii "BT-SEARCH * HTTP/1.1\r\nHost: 239.192.152.143:6771\r\nPort: " =
      ascii "BT-SEARCH" ++ ascii " * HTTP/1.1\r\nHost: 239.192.152.143:6771\r\n" ++
        ascii "Port: " := by decide +kernel
  have hname : ascii "\r\nInfohash: " = ascii "\r\n" ++ ascii "Infohash: " := by decide +kernel
  have hend : ascii "\r\n\r\n" = ascii "\r\n" ++ ascii "\r\n" := by decide +kernel
  have hhash : field (ascii "Infohash: ") (buildAnnounceMessage infoHash port) =
      some (base32Encode infoHash) := by
    have hfirst : FirstAt (ascii "Infohash: ")
        (ascii "BT-SEARCH" ++ ascii " * HTTP/1.1\r\nHost: 239.192.152.143:6771\r\n" ++
          ascii "Port: " ++ printNat port.toNat ++ ascii "\r\n") := by
      apply firstAt_of_not_mem
      refine not_mem_append (not_mem_append (by decide +kernel) fun h => ?_) (by decide)
      exact absurd (hport _ h) (by decide)
    have hfield := field_append hfirst (by decide)
      (fun h => mem_base32Encode h rfl : (13 : UInt8) ∉ base32Encode infoHash)
      (ascii "\r\n")
    rw [← hfield, buildAnnounceMessage, hhead, hname, hend]
    simp only [append_assoc]
  have hfield : field (ascii "Port: ") (buildAnnounceMessage infoHash port) =
      some (printNat port.toNat) := by
    have hfirst : FirstAt (ascii "Port: ")
        (ascii "BT-SEARCH" ++ ascii " * HTTP/1.1\r\nHost: 239.192.152.143:6771\r\n") := by
      unfold FirstAt
      decide +kernel
    have hfield := field_append hfirst (by decide)
      (fun h => absurd (hport _ h) (by decide) : (13 : UInt8) ∉ printNat port.toNat)
      (ascii "Infohash: " ++ base32Encode infoHash ++ ascii "\r\n\r\n")
    rw [← hfield, buildAnnounceMessage, hhead, hname]
    simp only [append_assoc]
  have hsearch : search (ascii "BT-SEARCH") (buildAnnounceMessage infoHash port) = some 0 := by
    have hfound := search_append (firstAt_nil (ascii "BT-SEARCH")) (by decide)
    rw [buildAnnounceMessage, hhead]
    simp only [append_assoc]
    exact hfound _
  rw [parseAnnouncement, hsearch, hhash, hfield]
  dsimp only [Option.bind_eq_bind, Option.bind_some]
  rw [TorrentSession.stoul_printNat (by have := port.toNat_lt; omega)]
  simp

end LsdDiscovery

open LsdDiscovery

/-- The announcement of a session adds its endpoint to the peers of another one with the same info
    hash, and changes nothing for a different one, except when both have the same port and hash:
    then it is ignored. -/
theorem local_discovery (ourInfoHash theirInfoHash : Bytes) (hours : ourInfoHash.length = 20)
    (htheirs : theirInfoHash.length = 20) (ourPort theirPort : UInt16) (hzero : theirPort ≠ 0)
    (senderAddr : AddressV4) (discovered : Finset Endpoint) :
    parseAndAddPeer ourInfoHash ourPort (buildAnnounceMessage theirInfoHash theirPort) senderAddr
        discovered =
      (if ourInfoHash = theirInfoHash then insert ⟨senderAddr, theirPort⟩ discovered
      else discovered) ↔
    (ourInfoHash = theirInfoHash → theirPort = ourPort → ⟨senderAddr, theirPort⟩ ∈ discovered) := by
  have hiff : base32Encode theirInfoHash = base32Encode ourInfoHash ↔
      ourInfoHash = theirInfoHash := by
    constructor
    · intro h
      rw [← base32Decode_base32Encode ourInfoHash, ← h, base32Decode_base32Encode]
    · rintro rfl
      rfl
  have hne : ourInfoHash ≠ [] := by
    rintro rfl
    cases hours
  rw [parseAndAddPeer, parseAnnouncement_build]
  dsimp only
  rw [if_neg hne]
  by_cases heq : ourInfoHash = theirInfoHash
  · rw [if_neg (not_not.mpr (hiff.mpr heq)), if_pos heq]
    by_cases hport : theirPort = ourPort
    · rw [if_pos hport, eq_comm, Finset.insert_eq_self]
      exact ⟨fun h _ _ => h, fun h => h heq hport⟩
    · rw [if_neg hport, if_neg hzero]
      exact ⟨fun _ _ h => absurd h hport, fun _ => rfl⟩
  · rw [if_pos (fun h => heq (hiff.mp h)), if_neg heq]
    exact ⟨fun _ h => absurd h heq, fun _ => rfl⟩

theorem local_discovery_two_hosts :
    parseAndAddPeer (replicate 20 1) 6881 (buildAnnounceMessage (replicate 20 1) 6882)
        ⟨10, 0, 0, 2⟩ ∅ = {⟨⟨10, 0, 0, 2⟩, 6882⟩} := by
  have hadded := (local_discovery (replicate 20 1) (replicate 20 1) rfl rfl 6881 6882 (by decide)
    ⟨10, 0, 0, 2⟩ ∅).mpr fun _ h => absurd h (by decide)
  rw [hadded, if_pos rfl]
  rfl

/-- Another host with the same torrent and the same port is ignored. -/
theorem equal_ports_ignored :
    parseAndAddPeer (replicate 20 1) 6881 (buildAnnounceMessage (replicate 20 1) 6881)
        ⟨10, 0, 0, 2⟩ ∅ = ∅ := by
  rw [parseAndAddPeer, parseAnnouncement_build]
  rfl

end P2P
