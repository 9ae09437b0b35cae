import P2P.Native.TorrentFile
import P2P.Spec.BencodeCanonical

/-!
# The info hash of a torrent file

`load_from_file` hashes the info dictionary decoded and encoded back, `load_from_info_bytes` the
bytes as they come.
-/

namespace P2P

open Bencode Bytes Assoc StrTok

theorem dictAt_ok {σ : Type} {d : Dict} {key : String} {v : Value} {s s' : σ}
    (h : (dictAt d key).run.run s = (.ok v, s')) : find? d (ascii key) = some v := by
  unfold dictAt at h
  cases hf : find? d (ascii key) with
  | none => rw [hf] at h; exact nomatch (Prod.mk.inj h).1
  | some v' =>
    rw [hf] at h
    have := (Prod.mk.inj h).1
    simp only [Except.ok.injEq] at this
    rw [this]

theorem populate_eq (d : Dict) (i j : TorrentInfo) :
    (populateTorrentInfoFromDict d).run.run i = (populateTorrentInfoFromDict d).run.run j := rfl

theorem loadMetainfo_ok {sha1 : Bytes → Bytes} {data : Bytes} {s s' : MetaInfo × List (List Bytes)}
    (h : (loadMetainfo sha1 data).run.run s = (.ok (), s')) :
    ∃ md infoDict info, decode data = .ok (.dict md) ∧
      find? md (ascii "info") = some (.dict infoDict) ∧
      (populateTorrentInfoFromDict infoDict).run.run {} = (.ok (), info) ∧
      s'.1 = ⟨info, sha1 (encode (.dict infoDict)), encode (.dict infoDict)⟩ := by
  unfold loadMetainfo at h
  split at h
  · exact nomatch (Prod.mk.inj h).1
  · next md hdec =>
    -- the trackers are read before the info dictionary
    obtain ⟨_, s₁, -, h⟩ := Throwing.bind_ok h
    obtain ⟨v, s₂, hat, h⟩ := Throwing.bind_ok h
    have hfind := dictAt_ok hat
    split at h
    · next infoDict =>
      have hrun := Prod.mk.inj h
      refine ⟨md, infoDict, _, hdec, hfind, Prod.ext hrun.1 rfl, ?_⟩
      exact (congrArg Prod.fst hrun.2).symm
    · exact nomatch (Prod.mk.inj h).1
  · exact nomatch (Prod.mk.inj h).1

theorem caught_eq_true {r : Except Fault Unit} : caught r = some true ↔ r = .ok () := by
  constructor
  · intro h
    match r with
    | .ok () => rfl
    | .error .outOfRange => exact nomatch h
    | .error .badVariantAccess => exact nomatch h
    | .error (.runtimeError _) => exact nomatch h
    | .error .undefinedBehaviour => exact nomatch h
  · intro h
    rw [h]
    rfl

theorem loadFromInfoBytes_ok {sha1 : Bytes → Bytes} {b : Bytes} {infoDict : Dict}
    {info : TorrentInfo} (hdec : decode b = .ok (.dict infoDict))
    (hpop : (populateTorrentInfoFromDict infoDict).run.run {} = (.ok (), info)) (m : MetaInfo) :
    loadFromInfoBytes sha1 b m = (some true, ⟨info, sha1 b, b⟩) := by
  have hpop' := hpop
  rw [populate_eq infoDict {} m.info] at hpop'
  simp only [loadFromInfoBytes, hdec, MetaInfo.populate, hpop', caught]

/-- `b` are the bytes of the value under the first top-level key `info` of the file `data`. -/
def InfoBytes (data b : Bytes) : Prop :=
  ∃ pre k t post, AcceptedEntries (pre ++ (k, t) :: post) ∧
    data = (Syn.dict (pre ++ (k, t) :: post)).spell ∧
    k.body = Bytes.ascii "info" ∧ (∀ e ∈ pre, e.1.body ≠ Bytes.ascii "info") ∧ b = t.spell

private theorem acceptedEntries_append : ∀ es fs : List (StrTok × Syn),
    AcceptedEntries (es ++ fs) ↔ AcceptedEntries es ∧ AcceptedEntries fs
  | [], _ => by simp [AcceptedEntries]
  | (k, t) :: es, fs => by simp [AcceptedEntries, acceptedEntries_append es fs, and_assoc]

private theorem find?_valueEntries (key : Bytes) : ∀ (pre : List (StrTok × Syn)) (k : StrTok)
    (t : Syn) (post : List (StrTok × Syn)), k.body = key → (∀ e ∈ pre, e.1.body ≠ key) →
    find? (valueEntries (pre ++ (k, t) :: post)) key = some t.value
  | [], k, t, post, hk, _ => by simp [valueEntries, find?, hk]
  | (k', t') :: pre, k, t, post, hk, hpre => by
    have hne : k'.body ≠ key := hpre _ (List.mem_cons_self ..)
    have hrec := find?_valueEntries key pre k t post hk
      fun e he => hpre e (List.mem_cons_of_mem _ he)
    simp [valueEntries, find?, Ne.symm hne, hrec]

theorem InfoBytes.decode {data b : Bytes} (hb : InfoBytes data b) {md : Dict} {v : Value}
    (hdec : Bencode.decode data = .ok (.dict md))
    (hfind : find? md (ascii "info") = some v) : Bencode.decode b = .ok v := by
  obtain ⟨pre, k, t, post, hacc, rfl, hk, hpre, rfl⟩ := hb
  have hspell := decode_spell (t := .dict (pre ++ (k, t) :: post)) hacc
  rw [hdec] at hspell
  simp only [Syn.value, Except.ok.injEq, Value.dict.injEq] at hspell
  rw [hspell, find?_foldl_emplace List.Pairwise.nil,
    find?_valueEntries _ pre k t post hk hpre] at hfind
  have ht := ((acceptedEntries_append _ _).mp hacc).2.2.1
  have hv : t.value = v := by simpa [find?] using hfind
  rw [← hv]
  exact decode_spell ht

/-- The info hash of an accepted torrent file is the hash of its info dictionary's bytes exactly
    when these are a canonical bencoding. -/
theorem loadFromFile_infoHash_iff (sha1 : Bytes → Bytes) (hsha1 : Function.Injective sha1)
    (data b : Bytes) (m m₀ : MetaInfo) (tiers : List (List Bytes))
    (hacc : (loadFromFile sha1 (some data) m tiers).1 = some true) (hb : InfoBytes data b) :
    ((loadFromFile sha1 (some data) m tiers).2.1.infoHashBytes = sha1 b ∧
      (loadFromInfoBytes sha1 b m₀).1 = some true ∧
      (loadFromInfoBytes sha1 b m₀).2.infoHashBytes =
        (loadFromFile sha1 (some data) m tiers).2.1.infoHashBytes ∧
      (loadFromInfoBytes sha1 b m₀).2.infoBencoded =
        (loadFromFile sha1 (some data) m tiers).2.1.infoBencoded) ↔
    CanonicalBencoding b := by
  have hok : ((loadMetainfo sha1 data).run.run (m, tiers)).1 = .ok () := caught_eq_true.mp hacc
  obtain ⟨md, infoDict, info, hdec, hfind, hpop, hmeta⟩ := loadMetainfo_ok (Prod.ext hok rfl)
  have hdecb := hb.decode hdec hfind
  have hfile : (loadFromFile sha1 (some data) m tiers).2.1 =
      ⟨info, sha1 (encode (.dict infoDict)), encode (.dict infoDict)⟩ := hmeta
  -- both functions hash bytes: one the encoding of the value, one the bytes themselves
  rw [loadFromInfoBytes_ok hdecb hpop, hfile, ← encode_decode_iff_canonical hdecb]
  constructor
  · intro h
    exact hsha1 h.1
  · intro h
    rw [h]
    exact ⟨rfl, rfl, rfl, rfl⟩

/-- The text of an info dictionary of one file of one byte, whose length is spelled `length`. -/
def oneByteSyn (length : Bytes) : Syn :=
  .dict [(.ofBytes (Bytes.ascii "length"), .int length),
    (.ofBytes (Bytes.ascii "name"), .str (.ofBytes (Bytes.ascii "n"))),
    (.ofBytes (Bytes.ascii "piece length"), .int (Bytes.ascii "1")),
    (.ofBytes (Bytes.ascii "pieces"), .str (.ofBytes (Bytes.ascii "aaaaaaaaaaaaaaaaaaaa")))]

def oneByteInfo (length : Bytes) : Bytes :=
  Bytes.ascii "d6:lengthi" ++ length ++
    Bytes.ascii "e4:name1:n12:piece lengthi1e6:pieces20:aaaaaaaaaaaaaaaaaaaae"

def oneByteTorrent (length : Bytes) : Bytes :=
  Bytes.ascii "d8:announce1:u4:info" ++ oneByteInfo length ++ Bytes.ascii "e"

private theorem accepted_str {s : Bytes} (hs : s.length < 2 ^ 63) :
    (Syn.str (.ofBytes s)).Accepted := accepted_ofValue (.str s) hs

theorem infoBytes_oneByteTorrent {length : Bytes} {i : Int64}
    (hlen : fromChars length = .ok (i, length.length))
    (hinfo : (oneByteSyn length).spell = oneByteInfo length) :
    InfoBytes (oneByteTorrent length) (oneByteInfo length) := by
  refine ⟨[(.ofBytes (ascii "announce"), .str (.ofBytes (ascii "u")))],
    .ofBytes (ascii "info"), oneByteSyn length, [], ?_, ?_, rfl, by decide, hinfo.symm⟩
  · refine ⟨accepted_ofBytes (by decide), accepted_str (by decide),
      accepted_ofBytes (by decide), ?_, trivial⟩
    exact ⟨accepted_ofBytes (by decide), ⟨i, hlen⟩,
      accepted_ofBytes (by decide), accepted_str (by decide),
      accepted_ofBytes (by decide), ⟨1, rfl⟩,
      accepted_ofBytes (by decide), accepted_str (by decide), trivial⟩
  · -- what stands before the info dictionary is spelled out
    have hpre : ascii "d8:announce1:u4:info" =
        dictTag :: ((ofBytes (ascii "announce")).spell ++
          ((ofBytes (ascii "u")).spell ++
            (ofBytes (ascii "info")).spell)) := by decide +kernel
    have hpost : ascii "e" = [endTag] := rfl
    simp [oneByteTorrent, Syn.spell, spellEntries, hinfo, hpre, hpost]

/-- With a leading zero in the length the file is accepted, and its hash is neither that of its info
    bytes nor the one these bytes get through a magnet link. -/
theorem loadFromFile_infoHash_leading_zero :
    (loadFromFile id (some (oneByteTorrent (ascii "01"))) {} []).1 = some true ∧
    InfoBytes (oneByteTorrent (ascii "01")) (oneByteInfo (ascii "01")) ∧
    (loadFromFile id (some (oneByteTorrent (ascii "01"))) {} []).2.1.infoHashBytes ≠
      id (oneByteInfo (ascii "01")) ∧
    (loadFromInfoBytes id (oneByteInfo (ascii "01")) {}).2.infoHashBytes ≠
      (loadFromFile id (some (oneByteTorrent (ascii "01"))) {} []).2.1.infoHashBytes :=
  ⟨by decide +kernel, infoBytes_oneByteTorrent (i := 1) (by decide +kernel) (by decide +kernel),
    by decide +kernel, by decide +kernel⟩

theorem loadFromFile_infoHash_canonical :
    CanonicalBencoding (oneByteInfo (ascii "1")) ∧
    (loadFromFile id (some (oneByteTorrent (ascii "1"))) {} []).2.1.infoHashBytes =
      id (oneByteInfo (ascii "1")) := by
  have hiff := loadFromFile_infoHash_iff id Function.injective_id
    (oneByteTorrent (ascii "1")) (oneByteInfo (ascii "1")) {} {} []
    (by decide +kernel)
    (infoBytes_oneByteTorrent (i := 1) (by decide +kernel) (by decide +kernel))
  have hhash : (loadFromFile id (some (oneByteTorrent (ascii "1"))) {} []).2.1.infoHashBytes =
      id (oneByteInfo (ascii "1")) := by decide +kernel
  exact ⟨hiff.mp ⟨hhash, by decide +kernel, by decide +kernel, by decide +kernel⟩, hhash⟩

end P2P
