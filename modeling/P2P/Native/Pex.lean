import Mathlib.Data.Finset.Basic
import P2P.Native.DhtNode

/-!
# Peer exchange (`PeerManager.cpp`, `TorrentSession.cpp`)

The dictionary that `pex_loop` sends, and the branch of `on_extended_message` that takes it.
-/

namespace P2P

open Bencode Bytes

/-- The endpoints in a `PeerManager`; the active ones in the order of the iteration. -/
structure PexPeers where
  active : List Endpoint
  active_nodup : active.Nodup
  discovered : Finset Endpoint
  dropped : List Endpoint

inductive PexOutcome where
  | handled
  | malformed
  | thrown
  deriving DecidableEq, Repr

namespace PexPeers

/-- `populate_added`: the limit is checked behind the endpoint. -/
def populateAdded (maxPeers : Nat) : List Endpoint → Nat → Bytes
  | [], _ => []
  | ep :: rest, addedPeers =>
    ep.compact ++
      if addedPeers + 1 > maxPeers then [] else populateAdded maxPeers rest (addedPeers + 1)

def populateDropped : List Endpoint → Bytes
  | [] => []
  | ep :: rest => ep.compact ++ populateDropped rest

def pexDict (added dropped : Bytes) : Dict :=
  (if added.isEmpty then [] else [(ascii "added", .str added)]) ++
    if dropped.isEmpty then [] else [(ascii "dropped", .str dropped)]

def pexMessage (maxPeers : Nat) (s : PexPeers) : Option Bytes × PexPeers :=
  let dict := pexDict (populateAdded maxPeers s.active 0) (populateDropped s.dropped)
  (if dict.isEmpty then none else some (encode (.dict dict)), { s with dropped := [] })

def readPairs (f : Endpoint → PexPeers → PexPeers) : Bytes → PexPeers → PexOutcome × PexPeers
  | [], s => (.handled, s)
  | b0 :: b1 :: b2 :: b3 :: hi :: lo :: rest, s =>
    readPairs f rest (f ⟨⟨b0, b1, b2, b3⟩, fromBe16 [hi, lo]⟩ s)
  | _, s => (.malformed, s)

def addDiscovered (peerPort : UInt16) (ep : Endpoint) (s : PexPeers) : PexPeers :=
  if ep = ⟨⟨127, 0, 0, 1⟩, peerPort⟩ then s
  else { s with discovered := insert ep s.discovered }

def addDropped (ep : Endpoint) (s : PexPeers) : PexPeers :=
  { s with dropped := s.dropped ++ [ep], discovered := s.discovered.erase ep }

/-- The value of one key: `std::get` throws when it is not a string. -/
def readList (f : Endpoint → PexPeers → PexPeers) : Option Value → PexPeers → PexOutcome × PexPeers
  | none, s => (.handled, s)
  | some (.str list), s => readPairs f list s
  | some _, s => (.thrown, s)

def onUtPex (peerPort : UInt16) (payload : Bytes) (s : PexPeers) : PexOutcome × PexPeers :=
  match decode payload with
  | .ok (.dict dict) =>
    let added := readList (addDiscovered peerPort) (Assoc.find? dict (ascii "added")) s
    if added.1 = .handled then
      readList addDropped (Assoc.find? dict (ascii "dropped")) added.2
    else added
  | _ => (.thrown, s)

def receive (peerPort : UInt16) (message : Option Bytes) (s : PexPeers) : PexOutcome × PexPeers :=
  message.elim (.handled, s) fun payload => onUtPex peerPort payload s

end PexPeers

end P2P
