import P2P.Native.TorrentFile
import P2P.Native.Tracker

/-!
# The saved state of a tracker (`Tracker.hpp`)

`save_state` writes the registry to a file, and `load_state` reads it into a new tracker. Without a
data directory nothing is saved.
-/

namespace P2P

open Bencode

abbrev PeerRegistry := OrdMap Bytes (OrdMap Bytes PeerEntry)

def toTimeT (time : Int) : Int64 := .ofInt (time.tdiv 1000000000)

def fromTimeT (ts : Int64) : Int := ts.toInt * 1000000000

def savedPeer (peer : Bytes × PeerEntry) : Value :=
  dictOf [(.ascii "compact", .str peer.1), (.ascii "left", .int peer.2.left),
    (.ascii "last_announce", .int (toTimeT peer.2.lastAnnounce))]

def savedPeers (peers : OrdMap Bytes PeerEntry) : Value := .list (peers.entries.map savedPeer)

def PeerRegistry.saveState (r : PeerRegistry) : Bytes :=
  encode (dictOf [(.ascii "peers", dictOf (r.entries.map fun e => (e.1, savedPeers e.2)))])

def loadPeers {σ : Type} : OrdMap Bytes PeerEntry → List Value →
    Throwing σ (OrdMap Bytes PeerEntry)
  | peerMap, [] => pure peerMap
  | peerMap, pv :: rest => do
    let pd ← getDict pv
    let compactAddr ← getString (← dictAt pd "compact")
    let left ← getInteger (← dictAt pd "left")
    let ts ← getInteger (← dictAt pd "last_announce")
    loadPeers (peerMap.insert compactAddr ⟨left, fromTimeT ts⟩) rest

def loadHashes {σ : Type} : PeerRegistry → Dict → Throwing σ PeerRegistry
  | r, [] => pure r
  | r, (infoHash, peerList) :: rest => do
    let peerMap ← loadPeers ((r.get? infoHash).getD .empty) (← getList peerList)
    loadHashes (r.insert infoHash peerMap) rest

/-- `Tracker::load_state`; `file` is the content of the file, if there is one. -/
def PeerRegistry.loadState (r : PeerRegistry) (file : Option Bytes) : PeerRegistry :=
  match file with
  | none => r
  | some fileData =>
    if fileData.isEmpty then r
    else
      match decode fileData with
      | .error _ => .empty
      | .ok decoded =>
        let load : Throwing Unit PeerRegistry := do
          let root ← getDict decoded
          loadHashes r (← getDict (← dictAt root "peers"))
        match (load.run.run ()).1 with
        | .ok r => r
        | .error _ => .empty

end P2P
