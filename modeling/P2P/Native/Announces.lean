import P2P.Native.Metadata
import P2P.Native.TorrentSession

/-!
# The announces of a session (`TorrentSession.cpp`)

The bytes that a session still lacks, and the events of `tracker_announce_loop`.
-/

namespace P2P

def TorrentSession.bytesLeft (info : TorrentInfo) (s : TorrentSession) : Nat :=
  if s.isDownloadComplete then 0
  else
    let totalSize := info.totalSize.toNat
    let downloaded := u64 (s.completedPieces * info.pieceSize.toNat)
    if downloaded ≥ totalSize then 0 else totalSize - downloaded

inductive AnnounceEvent where
  | none
  | started
  | completed
  deriving DecidableEq, Repr

structure AnnounceLoop where
  event : AnnounceEvent := .started
  completedEventSent : Bool := false
  announces : List AnnounceEvent := []
  ended : Bool := false
  deriving DecidableEq, Repr

/-- What a turn finds: `is_download_complete` at its start, whether `announce_tracker_for` has a
    tracker to contact, without which it returns, and the shutdown later. -/
structure AnnounceTurn where
  isCompleted : Bool
  hasTracker : Bool := true
  shuttingDown : Bool := false
  deriving DecidableEq, Repr

def AnnounceLoop.turn (mode : Mode) (s : AnnounceLoop) (t : AnnounceTurn) : Option AnnounceLoop :=
  if s.ended then none
  else if t.isCompleted ∧ mode = .leech then some { s with ended := true }
  else
    let s :=
      if t.isCompleted ∧ ¬ s.completedEventSent ∧ mode ≠ .seed then
        { s with event := .completed, completedEventSent := true }
      else s
    some { s with
      event := .none
      announces := if t.hasTracker then s.announces ++ [s.event] else s.announces
      ended := t.shuttingDown }

end P2P
