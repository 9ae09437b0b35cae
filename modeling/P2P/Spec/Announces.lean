import P2P.Native.Announces
import P2P.Spec.PieceMap

/-!
# What a session announces

The bytes left are computed from the number of pieces that are there, as if each of them were a
whole piece.
-/

namespace P2P

open List TorrentInfo

def TorrentInfo.missingBytes (info : TorrentInfo) (status : List PieceStatus) : Nat :=
  (status.mapIdx fun p st => if st = .have_ then 0 else info.pieceLen p).sum

variable {info : TorrentInfo} {status : List PieceStatus}

theorem missingBytes_concat (status : List PieceStatus) (st : PieceStatus) :
    info.missingBytes (status ++ [st]) =
      info.missingBytes status + if st = .have_ then 0 else info.pieceLen status.length := by
  simp [missingBytes, mapIdx_concat]

theorem missingBytes_whole (hwhole : ∀ p < status.length, info.pieceLen p = info.ps) :
    info.missingBytes status + status.count .have_ * info.ps = status.length * info.ps := by
  induction status using List.reverseRecOn with
  | nil => simp [missingBytes]
  | append_singleton status st ih =>
    have hlast := hwhole status.length (by simp)
    specialize ih fun p hp => hwhole p (by rw [length_append]; omega)
    rw [missingBytes_concat, count_append, length_append, hlast]
    by_cases h : st = .have_ <;> simp [h, add_mul] <;> omega

theorem missingBytes_all (h : ∀ st ∈ status, st = .have_) : info.missingBytes status = 0 := by
  unfold missingBytes
  simp only [List.sum_eq_zero_iff_forall_eq_nat, List.mem_mapIdx]
  rintro x ⟨p, hp, rfl⟩
  exact if_pos (h _ (List.getElem_mem hp))

/-- All pieces are there, of which there are none without metadata. -/
def TorrentSession.HasAll (s : TorrentSession) : Prop :=
  s.pieceStatus ≠ [] ∧ ∀ st ∈ s.pieceStatus, st = .have_

instance TorrentSession.decidableHasAll (s : TorrentSession) : Decidable s.HasAll :=
  inferInstanceAs (Decidable (_ ∧ _))

/-- The counter and the flag agree with the statuses. Each piece has one, or none has. -/
structure TorrentSession.Counts (info : TorrentInfo) (s : TorrentSession) : Prop where
  counter : s.completedPieces = s.pieceStatus.count .have_
  complete : s.isDownloadComplete = true → s.HasAll
  pieces : s.pieceStatus ≠ [] → 0 < info.ps ∧ (s.pieceStatus.length - 1) * info.ps < info.total ∧
    info.total ≤ s.pieceStatus.length * info.ps
  no_metadata : s.pieceStatus = [] → info.total = 0

/-- The last piece apart, all pieces are whole. -/
theorem missingBytes_last {before : List PieceStatus} (last : PieceStatus)
    (hlt : before.length * info.ps < info.total)
    (hle : info.total ≤ before.length * info.ps + info.ps) :
    info.missingBytes (before ++ [last]) + before.count .have_ * info.ps =
      before.length * info.ps +
        if last = .have_ then 0 else info.total - before.length * info.ps := by
  have hwhole : ∀ p < before.length, info.pieceLen p = info.ps := by
    intro p hp
    have hnext : (p + 1) * info.ps ≤ before.length * info.ps := Nat.mul_le_mul_right _ hp
    rw [Nat.add_mul, Nat.one_mul] at hnext
    unfold pieceLen
    omega
  have hbefore := missingBytes_whole hwhole
  have hend : info.pieceLen before.length = info.total - before.length * info.ps := by
    unfold pieceLen
    omega
  rw [missingBytes_concat, hend]
  omega

theorem bytesLeft_of_incomplete {s : TorrentSession} (hs : s.isDownloadComplete = false) :
    s.bytesLeft info = info.total - s.completedPieces * info.ps % 2 ^ 64 := by
  unfold TorrentSession.bytesLeft
  rw [if_neg (by simp [hs])]
  show (if u64 (s.completedPieces * info.ps) ≥ info.total then 0
    else info.total - u64 (s.completedPieces * info.ps)) = _
  unfold u64
  split <;> omega

/-- There is room for one more piece where one is missing. -/
theorem all_or_count_mul_le (info : TorrentInfo) (before : List PieceStatus) :
    (∀ st ∈ before, st = .have_) ∧ before.count .have_ = before.length ∨
      (¬ ∀ st ∈ before, st = .have_) ∧
        before.count .have_ * info.ps + info.ps ≤ before.length * info.ps := by
  by_cases hall : ∀ st ∈ before, st = .have_
  · exact .inl ⟨hall, List.count_eq_length.mpr fun st hst => (hall st hst).symm⟩
  · have hne : before.count .have_ ≠ before.length := fun h =>
      hall fun st hst => (List.count_eq_length.mp h st hst).symm
    have hlt : before.count .have_ < before.length := lt_of_le_of_ne count_le_length hne
    have hmul := Nat.mul_le_mul_right info.ps hlt
    rw [Nat.succ_mul] at hmul
    exact .inr ⟨hall, hmul⟩

theorem dvd_total_iff {n : Nat} (hlt : n * info.ps < info.total)
    (hle : info.total ≤ n * info.ps + info.ps) :
    info.ps ∣ info.total ↔ info.total = n * info.ps + info.ps := by
  constructor
  · rintro ⟨k, hk⟩
    rw [hk, Nat.mul_comm _ k] at hlt
    have hnext : (n + 1) * info.ps ≤ k * info.ps :=
      Nat.mul_le_mul_right _ (Nat.lt_of_mul_lt_mul_right hlt)
    rw [Nat.succ_mul, Nat.mul_comm k, ← hk] at hnext
    omega
  · intro h
    rw [h, ← Nat.succ_mul]
    exact Nat.dvd_mul_left ..

/-- The bytes left are those of the missing pieces, and 0 only if there is none, exactly with
    metadata when the download is marked complete, the last piece is missing, it is as long as the
    others, or all pieces are there and counting the last one as whole fits into 64 bits. -/
theorem bytes_left_missing (info : TorrentInfo) (s : TorrentSession) (hs : s.Counts info) :
    ((s.pieceStatus ≠ [] → s.bytesLeft info = info.missingBytes s.pieceStatus) ∧
      (s.bytesLeft info = 0 → s.HasAll)) ↔
    s.pieceStatus ≠ [] ∧ (s.isDownloadComplete = true ∨ s.pieceStatus.getLast? ≠ some .have_ ∨
      info.ps ∣ info.total ∨ (s.HasAll ∧ s.pieceStatus.length * info.ps < 2 ^ 64)) := by
  have htotal : info.total < 2 ^ 64 := info.totalSize.toNat_lt
  cases hflag : s.isDownloadComplete with
  | true =>
    have hall := hs.complete hflag
    have hleft : s.bytesLeft info = 0 := if_pos hflag
    simp [hleft, hall, hall.1, missingBytes_all hall.2]
  | false =>
    rw [bytesLeft_of_incomplete hflag, hs.counter]
    rcases eq_nil_or_concat' s.pieceStatus with hnil | ⟨before, last, hstatus⟩
    · simp [hnil, hs.no_metadata hnil, TorrentSession.HasAll]
    obtain ⟨-, hlt, hle⟩ := hs.pieces (by simp [hstatus])
    have hps : info.ps < 2 ^ 32 := info.pieceSize.toNat_lt
    have hall : s.HasAll ↔ last = .have_ ∧ ∀ st ∈ before, st = .have_ := by
      simp [TorrentSession.HasAll, hstatus, or_imp, forall_and, and_comm]
    rw [hall]
    simp only [hstatus, length_append, length_singleton, Nat.succ_mul,
      Nat.add_sub_cancel] at hlt hle ⊢
    have hmissing := missingBytes_last last hlt hle
    have hdvd := dvd_total_iff hlt hle
    have hcount := all_or_count_mul_le info before
    have hwhole : before.count .have_ * info.ps ≤ before.length * info.ps :=
      Nat.mul_le_mul_right _ count_le_length
    generalize (∀ st ∈ before, st = PieceStatus.have_) = all at *
    by_cases hlast : last = .have_
    · rw [if_pos hlast] at hmissing
      simp [hlast, hdvd, Nat.succ_mul]
      rw [hlast] at hmissing
      rcases hcount with ⟨hbefore, hcount⟩ | ⟨hbefore, hcount⟩
      · -- only the sum of all pieces may not fit into 64 bits
        rw [hcount] at hmissing ⊢
        simp [hbefore]
        omega
      · simp [hbefore]
        omega
    · rw [if_neg hlast] at hmissing
      simp [hlast]
      omega

def threeByteInfo : TorrentInfo where
  totalSize := 3
  pieceSize := 2
  pieces := List.replicate 40 0

def threeByteSession (status : List PieceStatus) : TorrentSession where
  pieceStatus := status
  completedPieces := status.count .have_
  manager := .start fun _ => none

theorem bytes_left_missing_last :
    (threeByteSession [.have_, .needed]).bytesLeft threeByteInfo = 1 :=
  ((bytes_left_missing threeByteInfo (threeByteSession [.have_, .needed])
    (by constructor <;> decide)).mpr (by decide)).1 (by decide)

/-- The last piece is there and the first is not: one byte too few. -/
theorem bytes_left_short_piece :
    (threeByteSession [.needed, .have_]).bytesLeft threeByteInfo = 1 ∧
      threeByteInfo.missingBytes [.needed, .have_] = 2 := by
  decide

namespace AnnounceLoop

/-- The first announce was `started`, and `completed` came at most once, and only if the flag is
    set. -/
def Started (turns : List AnnounceTurn) (s : AnnounceLoop) : Prop :=
  s.announces.head? = some .started ∧ s.event = .none ∧
    s.announces.count .completed ≤ s.completedEventSent.toNat ∧
    (s.completedEventSent = true → ∃ t ∈ turns, t.isCompleted = true)

theorem Started.turn {turns : List AnnounceTurn} {s s' : AnnounceLoop} {t : AnnounceTurn}
    (hturn : s.turn .hybrid t = some s') (h : Started turns s) : Started (turns ++ [t]) s' := by
  obtain ⟨hhead, hevent, hcount, hsent⟩ := h
  unfold AnnounceLoop.turn at hturn
  split at hturn
  · cases hturn
  · rw [if_neg (by simp)] at hturn
    cases hturn
    -- the flag is set in this turn or not
    split
    · next h =>
      have hnone : s.announces.count .completed = 0 := by simpa [h.2.1] using hcount
      refine ⟨?_, rfl, ?_, fun _ => ⟨t, by simp, h.1⟩⟩
      · split <;> simp [head?_append, hhead]
      · split <;> simp [hnone]
    · refine ⟨?_, rfl, ?_, fun h => ?_⟩
      · split <;> simp [head?_append, hhead]
      · split <;> simp [hcount, hevent]
      · obtain ⟨u, hu, hcomplete⟩ := hsent h
        exact ⟨u, by simp [hu], hcomplete⟩

/-- When the first turn of the loop announces and finds the download not complete, the first
    announce says `started`, and `completed` is said at most once, after a later turn found it complete. -/
theorem announce_events (t : AnnounceTurn) (turns : List AnnounceTurn) (s : AnnounceLoop)
    (hrun : runSteps (turn .hybrid) (t :: turns) {} = some s) (hstart : t.isCompleted = false)
    (htracker : t.hasTracker = true) :
    s.announces.head? = some .started ∧ s.announces.count .completed ≤ 1 ∧
      (.completed ∈ s.announces → ∃ u ∈ turns, u.isCompleted = true) := by
  obtain ⟨s₁, hfirst, hrest⟩ := Option.bind_eq_some_iff.mp hrun
  have h₁ : Started [] s₁ := by
    simp only [turn, hstart, htracker] at hfirst
    cases hfirst
    exact ⟨rfl, rfl, Nat.le_refl _, nofun⟩
  obtain ⟨hhead, -, hcount, hsent⟩ :=
    runSteps_history_preserves (fun _ _ _ _ => Started.turn) hrest h₁
  refine ⟨hhead, hcount.trans (Bool.toNat_le _), fun hmem => hsent ?_⟩
  have hpos := count_pos_iff.mpr hmem
  cases hsent : s.completedEventSent <;> simp [hsent] at hcount ⊢
  omega

theorem announce_events_download :
    ∃ s, runSteps (turn .hybrid)
        [⟨false, true, false⟩, ⟨false, false, false⟩, ⟨true, true, false⟩, ⟨true, true, true⟩] {} =
          some s ∧
      s.announces = [.started, .completed, .none] ∧ s.announces.count .completed ≤ 1 :=
  ⟨_, rfl, rfl, (announce_events ⟨false, true, false⟩
    [⟨false, false, false⟩, ⟨true, true, false⟩, ⟨true, true, true⟩] _ rfl rfl rfl).2.1⟩

/-- The resume data have every piece: the first announce says `completed`. And without a tracker in
    the first turn the first announce has no event. -/
theorem first_announce_completed :
    (∃ s, runSteps (turn .hybrid) [⟨true, true, false⟩] {} = some s ∧
      s.announces = [.completed]) ∧
    ∃ s, runSteps (turn .hybrid) [⟨false, false, false⟩, ⟨false, true, false⟩] {} = some s ∧
      s.announces = [.none] :=
  ⟨⟨_, rfl, rfl⟩, _, rfl, rfl⟩

end AnnounceLoop

end P2P
