import P2P.ForStd.Tasks
import P2P.Native.Downloader

/-!
# The in-flight window

The downloader looks at the number of pieces in progress when it wakes; the coroutines it spawns add
one piece each at most, later.
-/

namespace P2P

open List

namespace Fill

def pending (fill : Fill) : Bool :=
  match fill.stage with
  | .choosing | .awaitingPeers _ => true
  | .added .. => false

end Fill

namespace Downloader

variable {s s' : Downloader}

def inFlight (s : Downloader) : Nat := s.inProgressPieces.entries.length

def pending (s : Downloader) : Nat := s.fills.countP Fill.pending

/-- With what the wakes spawn, pieces in progress and pending coroutines are within the limit. -/
def Fits (s : Downloader) : DownloadStep → Prop
  | .wake unchoked proven =>
    s.inFlight + s.pending + (s.spawned unchoked proven).length ≤ maxInFlightPieces
  | _ => True

instance Fits.decidable (s : Downloader) : (a : DownloadStep) → Decidable (s.Fits a) := by
  intro st
  unfold Fits
  split <;> infer_instance

theorem setPrimary_inFlight (s : Downloader) (piece : Nat) (primary : Option Bytes) :
    (s.setPrimary piece primary).inFlight = s.inFlight := by
  unfold setPrimary
  split
  next h =>
    obtain ⟨old, hold⟩ := Option.isSome_iff_exists.mp h
    simp only [inFlight, OrdMap.length_insert]
    exact OrdMap.length_erase hold
  next => rfl

@[simp] theorem setPrimary_fills (s : Downloader) (piece : Nat) (primary : Option Bytes) :
    (s.setPrimary piece primary).fills = s.fills := by
  unfold setPrimary
  split <;> rfl

variable {i : Nat} {fill : Fill}

section

variable (hi : s.fills[i]? = some fill)

include hi

theorem goTo_pending (stage : FillStage) :
    (s.goTo i fill stage).pending + fill.pending.toNat =
      s.pending + (Fill.pending ⟨fill.kind, stage⟩).toNat :=
  countP_set_add hi _ Fill.pending

theorem finish_pending : (s.finish i).pending + fill.pending.toNat = s.pending :=
  countP_eraseIdx_add hi Fill.pending

theorem goTo_load (hfill : fill.pending = true) (stage : FillStage) :
    (s.goTo i fill stage).inFlight + (s.goTo i fill stage).pending ≤ s.inFlight + s.pending := by
  have hp := goTo_pending hi stage
  have hle := Bool.toNat_le (Fill.pending ⟨fill.kind, stage⟩)
  have hflight : (s.goTo i fill stage).inFlight = s.inFlight := rfl
  rw [hfill, Bool.toNat_true] at hp
  omega

theorem finish_load : (s.finish i).inFlight + (s.finish i).pending ≤ s.inFlight + s.pending := by
  have hp := finish_pending hi
  have hflight : (s.finish i).inFlight = s.inFlight := rfl
  omega

end

theorem setPrimary_load (s : Downloader) (piece : Nat) (primary : Option Bytes) :
    (s.setPrimary piece primary).inFlight + (s.setPrimary piece primary).pending =
      s.inFlight + s.pending := by
  rw [setPrimary_inFlight, pending, setPrimary_fills, pending]

theorem onPeers_load {piece : Nat} (hi : s.fills[i]? = some fill) (hfill : fill.pending = true)
    (available : List Bytes) (eligible : Bytes → Bool) :
    (s.onPeers i fill piece available eligible).inFlight +
      (s.onPeers i fill piece available eligible).pending ≤ s.inFlight + s.pending := by
  unfold onPeers
  split
  next => exact goTo_load hi hfill .choosing
  next primary _ =>
    have hp := goTo_pending (s := s.addPiece piece) hi (.added piece primary)
    have hle := s.inProgressPieces.length_emplace_le piece none
    have hpending : (s.addPiece piece).pending = s.pending := rfl
    rw [hfill, show Fill.pending ⟨fill.kind, .added piece primary⟩ = false from rfl, hpending,
      Bool.toNat_true, Bool.toNat_false] at hp
    change (s.inProgressPieces.emplace piece none).entries.length +
      ((s.addPiece piece).goTo i fill (.added piece primary)).pending ≤ _
    simp only [inFlight]
    omega

/-- **A coroutine adds a piece at the cost of a pending one**, and only a wake makes new ones. -/
theorem step_load {a : DownloadStep} (ha : s.Fits a) (hstep : s.step a = some s')
    (h : s.inFlight + s.pending ≤ maxInFlightPieces) :
    s'.inFlight + s'.pending ≤ maxInFlightPieces := by
  cases a with
  | wake unchoked proven =>
    cases hstep
    have hcount : (s.wake unchoked proven).pending =
        s.pending + (s.spawned unchoked proven).countP Fill.pending := countP_append ..
    have hle : (s.spawned unchoked proven).countP Fill.pending ≤ _ := countP_le_length
    have hflight : (s.wake unchoked proven).inFlight = s.inFlight := rfl
    simp only [Fits] at ha
    omega
  | tryPiece i piece =>
    simp only [step] at hstep
    split at hstep
    next kind hi =>
      split at hstep
      next =>
        cases hstep
        exact (goTo_load hi rfl (.awaitingPeers piece)).trans h
      next =>
        cases hstep
        exact h
    next => cases hstep
  | peers i available eligible =>
    simp only [step] at hstep
    split at hstep
    next kind piece hi =>
      cases hstep
      exact (onPeers_load hi rfl available eligible).trans h
    next => cases hstep
  | assign i =>
    simp only [step] at hstep
    split at hstep
    next kind piece primary hi =>
      cases hstep
      have hi' : (s.setPrimary piece (some primary)).fills[i]? =
          some ⟨kind, .added piece primary⟩ := by
        rw [setPrimary_fills, hi]
      exact ((finish_load hi').trans_eq (setPrimary_load s piece (some primary))).trans h
    next => cases hstep
  | giveUp i =>
    simp only [step] at hstep
    split at hstep
    next kind hi =>
      cases hstep
      exact (finish_load hi).trans h
    next => cases hstep
  | setStatus piece status =>
    cases hstep
    exact h
  | remove piece =>
    cases hstep
    have hle := (s.inProgressPieces.entries_erase_sublist piece).length_le
    simp only [inFlight, pending] at h ⊢
    omega
  | removeAll =>
    cases hstep
    simp only [inFlight, pending, OrdMap.empty, length_nil] at h ⊢
    omega
  | demote piece =>
    cases hstep
    rw [setPrimary_load]
    exact h

/-- **There are never more pieces in progress than `kMaxInFlightPieces`**, in every run from an
    empty map whose wakes leave room for the pending coroutines. -/
theorem inProgressPieces_le {status : List PieceStatus} {rotor : Nat} {es : List DownloadStep}
    (hrun : runSteps step es { status, primaryRotor := rotor } = some s)
    (hfits : StepsMeet step Fits es { status, primaryRotor := rotor }) :
    s.inProgressPieces.entries.length ≤ maxInFlightPieces := by
  have hload : s.inFlight + s.pending ≤ maxInFlightPieces :=
    runSteps_invariant (I := fun s => s.inFlight + s.pending ≤ maxInFlightPieces)
      (fun _ _ _ ha hstep h => step_load ha hstep h) hfits hrun (Nat.zero_le _)
  exact (Nat.le_add_right _ _).trans hload

def addFor (piece : Nat) (peer : UInt8) : List DownloadStep :=
  [.tryPiece 0 piece, .peers 0 [[peer]] fun _ => true, .assign 0]

theorem inProgressPieces_le_two :
    let es := .wake 1 (fun _ => true) :: (addFor 1 0 ++ addFor 0 0)
    ∃ s, runSteps step es { status := [.needed, .needed], primaryRotor := 0 } = some s ∧
      s.inProgressPieces.entries.length = 2 ∧
      s.inProgressPieces.entries.length ≤ maxInFlightPieces := by
  intro es
  have hrun : runSteps step es { status := [.needed, .needed], primaryRotor := 0 } = some _ := rfl
  exact ⟨_, hrun, rfl, inProgressPieces_le hrun (by decide)⟩

/-- Nine wakes before any of the coroutines has run. -/
theorem inProgressPieces_exceeded :
    let es := replicate 9 (.wake 64 fun _ => true) ++
      (range 257).reverse.flatMap fun piece => addFor piece 0
    ∃ s, runSteps step es
        { status := replicate 257 .needed, primaryRotor := 0 } = some s ∧
      s.inProgressPieces.entries.length = 257 := by
  intro es
  have hcount : (runSteps step es { status := replicate 257 .needed, primaryRotor := 0 }).map
      (fun s => s.inProgressPieces.entries.length) = some 257 := by
    decide +kernel
  exact Option.map_eq_some_iff.mp hcount

end Downloader

end P2P
