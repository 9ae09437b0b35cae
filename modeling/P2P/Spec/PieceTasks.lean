import P2P.Spec.PieceBlock
import P2P.Spec.PieceBoard

/-!
# The coroutines of a session move its pieces

The board says which pieces have an entry, whether it is full, and which coroutines have got the
last block of a piece.
-/

namespace P2P

open PieceTask PieceStep PieceRun InProgressPiece List Option OrdMap Function

/-! ## Entries -/

namespace InProgressPiece

structure Sane (p : InProgressPiece) : Prop where
  flags : p.blocksReceived.length = p.totalBlocks
  count : p.receivedCount = p.blocksReceived.count true
  total_lt : p.totalBlocks < 2 ^ 32

def isFull (p : InProgressPiece) : Bool := p.receivedCount = p.totalBlocks

variable {p p' : InProgressPiece} {b begin : Nat} {block : Bytes}

theorem new_sane (pieceSize : Nat) : (new pieceSize).Sane where
  flags := length_replicate
  count := by
    show 0 = _
    rw [show (new pieceSize).blocksReceived = replicate (blockCount pieceSize) false from rfl,
      count_replicate]
    rfl
  total_lt := Nat.mod_lt _ (by decide)

theorem count_set_true {flags : List Bool} (hb : b < flags.length) (hopen : flags[b]? ≠ some true) :
    (flags.set b true).count true = flags.count true + 1 := by
  have hfalse : flags[b] ≠ true := fun h => hopen (h ▸ getElem?_eq_getElem hb)
  rw [count_set hb]
  simp [hfalse]

theorem Sane.lt_of_open (hp : p.Sane) (hopen : p.Open b) : p.receivedCount < p.totalBlocks := by
  -- with this flag set as well there are still no more flags than blocks
  have hlen : (p.blocksReceived.set b true).length = p.blocksReceived.length := length_set
  have hle : (p.blocksReceived.set b true).count true ≤ p.blocksReceived.length := by
    rw [← hlen]
    exact count_le_length
  rw [count_set_true hopen.1 hopen.2, ← hp.count, hp.flags] at hle
  exact hle

theorem Sane.not_full (hp : p.Sane) (hopen : p.Open b) : p.isFull = false := by
  have := hp.lt_of_open hopen
  unfold isFull
  rw [decide_eq_false_iff_not]
  omega

theorem Sane.store (hp : p.Sane) (hopen : p.Open b) (h : p.store b begin block = some p') :
    p'.Sane := by
  obtain ⟨-, -, hflags, hcount, htotal⟩ := store_some h
  have hlt := hp.lt_of_open hopen
  refine ⟨?_, ?_, ?_⟩
  · rw [hflags, length_set, htotal]
    exact hp.flags
  · -- the counter of 32 bits does not wrap around
    have hsmall : p.receivedCount + 1 < 2 ^ 32 := Nat.lt_of_le_of_lt hlt hp.total_lt
    rw [hflags, count_set_true hopen.1 hopen.2, hcount, u32, Nat.mod_eq_of_lt hsmall, hp.count]
  · rw [htotal]
    exact hp.total_lt

theorem restoreBlock_sane {bits : Bytes} {i : Nat} (hp : p.Sane) (hi : i < p.totalBlocks)
    (hrest : ∀ j, i ≤ j → p.blocksReceived[j]? ≠ some true) :
    (restoreBlock bits p i).Sane ∧ (restoreBlock bits p i).totalBlocks = p.totalBlocks ∧
      ∀ j, i + 1 ≤ j → (restoreBlock bits p i).blocksReceived[j]? ≠ some true := by
  have hopen : p.Open i := ⟨by rw [hp.flags]; exact hi, hrest i (Nat.le_refl i)⟩
  unfold restoreBlock
  split
  · refine ⟨⟨?_, ?_, hp.total_lt⟩, rfl, fun j hj => ?_⟩
    · dsimp only
      rw [length_set]
      exact hp.flags
    · have hlt := hp.lt_of_open hopen
      have hsmall : p.receivedCount + 1 < 2 ^ 32 := Nat.lt_of_le_of_lt hlt hp.total_lt
      dsimp only
      rw [count_set_true hopen.1 hopen.2, u32, Nat.mod_eq_of_lt hsmall, hp.count]
    · dsimp only
      rw [getElem?_set_ne (by omega)]
      exact hrest j (by omega)
  · exact ⟨hp, rfl, fun j hj => hrest j (by omega)⟩

theorem restore_loop (pieceSize : Nat) (bits : Bytes) :
    (restore pieceSize bits).Sane ∧
      (restore pieceSize bits).totalBlocks = blockCount pieceSize := by
  -- the loop sets the flags in order, so those behind the current one are not set
  have hloop : ∀ n ≤ blockCount pieceSize,
      ((range n).foldl (restoreBlock bits) (new pieceSize)).Sane ∧
      ((range n).foldl (restoreBlock bits) (new pieceSize)).totalBlocks =
        blockCount pieceSize ∧
      ∀ j, n ≤ j →
        ((range n).foldl (restoreBlock bits) (new pieceSize)).blocksReceived[j]? ≠ some true := by
    intro n
    induction n with
    | zero =>
      intro _
      refine ⟨new_sane pieceSize, rfl, fun j _ h => ?_⟩
      exact absurd (eq_of_mem_replicate (mem_of_getElem? h)) (by decide)
    | succ n ih =>
      intro hn
      obtain ⟨hsane, htotal, hrest⟩ := ih (by omega)
      rw [range_succ, foldl_append, foldl_cons, foldl_nil]
      obtain ⟨h₁, h₂, h₃⟩ := restoreBlock_sane hsane (by omega) hrest
      exact ⟨h₁, h₂.trans htotal, h₃⟩
  obtain ⟨hsane, htotal, -⟩ := hloop _ (Nat.le_refl _)
  exact ⟨hsane, htotal⟩

theorem restore_sane (pieceSize : Nat) (bits : Bytes) : (restore pieceSize bits).Sane :=
  (restore_loop pieceSize bits).1

theorem restore_total (pieceSize : Nat) (bits : Bytes) :
    (restore pieceSize bits).totalBlocks = blockCount pieceSize :=
  (restore_loop pieceSize bits).2

end InProgressPiece

/-! ## The board -/

namespace PieceTask

/-- The piece of a task that has got its last block and has not written or returned it. -/
def busyPiece : PieceTask → Option Nat
  | .completing c => some c.piece
  | .returning piece => some piece
  | .writing piece => some piece
  | _ => none

def announcedPiece : PieceTask → Option Nat
  | .announcing piece => some piece
  | _ => none

def verification : PieceTask → Option (Nat × Nat)
  | .verifying next haveCount => some (next, haveCount)
  | _ => none

end PieceTask

namespace TorrentSession

def entries (s : TorrentSession) (p : Nat) : Option Bool :=
  (s.inProgressPieces.get? p).map isFull

end TorrentSession

def tasksOf {β : Type} (f : PieceTask → Option β) (tasks : List PieceTask) : Multiset β :=
  (tasks.filterMap f : List β)

def PieceRun.board (r : PieceRun) : PieceBoard where
  status := r.session.pieceStatus
  completed := r.session.completedPieces
  complete := r.session.isDownloadComplete
  entry := r.session.entries
  busy := tasksOf busyPiece r.tasks
  announced := tasksOf announcedPiece r.tasks
  verifying := tasksOf verification r.tasks

section Tasks

variable {β : Type} {f : PieceTask → Option β} {tasks : List PieceTask} {i : Nat} {t : PieceTask}
  {x : β}

theorem mem_tasksOf : x ∈ tasksOf f tasks ↔ ∃ t ∈ tasks, f t = some x := by
  unfold tasksOf
  rw [Multiset.mem_coe, mem_filterMap]

theorem tasksOf_append (tasks ts : List PieceTask) :
    tasksOf f (tasks ++ ts) = tasksOf f tasks + tasksOf f ts := by
  unfold tasksOf
  rw [filterMap_append, Multiset.coe_add]

theorem tasksOf_idle (tasks : List PieceTask) {ts : List PieceTask} (hts : tasksOf f ts = 0) :
    tasksOf f (tasks ++ ts) = tasksOf f tasks := by
  rw [tasksOf_append, hts, Multiset.add_zero]

theorem tasksOf_eraseIdx (h : tasks[i]? = some t) :
    tasksOf f tasks = tasksOf f [t] + tasksOf f (tasks.eraseIdx i) := by
  obtain ⟨hi, rfl⟩ := List.getElem?_eq_some_iff.mp h
  have hperm := (List.getElem_cons_eraseIdx_perm hi).symm.filterMap f
  rw [← tasksOf_append]
  exact Multiset.coe_eq_coe.mpr hperm

theorem tasksOf_other (h : tasks[i]? = some t) (ts : List PieceTask)
    (hts : tasksOf f ts = tasksOf f [t]) :
    tasksOf f (tasks.eraseIdx i ++ ts) = tasksOf f tasks := by
  rw [tasksOf_append, tasksOf_eraseIdx h, hts, Multiset.add_comm]

theorem tasksOf_leave (h : tasks[i]? = some t) (hf : f t = some x) :
    tasksOf f tasks = x ::ₘ tasksOf f (tasks.eraseIdx i) := by
  rw [tasksOf_eraseIdx h, ← Multiset.singleton_add]
  unfold tasksOf
  rw [filterMap_cons_some hf]
  rfl

theorem tasksOf_join (hf : f t = some x) : tasksOf f (tasks ++ [t]) = x ::ₘ tasksOf f tasks := by
  rw [tasksOf_append, Multiset.add_comm, ← Multiset.singleton_add]
  unfold tasksOf
  rw [filterMap_cons_some hf]
  rfl

end Tasks

/-! ## Steps are moves -/

section Steps

variable {E : Env} {sha1 : Bytes → Bytes} {r r' : PieceRun} {i : Nat}

structure PieceRun.Sane (r : PieceRun) : Prop where
  entries : ∀ p e, r.session.inProgressPieces.get? p = some e → e.Sane
  starting : ∀ p, .starting p ∈ r.tasks → p < r.session.numPieces

variable {session : TorrentSession} {ts : List PieceTask}

theorem board_resume {entry : Nat → Option Bool} {busy announced : Multiset Nat}
    {verifying : Multiset (Nat × Nat)} (hentry : session.entries = entry)
    (hbusy : tasksOf busyPiece (r.tasks.eraseIdx i ++ ts) = busy)
    (hannounced : tasksOf announcedPiece (r.tasks.eraseIdx i ++ ts) = announced)
    (hverifying : tasksOf verification (r.tasks.eraseIdx i ++ ts) = verifying) :
    (r.resume i session ts).board =
      { status := session.pieceStatus
        completed := session.completedPieces
        complete := session.isDownloadComplete
        entry := entry
        busy := busy
        announced := announced
        verifying := verifying } := by
  subst hentry hbusy hannounced hverifying
  rfl

theorem board_resume_same {t : PieceTask} (ht : r.tasks[i]? = some t) (ts : List PieceTask)
    (hbusy : tasksOf busyPiece ts = tasksOf busyPiece [t])
    (hannounced : tasksOf announcedPiece ts = tasksOf announcedPiece [t])
    (hverifying : tasksOf verification ts = tasksOf verification [t]) :
    (r.resume i session ts).board =
      { r.board with
        status := session.pieceStatus
        completed := session.completedPieces
        complete := session.isDownloadComplete
        entry := session.entries } :=
  board_resume rfl (tasksOf_other ht ts hbusy) (tasksOf_other ht ts hannounced)
    (tasksOf_other ht ts hverifying)

theorem startPiece_pieces (E : Env) (s : TorrentSession) (piece : Nat) (primary : Bytes) :
    (s.startPiece E piece primary).inProgressPieces =
      match (s.inProgressPieces.emplace piece
          (.new (E.info.pieceSizeOf s.numPieces piece))).get? piece with
      | some progress => (s.inProgressPieces.emplace piece
          (.new (E.info.pieceSizeOf s.numPieces piece))).insert piece (progress.requestAll primary)
      | none => s.inProgressPieces.emplace piece
          (.new (E.info.pieceSizeOf s.numPieces piece)) := rfl

theorem get?_requestAll (m : OrdMap Nat InProgressPiece) (piece p : Nat) (fresh : InProgressPiece)
    (primary : Bytes) :
    ((match (m.emplace piece fresh).get? piece with
      | some progress => (m.emplace piece fresh).insert piece (progress.requestAll primary)
      | none => m.emplace piece fresh).get? p) =
    if p = piece then some (((m.get? piece).getD fresh).requestAll primary) else m.get? p := by
  have h : (m.emplace piece fresh).get? piece = some ((m.get? piece).getD fresh) := by
    rw [get?_emplace, if_pos rfl]
  simp only [h]
  rw [get?_insert, get?_emplace]
  split
  · rfl
  · rfl

theorem startPiece_get? (E : Env) (s : TorrentSession) (piece : Nat) (primary : Bytes) (p : Nat) :
    (s.startPiece E piece primary).inProgressPieces.get? p =
      if p = piece then
        some (((s.inProgressPieces.get? piece).getD
          (.new (E.info.pieceSizeOf s.numPieces piece))).requestAll primary)
      else s.inProgressPieces.get? p := by
  rw [startPiece_pieces]
  exact get?_requestAll ..

theorem entries_startPiece (E : Env) (s : TorrentSession) (piece : Nat) (primary : Bytes) :
    ∃ full, (s.startPiece E piece primary).entries =
      update s.entries piece (some ((s.entries piece).getD full)) := by
  -- the new entry is not looked into
  obtain ⟨fresh, hfresh⟩ : ∃ fresh, new (E.info.pieceSizeOf s.numPieces piece) = fresh := ⟨_, rfl⟩
  refine ⟨fresh.isFull, funext fun p => ?_⟩
  unfold TorrentSession.entries
  rw [startPiece_get?, hfresh, update_apply]
  split
  · cases s.inProgressPieces.get? piece with
    | none => rfl
    | some e => rfl
  · rfl

theorem entries_erase (s : TorrentSession) (piece p : Nat) :
    ((s.inProgressPieces.erase piece).get? p).map isFull =
      update s.entries piece none p := by
  rw [get?_erase, update_apply]
  split
  · rfl
  · rfl

variable {piece : Nat}

theorem peersFound_moves {primary : Bytes} (hr : r.Sane)
    (ht : r.tasks[i]? = some (.starting piece)) :
    r.board.Moves (.start piece) (r.resume i (r.session.startPiece E piece primary) []).board := by
  have hlt : piece < r.board.status.length := hr.starting piece (mem_of_getElem? ht)
  obtain ⟨full, hentries⟩ := entries_startPiece E r.session piece primary
  rw [board_resume_same ht [] rfl rfl rfl, hentries]
  exact .start r.board piece full hlt

theorem pieceReturned_moves (ht : r.tasks[i]? = some (.returning piece)) :
    r.board.Moves (.returned piece)
      (r.resume i (r.session.returnPieceToQueue piece) []).board := by
  have hentry : (r.session.returnPieceToQueue piece).entries =
      update r.session.entries piece none := funext (entries_erase r.session piece)
  rw [board_resume hentry rfl (tasksOf_other ht [] rfl) (tasksOf_other ht [] rfl), append_nil]
  exact .returned r.board piece _ (tasksOf_leave ht rfl)

theorem pieceWritten_moves (ht : r.tasks[i]? = some (.writing piece)) :
    r.board.Moves (.written piece)
      (r.resume i (r.session.markHave piece) [.announcing piece]).board := by
  have hannounced : tasksOf announcedPiece (r.tasks.eraseIdx i ++ [.announcing piece]) =
      piece ::ₘ tasksOf announcedPiece r.tasks := by
    have hsame : tasksOf announcedPiece (r.tasks.eraseIdx i ++ []) =
        tasksOf announcedPiece r.tasks := tasksOf_other ht [] rfl
    rw [← hsame, append_nil]
    exact tasksOf_join rfl
  rw [board_resume rfl (tasksOf_idle _ rfl) hannounced (tasksOf_other ht _ rfl)]
  exact .written r.board piece _ (tasksOf_leave ht rfl)

variable {s s' : TorrentSession}

theorem leaveProgress_eq (h : s.leaveProgress E piece = some s') :
    s'.pieceStatus = s.pieceStatus ∧ s'.completedPieces = s.completedPieces ∧
      s'.isDownloadComplete = (s.isDownloadComplete || decide (s.completedPieces = s.numPieces)) ∧
      s'.inProgressPieces = s.inProgressPieces.erase piece := by
  unfold TorrentSession.leaveProgress at h
  dsimp only at h
  split at h
  · next hall =>
    have hall' : s.completedPieces = s.numPieces := hall
    obtain ⟨manager, -, h₁⟩ := bind_eq_some_iff.mp h
    rw [← some.inj h₁, decide_eq_true hall', Bool.or_true]
    exact ⟨rfl, rfl, rfl, rfl⟩
  · next hmore =>
    have hmore' : ¬ s.completedPieces = s.numPieces := hmore
    rw [← some.inj h, decide_eq_false hmore', Bool.or_false]
    exact ⟨rfl, rfl, rfl, rfl⟩

theorem haveSent_moves (ht : r.tasks[i]? = some (.announcing piece))
    (h : r.session.leaveProgress E piece = some session) :
    r.board.Moves (.removed piece) (r.resume i session []).board := by
  obtain ⟨hstatus, hcompleted, hcomplete, hpieces⟩ := leaveProgress_eq h
  have hentry : session.entries = update r.session.entries piece none := by
    funext p
    unfold TorrentSession.entries
    rw [hpieces]
    exact entries_erase r.session piece p
  rw [board_resume hentry (tasksOf_other ht [] rfl) rfl (tasksOf_other ht [] rfl), append_nil,
    hstatus, hcompleted, hcomplete]
  exact .removed r.board piece _ (tasksOf_leave ht rfl)

theorem moves_idle (hstatus : r'.session.pieceStatus = r.session.pieceStatus)
    (hcompleted : r'.session.completedPieces = r.session.completedPieces)
    (hcomplete : r'.session.isDownloadComplete = r.session.isDownloadComplete)
    (hentry : r'.session.entries = r.session.entries)
    (hbusy : tasksOf busyPiece r'.tasks = tasksOf busyPiece r.tasks)
    (hannounced : tasksOf announcedPiece r'.tasks = tasksOf announcedPiece r.tasks)
    (hverifying : tasksOf verification r'.tasks = tasksOf verification r.tasks) :
    r.board.Moves .idle r'.board := by
  have hboard : r'.board = r.board := by
    unfold board
    rw [hstatus, hcompleted, hcomplete, hentry, hbusy, hannounced, hverifying]
  rw [hboard]
  exact .idle r.board

structure TorrentSession.KeepsPieces (s s' : TorrentSession) : Prop where
  status : s'.pieceStatus = s.pieceStatus
  completed : s'.completedPieces = s.completedPieces
  complete : s'.isDownloadComplete = s.isDownloadComplete
  pieces : s'.inProgressPieces = s.inProgressPieces

theorem TorrentSession.KeepsPieces.entries (h : s.KeepsPieces s') : s'.entries = s.entries := by
  unfold TorrentSession.entries
  rw [h.pieces]

theorem moves_keeps (h : r.session.KeepsPieces r'.session)
    (hbusy : tasksOf busyPiece r'.tasks = tasksOf busyPiece r.tasks)
    (hannounced : tasksOf announcedPiece r'.tasks = tasksOf announcedPiece r.tasks)
    (hverifying : tasksOf verification r'.tasks = tasksOf verification r.tasks) :
    r.board.Moves .idle r'.board :=
  moves_idle h.status h.completed h.complete h.entries hbusy hannounced hverifying

theorem resume_keeps {t : PieceTask} (ht : r.tasks[i]? = some t)
    (h : r.session.KeepsPieces session) (hbusy : tasksOf busyPiece ts = tasksOf busyPiece [t])
    (hannounced : tasksOf announcedPiece ts = tasksOf announcedPiece [t])
    (hverifying : tasksOf verification ts = tasksOf verification [t]) :
    r.board.Moves .idle (r.resume i session ts).board :=
  moves_keeps h (tasksOf_other ht ts hbusy) (tasksOf_other ht ts hannounced)
    (tasksOf_other ht ts hverifying)

variable {c : Completion}

theorem hashPiece_keeps {good : Bool} (h : s.hashPiece E sha1 c = some (s', good)) :
    s.KeepsPieces s' := by
  unfold TorrentSession.hashPiece at h
  split at h
  · cases h
    exact ⟨rfl, rfl, rfl, rfl⟩
  · obtain ⟨manager, -, h₁⟩ := bind_eq_some_iff.mp h
    cases h₁
    exact ⟨rfl, rfl, rfl, rfl⟩

theorem hashPiece_moves {good : Bool} (ht : r.tasks[i]? = some (.completing c))
    (h : r.session.hashPiece E sha1 c = some (session, good)) :
    r.board.Moves .idle
      (r.resume i session [if good then .writing c.piece else .returning c.piece]).board := by
  cases good <;> exact resume_keeps ht (hashPiece_keeps h) rfl rfl rfl

theorem entries_insert {e : InProgressPiece}
    (h : s'.inProgressPieces = s.inProgressPieces.insert piece e) :
    s'.entries = update s.entries piece (some e.isFull) := by
  funext p
  unfold TorrentSession.entries
  rw [h, get?_insert, update_apply]
  split
  · rfl
  · rfl

theorem board_append {entry : Nat → Option Bool}
    (hstatus : session.pieceStatus = r.session.pieceStatus)
    (hcompleted : session.completedPieces = r.session.completedPieces)
    (hcomplete : session.isDownloadComplete = r.session.isDownloadComplete)
    (hentry : session.entries = entry) :
    board { session := session, tasks := r.tasks ++ [.completing c] } =
      { r.board with entry := entry, busy := c.piece ::ₘ r.board.busy } := by
  have hbusy : tasksOf busyPiece (r.tasks ++ [.completing c]) =
      c.piece ::ₘ tasksOf busyPiece r.tasks := tasksOf_join rfl
  unfold board
  dsimp only
  rw [hstatus, hcompleted, hcomplete, hentry, hbusy, tasksOf_idle r.tasks rfl,
    tasksOf_idle r.tasks rfl]

theorem pieceBlock_moves {peer : Peer} {index begin : UInt32} {block : Bytes} (hr : r.Sane)
    (h : step E sha1 r (.pieceBlock peer index begin block) = some r') :
    ∃ ev, r.board.Moves ev r'.board ∧ (ev = .idle ∨ ev = .last index.toNat) := by
  rw [step] at h
  cases hblock : r.session.onPieceBlock E peer index begin block with
  | none =>
    rw [hblock] at h
    cases h
  | some res =>
    obtain ⟨session, outcome⟩ := res
    rw [hblock] at h
    obtain ⟨⟨hstatus, hcompleted, hcomplete⟩, hwanted⟩ :=
      TorrentSession.onPieceBlock_status E peer hblock
    cases TorrentSession.onPieceBlock_cases E peer hblock with
    | inl hidle =>
      obtain ⟨rfl, houtcome⟩ := hidle
      have hr' : r' = r := by
        rcases houtcome with rfl | rfl
        · exact (some.inj h).symm
        · exact (some.inj h).symm
      rw [hr']
      exact ⟨.idle, .idle r.board, .inl rfl⟩
    | inr hstored =>
      obtain ⟨e, e₁, requests, cancels, he, hopen, hstore, rfl, -, hpieces⟩ := hstored
      obtain ⟨hlt, hne⟩ := hwanted _ _ rfl
      have hfalse : r.session.entries index.toNat = some false := by
        unfold TorrentSession.entries
        rw [he, map_some, (hr.entries _ e he).not_full hopen]
      have hentry := entries_insert hpieces
      by_cases hlast : e₁.receivedCount = e₁.totalBlocks
      · -- the last block: the piece is busy from now on
        rw [decide_eq_true hlast] at h
        dsimp only at h
        rw [hpieces, get?_insert, if_pos rfl] at h
        refine ⟨.last index.toNat, ?_, .inr rfl⟩
        have hfull : isFull { e₁ with outstandingRequests := requests } = true :=
          decide_eq_true hlast
        rw [hfull] at hentry
        rw [← some.inj h, board_append hstatus hcompleted hcomplete hentry]
        exact .last r.board index.toNat hlt hne hfalse
      · -- the entry is still not full
        have hnot : isFull { e₁ with outstandingRequests := requests } = false :=
          decide_eq_false hlast
        rw [hnot, update_eq_self_iff.mpr hfalse.symm] at hentry
        rw [decide_eq_false hlast] at h
        cases h
        exact ⟨.idle, moves_idle hstatus hcompleted hcomplete hentry rfl rfl rfl, .inl rfl⟩

theorem finishVerify_eq (s : TorrentSession) (haveCount : Nat) :
    (s.finishVerify haveCount).pieceStatus = s.pieceStatus ∧
      (s.finishVerify haveCount).completedPieces = haveCount ∧
      (s.finishVerify haveCount).isDownloadComplete =
        (s.isDownloadComplete || decide (haveCount = s.numPieces)) ∧
      (s.finishVerify haveCount).inProgressPieces = s.inProgressPieces := by
  unfold TorrentSession.finishVerify
  dsimp only
  split
  · next hall =>
    have hall' : haveCount = s.numPieces := hall
    rw [decide_eq_true hall', Bool.or_true]
    exact ⟨rfl, rfl, rfl, rfl⟩
  · next hmore =>
    have hmore' : ¬ haveCount = s.numPieces := hmore
    rw [decide_eq_false hmore', Bool.or_false]
    exact ⟨rfl, rfl, rfl, rfl⟩

theorem board_verifyFrom {session' : TorrentSession} {others : List PieceTask} {j haveCount : Nat}
    (h : verifyFrom session j haveCount = (session', ts)) :
    board ⟨session', others ++ ts⟩ =
      (board ⟨session, others⟩).verifyFrom (tasksOf verification others) j
        haveCount := by
  unfold verifyFrom at h
  dsimp only at h
  unfold PieceBoard.verifyFrom
  split at h
  · next hlt =>
    obtain ⟨rfl, rfl⟩ := Prod.mk.inj h
    have hlt' : TorrentSession.nextUnskipped (board ⟨session, others⟩).status j <
        (board ⟨session, others⟩).status.length := hlt
    rw [if_pos hlt']
    unfold board
    ext1
    · rfl
    · rfl
    · rfl
    · rfl
    · exact tasksOf_idle _ rfl
    · exact tasksOf_idle _ rfl
    · exact tasksOf_join rfl
  · next hge =>
    obtain ⟨rfl, rfl⟩ := Prod.mk.inj h
    obtain ⟨hstatus, hcompleted, hcomplete, hpieces⟩ := finishVerify_eq session haveCount
    have hge' : ¬ TorrentSession.nextUnskipped (board ⟨session, others⟩).status j <
        (board ⟨session, others⟩).status.length := hge
    rw [if_neg hge', append_nil]
    unfold board TorrentSession.entries
    dsimp only
    rw [hstatus, hcompleted, hcomplete, hpieces]
    rfl

theorem verifyFrom_verifying (b : PieceBoard) (v rest : Multiset (Nat × Nat)) (j count : Nat) :
    PieceBoard.verifyFrom { b with verifying := v } rest j count = b.verifyFrom rest j count := by
  unfold PieceBoard.verifyFrom
  rfl

theorem pieceVerified_inv (h : step E sha1 r (.pieceVerified i) = some r') :
    ∃ next haveCount valid manager session ts,
      r.tasks[i]? = some (.verifying next haveCount) ∧
      verifyFrom ({ r.session with manager := manager }.setVerified next valid) (next + 1)
        (if valid then haveCount + 1 else haveCount) = (session, ts) ∧
      r' = r.resume i session ts := by
  rw [step] at h
  split at h
  · next next haveCount ht =>
    split at h
    · exact nomatch h
    · next valid manager hverify =>
      exact ⟨next, haveCount, valid, manager, _, _, ht, rfl, (some.inj h).symm⟩
  · exact nomatch h

theorem pieceVerified_moves {next haveCount : Nat} {valid : Bool} {manager : FileManager}
    (ht : r.tasks[i]? = some (.verifying next haveCount))
    (h : verifyFrom ({ r.session with manager := manager }.setVerified next valid) (next + 1)
      (if valid then haveCount + 1 else haveCount) = (session, ts)) :
    r.board.Moves .verified (r.resume i session ts).board := by
  have hboard : board
      ⟨{ r.session with manager := manager }.setVerified next valid, r.tasks.eraseIdx i⟩ =
      { r.board with
        status := r.board.status.set next (if valid then .have_ else .needed)
        verifying := tasksOf verification (r.tasks.eraseIdx i) } := by
    have hsame : r.tasks.eraseIdx i = r.tasks.eraseIdx i ++ [] := (append_nil _).symm
    unfold board
    ext1
    · rfl
    · rfl
    · rfl
    · rfl
    · exact hsame ▸ tasksOf_other ht [] rfl
    · exact hsame ▸ tasksOf_other ht [] rfl
    · rfl
  have hresume : (r.resume i session ts).board = PieceBoard.verifyFrom
      { r.board with status := r.board.status.set next (if valid then .have_ else .needed) }
      (tasksOf verification (r.tasks.eraseIdx i)) (next + 1)
      (if valid then haveCount + 1 else haveCount) := by
    rw [← verifyFrom_verifying _ (tasksOf verification (r.tasks.eraseIdx i))]
    exact hboard ▸ board_verifyFrom h
  rw [hresume]
  exact .verified r.board next haveCount valid _ (tasksOf_leave ht rfl)

/-! ## Every step -/

theorem setRequests_keeps (s : TorrentSession) (piece : Nat) (requests : List (List Bytes)) :
    (s.setRequests piece requests).pieceStatus = s.pieceStatus ∧
      (s.setRequests piece requests).completedPieces = s.completedPieces ∧
      (s.setRequests piece requests).isDownloadComplete = s.isDownloadComplete ∧
      (s.setRequests piece requests).entries = s.entries := by
  unfold TorrentSession.setRequests
  split
  · exact ⟨rfl, rfl, rfl, rfl⟩
  · next e he =>
    refine ⟨rfl, rfl, rfl, ?_⟩
    rw [entries_insert rfl]
    apply update_eq_self_iff.mpr
    unfold TorrentSession.entries
    rw [he]
    rfl

theorem checkAndEnterEndgame_keeps (s : TorrentSession) (stalled : Bool) :
    s.KeepsPieces (s.checkAndEnterEndgame stalled) := by
  unfold TorrentSession.checkAndEnterEndgame
  split
  · exact ⟨rfl, rfl, rfl, rfl⟩
  · dsimp only
    split
    · exact ⟨rfl, rfl, rfl, rfl⟩
    · exact ⟨rfl, rfl, rfl, rfl⟩

theorem onBlockRequest_keeps {conn conn' : PeerConnection} {index begin length : UInt32}
    {res : Except FileManager.ReadError Unit}
    (h : s.onBlockRequest E conn index begin length = some (res, s', conn')) :
    s.KeepsPieces s' := by
  unfold TorrentSession.onBlockRequest at h
  split at h
  · cases h
    exact ⟨rfl, rfl, rfl, rfl⟩
  · dsimp only at h
    split at h
    · cases h
    · cases h
      exact ⟨rfl, rfl, rfl, rfl⟩
    · cases h
      exact ⟨rfl, rfl, rfl, rfl⟩

/-- A piece is started where its peers were found, and a verification goes on or fails where the
    step says so. -/
structure PieceStep.Yields (r : PieceRun) (st : PieceStep) (ev : PieceEvent) : Prop where
  start : ∀ p, ev = .start p →
    ∃ i primary, st = .peersFound i primary ∧ r.tasks[i]? = some (.starting p)
  verified : ∀ i, st = .pieceVerified i → ev = .verified
  unverified : ev = .unverified → ∃ i, st = .verifyFailed i

theorem step_moves {st : PieceStep} (hr : r.Sane) (h : st.step E sha1 r = some r') :
    ∃ ev, r.board.Moves ev r'.board ∧ st.Yields r ev := by
  cases st with
  | tryPieceDownload piece =>
    -- the status is only looked at; a task is left behind when the piece is needed
    refine ⟨.idle, ?_, nofun, nofun, nofun⟩
    rw [step] at h
    split at h
    · cases h
    · cases h
      exact moves_keeps ⟨rfl, rfl, rfl, rfl⟩ (tasksOf_idle _ rfl) (tasksOf_idle _ rfl)
        (tasksOf_idle _ rfl)
    · cases h
      exact .idle r.board
  | peersFound i primary =>
    rw [step] at h
    split at h
    · next piece ht =>
      cases h
      refine ⟨.start piece, peersFound_moves hr ht, ?_, nofun, nofun⟩
      intro p hp
      obtain rfl := PieceEvent.start.inj hp
      exact ⟨i, primary, rfl, ht⟩
    · cases h
  | noPeers i =>
    rw [step] at h
    split at h
    · next piece ht =>
      cases h
      exact ⟨.idle, resume_keeps ht ⟨rfl, rfl, rfl, rfl⟩ rfl rfl rfl, nofun, nofun, nofun⟩
    · cases h
  | pieceBlock peer index begin block =>
    obtain ⟨ev, hmove, hev⟩ := pieceBlock_moves hr h
    rcases hev with rfl | rfl
    · exact ⟨.idle, hmove, nofun, nofun, nofun⟩
    · exact ⟨.last index.toNat, hmove, nofun, nofun, nofun⟩
  | hashPiece i =>
    rw [step] at h
    split at h
    · next c ht =>
      obtain ⟨⟨session, good⟩, hhash, rfl⟩ := map_eq_some_iff.mp h
      exact ⟨.idle, hashPiece_moves ht hhash, nofun, nofun, nofun⟩
    · cases h
  | pieceReturned i =>
    rw [step] at h
    split at h
    · next piece ht =>
      cases h
      exact ⟨.returned piece, pieceReturned_moves ht, nofun, nofun, nofun⟩
    · cases h
  | pieceWritten i =>
    rw [step] at h
    split at h
    · next piece ht =>
      cases h
      exact ⟨.written piece, pieceWritten_moves ht, nofun, nofun, nofun⟩
    · cases h
  | haveSent i =>
    rw [step] at h
    split at h
    · next piece ht =>
      obtain ⟨session, hleave, rfl⟩ := map_eq_some_iff.mp h
      exact ⟨.removed piece, haveSent_moves ht hleave, nofun, nofun, nofun⟩
    · cases h
  | pieceVerified i =>
    obtain ⟨next, haveCount, valid, manager, session, ts, ht, hfrom, rfl⟩ := pieceVerified_inv h
    exact ⟨.verified, pieceVerified_moves ht hfrom, nofun, fun _ _ => rfl, nofun⟩
  | verifyFailed i =>
    rw [step] at h
    split at h
    · next next haveCount ht =>
      split at h
      · next manager hread =>
        cases h
        refine ⟨.unverified, ?_, nofun, nofun, fun _ => ⟨i, rfl⟩⟩
        rw [board_resume rfl (tasksOf_other ht [] rfl) (tasksOf_other ht [] rfl) rfl, append_nil]
        exact .unverified r.board (next, haveCount) _ (tasksOf_leave ht rfl)
      · cases h
    · cases h
  | setRequests piece requests =>
    cases h
    obtain ⟨hstatus, hcompleted, hcomplete, hentry⟩ := setRequests_keeps r.session piece requests
    exact ⟨.idle, moves_idle hstatus hcompleted hcomplete hentry rfl rfl rfl, nofun, nofun, nofun⟩
  | checkAndEnterEndgame stalled =>
    cases h
    have hkeeps := checkAndEnterEndgame_keeps r.session stalled
    exact ⟨.idle, moves_keeps hkeeps rfl rfl rfl, nofun, nofun, nofun⟩
  | blockRequest conn index begin length =>
    rw [step] at h
    obtain ⟨⟨res, session, conn'⟩, hrequest, rfl⟩ := map_eq_some_iff.mp h
    have hkeeps := onBlockRequest_keeps hrequest
    exact ⟨.idle, moves_keeps hkeeps rfl rfl rfl, nofun, nofun, nofun⟩

/-! ### Entries -/

/-- What the entries of a session with `n` pieces have from the start, and the changes keep. -/
structure EntryRule (E : Env) (n : Nat) (P : Nat → InProgressPiece → Prop) : Prop where
  new : ∀ p < n, P p (.new (E.info.pieceSizeOf n p))
  restore : ∀ p < n, ∀ bits, P p (.restore (E.info.pieceSizeOf n p) bits)
  store : ∀ {p b begin : Nat} {e e' : InProgressPiece} {block : Bytes}, P p e → e.Open b →
    e.store b begin block = some e' → P p e'
  requests : ∀ {p : Nat} {e : InProgressPiece} (requests : List (List Bytes)), P p e →
    P p { e with outstandingRequests := requests }

structure PieceRun.Holds (n : Nat) (P : Nat → InProgressPiece → Prop) (r : PieceRun) : Prop where
  num : r.session.numPieces = n
  entries : ∀ p e, r.session.inProgressPieces.get? p = some e → P p e
  starting : ∀ p, .starting p ∈ r.tasks → p < n

theorem saneRule (E : Env) (n : Nat) : EntryRule E n fun _ e => e.Sane where
  new _ _ := new_sane _
  restore _ _ bits := restore_sane _ bits
  store he hopen h := he.store hopen h
  requests _ he := ⟨he.flags, he.count, he.total_lt⟩

theorem sizedRule (E : Env) (n : Nat) : EntryRule E n fun p e => p < n ∧ e.Sane ∧
    e.totalBlocks = blockCount (E.info.pieceSizeOf n p) where
  new _ hp := ⟨hp, new_sane _, rfl⟩
  restore _ hp bits :=
    ⟨hp, restore_sane _ bits, restore_total _ bits⟩
  store he hopen h :=
    ⟨he.1, he.2.1.store hopen h, (store_some h).2.2.2.2.trans he.2.2⟩
  requests _ he := ⟨he.1, ⟨he.2.1.flags, he.2.1.count, he.2.1.total_lt⟩, he.2.2⟩

namespace PieceRun.Holds

variable {n : Nat} {P : Nat → InProgressPiece → Prop} {session : TorrentSession}

theorem resume (hr : r.Holds n P) {ts : List PieceTask}
    (hnum : session.pieceStatus.length = r.session.pieceStatus.length) (hts : ∀ p, .starting p ∉ ts)
    (hentries : ∀ p e, session.inProgressPieces.get? p = some e → P p e) :
    (r.resume i session ts).Holds n P := by
  refine ⟨hnum.trans hr.num, hentries, fun p hp => ?_⟩
  cases mem_append.mp hp with
  | inl hold => exact hr.starting p (mem_of_mem_eraseIdx hold)
  | inr hnew => exact absurd hnew (hts p)

theorem keeps (hr : r.Holds n P) (h : r.session.KeepsPieces session) :
    PieceRun.Holds n P { r with session := session } :=
  ⟨(congrArg length h.status).trans hr.num, h.pieces ▸ hr.entries, hr.starting⟩

theorem erase (hr : r.Holds n P) {piece : Nat}
    (h : session.inProgressPieces = r.session.inProgressPieces.erase piece) :
    ∀ p e, session.inProgressPieces.get? p = some e → P p e := by
  intro p e he
  rw [h] at he
  exact hr.entries p e (get?_erase_eq_some he).2

theorem insert (hr : r.Holds n P) {piece : Nat} {e' : InProgressPiece}
    (h : session.inProgressPieces = r.session.inProgressPieces.insert piece e') (he' : P piece e') :
    ∀ p e, session.inProgressPieces.get? p = some e → P p e := by
  intro p e he
  rw [h] at he
  cases get?_insert_eq_some he with
  | inl hnew => exact hnew.1 ▸ hnew.2 ▸ he'
  | inr hold => exact hr.entries p e hold.2

end PieceRun.Holds

section Rule

variable {n : Nat} {P : Nat → InProgressPiece → Prop}

theorem pieceBlock_holds (hP : EntryRule E n P) {peer : Peer} {index begin : UInt32} {block : Bytes}
    (hr : r.Holds n P) (h : step E sha1 r (.pieceBlock peer index begin block) = some r') :
    r'.Holds n P := by
  rw [step] at h
  cases hblock : r.session.onPieceBlock E peer index begin block with
  | none =>
    rw [hblock] at h
    cases h
  | some res =>
    obtain ⟨session, outcome⟩ := res
    rw [hblock] at h
    obtain ⟨⟨hstatus, -, -⟩, -⟩ := TorrentSession.onPieceBlock_status E peer hblock
    -- the entry of the piece is the only one that may change
    have hentries : ∀ p e, session.inProgressPieces.get? p = some e → P p e := by
      cases TorrentSession.onPieceBlock_cases E peer hblock with
      | inl hidle => exact hidle.1 ▸ hr.entries
      | inr hstored =>
        obtain ⟨e, e₁, requests, cancels, he, hopen, hstore, -, -, hpieces⟩ := hstored
        exact hr.insert hpieces (hP.requests requests (hP.store (hr.entries _ e he) hopen hstore))
    have hkeep : PieceRun.Holds n P { r with session := session } :=
      ⟨(congrArg length hstatus).trans hr.num, hentries, hr.starting⟩
    split at h
    · cases h
    · next heq =>
      cases heq
      split at h
      · cases h
      · cases h
        refine ⟨hkeep.num, hentries, fun p hp => ?_⟩
        cases mem_append.mp hp with
        | inl hold => exact hkeep.starting p hold
        | inr hnew => exact nomatch mem_singleton.mp hnew
    · next heq =>
      obtain ⟨rfl, rfl⟩ := Prod.mk.inj (some.inj heq)
      rw [← some.inj h]
      exact hkeep

theorem verifyFrom_keeps {session session' : TorrentSession} {ts : List PieceTask}
    {j haveCount : Nat} (h : verifyFrom session j haveCount = (session', ts)) :
    session'.pieceStatus = session.pieceStatus ∧
      session'.inProgressPieces = session.inProgressPieces ∧ ∀ p, .starting p ∉ ts := by
  unfold verifyFrom at h
  dsimp only at h
  split at h
  · obtain ⟨rfl, rfl⟩ := Prod.mk.inj h
    exact ⟨rfl, rfl, fun p hp => nomatch mem_singleton.mp hp⟩
  · obtain ⟨rfl, rfl⟩ := Prod.mk.inj h
    obtain ⟨hstatus, -, -, hpieces⟩ := finishVerify_eq session haveCount
    exact ⟨hstatus, hpieces, fun p => not_mem_nil⟩

theorem step_holds (hP : EntryRule E n P) {st : PieceStep} (hr : r.Holds n P)
    (h : st.step E sha1 r = some r') : r'.Holds n P := by
  cases st with
  | tryPieceDownload piece =>
    rw [step] at h
    split at h
    · cases h
    · next hneeded =>
      cases h
      refine ⟨hr.num, hr.entries, fun p hp => ?_⟩
      cases mem_append.mp hp with
      | inl hold => exact hr.starting p hold
      | inr hnew =>
        obtain rfl := starting.inj (List.mem_singleton.mp hnew)
        exact hr.num ▸ (List.getElem?_eq_some_iff.mp hneeded).1
    · cases h
      exact hr
  | peersFound i primary =>
    rw [step] at h
    split at h
    · next piece ht =>
      cases h
      refine hr.resume length_set (fun _ => not_mem_nil) (fun p e he => ?_)
      -- the piece keeps its entry or gets a new one, and requests do not matter
      rw [startPiece_get?, hr.num] at he
      split at he
      · next heq =>
        cases he
        rw [heq]
        cases hold : r.session.inProgressPieces.get? piece with
        | none => exact hP.requests _ (hP.new piece (hr.starting piece (mem_of_getElem? ht)))
        | some e => exact hP.requests _ (hr.entries piece e hold)
      · exact hr.entries p e he
    · cases h
  | noPeers i =>
    rw [step] at h
    split at h
    · cases h
      exact hr.resume rfl (fun _ => not_mem_nil) hr.entries
    · cases h
  | pieceBlock peer index begin block => exact pieceBlock_holds hP hr h
  | hashPiece i =>
    rw [step] at h
    split at h
    · next c ht =>
      obtain ⟨⟨session, good⟩, hhash, rfl⟩ := map_eq_some_iff.mp h
      have hkeeps := hashPiece_keeps hhash
      refine hr.resume (congrArg length hkeeps.status) (fun p hp => ?_)
        (hkeeps.pieces ▸ hr.entries)
      have htask := mem_singleton.mp hp
      cases good with
      | true => exact nomatch htask
      | false => exact nomatch htask
    · cases h
  | pieceReturned i =>
    rw [step] at h
    split at h
    · cases h
      exact hr.resume length_set (fun _ => not_mem_nil) (hr.erase rfl)
    · cases h
  | pieceWritten i =>
    rw [step] at h
    split at h
    · cases h
      exact hr.resume length_set (fun p hp => nomatch mem_singleton.mp hp) hr.entries
    · cases h
  | haveSent i =>
    rw [step] at h
    split at h
    · obtain ⟨session, hleave, rfl⟩ := map_eq_some_iff.mp h
      obtain ⟨hstatus, -, -, hpieces⟩ := leaveProgress_eq hleave
      exact hr.resume (congrArg length hstatus) (fun _ => not_mem_nil) (hr.erase hpieces)
    · cases h
  | pieceVerified i =>
    obtain ⟨next, haveCount, valid, manager, session, ts, ht, hfrom, rfl⟩ := pieceVerified_inv h
    obtain ⟨hstatus, hpieces, hts⟩ := verifyFrom_keeps hfrom
    refine hr.resume ?_ hts (hpieces ▸ hr.entries)
    rw [hstatus]
    exact length_set
  | verifyFailed i =>
    rw [step] at h
    split at h
    · split at h
      · cases h
        exact hr.resume rfl (fun _ => not_mem_nil) hr.entries
      · cases h
    · cases h
  | setRequests piece requests =>
    cases h
    unfold TorrentSession.setRequests
    split
    · exact hr
    · next e he =>
      exact ⟨hr.num, hr.insert rfl (hP.requests requests (hr.entries piece e he)), hr.starting⟩
  | checkAndEnterEndgame stalled =>
    cases h
    exact hr.keeps (checkAndEnterEndgame_keeps r.session stalled)
  | blockRequest conn index begin length =>
    rw [step] at h
    obtain ⟨⟨res, session, conn'⟩, hrequest, rfl⟩ := map_eq_some_iff.mp h
    exact hr.keeps (onBlockRequest_keeps hrequest)

end Rule

theorem PieceRun.Sane.holds (hr : r.Sane) : r.Holds r.session.numPieces fun _ e => e.Sane :=
  ⟨rfl, hr.entries, hr.starting⟩

theorem PieceRun.Holds.sane {n : Nat} (hr : r.Holds n fun _ e => e.Sane) : r.Sane :=
  ⟨hr.entries, fun p hp => hr.num ▸ hr.starting p hp⟩

theorem step_sane {st : PieceStep} (hr : r.Sane) (h : st.step E sha1 r = some r') : r'.Sane :=
  (step_holds (saneRule E r.session.numPieces) hr.holds h).sane

end Steps

end P2P
