import P2P.Spec.DiskCache

/-!
# Blocks that still have to be written

A block is *safe* when it is dirty and cached with the bytes put last, or these were written to
every downloaded file since.
-/

namespace P2P

open CacheOp List Event OrdMap Option

/-! ## The history of a block -/

def Event.isPut (k : CacheKey) : Event → Bool
  | .put j _ => j = k
  | .write .. => false

def Event.isFailure (k : CacheKey) : Event → Bool
  | .put .. => false
  | .write j _ done => j = k && !done

def lastPut (k : CacheKey) : List Event → Option Bytes
  | [] => none
  | .put j data :: log => if j = k then some data else lastPut k log
  | .write .. :: log => lastPut k log

def sincePut (k : CacheKey) (log : List Event) : List Event := log.takeWhile fun e => !e.isPut k

def Lost (k : CacheKey) (log : List Event) : Prop := ∃ e ∈ sincePut k log, e.isFailure k = true

instance (k : CacheKey) (log : List Event) : Decidable (Lost k log) :=
  inferInstanceAs (Decidable (∃ e ∈ sincePut k log, e.isFailure k = true))

section History

variable {k : CacheKey} {events log : List Event}

theorem lastPut_append (h : ∀ e ∈ events, e.isPut k = false) :
    lastPut k (events ++ log) = lastPut k log := by
  induction events with
  | nil => rfl
  | cons e events ih =>
    have hrest := ih fun e he => h e (mem_cons_of_mem _ he)
    cases e with
    | write => exact hrest
    | put j data =>
      have hne : ¬ j = k := of_decide_eq_false (h _ (mem_cons_self ..))
      rw [cons_append, lastPut, if_neg hne, hrest]

theorem sincePut_append (h : ∀ e ∈ events, e.isPut k = false) :
    sincePut k (events ++ log) = events ++ sincePut k log := by
  unfold sincePut
  rw [takeWhile_append_of_pos fun e he => by rw [h e he]; rfl]

theorem Lost.append (hlost : Lost k log) (h : ∀ e ∈ events, e.isPut k = false) :
    Lost k (events ++ log) := by
  obtain ⟨e, he, hfail⟩ := hlost
  exact ⟨e, by rw [sincePut_append h]; exact mem_append_right _ he, hfail⟩

end History

/-! ## What can have happened to a block -/

namespace Torrent

variable (T : Torrent)

/-- A block that was put is dirty and cached with these bytes, or they were written to every
    downloaded file. -/
def Safe (m : FileManager) (k : CacheKey) (data : Bytes) : Prop :=
  (m.dirtyBlocks.get? k = some () ∧ m.cache.get? k = some data) ∨
    ∀ w ∈ T.writes k data, Event.write k w true ∈ sincePut k m.log

inductive Fate (m : FileManager) (k : CacheKey) (data : Bytes) : Prop
  | dirty (dirty : m.dirtyBlocks.get? k = some ()) (cached : m.cache.get? k = some data)
      (untried : ∀ w done, Event.write k w done ∉ sincePut k m.log)
  | written (clean : m.dirtyBlocks.get? k ≠ some ())
      (all : ∀ w ∈ T.writes k data, Event.write k w true ∈ sincePut k m.log)
      (none : ∀ w, Event.write k w false ∉ sincePut k m.log)
  | lost (clean : m.dirtyBlocks.get? k ≠ some ()) (w : FileWrite) (mem : w ∈ T.writes k data)
      (failed : Event.write k w false ∈ sincePut k m.log)
      (missing : Event.write k w true ∉ sincePut k m.log)

def Fates (m : FileManager) : Prop :=
  ∀ k data, lastPut k m.log = some data → T.Fate m k data

def LostAt (m : FileManager) (g : Nat) : Prop :=
  ∃ k data, T.IsBlock k data ∧ Lost k m.log ∧ T.pos k ≤ g ∧ g < T.pos k + data.length

end Torrent

section Fate

variable {T : Torrent} {m m' : FileManager} {j k : CacheKey} {data d : Bytes}

theorem Torrent.Fate.safe_iff (h : T.Fate m k data) : T.Safe m k data ↔ ¬ Lost k m.log := by
  cases h with
  | dirty hdirty hcached huntried =>
    refine iff_of_true (.inl ⟨hdirty, hcached⟩) ?_
    -- no write has been tried, so none has failed
    rintro ⟨e, he, hfail⟩
    cases e with
    | put => cases hfail
    | write i w done =>
      have hik : i = k := by simp [isFailure] at hfail; exact hfail.1
      exact huntried w done (hik ▸ he)
  | written hclean hall hnone =>
    refine iff_of_true (.inr hall) ?_
    rintro ⟨e, he, hfail⟩
    cases e with
    | put => cases hfail
    | write i w done =>
      simp [isFailure] at hfail
      obtain ⟨rfl, rfl⟩ := hfail
      exact hnone w he
  | lost hclean w hmem hfailed hmissing =>
    refine iff_of_false ?_ (not_not_intro ⟨_, hfailed, by simp [isFailure]⟩)
    -- it is neither dirty nor written
    intro hsafe
    cases hsafe with
    | inl hin => exact hclean hin.1
    | inr hout => exact hmissing (hout w hmem)

theorem Torrent.Fate.frame (h : T.Fate m k data) (events : List Event)
    (hdirty : m'.dirtyBlocks.get? k = m.dirtyBlocks.get? k)
    (hcache : m.dirtyBlocks.get? k = some () → m'.cache.get? k = m.cache.get? k)
    (hsince : sincePut k m'.log = events ++ sincePut k m.log)
    (hother : ∀ w done, Event.write k w done ∉ events) : T.Fate m' k data := by
  -- the events of this block since its put are the same
  have hmem : ∀ w done, Event.write k w done ∈ sincePut k m'.log ↔
      Event.write k w done ∈ sincePut k m.log := by
    intro w done
    rw [hsince, List.mem_append, or_iff_right (hother w done)]
  cases h with
  | dirty hd hc hu =>
    exact .dirty (hdirty.trans hd) ((hcache hd).trans hc)
      fun w done => (hmem w done).not.mpr (hu w done)
  | written hn ha hf =>
    exact .written (by rw [hdirty]; exact hn) (fun w hw => (hmem w true).mpr (ha w hw))
      fun w => (hmem w false).not.mpr (hf w)
  | lost hn w hw hf hm =>
    exact .lost (by rw [hdirty]; exact hn) w hw ((hmem w false).mpr hf) ((hmem w true).not.mpr hm)

/-! ## The history after a write -/

theorem Torrent.log_tryWrite (hs : T.Sane m) (k : CacheKey) (data : Bytes) : ∃ events,
    (T.tryWrite k data m).log = events ++ m.log ∧ (∀ e ∈ events, ∃ w done, e = .write k w done) ∧
    (events = writeEvents k (T.writes k data) ∨
      ∃ made w rest, T.writes k data = made ++ w :: rest ∧
        events = .write k w false :: writeEvents k made) := by
  have hwrites : ∀ ws, ∀ e ∈ writeEvents k ws, ∃ w done, e = .write k w done := by
    intro ws e he
    obtain ⟨w, -, rfl⟩ := mem_map.mp (mem_reverse.mp he)
    exact ⟨w, true, rfl⟩
  cases T.tryWrite_cases hs.stored with
  | inl hall => exact ⟨_, by rw [hall]; rfl, hwrites _, .inl rfl⟩
  | inr hfail =>
    obtain ⟨made, w, rest, hws, hlog⟩ := hfail.log
    refine ⟨.write k w false :: writeEvents k made, hlog, ?_, .inr ⟨made, w, rest, hws, rfl⟩⟩
    intro e he
    cases mem_cons.mp he with
    | inl heq => exact ⟨w, false, heq⟩
    | inr hmem => exact hwrites _ e hmem

theorem Torrent.Move.log (hs : T.Sane m) (h : T.Move m m') : ∃ events,
    m'.log = events ++ m.log ∧ ∀ e ∈ events, ∀ i, e.isPut i = false := by
  cases h with
  | admin _ _ _ log => exact ⟨[], log, nofun⟩
  | writeBack k data =>
    obtain ⟨events, hlog, hwrite, -⟩ := T.log_tryWrite hs k data
    refine ⟨events, hlog, fun e he i => ?_⟩
    obtain ⟨w, done, rfl⟩ := hwrite e he
    rfl
  | forget => exact ⟨[], rfl, nofun⟩
  | clean => exact ⟨[], rfl, nofun⟩

/-! ## What happens to a block -/

theorem Torrent.Fate.writeBack (hs : T.Sane m) (h : T.Fate m k data)
    (hdirty : m.dirtyBlocks.get? k = some ()) : T.Fate (T.writeBack k data m) k data := by
  have hclean : (T.writeBack k data m).dirtyBlocks.get? k ≠ some () := by
    show (m.dirtyBlocks.erase k).get? k ≠ some ()
    rw [get?_erase, if_pos rfl]
    exact (some_ne_none ()).symm
  obtain ⟨events, hlog, hwrite, hcase⟩ := T.log_tryWrite hs k data
  have hsince : sincePut k (T.writeBack k data m).log = events ++ sincePut k m.log := by
    show sincePut k (T.tryWrite k data m).log = _
    rw [hlog]
    apply sincePut_append
    intro e he
    obtain ⟨w, done, rfl⟩ := hwrite e he
    rfl
  cases h with
  | written hn => exact absurd hdirty hn
  | lost hn => exact absurd hdirty hn
  | dirty _ _ huntried =>
    -- no write has been tried before, so the new events are all there is
    have hmem : ∀ w done, Event.write k w done ∈ sincePut k (T.writeBack k data m).log ↔
        Event.write k w done ∈ events := by
      intro w done
      rw [hsince, List.mem_append, or_iff_left (huntried w done)]
    have hmade : ∀ ws w done, Event.write k w done ∈ writeEvents k ws ↔ w ∈ ws ∧ done = true := by
      intro ws w done
      simp [writeEvents, eq_comm]
    cases hcase with
    | inl hall =>
      refine .written hclean (fun w hw => ?_) fun w hw => ?_
      · rw [hmem, hall, hmade]
        exact ⟨hw, rfl⟩
      · rw [hmem, hall, hmade] at hw
        exact absurd hw.2 Bool.false_ne_true
    | inr hfail =>
      obtain ⟨made, w, rest, hws, hevents⟩ := hfail
      have hnd : (made ++ w :: rest).Nodup :=
        hws ▸ fileWrites_nodup _ _ T.info.files 0 T.files_nodup
      refine .lost hclean w (hws ▸ mem_append_right _ (mem_cons_self ..)) ?_ ?_
      · rw [hmem, hevents]
        exact mem_cons_self ..
      · rw [hmem, hevents, mem_cons, hmade]
        rintro (heq | hin)
        · cases heq
        · exact (nodup_append.mp hnd).2.2 w hin.1 w (mem_cons_self ..) rfl

theorem fate_move (hs : T.Sane m) (h : T.Move m m') (hfates : T.Fates m) : T.Fates m' := by
  intro j d hj
  obtain ⟨events, hlog, hputs⟩ := h.log hs
  rw [hlog, lastPut_append fun e he => hputs e he j] at hj
  have hfate := hfates j d hj
  have hsame : m'.log = m.log → sincePut j m'.log = [] ++ sincePut j m.log :=
    fun h => by rw [h]; rfl
  cases h with
  | admin cache dirty _ log =>
    exact hfate.frame [] (by rw [dirty]) (fun _ => by rw [cache]) (hsame log) nofun
  | writeBack k data hdirty hcache =>
    by_cases hjk : j = k
    · -- the block itself was dirty with the bytes that are written now
      subst hjk
      have hd : d = data := by
        cases hfate with
        | dirty _ hc => exact some.inj (hc.symm.trans hcache)
        | written hn => exact absurd hdirty hn
        | lost hn => exact absurd hdirty hn
      rw [hd] at hfate ⊢
      exact hfate.writeBack hs hdirty
    · obtain ⟨events, hlog, hwrite, -⟩ := T.log_tryWrite hs k data
      refine hfate.frame events ?_ (fun _ => by rw [T.cache_writeBack]) ?_ ?_
      · show (m.dirtyBlocks.erase k).get? j = _
        rw [get?_erase, if_neg hjk]
      · show sincePut j (T.tryWrite k data m).log = _
        rw [hlog]
        apply sincePut_append
        intro e he
        obtain ⟨w, done, rfl⟩ := hwrite e he
        rfl
      · intro w done hmem
        obtain ⟨w', done', heq⟩ := hwrite _ hmem
        exact hjk (write.inj heq).1
  | forget k hclean =>
    refine hfate.frame [] rfl (fun hd => ?_) (hsame rfl) nofun
    have hjk : j ≠ k := by
      rintro rfl
      exact absurd (hclean.symm.trans hd) (by simp)
    rw [get?_erase, if_neg hjk]
  | clean k huncached =>
    refine hfate.frame [] ?_ (fun _ => rfl) (hsame rfl) nofun
    rw [get?_erase]
    split
    · next hjk =>
      -- a key without a block is not dirty
      cases hd : m.dirtyBlocks.get? j with
      | none => rfl
      | some =>
        obtain ⟨d', hd', -⟩ := hs.dirty j hd
        rw [hjk, huncached] at hd'
        cases hd'
    · rfl

theorem sincePut_put (hjk : j ≠ k) (log : List Event) :
    sincePut j (.put k data :: log) = [.put k data] ++ sincePut j log := by
  have hother : ∀ e ∈ [Event.put k data], e.isPut j = false := by
    intro e he
    rw [mem_singleton.mp he]
    exact decide_eq_false (Ne.symm hjk)
  exact sincePut_append hother

theorem fate_put (h : Put k data m m') (hfates : T.Fates m) : T.Fates m' := by
  intro j d hj
  rw [h.log] at hj
  by_cases hjk : j = k
  · -- the block starts anew
    rw [lastPut, if_pos hjk.symm] at hj
    subst hjk
    refine .dirty (by rw [h.dirty, get?_insert, if_pos rfl])
      (by rw [h.cache, get?_insert, if_pos rfl, hj]) fun w done => ?_
    rw [h.log, sincePut, takeWhile_cons_of_neg (by simp [isPut])]
    exact not_mem_nil
  · rw [lastPut, if_neg (Ne.symm hjk)] at hj
    refine (hfates j d hj).frame [.put k data] (by rw [h.dirty, get?_insert, if_neg hjk])
      (fun _ => by rw [h.cache, get?_insert, if_neg hjk])
      (by rw [h.log]; exact sincePut_put hjk m.log) ?_
    intro w done hmem
    exact nomatch mem_singleton.mp hmem

theorem fate_inserted (h : Inserted k data m m') (hk : m.dirtyBlocks.get? k ≠ some ())
    (hfates : T.Fates m) : T.Fates m' := by
  intro j d hj
  rw [h.log] at hj
  refine (hfates j d hj).frame [] ?_ (fun hd => ?_) (by rw [h.log]; rfl) nofun
  · rw [h.dirty, get?_erase]
    split
    · next hjk =>
      rw [hjk]
      exact (eq_none_iff_forall_ne_some.mpr fun _ => hk).symm
    · rfl
  · have hjk : j ≠ k := by
      rintro rfl
      exact hk hd
    rw [h.cache, get?_insert, if_neg hjk]

/-! ## Positions of lost blocks -/

theorem Torrent.LostAt.move (hs : T.Sane m) (h : T.Move m m') {g : Nat} (hg : T.LostAt m g) :
    T.LostAt m' g := by
  obtain ⟨j, d, hblock, hlost, hin⟩ := hg
  obtain ⟨events, hlog, hputs⟩ := h.log hs
  exact ⟨j, d, hblock, by rw [hlog]; exact hlost.append fun e he => hputs e he j, hin⟩

theorem Torrent.Failed.lostAt (h : T.Failed k data m (T.tryWrite k data m))
    (hblock : T.IsBlock k data) {g : Nat} (hlo : T.pos k ≤ g) (hhi : g < T.pos k + data.length) :
    T.LostAt (T.writeBack k data m) g := by
  obtain ⟨made, w, rest, -, hlog⟩ := h.log
  refine ⟨k, data, hblock, ⟨.write k w false, ?_, by simp [isFailure]⟩, hlo, hhi⟩
  show _ ∈ sincePut k (T.tryWrite k data m).log
  rw [hlog]
  exact mem_cons_self ..

theorem Torrent.LostAt.put (hblock : T.IsBlock k data) (h : Put k data m m') {g : Nat}
    (hout : ¬ (T.pos k ≤ g ∧ g < T.pos k + data.length)) (hg : T.LostAt m g) : T.LostAt m' g := by
  obtain ⟨j, d, hj, hlost, hlo, hhi⟩ := hg
  -- blocks of one key have one range
  have hjk : j ≠ k := by
    rintro rfl
    have := hj.length_eq.trans hblock.length_eq.symm
    omega
  refine ⟨j, d, hj, ?_, hlo, hhi⟩
  obtain ⟨e, he, hfail⟩ := hlost
  rw [h.log]
  exact ⟨e, by rw [sincePut_put hjk]; exact mem_append_right _ he, hfail⟩

end Fate

/-! ## Runs -/

/-- No dirty block is replaced: a read that goes to the files caches its block under a key that is
    not dirty. -/
def keepsDirty (E : Env) (m : FileManager) : CacheOp → Prop
  | .readBlock p begin length => ∀ m₁ block, ReadMiss E ⟨p, begin⟩ length m m₁ block →
    m₁.dirtyBlocks.get? ⟨p, begin⟩ ≠ some ()
  | _ => True

/-- Pieces are written as a whole, and the offsets of their blocks do not wrap
    around. -/
def Torrent.WholePiece (T : Torrent) : CacheOp → Prop
  | .writePiece p data => p < T.info.numPieces ∧ data.length = T.info.pieceLen p ∧
    data.length + blockSize ≤ 2 ^ 32
  | _ => True

def Torrent.KeepingRun (T : Torrent) : List CacheOp → FileManager → Prop :=
  StepsMeet (step T.toEnv) fun m op => T.WholePiece op ∧ keepsDirty T.toEnv m op

/-- The fates of the blocks are known; files and dirty blocks hold `A` except for the lost ones. -/
structure Torrent.Kept (T : Torrent) (A : Nat → UInt8) (m : FileManager) : Prop where
  running : m.ioCancelled = false
  sane : T.Sane m
  backed : T.Backed (T.LostAt m) A m
  fates : T.Fates m

section Run

variable {T : Torrent} {A : Nat → UInt8} {m m' : FileManager} {k : CacheKey} {data : Bytes}

theorem backed_lostAt_move (hs : T.Sane m) (h : T.Move m m') (hb : T.Backed (T.LostAt m) A m) :
    T.Backed (T.LostAt m') A m' := by
  refine (hb.mono fun g hg => hg.move hs h).move hs h ?_
  intro k data hblock heq hfail g hlo hhi
  rw [heq]
  exact hfail.lostAt hblock hlo hhi

theorem Torrent.Kept.moves (h : T.Kept A m) (hm : T.Moves m m') : T.Kept A m' :=
  ⟨by rw [Torrent.Moves.cancelled hm, h.running], Torrent.Moves.sane hm h.sane,
    Torrent.Moves.invariant (P := fun m => T.Backed (T.LostAt m) A m)
      (fun _ _ => backed_lostAt_move) hm h.sane h.backed,
    Torrent.Moves.invariant (fun _ _ => fate_move) hm h.sane h.fates⟩

theorem Torrent.Kept.inserted (h : T.Kept A m) (hins : Inserted k data m m')
    (hclean : m.dirtyBlocks.get? k ≠ some ()) : T.Kept A m' := by
  -- a read leaves no trace in the history
  have hlost : T.LostAt m' = T.LostAt m := by
    unfold Torrent.LostAt
    rw [hins.log]
  refine ⟨by rw [hins.cancelled, h.running], hins.sane h.sane, ?_,
    fate_inserted hins hclean h.fates⟩
  rw [hlost]
  exact h.backed.inserted hclean hins

theorem kept_writePiece {p : Nat} {data : Bytes} (h : T.Kept A m)
    (hwhole : T.WholePiece (.writePiece p data)) :
    ∃ m', m.writePiece T.toEnv p data = some m' ∧ T.Kept (patch A (p * T.info.ps) data) m' := by
  obtain ⟨hp, hlen, hwrap⟩ := hwhole
  -- what was lost of the blocks that are put is dirty again
  obtain ⟨m', hrun, hs', hc', hb', hfates'⟩ := writePiece_content hp hlen hwrap
    (fun A m => T.Backed (T.LostAt m) A m ∧ T.Fates m)
    (fun A m m' hs hmove hP => ⟨backed_lostAt_move hs hmove hP.1, fate_move hs hmove hP.2⟩)
    (fun A k d m m' hs hblock hP hput =>
      ⟨hP.1.put hs hblock hput fun g hout hg => hg.put hblock hput hout, fate_put hput hP.2⟩)
    h.sane ⟨h.backed, h.fates⟩
  exact ⟨m', hrun, by rw [hc', h.running], hs', hb', hfates'⟩

theorem kept_step {op : CacheOp} (h : T.Kept A m) (hw : T.WholePiece op)
    (hk : keepsDirty T.toEnv m op) :
    ∃ m', op.step T.toEnv m = some m' ∧ T.Kept (T.write A op) m' := by
  by_cases hwrite : ∃ p data, op = .writePiece p data
  · obtain ⟨p, data, rfl⟩ := hwrite
    exact kept_writePiece h hw
  · have hop : ∀ p data, op ≠ .writePiece p data := fun p data heq => hwrite ⟨p, data, heq⟩
    obtain ⟨m', hrun, heff⟩ := step_effect h.sane hop fun _ => h.running
    refine ⟨m', hrun, ?_⟩
    rw [write_of_ne T A hop]
    cases heff with
    | moves hmoves => exact h.moves hmoves
    | inserted hread hmoves hins =>
      exact (h.moves hmoves).inserted hins (hk _ _ hread)

theorem run_kept (ops : List CacheOp) (h : T.Kept A m) (hkeep : T.KeepingRun ops m) :
    (∀ op ∈ ops, T.WholePiece op) ∧
    ∃ m', run T.toEnv ops m = some m' ∧ T.Kept (ops.foldl T.write A) m' := by
  obtain ⟨m', hrun, h'⟩ := runSteps_total T.write
    (fun A m op hok h => kept_step h hok.1 hok.2) hkeep h
  exact ⟨hkeep.forall (fun _ _ hok => hok.1) hrun, m', hrun, h'⟩

theorem Torrent.LostAt.lost {p i : Nat} {data : Bytes} (hp : p < T.info.numPieces)
    (hlen : data.length = T.info.pieceLen p) (hi : i < data.length)
    (hg : T.LostAt m (p * T.info.ps + i)) : Lost ⟨p, i - i % blockSize⟩ m.log := by
  obtain ⟨j, d, hblock, hlost, hlo, hhi⟩ := hg
  have hmod := Nat.mod_lt i (show 0 < blockSize by decide)
  have hal : (i - i % blockSize) % blockSize = 0 := by
    unfold blockSize
    omega
  have hself := isBlock_slice hp hlen hal (by omega)
  -- the lost block and the block of the byte share a byte, so they are the same
  by_cases hj : j = ⟨p, i - i % blockSize⟩
  · rw [← hj]
    exact hlost
  · have hdisj := hblock.disjoint hself hj
    rw [length_slice] at hdisj
    simp only [Torrent.pos] at hdisj hlo hhi
    omega

end Run

/-- While no read replaces a dirty block: a block stays dirty until its bytes are in all its files
    exactly when none of its writes has failed since, and a flush stores all others. -/
theorem dirty_data_safe_iff (T : Torrent) (disk : Nat → Option Bytes)
    (hstored : Stored T.toEnv disk T.info.files) (ops : List CacheOp)
    (hrun : T.KeepingRun ops (.start disk)) :
    ∃ m, run T.toEnv ops (.start disk) = some m ∧
      (∀ k data, lastPut k m.log = some data → (T.Safe m k data ↔ ¬ Lost k m.log)) ∧
      ∀ flush, flush = .flushAllDirty ∨ flush = .syncFlushAllDirty →
        ∃ m', step T.toEnv m flush = some m' ∧ Stored T.toEnv m'.disk T.info.files ∧
          ∀ p data, lastWritten p ops = some data → ∀ i < data.length,
            ¬ Lost ⟨p, i - i % blockSize⟩ m'.log → ∀ b,
            storedByte T.toEnv m'.disk T.info.files (p * T.info.ps + i) = some b →
            data[i]? = some b := by
  have hstart := coherent_start hstored
  obtain ⟨hall, m, hm, hkept⟩ := run_kept ops
    ⟨hstart.running, hstart.sane, hstart.backed.mono nofun, nofun⟩ hrun
  refine ⟨m, hm, fun k data hk => (hkept.fates k data hk).safe_iff, ?_⟩
  intro flush hflush
  obtain ⟨m', hstep, hmoves, hclean⟩ := flush_moves hkept.sane hkept.running hflush
  have hkept' := hkept.moves hmoves
  refine ⟨m', hstep, hkept'.sane.stored, ?_⟩
  intro p data hlast i hi hlost b hb
  -- nothing is dirty, so the files hold the content, and its pieces are the last data
  obtain ⟨hp, hlen, -⟩ := hall _ (mem_of_lastWritten hlast)
  have hA := hkept'.backed.eq_of_clean hclean hb fun hg => hlost (hg.lost hp hlen hi)
  rw [hA]
  exact getElem?_lastWritten T (fun q d h => (hall _ h).2.1) hlast _ hi

/-! ## A write that fails -/

def firstWriteFails : List Event → WriteOutcome := fun log =>
  if log.any fun e => match e with
    | .write .. => true
    | .put .. => false
  then .success else .failure 0

/-- The flush whose write fails leaves the block neither dirty nor written, and the next flush does
    not write it. -/
theorem flushAllDirty_loses_block :
    (∃ m, run (twoByteTorrent firstWriteFails).toEnv
        [.writePiece 0 [1, 2], .flushAllDirty] (.start zeroDisk) = some m ∧
      lastPut ⟨0, 0⟩ m.log = some [1, 2] ∧
      ¬ (twoByteTorrent firstWriteFails).Safe m ⟨0, 0⟩ [1, 2]) ∧
    (run (twoByteTorrent firstWriteFails).toEnv
        [.writePiece 0 [1, 2], .flushAllDirty, .flushAllDirty] (.start zeroDisk)).map
      (fun m => (twoByteTorrent firstWriteFails).pieceOnDisk m.disk 0) = some [0, 0] := by
  constructor
  · have hrun : (run (twoByteTorrent firstWriteFails).toEnv
        [.writePiece 0 [1, 2], .flushAllDirty] (.start zeroDisk)).map
        (fun m => (lastPut ⟨0, 0⟩ m.log, m.dirtyBlocks.get? ⟨0, 0⟩, sincePut ⟨0, 0⟩ m.log)) =
        some (some [1, 2], none, [.write ⟨0, 0⟩ ⟨PosixPath.empty, 0, [1, 2]⟩ false]) := by
      decide +kernel
    obtain ⟨m, hm, hval⟩ := map_eq_some_iff.mp hrun
    simp only [Prod.mk.injEq] at hval
    refine ⟨m, hm, hval.1, fun hsafe => ?_⟩
    cases hsafe with
    | inl h => exact absurd (hval.2.1.symm.trans h.1) (by simp)
    | inr h =>
      have hmem := h ⟨PosixPath.empty, 0, [1, 2]⟩ (by decide +kernel)
      rw [hval.2.2] at hmem
      simp at hmem
  · decide +kernel

theorem dirty_data_safe_again :
    ∃ m m', run (twoByteTorrent firstWriteFails).toEnv
        [.writePiece 0 [1, 2], .flushAllDirty, .writePiece 0 [3, 4]] (.start zeroDisk) = some m ∧
      (twoByteTorrent firstWriteFails).Safe m ⟨0, 0⟩ [3, 4] ∧
      step (twoByteTorrent firstWriteFails).toEnv m .flushAllDirty = some m' ∧
      ∀ b, storedByte (twoByteTorrent firstWriteFails).toEnv m'.disk
        (twoByteTorrent firstWriteFails).info.files 0 = some b → b = 3 := by
  obtain ⟨m, hrun, hsafe, hflush⟩ := dirty_data_safe_iff (twoByteTorrent firstWriteFails)
    zeroDisk (stored_zeroDisk _) [.writePiece 0 [1, 2], .flushAllDirty, .writePiece 0 [3, 4]]
    ⟨⟨⟨by decide, by decide, by decide⟩, trivial⟩, fun _ _ => ⟨⟨trivial, trivial⟩, fun _ _ =>
      ⟨⟨⟨by decide, by decide, by decide⟩, trivial⟩, fun _ _ => trivial⟩⟩⟩
  obtain ⟨m', hstep, -, hdisk⟩ := hflush .flushAllDirty (.inl rfl)
  have hval : ((run (twoByteTorrent firstWriteFails).toEnv
      [.writePiece 0 [1, 2], .flushAllDirty, .writePiece 0 [3, 4]] (.start zeroDisk)).bind fun m =>
      (step (twoByteTorrent firstWriteFails).toEnv m .flushAllDirty).map fun m' =>
        (lastPut ⟨0, 0⟩ m.log, decide (Lost ⟨0, 0⟩ m.log), decide (Lost ⟨0, 0⟩ m'.log))) =
      some (some [3, 4], false, false) := by
    decide +kernel
  rw [hrun, bind_some, hstep, map_some] at hval
  simp only [some.injEq, Prod.mk.injEq, decide_eq_false_iff_not] at hval
  refine ⟨m, m', hrun, (hsafe _ _ hval.1).mpr hval.2.1, hstep, fun b hb => ?_⟩
  have := hdisk 0 [3, 4] rfl 0 (by decide) hval.2.2 b hb
  exact (some.inj this).symm

end P2P
