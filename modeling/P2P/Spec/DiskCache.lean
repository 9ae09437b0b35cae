import P2P.Spec.CacheMoves

/-!
# The cache and the disk together

The abstract model of a file manager is the content of the torrent: a byte for each position.
-/

namespace P2P

open OrdMap List Option Torrent FileManager

namespace Torrent

variable (T : Torrent)

def Covered (m : FileManager) (g : Nat) : Prop :=
  ∃ k data, m.dirtyBlocks.get? k = some () ∧ m.cache.get? k = some data ∧
    T.pos k ≤ g ∧ g < T.pos k + data.length

/-- The files and the dirty blocks hold the content `A`, except for the positions `Q`. -/
structure Backed (Q : Nat → Prop) (A : Nat → UInt8) (m : FileManager) : Prop where
  dirty : ∀ k data, m.dirtyBlocks.get? k = some () → m.cache.get? k = some data →
    data = window A (T.pos k) data.length
  disk : ∀ g b, storedByte T.toEnv m.disk T.info.files g = some b → ¬ Q g →
    b = A g ∨ T.Covered m g

structure Cached (A : Nat → UInt8) (m : FileManager) : Prop where
  within : ∀ k data, m.cache.get? k = some data →
    k.piece < T.info.numPieces ∧ k.offset + data.length ≤ T.info.pieceLen k.piece
  content : ∀ k data, m.cache.get? k = some data → data = window A (T.pos k) data.length

end Torrent

section Disjoint

variable {T : Torrent} {j k : CacheKey} {d e : Bytes}

theorem disjoint_of_piece_ne {a b : Nat} (hne : j.piece ≠ k.piece)
    (hj : j.offset + a ≤ T.info.pieceLen j.piece) (hk : k.offset + b ≤ T.info.pieceLen k.piece) :
    T.pos j + a ≤ T.pos k ∨ T.pos k + b ≤ T.pos j := by
  have hjp := T.info.pieceLen_le j.piece
  have hkp := T.info.pieceLen_le k.piece
  unfold pos
  cases Nat.lt_or_gt_of_ne hne with
  | inl hlt =>
    have := Nat.mul_le_mul_right T.info.ps (Nat.succ_le_of_lt hlt)
    rw [Nat.succ_mul] at this
    omega
  | inr hgt =>
    have := Nat.mul_le_mul_right T.info.ps (Nat.succ_le_of_lt hgt)
    rw [Nat.succ_mul] at this
    omega

theorem Torrent.IsBlock.disjoint (hj : T.IsBlock j d) (hk : T.IsBlock k e) (hne : j ≠ k) :
    T.pos j + d.length ≤ T.pos k ∨ T.pos k + e.length ≤ T.pos j := by
  by_cases hp : j.piece = k.piece
  · have hoff : j.offset ≠ k.offset := by
      intro h
      cases j
      cases k
      exact hne (by rw [CacheKey.mk.injEq]; exact ⟨hp, h⟩)
    -- in one piece: both start at multiples of the block size
    have h₁ := hj.aligned
    have h₂ := hk.aligned
    have h₃ := hj.length_le
    have h₄ := hk.length_le
    unfold pos
    rw [hp]
    unfold blockSize at *
    omega
  · exact disjoint_of_piece_ne hp hj.within hk.within

end Disjoint

section Backed

variable {T : Torrent} {Q : Nat → Prop} {A : Nat → UInt8} {m m' : FileManager} {k : CacheKey}
  {data : Bytes}

/-! ## What keeps a state backed -/

theorem storedByte_wrote (hs : Stored T.toEnv m.disk T.info.files) (g : Nat) :
    storedByte T.toEnv (T.wrote k data m).disk T.info.files g =
      (storedByte T.toEnv m.disk T.info.files g).map fun b =>
        patch (fun _ => b) (T.pos k) data g := by
  have := storedByte_fileWrites (T.pos k) data T.info.files 0 m.disk T.files_nodup hs g
  rwa [Nat.zero_add] at this

variable {g : Nat}

theorem Torrent.Backed.disk_keeps (hb : T.Backed Q A m) {b : UInt8}
    (hg : storedByte T.toEnv m.disk T.info.files g = some b) (hQ : ¬ Q g)
    (hkeep : ∀ j d, m.dirtyBlocks.get? j = some () → m.cache.get? j = some d → T.pos j ≤ g →
      g < T.pos j + d.length → m'.dirtyBlocks.get? j = some () ∧ m'.cache.get? j = some d) :
    b = A g ∨ T.Covered m' g := by
  refine (hb.disk g b hg hQ).imp_right ?_
  rintro ⟨j, d, hj, hd, hlo, hhi⟩
  obtain ⟨hj', hd'⟩ := hkeep j d hj hd hlo hhi
  exact ⟨j, d, hj', hd', hlo, hhi⟩

theorem Torrent.Backed.mono {Q' : Nat → Prop} (hb : T.Backed Q A m) (hQ : ∀ g, Q g → Q' g) :
    T.Backed Q' A m :=
  ⟨hb.dirty, fun g b hg hn => hb.disk g b hg fun h => hn (hQ g h)⟩

theorem storedByte_tryWrite (hs : Stored T.toEnv m.disk T.info.files)
    (hg : ¬ (T.pos k ≤ g ∧ g < T.pos k + data.length)) :
    storedByte T.toEnv (T.tryWrite k data m).disk T.info.files g =
      storedByte T.toEnv m.disk T.info.files g := by
  cases T.tryWrite_cases hs with
  | inr hfail => exact hfail.disk g hg
  | inl hall =>
    rw [hall, storedByte_wrote hs g]
    simp only [patch_of_not_mem (show g < T.pos k ∨ T.pos k + data.length ≤ g by omega),
      Option.map_id']

theorem Torrent.Backed.disk_writeBack (hb : T.Backed Q A m) (hs : T.Sane m)
    (hdirty : m.dirtyBlocks.get? k = some ()) (hcache : m.cache.get? k = some data)
    (hfail : T.Failed k data m (T.tryWrite k data m) → ∀ g, T.pos k ≤ g →
      g < T.pos k + data.length → Q g)
    {b : UInt8} (hg : storedByte T.toEnv (T.tryWrite k data m).disk T.info.files g = some b)
    (hQ : ¬ Q g) : b = A g ∨ T.Covered (T.writeBack k data m) g := by
  by_cases hin : T.pos k ≤ g ∧ g < T.pos k + data.length
  · left
    cases T.tryWrite_cases hs.stored with
    | inr h => exact absurd (hfail h g hin.1 hin.2) hQ
    | inl hall =>
      -- the files have the bytes of the block, which are the content
      rw [hall, storedByte_wrote hs.stored g] at hg
      obtain ⟨b₀, -, hpatch⟩ := map_eq_some_iff.mp hg
      have hsome := some_patch (A := fun _ => b₀) hin.1 hin.2
      rw [hpatch, hb.dirty k data hdirty hcache, getElem?_window, if_pos (by omega),
        show T.pos k + (g - T.pos k) = g by omega] at hsome
      exact some.inj hsome
  · rw [storedByte_tryWrite hs.stored hin] at hg
    refine hb.disk_keeps hg hQ ?_
    intro j d hj hd hlo hhi
    -- the dirty block around this position is another one
    have hne : j ≠ k := by
      rintro rfl
      rw [some.inj (hd.symm.trans hcache)] at hhi
      exact hin ⟨hlo, hhi⟩
    refine ⟨?_, by rw [T.cache_writeBack]; exact hd⟩
    show (m.dirtyBlocks.erase k).get? j = some ()
    rw [get?_erase, if_neg hne, hj]

theorem Torrent.Backed.move (hb : T.Backed Q A m) (hs : T.Sane m) (h : T.Move m m')
    (hfail : ∀ k data, T.IsBlock k data → m' = T.writeBack k data m →
      T.Failed k data m (T.tryWrite k data m) →
      ∀ g, T.pos k ≤ g → g < T.pos k + data.length → Q g) : T.Backed Q A m' := by
  constructor
  · intro j d hj hd
    exact hb.dirty j d (h.dirty_of_dirty hj) (h.cached_of_cached hd)
  · intro g b hg hQ
    cases h with
    | admin cache dirty disk =>
      rw [disk] at hg
      refine hb.disk_keeps hg hQ ?_
      intro j d hj hd _ _
      rw [dirty, cache]
      exact ⟨hj, hd⟩
    | writeBack k data hdirty hcache =>
      exact hb.disk_writeBack hs hdirty hcache (hfail k data (hs.isBlock hdirty hcache) rfl) hg hQ
    | forget k hclean =>
      refine hb.disk_keeps hg hQ ?_
      intro j d hj hd _ _
      -- what is forgotten was not dirty
      have hne : j ≠ k := by
        rintro rfl
        exact absurd (hclean.symm.trans hj) (by simp)
      exact ⟨hj, by rw [get?_erase, if_neg hne]; exact hd⟩
    | clean k huncached =>
      refine hb.disk_keeps hg hQ ?_
      intro j d hj hd _ _
      -- the key that is cleaned had no block
      have hne : j ≠ k := by
        rintro rfl
        exact absurd (huncached.symm.trans hd) (by simp)
      exact ⟨by rw [get?_erase, if_neg hne]; exact hj, hd⟩

theorem Torrent.Backed.moves (hsucc : ∀ h, T.outcome h = .success) (hb : T.Backed Q A m)
    (hs : T.Sane m) (h : T.Moves m m') : T.Backed Q A m' := by
  refine Moves.invariant (fun m m' hs hmove hb => hb.move hs hmove ?_) h hs hb
  intro k data _ _ hfail
  obtain ⟨log, n, hn⟩ := hfail.outcome
  rw [hsucc log] at hn
  cases hn

theorem Torrent.not_covered (hclean : m.dirtyBlocks = empty) (g : Nat) : ¬ T.Covered m g := by
  rintro ⟨k, d, hk, -⟩
  rw [hclean] at hk
  cases hk

theorem Torrent.Backed.eq_of_clean (hb : T.Backed Q A m) (hclean : m.dirtyBlocks = empty)
    {b : UInt8} (hg : storedByte T.toEnv m.disk T.info.files g = some b) (hQ : ¬ Q g) : b = A g :=
  (hb.disk g b hg hQ).resolve_right (T.not_covered hclean g)

theorem Torrent.Backed.put {Q' : Nat → Prop} (hb : T.Backed Q A m) (hs : T.Sane m)
    (hk : T.IsBlock k data) (h : Put k data m m')
    (hQ' : ∀ g, ¬ (T.pos k ≤ g ∧ g < T.pos k + data.length) → Q g → Q' g) :
    T.Backed Q' (patch A (T.pos k) data) m' := by
  constructor
  · intro j d hj hd
    rw [h.dirty, get?_insert] at hj
    rw [h.cache, get?_insert] at hd
    by_cases hjk : j = k
    · rw [if_pos hjk] at hd
      rw [← some.inj hd, hjk, window_patch_self]
    · rw [if_neg hjk] at hj hd
      rw [window_patch_of_disjoint ((hs.isBlock hj hd).disjoint hk hjk)]
      exact hb.dirty j d hj hd
  · intro g b hg hQ
    rw [h.disk] at hg
    by_cases hin : T.pos k ≤ g ∧ g < T.pos k + data.length
    · -- the new block covers the position
      refine .inr ⟨k, data, ?_, ?_, hin.1, hin.2⟩
      · rw [h.dirty, get?_insert, if_pos rfl]
      · rw [h.cache, get?_insert, if_pos rfl]
    · rw [patch_of_not_mem (by omega)]
      refine hb.disk_keeps hg (fun h => hQ (hQ' g hin h)) ?_
      intro j d hj hd hlo hhi
      have hne : j ≠ k := by
        -- a block that was dirty under this key covered the same range
        rintro rfl
        have := (hs.isBlock hj hd).length_eq.trans hk.length_eq.symm
        omega
      rw [h.dirty, h.cache, get?_insert, get?_insert, if_neg hne, if_neg hne]
      exact ⟨hj, hd⟩

theorem Torrent.Backed.inserted (hb : T.Backed Q A m) (hk : m.dirtyBlocks.get? k ≠ some ())
    (h : Inserted k data m m') : T.Backed Q A m' := by
  constructor
  · intro j d hj hd
    rw [h.dirty] at hj
    rw [h.cache] at hd
    obtain ⟨hjk, hj⟩ := get?_erase_eq_some hj
    cases get?_insert_eq_some hd with
    | inl hnew => exact absurd hnew.1 hjk
    | inr hold => exact hb.dirty j d hj hold.2
  · intro g b hg hQ
    rw [h.disk] at hg
    refine hb.disk_keeps hg hQ ?_
    intro j d hj hd _ _
    -- the block that is replaced was not dirty
    have hne : j ≠ k := by
      rintro rfl
      exact hk hj
    rw [h.dirty, h.cache, get?_erase, get?_insert, if_neg hne, if_neg hne]
    exact ⟨hj, hd⟩

/-! ## What keeps the cache coherent -/

theorem Torrent.Cached.move (hc : T.Cached A m) (h : T.Move m m') : T.Cached A m' :=
  ⟨fun j d hd => hc.within j d (h.cached_of_cached hd),
    fun j d hd => hc.content j d (h.cached_of_cached hd)⟩

theorem Torrent.Cached.insert {A' : Nat → UInt8} (hc : T.Cached A m)
    (hcache : m'.cache = m.cache.insert k data) (hp : k.piece < T.info.numPieces)
    (hk : k.offset + data.length ≤ T.info.pieceLen k.piece)
    (hdata : data = window A' (T.pos k) data.length)
    (hrest : ∀ j d, m.cache.get? j = some d → j ≠ k → d = window A' (T.pos j) d.length) :
    T.Cached A' m' := by
  constructor
  · intro j d hd
    rw [hcache] at hd
    cases get?_insert_eq_some hd with
    | inl hnew =>
      obtain ⟨rfl, rfl⟩ := hnew
      exact ⟨hp, hk⟩
    | inr hold => exact hc.within j d hold.2
  · intro j d hd
    rw [hcache] at hd
    cases get?_insert_eq_some hd with
    | inl hnew =>
      obtain ⟨rfl, rfl⟩ := hnew
      exact hdata
    | inr hold => exact hrest j d hold.2 hold.1

theorem Torrent.Cached.put (hc : T.Cached A m) (hk : T.IsBlock k data) (h : Put k data m m')
    (hdisj : ∀ j d, m.cache.get? j = some d → j ≠ k → d = [] ∨
      T.pos j + d.length ≤ T.pos k ∨ T.pos k + data.length ≤ T.pos j) :
    T.Cached (patch A (T.pos k) data) m' := by
  apply hc.insert h.cache hk.piece_lt hk.within (window_patch_self ..).symm
  intro j d hd hjk
  cases hdisj j d hd hjk with
  | inl hempty => rw [hempty]; rfl
  | inr hdisj =>
    rw [window_patch_of_disjoint hdisj]
    exact hc.content j d hd

theorem Torrent.Cached.inserted (hc : T.Cached A m) (hp : k.piece < T.info.numPieces)
    (hk : k.offset + data.length ≤ T.info.pieceLen k.piece)
    (hdata : data = window A (T.pos k) data.length) (h : Inserted k data m m') : T.Cached A m' :=
  hc.insert h.cache hp hk hdata fun j d hd _ => hc.content j d hd

end Backed

/-! ## Runs -/

namespace Torrent

variable (T : Torrent)

/-- The content of the files; a position that is not stored counts as `0`. -/
def onDisk (disk : Nat → Option Bytes) : Nat → UInt8 := fun g =>
  (storedByte T.toEnv disk T.info.files g).getD 0

def pieceOnDisk (disk : Nat → Option Bytes) (p : Nat) : Bytes :=
  window (T.onDisk disk) (p * T.info.ps) (T.info.pieceLen p)

def Valid : CacheOp → Prop
  | .writePiece p data => p < T.info.numPieces ∧ data.length = T.info.pieceLen p
  | .readBlock p begin length =>
    p < T.info.numPieces ∧ begin + length ≤ T.info.pieceLen p
  | _ => True

/-- A piece is written only when none of its bytes is cached under an offset inside a block (and the
    offsets of its blocks do not wrap around), and a read that goes to the files needs no dirty
    byte. -/
def Careful (m : FileManager) : CacheOp → Prop
  | .writePiece p _ => T.info.pieceLen p + blockSize ≤ 2 ^ 32 ∧
    ∀ off data, m.cache.get? ⟨p, off⟩ = some data → data = [] ∨ off % blockSize = 0
  | .readBlock p begin length => m.cached ⟨p, begin⟩ length = none →
    ∀ g, T.pos ⟨p, begin⟩ ≤ g → g < T.pos ⟨p, begin⟩ + length → ¬ T.Covered m g
  | _ => True

def CarefulRun : List CacheOp → FileManager → Prop :=
  StepsMeet (CacheOp.step T.toEnv) fun m op => T.Valid op ∧ T.Careful m op

end Torrent

def lastWritten (p : Nat) : List CacheOp → Option Bytes
  | [] => none
  | .writePiece q data :: ops => (lastWritten p ops).or (if q = p then some data else none)
  | _ :: ops => lastWritten p ops

theorem mem_of_lastWritten {p : Nat} {data : Bytes} : ∀ {ops : List CacheOp},
    lastWritten p ops = some data → .writePiece p data ∈ ops
  | .writePiece q d :: ops, h => by
    rw [lastWritten] at h
    -- what is written later wins
    cases hrest : lastWritten p ops with
    | some e =>
      rw [hrest, some_or] at h
      rw [h] at hrest
      exact mem_cons_of_mem _ (mem_of_lastWritten hrest)
    | none =>
      rw [hrest, none_or] at h
      split at h
      · next hq => rw [hq, some.inj h]; exact List.mem_cons_self ..
      · exact nomatch h
  | .readBlock .. :: ops, h => mem_cons_of_mem _ (mem_of_lastWritten h)
  | .touchCache .. :: ops, h => mem_cons_of_mem _ (mem_of_lastWritten h)
  | .evictIfNeeded :: ops, h => mem_cons_of_mem _ (mem_of_lastWritten h)
  | .flushAllDirty :: ops, h => mem_cons_of_mem _ (mem_of_lastWritten h)
  | .syncFlushAllDirty :: ops, h => mem_cons_of_mem _ (mem_of_lastWritten h)

/-- What a piece holds after a run: the data last written to it, or what was on disk before. -/
def Torrent.pieceData (T : Torrent) (disk : Nat → Option Bytes) (ops : List CacheOp) (p : Nat) :
    Bytes :=
  (lastWritten p ops).getD (T.pieceOnDisk disk p)

/-! ## The content of a run -/

def Torrent.write (T : Torrent) (A : Nat → UInt8) : CacheOp → Nat → UInt8
  | .writePiece p data => patch A (p * T.info.ps) data
  | _ => A

theorem write_of_ne (T : Torrent) (A : Nat → UInt8) {op : CacheOp}
    (hop : ∀ p data, op ≠ .writePiece p data) : T.write A op = A := by
  cases op with
  | writePiece p data => exact absurd rfl (hop p data)
  | _ => rfl

theorem window_foldl_write (T : Torrent) (p : Nat) :
    ∀ (ops : List CacheOp) (A : Nat → UInt8),
    (∀ q data, .writePiece q data ∈ ops → data.length = T.info.pieceLen q) →
    window (ops.foldl T.write A) (p * T.info.ps) (T.info.pieceLen p) =
      (lastWritten p ops).getD (window A (p * T.info.ps) (T.info.pieceLen p))
  | [], _, _ => rfl
  | op :: ops, A, hv => by
    rw [foldl_cons, window_foldl_write T p ops _ fun q d h => hv q d (mem_cons_of_mem _ h)]
    cases op with
    | writePiece q data =>
      have hlen := hv q data (mem_cons_self ..)
      rw [show lastWritten p (.writePiece q data :: ops) =
        (lastWritten p ops).or (if q = p then some data else none) from rfl]
      cases lastWritten p ops with
      | some d => rfl
      | none =>
        rw [getD_none, none_or]
        unfold write
        -- the piece is written as a whole, or another piece is
        by_cases hqp : q = p
        · rw [if_pos hqp, getD_some, ← hqp, ← hlen, window_patch_self]
        · rw [if_neg hqp, getD_none]
          apply window_patch_of_disjoint
          have hdisj := disjoint_of_piece_ne (T := T) (j := ⟨p, 0⟩) (k := ⟨q, 0⟩)
            (a := T.info.pieceLen p) (b := data.length) (Ne.symm hqp) (by simp)
            (by simp [hlen])
          simpa [pos] using hdisj
    | readBlock => rfl
    | touchCache => rfl
    | evictIfNeeded => rfl
    | flushAllDirty => rfl
    | syncFlushAllDirty => rfl

theorem getElem?_lastWritten (T : Torrent) {p : Nat} {ops : List CacheOp} {data : Bytes}
    (hv : ∀ q d, .writePiece q d ∈ ops → d.length = T.info.pieceLen q)
    (hlast : lastWritten p ops = some data) (A : Nat → UInt8) {i : Nat} (hi : i < data.length) :
    data[i]? = some (ops.foldl T.write A (p * T.info.ps + i)) := by
  have hcontent := window_foldl_write T p ops A hv
  rw [hlast, getD_some] at hcontent
  have hlen : data.length = T.info.pieceLen p := by rw [← hcontent, length_window]
  rw [← hcontent, getElem?_window, if_pos (by omega)]

structure Torrent.Coherent (T : Torrent) (A : Nat → UInt8) (m : FileManager) : Prop where
  running : m.ioCancelled = false
  sane : T.Sane m
  backed : T.Backed (fun _ => False) A m
  cached : T.Cached A m

section Step

variable {T : Torrent} {Q : Nat → Prop} {A : Nat → UInt8} {m m' : FileManager}
  {p : Nat} {data : Bytes}

theorem patch_take_round (A : Nat → UInt8) {off : Nat} (hoff : off < data.length) :
    patch A (p * T.info.ps) (data.take (min (off + blockSize) data.length)) =
      patch (patch A (p * T.info.ps) (data.take off)) (T.pos ⟨p, off⟩)
        (data.slice off (min blockSize (data.length - off))) := by
  have htake : data.take (min (off + blockSize) data.length) =
      data.take off ++ data.slice off (min blockSize (data.length - off)) := by
    rw [show min (off + blockSize) data.length = off + min blockSize (data.length - off) by
      omega, take_add]
    rfl
  have hlo : T.pos ⟨p, off⟩ = p * T.info.ps + (data.take off).length := by
    rw [length_take, Nat.min_eq_left (by omega)]
    rfl
  rw [htake, hlo, patch_append]

theorem writePiece_content (hp : p < T.info.numPieces) (hlen : data.length = T.info.pieceLen p)
    (hwrap : data.length + blockSize ≤ 2 ^ 32) (P : (Nat → UInt8) → FileManager → Prop)
    (hmove : ∀ A m m', T.Sane m → T.Move m m' → P A m → P A m')
    (hput : ∀ A k d m m', T.Sane m → T.IsBlock k d → P A m → Put k d m m' →
      P (patch A (T.pos k) d) m')
    (hs : T.Sane m) (hP : P A m) :
    ∃ m', m.writePiece T.toEnv p data = some m' ∧ T.Sane m' ∧
      m'.ioCancelled = m.ioCancelled ∧ P (patch A (p * T.info.ps) data) m' := by
  obtain ⟨m', hrun, hs', hc', hP'⟩ := writePiece_rule hp hlen hwrap
    (fun n => P (patch A (p * T.info.ps) (data.take n))) (fun n => hmove _)
    (fun off m m' hs hal hoff hP h => by
      rw [patch_take_round A hoff]
      exact hput _ _ _ m m' hs (isBlock_slice hp hlen hal hoff) hP h)
    hs (by rw [take_zero, patch_nil]; exact hP)
  rw [take_length] at hP'
  exact ⟨m', hrun, hs', hc', hP'⟩

/-- The first `n` bytes of a piece have been written: what is cached of it below `n` ends there. -/
private def Front (p n : Nat) (m : FileManager) : Prop :=
  ∀ off data, m.cache.get? ⟨p, off⟩ = some data →
    data = [] ∨ (off % blockSize = 0 ∧ (off < n → off + data.length ≤ n))

private theorem coherent_putBlock {off : Nat} (hp : p < T.info.numPieces)
    (hlen : data.length = T.info.pieceLen p) (hs : T.Sane m) (hal : off % blockSize = 0)
    (hoff : off < data.length) (hbacked : T.Backed Q (patch A (p * T.info.ps) (data.take off)) m)
    (hcached : T.Cached (patch A (p * T.info.ps) (data.take off)) m) (hfront : Front p off m)
    (hput : Put ⟨p, off⟩ (data.slice off (min blockSize (data.length - off))) m m') :
    T.Backed Q (patch A (p * T.info.ps) (data.take (min (off + blockSize) data.length))) m' ∧
      T.Cached (patch A (p * T.info.ps) (data.take (min (off + blockSize) data.length))) m' ∧
      Front p (min (off + blockSize) data.length) m' := by
  have hblock := isBlock_slice hp hlen hal hoff
  generalize hbd : data.slice off (min blockSize (data.length - off)) = block at hblock hput
  have hblen : block.length = min blockSize (data.length - off) := by
    rw [← hbd, length_slice]
    omega
  rw [patch_take_round A hoff, hbd]
  refine ⟨hbacked.put hs hblock hput fun _ _ h => h, hcached.put hblock hput ?_, ?_⟩
  · intro j d hd hne
    by_cases hjp : j.piece = p
    · -- another block of the piece: it starts at a multiple of the block size
      obtain ⟨q, o⟩ := j
      obtain rfl : q = p := hjp
      have ho : o ≠ off := fun h => hne (by rw [h])
      unfold pos
      cases hfront o d hd with
      | inl h => exact .inl h
      | inr h => right; dsimp only; unfold blockSize at *; omega
    · exact .inr (disjoint_of_piece_ne hjp (hcached.within j d hd).2 hblock.within)
  · intro o d hd
    rw [hput.cache, get?_insert] at hd
    by_cases ho : o = off
    · rw [if_pos (by rw [ho])] at hd
      rw [← some.inj hd, ho]
      right
      exact ⟨hal, fun _ => by omega⟩
    · rw [if_neg (by simp [ho])] at hd
      cases hfront o d hd with
      | inl h => exact .inl h
      | inr h =>
        right
        refine ⟨h.1, fun hlt => ?_⟩
        unfold blockSize at *
        omega

variable (hsucc : ∀ h, T.outcome h = .success)

include hsucc

theorem Torrent.Coherent.moves (h : T.Coherent A m) (hm : T.Moves m m') : T.Coherent A m' :=
  ⟨by rw [Moves.cancelled hm, h.running], Moves.sane hm h.sane,
    h.backed.moves hsucc h.sane hm,
    Moves.invariant (fun _ _ _ hstep hc => hc.move hstep) hm h.sane h.cached⟩

theorem coherent_writePiece (h : T.Coherent A m) (hv : T.Valid (.writePiece p data))
    (hcare : T.Careful m (.writePiece p data)) :
    ∃ m', m.writePiece T.toEnv p data = some m' ∧ T.Coherent (patch A (p * T.info.ps) data) m' := by
  obtain ⟨hp, hlen⟩ := hv
  -- the cache is kept coherent block by block, behind the front of what is written
  obtain ⟨m', hrun, hs', hc', hbacked, hcached, -⟩ := writePiece_rule hp hlen
    (by rw [hlen]; exact hcare.1)
    (fun n m => T.Backed (fun _ => False) (patch A (p * T.info.ps) (data.take n)) m ∧
      T.Cached (patch A (p * T.info.ps) (data.take n)) m ∧ Front p n m)
    (fun n m m' hs hmove hP => ⟨hP.1.moves hsucc hs (.single hmove), hP.2.1.move hmove,
      fun off d hd => hP.2.2 off d (hmove.cached_of_cached hd)⟩)
    (fun off m m' hs hal hoff hP hput =>
      coherent_putBlock hp hlen hs hal hoff hP.1 hP.2.1 hP.2.2 hput)
    h.sane
    ⟨by rw [take_zero, patch_nil]; exact h.backed,
      by rw [take_zero, patch_nil]; exact h.cached, fun off d hd =>
        (hcare.2 off d hd).imp_right fun hal => ⟨hal, fun hlt => absurd hlt (Nat.not_lt_zero _)⟩⟩
  rw [take_length] at hbacked hcached
  exact ⟨m', hrun, by rw [hc', h.running], hs', hbacked, hcached⟩

variable (hdown : ∀ file ∈ T.info.files, file.download = true)

omit hsucc in
include hdown in
theorem Torrent.Coherent.storedByte_eq (h : T.Coherent A m) {g : Nat} (hg : g < T.info.total)
    (hcov : ¬ T.Covered m g) : storedByte T.toEnv m.disk T.info.files g = some (A g) := by
  obtain ⟨b, hb⟩ := storedByte_isSome T.info.files g h.sane.stored hdown
    (by rw [T.consistent.sum_eq]; exact hg)
  cases h.backed.disk g b hb id with
  | inl hA => rw [hb, hA]
  | inr hc => exact absurd hc hcov

include hdown in
theorem coherent_readBlock {begin length : Nat} (h : T.Coherent A m)
    (hv : T.Valid (.readBlock p begin length)) (hcare : T.Careful m (.readBlock p begin length)) :
    ∃ m', m.readBlock T.toEnv ⟨p, begin⟩ length =
        some (.ok (window A (T.pos ⟨p, begin⟩) length), m') ∧ T.Coherent A m' := by
  obtain ⟨hp, hlen⟩ := hv
  have hend := T.consistent.tiled.start_add_pieceLen_le hp
  have htotal := T.consistent.total_lt
  have hlt := T.info.pieceLen_lt p
  unfold readBlock
  cases hhit : m.cached ⟨p, begin⟩ length with
  | some block =>
    -- a cached block holds the content, and so does its front part
    have hblock : block = window A (T.pos ⟨p, begin⟩) length := by
      unfold cached at hhit
      split at hhit
      · next data hdata =>
        split at hhit
        · next hge =>
          rw [← some.inj hhit, h.cached.content _ _ hdata]
          show (window A (T.pos ⟨p, begin⟩) data.length).slice 0 length = _
          exact slice_window A (by omega)
        · cases hhit
      · cases hhit
    rw [hblock]
    exact ⟨_, rfl, h.moves hsucc (.single (.admin rfl rfl rfl rfl rfl))⟩
  | none =>
    have hread : readFromDisk T.toEnv m ⟨p, begin⟩ length =
        .ok (window A (T.pos ⟨p, begin⟩) length) := by
      refine readFromDisk_ok (by rw [T.consistent.sum_eq]; exact htotal) ?_ (by omega)
        h.running A ?_
      · show p * T.info.ps + begin + length < 2 ^ 64
        omega
      · intro g hlo hhi
        have hhi' : g < p * T.info.ps + begin + length := hhi
        exact h.storedByte_eq hdown (by omega) (hcare hhit g hlo hhi)
    -- a dirty block under this key would cover the first byte of the read
    have hclean : m.dirtyBlocks.get? ⟨p, begin⟩ ≠ some () := by
      intro hdirty
      obtain ⟨data, hdata, hblock⟩ := h.sane.dirty _ hdirty
      have hpos := hblock.length_pos
      have hshort : data.length < length := by
        apply Nat.lt_of_not_le
        intro hge
        simp only [cached, hdata, ge_iff_le, if_pos hge] at hhit
        cases hhit
      exact hcare hhit _ (Nat.le_refl _) (by omega)
        ⟨_, data, hdirty, hdata, Nat.le_refl _, by omega⟩
    obtain ⟨m₁, m', -, hmoves, hrun, hins⟩ := cacheRead_moves h.sane ⟨p, begin⟩
      (window A (T.pos ⟨p, begin⟩) length)
    have h₁ := h.moves hsucc hmoves
    refine ⟨m', by simp only [hread, hrun, map_some], ?_⟩
    refine ⟨by rw [hins.cancelled, h₁.running], hins.sane h₁.sane, ?_, ?_⟩
    · exact h₁.backed.inserted (fun hd => hclean (Moves.dirty_of_dirty hmoves hd)) hins
    · exact h₁.cached.inserted hp (by rw [length_window]; exact hlen) (by rw [length_window]) hins

include hdown in
theorem coherent_step {op : CacheOp} (h : T.Coherent A m) (hv : T.Valid op)
    (hcare : T.Careful m op) :
    ∃ m', op.step T.toEnv m = some m' ∧ T.Coherent (T.write A op) m' := by
  by_cases hwrite : ∃ p data, op = .writePiece p data
  · obtain ⟨p, data, rfl⟩ := hwrite
    exact coherent_writePiece hsucc h hv hcare
  · have hop : ∀ p data, op ≠ .writePiece p data := fun p data heq => hwrite ⟨p, data, heq⟩
    obtain ⟨m', hrun, heff⟩ := step_effect h.sane hop fun _ => h.running
    rw [write_of_ne T A hop]
    cases heff with
    | moves hmoves => exact ⟨m', hrun, h.moves hsucc hmoves⟩
    | inserted =>
      obtain ⟨m'', hrun', hm''⟩ := coherent_readBlock hsucc hdown h hv hcare
      exact ⟨m'', by simp only [CacheOp.step, hrun', map_some], hm''⟩

include hdown in
theorem run_coherent (ops : List CacheOp) (h : T.Coherent A m) (hcare : T.CarefulRun ops m) :
    (∀ op ∈ ops, T.Valid op) ∧
    ∃ m', CacheOp.run T.toEnv ops m = some m' ∧ T.Coherent (ops.foldl T.write A) m' := by
  obtain ⟨m', hrun, h'⟩ := runSteps_total T.write
    (fun A m op hok h => coherent_step hsucc hdown h hok.1 hok.2) hcare h
  exact ⟨hcare.forall (fun _ _ hok => hok.1) hrun, m', hrun, h'⟩

omit hsucc in
theorem coherent_start {disk : Nat → Option Bytes} (hs : Stored T.toEnv disk T.info.files) :
    T.Coherent (T.onDisk disk) (.start disk) := by
  refine ⟨rfl, ⟨hs, nofun⟩, ⟨nofun, ?_⟩, ⟨nofun, nofun⟩⟩
  intro g b hg hQ
  left
  unfold onDisk
  rw [show storedByte T.toEnv disk T.info.files g = some b from hg, getD_some]

omit hsucc in
include hdown in
theorem pieceOnDisk_eq (h : T.Coherent A m) (hclean : m.dirtyBlocks = empty)
    (hp : p < T.info.numPieces) :
    T.pieceOnDisk m.disk p = window A (p * T.info.ps) (T.info.pieceLen p) := by
  have hend := T.consistent.tiled.start_add_pieceLen_le hp
  apply window_congr
  intro g hlo hhi
  unfold onDisk
  rw [h.storedByte_eq hdown (by omega) (T.not_covered hclean g), getD_some]

end Step

/-- In a run of careful operations every read returns the bytes last written to the piece (or those
    on disk before), and a flush brings them to the files. -/
theorem cache_coherent_of_careful (T : Torrent) (hsucc : ∀ h, T.outcome h = .success)
    (hdown : ∀ file ∈ T.info.files, file.download = true) (disk : Nat → Option Bytes)
    (hstored : Stored T.toEnv disk T.info.files) (ops : List CacheOp)
    (hcare : T.CarefulRun ops (.start disk)) :
    ∃ m, CacheOp.run T.toEnv ops (.start disk) = some m ∧
      (∀ p begin length, T.Valid (.readBlock p begin length) →
        T.Careful m (.readBlock p begin length) →
        ∃ m', m.readBlock T.toEnv ⟨p, begin⟩ length =
          some (.ok ((T.pieceData disk ops p).slice begin length), m')) ∧
      (∀ flush, flush = .flushAllDirty ∨ flush = .syncFlushAllDirty →
        ∃ m', CacheOp.step T.toEnv m flush = some m' ∧ Stored T.toEnv m'.disk T.info.files ∧
          ∀ p < T.info.numPieces, T.pieceOnDisk m'.disk p = T.pieceData disk ops p) := by
  obtain ⟨hvalid, m, hrun, hm⟩ :=
    run_coherent hsucc hdown ops (coherent_start hstored) hcare
  have hpiece : ∀ p < T.info.numPieces,
      window (ops.foldl T.write (T.onDisk disk)) (p * T.info.ps) (T.info.pieceLen p) =
        T.pieceData disk ops p := fun p _ =>
    window_foldl_write T p ops _ fun q d h => (hvalid _ h).2
  refine ⟨m, hrun, ?_, ?_⟩
  · intro p begin length hv hread
    obtain ⟨m', hrun', -⟩ := coherent_readBlock hsucc hdown hm hv hread
    refine ⟨m', ?_⟩
    rw [hrun', ← hpiece p hv.1, slice_window _ hv.2]
    rfl
  · intro flush hflush
    obtain ⟨m', hstep, hmoves, hclean⟩ := flush_moves hm.sane hm.running hflush
    have hm' := hm.moves hsucc hmoves
    refine ⟨m', hstep, hm'.sane.stored, fun p hp => ?_⟩
    rw [pieceOnDisk_eq hdown hm' hclean hp, hpiece p hp]

/-! ## A read that is stale -/

def zeroDisk : Nat → Option Bytes := fun _ => some [0, 0]

theorem stored_zeroDisk (outcome : List Event → WriteOutcome) :
    Stored (twoByteTorrent outcome).toEnv zeroDisk (twoByteTorrent outcome).info.files := by
  intro file hf _
  refine ⟨[0, 0], rfl, ?_⟩
  rw [mem_singleton.mp hf]
  decide

/-- A piece is written, and the read of its second byte misses the block cached under offset `0` and
    returns the old byte. -/
theorem readBlock_stale :
    (twoByteTorrent fun _ => .success).Valid (.writePiece 0 [1, 2]) ∧
    (twoByteTorrent fun _ => .success).Valid (.readBlock 0 1 1) ∧
    ((CacheOp.run twoByteEnv [.writePiece 0 [1, 2]]
        (.start zeroDisk)).bind fun m =>
      (m.readBlock twoByteEnv ⟨0, 1⟩ 1).map (·.1)) =
        some (.ok [0]) ∧
    ((twoByteTorrent fun _ => .success).pieceData zeroDisk [.writePiece 0 [1, 2]] 0).slice 1 1 =
      [2] := by
  exact ⟨⟨by decide, by decide⟩, ⟨by decide, by decide⟩, by decide +kernel, by decide +kernel⟩

theorem twoByteTorrent_flushed :
    ∃ m m', CacheOp.run twoByteEnv [.writePiece 0 [1, 2]]
        (.start zeroDisk) = some m ∧
      CacheOp.step twoByteEnv m .flushAllDirty = some m' ∧
      (twoByteTorrent fun _ => .success).pieceOnDisk m'.disk 0 = [1, 2] := by
  obtain ⟨m, hrun, -, hflush⟩ := cache_coherent_of_careful (twoByteTorrent fun _ => .success)
    (fun _ => rfl) (by decide) zeroDisk (stored_zeroDisk _) [.writePiece 0 [1, 2]]
    ⟨⟨⟨by decide, by decide⟩, by decide, nofun⟩, fun _ _ => trivial⟩
  obtain ⟨m', hstep, -, hdisk⟩ := hflush .flushAllDirty (.inl rfl)
  exact ⟨m, m', hrun, hstep, hdisk 0 (by decide)⟩

end P2P
