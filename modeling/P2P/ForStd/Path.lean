import P2P.ForStd.Bytes

/-!
# File system paths

`std::filesystem::path` on a POSIX system: the native byte string, the append operator and the
lexical normal form.
-/

/-- A path in its native format. -/
structure PosixPath where
  native : Bytes
  deriving DecidableEq

namespace PosixPath

open List

abbrev separator : UInt8 := 47

def empty : PosixPath := ⟨[]⟩

def isAbsolute (p : PosixPath) : Bool := p.native.head? == some separator

def hasFilename (p : PosixPath) : Bool :=
  !p.native.isEmpty && p.native.getLast? != some separator

/-- `operator/=`: an absolute right side replaces the left, another is appended. -/
def append (p q : PosixPath) : PosixPath :=
  if q.isAbsolute || p.native.isEmpty then q
  else if p.hasFilename then ⟨p.native ++ separator :: q.native⟩
  else ⟨p.native ++ q.native⟩

def dot : Bytes := [46]

def dotdot : Bytes := [46, 46]

def components (p : PosixPath) : List Bytes :=
  (p.native.splitOn separator).filter (!·.isEmpty)

/-- One name on the way; the stack has the names that lead there, the last one first. -/
def stepInto (rooted : Bool) (stack : List Bytes) (name : Bytes) : List Bytes :=
  if name = dot then stack
  else if name = dotdot then
    match stack with
    | [] => if rooted then [] else [dotdot]
    | top :: rest => if top = dotdot then dotdot :: top :: rest else rest
  else name :: stack

/-- A way through some names. -/
def walk (rooted : Bool) (stack names : List Bytes) : List Bytes :=
  names.foldl (stepInto rooted) stack

/-- The lexical normal form: whether it starts at the root, and its names, the last one first. -/
structure Normal where
  rooted : Bool
  stack : List Bytes
  deriving DecidableEq

/-- `lexically_normal`, without a separator at the end. -/
def lexicallyNormal (p : PosixPath) : Normal where
  rooted := p.isAbsolute
  stack := walk p.isAbsolute [] p.components

/-- The normal form has the directory's and at least one name more, and none of these leads out. -/
def Contained (dir p : PosixPath) : Prop :=
  p.lexicallyNormal.rooted = dir.lexicallyNormal.rooted ∧
    ∃ below, below ≠ [] ∧ dotdot ∉ below ∧
      p.lexicallyNormal.stack = below ++ dir.lexicallyNormal.stack

theorem Contained.length_lt {dir p : PosixPath} (h : Contained dir p) :
    dir.lexicallyNormal.stack.length < p.lexicallyNormal.stack.length := by
  obtain ⟨-, below, hne, -, hstack⟩ := h
  have := length_pos_iff.mpr hne
  rw [hstack, length_append]
  omega

/-- How far below their start some names end; `none` when they climb out on the way. -/
def descend : List Bytes → Nat → Option Nat
  | [], depth => some depth
  | name :: names, depth =>
    if name = dot then descend names depth
    else if name = dotdot then
      match depth with
      | 0 => none
      | depth + 1 => descend names depth
    else descend names (depth + 1)

/-- The names never climb out of where they start, and end below it. -/
def Descends (names : List Bytes) : Prop := ∃ depth, descend names 0 = some (depth + 1)

instance (names : List Bytes) : Decidable (Descends names) :=
  match h : descend names 0 with
  | none => isFalse fun ⟨_, hdepth⟩ => nomatch h.symm.trans hdepth
  | some 0 => isFalse fun ⟨_, hdepth⟩ => nomatch h.symm.trans hdepth
  | some (depth + 1) => isTrue ⟨depth, h⟩

section Append

variable {p q : PosixPath}

theorem isAbsolute_append (p q : PosixPath) :
    (p.append q).isAbsolute = (p.isAbsolute || q.isAbsolute) := by
  unfold append
  by_cases hq : q.isAbsolute = true
  · rw [hq, Bool.true_or, if_pos rfl, hq, Bool.or_true]
  · rw [Bool.not_eq_true] at hq
    rw [hq, Bool.false_or, Bool.or_false]
    cases hp : p.native with
    | nil =>
      rw [isEmpty_nil, if_pos rfl, hq, isAbsolute, hp]
      rfl
    | cons b bs =>
      rw [isEmpty_cons, if_neg Bool.false_ne_true]
      unfold isAbsolute
      split
      · rw [hp]; rfl
      · rw [hp]; rfl

theorem components_separator (a b : Bytes) :
    components ⟨a ++ separator :: b⟩ = components ⟨a⟩ ++ components ⟨b⟩ := by
  have h : (a ++ separator :: b).splitOn separator = a.splitOn separator ++ b.splitOn separator :=
    splitOnP_append_cons a b (beq_self_eq_true separator)
  unfold components
  rw [h, filter_append]

theorem components_append (p : PosixPath) (hq : q.isAbsolute = false) :
    (p.append q).components = p.components ++ q.components := by
  unfold append
  rw [hq, Bool.false_or]
  by_cases hempty : p.native = []
  · obtain rfl : p = ⟨[]⟩ := by cases p; exact congrArg mk hempty
    rfl
  · rw [if_neg (by simpa using hempty)]
    by_cases hname : p.hasFilename = true
    · rw [if_pos hname]
      exact components_separator p.native q.native
    · -- the path ends with a separator
      have hlast : p.native.getLast? = some separator := by
        simpa [hasFilename, hempty] using hname
      obtain ⟨init, hinit⟩ := getLast?_eq_some_iff.mp hlast
      have hp : p.components = components ⟨init⟩ := by
        have h := components_separator init []
        rw [← hinit] at h
        rw [h]
        exact append_nil _
      rw [if_neg hname, hp, ← components_separator, hinit, append_assoc]
      rfl

theorem isAbsolute_foldl (qs : List PosixPath) (p : PosixPath) :
    (qs.foldl append p).isAbsolute = (p.isAbsolute || qs.any isAbsolute) := by
  induction qs generalizing p with
  | nil => rw [foldl_nil, any_nil, Bool.or_false]
  | cons q qs ih => rw [foldl_cons, ih, isAbsolute_append, any_cons, Bool.or_assoc]

theorem components_foldl {qs : List PosixPath} (hqs : ∀ q ∈ qs, q.isAbsolute = false)
    (p : PosixPath) : (qs.foldl append p).components = p.components ++ qs.flatMap components := by
  induction qs generalizing p with
  | nil => rw [foldl_nil, flatMap_nil, append_nil]
  | cons q qs ih =>
    rw [foldl_cons, ih (fun r hr => hqs r (mem_cons_of_mem _ hr)),
      components_append p (hqs q (mem_cons_self ..)), flatMap_cons, append_assoc]

end Append

section Walk

variable (rooted : Bool)

theorem walk_cons (stack : List Bytes) (name : Bytes) (names : List Bytes) :
    walk rooted stack (name :: names) = walk rooted (stepInto rooted stack name) names := rfl

theorem stepInto_descend {above : List Bytes} (hup : dotdot ∉ above) (name : Bytes)
    (names : List Bytes) :
    (name = dotdot ∧ above = [] ∧ descend (name :: names) above.length = none) ∨
    ∃ above', dotdot ∉ above' ∧
      descend (name :: names) above.length = descend names above'.length ∧
      ∀ rooted base, stepInto rooted (above ++ base) name = above' ++ base := by
  unfold stepInto
  rw [descend.eq_def]
  dsimp only
  by_cases hdot : name = dot
  · exact .inr ⟨above, hup, if_pos hdot, fun _ _ => if_pos hdot⟩
  · rw [if_neg hdot]
    by_cases hdd : name = dotdot
    · rw [if_pos hdd]
      cases above with
      | nil => exact .inl ⟨hdd, rfl, rfl⟩
      | cons top rest =>
        have htop : top ≠ dotdot := fun h => hup (h ▸ mem_cons_self ..)
        refine .inr ⟨rest, fun h => hup (mem_cons_of_mem _ h), rfl, fun _ _ => ?_⟩
        rw [if_neg hdot, if_pos hdd, cons_append]
        exact if_neg htop
    · rw [if_neg hdd]
      refine .inr ⟨name :: above, fun h => ?_, rfl, fun _ _ => ?_⟩
      · exact (mem_cons.mp h).elim (fun h => hdd h.symm) hup
      · rw [if_neg hdot, if_neg hdd]
        rfl

theorem walk_descend (base : List Bytes) {names : List Bytes} {depth : Nat} :
    ∀ {above : List Bytes}, dotdot ∉ above → descend names above.length = some depth →
    ∃ below, walk rooted (above ++ base) names = below ++ base ∧ below.length = depth ∧
      dotdot ∉ below := by
  induction names with
  | nil =>
    intro above hup hdepth
    exact ⟨above, rfl, Option.some.inj hdepth, hup⟩
  | cons name names ih =>
    intro above hup hdepth
    cases stepInto_descend hup name names with
    | inl hout =>
      rw [hout.2.2] at hdepth
      cases hdepth
    | inr hin =>
      obtain ⟨above', hup', hsame, hstep⟩ := hin
      rw [walk_cons, hstep]
      exact ih hup' (hsame ▸ hdepth)

theorem mem_stepInto {stack : List Bytes} (hmem : dotdot ∈ stack) (name : Bytes) :
    dotdot ∈ stepInto rooted stack name := by
  unfold stepInto
  split
  · exact hmem
  · split
    · cases stack with
      | nil => cases hmem
      | cons top rest =>
        dsimp only
        split
        · exact mem_cons_self ..
        · next htop => exact (mem_cons.mp hmem).resolve_left (Ne.symm htop)
    · exact mem_cons_of_mem _ hmem

theorem mem_walk {stack : List Bytes} (hmem : dotdot ∈ stack) (names : List Bytes) :
    dotdot ∈ walk rooted stack names := by
  induction names generalizing stack with
  | nil => exact hmem
  | cons name names ih => exact ih (mem_stepInto rooted hmem name)

theorem mem_walk_of_climb {names : List Bytes} : ∀ {above : List Bytes}, dotdot ∉ above →
    descend names above.length = none → dotdot ∈ walk false above names := by
  induction names with
  | nil => exact fun _ h => nomatch h
  | cons name names ih =>
    intro above hup hdepth
    rw [walk_cons]
    cases stepInto_descend hup name names with
    | inl hout =>
      obtain ⟨rfl, rfl, -⟩ := hout
      exact mem_walk false (mem_singleton.mpr rfl) names
    | inr hin =>
      obtain ⟨above', hup', hsame, hstep⟩ := hin
      have hnext := hstep false []
      rw [append_nil, append_nil] at hnext
      rw [hnext]
      exact ih hup' (hsame ▸ hdepth)

end Walk

theorem lexicallyNormal_foldl {qs : List PosixPath} (hqs : ∀ q ∈ qs, q.isAbsolute = false)
    (dir : PosixPath) :
    (qs.foldl append dir).lexicallyNormal =
      ⟨dir.isAbsolute, walk dir.isAbsolute dir.lexicallyNormal.stack (qs.flatMap components)⟩ := by
  have hany : qs.any isAbsolute = false := by
    rw [any_eq_false]
    exact fun q hq => Bool.eq_false_iff.mp (hqs q hq)
  unfold lexicallyNormal
  rw [isAbsolute_foldl, hany, Bool.or_false, components_foldl hqs]
  unfold walk
  rw [foldl_append]

/-- Paths appended to a directory stay below it exactly when they are relative and descend. -/
theorem contained_foldl_iff (qs : List PosixPath) :
    (∀ dir, Contained dir (qs.foldl append dir)) ↔
      (∀ q ∈ qs, q.isAbsolute = false) ∧ Descends (qs.flatMap components) := by
  constructor
  · intro hall
    -- the empty path as the directory shows what is wrong with the names
    obtain ⟨hrooted, below, hne, hdd, hstack⟩ := hall empty
    have hrel : ∀ q ∈ qs, q.isAbsolute = false := by
      have hany : (qs.foldl append empty).isAbsolute = false := hrooted
      rw [isAbsolute_foldl, Bool.or_eq_false_iff, any_eq_false] at hany
      exact fun q hq => Bool.eq_false_iff.mpr (hany.2 q hq)
    have hwalk : walk false [] (qs.flatMap components) = below := by
      rw [lexicallyNormal_foldl hrel] at hstack
      exact hstack.trans (append_nil below)
    refine ⟨hrel, ?_⟩
    cases hdepth : descend (qs.flatMap components) 0 with
    | none => exact absurd (hwalk ▸ mem_walk_of_climb not_mem_nil hdepth) hdd
    | some depth =>
      obtain ⟨below', hwalk', hlen, -⟩ := walk_descend false [] not_mem_nil hdepth
      have hbelow : below' = below := by
        rw [← hwalk, ← append_nil below', ← hwalk']
        rfl
      cases depth with
      | zero => exact absurd (eq_nil_of_length_eq_zero (hbelow ▸ hlen)) hne
      | succ depth => exact ⟨depth, hdepth⟩
  · rintro ⟨hrel, depth, hdepth⟩ dir
    obtain ⟨below, hwalk, hlen, hdd⟩ := walk_descend dir.isAbsolute
      dir.lexicallyNormal.stack not_mem_nil hdepth
    unfold Contained
    rw [lexicallyNormal_foldl hrel]
    refine ⟨rfl, below, ?_, hdd, hwalk⟩
    rintro rfl
    cases hlen

end PosixPath
