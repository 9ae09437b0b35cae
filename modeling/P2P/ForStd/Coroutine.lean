import Mathlib.Data.List.Basic

/-!
# Coroutines on a byte stream

A coroutine reads from a connection, writes to it or exchanges it, and is suspended until it is told
how that ended.
-/

namespace P2P

/-- How a read ends. -/
inductive Arrival (β : Type) where
  | chunk (data : List β)
  | closed
  | expired

/-- A coroutine on a connection, suspended at its next operation. -/
inductive Coroutine (β α : Type) where
  | done (a : α)
  | read (k : Arrival β → Coroutine β α)
  | write (data : List β) (k : Bool → Coroutine β α)
  | connect (k : Bool → Coroutine β α)

/-- What ends the operation a coroutine is suspended at. -/
inductive Outcome (β : Type) where
  | arrived (a : Arrival β)
  | written (ok : Bool)
  | connected (ok : Bool)

def Arrival.symbols {β : Type} : Arrival β → List β
  | .chunk data => data
  | .closed | .expired => []

def Outcome.symbols {β : Type} : Outcome β → List β
  | .arrived a => a.symbols
  | .written _ | .connected _ => []

def Outcome.ok {β : Type} : Outcome β → Bool
  | .arrived _ => true
  | .written ok | .connected ok => ok

/-- The writes of a coroutine, each with the number of symbols still to come when it can be made. -/
abbrev Script (β : Type) := List (Nat × List β)

namespace Script

variable {β : Type}

def output (sc : Script β) : List β := (sc.map Prod.snd).flatten

/-- How much of the input is left untouched before the next write, or at all. -/
def bound (last : Nat) : Script β → Nat
  | [] => last
  | (r, _) :: _ => r

@[simp] theorem output_nil : output ([] : Script β) = [] := rfl

@[simp] theorem output_cons (r : Nat) (w : List β) (sc : Script β) :
    output ((r, w) :: sc) = w ++ output sc := rfl

@[simp] theorem bound_nil (last : Nat) : bound last ([] : Script β) = last := rfl

@[simp] theorem bound_cons (last r : Nat) (w : List β) (sc : Script β) :
    bound last ((r, w) :: sc) = r := rfl

end Script

namespace Coroutine

variable {β α γ : Type}

def bind : Coroutine β α → (α → Coroutine β γ) → Coroutine β γ
  | .done a, f => f a
  | .read k, f => .read fun x => (k x).bind f
  | .write data k, f => .write data fun ok => (k ok).bind f
  | .connect k, f => .connect fun ok => (k ok).bind f

/-- The coroutine goes on when the operation it is suspended at ends. -/
def resume : Coroutine β α → Outcome β → Option (Coroutine β α)
  | .read k, .arrived a => some (k a)
  | .write _ k, .written ok => some (k ok)
  | .connect k, .connected ok => some (k ok)
  | _, _ => none

/-- The coroutine while chunks arrive and writes succeed: output, result and the chunks left. -/
def feed : Coroutine β α → List (List β) → Option (List (List β) × α × List (List β))
  | .done a, cs => some ([], a, cs)
  | .read _, [] => none
  | .read k, c :: cs => (k (.chunk c)).feed cs
  | .write data k, cs => ((k true).feed cs).map fun r => (data :: r.1, r.2)
  | .connect _, _ => none

variable {c c' : Coroutine β α} {e : Outcome β}

/-- What arrives after the end is left alone. -/
theorem feed_append {cs cs' : List (List β)} {ws : List (List β)} {a : α}
    (h : c.feed cs = some (ws, a, cs')) (ds : List (List β)) :
    c.feed (cs ++ ds) = some (ws, a, cs' ++ ds) := by
  induction c generalizing cs ws with
  | done b =>
    cases h
    rfl
  | read k ih =>
    cases cs with
    | nil => cases h
    | cons d cs => exact ih _ h
  | write data k ih =>
    obtain ⟨⟨ws, b⟩, hfeed, heq⟩ := Option.map_eq_some_iff.mp h
    cases heq
    simp [feed, ih true hfeed]
  | connect k ih => cases h

theorem resume_bind (h : c.resume e = some c') (f : α → Coroutine β γ) :
    (c.bind f).resume e = some (c'.bind f) := by
  cases c <;> cases e <;> simp_all [resume, bind]

/-- Every way the coroutine can end, however its operations do: `inp` is what it has read, and `ok`
    says that none of its writes and connections has failed. -/
def Ends (post : α → List β → Bool → Prop) : Coroutine β α → List β → Bool → Prop
  | .done a, inp, ok => post a inp ok
  | .read k, inp, ok => ∀ x, Ends post (k x) (inp ++ x.symbols) ok
  | .write _ k, inp, ok => ∀ w, Ends post (k w) inp (ok && w)
  | .connect k, inp, ok => ∀ w, Ends post (k w) inp (ok && w)

theorem Ends.bind {c : Coroutine β γ} {f : γ → Coroutine β α} {post : α → List β → Bool → Prop}
    {inp : List β} {ok : Bool} (h : c.Ends (fun a inp ok => (f a).Ends post inp ok) inp ok) :
    (c.bind f).Ends post inp ok := by
  induction c generalizing inp ok with
  | done a => exact h
  | read k ih => exact fun x => ih x (h x)
  | write data k ih => exact fun w => ih w (h w)
  | connect k ih => exact fun w => ih w (h w)

theorem Ends.resume {post : α → List β → Bool → Prop} {inp : List β} {ok : Bool}
    (h : c.Ends post inp ok) (hr : c.resume e = some c') :
    c'.Ends post (inp ++ e.symbols) (ok && e.ok) := by
  cases c <;> cases e <;> simp only [Coroutine.resume, Option.some.injEq, reduceCtorEq] at hr <;>
    subst hr <;> simpa [Outcome.symbols, Outcome.ok] using h _

theorem Ends.mono {post post' : α → List β → Bool → Prop} {inp : List β} {ok : Bool}
    (h : c.Ends post inp ok) (himp : ∀ a inp ok, post a inp ok → post' a inp ok) :
    c.Ends post' inp ok := by
  induction c generalizing inp ok with
  | done a => exact himp a inp ok h
  | read k ih => exact fun x => ih x (h x)
  | write data k ih => exact fun w => ih w (h w)
  | connect k ih => exact fun w => ih w (h w)

/-- On the input `inp`, in chunks of at most `cap` symbols, the coroutine reads no more than the
    script allows, writes what it says, and ends with the postcondition for what is left of both. -/
def Follows (cap last : Nat) (post : α → List β → Script β → Prop) :
    Coroutine β α → List β → Script β → Prop
  | .done a, inp, sc => post a inp sc
  | .read k, inp, sc =>
    sc.bound last < inp.length ∧
      ∀ n, 0 < n → n ≤ cap → n ≤ inp.length →
        Follows cap last post (k (.chunk (inp.take n))) (inp.drop n) sc
  | .write data k, inp, sc =>
    ∃ r sc', sc = (r, data) :: sc' ∧ Follows cap last post (k true) inp sc'
  | .connect _, _, _ => False

variable {cap last : Nat} {post post' : α → List β → Script β → Prop}
  {c : Coroutine β α} {inp : List β} {sc : Script β}

theorem Follows.mono (h : Follows cap last post c inp sc)
    (himp : ∀ a inp sc, post a inp sc → post' a inp sc) : Follows cap last post' c inp sc := by
  induction c generalizing inp sc with
  | done a => exact himp a inp sc h
  | read k ih => exact ⟨h.1, fun n h0 hcap hn => ih _ (h.2 n h0 hcap hn)⟩
  | write data k ih =>
    obtain ⟨r, sc', rfl, hk⟩ := h
    exact ⟨r, sc', rfl, ih true hk⟩
  | connect k ih => exact h.elim

theorem follows_bind {f : α → Coroutine β γ} {post : γ → List β → Script β → Prop} :
    Follows cap last post (c.bind f) inp sc ↔
      Follows cap last (fun a inp sc => Follows cap last post (f a) inp sc) c inp sc := by
  induction c generalizing inp sc with
  | done a => exact Iff.rfl
  | read k ih =>
    exact and_congr_right fun _ => forall_congr' fun n => forall_congr' fun _ =>
      forall_congr' fun _ => forall_congr' fun _ => ih _
  | write data k ih =>
    exact exists_congr fun r => exists_congr fun sc' => and_congr_right fun _ => ih true
  | connect k ih => exact Iff.rfl

variable {cs : List (List β)}

/-- However the input is cut, the coroutine ends with a first part of the script written, and the
    postcondition holds. -/
theorem Follows.feed (h : Follows cap last post c inp sc) (hcs : cs.flatten = inp)
    (hsize : ∀ c ∈ cs, 0 < c.length ∧ c.length ≤ cap) :
    ∃ ws a cs' sc', c.feed cs = some (ws, a, cs') ∧ sc.map Prod.snd = ws ++ sc'.map Prod.snd ∧
      (∀ c ∈ cs', 0 < c.length ∧ c.length ≤ cap) ∧ post a cs'.flatten sc' := by
  induction c generalizing inp sc cs with
  | done a => exact ⟨[], a, cs, sc, rfl, rfl, hsize, hcs ▸ h⟩
  | read k ih =>
    cases cs with
    | nil =>
      subst hcs
      exact absurd h.1 (by simp)
    | cons c cs =>
      obtain ⟨hpos, hcap⟩ := hsize c (List.mem_cons_self ..)
      subst hcs
      have hk := h.2 c.length hpos hcap (by simp)
      rw [List.flatten_cons, List.take_left, List.drop_left] at hk
      exact ih _ hk rfl fun d hd => hsize d (List.mem_cons_of_mem _ hd)
  | write data k ih =>
    obtain ⟨r, sc₁, rfl, hk⟩ := h
    obtain ⟨ws, a, cs', sc', hfeed, hsc, hsize', hpost⟩ := ih true hk hcs hsize
    exact ⟨data :: ws, a, cs', sc', by simp [Coroutine.feed, hfeed], by simp [hsc], hsize', hpost⟩
  | connect k ih => exact h.elim

theorem chunks_eq_nil (h : cs.flatten = []) (hsize : ∀ c ∈ cs, 0 < c.length ∧ c.length ≤ cap) :
    cs = [] := by
  refine List.eq_nil_iff_forall_not_mem.mpr fun c hc => ?_
  have hnil := List.flatten_eq_nil_iff.mp h c hc
  have hpos := (hsize c hc).1
  simp [hnil] at hpos

end Coroutine

end P2P
