import P2P.Native.RateLimiter

/-!
# What the rate limiter grants

Tokens are granted at two places: to a call that finds enough of them, and to the front of the
queue.
-/

namespace P2P

open List RateLimiter LimiterOp

namespace RateLimiter

def amounts (calls : List TokenCall) : Nat := (calls.map Prod.snd).sum

theorem amounts_append (l m : List TokenCall) : amounts (l ++ m) = amounts l + amounts m := by
  simp [amounts]

/-! ## The front of the queue -/

theorem takeReady_spec (tokens : Nat) (ws : List TokenCall) :
    (takeReady tokens ws).2.1 ++ (takeReady tokens ws).2.2 = ws ∧
      (takeReady tokens ws).1 + amounts (takeReady tokens ws).2.1 = tokens := by
  induction ws generalizing tokens with
  | nil => exact ⟨rfl, rfl⟩
  | cons w ws ih =>
    unfold takeReady
    split
    · next henough =>
      obtain ⟨hsplit, hsum⟩ := ih (tokens - w.2)
      refine ⟨congrArg (w :: ·) hsplit, ?_⟩
      show (takeReady ..).1 + amounts (w :: (takeReady ..).2.1) = tokens
      simp only [amounts, map_cons, sum_cons] at hsum ⊢
      omega
    · exact ⟨rfl, rfl⟩

theorem takeReady_stuck {tokens : Nat} {ws : List TokenCall} (h : (takeReady tokens ws).2.1 = []) :
    takeReady tokens ws = (tokens, [], ws) ∧ ∀ w ∈ ws.head?, tokens < w.2 := by
  cases ws with
  | nil => exact ⟨rfl, by simp⟩
  | cons w ws =>
    unfold takeReady at h ⊢
    split at h
    · cases h
    · next hfew => exact ⟨if_neg hfew, by simpa using hfew⟩

variable {s : RateLimiter}

theorem collectReadyWaiters_spec (s : RateLimiter) :
    s.collectReadyWaiters.granted ++ s.collectReadyWaiters.waiters = s.granted ++ s.waiters ∧
      s.collectReadyWaiters.tokens + amounts s.collectReadyWaiters.granted =
        s.tokens + amounts s.granted := by
  obtain ⟨hsplit, hsum⟩ := takeReady_spec s.tokens s.waiters
  refine ⟨?_, ?_⟩
  · show (s.granted ++ (takeReady ..).2.1) ++ (takeReady ..).2.2 = _
    rw [append_assoc, hsplit]
  · show (takeReady ..).1 + amounts (s.granted ++ (takeReady ..).2.1) = _
    rw [amounts_append]
    omega

theorem collectReadyWaiters_tokens_le (s : RateLimiter) :
    s.collectReadyWaiters.tokens ≤ s.tokens := by
  have hsum := (takeReady_spec s.tokens s.waiters).2
  show (takeReady s.tokens s.waiters).1 ≤ s.tokens
  omega

theorem maybeStartRefill_eq (s : RateLimiter) :
    ∃ active timer, s.maybeStartRefill = { s with refillActive := active, timer := timer } := by
  unfold maybeStartRefill
  split
  · exact ⟨_, _, rfl⟩
  · exact ⟨_, _, rfl⟩

theorem awaitTokens_eq (amount : Nat) (hup : s.shuttingDown = false)
    (hrate : 0 < s.rateBytesPerSecond) :
    ∃ active timer, s.awaitTokens amount =
      if s.tokens ≥ amount then
        { s with
          refillActive := active
          timer := timer
          calls := s.calls + 1
          tokens := s.tokens - amount
          granted := s.granted ++ [(s.calls, amount)] }
      else
        { s with
          refillActive := active
          timer := timer
          calls := s.calls + 1
          waiters := s.waiters ++ [(s.calls, amount)] } := by
  obtain ⟨active, timer, heq⟩ := maybeStartRefill_eq { s with calls := s.calls + 1 }
  refine ⟨active, timer, ?_⟩
  unfold awaitTokens
  dsimp only
  rw [if_neg (by simp [hup]), if_neg hrate.ne', heq]

theorem onRefill_eq (hup : s.shuttingDown = false) (hrate : 0 < s.rateBytesPerSecond) :
    ∃ timer, s.onRefill =
      { collectReadyWaiters
        { s with tokens := min (u64 (s.tokens + s.refillAmount)) s.capacity } with
        timer := timer } := by
  unfold onRefill
  dsimp only
  rw [if_neg (by simp [hup])]
  exact ⟨_, if_pos hrate⟩

theorem setRate_eq {bps : Nat} (hup : s.shuttingDown = false) (hbps : 0 < bps) :
    ∃ active timer, s.setRate bps =
      collectReadyWaiters { s with
        rateBytesPerSecond := bps
        capacity := bps
        tokens := min s.tokens bps
        refillActive := active
        timer := timer } := by
  obtain ⟨active, timer, heq⟩ := maybeStartRefill_eq
    { s with rateBytesPerSecond := bps, capacity := bps, tokens := min s.tokens bps }
  refine ⟨active, timer, ?_⟩
  unfold setRate
  dsimp only
  rw [if_neg (by simp [hup]), if_neg hbps.ne', heq]

theorem refillAmount_eq (s : RateLimiter) : s.refillAmount = s.rateBytesPerSecond / 10 := by
  unfold refillAmount
  omega

/-! ## The limit -/

structure Within (r c ticks : Nat) (s : RateLimiter) : Prop where
  up : s.shuttingDown = false
  rate : s.rateBytesPerSecond = r
  capacity : s.capacity = c
  tokens_le : s.tokens ≤ c
  granted_le : s.tokens + amounts s.granted ≤ c + ticks * (r / 10)

theorem Within.apply {r c ticks : Nat} {op : LimiterOp} (hr : 0 < r) (hfit : c + r < 2 ^ 64)
    (hop : ∀ bps, op ≠ .setRate bps) (h : Within r c ticks s) :
    Within r c (ticks + [op].count .refill) (op.apply s) := by
  have hrate : 0 < s.rateBytesPerSecond := h.rate ▸ hr
  cases op with
  | awaitTokens amount =>
    obtain ⟨active, timer, heq⟩ := awaitTokens_eq amount h.up hrate
    show Within r c ticks (s.awaitTokens amount)
    rw [heq]
    have hle := h.tokens_le
    have hgranted := h.granted_le
    split
    · refine ⟨h.up, h.rate, h.capacity, ?_, ?_⟩
      · show s.tokens - amount ≤ c
        omega
      · show s.tokens - amount + amounts (s.granted ++ [(s.calls, amount)]) ≤ _
        rw [amounts_append]
        simp only [amounts, map_cons, map_nil, sum_cons, sum_nil] at hgranted ⊢
        omega
    · exact ⟨h.up, h.rate, h.capacity, hle, hgranted⟩
  | setRate bps => exact absurd rfl (hop bps)
  | refill =>
    obtain ⟨timer, heq⟩ := onRefill_eq h.up hrate
    show Within r c (ticks + 1) s.onRefill
    rw [heq]
    -- nothing wraps around, so the refill adds its tokens or fills up to the capacity
    have hsum : u64 (s.tokens + s.refillAmount) = s.tokens + r / 10 := by
      rw [refillAmount_eq, h.rate]
      have hle := h.tokens_le
      exact Nat.mod_eq_of_lt (by omega)
    obtain ⟨-, hkeep⟩ := collectReadyWaiters_spec
      { s with tokens := min (u64 (s.tokens + s.refillAmount)) s.capacity }
    have htokens := collectReadyWaiters_tokens_le
      { s with tokens := min (u64 (s.tokens + s.refillAmount)) s.capacity }
    simp only [hsum, h.capacity] at hkeep htokens ⊢
    have hgranted := h.granted_le
    refine ⟨h.up, h.rate, rfl, htokens.trans (Nat.min_le_right ..), ?_⟩
    refine hkeep.le.trans ?_
    rw [Nat.add_mul]
    omega

end RateLimiter

/-- A limiter with a constant rate never has more tokens than its capacity, a refill does not wrap
    around, and capacity and refills bound what it grants. -/
theorem rate_limit_enforced (r c : Nat) (hr : 0 < r) (hfit : c + r < 2 ^ 64)
    (ops : List LimiterOp) (hops : ∀ op ∈ ops, ∀ bps, op ≠ .setRate bps) :
    let s := ops.foldl apply
      { rateBytesPerSecond := r, capacity := c, tokens := c : RateLimiter }
    s.tokens ≤ c ∧ s.tokens + s.refillAmount < 2 ^ 64 ∧
      amounts s.granted ≤ c + ops.count .refill * (r / 10) := by
  have hwithin : ∀ (s : RateLimiter) (ticks : Nat), Within r c ticks s →
      Within r c (ticks + ops.count .refill) (ops.foldl apply s) := by
    induction ops with
    | nil => exact fun s ticks h => h
    | cons op ops ih =>
      intro s ticks h
      have hop := h.apply hr hfit (hops op (mem_cons_self ..))
      have hrest := ih (fun op' hop' => hops op' (mem_cons_of_mem _ hop')) _ _ hop
      rwa [Nat.add_assoc, ← count_append] at hrest
  have h := hwithin { rateBytesPerSecond := r, capacity := c, tokens := c } 0
    ⟨rfl, rfl, rfl, le_rfl, by simp [amounts]⟩
  have htokens := h.tokens_le
  have hgranted := h.granted_le
  rw [Nat.zero_add] at hgranted
  refine ⟨htokens, ?_, by omega⟩
  rw [refillAmount_eq, h.rate]
  omega

theorem rate_limit_enforced_three :
    let s := [awaitTokens 90, .awaitTokens 30, .refill, .refill, .awaitTokens 5].foldl
      apply { rateBytesPerSecond := 100, capacity := 100, tokens := 100 : RateLimiter }
    s.granted = [(0, 90), (1, 30)] ∧ s.waiters = [(2, 5)] ∧ s.tokens ≤ 100 ∧
      s.tokens + s.refillAmount < 2 ^ 64 ∧ amounts s.granted ≤ 100 + 2 * (100 / 10) := by
  refine ⟨by decide, by decide, ?_⟩
  exact rate_limit_enforced 100 100 (by decide) (by decide)
    [.awaitTokens 90, .awaitTokens 30, .refill, .refill, .awaitTokens 5] (by simp)

/-! ## The order -/

namespace RateLimiter

/-- The calls by number: first those that were granted, then those that wait. -/
structure InOrder (s : RateLimiter) : Prop where
  up : s.shuttingDown = false
  rate : 0 < s.rateBytesPerSecond
  order : (s.granted ++ s.waiters).map Prod.fst = range s.calls

/-- A call that finds enough tokens does not come while others wait. -/
def Patient (s : RateLimiter) (ops : List LimiterOp) : Prop :=
  ∀ before amount after, ops = before ++ .awaitTokens amount :: after →
    (before.foldl apply s).waiters = [] ∨
      (before.foldl apply s).tokens < amount

theorem Patient.tail {op : LimiterOp} {ops : List LimiterOp} (h : Patient s (op :: ops)) :
    Patient (op.apply s) ops := by
  intro before amount after heq
  exact h (op :: before) amount after (congrArg (op :: ·) heq)

theorem InOrder.apply {op : LimiterOp} (hrate : ∀ bps, op = .setRate bps → 0 < bps)
    (hpatient : ∀ amount, op = .awaitTokens amount → s.waiters = [] ∨ s.tokens < amount)
    (h : InOrder s) : InOrder (op.apply s) := by
  cases op with
  | awaitTokens amount =>
    obtain ⟨active, timer, heq⟩ := awaitTokens_eq amount h.up h.rate
    show InOrder (s.awaitTokens amount)
    rw [heq]
    have horder := h.order
    split
    · next henough =>
      -- nobody waits, so the call is the next one to be granted
      have hnone : s.waiters = [] := (hpatient amount rfl).resolve_right (by omega)
      rw [hnone, append_nil] at horder
      refine ⟨h.up, h.rate, ?_⟩
      show map Prod.fst (s.granted ++ [(s.calls, amount)] ++ s.waiters) = range (s.calls + 1)
      rw [hnone, append_nil, map_append, horder, range_succ]
      rfl
    · refine ⟨h.up, h.rate, ?_⟩
      show map Prod.fst (s.granted ++ (s.waiters ++ [(s.calls, amount)])) = range (s.calls + 1)
      rw [← append_assoc, map_append, horder, range_succ]
      rfl
  | setRate bps =>
    obtain ⟨active, timer, heq⟩ := setRate_eq h.up (hrate bps rfl)
    show InOrder (s.setRate bps)
    rw [heq]
    exact ⟨h.up, hrate bps rfl, (congrArg _ (collectReadyWaiters_spec _).1).trans h.order⟩
  | refill =>
    obtain ⟨timer, heq⟩ := onRefill_eq h.up h.rate
    show InOrder s.onRefill
    rw [heq]
    exact ⟨h.up, h.rate, (congrArg _ (collectReadyWaiters_spec _).1).trans h.order⟩

end RateLimiter

/-- When no call that finds enough tokens comes while others wait, the calls are granted as they
    came: first those granted, then the others in order. -/
theorem granted_in_order (rateBps capacityFactor : Nat) (hr : 0 < rateBps) (ops : List LimiterOp)
    (hrates : ∀ bps, .setRate bps ∈ ops → 0 < bps)
    (hpatient : Patient (.new rateBps capacityFactor) ops) :
    let s := ops.foldl apply (.new rateBps capacityFactor)
    s.granted.map Prod.fst ++ s.waiters.map Prod.fst = List.range s.calls := by
  have horder : ∀ s : RateLimiter, InOrder s → Patient s ops →
      InOrder (ops.foldl apply s) := by
    clear hpatient
    induction ops with
    | nil => exact fun s h _ => h
    | cons op ops ih =>
      intro s h hpatient
      refine ih (fun bps hbps => hrates bps (mem_cons_of_mem _ hbps)) _ (h.apply ?_ ?_)
        hpatient.tail
      · rintro bps rfl
        exact hrates bps (mem_cons_self ..)
      · rintro amount rfl
        exact hpatient [] amount ops rfl
  intro s
  rw [← map_append]
  exact (horder _ ⟨rfl, hr, rfl⟩ hpatient).order

theorem granted_in_order_queue :
    let s := [awaitTokens 5, .awaitTokens 10, .awaitTokens 6, .refill].foldl
      apply (.new 10 1)
    s.granted.map Prod.fst ++ s.waiters.map Prod.fst = List.range s.calls := by
  refine granted_in_order 10 1 (by decide)
    [.awaitTokens 5, .awaitTokens 10, .awaitTokens 6, .refill] (by simp) ?_
  intro before amount after heq
  match before with
  | [] => exact .inl rfl
  | [op] =>
    obtain ⟨rfl, rfl, -⟩ : op = .awaitTokens 5 ∧ amount = 10 ∧ _ := by simpa [eq_comm] using heq
    exact .inl rfl
  | [op, op'] =>
    obtain ⟨rfl, rfl, rfl, -⟩ : op = .awaitTokens 5 ∧ op' = .awaitTokens 10 ∧ amount = 6 ∧ _ := by
      simpa [eq_comm] using heq
    exact .inr (by decide)
  | op :: op' :: op'' :: before => cases before <;> simp at heq

/-- The third call is granted while the second one waits. -/
theorem small_call_overtakes :
    let s := [awaitTokens 5, .awaitTokens 10, .awaitTokens 3].foldl
      apply (.new 10 1)
    s.granted = [(0, 5), (2, 3)] ∧ s.waiters = [(1, 10)] := by
  decide

/-! ## Every waiter -/

namespace RateLimiter

structure Capped (s : RateLimiter) : Prop where
  up : s.shuttingDown = false
  tokens_le : 0 < s.rateBytesPerSecond → s.tokens ≤ s.capacity

theorem Capped.apply (h : Capped s) (op : LimiterOp) : Capped (op.apply s) := by
  cases op with
  | awaitTokens amount =>
    show Capped (s.awaitTokens amount)
    rcases Nat.eq_zero_or_pos s.rateBytesPerSecond with hzero | hrate
    · unfold awaitTokens
      dsimp only
      rw [if_neg (by simp [h.up]), if_pos hzero]
      exact ⟨h.up, h.tokens_le⟩
    · obtain ⟨active, timer, heq⟩ := awaitTokens_eq amount h.up hrate
      rw [heq]
      split
      · exact ⟨h.up, fun _ => (Nat.sub_le ..).trans (h.tokens_le hrate)⟩
      · exact ⟨h.up, h.tokens_le⟩
  | setRate bps =>
    show Capped (s.setRate bps)
    rcases Nat.eq_zero_or_pos bps with rfl | hbps
    · unfold setRate
      rw [if_neg (by simp [h.up])]
      exact ⟨h.up, fun hrate => absurd hrate (lt_irrefl 0)⟩
    · obtain ⟨active, timer, heq⟩ := setRate_eq h.up hbps
      rw [heq]
      exact ⟨h.up, fun _ => (collectReadyWaiters_tokens_le _).trans (Nat.min_le_right ..)⟩
  | refill =>
    show Capped s.onRefill
    rcases Nat.eq_zero_or_pos s.rateBytesPerSecond with hzero | hrate
    · unfold onRefill
      dsimp only
      rw [if_neg (by simp [h.up])]
      split
      · next hpos => exact absurd hpos (by rw [show _ = 0 from hzero]; exact lt_irrefl 0)
      · exact ⟨h.up, fun hpos => absurd hpos (by rw [show _ = 0 from hzero]; exact lt_irrefl 0)⟩
    · obtain ⟨timer, heq⟩ := onRefill_eq h.up hrate
      rw [heq]
      exact ⟨h.up, fun _ => (collectReadyWaiters_tokens_le _).trans (Nat.min_le_right ..)⟩

/-- Every waiter can be served: a refill adds tokens without wrapping around, and nobody wants more
    than the capacity. -/
structure Serves (s : RateLimiter) : Prop extends Capped s where
  rate : 10 ≤ s.rateBytesPerSecond
  fits : s.capacity + s.rateBytesPerSecond / 10 < 2 ^ 64
  wanted : ∀ w ∈ s.waiters, w.2 ≤ s.capacity

def unserved (s : RateLimiter) : Nat :=
  s.waiters.length * (s.capacity + 1) + (s.capacity - s.tokens)

theorem Serves.onRefill (h : Serves s) (hwait : s.waiters ≠ []) :
    Serves s.onRefill ∧ s.onRefill.unserved < s.unserved ∧
      s.onRefill.granted ++ s.onRefill.waiters = s.granted ++ s.waiters := by
  have hrate : 0 < s.rateBytesPerSecond := Nat.lt_of_lt_of_le (by decide) h.rate
  have htokens := h.tokens_le hrate
  have hfits := h.fits
  obtain ⟨timer, heq⟩ := onRefill_eq h.up hrate
  have hsum : min (u64 (s.tokens + s.refillAmount)) s.capacity =
      min (s.tokens + s.rateBytesPerSecond / 10) s.capacity := by
    rw [refillAmount_eq, u64, Nat.mod_eq_of_lt (by omega)]
  rw [hsum] at heq
  generalize hnew : min (s.tokens + s.rateBytesPerSecond / 10) s.capacity = tokens at heq
  obtain ⟨hsplit, hleft⟩ := takeReady_spec tokens s.waiters
  have hkeep := (collectReadyWaiters_spec { s with tokens := tokens }).1
  have hcapped : Capped s.onRefill := h.toCapped.apply .refill
  rw [heq] at hcapped ⊢
  refine ⟨⟨hcapped, h.rate, h.fits, fun w hw => h.wanted w ?_⟩, ?_, hkeep⟩
  · rw [← hsplit]
    exact mem_append_right _ hw
  · have hadds : 1 ≤ s.rateBytesPerSecond / 10 := (Nat.le_div_iff_mul_le (by decide)).mpr h.rate
    show (takeReady tokens s.waiters).2.2.length * (s.capacity + 1) +
      (s.capacity - (takeReady tokens s.waiters).1) < unserved s
    unfold unserved
    by_cases hready : (takeReady tokens s.waiters).2.1 = []
    · -- nobody was served, so there are more tokens than before
      obtain ⟨hsame, hfew⟩ := takeReady_stuck hready
      obtain ⟨w, ws, hws⟩ := exists_cons_of_ne_nil hwait
      have hw := h.wanted w (hws ▸ mem_cons_self ..)
      have hlt := hfew w (by rw [hws]; rfl)
      rw [hsame]
      show s.waiters.length * (s.capacity + 1) + (s.capacity - tokens) < _
      omega
    · have hlength := congrArg length hsplit
      rw [length_append] at hlength
      have hpos := length_pos_of_ne_nil hready
      calc (takeReady tokens s.waiters).2.2.length * (s.capacity + 1) +
            (s.capacity - (takeReady tokens s.waiters).1)
          < ((takeReady tokens s.waiters).2.2.length + 1) * (s.capacity + 1) := by
            rw [Nat.add_mul]
            omega
        _ ≤ s.waiters.length * (s.capacity + 1) := Nat.mul_le_mul_right _ (by omega)
        _ ≤ s.waiters.length * (s.capacity + 1) + (s.capacity - s.tokens) := Nat.le_add_right ..

theorem Serves.drains (h : Serves s) : ∃ n, (RateLimiter.onRefill^[n] s).waiters = [] ∧
    (RateLimiter.onRefill^[n] s).granted = s.granted ++ s.waiters := by
  induction hn : s.unserved using Nat.strongRecOn generalizing s with
  | ind n ih =>
    by_cases hwait : s.waiters = []
    · exact ⟨0, hwait, by rw [hwait, append_nil]; rfl⟩
    · obtain ⟨hserves, hlt, hkeep⟩ := h.onRefill hwait
      obtain ⟨m, hempty, hgranted⟩ := ih _ (hn ▸ hlt) hserves rfl
      exact ⟨m + 1, hempty, hgranted.trans hkeep⟩

end RateLimiter

/-- From every reachable state, when the rate is at least ten, a refill does not wrap around and
    nobody waits for more than the capacity, some refills grant the tokens to all waiters, once and
    in their order. -/
theorem waiters_served (rateBps capacityFactor : Nat) (ops : List LimiterOp) (s : RateLimiter)
    (hs : s = ops.foldl apply (.new rateBps capacityFactor))
    (hrate : 10 ≤ s.rateBytesPerSecond)
    (hfits : s.capacity + s.rateBytesPerSecond / 10 < 2 ^ 64)
    (hwanted : ∀ w ∈ s.waiters, w.2 ≤ s.capacity) :
    ∃ n, (RateLimiter.onRefill^[n] s).waiters = [] ∧
      (RateLimiter.onRefill^[n] s).granted = s.granted ++ s.waiters := by
  have hcapped : ∀ s : RateLimiter, Capped s → Capped (ops.foldl apply s) := by
    clear hs
    induction ops with
    | nil => exact fun s h => h
    | cons op ops ih => exact fun s h => ih _ (h.apply op)
  have h : Capped s := hs ▸ hcapped _ ⟨rfl, fun _ => le_rfl⟩
  exact Serves.drains ⟨h, hrate, hfits, hwanted⟩

theorem waiters_served_lowered :
    let s := [awaitTokens 90, .awaitTokens 20, .awaitTokens 15, .setRate 25].foldl
      apply (.new 100 1)
    s.waiters = [(1, 20), (2, 15)] ∧ ∃ n, (RateLimiter.onRefill^[n] s).waiters = [] ∧
      (RateLimiter.onRefill^[n] s).granted = s.granted ++ s.waiters := by
  refine ⟨by decide, ?_⟩
  exact waiters_served 100 1 [.awaitTokens 90, .awaitTokens 20, .awaitTokens 15, .setRate 25] _ rfl
    (by decide) (by decide) (by decide)

theorem waiters_stuck {w : TokenCall} {s : RateLimiter} (hup : s.shuttingDown = false)
    (hrate : 0 < s.rateBytesPerSecond) (hw : s.waiters = [w])
    (hsame : min (u64 (s.tokens + s.refillAmount)) s.capacity = s.tokens) (hlt : s.tokens < w.2)
    (n : Nat) : (RateLimiter.onRefill^[n] s).waiters = [w] := by
  induction n generalizing s with
  | zero => exact hw
  | succ n ih =>
    obtain ⟨timer, heq⟩ := onRefill_eq hup hrate
    have hready : takeReady s.tokens [w] = (s.tokens, [], [w]) := if_neg (by omega)
    rw [hsame] at heq
    have hsame' : s.onRefill = { s with timer := timer } := by
      rw [heq, collectReadyWaiters, hw, hready]
      simp
    rw [Function.iterate_succ_apply, hsame']
    exact ih (s := { s with timer := timer }) hup hrate hw hsame hlt

/-- A block of 16 KiB at a rate of ten thousand is never granted, and at a rate of five none is. -/
theorem waiters_never_served :
    (∀ n, (RateLimiter.onRefill^[n]
        (apply (.new 10000 1) (.awaitTokens 16384))).waiters = [(0, 16384)]) ∧
      ∀ n, (RateLimiter.onRefill^[n]
        ([awaitTokens 5, .awaitTokens 1].foldl apply (.new 5 1))).waiters =
        [(1, 1)] := by
  refine ⟨waiters_stuck rfl (by decide) rfl (by decide) (by decide), ?_⟩
  exact waiters_stuck rfl (by decide) rfl (by decide) (by decide)

end P2P
