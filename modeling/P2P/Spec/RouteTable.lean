import P2P.ForStd.KeyedList
import P2P.Native.RouteTable

/-!
# The routing table of the DHT

Every node is in the bucket for the length of the prefix that its id has in common with the own id.
-/

namespace P2P

open BitString List RouteTable

/-! ## The index of a bucket -/

def commonPrefix (a b : NodeId) : Nat := commonPrefixLength (bits a.val) (bits b.val)

theorem bucketIndexFrom_eq (i : Nat) {d : Bytes} (h : (bits d).findIdx id < (bits d).length) :
    bucketIndexFrom i d = i * 8 + (bits d).findIdx id := by
  induction d generalizing i with
  | nil => exact absurd h (Nat.lt_irrefl _)
  | cons b d ih =>
    rw [findIdx_bits_cons] at h ⊢
    unfold bucketIndexFrom
    by_cases hb : b = 0
    · rw [if_pos hb, length_bits, length_cons] at h
      have hrest : (bits d).findIdx id < (bits d).length := by
        rw [length_bits]
        omega
      rw [if_neg (by simpa using hb), if_pos hb, ih (i + 1) hrest]
      omega
    · rw [if_pos hb, if_neg hb]

theorem commonPrefix_lt {a b : NodeId} (h : a ≠ b) : commonPrefix a b < 160 := by
  have hlen : (bits a.val).length = (bits b.val).length := by
    rw [length_bits, length_bits, a.property, b.property]
  have hne : bits a.val ≠ bits b.val := fun heq => h (Subtype.ext (bits_injective heq))
  have hlt := commonPrefixLength_lt hlen hne
  rwa [length_bits, a.property] at hlt

theorem getBucketIndex_eq {a b : NodeId} (h : a ≠ b) : getBucketIndex a b = commonPrefix a b := by
  have hlen : a.val.length = b.val.length := by rw [a.property, b.property]
  have hfind : commonPrefix a b = (bits (distance a b)).findIdx id := commonPrefixLength_bits hlen
  have hdist : (bits (distance a b)).length = 160 := by
    rw [length_bits, distance, length_zipWith, a.property, b.property]
    rfl
  have hlt := commonPrefix_lt h
  rw [hfind] at hlt ⊢
  rw [getBucketIndex, bucketIndexFrom_eq 0 (by omega)]
  omega

/-! ## One bucket -/

namespace KBucket

structure Fits (myId : NodeId) (i : Nat) (b : KBucket) : Prop where
  length_le : b.bucket.length ≤ bucketCapacity
  nodup : (b.bucket.map (·.id)).Nodup
  place : ∀ e ∈ b.bucket, e.id ≠ myId ∧ commonPrefix myId e.id = i

variable {myId : NodeId} {i : Nat} {b : KBucket} {entry : BucketEntry} {now : Int}

theorem Fits.sublist (h : Fits myId i b) {l : List BucketEntry} (hl : l.Sublist b.bucket)
    (time : Int) : Fits myId i ⟨l, time⟩ where
  length_le := Nat.le_trans hl.length_le h.length_le
  nodup := (hl.map _).nodup h.nodup
  place e he := h.place e (hl.subset he)

theorem Fits.concat (h : Fits myId i b) (hroom : b.bucket.length < bucketCapacity)
    (hnew : entry.id ∉ b.bucket.map (·.id))
    (hentry : entry.id ≠ myId ∧ commonPrefix myId entry.id = i)
    (time : Int) : Fits myId i ⟨b.bucket ++ [entry], time⟩ where
  length_le := by
    rw [length_append, length_singleton]
    exact hroom
  nodup := nodup_map_concat h.nodup hnew
  place e he := by
    cases mem_append.mp he with
    | inl hold => exact h.place e hold
    | inr hlast =>
      rw [mem_singleton.mp hlast]
      exact hentry

theorem Fits.replace (h : Fits myId i b) {p : BucketEntry → Bool} {e : BucketEntry}
    (he : e ∈ b.bucket) (hp : p e = true) (hnew : entry.id ∉ (b.bucket.eraseP p).map (·.id))
    (hentry : entry.id ≠ myId ∧ commonPrefix myId entry.id = i) (time : Int) :
    Fits myId i ⟨b.bucket.eraseP p ++ [entry], time⟩ := by
  have hlen : (b.bucket.eraseP p).length = b.bucket.length - 1 := length_eraseP_of_mem he hp
  have hpos := length_pos_of_mem he
  have hle := h.length_le
  apply Fits.concat (b := ⟨b.bucket.eraseP p, time⟩) (h.sublist eraseP_sublist time)
  · show (b.bucket.eraseP p).length < _
    omega
  · exact hnew
  · exact hentry

theorem Fits.id_not_mem (h : Fits myId i b) (id : NodeId) :
    id ∉ (b.bucket.eraseP (·.id = id)).map (·.id) := by
  rw [eraseP_eq_filter_key h.nodup]
  exact key_not_mem_filter _ _

theorem add_cases (b : KBucket) (entry : BucketEntry) (now : Int) :
    (entry.id ∈ b.bucket.map (·.id) ∧
      (b.add entry now).1 =
        ⟨b.bucket.eraseP (·.id = entry.id) ++ [{ entry with lastSeen := now }], now⟩) ∨
    (entry.id ∉ b.bucket.map (·.id) ∧ b.bucket.length < bucketCapacity ∧
      (b.add entry now).1 = ⟨b.bucket ++ [entry], now⟩) ∨
    (entry.id ∉ b.bucket.map (·.id) ∧ bucketCapacity ≤ b.bucket.length ∧
      (∃ e ∈ b.bucket, e.status = .bad) ∧
      (b.add entry now).1 = ⟨b.bucket.eraseP (·.status = .bad) ++ [entry], now⟩) ∨
    (entry.id ∉ b.bucket.map (·.id) ∧ (b.add entry now).1 = b) := by
  unfold add
  cases hfind : b.bucket.find? (·.id = entry.id) with
  | some e =>
    have hid : e.id = entry.id := by simpa using find?_some hfind
    refine .inl ⟨?_, ?_⟩
    · rw [← hid]
      exact mem_map_of_mem (mem_of_find?_eq_some hfind)
    · rw [← hid]
  | none =>
    have hnew : entry.id ∉ b.bucket.map (·.id) := by
      intro hmem
      obtain ⟨e, he, hid⟩ := mem_map.mp hmem
      have hno := find?_eq_none.mp hfind e he
      simp [hid] at hno
    dsimp only
    split
    · rename_i hroom
      exact .inr (.inl ⟨hnew, hroom, rfl⟩)
    · rename_i hfull
      cases hbad : b.bucket.find? (·.status = .bad) with
      | some e =>
        have hstatus : e.status = .bad := by simpa using find?_some hbad
        exact .inr (.inr (.inl ⟨hnew, Nat.le_of_not_lt hfull,
          ⟨e, mem_of_find?_eq_some hbad, hstatus⟩, rfl⟩))
      | none => exact .inr (.inr (.inr ⟨hnew, rfl⟩))

theorem Fits.add (h : Fits myId i b)
    (hentry : entry.id ≠ myId ∧ commonPrefix myId entry.id = i) (now : Int) :
    Fits myId i (b.add entry now).1 := by
  obtain ⟨hknown, hadd⟩ | ⟨hnew, hroom, hadd⟩ | ⟨hnew, hfull, ⟨e, he, hbad⟩, hadd⟩ | ⟨-, hadd⟩ :=
    add_cases b entry now
  · -- without the old entry there is room for the refreshed one
    obtain ⟨e, he, hid⟩ := mem_map.mp hknown
    rw [hadd]
    apply h.replace he
    · simpa using hid
    · exact h.id_not_mem entry.id
    · exact hentry
  · rw [hadd]
    exact h.concat hroom hnew hentry now
  · -- so there is without the bad node
    rw [hadd]
    apply h.replace he
    · simpa using hbad
    · intro hmem
      exact hnew ((eraseP_sublist.map _).subset hmem)
    · exact hentry
  · rw [hadd]
    exact h

structure Added (b b' : KBucket) (entry : BucketEntry) (now : Int) : Prop where
  known : entry.id ∈ b.bucket.map (·.id) → ∀ e,
    e ∈ b'.bucket ↔ (e ∈ b.bucket ∧ e.id ≠ entry.id) ∨ e = { entry with lastSeen := now }
  gone : ∀ e ∈ b.bucket, e.id ∉ b'.bucket.map (·.id) →
    e.status = .bad ∧ b.bucket.length = bucketCapacity
  gone_unique : ∀ e ∈ b.bucket, ∀ e' ∈ b.bucket, e.id ∉ b'.bucket.map (·.id) →
    e'.id ∉ b'.bucket.map (·.id) → e = e'

theorem Added.of_subset {b' : KBucket} (hnew : entry.id ∉ b.bucket.map (·.id))
    (hsub : b.bucket ⊆ b'.bucket) : Added b b' entry now where
  known hknown := absurd hknown hnew
  gone _ he hgone := absurd (mem_map_of_mem (hsub he)) hgone
  gone_unique _ he _ _ hgone := absurd (mem_map_of_mem (hsub he)) hgone

theorem Fits.added (h : Fits myId i b) (entry : BucketEntry) (now : Int) :
    Added b (b.add entry now).1 entry now := by
  obtain ⟨hknown, hadd⟩ | ⟨hnew, -, hadd⟩ | ⟨hnew, hfull, ⟨bad, hbad, hstatus⟩, hadd⟩ |
    ⟨hnew, hadd⟩ := add_cases b entry now
  · -- all ids stay, the one of the entry with other fields
    have hmem (e : BucketEntry) : e ∈ (b.add entry now).1.bucket ↔
        (e ∈ b.bucket ∧ e.id ≠ entry.id) ∨ e = { entry with lastSeen := now } := by
      rw [hadd, mem_append, mem_singleton, eraseP_eq_filter_key h.nodup,
        mem_filter, decide_eq_true_eq]
    have hstay : ∀ e ∈ b.bucket, e.id ∈ (b.add entry now).1.bucket.map (·.id) := by
      intro e he
      by_cases hid : e.id = entry.id
      · rw [hid]
        exact mem_map.mpr ⟨_, (hmem _).mpr (.inr rfl), rfl⟩
      · exact mem_map_of_mem ((hmem e).mpr (.inl ⟨he, hid⟩))
    constructor
    · intro _ e
      exact hmem e
    · intro e he hgone
      exact absurd (hstay e he) hgone
    · intro e he _ _ hgone
      exact absurd (hstay e he) hgone
  · rw [hadd]
    exact Added.of_subset hnew (subset_append_left _ _)
  · -- the first bad node is the only one whose id goes
    obtain ⟨a, front, back, -, ha, hsplit, herase⟩ :=
      exists_of_eraseP hbad (p := (·.status = .bad)) (by simpa using hstatus)
    have hgone : ∀ e ∈ b.bucket, e.id ∉ (b.add entry now).1.bucket.map (·.id) → e = a := by
      intro e he hid
      rw [hadd, herase] at hid
      rw [hsplit] at he
      simp only [map_append, mem_append, not_or] at hid
      simp only [mem_append, mem_cons] at he
      rcases he with hfront | heq | hback
      · exact absurd (mem_map_of_mem hfront) hid.1.1
      · exact heq
      · exact absurd (mem_map_of_mem hback) hid.1.2
    constructor
    · intro hknown
      exact absurd hknown hnew
    · intro e he hid
      rw [hgone e he hid]
      exact ⟨by simpa using ha, Nat.le_antisymm h.length_le hfull⟩
    · intro e he e' he' hid hid'
      rw [hgone e he hid, hgone e' he' hid']
  · rw [hadd]
    exact Added.of_subset hnew (Subset.refl _)

theorem Fits.of_ids (h : Fits myId i b) {l : List BucketEntry}
    (hids : l.map (·.id) = b.bucket.map (·.id)) (time : Int) : Fits myId i ⟨l, time⟩ where
  length_le := by
    have hlen := congrArg length hids
    rw [length_map, length_map] at hlen
    exact hlen ▸ h.length_le
  nodup := hids ▸ h.nodup
  place e he := by
    have hmem : e.id ∈ b.bucket.map (·.id) := hids ▸ mem_map_of_mem he
    obtain ⟨e', he', hid⟩ := mem_map.mp hmem
    rw [← hid]
    exact h.place e' he'

theorem Fits.updateStatus (h : Fits myId i b) (id : NodeId) (status : NodeStatus) (now : Int) :
    Fits myId i (b.updateStatus id status now) := by
  unfold KBucket.updateStatus
  cases hfind : b.bucket.find? (·.id = id) with
  | none => exact h
  | some e =>
    have hid : e.id = id := by simpa using find?_some hfind
    have he := mem_of_find?_eq_some hfind
    dsimp only
    split
    · -- the node is moved to the back
      apply h.replace he
      · simpa using hid
      · show e.id ∉ _
        rw [hid]
        exact h.id_not_mem id
      · exact h.place e he
    · apply h.of_ids
      apply map_key_replaceF
      intro a a' ha
      split at ha
      · rw [← Option.some.inj ha]
      · exact nomatch ha

end KBucket

/-! ## The table -/

namespace RouteTable

def entriesAt (rt : RouteTable) (i : Nat) : List BucketEntry :=
  (rt.buckets[i]?.map (·.bucket)).getD []

structure Valid (rt : RouteTable) : Prop where
  length_le : ∀ i, (rt.entriesAt i).length ≤ bucketCapacity
  nodup : (rt.allEntries.map (·.id)).Nodup
  not_own : ∀ e ∈ rt.allEntries, e.id ≠ rt.myNodeId
  place : ∀ i, ∀ e ∈ rt.entriesAt i, commonPrefix rt.myNodeId e.id = i

def Removed (rt rt' : RouteTable) (e : BucketEntry) : Prop :=
  e ∈ rt.allEntries ∧ ∀ e' ∈ rt'.allEntries, e'.id ≠ e.id

structure Inserted (rt rt' : RouteTable) (entry : BucketEntry) (now : Int) : Prop where
  known : (∃ e ∈ rt.allEntries, e.id = entry.id) → ∀ e,
    e ∈ rt'.allEntries ↔
      (e ∈ rt.allEntries ∧ e.id ≠ entry.id) ∨ e = { entry with lastSeen := now }
  removed : ∀ e, Removed rt rt' e → e.status = .bad ∧
    e ∈ rt.entriesAt (commonPrefix rt.myNodeId entry.id) ∧
    (rt.entriesAt (commonPrefix rt.myNodeId entry.id)).length = bucketCapacity
  removed_unique : ∀ e e', Removed rt rt' e → Removed rt rt' e' → e = e'

variable {rt : RouteTable} {entry : BucketEntry}

theorem entriesAt_of_lt {i : Nat} (h : i < 160) : rt.entriesAt i = rt.buckets[i].bucket := by
  rw [entriesAt, Vector.getElem?_eq_getElem h]
  rfl

variable {e : BucketEntry}

theorem mem_allEntries : e ∈ rt.allEntries ↔ ∃ i, e ∈ rt.entriesAt i := by
  unfold allEntries
  rw [mem_flatMap]
  constructor
  · rintro ⟨b, hb, he⟩
    obtain ⟨i, hi, rfl⟩ := mem_iff_getElem.mp hb
    have hi160 : i < 160 := by simpa using hi
    exact ⟨i, by rw [entriesAt_of_lt hi160]; exact he⟩
  · rintro ⟨i, he⟩
    by_cases hi : i < 160
    · rw [entriesAt_of_lt hi] at he
      exact ⟨rt.buckets[i], by simp, he⟩
    · rw [entriesAt, Vector.getElem?_eq_none (by omega)] at he
      exact absurd he not_mem_nil

variable {idx : Nat}

theorem entriesAt_modify (rt : RouteTable) (h : idx < 160) (f : KBucket → KBucket) (i : Nat) :
    (rt.modify idx f).entriesAt i =
      if i = idx then (f rt.buckets[idx]).bucket else rt.entriesAt i := by
  unfold modify entriesAt
  rw [dif_pos h]
  by_cases hi : i = idx
  · subst hi
    simp [h]
  · rw [if_neg hi]
    show ((rt.buckets.set idx (f rt.buckets[idx]))[i]?.map _).getD [] = _
    rw [Vector.getElem?_set_ne h (Ne.symm hi)]

/-! ### The invariant -/

def AllFit (rt : RouteTable) : Prop :=
  ∀ i (h : i < 160), rt.buckets[i].Fits rt.myNodeId i

section

variable (h : rt.AllFit)

include h

theorem AllFit.modify {f : KBucket → KBucket}
    (hf : ∀ b : KBucket, b.Fits rt.myNodeId idx → (f b).Fits rt.myNodeId idx) :
    (rt.modify idx f).AllFit := by
  unfold RouteTable.modify
  split
  · rename_i hidx
    intro i hi
    show ((rt.buckets.set idx _)[i]).Fits rt.myNodeId i
    by_cases heq : idx = i
    · subst heq
      rw [Vector.getElem_set_self]
      exact hf _ (h idx hidx)
    · rw [Vector.getElem_set_ne _ _ heq]
      exact h i hi
  · exact h

theorem AllFit.step {e : Step} {rt' : RouteTable} (hstep : rt.step e = some rt') : rt'.AllFit := by
  cases e with
  | insert entry now =>
    cases hstep
    unfold insert
    split
    · exact h
    · rename_i hne
      apply h.modify
      intro b hb
      exact hb.add ⟨hne, (getBucketIndex_eq (Ne.symm hne)).symm⟩ now
  | updateStatus id status now =>
    cases hstep
    unfold updateStatus
    split
    · exact h
    · apply h.modify
      intro b hb
      exact hb.updateStatus id status now

theorem AllFit.place {i : Nat} (he : e ∈ rt.entriesAt i) :
    e.id ≠ rt.myNodeId ∧ commonPrefix rt.myNodeId e.id = i := by
  by_cases hi : i < 160
  · rw [entriesAt_of_lt hi] at he
    exact (h i hi).place e he
  · rw [entriesAt, Vector.getElem?_eq_none (by omega)] at he
    exact absurd he not_mem_nil

theorem AllFit.nodup : (rt.allEntries.map (·.id)).Nodup := by
  unfold allEntries
  rw [map_flatMap, nodup_flatMap]
  constructor
  · intro b hb
    obtain ⟨i, hi, rfl⟩ := mem_iff_getElem.mp hb
    exact (h i (by simpa using hi)).nodup
  · rw [pairwise_iff_getElem]
    intro i j hi hj hij
    show Disjoint _ _
    intro id hid hid'
    obtain ⟨e, he, rfl⟩ := mem_map.mp hid
    obtain ⟨e', he', heq⟩ := mem_map.mp hid'
    have hplace := (h i (by simpa using hi)).place e he
    have hplace' := (h j (by simpa using hj)).place e' he'
    rw [heq] at hplace'
    omega

theorem AllFit.valid : rt.Valid where
  length_le i := by
    by_cases hi : i < 160
    · rw [entriesAt_of_lt hi]
      exact (h i hi).length_le
    · rw [entriesAt, Vector.getElem?_eq_none (by omega)]
      exact Nat.zero_le _
  nodup := h.nodup
  not_own e he := by
    obtain ⟨i, hi⟩ := mem_allEntries.mp he
    exact (h.place hi).1
  place i e he := (h.place he).2

/-! ### Inserting -/

theorem AllFit.mem_modify (hidx : idx < 160) (f : KBucket → KBucket) :
    e ∈ (rt.modify idx f).allEntries ↔
      e ∈ (f rt.buckets[idx]).bucket ∨ (e ∈ rt.allEntries ∧ e ∉ rt.buckets[idx].bucket) := by
  rw [mem_allEntries]
  simp only [entriesAt_modify rt hidx]
  constructor
  · rintro ⟨i, he⟩
    split at he
    · exact .inl he
    · rename_i hne
      refine .inr ⟨mem_allEntries.mpr ⟨i, he⟩, fun hold => hne ?_⟩
      rw [← entriesAt_of_lt hidx] at hold
      rw [← (h.place he).2, (h.place hold).2]
  · rintro (hnew | ⟨he, hold⟩)
    · exact ⟨idx, by rw [if_pos rfl]; exact hnew⟩
    · obtain ⟨i, hi⟩ := mem_allEntries.mp he
      have hne : i ≠ idx := by
        intro heq
        rw [heq, entriesAt_of_lt hidx] at hi
        exact hold hi
      exact ⟨i, by rw [if_neg hne]; exact hi⟩

theorem AllFit.inserted (entry : BucketEntry) (now : Int) :
    Inserted rt (rt.insert entry now) entry now := by
  by_cases hown : entry.id = rt.myNodeId
  · -- the own id is ignored
    have hsame : rt.insert entry now = rt := by rw [insert, if_pos hown]
    have hnone (e : BucketEntry) : ¬ Removed rt rt e := fun he => he.2 e he.1 rfl
    rw [hsame]
    constructor
    · rintro ⟨e, he, hid⟩
      exact absurd (hid.trans hown) (h.valid.not_own e he)
    · intro e he
      exact absurd he (hnone e)
    · intro e _ he
      exact absurd he (hnone e)
  have hne : rt.myNodeId ≠ entry.id := Ne.symm hown
  have hidx : commonPrefix rt.myNodeId entry.id < 160 := commonPrefix_lt hne
  have hins : rt.insert entry now =
      rt.modify (commonPrefix rt.myNodeId entry.id) fun b => (b.add entry now).1 := by
    rw [insert, if_neg hown, getBucketIndex_eq hne]
  have hadded := (h _ hidx).added entry now
  have hat : rt.entriesAt (commonPrefix rt.myNodeId entry.id) = _ := entriesAt_of_lt hidx
  have hmem (e : BucketEntry) := h.mem_modify hidx (fun b => (b.add entry now).1) (e := e)
  rw [← hins] at hmem
  generalize rt.buckets[commonPrefix rt.myNodeId entry.id] = b at *
  -- what is removed was in the bucket, and its id is not there any more
  have hremoved (e : BucketEntry) (he : Removed rt (rt.insert entry now) e) :
      e ∈ b.bucket ∧ e.id ∉ (b.add entry now).1.bucket.map (·.id) := by
    constructor
    · by_contra hout
      exact he.2 e ((hmem e).mpr (.inr ⟨he.1, hout⟩)) rfl
    · intro hid
      obtain ⟨e', he', heq⟩ := mem_map.mp hid
      exact he.2 e' ((hmem e').mpr (.inl he')) heq
  constructor
  · rintro ⟨e₀, he₀, hid₀⟩ e
    -- an entry with the id is in the bucket
    have hbucket : ∀ e ∈ rt.allEntries, e.id = entry.id → e ∈ b.bucket := by
      intro e he hid
      obtain ⟨i, hi⟩ := mem_allEntries.mp he
      have hplace := (h.place hi).2
      rw [hid] at hplace
      rw [← hplace, hat] at hi
      exact hi
    have hin : ∀ e ∈ b.bucket, e ∈ rt.allEntries := by
      intro e he
      exact mem_allEntries.mpr ⟨_, hat ▸ he⟩
    rw [hmem e, hadded.known (mem_map.mpr ⟨e₀, hbucket e₀ he₀ hid₀, hid₀⟩) e]
    constructor
    · rintro ((⟨he, hid⟩ | heq) | ⟨he, hout⟩)
      · exact .inl ⟨hin e he, hid⟩
      · exact .inr heq
      · exact .inl ⟨he, fun hid => hout (hbucket e he hid)⟩
    · rintro (⟨he, hid⟩ | heq)
      · by_cases hb : e ∈ b.bucket
        · exact .inl (.inl ⟨hb, hid⟩)
        · exact .inr ⟨he, hb⟩
      · exact .inl (.inr heq)
  · intro e he
    obtain ⟨hb, hid⟩ := hremoved e he
    obtain ⟨hstatus, hfull⟩ := hadded.gone e hb hid
    rw [hat]
    exact ⟨hstatus, hb, hfull⟩
  · intro e e' he he'
    obtain ⟨hb, hid⟩ := hremoved e he
    obtain ⟨hb', hid'⟩ := hremoved e' he'
    exact hadded.gone_unique e hb e' hb' hid hid'

end

/-! ### Runs -/

theorem AllFit.new (id : NodeId) (now : Int) : (RouteTable.new id now).AllFit := by
  intro i hi
  have hempty : (RouteTable.new id now).buckets[i] = { lastChanged := now } := by
    simp [RouteTable.new]
  rw [hempty]
  exact ⟨Nat.zero_le _, nodup_nil, nofun⟩

theorem myNodeId_step {e : Step} {rt' : RouteTable} (hstep : rt.step e = some rt') :
    rt'.myNodeId = rt.myNodeId := by
  have hmodify (idx : Nat) (f : KBucket → KBucket) : (rt.modify idx f).myNodeId = rt.myNodeId := by
    unfold modify
    split <;> rfl
  cases e with
  | insert entry now =>
    rw [← Option.some.inj hstep, insert]
    split
    · rfl
    · exact hmodify _ _
  | updateStatus id status now =>
    rw [← Option.some.inj hstep, updateStatus]
    split
    · rfl
    · exact hmodify _ _

/-- Over every sequence of `insert` and `update_status` the table is valid, and an insert refreshes
    a known entry or removes at most one bad entry of the same full bucket. -/
theorem routeTable_invariant {id : NodeId} {start : Int} {es : List Step} {rt : RouteTable}
    (hrun : runSteps step es (RouteTable.new id start) = some rt) :
    rt.myNodeId = id ∧ rt.Valid ∧
      ∀ entry now, Inserted rt (rt.insert entry now) entry now := by
  have hfit : rt.AllFit :=
    runSteps_preserves (fun _ _ _ hstep h => h.step hstep) hrun (.new id start)
  have hid : rt.myNodeId = id :=
    runSteps_preserves (I := fun rt => rt.myNodeId = id)
      (fun _ _ _ hstep h => (myNodeId_step hstep).trans h) hrun rfl
  exact ⟨hid, hfit.valid, fun entry now => hfit.inserted entry now⟩

def idOf (first : UInt8) : NodeId := ⟨first :: List.replicate 19 0, rfl⟩

def entryOf (first : UInt8) (status : NodeStatus) : BucketEntry :=
  ⟨idOf first, ⟨⟨10, 0, 0, first⟩, 6881⟩, status, 0, 0⟩

theorem routeTable_invariant_two :
    ∃ rt, runSteps step [.insert (entryOf 128 .good) 1, .insert (entryOf 192 .good) 2,
        .updateStatus (idOf 128) .bad 3] (RouteTable.new (idOf 0) 0) = some rt ∧
      (rt.entriesAt 0).map (·.id) = [idOf 128, idOf 192] ∧ rt.Valid ∧
      Inserted rt (rt.insert (entryOf 128 .good) 4) (entryOf 128 .good) 4 := by
  have hrun : runSteps step [.insert (entryOf 128 .good) 1, .insert (entryOf 192 .good) 2,
    .updateStatus (idOf 128) .bad 3] (RouteTable.new (idOf 0) 0) = some _ := rfl
  obtain ⟨-, hvalid, hinserted⟩ := routeTable_invariant hrun
  exact ⟨_, hrun, by decide +kernel, hvalid, hinserted _ _⟩

end RouteTable

end P2P
