import P2P.ForStd.Run
import P2P.Native.Extensions
import P2P.Spec.BencodeSound

/-!
# The ids that were negotiated

Metadata messages are sent with the id that the peer has advertised.
-/

namespace P2P

open Bencode List Option

namespace Extensions

def Step.table : Step → Dict
  | .received remoteId payload =>
    match decode payload with
    | .ok (.dict ehs) =>
      if remoteId = 0 then entriesOf ((Assoc.find? ehs (.ascii "m")).getD (.dict [])) else []
    | _ => []
  | .pexRound => []

def Step.Advertises (st : Step) (name : String) (id : UInt8) : Prop :=
  ∃ v, (.ascii name, .int v) ∈ st.table ∧ v.toUInt64.toUInt8 = id

variable {c c' : Extensions} {m : Dict} {A : String → UInt8 → Prop}

theorem toExtendedType_eq {k : Bytes} (hk : toExtendedType k ≠ .unknown) :
    (toExtendedType k = .utPex ∧ k = .ascii "ut_pex") ∨
    (toExtendedType k = .utMetadata ∧ k = .ascii "ut_metadata") := by
  unfold toExtendedType at hk ⊢
  split
  · next h => exact .inl ⟨rfl, h⟩
  · next h =>
    rw [if_neg h] at hk
    split
    · next h' => exact .inr ⟨rfl, h'⟩
    · next h' => exact absurd (if_neg h') hk

structure Follows (A : String → UInt8 → Prop) (c : Extensions) : Prop where
  handshake : ∀ i, c.remoteExtension.get? i = some .handshake → i = 0
  pex : ∀ i, c.remoteExtension.get? i = some .utPex → A "ut_pex" i
  metadata : ∀ i, c.remoteExtension.get? i = some .utMetadata → A "ut_metadata" i

theorem Follows.update (h : Follows A c) {i : UInt8} {t : ExtendedMessageType}
    (hh : t = .handshake → i = 0) (hp : t = .utPex → A "ut_pex" i)
    (hm : t = .utMetadata → A "ut_metadata" i) : Follows A (c.updateExtensionType i t) := by
  constructor <;> intro j hj <;>
    obtain ⟨rfl, heq⟩ | ⟨_, hj⟩ := OrdMap.get?_insert_eq_some hj
  · exact hh heq.symm
  · exact h.handshake j hj
  · exact hp heq.symm
  · exact h.pex j hj
  · exact hm heq.symm
  · exact h.metadata j hj

theorem Follows.mono {B : String → UInt8 → Prop} (h : Follows A c)
    (hAB : ∀ name id, A name id → B name id) : Follows B c :=
  ⟨h.handshake, fun i hi => hAB _ i (h.pex i hi), fun i hi => hAB _ i (h.metadata i hi)⟩

theorem addTypes_follows (h : Follows A c) (hc : addTypes m c = some c')
    (hA : ∀ name v, (.ascii name, .int v) ∈ m → A name v.toUInt64.toUInt8) :
    Follows A c' ∧ c'.metadataExtId = c.metadataExtId := by
  fun_induction addTypes m c with
  | case1 c => exact some.inj hc ▸ ⟨h, rfl⟩
  | case2 k v rest c ih =>
    have hrest : ∀ name v', (.ascii name, .int v') ∈ rest → A name v'.toUInt64.toUInt8 :=
      fun name v' hv' => hA name v' (mem_cons_of_mem _ hv')
    by_cases hk : toExtendedType k = .unknown
    · simp only [if_pos hk] at ih hc
      exact ih h hc hrest
    · simp only [if_neg hk] at ih hc
      refine ih (h.update ?_ ?_ ?_) hc hrest <;> intro ht <;>
        obtain ⟨ht', rfl⟩ | ⟨ht', rfl⟩ := toExtendedType_eq hk <;>
        simp only [ht', reduceCtorEq] at ht
      · exact hA _ v (mem_cons_self ..)
      · exact hA _ v (mem_cons_self ..)
  | case3 => cases hc

theorem setMetadataId_remoteExtension (hc : setMetadataId m c = some c') :
    c'.remoteExtension = c.remoteExtension := by
  fun_induction setMetadataId m c with
  | case1 c => exact some.inj hc ▸ rfl
  | case2 k v rest c ih =>
    rw [ih hc]
    split <;> rfl
  | case3 => cases hc

theorem setMetadataId_of_not_mem (hc : setMetadataId m c = some c')
    (hn : ∀ v, (.ascii "ut_metadata", .int v) ∉ m) : c'.metadataExtId = c.metadataExtId := by
  fun_induction setMetadataId m c with
  | case1 c => exact some.inj hc ▸ rfl
  | case2 k v rest c ih =>
    rw [ih hc fun v' hv' => hn v' (mem_cons_of_mem _ hv')]
    split
    · next hk => exact absurd (hk ▸ mem_cons_self ..) (hn v)
    · rfl
  | case3 => cases hc

theorem setMetadataId_of_mem (hm : Assoc.Sorted m) (hc : setMetadataId m c = some c') {v : Int64}
    (hv : (.ascii "ut_metadata", .int v) ∈ m) : c'.metadataExtId = v.toUInt64.toUInt8 := by
  fun_induction setMetadataId m c with
  | case1 => cases hv
  | case2 k v' rest c ih =>
    have hm' := pairwise_cons.mp hm
    cases mem_cons.mp hv with
    | inl heq =>
      obtain ⟨rfl, hvv⟩ := Prod.mk.inj heq
      rw [setMetadataId_of_not_mem hc fun w hw => (hm'.1 _ hw).false, if_pos rfl, Value.int.inj hvv]
    | inr hmem => exact ih hm'.2 hc hmem
  | case3 => cases hc

theorem sorted_entriesOf {payload : Bytes} {ehs : Dict} (hdec : decode payload = .ok (.dict ehs))
    {m : Value} (hm : Assoc.find? ehs (.ascii "m") = some m) : Assoc.Sorted (entriesOf m) := by
  obtain ⟨t, ht, _, hv⟩ := decode_ok_iff.mp hdec
  obtain ⟨hsorted, hwf⟩ : (Value.dict ehs).WF := hv ▸ wf_value t ht
  have hm := (Value.forall_of_wfEntries hwf _ ((Assoc.find?_eq_some hsorted).mp hm)).2
  cases m with
  | dict d => exact hm.1
  | _ => exact Pairwise.nil

theorem onHandshake_follows {payload : Bytes} (h : Follows A c)
    (hc : c.onHandshake payload = some c')
    (hA : ∀ name id, (Step.received 0 payload).Advertises name id → A name id) :
    Follows A c' ∧
    (∀ q, (Step.received 0 payload).Advertises "ut_metadata" q → c'.metadataExtId = q) ∧
    ((∀ q, ¬ (Step.received 0 payload).Advertises "ut_metadata" q) →
      c'.metadataExtId = c.metadataExtId) := by
  simp only [Step.Advertises, Step.table, if_true] at hA ⊢
  unfold onHandshake at hc
  split at hc
  · cases hc
  · next ehs hdec =>
    simp only [hdec] at hA ⊢
    split at hc
    · next hnone =>
      cases hc
      rw [hnone] at hA ⊢
      refine ⟨h, ?_, fun _ => rfl⟩
      rintro q ⟨v, hv, _⟩
      cases hv
    · next m hm =>
      rw [hm, getD_some] at hA ⊢
      obtain ⟨c₁, hc₁, hc⟩ := bind_eq_some_iff.mp hc
      obtain ⟨_, _, hc⟩ := bind_eq_some_iff.mp hc
      obtain ⟨c₂, hc₂, hc⟩ := bind_eq_some_iff.mp hc
      obtain ⟨_, _, hc⟩ := bind_eq_some_iff.mp hc
      cases hc
      obtain ⟨hf, hid⟩ := addTypes_follows h hc₁ fun name v hv => hA name _ ⟨v, hv, rfl⟩
      have hr := setMetadataId_remoteExtension hc₂
      refine ⟨⟨?_, ?_, ?_⟩, fun q ⟨v, hv, hq⟩ => ?_, fun hn => ?_⟩
      · rw [hr]; exact hf.handshake
      · rw [hr]; exact hf.pex
      · rw [hr]; exact hf.metadata
      · rw [← hq, setMetadataId_of_mem (sorted_entriesOf hdec hm) hc₂ hv]
      · rw [← hid, setMetadataId_of_not_mem hc₂ fun v hv => hn _ ⟨v, hv, rfl⟩]
  · next hne hdec =>
    obtain rfl := some.inj hc
    refine ⟨h, ?_, fun _ => rfl⟩
    rintro q ⟨v, hv, _⟩
    split at hv
    · next hv' => exact absurd (Except.ok.inj (hdec.symm.trans hv')) (hne _)
    · exact nomatch hv

/-- The map follows the handshakes, and the id for metadata is the last one of a handshake. -/
structure Negotiated (es : List Step) (c : Extensions) : Prop where
  follows : Follows (fun name id => ∃ st ∈ es, st.Advertises name id) c
  metadataExtId : ∀ before st after q, es = before ++ st :: after → st.Advertises "ut_metadata" q →
    (∀ st' ∈ after, ∀ q', ¬ st'.Advertises "ut_metadata" q') → c.metadataExtId = q

theorem messageType_eq_handshake_iff (h : Follows A c) {i : UInt8} :
    c.messageType i = .handshake ↔ i = 0 := by
  unfold messageType updateExtensionType
  rw [OrdMap.get?_insert]
  by_cases hi : i = 0
  · simp [hi]
  · rw [if_neg hi]
    refine iff_of_false (fun hm => ?_) hi
    cases ht : c.remoteExtension.get? i with
    | none =>
      rw [ht] at hm
      split at hm
      · split at hm
        · exact nomatch hm
        · split at hm <;> exact nomatch hm
      · next hne => exact hne rfl
    | some t =>
      rw [ht, getD_some] at hm
      split at hm
      · split at hm
        · exact nomatch hm
        · split at hm <;> exact nomatch hm
      · exact hi (h.handshake i (hm ▸ ht))

theorem Negotiated.step {es : List Step} (h : Negotiated es c) {st : Step}
    (hstep : c.step st = some c') : Negotiated (es ++ [st]) c' := by
  have hmono : Follows (fun name id => ∃ st' ∈ es ++ [st], st'.Advertises name id) c :=
    h.follows.mono fun name id ⟨st', hst', ha⟩ => ⟨st', mem_append_left _ hst', ha⟩
  suffices Follows (fun name id => ∃ st' ∈ es ++ [st], st'.Advertises name id) c' ∧
      (∀ q, st.Advertises "ut_metadata" q → c'.metadataExtId = q) ∧
      ((∀ q, ¬ st.Advertises "ut_metadata" q) → c'.metadataExtId = c.metadataExtId) by
    refine ⟨this.1, fun before st' after q hes hq hn => ?_⟩
    obtain rfl | ⟨after', last, rfl⟩ := eq_nil_or_concat after
    · obtain ⟨_, hst⟩ := append_inj' hes rfl
      exact this.2.1 q ((cons.inj hst).1 ▸ hq)
    · rw [concat_eq_append, ← cons_append, ← append_assoc] at hes
      obtain ⟨hes', hst⟩ := append_inj' hes rfl
      obtain rfl := (cons.inj hst).1
      rw [this.2.2 (hn st (by simp))]
      exact h.metadataExtId before st' after' q hes' hq fun st'' hst'' => hn st'' (by simp [hst''])
  have hreset := hmono.update (t := .handshake) (fun _ => rfl) nofun nofun
  cases st with
  | received remoteId payload =>
    unfold Extensions.step at hstep
    dsimp only at hstep
    by_cases hid : remoteId = 0
    · subst hid
      rw [if_pos ((messageType_eq_handshake_iff h.follows).mpr rfl)] at hstep
      have hA : ∀ name id, (Step.received 0 payload).Advertises name id →
          ∃ st' ∈ es ++ [Step.received 0 payload], st'.Advertises name id :=
        fun name id ha => ⟨_, mem_append_right _ (mem_singleton_self _), ha⟩
      exact onHandshake_follows (c := c.updateExtensionType 0 .handshake) hreset hstep hA
    · rw [if_neg (mt (messageType_eq_handshake_iff h.follows).mp hid)] at hstep
      cases hstep
      refine ⟨hreset, ?_, fun _ => rfl⟩
      rintro q ⟨v, hv, _⟩
      unfold Step.table at hv
      dsimp only at hv
      split at hv
      · rw [if_neg hid] at hv
        exact nomatch hv
      · exact nomatch hv
  | pexRound =>
    cases hstep
    refine ⟨⟨hmono.handshake, hmono.pex, hmono.metadata⟩, ?_, fun _ => rfl⟩
    rintro q ⟨v, hv, _⟩
    cases hv

theorem messageType_of_get? {i : UInt8} (hi : i ≠ 0) (hu : ∀ t, c.remoteExtension.get? i = some t →
    t ≠ .unknown → t = (if i = 1 then .utPex else if i = 3 then .utMetadata else .unknown)) :
    c.messageType i = if i = 1 then .utPex else if i = 3 then .utMetadata else .unknown := by
  unfold messageType updateExtensionType
  rw [OrdMap.get?_insert, if_neg hi]
  cases ht : c.remoteExtension.get? i with
  | none => rfl
  | some t =>
    rw [getD_some]
    split
    · rfl
    · next hne => exact hu t ht hne

theorem negotiated {es : List Step} (hrun : runSteps Extensions.step es {} = some c) :
    Negotiated es c := by
  refine runSteps_history_preserves (fun as s a s' hstep hs => hs.step hstep) hrun ?_
  exact ⟨⟨nofun, nofun, nofun⟩, by simp⟩

end Extensions

open Extensions in
/-- An answer about metadata carries the id of the peer's last handshake, and so does a request of a
    coroutine that started before `es'`, unless a handshake of `es'` changed the id. A PEX message
    carries the id 1. A message with one of our ids is handled as ours, unless the peer gave that id
    to the other extension. -/
theorem extension_ids_follow_handshake {es es' : List Extensions.Step} {c c' : Extensions}
    (hrun : runSteps Extensions.step es {} = some c)
    (hrun' : runSteps Extensions.step es' c = some c') :
    (∀ before st after q, es ++ es' = before ++ st :: after → st.Advertises "ut_metadata" q →
      (∀ st' ∈ after, ∀ q', ¬ st'.Advertises "ut_metadata" q') →
      c'.metadataReplyId = q ∧
      ((∀ st' ∈ es', ∀ q', st'.Advertises "ut_metadata" q' → c.metadataRequestId = some q') →
        ∀ id, c.metadataRequestId = some id → id = q)) ∧
    (∀ st ∈ es ++ es', ∀ p id, st.Advertises "ut_pex" p → p = 1 → c'.pexRound.1 = some id →
      id = p) ∧
    ((∀ st ∈ es ++ es', ¬ st.Advertises "ut_metadata" 1) → c'.messageType 1 = .utPex) ∧
    ((∀ st ∈ es ++ es', ¬ st.Advertises "ut_pex" 3) → c'.messageType 3 = .utMetadata) := by
  have h : Negotiated (es ++ es') c' := negotiated (by rw [runSteps_append, hrun]; exact hrun')
  refine ⟨fun before st after q heq hq hlast => ⟨h.metadataExtId before st after q heq hq hlast,
    fun hsame id hid => ?_⟩, fun st _ p id _ hp hid => ?_, fun hn => ?_, fun hn => ?_⟩
  · rcases append_eq_append_iff.mp heq with ⟨mid, -, rfl⟩ | ⟨mid, rfl, hafter⟩
    · exact some.inj (hid.symm.trans (hsame st (by simp) q hq))
    · cases mid with
      | nil =>
        obtain rfl : es' = st :: after := hafter.symm
        exact some.inj (hid.symm.trans (hsame st (by simp) q hq))
      | cons st' mid =>
        -- the last handshake came before the coroutine read the id
        obtain ⟨rfl, rfl⟩ := cons.inj hafter
        have hold := (negotiated hrun).metadataExtId before st mid q rfl hq fun st' hst' =>
          hlast st' (mem_append_left _ hst')
        rw [metadataRequestId, hold] at hid
        grind
  · unfold pexRound at hid
    dsimp only at hid
    split at hid
    · rw [hp, ← some.inj hid]
      rfl
    · cases hid
  · refine messageType_of_get? (i := 1) (by decide) fun t ht hne => ?_
    cases t with
    | handshake => exact absurd (h.follows.handshake 1 ht) (by decide)
    | utPex => rfl
    | utMetadata =>
      obtain ⟨st, hst, ha⟩ := h.follows.metadata 1 ht
      exact absurd ha (hn st hst)
    | unknown => exact absurd rfl hne
  · refine messageType_of_get? (i := 3) (by decide) fun t ht hne => ?_
    cases t with
    | handshake => exact absurd (h.follows.handshake 3 ht) (by decide)
    | utPex =>
      obtain ⟨st, hst, ha⟩ := h.follows.pex 3 ht
      exact absurd ha (hn st hst)
    | utMetadata => rfl
    | unknown => exact absurd rfl hne

def handshakeWith (metadata pex : Int64) : Extensions.Step :=
  .received 0 (encode (.dict [(.ascii "m",
    .dict [(.ascii "ut_metadata", .int metadata), (.ascii "ut_pex", .int pex)])]))

theorem advertises_handshakeWith (metadata pex : Int64) (id : UInt8) :
    ((handshakeWith metadata pex).Advertises "ut_metadata" id ↔ metadata.toUInt64.toUInt8 = id) ∧
    ((handshakeWith metadata pex).Advertises "ut_pex" id ↔ pex.toUInt64.toUInt8 = id) := by
  have hne : Bytes.ascii "ut_metadata" < Bytes.ascii "ut_pex" := by decide
  have hwf : (Value.dict [(.ascii "m", .dict [(.ascii "ut_metadata", .int metadata),
      (.ascii "ut_pex", .int pex)])]).WF := by
    refine ⟨pairwise_singleton _ _, by decide, ⟨pairwise_pair.mpr hne, ?_⟩, trivial⟩
    exact ⟨by decide, trivial, by decide, trivial, trivial⟩
  have htable : (handshakeWith metadata pex).table =
      [(.ascii "ut_metadata", .int metadata), (.ascii "ut_pex", .int pex)] := by
    unfold handshakeWith Extensions.Step.table
    dsimp only
    rw [decode_encode hwf]
    rfl
  simp [Extensions.Step.Advertises, htable, hne.ne, hne.ne']

theorem extension_ids_follow_same_ids :
    ∃ c c' id pexId, runSteps Extensions.step [handshakeWith 3 1] {} = some c ∧
      runSteps Extensions.step [.pexRound] c = some c' ∧ c.metadataRequestId = some id ∧ id = 3 ∧
      c'.pexRound.1 = some pexId ∧ pexId = 1 ∧
      c'.messageType 1 = .utPex ∧ c'.messageType 3 = .utMetadata := by
  have hvalue : (runSteps Extensions.step [handshakeWith 3 1] {}).map (fun c =>
      (c.metadataRequestId.isSome, c.pexRound.2.pexRound.1.isSome)) = some (true, true) := by
    decide +kernel
  obtain ⟨c, hc, hsome⟩ := map_eq_some_iff.mp hvalue
  obtain ⟨id, hid⟩ := isSome_iff_exists.mp (Prod.mk.inj hsome).1
  obtain ⟨pexId, hpexId⟩ := isSome_iff_exists.mp (Prod.mk.inj hsome).2
  have hnone : ∀ name q, ¬ Extensions.Step.pexRound.Advertises name q :=
    fun name q ⟨v, hv, _⟩ => absurd hv not_mem_nil
  obtain ⟨hmeta, hpex, hour, hour'⟩ := extension_ids_follow_handshake hc
    (show runSteps Extensions.step [.pexRound] c = some c.pexRound.2 from rfl)
  refine ⟨c, _, id, pexId, hc, rfl, hid, (hmeta [] _ [.pexRound] 3 rfl ?_ ?_).2 ?_ id hid, hpexId,
    hpex (handshakeWith 3 1) (by simp) 1 pexId ?_ rfl hpexId, hour ?_, hour' ?_⟩ <;>
    simp [advertises_handshakeWith, hnone] <;> decide

/-- PEX messages go to a peer with its id for metadata, and its own are taken for metadata. -/
theorem pex_id_not_negotiated :
    (handshakeWith 1 2).Advertises "ut_metadata" 1 ∧ (handshakeWith 1 2).Advertises "ut_pex" 2 ∧
    (runSteps Extensions.step [handshakeWith 1 2] {}).map
      (fun c => (c.pexRound.1, c.messageType 1)) = some (some 1, .utMetadata) := by
  simp only [advertises_handshakeWith]
  exact ⟨by decide, by decide, by decide +kernel⟩

end P2P
