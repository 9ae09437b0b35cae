import P2P.Native.TrackerClient

/-!
# The query of an announce

The client joins the parameters with `&` behind the target of the URL; the tracker cuts at the first
`?` and reads them back.
-/

namespace P2P

open Decimal List Bytes

/-! ## Percent-encoding -/

theorem readHex_hexChar (b : UInt8) : readHex [hexChar (b >>> 4), hexChar (b &&& 15)] = b := by
  have h : ∀ n : Fin 256,
      readHex [hexChar (UInt8.ofFin n >>> 4), hexChar (UInt8.ofFin n &&& 15)] = UInt8.ofFin n := by
    decide +kernel
  exact h b.toFin

theorem urlDecode_cons {c : UInt8} (hpercent : c ≠ 37) (hplus : c ≠ 43) (rest : Bytes) :
    urlDecode (c :: rest) = c :: urlDecode rest := by
  match rest with
  | [] | [_] => simp [urlDecode, hplus]
  | _ :: _ :: _ => rw [urlDecode, if_neg hpercent, if_neg hplus]

theorem urlDecode_urlEncodeByte (b : UInt8) (rest : Bytes) :
    urlDecode (urlEncodeByte b ++ rest) = b :: urlDecode rest := by
  unfold urlEncodeByte
  split
  · rename_i hplain
    refine urlDecode_cons (fun h => ?_) (fun h => ?_) rest
    all_goals
      rw [h] at hplain
      exact absurd hplain (by decide)
  · rw [cons_append, cons_append, cons_append, nil_append, urlDecode, if_pos rfl, readHex_hexChar]

theorem urlDecode_urlEncode (value : Bytes) : urlDecode (urlEncode value) = value := by
  induction value with
  | nil => rfl
  | cons b value ih =>
    change urlDecode (urlEncodeByte b ++ urlEncode value) = _
    rw [urlDecode_urlEncodeByte, ih]

theorem amp_not_mem_urlEncode (value : Bytes) : (38 : UInt8) ∉ urlEncode value := by
  have hbyte : ∀ n : Fin 256, (38 : UInt8) ∉ urlEncodeByte (UInt8.ofFin n) := by decide +kernel
  intro hmem
  obtain ⟨b, _, hb⟩ := mem_flatMap.mp hmem
  exact hbyte b.toFin hb

/-! ## Numbers -/

variable {n : Nat}

theorem isDigit_of_mem_printNat {b : UInt8} (h : b ∈ printNat n) : isDigit b = true :=
  all_eq_true.mp (printNat_all_isDigit n) b h

theorem amp_not_mem_printNat (n : Nat) : (38 : UInt8) ∉ printNat n := by
  intro h
  exact absurd (isDigit_of_mem_printNat h) (by decide)

theorem stoi_printNat (h : n < 2 ^ 31) : stoi (printNat n) = some (n : Int) := by
  unfold stoi
  rw [signedDigits_printNat]
  dsimp only
  simp only [Bool.false_eq_true, if_false, Bool.or_eq_true, decide_eq_true_eq, List.isEmpty_iff,
    printNat_ne_nil, false_or, digitsVal_printNat]
  rw [if_neg (by omega)]

theorem stoll_printNat (h : n < 2 ^ 63) : stoll (printNat n) = some (Int64.ofInt n) := by
  unfold stoll
  rw [signedDigits_printNat]
  dsimp only
  simp only [Bool.false_eq_true, if_false, Bool.or_eq_true, decide_eq_true_eq, List.isEmpty_iff,
    printNat_ne_nil, false_or, digitsVal_printNat]
  rw [if_neg (by omega)]

/-! ## Parameters -/

def queryPair (e : Bytes × Bytes) : Bytes := e.1 ++ 61 :: e.2

def announcePairs (p : AnnounceRequestParams) : List (Bytes × Bytes) :=
  [(.ascii "info_hash", urlEncode p.infoHash), (.ascii "peer_id", urlEncode p.peerId),
    (.ascii "port", printNat p.port.toNat),
    (.ascii "uploaded", printNat p.uploaded.toNat),
    (.ascii "downloaded", printNat p.downloaded.toNat),
    (.ascii "left", printNat p.left.toNat), (.ascii "compact", .ascii "1")] ++
    if p.event.isEmpty then [] else [(.ascii "event", p.event)]

def announceKeys : List Bytes :=
  [.ascii "info_hash", .ascii "peer_id", .ascii "port", .ascii "uploaded", .ascii "downloaded",
    .ascii "left", .ascii "compact", .ascii "event"]

def announceEvents : List Bytes :=
  [[], .ascii "started", .ascii "completed", .ascii "stopped"]

theorem announcePairs_keys (p : AnnounceRequestParams) :
    ((announcePairs p).map Prod.fst).Sublist announceKeys := by
  unfold announcePairs
  rw [map_append]
  change Sublist _ (announceKeys.take 7 ++ [.ascii "event"])
  refine Sublist.append (Sublist.refl _) ?_
  split
  · exact nil_sublist _
  · exact Sublist.refl _

theorem announceQuery_eq (p : AnnounceRequestParams) :
    announceQuery p = [38].intercalate ((announcePairs p).map queryPair) := by
  have hfirst : ascii "info_hash=" = ascii "info_hash" ++ [61] := rfl
  have hpeer : ascii "&peer_id=" = 38 :: (ascii "peer_id" ++ [61]) := rfl
  have hport : ascii "&port=" = 38 :: (ascii "port" ++ [61]) := rfl
  have hup : ascii "&uploaded=" = 38 :: (ascii "uploaded" ++ [61]) := rfl
  have hdown : ascii "&downloaded=" = 38 :: (ascii "downloaded" ++ [61]) := rfl
  have hleft : ascii "&left=" = 38 :: (ascii "left" ++ [61]) := rfl
  have hcompact : ascii "&compact=1" = 38 :: (ascii "compact" ++ 61 :: ascii "1") :=
    rfl
  have hevent : ascii "&event=" = 38 :: (ascii "event" ++ [61]) := rfl
  unfold announceQuery announcePairs
  rw [hfirst, hpeer, hport, hup, hdown, hleft, hcompact, hevent]
  -- from here on the texts are not looked into
  generalize ascii "info_hash" = k₁, ascii "peer_id" = k₂, ascii "port" = k₃,
    ascii "uploaded" = k₄, ascii "downloaded" = k₅, ascii "left" = k₆,
    ascii "compact" = k₇, ascii "event" = k₈, ascii "1" = one
  split <;> simp [queryPair, intercalate_cons_cons]

theorem addQueryParam_queryPair (params : OrdMap Bytes Bytes) {key : Bytes} (value : Bytes)
    (hkey : (61 : UInt8) ∉ key) (hne : key ≠ []) :
    addQueryParam params (queryPair (key, value)) = params.insert key value := by
  have hall : ∀ b ∈ key, decide (b ≠ (61 : UInt8)) = true := by
    intro b hb
    exact decide_eq_true fun h => hkey (h ▸ hb)
  have hdrop : (key ++ 61 :: value).dropWhile (· ≠ 61) = 61 :: value := by
    rw [dropWhile_append_of_pos hall]
    rfl
  have htake : (key ++ 61 :: value).takeWhile (· ≠ 61) = key := by
    rw [takeWhile_append_of_pos hall]
    exact append_nil key
  unfold addQueryParam queryPair
  simp only [hdrop, htake, List.isEmpty_iff, hne, if_false]

variable {p : AnnounceRequestParams}

theorem mem_announceKeys {e : Bytes × Bytes} (he : e ∈ announcePairs p) :
    e.1 ∈ announceKeys :=
  (announcePairs_keys p).subset (mem_map_of_mem he)

theorem announceKeys_plain :
    ∀ k ∈ announceKeys, (61 : UInt8) ∉ k ∧ (38 : UInt8) ∉ k ∧ k ≠ [] := by
  decide

theorem foldl_addQueryParam {pairs : List (Bytes × Bytes)} (hkeys : ∀ e ∈ pairs, e.1 ∈ announceKeys)
    (params : OrdMap Bytes Bytes) :
    (pairs.map queryPair).foldl addQueryParam params =
      pairs.foldl (fun params e => params.insert e.1 e.2) params := by
  rw [foldl_map]
  apply foldl_ext
  intro params e he
  obtain ⟨heq, -, hne⟩ := announceKeys_plain _ (hkeys e he)
  exact addQueryParam_queryPair params e.2 heq hne

theorem UrlView.path_no_mark (uv : UrlView) :
    (63 : UInt8) ∉ if uv.encodedPath.isEmpty then ascii "/" else uv.encodedPath := by
  split
  · decide
  · exact uv.path_no_question

theorem UrlView.target_no_question {uv : UrlView} (h : uv.encodedQuery = []) :
    (63 : UInt8) ∉ uv.target := by
  unfold UrlView.target
  rw [h]
  exact uv.path_no_mark

theorem drop_question {path : Bytes} (h : (63 : UInt8) ∉ path) (query : Bytes) :
    ((path ++ .ascii "?" ++ query).dropWhile (· ≠ 63)).drop 1 = query := by
  have hall : ∀ b ∈ path, decide (b ≠ (63 : UInt8)) = true := by
    intro b hb
    exact decide_eq_true fun heq => h (heq ▸ hb)
  rw [append_assoc, dropWhile_append_of_pos hall]
  rfl

section

variable (hevent : (38 : UInt8) ∉ p.event)

include hevent

theorem amp_not_mem_value {e : Bytes × Bytes}
    (he : e ∈ announcePairs p) : (38 : UInt8) ∉ e.2 := by
  have hone : (38 : UInt8) ∉ ascii "1" := by decide
  cases mem_append.mp he with
  | inl hfixed =>
    simp only [mem_cons, not_mem_nil, or_false] at hfixed
    rcases hfixed with rfl | rfl | rfl | rfl | rfl | rfl | rfl
    · exact amp_not_mem_urlEncode _
    · exact amp_not_mem_urlEncode _
    · exact amp_not_mem_printNat _
    · exact amp_not_mem_printNat _
    · exact amp_not_mem_printNat _
    · exact amp_not_mem_printNat _
    · exact hone
  | inr hlast =>
    split at hlast
    · exact absurd hlast not_mem_nil
    · rw [mem_singleton.mp hlast]
      exact hevent

theorem splitOn_announceQuery :
    (announceQuery p).splitOn 38 = (announcePairs p).map queryPair := by
  rw [announceQuery_eq]
  refine splitOn_intercalate 38 ?_ (by simp [announcePairs])
  intro l hl
  obtain ⟨e, he, rfl⟩ := mem_map.mp hl
  have h38 : (38 : UInt8) ≠ 61 := by decide
  simp only [queryPair, mem_append, mem_cons, (announceKeys_plain _ (mem_announceKeys he)).2.1, h38,
    amp_not_mem_value hevent he, or_self, not_false_iff]

theorem parseQueryParams_announceQuery :
    parseQueryParams (announceQuery p) =
      (announcePairs p).foldl (fun params e => params.insert e.1 e.2) .empty := by
  unfold parseQueryParams
  rw [splitOn_announceQuery hevent, foldl_addQueryParam fun _ he => mem_announceKeys he]

theorem get?_announceQuery (key value : Bytes)
    (h : (key, value) ∈ announcePairs p) :
    (parseQueryParams (announceQuery p)).get? key = some value := by
  have hnodup : ((announcePairs p).map Prod.fst).Nodup :=
    (announcePairs_keys p).nodup (by decide)
  rw [parseQueryParams_announceQuery hevent]
  exact OrdMap.get?_foldl_insert_of_mem hnodup h _

theorem event_announceQuery :
    ((parseQueryParams (announceQuery p)).get? (.ascii "event")).getD [] = p.event := by
  by_cases h : p.event.isEmpty
  · have hnone : ascii "event" ∉ (announcePairs p).map Prod.fst := by
      unfold announcePairs
      rw [if_pos h, append_nil]
      change ascii "event" ∉ announceKeys.take 7
      decide
    rw [parseQueryParams_announceQuery hevent, OrdMap.get?_foldl_insert_of_not_mem hnone,
      OrdMap.get?_empty, Option.getD_none, isEmpty_iff.mp h]
  · have hmem : (ascii "event", p.event) ∈ announcePairs p := by
      unfold announcePairs
      rw [if_neg h]
      exact mem_append_right _ (mem_singleton_self _)
    rw [get?_announceQuery hevent _ _ hmem, Option.getD_some]

theorem announceParams_announceTarget {target : Bytes} (htarget : (63 : UInt8) ∉ target)
    (hleft : p.left.toNat < 2 ^ 63) :
    announceParams (announceTarget target p) =
      .ok ⟨p.infoHash, p.port, Int64.ofInt p.left.toNat, p.event⟩ := by
  have hhash := get?_announceQuery hevent (.ascii "info_hash") _ (mem_cons_self ..)
  have hport := get?_announceQuery hevent (.ascii "port") (printNat p.port.toNat)
    (by simp [announcePairs])
  have hleftText := get?_announceQuery hevent (.ascii "left") (printNat p.left.toNat)
    (by simp [announcePairs])
  have hportLt : p.port.toNat < 2 ^ 31 := by
    have := p.port.toNat_lt
    omega
  have hportBack : UInt16.ofInt (p.port.toNat : Int) = p.port := by
    have hlt := p.port.toNat_lt
    rw [UInt16.ofInt, Int.emod_eq_of_lt (by omega) (by omega), Int.toNat_natCast,
      UInt16.ofNat_toNat]
  unfold announceParams announceTarget
  rw [drop_question htarget]
  simp only [paramAt, hhash, hport, hleftText, Option.elim_some, stoll_printNat hleft,
    event_announceQuery hevent, bind, Except.bind, stoi_printNat hportLt, urlDecode_urlEncode,
    hportBack]
  rfl

end

/-! ## A query before the query -/

theorem mem_urlDecode {a b c : UInt8} (ha : a ≠ 37 ∧ a ≠ 43) (hb : b ≠ 37 ∧ b ≠ 43)
    (hc : c ≠ 37 ∧ c ≠ 43) (rest : Bytes) : ∀ text, c ∈ urlDecode (text ++ a :: b :: c :: rest)
  | [] => by
    rw [nil_append, urlDecode_cons ha.1 ha.2, urlDecode_cons hb.1 hb.2, urlDecode_cons hc.1 hc.2]
    simp
  | [x] => by
    have ih := mem_urlDecode ha hb hc rest []
    rw [singleton_append, urlDecode]
    split
    · rw [urlDecode_cons hc.1 hc.2]
      simp
    · exact mem_cons_of_mem _ ih
  | [x, y] => by
    have ih := mem_urlDecode ha hb hc rest [y]
    rw [cons_append, singleton_append, urlDecode]
    split
    · rw [urlDecode_cons hb.1 hb.2, urlDecode_cons hc.1 hc.2]
      simp
    · exact mem_cons_of_mem _ ih
  | x :: y :: z :: text => by
    have ih := mem_urlDecode ha hb hc rest text
    have ih' := mem_urlDecode ha hb hc rest (y :: z :: text)
    rw [cons_append, cons_append, cons_append, urlDecode]
    split
    · exact mem_cons_of_mem _ ih
    · exact mem_cons_of_mem _ ih'

theorem splitOn_append (q : Bytes) : ∃ before last,
    ∀ t : Bytes, (q ++ t).splitOn 38 = before ++ (t.splitOn 38).modifyHead (last ++ ·) := by
  induction q with
  | nil => exact ⟨[], [], fun t => (congrFun modifyHead_id (t.splitOn 38)).symm⟩
  | cons b q ih =>
    obtain ⟨before, last, h⟩ := ih
    unfold splitOn at h ⊢
    simp only [cons_append, splitOnP_cons_eq_if_modifyHead, h]
    by_cases hb : (b == 38) = true
    · exact ⟨[] :: before, last, fun t => by rw [if_pos hb, cons_append]⟩
    · simp only [if_neg hb]
      cases before with
      | nil => exact ⟨[], b :: last, fun t => by cases t.splitOnP (· == 38) <;> rfl⟩
      | cons first before => exact ⟨(b :: first) :: before, last, fun t => rfl⟩

/-- The name of the first parameter is not found behind the `?`. -/
theorem addQueryParam_behind (params : OrdMap Bytes Bytes) (last value : Bytes) :
    let params' := addQueryParam params (last ++ 63 :: queryPair (.ascii "info_hash", value))
    params'.get? (.ascii "info_hash") = params.get? (.ascii "info_hash") ∨
      ∃ v, params'.get? (.ascii "info_hash") = some (v ++ .ascii "?info_hash=" ++ value) := by
  have htext : ascii "?info_hash=" = 63 :: (ascii "info_hash" ++ [61]) := rfl
  have hmark : (63 : UInt8) ∉ ascii "info_hash" := by decide
  have hname : (61 : UInt8) ∉ ascii "info_hash" := by decide
  rw [htext]
  generalize ascii "info_hash" = name at hmark hname ⊢
  intro params'
  by_cases hmem : (61 : UInt8) ∈ last
  · obtain ⟨key, v, rfl, hkey⟩ := eq_append_cons_of_mem hmem
    have hpair : params' = addQueryParam params
        (queryPair (key, v ++ 63 :: (name ++ [61]) ++ value)) := by
      simp [params', queryPair]
    by_cases hne : key = []
    · left
      rw [hpair, hne]
      rfl
    · rw [hpair, addQueryParam_queryPair _ _ hkey hne, OrdMap.get?_insert]
      split
      · exact .inr ⟨v, rfl⟩
      · exact .inl rfl
  · have hpair : params' = addQueryParam params (queryPair (last ++ 63 :: name, value)) := by
      simp [params', queryPair]
    have hkey : (61 : UInt8) ∉ last ++ 63 :: name := by simp [hmem, hname]
    rw [hpair, addQueryParam_queryPair _ _ hkey (by simp), OrdMap.get?_insert, if_neg]
    · exact .inl rfl
    · intro heq
      rw [heq] at hmark
      simp at hmark

theorem infoHash_behind_query {q : Bytes} : ∃ params : OrdMap Bytes Bytes,
    ∀ p : AnnounceRequestParams, (38 : UInt8) ∉ p.event →
      let params' := parseQueryParams (q ++ .ascii "?" ++ announceQuery p)
      params'.get? (.ascii "info_hash") = params.get? (.ascii "info_hash") ∨
        ∃ v, params'.get? (.ascii "info_hash") =
          some (v ++ .ascii "?info_hash=" ++ urlEncode p.infoHash) := by
  obtain ⟨before, last, hsplit⟩ := splitOn_append q
  refine ⟨before.foldl addQueryParam .empty, fun p hevent => ?_⟩
  obtain ⟨pairs, hpairs⟩ : ∃ pairs,
      announcePairs p = (.ascii "info_hash", urlEncode p.infoHash) :: pairs := ⟨_, rfl⟩
  have hkeys : ∀ e ∈ pairs, e.1 ∈ announceKeys :=
    fun e he => mem_announceKeys (hpairs ▸ mem_cons_of_mem _ he)
  have hnone : ascii "info_hash" ∉ pairs.map Prod.fst := by
    have hnodup := (announcePairs_keys p).nodup (by decide)
    rw [hpairs] at hnodup
    exact (nodup_cons.mp hnodup).1
  have hquery : (63 :: announceQuery p).splitOn 38 =
      (63 :: queryPair (.ascii "info_hash", urlEncode p.infoHash)) :: pairs.map queryPair := by
    have h := splitOn_announceQuery hevent
    unfold splitOn at h ⊢
    rw [splitOnP_cons_eq_if_modifyHead, if_neg (by decide), h, hpairs]
    rfl
  have hall : (q ++ .ascii "?" ++ announceQuery p).splitOn 38 = before ++
      (last ++ 63 :: queryPair (.ascii "info_hash", urlEncode p.infoHash)) ::
        pairs.map queryPair := by
    rw [append_assoc, hsplit]
    show before ++ modifyHead _ ((63 :: announceQuery p).splitOn 38) = _
    rw [hquery]
    rfl
  intro params'
  have hparams : params' = (pairs.map queryPair).foldl addQueryParam (addQueryParam
      (before.foldl addQueryParam .empty)
        (last ++ 63 :: queryPair (.ascii "info_hash", urlEncode p.infoHash))) := by
    show foldl addQueryParam .empty (splitOn 38 _) = _
    rw [hall, foldl_append, foldl_cons]
  rw [hparams, foldl_addQueryParam hkeys, OrdMap.get?_foldl_insert_of_not_mem hnone]
  exact addQueryParam_behind _ last _

/-- The tracker reads from the target the info hash, the port, the bytes left and the event. -/
def Understood (target : Bytes) (p : AnnounceRequestParams) : Prop :=
  ∃ a, announceParams (announceTarget target p) = .ok a ∧ a.infoHash = p.infoHash ∧
    a.port = p.port ∧ a.left.toInt = p.left.toNat ∧ a.event = p.event

theorem infoHash_announceParams {target : Bytes} {a : AnnounceParams}
    (h : announceParams target = .ok a) :
    ∃ text, (parseQueryParams ((target.dropWhile (· ≠ 63)).drop 1)).get? (.ascii "info_hash") =
      some text ∧ a.infoHash = urlDecode text := by
  unfold announceParams at h
  generalize parseQueryParams _ = params at h ⊢
  simp only [paramAt, bind, Except.bind] at h
  cases hget : params.get? (.ascii "info_hash") with
  | none =>
    rw [hget] at h
    cases h
  | some text =>
    rw [hget] at h
    refine ⟨text, rfl, ?_⟩
    dsimp only [Option.elim_some] at h
    split at h
    · cases h
    split at h
    · cases h
    split at h
    · cases h
      rfl
    split at h
    · cases h
    · cases h
      rfl

def letterAnnounce (letter : UInt8) : AnnounceRequestParams :=
  ⟨List.replicate 20 letter, List.replicate 20 letter, [], 6881, 0, 0, 0⟩

/-- A query of the URL makes one of two announces with different info hashes misread. -/
theorem not_understood {path q : Bytes} (hpath : (63 : UInt8) ∉ path) :
    ∃ letter, ¬ Understood (path ++ .ascii "?" ++ q) (letterAnnounce letter) := by
  by_contra hall
  obtain ⟨params, hparams⟩ := infoHash_behind_query (q := q)
  have hread : ∀ letter ∈ ascii "ab", ∃ text,
      params.get? (.ascii "info_hash") = some text ∧ urlDecode text = replicate 20 letter := by
    intro letter hletter
    obtain ⟨a, ha, hhash, -⟩ := not_not.mp (not_exists.mp hall letter)
    obtain ⟨text, hget, hdecode⟩ := infoHash_announceParams ha
    have hdecode' : urlDecode text = replicate 20 letter := hdecode.symm.trans hhash
    have htarget : announceTarget (path ++ .ascii "?" ++ q) (letterAnnounce letter) =
        path ++ .ascii "?" ++ (q ++ .ascii "?" ++ announceQuery (letterAnnounce letter)) := by
      simp [announceTarget]
    rw [htarget, drop_question hpath] at hget
    rcases hparams (letterAnnounce letter) not_mem_nil with hsame | ⟨v, hv⟩
    · exact ⟨text, hsame.symm.trans hget, hdecode'⟩
    · -- what was read has the equals sign in it
      have htext : ascii "?info_hash=" = ascii "?info_ha" ++ [115, 104, 61] := rfl
      cases hget.symm.trans hv
      rw [htext, ← append_assoc, append_assoc] at hdecode'
      have hmem := mem_urlDecode (a := 115) (b := 104) (c := 61) (by decide) (by decide) (by decide)
        (urlEncode (letterAnnounce letter).infoHash) (v ++ ascii "?info_ha")
      replace hmem : (61 : UInt8) ∈ replicate 20 letter := hdecode' ▸ hmem
      rw [← eq_of_mem_replicate hmem] at hletter
      exact absurd hletter (by decide)
  obtain ⟨text, hget, hdecode⟩ := hread 97 (by decide)
  obtain ⟨text', hget', hdecode'⟩ := hread 98 (by decide)
  cases hget.symm.trans hget'
  exact absurd (hdecode.symm.trans hdecode') (by decide)

theorem target_of_createTrackerClient {parseUri : Bytes → Except Bytes UrlView} {url : Bytes}
    {uv : UrlView} {client : TrackerClient} {target : Bytes} (hparse : parseUri url = .ok uv)
    (hclient : createTrackerClient parseUri url = .ok client)
    (htarget : client.target? = some target) : target = uv.target := by
  unfold createTrackerClient at hclient
  rw [hparse] at hclient
  dsimp only at hclient
  split at hclient
  · cases hclient
  split at hclient
  · rw [← Except.ok.inj hclient] at htarget
    cases htarget
  split at hclient
  · rw [← Except.ok.inj hclient] at htarget
    exact (Option.some.inj htarget).symm
  split at hclient
  · rw [← Except.ok.inj hclient] at htarget
    exact (Option.some.inj htarget).symm
  · cases hclient

/-- The tracker understands every announce of a client for a URL exactly if the URL has no query
    of its own. -/
theorem announce_understood {parseUri : Bytes → Except Bytes UrlView} {url : Bytes} {uv : UrlView}
    {client : TrackerClient} {target : Bytes} (hparse : parseUri url = .ok uv)
    (hclient : createTrackerClient parseUri url = .ok client)
    (htarget : client.target? = some target) :
    (∀ p : AnnounceRequestParams, p.infoHash.length = 20 → p.peerId.length = 20 →
      p.left.toNat < 2 ^ 63 → p.event ∈ announceEvents → Understood target p) ↔
        uv.encodedQuery = [] := by
  have huv := target_of_createTrackerClient hparse hclient htarget
  constructor
  · intro hall
    by_contra hquery
    obtain ⟨letter, hnot⟩ := not_understood (q := uv.encodedQuery)
      (UrlView.path_no_mark uv)
    refine hnot ?_
    have heq : target = _ := huv.trans (if_neg (mt List.isEmpty_iff.mp hquery))
    rw [← heq]
    exact hall _ (length_replicate ..) (length_replicate ..) (by simp [letterAnnounce])
      (mem_cons_self ..)
  · intro hquery p _ _ hleft hevent
    have hamp : (38 : UInt8) ∉ p.event := by
      have hno : ∀ e ∈ announceEvents, (38 : UInt8) ∉ e := by decide
      exact hno p.event hevent
    refine ⟨_, announceParams_announceTarget hamp (huv ▸ UrlView.target_no_question hquery) hleft,
      rfl, rfl, ?_, rfl⟩
    exact Int64.toInt_ofInt_of_le (by omega) (by omega)

/-- URLs of the form `scheme://host:port/path?query`. -/
def parsePlainUri (url : Bytes) : Except Bytes UrlView :=
  let scheme := url.takeWhile (· ≠ 58)
  let rest := url.drop (scheme.length + 3)
  let authority := rest.takeWhile (· ≠ 47)
  let path := rest.drop authority.length
  match stoi ((authority.dropWhile (· ≠ 58)).drop 1) with
  | none => .error (.ascii "invalid port")
  | some port =>
    .ok {
      scheme := scheme
      host := authority.takeWhile (· ≠ 58)
      port := some (UInt16.ofInt port)
      encodedPath := path.takeWhile (· ≠ 63)
      encodedQuery := (path.dropWhile (· ≠ 63)).drop 1
      path_no_question := fun h => by simpa using mem_takeWhile_imp h }

def startedAnnounce : AnnounceRequestParams :=
  ⟨List.replicate 19 97 ++ [38], List.replicate 20 37, .ascii "started", 6881, 0, 0, 1000⟩

theorem announce_understood_started :
    ∃ target, createTrackerClient parsePlainUri (.ascii "http://t:6969/announce") =
        .ok (.http (.ascii "t") 6969 target) ∧ Understood target startedAnnounce :=
  ⟨.ascii "/announce", by decide +kernel, (announce_understood
    (rfl : parsePlainUri (.ascii "http://t:6969/announce") = .ok _) (by decide +kernel)
    (rfl : (TrackerClient.http (.ascii "t") 6969 (.ascii "/announce")).target? = _)).mpr
      (by decide +kernel) _ rfl rfl (by decide) (by decide)⟩

/-- With a query in the URL the tracker finds no info hash in the same announce. -/
theorem announce_misread :
    ∃ target, createTrackerClient parsePlainUri (.ascii "http://t:6969/announce?k=1") =
        .ok (.http (.ascii "t") 6969 target) ∧
      announceParams (announceTarget target startedAnnounce) = .error .missing :=
  ⟨.ascii "/announce?k=1", by decide +kernel, by decide +kernel⟩

end P2P
