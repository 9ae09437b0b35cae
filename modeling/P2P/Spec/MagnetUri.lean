import P2P.Native.MagnetUri
import P2P.Spec.Hex

/-!
# Magnet links there and back

A link is read back when each of its texts has no `&` and is not changed by `url_decode`.
-/

namespace P2P.MagnetLink

open Bytes List

/-- A text that is read back as it was written. -/
def PlainText (s : Bytes) : Prop := 38 ∉ s ∧ urlDecode s = s

theorem urlDecode_of_not_mem {s : Bytes} (hpercent : 37 ∉ s) (hplus : 43 ∉ s) :
    urlDecode s = s := by
  have hsame : ∀ c ∈ s, plusToSpace c = c := fun c hc => if_neg (ne_of_mem_of_not_mem hc hplus)
  fun_induction urlDecode s with
  | case1 a b rest | case2 a b rest => exact absurd (mem_cons_self ..) hpercent
  | case3 c a b rest hc ih =>
    rw [hsame c (mem_cons_self ..), ih (not_mem_of_not_mem_cons hpercent)
      (not_mem_of_not_mem_cons hplus) fun d hd => hsame d (mem_cons_of_mem _ hd)]
  | case4 c a => rw [hsame c (by simp), hsame a (by simp)]
  | case5 c => rw [hsame c (by simp)]
  | case6 => rfl

theorem readParam_append (link : MagnetLink) (key : Bytes) (hkey : 61 ∉ key) (value : Bytes) :
    readParam link (key ++ 61 :: value) = setParam link key (urlDecode value) := by
  have htake : (key ++ 61 :: value).takeWhile (· != 61) = key := by
    rw [takeWhile_append_of_pos fun c hc => bne_iff_ne.mpr (ne_of_mem_of_not_mem hc hkey)]
    simp
  rw [readParam, if_neg (by simp)]
  dsimp only
  rw [htake, ← drop_drop, drop_left]
  rfl

theorem length_urlDecode_le (s : Bytes) : (urlDecode s).length ≤ s.length := by
  fun_induction urlDecode s <;> simp only [length_cons, length_nil] at * <;> omega

theorem urlDecode_ne_nil {s : Bytes} (h : s ≠ []) : urlDecode s ≠ [] := by
  fun_cases urlDecode s with
  | case6 => exact absurd rfl h
  | _ => exact cons_ne_nil _ _

variable {link : MagnetLink}

theorem readParam_dn (value : Bytes) :
    readParam link (ascii "dn=" ++ value) = some { link with displayName := urlDecode value } :=
  readParam_append link (ascii "dn") (by decide) value

theorem readParam_tr {value : Bytes} (hne : value ≠ []) :
    readParam link (ascii "tr=" ++ value) =
      some { link with trackerUrls := link.trackerUrls ++ [urlDecode value] } :=
  (readParam_append link (ascii "tr") (by decide) value).trans
    (congrArg some (if_pos (urlDecode_ne_nil hne)))

theorem readParam_xs {value : Bytes} (hne : value ≠ []) :
    readParam link (ascii "xs=" ++ value) =
      some { link with sourceUrls := link.sourceUrls ++ [urlDecode value] } :=
  (readParam_append link (ascii "xs") (by decide) value).trans
    (congrArg some (if_pos (urlDecode_ne_nil hne)))

theorem mem_bytesToHex {hash : Bytes} {c : UInt8} (h : c ∈ bytesToHex hash) :
    c ≠ 37 ∧ c ≠ 38 ∧ c ≠ 43 := by
  have hall : ∀ n : Fin 256, ¬ (hexChar (UInt8.ofFin n >>> 4) ∈ [(37 : UInt8), 38, 43] ∨
      hexChar (UInt8.ofFin n &&& 15) ∈ [(37 : UInt8), 38, 43]) := by
    decide +kernel
  obtain ⟨b, -, hc⟩ := mem_flatMap.mp h
  have hb := not_or.mp (hall b.toFin)
  rcases mem_cons.mp hc with rfl | hc
  · simpa using hb.1
  · rw [mem_singleton.mp hc]
    simpa using hb.2

theorem readParam_xt {hash : Bytes} (hlen : hash.length = 20) :
    readParam link (ascii "xt=urn:btih:" ++ bytesToHex hash) =
      some { link with infoHash := hash, parsed := true } := by
  have hdecode : urlDecode (ascii "urn:btih:" ++ bytesToHex hash) =
      ascii "urn:btih:" ++ bytesToHex hash := by
    apply urlDecode_of_not_mem
    · rintro hmem
      rcases mem_append.mp hmem with h | h
      · exact absurd h (by decide)
      · exact (mem_bytesToHex h).1 rfl
    · rintro hmem
      rcases mem_append.mp hmem with h | h
      · exact absurd h (by decide)
      · exact (mem_bytesToHex h).2.2 rfl
  have hsize : (bytesToHex hash).length = 40 := by rw [length_bytesToHex, hlen]
  have hpairs := hexToBytes_bytesToHex hash
  rw [hexToBytes, if_neg (by rw [hsize]; decide)] at hpairs
  have htake : (ascii "urn:btih:" ++ bytesToHex hash).take 9 = ascii "urn:btih:" := rfl
  rw [show ascii "xt=urn:btih:" ++ bytesToHex hash =
      ascii "xt" ++ 61 :: (ascii "urn:btih:" ++ bytesToHex hash) from rfl,
    readParam_append link (ascii "xt") (by decide), hdecode, setParam, if_pos rfl, if_pos htake]
  dsimp only
  rw [show (ascii "urn:btih:" ++ bytesToHex hash).drop 9 = bytesToHex hash from rfl,
    if_pos hsize, decodeHexInfoHash, if_neg (not_not.mpr hsize), hpairs]
  rfl

theorem foldlM_readParam {param : Bytes → Bytes} {add : MagnetLink → Bytes → MagnetLink}
    {values : List Bytes}
    (h : ∀ link, ∀ v ∈ values, readParam link (param v) = some (add link v)) (link : MagnetLink) :
    (values.map param).foldlM readParam link = some (values.foldl add link) := by
  induction values generalizing link with
  | nil => rfl
  | cons v values ih =>
    rw [map_cons, foldlM_cons, h link v (mem_cons_self ..)]
    exact ih (fun link w hw => h link w (mem_cons_of_mem _ hw)) _

/-- A fold that appends to one field of the link. -/
theorem foldl_field {get : MagnetLink → List Bytes} (set : List Bytes → MagnetLink → MagnetLink)
    (hget : ∀ vs link, get (set vs link) = vs)
    (hset : ∀ vs ws link, set vs (set ws link) = set vs link)
    (hsame : ∀ link, set (get link) link = link) (values : List Bytes) (link : MagnetLink) :
    values.foldl (fun link v => set (get link ++ [urlDecode v]) link) link =
      set (get link ++ values.map urlDecode) link := by
  induction values generalizing link with
  | nil => simp [hsame]
  | cons v values ih => simp [ih, hget, hset]

/-- The parameters of a link behind the info hash. -/
def params (link : MagnetLink) : List Bytes :=
  (if link.displayName ≠ [] then [link.displayName] else []).map (ascii "dn=" ++ ·) ++
    (link.trackerUrls.map (ascii "tr=" ++ ·) ++ link.sourceUrls.map (ascii "xs=" ++ ·))

theorem intercalate_cons (a : Bytes) (l : List Bytes) :
    [38].intercalate (a :: l) = a ++ l.flatMap (38 :: ·) := by
  induction l generalizing a with
  | nil => simp
  | cons b l ih => rw [intercalate_cons_cons, ih, flatMap_cons]; simp

theorem toMagnetUri_eq (link : MagnetLink) :
    toMagnetUri link = ascii "magnet:?" ++
      (ascii "xt=urn:btih:" ++ bytesToHex link.infoHash ++ (params link).flatMap (38 :: ·)) := by
  unfold toMagnetUri params
  rw [flatMap_append, flatMap_append, flatMap_map, flatMap_map, flatMap_map,
    show ascii "magnet:?xt=urn:btih:" = ascii "magnet:?" ++ ascii "xt=urn:btih:" from rfl]
  simp only [append_assoc]
  congr 3
  split
  · rw [flatMap_singleton]
    rfl
  · rfl

theorem length_splitOn (t : Bytes) : ((t.splitOn 38).map length).sum + t.count 38 = t.length := by
  induction t with
  | nil => rfl
  | cons c t ih =>
    unfold splitOn at ih ⊢
    rw [splitOnP_cons_eq_if_modifyHead, count_cons, length_cons]
    split
    · rw [map_cons, sum_cons, length_nil]
      omega
    · obtain ⟨a, l, hal⟩ := exists_cons_of_ne_nil (splitOnP_ne_nil (· == 38) t)
      rw [hal] at ih ⊢
      simp only [modifyHead_cons, map_cons, sum_cons, length_cons] at ih ⊢
      omega

theorem splitOn_of_not_mem {first : Bytes} (hfirst : 38 ∉ first) {ps : List Bytes}
    (hps : ∀ p ∈ ps, 38 ∉ p) : (first ++ ps.flatMap (38 :: ·)).splitOn 38 = first :: ps := by
  rw [← intercalate_cons, splitOn_intercalate _ _ (cons_ne_nil _ _)]
  exact forall_mem_cons.mpr ⟨hfirst, hps⟩

/-- The pieces have fewer characters than the parameters when one of these has an `&`. -/
theorem splitOn_flatMap {first : Bytes} (hfirst : 38 ∉ first) (ps : List Bytes) :
    ∃ pieces, (first ++ ps.flatMap (38 :: ·)).splitOn 38 = first :: pieces ∧
      (pieces.map length).sum + (ps.map (count 38)).sum = (ps.map length).sum := by
  cases ps with
  | nil => exact ⟨[], splitOn_of_not_mem hfirst nofun, rfl⟩
  | cons p ps =>
    refine ⟨splitOn 38 (p ++ ps.flatMap (38 :: ·)), ?_, ?_⟩
    · exact splitOnP_append_cons_of_forall_mem
        (fun c hc => beq_false_of_ne (ne_of_mem_of_not_mem hc hfirst)) 38 rfl _
    · have hlength := length_splitOn (p ++ ps.flatMap (38 :: ·))
      have hps : (ps.flatMap (38 :: ·)).length + (ps.map (count 38)).sum =
          (ps.flatMap (38 :: ·)).count 38 + (ps.map length).sum := by
        clear hlength
        induction ps with
        | nil => rfl
        | cons p ps ih =>
          simp only [flatMap_cons, length_append, length_cons, count_append, count_cons_self,
            map_cons, sum_cons]
          omega
      rw [length_append, count_append] at hlength
      rw [map_cons, sum_cons, map_cons, sum_cons]
      omega

theorem forall_mem_params (link : MagnetLink) :
    (∀ p ∈ params link, 38 ∉ p) ↔
      ∀ text ∈ link.displayName :: (link.trackerUrls ++ link.sourceUrls), 38 ∉ text := by
  have hkey (key : String) (hkey : 38 ∉ ascii key) (l : List Bytes) :
      (∀ p ∈ l.map (ascii key ++ ·), 38 ∉ p) ↔ ∀ text ∈ l, 38 ∉ text := by
    simp only [forall_mem_map, mem_append, not_or, hkey, not_false_eq_true, true_and]
  unfold params
  rw [forall_mem_append, forall_mem_append, hkey _ (by decide), hkey _ (by decide),
    hkey _ (by decide), forall_mem_cons, forall_mem_append]
  refine and_congr_left fun _ => ?_
  split
  · rw [forall_mem_singleton]
  · next hnil => simp_all

/-- The characters of the parameters that a link is written with. -/
def weight (link : MagnetLink) : Nat :=
  (if link.displayName ≠ [] then 3 + link.displayName.length else 0) +
    ((link.trackerUrls.map (3 + ·.length)).sum + (link.sourceUrls.map (3 + ·.length)).sum)

theorem length_params (link : MagnetLink) : ((params link).map length).sum = link.weight := by
  have hmap (key : Bytes) (values : List Bytes) : ((values.map (key ++ ·)).map length).sum =
      (values.map (key.length + ·.length)).sum := by
    rw [map_map]
    exact congrArg sum (map_congr_left fun _ _ => length_append)
  unfold weight params
  rw [map_append, map_append, sum_append, sum_append, hmap, hmap, hmap]
  split <;> rfl

theorem weight_setParam {link' : MagnetLink} {key value : Bytes}
    (h : setParam link key value = some link') :
    link'.weight ≤ link.weight + (key.length + 1 + value.length) := by
  unfold setParam at h
  split at h
  · -- the info hash is not part of it
    split at h
    · dsimp only at h
      split at h
      · obtain ⟨hash, -, rfl⟩ := Option.map_eq_some_iff.mp h
        exact Nat.le_add_right _ _
      split at h
      · obtain ⟨hash, -, rfl⟩ := Option.map_eq_some_iff.mp h
        exact Nat.le_add_right _ _
      · cases h
        exact Nat.le_add_right _ _
    · cases h
      exact Nat.le_add_right _ _
  have hlen (text : String) (htwo : (ascii text).length = 2) (hkey : key = ascii text) :
      key.length = 2 := hkey ▸ htwo
  split at h
  · next hkey =>
    have := hlen _ rfl hkey
    cases h
    rw [weight, weight]
    dsimp only
    split <;> omega
  split at h
  · next hkey =>
    have := hlen _ rfl hkey
    cases h
    rw [weight, weight]
    split
    · simp only [map_append, sum_append, map_cons, map_nil, sum_cons, sum_nil]
      omega
    · omega
  split at h
  · next hkey =>
    have := hlen _ rfl hkey
    cases h
    rw [weight, weight]
    split
    · simp only [map_append, sum_append, map_cons, map_nil, sum_cons, sum_nil]
      omega
    · omega
  · cases h
    exact Nat.le_add_right _ _

theorem weight_readParam {link' : MagnetLink} {param : Bytes}
    (h : readParam link param = some link') : link'.weight ≤ link.weight + param.length := by
  unfold readParam at h
  split at h
  · cases h
    omega
  · next hmem =>
    have hset := weight_setParam h
    have hle := length_urlDecode_le (param.drop ((param.takeWhile (· != 61)).length + 1))
    have hlt : (param.takeWhile (· != 61)).length < param.length := by
      refine lt_of_le_of_ne ( List.takeWhile_prefix _).length_le fun heq => ?_
      have hall := takeWhile_eq_self_iff.mp ( (List.takeWhile_prefix _).eq_of_length heq)
      exact absurd (hall 61 (by simpa using hmem)) (by decide)
    rw [length_drop] at hle
    omega

theorem weight_foldlM {link' : MagnetLink} {ps : List Bytes}
    (h : ps.foldlM readParam link = some link') :
    link'.weight ≤ link.weight + (ps.map length).sum := by
  induction ps generalizing link with
  | nil =>
    cases h
    exact Nat.le_refl _
  | cons p ps ih =>
    rw [foldlM_cons] at h
    obtain ⟨link₁, h₁, hrest⟩ := Option.bind_eq_some_iff.mp h
    have hp := weight_readParam h₁
    have hps := ih hrest
    rw [map_cons, sum_cons]
    omega

theorem read_params (link : MagnetLink) (htrackers : ∀ tr ∈ link.trackerUrls, tr ≠ [])
    (hsources : ∀ xs ∈ link.sourceUrls, xs ≠ []) :
    (params link).foldlM readParam { infoHash := link.infoHash, parsed := true } =
      some { link with
        displayName := urlDecode link.displayName
        trackerUrls := link.trackerUrls.map urlDecode
        sourceUrls := link.sourceUrls.map urlDecode
        parsed := true } := by
  unfold params
  rw [foldlM_append, foldlM_readParam fun l v _ => readParam_dn v]
  dsimp only [Option.bind_eq_bind, Option.bind_some]
  rw [foldlM_append, foldlM_readParam fun l v hv => readParam_tr (htrackers v hv)]
  dsimp only [Option.bind_eq_bind, Option.bind_some]
  rw [foldlM_readParam fun l v hv => readParam_xs (hsources v hv),
    foldl_field (fun vs link => { link with trackerUrls := vs }) (fun _ _ => rfl)
      (fun _ _ _ => rfl) (fun _ => rfl),
    foldl_field (fun vs link => { link with sourceUrls := vs }) (fun _ _ => rfl)
      (fun _ _ _ => rfl) (fun _ => rfl)]
  obtain ⟨infoHash, displayName, trackerUrls, sourceUrls, parsed⟩ := link
  cases displayName with
  | nil => rfl
  | cons c cs => rfl

/-- A link is read back exactly when none of its texts has an `&` or is changed by `url_decode`. -/
theorem magnet_round_trip (link : MagnetLink) (hparsed : link.parsed = true)
    (hhash : link.infoHash.length = 20) (htrackers : ∀ tr ∈ link.trackerUrls, tr ≠ [])
    (hsources : ∀ xs ∈ link.sourceUrls, xs ≠ []) :
    parseMagnetUri (toMagnetUri link) = some link ↔
      ∀ text ∈ link.displayName :: (link.trackerUrls ++ link.sourceUrls), PlainText text := by
  have hfirst : 38 ∉ ascii "xt=urn:btih:" ++ bytesToHex link.infoHash :=
    not_mem_append (by decide) fun h => (mem_bytesToHex h).2.1 rfl
  obtain ⟨pieces, hsplit, hlength⟩ := splitOn_flatMap hfirst (params link)
  have hparse : parseMagnetUri (toMagnetUri link) =
      (pieces.foldlM readParam { infoHash := link.infoHash, parsed := true }).bind
        fun link => if link.parsed then some link else none := by
    rw [toMagnetUri_eq, parseMagnetUri]
    change (foldlM readParam {} (splitOn 38 (_ ++ _ ++ _))).bind _ = _
    rw [hsplit, foldlM_cons, readParam_xt hhash]
    rfl
  have hdecoded (hno : ∀ p ∈ params link, 38 ∉ p) : parseMagnetUri (toMagnetUri link) =
      some { link with
        displayName := urlDecode link.displayName
        trackerUrls := link.trackerUrls.map urlDecode
        sourceUrls := link.sourceUrls.map urlDecode } := by
    have hpieces := splitOn_of_not_mem hfirst hno
    rw [hsplit] at hpieces
    rw [hparse, (cons.inj hpieces).2, read_params link htrackers hsources, hparsed]
    rfl
  have hmap (l : List Bytes) : l.map urlDecode = l ↔ ∀ text ∈ l, urlDecode text = text := by
    rw [← map_inj_left (g := fun text => text), map_id']
  have hsame : some { link with
      displayName := urlDecode link.displayName
      trackerUrls := link.trackerUrls.map urlDecode
      sourceUrls := link.sourceUrls.map urlDecode } = some link ↔
      ∀ text ∈ link.displayName :: (link.trackerUrls ++ link.sourceUrls),
        urlDecode text = text := by
    rw [Option.some.injEq, forall_mem_cons, forall_mem_append, ← hmap, ← hmap]
    cases link
    simp
  unfold PlainText
  rw [forall₂_and, ← forall_mem_params, ← hsame]
  constructor
  · intro hback
    -- the characters that are read back leave no room for an ampersand in a text
    have hno : ∀ p ∈ params link, 38 ∉ p := by
      rw [hparse] at hback
      obtain ⟨link', hread, hlink⟩ := Option.bind_eq_some_iff.mp hback
      have hweight := weight_foldlM hread
      split at hlink
      · rw [Option.some.inj hlink, ← length_params, ← hlength] at hweight
        change _ ≤ 0 + _ at hweight
        have hsum : ((params link).map (count 38)).sum = 0 := by omega
        intro p hp
        exact count_eq_zero.mp (List.sum_eq_zero_iff_forall_eq_nat.mp hsum _ (mem_map_of_mem hp))
      · cases hlink
    exact ⟨hno, (hdecoded hno).symm.trans hback⟩
  · rintro ⟨hno, hsame⟩
    exact (hdecoded hno).trans hsame

theorem magnet_round_trip_named :
    parseMagnetUri (toMagnetUri ⟨replicate 20 7, ascii "a b=c", [ascii "udp://t:1", ascii "u"],
        [ascii "s"], true⟩) =
      some ⟨replicate 20 7, ascii "a b=c", [ascii "udp://t:1", ascii "u"], [ascii "s"], true⟩ := by
  refine (magnet_round_trip _ rfl rfl (by decide) (by decide)).mpr ?_
  unfold PlainText
  decide

/-- A name with a plus sign is read back with a blank, and a tracker up to `&`. -/
theorem magnet_not_read_back :
    parseMagnetUri (toMagnetUri ⟨replicate 20 7, ascii "1+1", [ascii "u?a&b"], [], true⟩) =
      some ⟨replicate 20 7, ascii "1 1", [ascii "u?a"], [], true⟩ := by
  decide +kernel

end P2P.MagnetLink
