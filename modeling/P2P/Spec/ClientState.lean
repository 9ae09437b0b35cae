import Mathlib.Data.UInt
import P2P.Spec.BencodeComplete
import P2P.Spec.ClientApp
import P2P.Spec.Hex

/-!
# The torrents after a restart

The entries of the file are read in the order of the list.
-/

namespace P2P

open Bencode SessionState List Option OrdMap

theorem loadMetadata_infoBencoded {sha1 : Bytes → Bytes} {s s' : SessionState} {info : Bytes}
    (h : s.loadMetadata sha1 info = (.ok (), s')) : s'.metaInfo.infoBencoded = info := by
  have hbytes : ∀ m, loadFromInfoBytes sha1 info s.metaInfo = (some true, m) →
      m.infoBencoded = info := by
    intro m hm
    unfold loadFromInfoBytes at hm
    split at hm
    · exact (Prod.mk.inj hm).2 ▸ rfl
    · simp at hm
  unfold loadMetadata at h
  grind

namespace ClientApp

variable {srcs : Sources} {app app' : ClientApp} {h : Bytes} {e : TorrentEntry} {s : ClientSession}
  {st : SessionState} {info : Option Bytes}

structure Fits (app : ClientApp) : Prop where
  downloadDir : app.downloadDir.length < 2 ^ 63
  trackers : ∀ url ∈ app.globalTrackers, url.length < 2 ^ 63
  hash : ∀ h ∈ app.order, h.length = hashSize
  entry : ∀ h ∈ app.order, ∀ e ∈ app.torrentMeta.get? h,
    e.source.length < 2 ^ 63 ∧ e.savePath.length < 2 ^ 63
  info : ∀ h ∈ app.order, ∀ s ∈ app.torrents.get? h, ∀ info ∈ s.metadata, info.length < 2 ^ 63

def Reloads (srcs : Sources) (app : ClientApp) : Prop :=
  srcs.spawnSession ∧ ∀ h ∈ app.order, ∀ e ∈ app.torrentMeta.get? h, ∀ s ∈ app.torrents.get? h,
    ∃ st, srcs.reopen e s.metadata = some st ∧ st.key = h ∧
      (e.isMagnet → s.metadata.isSome → st.numPieces > 0)

def Restored (app app' : ClientApp) (h : Bytes) (flag : TorrentEntry → Bool) : Prop :=
  ∃ e s s', app.torrentMeta.get? h = some e ∧ app.torrents.get? h = some s ∧
    app'.torrentMeta.get? h = some { e with stopped := flag e } ∧
    app'.torrents.get? h = some s' ∧ s'.downloaded = s.downloaded ∧ s'.uploaded = s.uploaded ∧
    (e.isMagnet → s'.metadata = s.metadata)

theorem hash?_of_string? {d : Dict} (hd : string? d "hash" = some (bytesToHex h))
    (hh : h.length = hashSize) : hash? d = some (some h) := by
  unfold hash?
  rw [hd]
  simp [hexToBytes_bytesToHex, hh, Nat.mul_comm]

theorem savedEntries_read (hh : h.length = hashSize) (info : Option Bytes) :
    ∃ d, dictOf (savedEntries h (some s) info e) = .dict d ∧ string? d "source" = some e.source ∧
      string? d "dest" = some e.savePath ∧
      string? d "type" = some (if e.isMagnet then .ascii "magnet" else .ascii "file") ∧
      hash? d = some (some h) ∧ wasStopped d = some e.stopped ∧
      (e.isMagnet → string? d "info" = info) ∧
      counter d "downloaded" = s.downloaded ∧ counter d "uploaded" = s.uploaded := by
  obtain ⟨source, savePath, isMagnet, stopped⟩ := e
  have hstop : decide ((if stopped then (1 : Int64) else 0) ≠ 0) = stopped := by
    cases stopped <;> decide
  cases isMagnet <;> cases info <;>
    refine ⟨_, rfl, rfl, rfl, rfl, hash?_of_string? rfl hh, congrArg some hstop, ?_,
      UInt64.toUInt64_toInt64 _, UInt64.toUInt64_toInt64 _⟩
  · exact nofun
  · exact nofun
  · exact fun _ => rfl
  · exact fun _ => rfl

theorem wf_savedEntries (hh : h.length = hashSize) (hsource : e.source.length < 2 ^ 63)
    (hdest : e.savePath.length < 2 ^ 63) (hinfo : ∀ i ∈ info, i.length < 2 ^ 63) :
    (dictOf (savedEntries h (some s) info e)).WF := by
  obtain ⟨source, savePath, isMagnet, stopped⟩ := e
  apply wf_dictOf
  rw [savedEntries, forall_mem_append, forall_mem_append]
  refine ⟨⟨?_, ?_⟩, ?_⟩
  · simp only [forall_mem_cons]
    refine ⟨⟨by decide, hsource⟩, ⟨by decide, hdest⟩, ⟨by decide, ?_⟩, ⟨by decide, trivial⟩,
      ⟨by decide, ?_⟩, nofun⟩
    · cases isMagnet <;> simp [Value.WF] <;> decide
    · simp [Value.WF, hh, hashSize]
  · cases isMagnet <;> cases info <;> simp_all [Value.WF]
    decide
  · simp [Value.WF]
    decide

theorem ne_nil_of_metadata : ∀ i ∈ s.metadata, i ≠ [] := by
  unfold ClientSession.metadata hasMetadata
  grind

theorem metadata_reopen (hm : e.isMagnet) (hst : srcs.reopen e info = some st)
    (hne : ∀ i ∈ info, i ≠ []) (hp : info.isSome → st.numPieces > 0)
    (downloaded uploaded : UInt64) :
    (⟨st, downloaded, uploaded, false⟩ : ClientSession).metadata = info := by
  rw [Sources.reopen, if_pos hm] at hst
  obtain ⟨hash, _, hst⟩ := bind_eq_some_iff.mp hst
  cases info with
  | none => exact some.inj hst ▸ rfl
  | some info =>
    dsimp only at hst
    split at hst
    · next hload =>
      cases hst
      simp [ClientSession.metadata, hasMetadata, loadMetadata_infoBencoded hload,
        hp rfl, hne info rfl]
    · cases hst

theorem addAgain_new (hspawn : srcs.spawnSession) (hnew : app'.torrents.contains h = false)
    (hst : srcs.reopen e info = some st) (hkey : st.key = h) :
    app'.addAgain srcs e.isMagnet e.source e.savePath info = .ok { app' with
      torrents := app'.torrents.insert h { state := st }
      order := app'.order ++ [h]
      torrentMeta := app'.torrentMeta.insert h { e with stopped := false } } := by
  obtain ⟨source, savePath, isMagnet, stopped⟩ := e
  cases isMagnet <;>
    simp_all [addAgain, Sources.reopen, addTorrent, addTorrentMagnet]

theorem restoreTotals_new (app' : ClientApp) (downloaded uploaded : UInt64) :
    ({ app' with torrents := app'.torrents.insert h { state := st } }).restoreTotals h downloaded
        uploaded =
      { app' with torrents := app'.torrents.insert h ⟨st, downloaded, uploaded, false⟩ } := by
  unfold restoreTotals
  split
  · simp [OrdMap.modify, OrdMap.get?_insert, OrdMap.insert_insert, ClientSession.addTotals]
  · next hzero =>
    have hd : downloaded = 0 := by grind
    have hu : uploaded = 0 := by grind
    rw [hd, hu]

theorem loadTorrent_saved (hspawn : srcs.spawnSession) (hh : h.length = hashSize)
    (hnew : app'.torrents.contains h = false) (hst : srcs.reopen e s.metadata = some st)
    (hkey : st.key = h) :
    app'.loadTorrent srcs (dictOf (savedEntries h (some s) s.metadata e)) =
      some ({ app' with
        torrents := app'.torrents.insert h ⟨st, s.downloaded, s.uploaded, false⟩
        order := app'.order ++ [h]
        torrentMeta := app'.torrentMeta.insert h { e with stopped := false } },
        if e.stopped then [some h] else []) := by
  obtain ⟨d, hd, hsource, hdest, htype, hhash, hstop, hinfo, hdl, hul⟩ :=
    savedEntries_read (s := s) (e := e) hh s.metadata
  have hmagnet : decide ((if e.isMagnet then Bytes.ascii "magnet" else .ascii "file") =
      .ascii "magnet") = e.isMagnet := by
    cases e.isMagnet <;> decide
  have hreopen : srcs.reopen e ((string? d "info").filter (· ≠ [])) = some st := by
    unfold Sources.reopen at hst ⊢
    split
    · next hm =>
      have hfilter : s.metadata.filter (· ≠ []) = s.metadata := by
        cases hi : s.metadata with
        | none => rfl
        | some i => simp [ne_nil_of_metadata i hi]
      rw [hinfo hm, hfilter]
      exact (if_pos hm).symm.trans hst
    · next hm => exact (if_neg hm).symm.trans hst
  rw [hd, loadTorrent, hsource, hdest, htype]
  dsimp only
  rw [hhash, hstop, hmagnet, addAgain_new hspawn hnew hreopen hkey, hdl, hul]
  exact congrArg some (congrArg (·, _) (restoreTotals_new { app' with
    order := app'.order ++ [h]
    torrentMeta := app'.torrentMeta.insert h { e with stopped := false } } ..))

theorem loadTorrents_saved (hspawn : srcs.spawnSession) (app' : ClientApp) {rest : List Bytes}
    (hrest : rest.Nodup)
    (hnew : ∀ h ∈ rest, app'.torrents.contains h = false) (hh : ∀ h ∈ rest, h.length = hashSize)
    (hre : ∀ h ∈ rest, ∃ e s st, app.torrentMeta.get? h = some e ∧ app.torrents.get? h = some s ∧
      srcs.reopen e s.metadata = some st ∧ st.key = h ∧
      (e.isMagnet → s.metadata.isSome → st.numPieces > 0)) :
    ∃ loaded posted, loadTorrents (fun _ => srcs) (rest.filterMap app.savedTorrent) app' =
        (loaded, posted) ∧
      loaded.order = app'.order ++ rest ∧ loaded.downloadDir = app'.downloadDir ∧
      loaded.globalTrackers = app'.globalTrackers ∧
      (∀ h ∉ rest, loaded.torrentMeta.get? h = app'.torrentMeta.get? h ∧
        loaded.torrents.get? h = app'.torrents.get? h) ∧
      (∀ h ∈ rest, Restored app loaded h fun _ => false) ∧
      ∀ t, t ∈ posted ↔ ∃ h ∈ rest, t = some h ∧ (app.torrentMeta.get? h).any (·.stopped) := by
  induction rest generalizing app' with
  | nil => exact ⟨app', [], rfl, by simp⟩
  | cons h rest ih =>
    obtain ⟨hmem, hrest⟩ := nodup_cons.mp hrest
    obtain ⟨e, s, st, he, hs, hst, hkey, hp⟩ := hre h mem_cons_self
    have hsaved : app.savedTorrent h = some (dictOf (savedEntries h (some s) s.metadata e)) := by
      simp [savedTorrent, he, hs]
    have hload := loadTorrent_saved (s := s) hspawn (hh h mem_cons_self)
      (hnew h mem_cons_self) hst hkey
    generalize hadded : ({ app' with
      torrents := app'.torrents.insert h ⟨st, s.downloaded, s.uploaded, false⟩
      order := app'.order ++ [h]
      torrentMeta := app'.torrentMeta.insert h { e with stopped := false } } : ClientApp) =
      added at hload
    have hsession : added.torrents =
        app'.torrents.insert h ⟨st, s.downloaded, s.uploaded, false⟩ := by rw [← hadded]
    have hentry : added.torrentMeta = app'.torrentMeta.insert h { e with stopped := false } := by
      rw [← hadded]
    obtain ⟨loaded, posted, hloop, horder, hdir, htrackers, hothers, hrestored, hposted⟩ :=
      ih added hrest (by grind [OrdMap.contains_insert])
        (fun k hk => hh k (mem_cons_of_mem _ hk))
        fun k hk => hre k (mem_cons_of_mem _ hk)
    refine ⟨loaded, (if e.stopped then [some h] else []) ++ posted, ?_, ?_, ?_, ?_, ?_, ?_, ?_⟩
    · rw [filterMap_cons_some hsaved, loadTorrents, hload]
      dsimp only
      rw [hloop]
    · rw [horder, ← hadded, append_assoc, singleton_append]
    · rw [hdir, ← hadded]
    · rw [htrackers, ← hadded]
    · grind [get?_insert]
    · intro k hk
      cases mem_cons.mp hk with
      | inl heq =>
        subst heq
        obtain ⟨hm, hs'⟩ := hothers k hmem
        refine ⟨e, s, ⟨st, s.downloaded, s.uploaded, false⟩, he, hs, ?_, ?_, rfl, rfl, ?_⟩
        · rw [hm, hentry, get?_insert, if_pos rfl]
        · rw [hs', hsession, get?_insert, if_pos rfl]
        · exact fun hmag => metadata_reopen hmag hst ne_nil_of_metadata (hp hmag) ..
      | inr hin => exact hrestored k hin
    · intro t
      rw [mem_append, hposted]
      grind

theorem foldl_runPosted {posted : List (Option Bytes)}
    (hp : ∀ t ∈ posted, ∃ k, t = some k ∧ app'.torrents.contains k) :
    (posted.foldl runPosted app').order = app'.order ∧
    (posted.foldl runPosted app').downloadDir = app'.downloadDir ∧
    (posted.foldl runPosted app').globalTrackers = app'.globalTrackers ∧
    (posted.foldl runPosted app').torrents = app'.torrents ∧
    ∀ k, (posted.foldl runPosted app').torrentMeta.get? k = (app'.torrentMeta.get? k).map fun e =>
      if some k ∈ posted then { e with stopped := true } else e := by
  induction posted generalizing app' with
  | nil => simp
  | cons t posted ih =>
    obtain ⟨k, rfl, hk⟩ := hp t mem_cons_self
    have hrun : app'.runPosted (some k) = app'.setStopped k true := if_pos hk
    rw [foldl_cons, hrun]
    obtain ⟨h₁, h₂, h₃, h₄, h₅⟩ := @ih (app'.setStopped k true)
      fun t' ht' => hp t' (mem_cons_of_mem _ ht')
    refine ⟨h₁, h₂, h₃, h₄, fun j => ?_⟩
    rw [h₅, setStopped, get?_modify]
    by_cases hj : j = k
    · subst hj
      cases app'.torrentMeta.get? j <;> simp
    · rw [if_neg hj]
      simp [hj]

end ClientApp

open ClientApp in
/-- Loading the saved file in a new client gives the same torrents, totals, metadata, trackers and
    directory, in whatever order the handlers run. -/
theorem client_state_persisted {srcs : Sources} {app : ClientApp} (happ : app.Aligned fun _ => True)
    (hfits : app.Fits) (hre : Reloads srcs app) (downloadDir : Bytes) :
    ∃ loaded posted, ClientApp.loadState { downloadDir } (fun _ => srcs) (some app.saveState) =
        (loaded, posted) ∧
      ∀ handlers : List (Option Bytes), handlers.Perm posted →
        ∀ app', app' = handlers.foldl runPosted loaded →
          app'.order = app.order ∧ app'.globalTrackers = app.globalTrackers ∧
          app'.downloadDir = app.downloadDir ∧ ∀ h ∈ app.order,
            Restored app app' h (·.stopped) := by
  have hre' : ∀ h ∈ app.order, ∃ e s st, app.torrentMeta.get? h = some e ∧
      app.torrents.get? h = some s ∧ srcs.reopen e s.metadata = some st ∧ st.key = h ∧
      (e.isMagnet → s.metadata.isSome → st.numPieces > 0) := by
    intro h hh
    obtain ⟨e, he⟩ := isSome_iff_exists.mp (happ.entry h hh)
    obtain ⟨s, hs⟩ := isSome_iff_exists.mp ((happ.session h).mp hh)
    obtain ⟨st, hst⟩ := hre.2 h hh e he s hs
    exact ⟨e, s, st, he, hs, hst⟩
  have hwf : (dictOf [(.ascii "download_dir", .str app.downloadDir),
      (.ascii "torrents", .list (app.order.filterMap app.savedTorrent)),
      (.ascii "global_trackers", .list (app.globalTrackers.map .str))]).WF := by
    apply wf_dictOf
    simp only [forall_mem_cons]
    refine ⟨⟨by decide, hfits.downloadDir⟩, ⟨by decide, Value.wfItems_of_forall fun v hv => ?_⟩,
      ⟨by decide, Value.wfItems_of_forall fun v hv => ?_⟩, forall_mem_nil _⟩
    · obtain ⟨h, hh, hv⟩ := mem_filterMap.mp hv
      obtain ⟨e, s, st, he, hs, -⟩ := hre' h hh
      simp only [savedTorrent, he, hs, bind_some] at hv
      obtain rfl : _ = v := by simpa using hv
      obtain ⟨hsource, hdest⟩ := hfits.entry h hh e he
      exact wf_savedEntries (hfits.hash h hh) hsource hdest (hfits.info h hh s hs)
    · obtain ⟨url, hurl, rfl⟩ := mem_map.mp hv
      exact hfits.trackers url hurl
  have hload : ClientApp.loadState { downloadDir } (fun _ => srcs) (some app.saveState) =
      loadTorrents (fun _ => srcs) (app.order.filterMap app.savedTorrent)
        { downloadDir := app.downloadDir, globalTrackers := app.globalTrackers } := by
    have hdecode : decode app.saveState = .ok (dictOf _) := decode_encode hwf
    rw [loadState, map_some, hdecode]
    show loadTorrents _ _ { downloadDir := app.downloadDir, globalTrackers := [] ++ _ } = _
    rw [nil_append]
    congr 2
    exact filterMap_map.trans filterMap_some
  obtain ⟨loaded, posted, hloop, horder, hdir, htrackers, -, hrestored, hposted⟩ :=
    loadTorrents_saved hre.1
      { downloadDir := app.downloadDir, globalTrackers := app.globalTrackers }
      happ.nodup (fun _ _ => rfl) hfits.hash hre'
  refine ⟨loaded, posted, hload.trans hloop, ?_⟩
  rintro handlers hperm app' rfl
  have hthere : ∀ t ∈ handlers, ∃ k, t = some k ∧ loaded.torrents.contains k := by
    intro t ht
    obtain ⟨h, hh, rfl, -⟩ := (hposted t).mp (hperm.mem_iff.mp ht)
    obtain ⟨e, s, s', -, -, -, hs', -⟩ := hrestored h hh
    exact ⟨h, rfl, by rw [OrdMap.contains, hs']; rfl⟩
  obtain ⟨h₁, h₂, h₃, h₄, h₅⟩ := foldl_runPosted hthere
  refine ⟨h₁.trans horder, h₃.trans htrackers, h₂.trans hdir, fun h hh => ?_⟩
  obtain ⟨e, s, s', he, hs, he', hs', hrest⟩ := hrestored h hh
  refine ⟨e, s, s', he, hs, ?_, h₄ ▸ hs', hrest⟩
  have hmem : some h ∈ handlers ↔ e.stopped = true := by
    rw [hperm.mem_iff, hposted]
    grind
  rw [h₅, he']
  cases hstop : e.stopped <;> simp [hmem, hstop]

/-- A magnet link that was stopped, after the largest number of bytes. -/
def stoppedClient : ClientApp where
  downloadDir := [47]
  globalTrackers := [[1], [2]]
  torrentMeta := OrdMap.empty.insert (1 :: List.replicate 19 0) ⟨[1], [2], true, true⟩
  torrents := OrdMap.empty.insert (1 :: List.replicate 19 0) ⟨.ofMagnet [1] [], 2 ^ 64 - 1, 3, true⟩
  order := [1 :: List.replicate 19 0]

theorem client_state_persisted_stopped :
    ∃ loaded posted, ClientApp.loadState {} (fun _ => magnetSources true)
        (some stoppedClient.saveState) = (loaded, posted) ∧
      (posted.foldl ClientApp.runPosted loaded).order = stoppedClient.order ∧
      ClientApp.Restored stoppedClient (posted.foldl ClientApp.runPosted loaded)
        (1 :: List.replicate 19 0) (·.stopped) := by
  have happ : stoppedClient.Aligned fun k => True ∧ k ≠ 1 :: List.replicate 19 0 :=
    (ClientApp.aligned_new.add (1 :: List.replicate 19 0) ⟨.ofMagnet [1] [], 2 ^ 64 - 1, 3, true⟩
      stoppedClient.torrentMeta fun k => by
        simp [stoppedClient, OrdMap.contains_insert]).congr rfl (fun _ => rfl) fun _ => rfl
  have hfits : stoppedClient.Fits := by
    constructor <;> decide +kernel
  have hre : ClientApp.Reloads (magnetSources true) stoppedClient := by
    refine ⟨rfl, fun h hh e he s hs => ?_⟩
    obtain rfl := mem_singleton.mp hh
    obtain rfl : e = _ := (some.inj he).symm
    obtain rfl : s = _ := (some.inj hs).symm
    exact ⟨.ofMagnet [1] [], rfl, by decide, nofun⟩
  obtain ⟨loaded, posted, hload, hrest⟩ :=
    client_state_persisted (happ.mono fun _ _ => trivial) hfits hre []
  obtain ⟨horder, -, -, hrestored⟩ := hrest posted (.refl _) _ rfl
  exact ⟨loaded, posted, hload, horder, hrestored _ mem_cons_self⟩

end P2P
