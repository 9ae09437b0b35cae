import P2P.Native.ClientApp

/-!
# The list of torrents and the two maps

Every operation keeps the list without repetitions and with the hashes of the sessions.
-/

namespace P2P

open OrdMap Option

def Sources.reopen (srcs : Sources) (e : TorrentEntry) (info : Option Bytes) :
    Option SessionState :=
  if e.isMagnet then srcs.createFromMagnet e.source info else srcs.openTorrent e.source e.savePath

/-- No file is opened when `spawn_session` throws. -/
def Sources.SpawnsFiles (srcs : Sources) : Prop :=
  srcs.spawnSession ∨ ∀ source savePath, srcs.openTorrent source savePath = none

namespace ClientApp

variable {app app' : ClientApp} {E : Bytes → Prop}

/-- The list has the hashes of the sessions, and those of what is remembered except for `E`. -/
structure Aligned (E : Bytes → Prop) (app : ClientApp) : Prop where
  nodup : app.order.Nodup
  session : ∀ h, h ∈ app.order ↔ app.torrents.contains h
  entry : ∀ h ∈ app.order, app.torrentMeta.contains h
  listed : ∀ h, app.torrentMeta.contains h → h ∈ app.order ∨ E h

structure Consistent (app : ClientApp) : Prop where
  nodup : app.order.Nodup
  session : ∀ h, h ∈ app.order ↔ app.torrents.contains h
  entry : ∀ h, h ∈ app.order ↔ app.torrentMeta.contains h

theorem Aligned.mono {E' : Bytes → Prop} (h : Aligned E app) (hE : ∀ k, E k → E' k) :
    Aligned E' app :=
  ⟨h.nodup, h.session, h.entry, fun k hk => (h.listed k hk).imp_right (hE k)⟩

theorem contains_modify {α : Type} (m : OrdMap Bytes α) (k h : Bytes) (f : α → α) :
    (m.modify k f).contains h = m.contains h := by
  unfold contains
  rw [get?_modify]
  split
  · next heq => rw [heq, isSome_map]
  · rfl

section

variable (h : Aligned E app)

include h

theorem Aligned.congr (horder : app'.order = app.order)
    (htorrents : ∀ k, app'.torrents.contains k = app.torrents.contains k)
    (hmeta : ∀ k, app'.torrentMeta.contains k = app.torrentMeta.contains k) : Aligned E app' := by
  constructor
  · exact horder ▸ h.nodup
  · intro k
    rw [horder, htorrents]
    exact h.session k
  · intro k hk
    rw [hmeta]
    exact h.entry k (horder ▸ hk)
  · intro k hk
    rw [horder]
    exact h.listed k (hmeta k ▸ hk)

theorem Aligned.setStopped (hash : Bytes) (stopped : Bool) :
    Aligned E (app.setStopped hash stopped) :=
  h.congr rfl (fun _ => rfl) fun k => contains_modify _ hash k _

theorem Aligned.restoreTotals (hash : Bytes) (dl ul : UInt64) :
    Aligned E (app.restoreTotals hash dl ul) := by
  unfold ClientApp.restoreTotals
  split
  · exact h.congr rfl (fun k => contains_modify _ hash k _) fun _ => rfl
  · exact h

theorem Aligned.add (hash : Bytes) (s : ClientSession) (entries : OrdMap Bytes TorrentEntry)
    (hentries : ∀ k, entries.contains k ↔ k = hash ∨ app.torrentMeta.contains k) :
    Aligned (fun k => E k ∧ k ≠ hash) { app with
      torrents := app.torrents.insert hash s
      order := if app.torrents.contains hash then app.order else app.order ++ [hash]
      torrentMeta := entries } := by
  have hmem : ∀ k, (k ∈ if app.torrents.contains hash then app.order else app.order ++ [hash]) ↔
      k = hash ∨ k ∈ app.order := by
    intro k
    split
    · next hc => grind [h.session hash]
    · grind
  constructor
  · dsimp only
    split
    · exact h.nodup
    · next hc => grind [h.session hash, h.nodup]
  · grind [h.session, contains_insert]
  · grind [h.entry]
  · grind [h.listed]

theorem Aligned.erase (hash : Bytes) :
    Aligned (fun k => E k ∨ k = hash) { app with
      torrents := app.torrents.erase hash
      order := app.order.filter (· ≠ hash) } := by
  constructor
  · exact h.nodup.filter _
  · grind [h.session, contains_erase]
  · grind [h.entry]
  · grind [h.listed]

theorem addTorrent_aligned {source savePath : Bytes} {opened : Option SessionState}
    {spawnSession : Bool} (hspawn : spawnSession ∨ ∀ st ∈ opened, app.torrentMeta.contains st.key) :
    Aligned E (left (app.addTorrent source savePath opened spawnSession)) ∧
      ∀ st ∈ opened, Aligned (fun k => E k ∧ k ≠ st.key)
        (left (app.addTorrent source savePath opened spawnSession)) := by
  cases opened with
  | none => exact ⟨h, nofun⟩
  | some st =>
    have hadd : Aligned (fun k => E k ∧ k ≠ st.key)
        (left (app.addTorrent source savePath (some st) spawnSession)) := by
      cases spawnSession with
      | true => exact h.add st.key _ _ fun k => by grind [contains_insert]
      | false => exact h.add st.key _ _ fun k => by grind
    exact ⟨hadd.mono fun k hk => hk.1, fun st' hst' => some.inj hst' ▸ hadd⟩

theorem addTorrentMagnet_aligned {uri savePath : Bytes} {opened : Option SessionState}
    {spawnSession : Bool} :
    Aligned E (left (app.addTorrentMagnet uri savePath opened spawnSession)) ∧
      ∀ st ∈ opened, app.torrents.contains st.key = false → Aligned (fun k => E k ∧ k ≠ st.key)
        (left (app.addTorrentMagnet uri savePath opened spawnSession)) := by
  cases opened with
  | none => exact ⟨h, nofun⟩
  | some st =>
    cases hc : app.torrents.contains st.key with
    | true =>
      have hsame : app.addTorrentMagnet uri savePath (some st) spawnSession = .ok app := if_pos hc
      rw [hsame]
      refine ⟨h, fun st' hst' hnew => ?_⟩
      grind
    | false =>
      have hadd := h.add st.key { state := st }
        (app.torrentMeta.insert st.key ⟨uri, savePath, true, false⟩)
        fun k => by grind [contains_insert]
      rw [hc] at hadd
      have hadd : Aligned (fun k => E k ∧ k ≠ st.key)
          (left (app.addTorrentMagnet uri savePath (some st) spawnSession)) := by
        simp only [addTorrentMagnet, hc]
        cases spawnSession <;> exact hadd
      exact ⟨hadd.mono fun k hk => hk.1, fun st' hst' _ => some.inj hst' ▸ hadd⟩

theorem addAgain_aligned {srcs : Sources} {e : TorrentEntry} {info : Option Bytes}
    (hspawn : e.isMagnet = false → srcs.spawnSession ∨
      ∀ st ∈ srcs.openTorrent e.source e.savePath, app.torrentMeta.contains st.key) :
    Aligned E (left (app.addAgain srcs e.isMagnet e.source e.savePath info)) ∧
      ∀ st ∈ srcs.reopen e info, app.torrents.contains st.key = false →
        Aligned (fun k => E k ∧ k ≠ st.key)
          (left (app.addAgain srcs e.isMagnet e.source e.savePath info)) := by
  unfold addAgain Sources.reopen
  cases hmagnet : e.isMagnet with
  | true => exact addTorrentMagnet_aligned h
  | false =>
    obtain ⟨hall, hnew⟩ := addTorrent_aligned h (hspawn hmagnet)
    exact ⟨hall, fun st hst _ => hnew st hst⟩

end

/-- No session of a file that is not remembered fails to be spawned, and a torrent that is resumed
    is opened again, under its hash. -/
def Reopens (app : ClientApp) : Step → Prop
  | .addTorrent _ _ opened spawnSession =>
    spawnSession ∨ ∀ st ∈ opened, app.torrentMeta.contains st.key
  | .resumeTorrent srcs index =>
    ∀ hash ∈ app.order[index]?, ∀ entry ∈ app.torrentMeta.get? hash,
      (app.torrents.get? hash).any (!·.isStopped) = false →
      (srcs.reopen entry ((app.torrents.get? hash).bind ClientSession.metadata)).map
        SessionState.key = some hash
  | .loadState srcs _ => ∀ n, (srcs n).SpawnsFiles
  | _ => True

section

variable (h : Aligned E app)

include h

theorem Aligned.resumeTorrent {srcs : Sources} {index : Nat}
    (hre : Reopens app (.resumeTorrent srcs index)) : Aligned E (app.resumeTorrent srcs index) := by
  unfold ClientApp.resumeTorrent
  split
  · exact h
  · next hash hash_eq =>
    split
    · exact h
    · next entry hentry =>
      dsimp only
      split
      · exact h
      · next hstopped =>
        obtain ⟨st, hst, rfl⟩ := map_eq_some_iff.mp
          (hre hash hash_eq entry hentry (by simpa using hstopped))
        -- the entry of a file is still there
        have hspawn : entry.isMagnet = false → srcs.spawnSession ∨
            ∀ st' ∈ srcs.openTorrent entry.source entry.savePath,
              app.torrentMeta.contains st'.key := by
          intro hfile
          refine .inr fun st' hst' => ?_
          grind [Sources.reopen, contains]
        have hadded := ((addAgain_aligned (h.erase st.key) hspawn).2 st hst
          (by simp [contains_erase])).mono fun k hk => hk.1.resolve_right hk.2
        split
        · next hok =>
          rw [hok] at hadded
          exact (Aligned.restoreTotals hadded ..).setStopped ..
        · next herror =>
          rw [herror] at hadded
          exact Aligned.setStopped hadded ..

theorem loadTorrent_aligned {srcs : Sources} (hspawn : srcs.SpawnsFiles) {v : Value}
    {posted : List (Option Bytes)} (hl : app.loadTorrent srcs v = some (app', posted)) :
    Aligned E app' := by
  unfold loadTorrent at hl
  split at hl
  · split at hl
    · next source dest type _ _ _ =>
      obtain ⟨hash, _, hl⟩ := bind_eq_some_iff.mp hl
      obtain ⟨stopped, _, hl⟩ := bind_eq_some_iff.mp hl
      have hall : ∀ info r, app.addAgain srcs (type = .ascii "magnet") source dest info = r →
          Aligned E (left r) := by
        rintro info _ rfl
        refine (addAgain_aligned h (e := ⟨source, dest, type = .ascii "magnet", false⟩) fun _ =>
          hspawn.imp_right fun hnone st hst => ?_).1
        rw [hnone] at hst
        cases hst
      split at hl
      · next herror =>
        obtain ⟨rfl, _⟩ := Prod.mk.inj (some.inj hl)
        exact hall _ _ herror
      · next hok =>
        have hadded := hall _ _ hok
        cases hl
        cases hash with
        | none => exact hadded
        | some hash => exact hadded.restoreTotals ..
    · obtain ⟨rfl, _⟩ := Prod.mk.inj (some.inj hl)
      exact h
  · cases hl
    exact h

theorem loadTorrents_aligned {srcs : Nat → Sources} (hspawn : ∀ n, (srcs n).SpawnsFiles)
    (l : List Value) : Aligned E (loadTorrents srcs l app).1 := by
  induction l generalizing app srcs with
  | nil => exact h
  | cons v rest ih =>
    rw [loadTorrents]
    split
    · exact h
    · next hl => exact ih (loadTorrent_aligned h (hspawn 0) hl) fun n => hspawn (n + 1)

theorem Aligned.stop (hash : Bytes) :
    Aligned E (if app.torrents.contains hash then app.setStopped hash true else app) := by
  split
  · exact h.setStopped _ _
  · exact h

theorem Aligned.step {st : Step} (hok : Reopens app st) : Aligned E (app.step st) := by
  cases st with
  | addTorrent source savePath opened spawnSession => exact (addTorrent_aligned h hok).1
  | addTorrentMagnet uri savePath info srcs => exact (addTorrentMagnet_aligned h).1
  | stopTorrent index =>
    unfold ClientApp.step stopTorrent
    dsimp only
    split
    · exact h
    · exact h.stop _
  | resumeTorrent srcs index => exact h.resumeTorrent hok
  | removeTorrent index =>
    unfold ClientApp.step removeTorrent
    dsimp only
    split
    · exact h
    · next hash _ =>
      split
      · constructor
        · exact h.nodup.filter _
        · grind [h.session, contains_erase]
        · grind [h.entry, contains_erase]
        · grind [h.listed, contains_erase]
      · exact h
  | loadState srcs file =>
    unfold ClientApp.step loadState
    dsimp only
    split
    · split
      · refine loadTorrents_aligned ?_ hok _
        exact h.congr rfl (fun _ => rfl) fun _ => rfl
      · exact h.congr rfl (fun _ => rfl) fun _ => rfl
    · exact h
  | runPosted hash =>
    unfold ClientApp.step runPosted
    dsimp only
    split
    · exact h
    · exact h.stop _
  | sessionChanged hash session =>
    exact h.congr rfl (fun k => contains_modify _ hash k _) fun _ => rfl

end

theorem aligned_new : Aligned E {} where
  nodup := List.nodup_nil
  session _ := ⟨nofun, nofun⟩
  entry := nofun
  listed := nofun

end ClientApp

def magnetSources (found : Bool) : Sources where
  sha1 := id
  openTorrent _ _ := none
  parseMagnetUri uri := if found then some uri else none

end P2P
