import P2P.Native.Hex
import P2P.Native.SessionState

/-!
# The torrents of a client (`ClientApp.cpp`, `ClientApp.hpp`)

The sessions and what is remembered of each torrent, in two maps by info hash, and the order in
which the torrents are shown.
-/

namespace P2P

open Bencode

structure TorrentEntry where
  source : Bytes
  savePath : Bytes
  isMagnet : Bool
  stopped : Bool := false
  deriving DecidableEq

def SessionState.key (st : SessionState) : Bytes :=
  (st.metaInfo.infoHashBytes ++ List.replicate hashSize 0).take hashSize

structure ClientSession where
  state : SessionState
  downloaded : UInt64 := 0
  uploaded : UInt64 := 0
  isStopped : Bool := false

namespace ClientSession

def metadata (s : ClientSession) : Option Bytes :=
  if s.state.hasMetadata then some s.state.metaInfo.infoBencoded else none

def addTotals (downloaded uploaded : UInt64) (s : ClientSession) : ClientSession :=
  { s with downloaded := s.downloaded + downloaded, uploaded := s.uploaded + uploaded }

end ClientSession

structure Sources where
  sha1 : Bytes → Bytes
  openTorrent : Bytes → Bytes → Option SessionState
  parseMagnetUri : Bytes → Option Bytes
  /-- `spawn_session` returns; it throws when the DHT node cannot bind its socket. -/
  spawnSession : Bool := true

def Sources.createFromMagnet (srcs : Sources) (uri : Bytes) (info : Option Bytes) :
    Option SessionState := do
  let state := SessionState.ofMagnet (← srcs.parseMagnetUri uri) []
  match info with
  | none => some state
  | some info =>
    match state.loadMetadata srcs.sha1 info with
    | (.ok (), state) => some state
    | _ => none

structure ClientApp where
  downloadDir : Bytes := []
  globalTrackers : List Bytes := []
  torrentMeta : OrdMap Bytes TorrentEntry := .empty
  torrents : OrdMap Bytes ClientSession := .empty
  order : List Bytes := []

namespace ClientApp

variable (app : ClientApp)

/-- An exception leaves the state behind: `spawn_session` throws before the entry is written. -/
def addTorrent (source savePath : Bytes) (opened : Option SessionState) (spawnSession : Bool) :
    Except ClientApp ClientApp :=
  match opened with
  | none => .error app
  | some st =>
    let app := { app with
      torrents := app.torrents.insert st.key { state := st }
      order := if app.torrents.contains st.key then app.order else app.order ++ [st.key] }
    if spawnSession then
      .ok { app with torrentMeta := app.torrentMeta.insert st.key ⟨source, savePath, false, false⟩ }
    else .error app

def addTorrentMagnet (uri savePath : Bytes) (opened : Option SessionState) (spawnSession : Bool) :
    Except ClientApp ClientApp :=
  match opened with
  | none => .error app
  | some st =>
    if app.torrents.contains st.key then .ok app
    else
      let app := { app with
        torrents := app.torrents.insert st.key { state := st }
        order := app.order ++ [st.key]
        torrentMeta := app.torrentMeta.insert st.key ⟨uri, savePath, true, false⟩ }
      if spawnSession then .ok app else .error app

def addAgain (srcs : Sources) (isMagnet : Bool) (source savePath : Bytes) (info : Option Bytes) :
    Except ClientApp ClientApp :=
  if isMagnet then
    app.addTorrentMagnet source savePath (srcs.createFromMagnet source info) srcs.spawnSession
  else app.addTorrent source savePath (srcs.openTorrent source savePath) srcs.spawnSession

def restoreTotals (hash : Bytes) (downloaded uploaded : UInt64) : ClientApp :=
  if downloaded > 0 ∨ uploaded > 0 then
    { app with torrents := app.torrents.modify hash (·.addTotals downloaded uploaded) }
  else app

def setStopped (hash : Bytes) (stopped : Bool) : ClientApp :=
  { app with torrentMeta := app.torrentMeta.modify hash ({ · with stopped := stopped }) }

def stopTorrent (index : Nat) : ClientApp :=
  match app.order[index]? with
  | none => app
  | some hash => if app.torrents.contains hash then app.setStopped hash true else app

def resumeTorrent (srcs : Sources) (index : Nat) : ClientApp :=
  match app.order[index]? with
  | none => app
  | some hash =>
    match app.torrentMeta.get? hash with
    | none => app
    | some entry =>
      let old := app.torrents.get? hash
      if old.any (!·.isStopped) then app
      else
        let erased := { app with
          torrents := app.torrents.erase hash
          order := app.order.filter (· ≠ hash) }
        match erased.addAgain srcs entry.isMagnet entry.source entry.savePath
            (old.bind ClientSession.metadata) with
        | .ok added =>
          (added.restoreTotals hash ((old.map (·.downloaded)).getD 0)
            ((old.map (·.uploaded)).getD 0)).setStopped hash false
        | .error left => left.setStopped hash true

def removeTorrent (index : Nat) : ClientApp :=
  match app.order[index]? with
  | none => app
  | some hash =>
    if app.torrents.contains hash then
      { app with
        torrents := app.torrents.erase hash
        torrentMeta := app.torrentMeta.erase hash
        order := app.order.filter (· ≠ hash) }
    else app

/-- `entry_dict`; `info` is the metadata of the session. -/
def savedEntries (hash : Bytes) (session : Option ClientSession) (info : Option Bytes) :
    TorrentEntry → Dict
  | ⟨source, savePath, isMagnet, stopped⟩ =>
    [(.ascii "source", .str source), (.ascii "dest", .str savePath),
      (.ascii "type", .str (if isMagnet then .ascii "magnet" else .ascii "file")),
      (.ascii "stopped", .int (if stopped then 1 else 0)),
      (.ascii "hash", .str (bytesToHex hash))] ++
    (if isMagnet then info.toList.map fun info => (.ascii "info", .str info) else []) ++
    session.toList.flatMap fun s =>
      [(.ascii "downloaded", .int s.downloaded.toInt64),
        (.ascii "uploaded", .int s.uploaded.toInt64)]

/-- An element of `torrents_list`; `none` when the loop goes on without one. -/
def savedTorrent (hash : Bytes) : Option Value :=
  (app.torrentMeta.get? hash).bind fun entry =>
    let session := app.torrents.get? hash
    if entry.isMagnet && session.isNone then none
    else some (dictOf (savedEntries hash session (session.bind ClientSession.metadata) entry))

def saveState : Bytes :=
  encode (dictOf [(.ascii "download_dir", .str app.downloadDir),
    (.ascii "torrents", .list (app.order.filterMap app.savedTorrent)),
    (.ascii "global_trackers", .list (app.globalTrackers.map .str))])

def string? (d : Dict) (key : String) : Option Bytes :=
  match Assoc.find? d (.ascii key) with
  | some (.str s) => some s
  | _ => none

def counter (d : Dict) (key : String) : UInt64 :=
  match Assoc.find? d (.ascii key) with
  | some (.int v) => v.toUInt64
  | _ => 0

/-- `hash` and `have_hash`, unless `decode_hex_info_hash` throws. -/
def hash? (d : Dict) : Option (Option Bytes) :=
  match string? d "hash" with
  | some hex =>
    if hex.length = SessionState.hashSize * 2 then
      match hexToBytes hex with
      | .ok hash => some (some hash)
      | .error _ => none
    else some none
  | none => some none

def wasStopped (d : Dict) : Option Bool :=
  match Assoc.find? d (.ascii "stopped") with
  | none => some false
  | some (.int v) => some (v ≠ 0)
  | some _ => none

/-- The body of the loop of `load_state`; the list has the hash of the posted handler. -/
def loadTorrent (srcs : Sources) : Value → Option (ClientApp × List (Option Bytes))
  | .dict entry =>
    match string? entry "source", string? entry "dest", string? entry "type" with
    | some source, some dest, some type => do
      let hash ← hash? entry
      let stopped ← wasStopped entry
      -- the exceptions from here on are caught
      match app.addAgain srcs (type = .ascii "magnet") source dest
          ((string? entry "info").filter (· ≠ [])) with
      | .error left => return (left, [])
      | .ok added =>
        return (hash.elim added fun h =>
          added.restoreTotals h (counter entry "downloaded") (counter entry "uploaded"),
          if stopped then [hash] else [])
    | _, _, _ => some (app, [])
  | _ => some (app, [])

def loadTorrents (srcs : Nat → Sources) : List Value → ClientApp → ClientApp × List (Option Bytes)
  | [], app => (app, [])
  | v :: rest, app =>
    match app.loadTorrent (srcs 0) v with
    | none => (app, [])
    | some (added, posted) =>
      let (loaded, more) := loadTorrents (fun n => srcs (n + 1)) rest added
      (loaded, posted ++ more)

/-- `load_state`; `file` is the content of the file, if there is one. -/
def loadState (srcs : Nat → Sources) (file : Option Bytes) : ClientApp × List (Option Bytes) :=
  match file.map decode with
  | some (.ok (.dict root)) =>
    let app := { app with
      downloadDir := (string? root "download_dir").getD app.downloadDir
      globalTrackers := app.globalTrackers ++
        match Assoc.find? root (.ascii "global_trackers") with
        | some (.list l) => l.filterMap fun
          | .str url => some url
          | _ => none
        | _ => [] }
    match Assoc.find? root (.ascii "torrents") with
    | some (.list l) => loadTorrents srcs l app
    | _ => (app, [])
  | _ => (app, [])

/-- A handler that `load_state` has posted. Without a hash it takes the last session. -/
def runPosted (hash : Option Bytes) : ClientApp :=
  match hash <|> app.torrents.entries.getLast?.map (·.1) with
  | none => app
  | some target => if app.torrents.contains target then app.setStopped target true else app

inductive Step where
  | addTorrent (source savePath : Bytes) (opened : Option SessionState) (spawnSession : Bool)
  | addTorrentMagnet (uri savePath : Bytes) (info : Option Bytes) (srcs : Sources)
  | stopTorrent (index : Nat)
  | resumeTorrent (srcs : Sources) (index : Nat)
  | removeTorrent (index : Nat)
  | loadState (srcs : Nat → Sources) (file : Option Bytes)
  | runPosted (hash : Option Bytes)
  | sessionChanged (hash : Bytes) (session : ClientSession)

def left : Except ClientApp ClientApp → ClientApp
  | .ok app | .error app => app

def step : Step → ClientApp
  | .addTorrent source savePath opened spawnSession =>
    left (app.addTorrent source savePath opened spawnSession)
  | .addTorrentMagnet uri savePath info srcs => left (app.addAgain srcs true uri savePath info)
  | .stopTorrent index => app.stopTorrent index
  | .resumeTorrent srcs index => app.resumeTorrent srcs index
  | .removeTorrent index => app.removeTorrent index
  | .loadState srcs file => (app.loadState srcs file).1
  | .runPosted hash => app.runPosted hash
  | .sessionChanged hash session =>
    { app with torrents := app.torrents.modify hash fun _ => session }

end ClientApp

end P2P
