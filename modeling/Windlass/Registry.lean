import Windlass.Integrations

/-!
# The torrent registry

`core/registry.rs`: the torrents Windlass wants, what it last saw of them, and
the first change qBittorrent needs to match.
-/

namespace Windlass

def counterSaveInterval : Duration := Duration.fromMins 15

def commandRepeatAfter : Duration := Duration.fromMins 1

def seedingRequired : Duration := Duration.fromHours 72

def seedingTarget : Duration := seedingRequired + Duration.fromHours 24

inductive LastSave
  | saved | failed
deriving DecidableEq

inductive Counters
  | saved | unsaved
deriving DecidableEq

structure Entry where
  record : TorrentRecord
  savedAt : Option Instant
  counters : Counters

structure Records where
  entries : Std.ExtTreeMap RecordId Entry
  byHash : Std.ExtTreeMap TorrentHash RecordId
  byMam : Std.ExtTreeMap MamTorrentId RecordId
  nextId : RecordId
  unsaved : Std.ExtTreeSet RecordId
  saving : Option (Std.ExtTreeSet RecordId)
  lastSave : LastSave
  lastCommand : Option (TorrentCommand × Instant)

inductive Registry
  | unread
  | reading
  | readFailed
  | loaded (records : Records)

/-! ## Torrents -/

/-- Whether some files are not selected. Sizes are unknown until metadata
arrives. -/
def Torrent.isPartial (t : Torrent) : Bool := t.state ≠ .fetchingMetadata && t.size < t.totalSize

def Torrent.isUntouched (t : Torrent) : Bool := t.progress.val == 0 && t.downloaded == 0

def Torrent.isStopped (t : Torrent) : Bool :=
  match t.state with
  | .stopped _ => true
  | _ => false

/-- Whether removing this torrent leaves nothing unsatisfied on MAM. -/
def Torrent.removable (t : Torrent) : Bool :=
  (t.completedAt.isSome && seedingTarget ≤ t.seedingTime) || t.isUntouched

def Torrent.unsatisfied (t : Torrent) : Bool := t.completedAt.isSome && t.seedingTime < seedingTarget

/-- Whether a change is saved at once rather than with the periodic counters. -/
def Torrent.significant (previous current : Torrent) : Bool :=
  previous.name ≠ current.name || previous.state ≠ current.state || previous.size ≠ current.size ||
    previous.totalSize ≠ current.totalSize || previous.addedAt ≠ current.addedAt ||
    previous.completedAt ≠ current.completedAt || previous.contentPath ≠ current.contentPath ||
    previous.savePath ≠ current.savePath

/-! ## Rows -/

def Entry.new (record : TorrentRecord) : Entry :=
  { record := record, savedAt := none, counters := .saved }

/-- Record a new observation; whether the row must be saved now. -/
def Entry.observe (e : Entry) (now : Instant) (observation : Observation) : Entry × Bool :=
  let seen : Entry := { e with record := { e.record with observation := some observation } }
  match e.record.observation with
  | some previous =>
    if previous.torrent.significant observation.torrent then (seen, true)
    else
      let counters : Counters := if previous.torrent ≠ observation.torrent then .unsaved else e.counters
      let due := e.savedAt.all fun savedAt => counterSaveInterval ≤ now.durationSince savedAt
      ({ seen with counters := counters }, counters == .unsaved && due)
  | none => (seen, true)

def Records.new (records : List TorrentRecord) : Records :=
  let removed := records.filter fun record => record.desired == .removed
  let live := records.filter fun record => record.desired != .removed
  { entries := records.foldl (fun m record => m.insert record.id (Entry.new record)) ∅
    byHash := records.foldl (fun m record =>
      match record.identity.hash with
      | some hash => m.insert hash record.id
      | none => m) ∅
    -- the live row of a MAM torrent comes last and wins over removed ones
    byMam := (removed ++ live).foldl (fun m record =>
      match record.identity.mamId with
      | some mam => m.insert mam record.id
      | none => m) ∅
    nextId := match (records.map (·.id)).max? with
      | some id => id.after
      | none => .first
    unsaved := ∅
    saving := none
    lastSave := .saved
    lastCommand := none }

def Records.records (r : Records) : List TorrentRecord := r.entries.toList.map fun p => p.2.record

def Records.findMam (r : Records) (mam : MamTorrentId) : Option TorrentRecord :=
  (r.byMam[mam]?).bind fun id => r.entries[id]?.map (·.record)

def TorrentRecord.download (record : TorrentRecord) : Option Download :=
  match record.identity with
  | .linked mam hash =>
    let seen := record.observation.map (·.torrent)
    if (record.desired == .active || record.desired == .held) && record.origin != .adopted then
      some
        { mam := mam
          hash := hash
          desired := record.desired
          completion :=
            if seen.any fun torrent => torrent.completedAt.isSome then .complete else .incomplete
          addedAt := seen.bind (·.addedAt) }
    else none
  | _ => none

def Records.downloads (r : Records) : List Download := r.records.filterMap TorrentRecord.download

def Records.queued (r : Records) : List MamTorrentId :=
  (r.records.filter fun record => record.desired == .queued).filterMap fun record => record.identity.mamId

def Records.saveFailed (r : Records) : Bool := r.lastSave == .failed

/-- Save every changed row in one batch, unless a batch is outstanding. -/
def Records.save (r : Records) (now : Instant) : Records × List Action :=
  if r.saving.isSome || r.unsaved.isEmpty then (r, [])
  else
    let records := (r.entries.toList.filter fun p => r.unsaved.contains p.1).map fun p => p.2.record
    ({ r with
       entries := r.entries.map fun id e =>
         if r.unsaved.contains id then { e with savedAt := some now, counters := .saved } else e
       unsaved := ∅
       saving := some r.unsaved }, [.saveTorrents records])

def Records.setDesired (r : Records) (id : RecordId) (desired : Desired) : Records :=
  { r with
    entries := r.entries.modify id fun e => { e with record := { e.record with desired := desired } }
    unsaved := r.unsaved.insert id }

def Records.allocate (r : Records) : Records × RecordId := ({ r with nextId := r.nextId.after }, r.nextId)

def Records.adopt (r : Records) (hash : TorrentHash) (torrent : Torrent) : Records × RecordId :=
  let (r, id) := r.allocate
  ({ r with
     byHash := r.byHash.insert hash id
     entries := r.entries.insert id (Entry.new
       { id := id
         identity := .client hash
         origin := .adopted
         desired := .active
         savePath := torrent.savePath
         deletion := .notAllowed
         observation := none }) }, id)

def Records.recordSeen (r : Records) (now : ClockReading) (id : RecordId) (torrent : Torrent) : Records :=
  match r.entries[id]? with
  | some entry =>
    let seen := entry.observe now.monotonic { torrent := torrent, lastSeen := now.wall }
    { r with
      entries := r.entries.insert id seen.1
      unsaved := if seen.2 then r.unsaved.insert id else r.unsaved }
  | none => r

/-- A held torrent that completed anyway must seed. -/
def Records.releaseCompleted (r : Records) (id : RecordId) (torrent : Torrent) : Records :=
  if (r.entries[id]?.any fun entry => entry.record.desired == .held) && torrent.completedAt.isSome then
    r.setDesired id .active
  else r

def Records.observeTorrent (now : ClockReading) (r : Records) (reported : TorrentHash × Torrent) :
    Records :=
  let (hash, torrent) := reported
  let (r, id) :=
    match r.byHash[hash]? with
    | some id => (r, id)
    | none => r.adopt hash torrent
  (r.recordSeen now id torrent).releaseCompleted id torrent

def Records.observe (r : Records) (now : ClockReading) (session : Session) : Records × List Action :=
  (session.torrents.toList.foldl (Records.observeTorrent now) r).save now.monotonic

def Records.knows (r : Records) (mam : MamTorrentId) : Bool := r.byMam.contains mam

def Records.bookmark (r : Records) (new : MamTorrentId × Desired) : Records :=
  let (mam, desired) := new
  if r.byMam.contains mam then r
  else
    let (r, id) := r.allocate
    { r with
      byMam := r.byMam.insert mam id
      entries := r.entries.insert id (Entry.new
        { id := id
          identity := .mam mam
          origin := .bookmark
          desired := desired
          savePath := none
          deletion := .notAllowed
          observation := none })
      unsaved := r.unsaved.insert id }

def Records.bookmarked (r : Records) (now : Instant) (bookmarks : List (MamTorrentId × Desired)) :
    Records × List Action :=
  (bookmarks.foldl Records.bookmark r).save now

/-- Queue a snatched torrent the owner wants again. -/
def Records.redownload (r : Records) (now : Instant) (id : RecordId) : Records × List Action :=
  match r.entries[id]? with
  | some entry =>
    if entry.record.desired = .snatched then
      { r with
        entries := r.entries.insert id
          { entry with record := { entry.record with desired := .queued, origin := .redownload } }
        unsaved := r.unsaved.insert id }.save now
    else (r, [])
  | none => (r, [])

/-- Link a fetched row to its hash and make it active. A torrent already in
qBittorrent keeps its row, which gains the MAM ID; the queued row stays as
history. -/
def Records.link (r : Records) (id : RecordId) (mam : MamTorrentId) (hash : TorrentHash) : Records :=
  let origin := r.entries[id]?.map (·.record.origin)
  let (r, target) :=
    match r.byHash[hash]? with
    | some existing =>
      if existing ≠ id then
        let r := r.setDesired id .removed
        ({ r with byMam := r.byMam.insert mam existing }, existing)
      else (r, id)
    | none => (r, id)
  let r : Records :=
    { r with
      entries := r.entries.modify target fun e =>
        { e with
          record := { e.record with identity := .linked mam hash,
                                    origin := origin.getD e.record.origin } } }
  let r := r.setDesired target .active
  { r with byHash := r.byHash.insert hash target }

def Records.fetched (r : Records) (now : Instant) (mam : MamTorrentId) (hash : TorrentHash) :
    Records × List Action :=
  (match r.byMam[mam]? with
   | some id => r.link id mam hash
   | none => r).save now

/-- A queued bookmark MAM now reports snatched before waits for the owner. -/
def Records.snatched (r : Records) (now : Instant) (mam : MamTorrentId) : Records × List Action :=
  let id := (r.byMam[mam]?).filter fun id => r.entries[id]?.any fun entry =>
    entry.record.desired == .queued && entry.record.origin == .bookmark
  (match id with
   | some id => r.setDesired id .snatched
   | none => r).save now

/-- Let a held torrent run again. -/
def Records.resume (r : Records) (now : Instant) (hash : TorrentHash) : Records × List Action :=
  let id := (r.byHash[hash]?).filter fun id => r.entries[id]?.any fun entry =>
    entry.record.desired == .held
  (match id with
   | some id => r.setDesired id .active
   | none => r).save now

/-- Stop this torrent and keep it stopped. -/
def Records.hold (r : Records) (now : Instant) (hash : TorrentHash) : Records × List Action :=
  (match r.byHash[hash]? with
   | some id => r.setDesired id .held
   | none => r).save now

/-! ## Commands -/

section
variable (r : Records) (session : Session) (permitsDownload : MamTorrentId → Bool)

def Records.present (desired : Desired) : List (TorrentHash × Torrent) :=
  (r.records.filter fun record => record.desired == desired).filterMap fun record =>
    record.identity.hash.bind fun hash => session.torrents[hash]?.map fun torrent => (hash, torrent)

def Records.removedHashes : List TorrentHash :=
  ((r.present session .removed).filter fun p => p.2.removable).map (·.1)

def Records.runningHashes : List TorrentHash :=
  ((r.present session .held).filter fun p => p.2.completedAt.isNone && !p.2.isStopped).map (·.1)

def Records.partialHash : Option TorrentHash :=
  r.records.findSome? fun record =>
    record.identity.hash.bind fun hash => session.torrents[hash]?.bind fun torrent =>
      if record.desired == .active && torrent.isPartial && record.identity.mamId.all permitsDownload then
        some hash
      else none

def Records.missingCommand : Option TorrentCommand :=
  r.records.findSome? fun record =>
    match record.identity with
    | .linked mam hash =>
      if record.desired == .active && record.origin != .adopted && permitsDownload mam &&
          !session.torrents.contains hash then
        some (.add mam hash)
      else none
    | _ => none

def Records.startable (record : TorrentRecord) : Option TorrentHash :=
  record.identity.hash.bind fun hash => session.torrents[hash]?.bind fun torrent =>
    if torrent.isStopped && !(record.origin == .adopted && torrent.isUntouched) &&
        ((torrent.state == .stopped .complete && !torrent.isPartial) ||
          record.identity.mamId.all permitsDownload) then
      some hash
    else none

def Records.stoppedHashes : List TorrentHash :=
  (r.records.filter fun record => record.desired == .active).filterMap
    (Records.startable session permitsDownload)

def Records.forceHashes : List TorrentHash :=
  ((r.present session .active).filter fun p =>
    p.2.unsatisfied && !p.2.isPartial && p.2.forceStart == .notForced).map (·.1)

def Records.releaseHashes : List TorrentHash :=
  ((r.present session .active).filter fun p => !p.2.unsatisfied && p.2.forceStart == .forced).map (·.1)

/-- The first change needed: removals, held torrents stopped, whole content,
fetched torrents added, starts, then force starts and their end. -/
def Records.reconcile : Option TorrentCommand :=
  if r.removedHashes session ≠ [] then some (.remove (r.removedHashes session))
  else if r.runningHashes session ≠ [] then some (.stop (r.runningHashes session))
  else
    match r.partialHash session permitsDownload with
    | some hash => some (.selectAllFiles hash)
    | none =>
      match r.missingCommand session permitsDownload with
      | some command => some command
      | none =>
        if r.stoppedHashes session permitsDownload ≠ [] then
          some (.start (r.stoppedHashes session permitsDownload))
        else if r.forceHashes session ≠ [] then some (.forceStart (r.forceHashes session))
        else if r.releaseHashes session ≠ [] then some (.endForceStart (r.releaseHashes session))
        else none

/-- A command just given is not repeated for a minute. -/
def Records.repeats (now : Instant) (command : TorrentCommand) : Bool :=
  r.lastCommand.any fun (last, at') => last = command && now.durationSince at' < commandRepeatAfter

def Records.command (now : Instant) : Records × Option TorrentCommand :=
  match r.reconcile session permitsDownload with
  | some command =>
    if r.repeats now command then (r, none)
    else ({ r with lastCommand := some (command, now) }, some command)
  | none => (r, none)

end

/-! ## The registry -/

def Registry.startReading (_ : Registry) : Registry × List Action := (.reading, [.readTorrentRegistry])

def Registry.records? : Registry → Option Records
  | .loaded records => some records
  | .unread | .reading | .readFailed => none

def Registry.handle (r : Registry) (now : Instant) (event : RegistryEvent) : Registry × List Action :=
  match r, event with
  | .reading, .read records => (.loaded (Records.new records), [])
  | .reading, .readFailed => (.readFailed, [])
  | .loaded records, .saved =>
    if records.saving.isSome then
      let (records, actions) := { records with saving := none, lastSave := .saved }.save now
      (.loaded records, actions)
    else (r, [])
  | .loaded records, .redownload id =>
    let (records, actions) := records.redownload now id
    (.loaded records, actions)
  | .loaded records, .saveFailed =>
    match records.saving with
    | some ids =>
      (.loaded { records with unsaved := records.unsaved ∪ ids, saving := none, lastSave := .failed }, [])
    | none => (r, [])
  | r, _ => (r, [])

/-- Adopt unknown torrents and record what qBittorrent reports. -/
def Registry.observe (r : Registry) (now : ClockReading) (session : Session) : Registry × List Action :=
  match r with
  | .loaded records =>
    if session.listed then
      let (records, actions) := records.observe now session
      (.loaded records, actions)
    else (r, [])
  | r => (r, [])

def Registry.command (r : Registry) (now : Instant) (permitsDownload : MamTorrentId → Bool)
    (session : Session) : Registry × Option TorrentCommand :=
  match r with
  | .loaded records =>
    if session.listed then
      let (records, command) := records.command session permitsDownload now
      (.loaded records, command)
    else (r, none)
  | r => (r, none)

end Windlass
