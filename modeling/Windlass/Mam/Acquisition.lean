import Windlass.Mam.Account

/-!
# Bookmark acquisition

`core/mam/acquisition.rs`: listing bookmarks a page at a time, admitting one
queued torrent at a time, and the watch over running downloads, which must stay
free for the owner.
-/

namespace Windlass

def bookmarksEvery : Duration := Duration.fromMins 15

def maxBookmarkPages : Nat := 10

def recentAdmission : Duration := Duration.fromHours 1

def lookupFreshFor : Duration := Duration.fromMins 5

def watchFreshFor : Duration := Duration.fromMins 20

def historyFreshFor : Duration := Duration.fromMins 5

def wedgeRecordedAfter : Duration := Duration.fromMins 1

def acquisitionRetryAfter : Duration := Duration.fromMins 5

def pageSize : Nat := 100

/-! ## Listing bookmarks -/

structure Listed where
  at' : SystemTime
  taken : Instant
  found : BookmarkCount
  bookmarks : List Bookmark
deriving DecidableEq

structure Bookmarks where
  latest : Option Listed
  next : Option Instant
  failures : FailureCount
  lastFailure : Option MamFailure
  listing : Option (List Bookmark)
deriving DecidableEq

def Bookmarks.new : Bookmarks :=
  { latest := none, next := none, failures := FailureCount.none, lastFailure := none, listing := none }

/-- The page to request now: the next of a listing in progress, or the first of
a due listing. -/
def Bookmarks.wanted (b : Bookmarks) (now : Instant) : Option BookmarkCount :=
  match b.listing with
  | some listing => BookmarkCount.of listing
  | none => if b.next.all fun next => next ≤ now then some 0 else none

def Bookmarks.nextDue (b : Bookmarks) : Option Instant :=
  if b.listing.isSome then none else b.next

/-- Add a page; the complete list once the last page arrived. -/
def Bookmarks.page (b : Bookmarks) (now : Instant) (wall : SystemTime) (page : BookmarkPage) :
    Bookmarks × Option Listed :=
  let listing := b.listing.getD [] ++ page.bookmarks
  if page.bookmarks.isEmpty || page.found.isReachedBy listing.length ||
      maxBookmarkPages * pageSize ≤ listing.length then
    let listed : Listed := { at' := wall, taken := now, found := page.found, bookmarks := listing }
    ({ latest := some listed
       next := now.checkedAdd bookmarksEvery
       failures := FailureCount.none
       lastFailure := none
       listing := none }, some listed)
  else ({ b with listing := some listing }, none)

def Bookmarks.failed (b : Bookmarks) (now : Instant) (failure : MamFailure) : Bookmarks :=
  { b with
    listing := none
    failures := b.failures.afterAnother
    lastFailure := some failure
    next := now.checkedAdd (failure.wait acquisitionRetryAfter) }

def Listed.find (l : Listed) (id : MamTorrentId) : Option Bookmark :=
  l.bookmarks.find? fun bookmark => bookmark.id == id

def Bookmarks.find (b : Bookmarks) (id : MamTorrentId) : Option Bookmark :=
  b.latest.bind fun listed => listed.find id

/-! ## What is known about a torrent -/

structure Lookup where
  listing : Option Bookmark
  at' : Instant
deriving DecidableEq

structure WedgeHistory where
  wedged : Std.ExtTreeSet MamTorrentId
  at' : Instant

inductive WedgeAccounting
  | complete | missing
deriving DecidableEq

inductive MamListing
  | listed | unlisted
deriving DecidableEq

/-- What Windlass knows about a running download it added. -/
inductive DownloadWatch
  | wedged
  | freeForNow
  | needLookup
  | needHistory
  | notFree (wedges : WedgeAccounting) (listing : MamListing)
deriving DecidableEq

/-- The next request admission or the watch over running downloads wants. -/
inductive Next
  | idle
  | fetch (id : MamTorrentId) (wedge : Wedge)
  | lookUp (id : MamTorrentId)
  | needHistory
  | needReading
  | hold (hold : Hold)
deriving DecidableEq

inductive RequestGate
  | open' | closed
deriving DecidableEq

inductive ClientReadiness
  | ready | notReady
deriving DecidableEq

/-- What admission depends on outside acquisition. -/
structure Facts where
  now : Instant
  wall : SystemTime
  gate : RequestGate
  seedbox : SeedboxConfirmation
  readiness : ClientReadiness
  client : ClientStanding
  recent : UnsatisfiedCount
  downloading : TorrentCount
  downloadingLimit : DownloadingLimit
  ratioGuard : RatioGuard
  account : Account

structure Acquisition where
  bookmarks : Bookmarks
  refused : Option SystemTime
  hold : Option Hold
  fetching : Option (MamTorrentId × Wedge)
  lastAdmission : Option Instant
  lookups : Std.ExtTreeMap MamTorrentId Lookup
  history : Option WedgeHistory
  wedgeAttempts : Std.ExtTreeMap MamTorrentId Instant
  watched : List (Download × DownloadWatch)
  reported : Std.ExtTreeSet MamTorrentId
  newlyFetched : Std.ExtTreeSet MamTorrentId
  reapproved : Std.ExtTreeMap MamTorrentId IpAddr
  lookupFailed : Option Instant
  historyFailed : Option Instant

def Acquisition.new : Acquisition :=
  { bookmarks := Bookmarks.new
    refused := none
    hold := none
    fetching := none
    lastAdmission := none
    lookups := ∅
    history := none
    wedgeAttempts := ∅
    watched := []
    reported := ∅
    newlyFetched := ∅
    reapproved := ∅
    lookupFailed := none
    historyFailed := none }

/-- Whether downloading costs the owner no ratio without a wedge, now and until
the next check. -/
def freeForOwner (listing : Bookmark) (data : UserData) (now : SystemTime) : Bool :=
  let until' := (now.checkedAdd watchFreshFor).getD now
  listing.freeleech == .forEveryone || listing.personal == .throughWedge ||
    (listing.personal == .throughVip && data.isVip until') ||
    (listing.vip.holdsAt until' && data.isVip until')

/-- Whether qBittorrent added the download within the last hour, or will add
it. -/
def Download.recent (d : Download) (wall : SystemTime) : Bool :=
  d.addedAt.all fun at' => (wall.durationSince at').all fun age => age < recentAdmission

/-- The newer of two sightings; the second wins when they are as old. -/
def newerSighting (a b : Option (Option Bookmark × Instant)) : Option (Option Bookmark × Instant) :=
  match a, b with
  | some a, some b => if b.2 < a.2 then some a else some b
  | some a, none => some a
  | none, b => b

section
variable (a : Acquisition)

/-- The torrent as MAM reported it most recently, by a lookup or the bookmark
listing, and when; `none` inside when MAM no longer lists it. -/
def Acquisition.latest (id : MamTorrentId) : Option (Option Bookmark × Instant) :=
  newerSighting (a.lookups[id]?.map fun lookup => (lookup.listing, lookup.at'))
    (a.bookmarks.latest.bind fun latest =>
      (latest.find id).map fun bookmark => (some bookmark, latest.taken))

def Acquisition.current (id : MamTorrentId) (now : Instant) (within : Duration) :
    Option (Option Bookmark × Instant) :=
  (a.latest id).filter fun (_, at') => now.durationSince at' ≤ within

/-- When MAM has recorded the wedge of this torrent's last wedged download. -/
def Acquisition.wedgeRecorded (id : MamTorrentId) : Option Instant :=
  (a.wedgeAttempts[id]?).bind fun attempt => attempt.checkedAdd wedgeRecordedAfter

/-- The bonus history, if it was read recently enough, and long enough after the
last wedged download of this torrent to show its wedge. -/
def Acquisition.historySettles (id : MamTorrentId) (now : Instant) : Option WedgeHistory :=
  a.history.filter fun history =>
    now.durationSince history.at' ≤ historyFreshFor &&
      (a.wedgeRecorded id).all fun recorded => recorded ≤ history.at'

def mayAsk (failed : Option Instant) (now : Instant) : Bool :=
  failed.all fun failed => acquisitionRetryAfter ≤ now.durationSince failed

def Acquisition.mayAskHistory (id : MamTorrentId) (now : Instant) : Bool :=
  mayAsk a.historyFailed now && (a.wedgeRecorded id).all fun recorded => recorded ≤ now

def ask (allowed : Bool) (next : Next) : Next := if allowed then next else .idle

/-! ## Admission -/

/-- The first queued torrent that is still bookmarked and listed. -/
def Acquisition.candidate (queued : List MamTorrentId) : Option Bookmark :=
  queued.findSome? fun id =>
    (a.bookmarks.find id).filter fun _ => !(a.lookups[id]?.any fun lookup => lookup.listing.isNone)

/-- What stands in the way of any admission, before the account is asked. -/
def Acquisition.obstacle (facts : Facts) : Option Hold :=
  if facts.gate = .closed then some .mamUnavailable
  else if facts.seedbox = .unconfirmed then some .seedboxUnconfirmed
  else if a.refused.isSome then some .downloadsRefused
  else
    match facts.ratioGuard with
    | .tripped _ => some .ratioUsed
    | .reading | .readFailed => some .ratioGuardUnknown
    | .watching _ =>
      if facts.readiness = .notReady then some .clientUnavailable
      else if facts.downloadingLimit.isReachedBy facts.downloading then
        some (.downloadingLimit facts.downloading facts.downloadingLimit)
      else none

/-- Whether the account, as freshly read, admits one more download. -/
def accountObstacle (facts : Facts) (data : UserData) : Option Hold :=
  if !facts.client.admits then some (.mamClientList facts.client)
  else if facts.account.ratioLow.isSome then some .ratioLow
  else
    match data.summary with
    | none => some .accountUnknown
    | some summary =>
      let count := summary.unsatisfied.plus facts.recent
      if !summary.unsatisfiedLimit.admitsOneMore count unsatisfiedReserve then
        some (.unsatisfiedLimit count summary.unsatisfiedLimit)
      else none

/-- The wedge an admitted torrent needs, by its listing and the bonus history. -/
def Acquisition.admit (facts : Facts) (data : UserData) (id : MamTorrentId) : Next :=
  match a.current id facts.now lookupFreshFor with
  | some (some listing, _) =>
    if freeForOwner listing data facts.wall then .fetch id .keep
    else
      match a.historySettles id facts.now with
      | none => ask (a.mayAskHistory id facts.now) .needHistory
      | some history =>
        if history.wedged.contains id then .fetch id .keep
        else if data.wedges = 0 then .hold .noWedge
        else .fetch id .spend
  | _ => ask (mayAsk a.lookupFailed facts.now) (.lookUp id)

/-- Decide for the first queued torrent that is still bookmarked and listed. -/
def Acquisition.next (queued : List MamTorrentId) (facts : Facts) : Next :=
  match a.candidate queued with
  | none => if queued ≠ [] then .hold .notBookmarked else .idle
  | some bookmark =>
    match a.obstacle facts with
    | some hold => .hold hold
    | none =>
      match facts.account.fresh facts.now a.lastAdmission with
      | none => .needReading
      | some data =>
        match accountObstacle facts data with
        | some hold => .hold hold
        | none => Acquisition.admit a facts data bookmark.id

def Acquisition.fetch (now : Instant) (id : MamTorrentId) (wedge : Wedge) (admitted : Bool) :
    Acquisition :=
  { a with
    fetching := some (id, wedge)
    wedgeAttempts := if wedge = .spend then a.wedgeAttempts.insert id now else a.wedgeAttempts
    lastAdmission := if admitted then some now else a.lastAdmission }

/-! ## The watch over running downloads -/

def Acquisition.watch (download : Download) (data : Option UserData) (now : Instant) (wall : SystemTime) :
    DownloadWatch :=
  if a.history.any fun history => history.wedged.contains download.mam then .wedged
  else
    match a.wedgeRecorded download.mam with
    | some recorded =>
      -- only a history read once MAM recorded the wedge can show it
      if a.history.any fun history =>
        recorded ≤ history.at' then .notFree .missing .listed else .needHistory
    | none =>
      match a.current download.mam now watchFreshFor with
      | none => .needLookup
      | some (listing, seen) =>
        if listing.any fun listing => data.any fun data => freeForOwner listing data wall then .freeForNow
        else if a.history.any fun history => seen ≤ history.at' then
          .notFree .complete (if listing.isSome then .listed else .unlisted)
        else .needHistory

def Acquisition.watchAll (downloads : List Download) (data : Option UserData) (now : Instant)
    (wall : SystemTime) : List (Download × DownloadWatch) :=
  (downloads.filter fun download => download.completion == .incomplete || download.recent wall).map
    fun download => (download, a.watch download data now wall)

def Acquisition.watchOne (account : Account) (now : Instant) (download : Download)
    (watch : DownloadWatch) :
    Next :=
  match watch with
  | .needLookup => if mayAsk a.lookupFailed now then .lookUp download.mam else .idle
  | .needHistory => if a.mayAskHistory download.mam now then .needHistory else .idle
  | .notFree .complete .listed =>
    if download.completion = .incomplete then
      match account.fresh now none with
      | some data => if data.wedges ≠ 0 then .fetch download.mam .spend else .idle
      | none => .needReading
    else .idle
  | _ => .idle

/-- The request the watch over running downloads wants now, if any. -/
def Acquisition.watchNext (account : Account) (now : Instant) : Next :=
  ((a.watched.map fun (download, watch) => a.watchOne account now download watch).find? fun next =>
    next ≠ .idle).getD .idle

def minOf (times : List (Option Instant)) : Option Instant := (times.filterMap id).min?

/-- When a lookup or the bonus history may next be asked for, a wedge has been
recorded, or a download free for now must be checked again. -/
def Acquisition.nextDue : Option Instant :=
  let freeUntil := minOf (a.watched.map fun (download, watch) =>
    if watch = .freeForNow then
      (a.latest download.mam).bind fun (_, seen) => seen.checkedAdd watchFreshFor
    else none)
  let retry (failed : Option Instant) := failed.bind fun failed => failed.checkedAdd acquisitionRetryAfter
  let recorded := minOf (a.wedgeAttempts.keys.map fun id =>
    (a.wedgeRecorded id).filter fun recorded => a.history.all fun history => history.at' < recorded)
  minOf [freeUntil, recorded, retry a.lookupFailed, retry a.historyFailed]

def Acquisition.lookedUp (now : Instant) (id : MamTorrentId) (listing : Option Bookmark) : Acquisition :=
  { a with
    lookupFailed := none
    lookups := a.lookups.insert id { listing := listing, at' := now } }

def Acquisition.lookUpFailed (now : Instant) : Acquisition := { a with lookupFailed := some now }

def Acquisition.historyRead (now : Instant) (spent : List WedgeSpent) : Acquisition :=
  { a with
    historyFailed := none
    history := some { wedged := Std.ExtTreeSet.ofList (spent.map (·.torrent)), at' := now } }

def Acquisition.historyReadFailed (now : Instant) : Acquisition := { a with historyFailed := some now }

end

end Windlass
