import Windlass.Mam.Acquisition

/-!
# Windlass's work with MAM

`core/mam/mod.rs`: one request is outstanding at a time, and each step the most
urgent wanted request is sent when the gate is open and the budget allows it.
-/

namespace Windlass

def reminderEvery : Duration := Duration.fromHours (7 * 24)

/-- One connection to MAM: a pause, lost protection, or a new cookie starts
another, and answers to requests sent on an earlier one are ignored. -/
abbrev ConnectionEpoch := Nat

inductive Outstanding
  | savingRegistration (at' : SystemTime) (cookie : ApiCookie) (epoch : ConnectionEpoch)
  | request (request : MamRequest) (sent : Instant) (epoch : ConnectionEpoch)
deriving DecidableEq

inductive LastReminder
  | unread
  | reading
  | known (last : Option SystemTime)
  | readFailed
deriving DecidableEq

inductive MamHosts
  | configured | notConfigured
deriving DecidableEq

inductive TunnelProtection
  | isProtected | isUnprotected
deriving DecidableEq

/-- The core state that MAM work depends on. -/
structure Context where
  requests : MamRequestsStatus
  protection : TunnelProtection
  cookie : Option ApiCookie
  requestedCookie : Option ApiCookie
  reserve : Option Points
  readiness : ClientReadiness
  clientVersion : Option ClientVersion
  connection : Connection
  downloadingLimit : DownloadingLimit
  registry : Registry

structure Mam where
  hosts : MamHosts
  gate : RequestGate
  session : MamSession
  network : Network
  seedbox : Seedbox
  account : Account
  acquisition : Acquisition
  budget : Budget
  outstanding : Option Outstanding
  lastReminder : LastReminder
  client : ClientStanding
  ratioGuard : RatioGuard
  connectability : Connectability
  lease : LeaseRenewal
  cookieInUse : Option ApiCookie
  issuedCookie : Option ApiCookie
  confirmedDownloadIp : Option IpAddr
  epoch : ConnectionEpoch
  wake : Option (TimerId × Instant)
  notices : List Notice

def Mam.new : Mam :=
  { hosts := .notConfigured
    gate := .closed
    session := .unverified
    network := Network.new
    seedbox := Seedbox.new
    account := Account.new
    acquisition := Acquisition.new
    budget := Budget.new
    outstanding := none
    lastReminder := .unread
    client := .unknown
    ratioGuard := .reading
    connectability := .fine
    lease := .notRequested
    cookieInUse := none
    issuedCookie := none
    confirmedDownloadIp := none
    epoch := 0
    wake := none
    notices := [] }

def Mam.startReading (m : Mam) : Mam × List Action :=
  ({ m with seedbox.lastAttempt := .reading, lastReminder := .reading, ratioGuard := .reading },
    [.readMamState])

def Mam.vpnSwitched (m : Mam) : Mam :=
  { m with network := m.network.unconfirm, confirmedDownloadIp := none }

def Mam.timerExpired (m : Mam) (id : TimerId) : Mam :=
  if m.wake.any fun (timer, _) => timer == id then { m with wake := none } else m

/-- Change the rows of a loaded registry. -/
def Registry.change (r : Registry) (f : Records → Records × List Action) : Registry × List Action :=
  match r with
  | .loaded records => (.loaded (f records).1, (f records).2)
  | r => (r, [])

def Registry.isQueued (r : Registry) (id : MamTorrentId) : Bool :=
  r.records?.any fun records => (records.findMam id).any fun record => record.desired == .queued

/-! ## Running downloads -/

/-- What the watch over running downloads has changed so far. -/
structure Following where
  reapproved : Std.ExtTreeMap MamTorrentId IpAddr
  reported : Std.ExtTreeSet MamTorrentId
  notices : List Notice
  records : Records
  actions : List Action

def DownloadWatch.isFree : DownloadWatch → Bool
  | .wedged | .freeForNow => true
  | .needLookup | .needHistory | .notFree .. => false

def downloadNotice (download : Download) (watch : DownloadWatch) (noWedges : Bool) : Option Notice :=
  match watch with
  | .wedged | .freeForNow | .needLookup | .needHistory => none
  | .notFree .missing _ => some .wedgeNotSpent
  | .notFree .complete listing =>
    if download.completion = .complete then some (.downloadNotFree .finishedFirst)
    else if listing == .unlisted || noWedges then some (.downloadNotFree .stopped)
    else none

def Following.resume (f : Following) (now : Instant) (observed : Option IpObservation)
    (download : Download) :
    Following :=
  { f with
    records := (f.records.resume now download.hash).1
    actions := f.actions ++ (f.records.resume now download.hash).2
    reapproved :=
      match observed with
      | some observed => f.reapproved.insert download.mam observed.ip
      | none => f.reapproved }

def Following.hold (f : Following) (now : Instant) (download : Download) : Following :=
  { f with
    records := (f.records.hold now download.hash).1
    actions := f.actions ++ (f.records.hold now download.hash).2 }

def Following.report (f : Following) (download : Download) (notice : Option Notice) : Following :=
  match notice with
  | some notice =>
    if f.reported.contains download.mam then f
    else { f with reported := f.reported.insert download.mam, notices := f.notices ++ [notice] }
  | none => f

/-- A download shown free runs; one that is not free and cannot be wedged stops,
and the owner is told once. -/
def Following.follow (now : Instant) (observed : Option IpObservation) (permits noWedges tripped : Bool)
    (f : Following) (watched : Download × DownloadWatch) : Following :=
  let (download, watch) := watched
  let f : Following :=
    if watch.isFree then
      let f := if download.desired == .held && permits then f.resume now observed download else f
      { f with reported := f.reported.erase download.mam }
    else f
  let notice := downloadNotice download watch noWedges
  let f := if (tripped || notice.isSome) && download.isDownloading then f.hold now download else f
  f.report download notice

def RatioGuard.isTripped : RatioGuard → Bool
  | .tripped _ => true
  | .reading | .readFailed | .watching _ => false

section
variable (m : Mam) (now : ClockReading)

def Mam.watchAll (records : Records) : List (Download × DownloadWatch) :=
  m.acquisition.watchAll records.downloads m.account.data now.monotonic now.wall

def Mam.following (records : Records) : Following :=
  (m.watchAll now records).foldl
    (Following.follow now.monotonic m.network.current m.ratioGuard.permitsDownloads
      (m.account.data.any fun data => data.wedges == 0) m.ratioGuard.isTripped)
    { reapproved := m.acquisition.reapproved
      reported := m.acquisition.reported
      notices := m.notices
      records := records
      actions := [] }

def Mam.followDownloads (registry : Registry) : Mam × Registry × List Action :=
  match registry with
  | .loaded records =>
    let f := m.following now records
    ({ m with
       acquisition.reapproved := f.reapproved
       acquisition.reported := f.reported
       acquisition.watched := m.watchAll now records
       notices := f.notices }, .loaded f.records, f.actions)
  | registry => (m, registry, [])

/-- Whether MAM has cleared this incomplete download to begin transferring. -/
def Mam.permitsDownload (id : MamTorrentId) : Bool :=
  match m.network.current with
  | none => false
  | some observed =>
    m.gate == .open' && m.ratioGuard.permitsDownloads &&
      (match m.session with
       | .verified _ => true
       | _ => false) &&
      (m.confirmedDownloadIp == some observed.ip || m.acquisition.reapproved[id]? == some observed.ip) &&
      (m.acquisition.newlyFetched.contains id ||
        m.acquisition.watched.any fun (download, watch) => download.mam == id && watch.isFree)

/-! ## Answers -/

/-- A refusal stops requests that need the cookie; a success proves it. A
session that may not register the seedbox may still do the rest. -/
def Mam.followSession (request : MamRequest) (result : Except MamFailure MamReply) : Mam :=
  match result with
  | .error (.session rejection) =>
    if rejection = .notAllowed ∧ request = .registerSeedbox then m
    else
      { m with
        session := .rejected rejection
          (m.network.current.map fun observed => (observed.ip, observed.asn)) now.wall }
  | .ok _ => { m with session := .verified now.wall }
  | .error _ => m

def Mam.ipAnswered (result : Except MamFailure MamReply) : Mam :=
  match result with
  | .ok (.ip observation) => { m with network := m.network.observe now.monotonic now.wall observation }
  | .error failure => { m with network := m.network.failed now.monotonic failure }
  | _ => m

def Mam.registrationAnswered (result : Except MamFailure MamReply) : Mam :=
  match result with
  | .ok (.registered _ ip) =>
    { m with seedbox := m.seedbox.confirmed ip now.wall, confirmedDownloadIp := some ip }
  | .error failure => { m with seedbox := m.seedbox.failed failure now.wall }
  | _ => m

def settledNotice : Option (Purchase × PurchaseOutcome) → List Notice
  | some (purchase, .settled sale _) => [.purchaseSettled purchase sale]
  | _ => []

def Seen.notices : Seen → List Notice
  | .tripped used => [.ratioUsed used.counted]
  | .unchanged | .rebased _ => []

def Seen.actions : Seen → List Action
  | .unchanged => []
  | .rebased guard => [.saveRatioGuard guard]
  | .tripped used => [.saveRatioGuard (.tripped used)]

def Mam.userDataRead (data : UserData) : Mam × Seen :=
  let (account, settled) := m.account.read now.monotonic now.wall data
  let (ratioGuard, seen) := m.ratioGuard.observe data.downloaded now.wall
  ({ m with
     account := account
     ratioGuard := ratioGuard
     notices := m.notices ++ settledNotice settled ++ seen.notices }, seen)

def Mam.userDataAnswered (result : Except MamFailure MamReply) (registry : Registry) :
    Mam × Registry × List Action :=
  match result with
  | .ok (.userData data) =>
    let (m, seen) := m.userDataRead now data
    let (m, registry, actions) := m.followDownloads now registry
    (m, registry, seen.actions ++ actions)
  | .error failure => ({ m with account := m.account.failed now.monotonic failure }, registry, [])
  | _ => (m, registry, [])

def Mam.historyAnswered (result : Except MamFailure MamReply) (registry : Registry) :
    Mam × Registry × List Action :=
  match result with
  | .ok (.wedgeHistory spent) =>
    { m with acquisition := m.acquisition.historyRead now.monotonic spent }.followDownloads now registry
  | .error _ => ({ m with acquisition := m.acquisition.historyReadFailed now.monotonic }, registry, [])
  | _ => (m, registry, [])

def Mam.torrentAnswered (id : MamTorrentId) (result : Except MamFailure MamReply) (registry : Registry) :
    Mam × Registry × List Action :=
  match result with
  | .ok (.torrent listing) =>
    let m : Mam := { m with acquisition := m.acquisition.lookedUp now.monotonic id listing }
    let (registry, snatched) :=
      if listing.any fun listing => listing.snatched == .before then
        registry.change fun records => records.snatched now.monotonic id
      else (registry, [])
    let (m, registry, actions) := m.followDownloads now registry
    (m, registry, snatched ++ actions)
  | .error _ => ({ m with acquisition := m.acquisition.lookUpFailed now.monotonic }, registry, [])
  | _ => (m, registry, [])

def purchaseResult (purchase : Purchase) (result : Except MamFailure MamReply) :
    List Notice × PurchaseOutcome :=
  match result with
  | .ok (.purchased points) => ([.purchaseMade purchase points], .made points)
  | .error failure =>
    if failure.uncertain then ([.purchaseUncertain purchase], .uncertain)
    else
      match failure with
      | .refused message => ([.purchaseRefused purchase], .refused message)
      | _ => ([], .refused none)
  | .ok _ => ([], .refused none)

/-- A purchase's outcome is recorded whenever it arrives. -/
def Mam.purchased (purchase : Purchase) (result : Except MamFailure MamReply) : Mam :=
  { m with
    notices := m.notices ++ (purchaseResult purchase result).1
    account := m.account.bought purchase now.monotonic now.wall (purchaseResult purchase result).2 }

/-- A fetched torrent is recorded whenever it arrives, since a wedge may have
been spent on it. -/
def Mam.fetched (id : MamTorrentId) (wedge : Wedge) (result : Except MamFailure MamReply)
    (registry : Registry) : Mam × Registry × List Action :=
  let m : Mam := { m with acquisition.fetching := none }
  match result with
  | .ok (.fetched torrent) =>
    if registry.isQueued id then
      let m : Mam := { m with acquisition.newlyFetched := m.acquisition.newlyFetched.insert id }
      let (registry, actions) :=
        registry.change fun records => records.fetched now.monotonic id torrent.hash
      (m, registry, actions)
    else
      let m : Mam := if wedge = .spend then { m with notices := m.notices ++ [.wedgedMidDownload] } else m
      m.followDownloads now registry
  | .error (.refused _) => ({ m with acquisition.refused := some now.wall }, registry, [])
  | _ => (m, registry, [])

/-- Queued bookmarks MAM now reports snatched wait for the owner. -/
def Records.snatchedAll (r : Records) (now : Instant) (bookmarks : List Bookmark) :
    Records × List Action :=
  bookmarks.foldl
    (fun (r, actions) bookmark =>
      if bookmark.snatched = .before then
        ((r.snatched now bookmark.id).1, actions ++ (r.snatched now bookmark.id).2)
      else (r, actions)) (r, [])

def Records.newBookmarks (r : Records) (bookmarks : List Bookmark) : List (MamTorrentId × Desired) :=
  (bookmarks.filter fun bookmark => !r.knows bookmark.id).map fun bookmark =>
    (bookmark.id, match bookmark.snatched with
      | .before => .snatched
      | .never => .queued)

/-- Record new bookmarks once the listing is complete, and act on what it shows
about running downloads. -/
def Mam.listed (page : BookmarkPage) (registry : Registry) : Mam × Registry × List Action :=
  let (bookmarks, listed) := m.acquisition.bookmarks.page now.monotonic now.wall page
  let m : Mam := { m with acquisition.bookmarks := bookmarks }
  match listed, registry with
  | some listed, .loaded records =>
    let (records, snatched) := records.snatchedAll now.monotonic listed.bookmarks
    let (records, bookmarked) := records.bookmarked now.monotonic (records.newBookmarks listed.bookmarks)
    let (m, registry, actions) := m.followDownloads now (.loaded records)
    (m, registry, snatched ++ bookmarked ++ actions)
  | _, registry => (m, registry, [])

def Mam.bookmarksAnswered (result : Except MamFailure MamReply) (registry : Registry) :
    Mam × Registry × List Action :=
  match result with
  | .ok (.bookmarks page) => m.listed now page registry
  | .error failure =>
    ({ m with acquisition.bookmarks := m.acquisition.bookmarks.failed now.monotonic failure },
      registry, [])
  | _ => (m, registry, [])

/-- Apply an answer; one to a request of an earlier connection counts only where
it records a spend. -/
def Mam.applyAnswer (request : MamRequest) (result : Except MamFailure MamReply) (current : Bool)
    (registry : Registry) : Mam × Registry × List Action :=
  match request, current with
  | .buy purchase, _ => (m.purchased now purchase result, registry, [])
  | .fetchTorrent id wedge, _ => m.fetched now id wedge result registry
  | .lookUpIp, true => (m.ipAnswered now result, registry, [])
  | .registerSeedbox, true => (m.registrationAnswered now result, registry, [])
  | .loadUserData _, true => m.userDataAnswered now result registry
  | .wedgeHistory, true => m.historyAnswered now result registry
  | .lookUpTorrent id, true => m.torrentAnswered now id result registry
  | .listBookmarks _, true => m.bookmarksAnswered now result registry
  | _, false => (m, registry, [])

def Mam.answered (request : MamRequest) (result : Except MamFailure MamReply) (current : Bool)
    (registry : Registry) : Mam × Registry × List Action :=
  (if current && request.needsCookie then m.followSession now request result else m).applyAnswer
    now request result current registry

/-! ## Events -/

def Mam.ratioUseChecked (registry : Registry) : Mam × Registry × List Action :=
  match m.ratioGuard.checked (m.account.data.map (·.downloaded)) with
  | (ratioGuard, some guard) =>
    let m : Mam := { m with ratioGuard := ratioGuard, notices := m.notices ++ [.ratioUseChecked] }
    let (m, registry, actions) := m.followDownloads now registry
    (m, registry, .saveRatioGuard guard :: actions)
  | (_, none) => (m, registry, [])

/-- The saved attempt is sent, on the connection it was decided on. -/
def Mam.registrationAttemptSaved : Mam × List Action :=
  match m.outstanding with
  | some (.savingRegistration at' cookie epoch) =>
    let m : Mam := { m with outstanding := none, seedbox := m.seedbox.saved at' }
    if epoch ≠ m.epoch then (m, [])
    else
      ({ m with outstanding := some (.request .registerSeedbox now.monotonic epoch) },
        [.mamRequest .registerSeedbox (some cookie)])
  | _ => (m, [])

def Mam.registrationAttemptSaveFailed : Mam :=
  match m.outstanding with
  | some (.savingRegistration ..) =>
    { m with outstanding := none, seedbox := m.seedbox.saveFailed now.wall }
  | _ => m

def Mam.purchaseChecked (sale : Sale) : Mam :=
  let (account, purchase) := m.account.checked sale
  { m with
    account := account
    notices := m.notices ++ (purchase.map fun purchase => .purchaseSettled purchase sale).toList }

def Mam.requestAnswered (result : Except MamFailure MamReply) (rotated : Option ApiCookie)
    (registry : Registry) : Mam × Registry × List Action × Option ApiCookie :=
  match m.outstanding with
  | some (.request request _ epoch) =>
    let current := epoch == m.epoch
    let (m, registry, actions) :=
      { m with outstanding := none }.answered now request result current registry
    let rotated := rotated.filter fun _ => current && request.needsCookie
    ({ m with issuedCookie := rotated <|> m.issuedCookie }, registry, actions, rotated)
  | _ => (m, registry, [], none)

/-- Handle an event; a new cookie MAM issued, for settings to save, comes back
separately. -/
def Mam.handle (event : MamEvent) (registry : Registry) :
    Mam × Registry × List Action × Option ApiCookie :=
  match event with
  | .enable => ({ m with hosts := .configured, network := m.network.sent now.monotonic }, registry,
      [], none)
  | .stateRead lastRegistration lastReminder ratioGuard =>
    ({ m with
       seedbox.lastAttempt := .known lastRegistration
       lastReminder := .known lastReminder
       ratioGuard := RatioGuard.restored ratioGuard }, registry, [], none)
  | .stateReadFailed =>
    ({ m with seedbox.lastAttempt := .readFailed, lastReminder := .readFailed,
              ratioGuard := .readFailed },
      registry, [], none)
  | .ratioUseChecked =>
    let (m, registry, actions) := m.ratioUseChecked now registry
    (m, registry, actions, none)
  | .registrationAttemptSaved =>
    let (m, actions) := m.registrationAttemptSaved now
    (m, registry, actions, none)
  | .registrationAttemptSaveFailed => (m.registrationAttemptSaveFailed now, registry, [], none)
  | .reminderSaved | .reminderSaveFailed | .ratioGuardSaved | .ratioGuardSaveFailed =>
    (m, registry, [], none)
  | .purchaseChecked sale => (m.purchaseChecked sale, registry, [], none)
  | .answered result rotated => m.requestAnswered now result rotated registry

/-! ## Following the rest of the core -/

/-- Pause or lost protection: work in progress is dropped, and the session and
registration need confirming again. -/
def Mam.disconnect : Mam :=
  { m with
    epoch := m.epoch + 1
    session := .unverified
    network := m.network.unconfirm
    seedbox := m.seedbox.unconfirm
    confirmedDownloadIp := none
    acquisition.newlyFetched := ∅
    acquisition.reapproved := ∅ }

def Mam.gateFor (context : Context) : RequestGate :=
  if m.hosts = .configured ∧ context.requests = .running ∧ context.protection = .isProtected then .open'
  else .closed

/-- Open or close the request gate; closing it disconnects. -/
def Mam.followGate (context : Context) : Mam :=
  if m.gate = .open' ∧ m.gateFor context = .closed then { m.disconnect with gate := .closed }
  else { m with gate := m.gateFor context }

def Mam.replaceCookie (requested : Option ApiCookie) : Mam :=
  { m with
    cookieInUse := requested
    issuedCookie := none
    epoch := m.epoch + 1
    session := .unverified
    seedbox := m.seedbox.unconfirm
    confirmedDownloadIp := none
    acquisition.refused := none
    acquisition.newlyFetched := ∅
    acquisition.reapproved := ∅ }

/-- A cookie the owner supplied replaces the session; one MAM issued continues
it. -/
def Mam.followCookie (context : Context) : Mam :=
  if context.requestedCookie ≠ m.cookieInUse ∧ context.requestedCookie ≠ m.issuedCookie then
    m.replaceCookie context.requestedCookie
  else if context.cookie.isSome ∧ context.cookie = m.issuedCookie then
    { m with cookieInUse := m.issuedCookie, issuedCookie := none }
  else m

/-- Whether the latest reading says MAM cannot reach qBittorrent. -/
def Mam.unreachable (running : Option ClientVersion) : Bool :=
  ((m.account.data.bind (·.summary)).any fun summary => summary.connectable == .no) ||
    running.any fun running =>
      (m.account.runningClient running).any fun client => client.connectable == some .no

/-- When MAM cannot reach qBittorrent, check the connection, ask for a new
lease, and observe and register again when allowed. -/
def Mam.followConnectability (context : Context) : Mam :=
  let reading := m.account.reading.map fun reading => (reading.taken, m.unreachable context.clientVersion)
  let (connectability, repair) := m.connectability.follow reading
  if repair then
    let observed := m.network.current
    let findings := Findings.check context.connection (observed.map (·.ip)) (m.seedbox.confirms observed)
    { m with
      lease := findings.lease
      connectability := .repaired now.monotonic now.wall findings
      network := m.network.unconfirm
      seedbox := m.seedbox.unconfirm }
  else { m with connectability := connectability }

/-- Note what is known about each running download; how many qBittorrent added
in the last hour, or will add. -/
def Mam.watchDownloads (registry : Registry) : Mam × UnsatisfiedCount :=
  match registry with
  | .loaded records =>
    ({ m with
       acquisition.newlyFetched := m.acquisition.newlyFetched.filter fun id =>
         (records.findMam id).any fun record => record.desired == .active && record.observation.isNone
       acquisition.watched := m.watchAll now records },
      min (records.downloads.filter fun download => download.recent now.wall).length u32Max)
  | _ => ({ m with acquisition.watched := [] }, 0)

def Registry.downloading (r : Registry) : TorrentCount :=
  match r with
  | .loaded records => TorrentCount.counting (records.downloads.filter Download.isDownloading)
  | _ => 0

/-- Remind the owner weekly to visit MAM; the first reminder comes a week after
the count starts. -/
def Mam.remind : Mam × List Action :=
  let remembered : Mam := { m with lastReminder := .known (some now.wall) }
  match m.lastReminder with
  | .unread | .reading => (m, [])
  | .known none | .readFailed => (remembered, [.saveReminder now.wall])
  | .known (some last) =>
    if (last.checkedAdd reminderEvery).any fun due => due ≤ now.wall then
      ({ remembered with notices := m.notices ++ [.mamVisitReminder] }, [.saveReminder now.wall])
    else (m, [])

/-! ## Choosing and sending a request -/

inductive MamWanted
  | register
  | request (request : MamRequest)
deriving DecidableEq

def acquisitionRequest : Next → Option MamRequest
  | .fetch id wedge => some (.fetchTorrent id wedge)
  | .lookUp id => some (.lookUpTorrent id)
  | .needHistory => some .wedgeHistory
  | .idle | .needReading | .hold _ => none

def Next.isLookUp : Next → Bool
  | .lookUp _ => true
  | _ => false

/-- The request for `next` alone; a due listing comes before a lookup. -/
def singleRequest (listing : Option BookmarkCount) (next : Next) : Option MamRequest :=
  if next.isLookUp && listing.isSome then none else acquisitionRequest next

/-- What the step has decided before it sends anything. -/
structure Plan where
  cookie : Option ApiCookie
  watching : Next
  next : Next
  early : Bool

/-- The watch over running downloads comes before purchases, and admission after
them. -/
def Mam.wantedWork (reserve : Option Points) (plan : Plan) : Option MamRequest :=
  let listing := m.acquisition.bookmarks.wanted now.monotonic
  if plan.watching.isLookUp && listing.isSome then listing.map .listBookmarks
  else
    singleRequest listing plan.watching <|>
      ((reserve.bind fun reserve => m.account.wantedPurchase now.monotonic now.wall reserve).map .buy) <|>
      singleRequest listing plan.next <|> listing.map .listBookmarks

/-- The most urgent request wanted now. The session is locked to an ASN, so it is
used only once MAM has shown which IP it sees. -/
def Mam.wanted (reserve : Option Points) (plan : Plan) : Option MamWanted :=
  if m.network.due now.monotonic then some (.request .lookUpIp)
  else if plan.cookie.isNone || m.network.current.isNone then none
  else if m.seedbox.wanted now.wall m.network.current then some .register
  else
    match m.account.wanted now.monotonic plan.early with
    | some clients => some (.request (.loadUserData clients))
    | none => (m.wantedWork now reserve plan).map .request

def Mam.recordSent (request : MamRequest) (registry : Registry) : Mam :=
  match request with
  | .lookUpIp => { m with network := m.network.sent now.monotonic }
  | .loadUserData _ => { m with account := m.account.requested now.monotonic }
  | .buy purchase => { m with account := m.account.buying purchase now.monotonic now.wall }
  | .fetchTorrent id wedge =>
    { m with acquisition := m.acquisition.fetch now.monotonic id wedge (registry.isQueued id) }
  | _ => m

/-- Send what is wanted, if nothing is outstanding and a token is left; a
registration is saved before it is sent. -/
def Mam.send (context : Context) (plan : Plan) : Mam × List Action :=
  if m.gate = .open' ∧ m.outstanding = none then
    match m.wanted now context.reserve plan, plan.cookie, m.budget.take now.monotonic with
    | some .register, some cookie, some budget =>
      ({ m with budget := budget, outstanding := some (.savingRegistration now.wall cookie m.epoch) },
        [.saveRegistrationAttempt now.wall])
    | some (.request request), cookie, some budget =>
      ({ (m.recordSent now request context.registry) with
         budget := budget
         outstanding := some (.request request now.monotonic m.epoch) },
        [.mamRequest request (cookie.filter fun _ => request.needsCookie)])
    | _, _, _ => (m, [])
  else (m, [])

def Mam.wakeDue (early : Bool) : Option Instant :=
  let monotonic (at' : SystemTime) := now.monotonic.checkedAdd ((at'.durationSince now.wall).getD 0)
  let reminder :=
    match m.lastReminder with
    | .known (some last) => (last.checkedAdd reminderEvery).bind monotonic
    | _ => none
  let registration :=
    match m.seedbox.allowance now.wall with
    | .after at' => monotonic at'
    | .now | .unknown => none
  let work :=
    if m.gate = .open' ∧ m.outstanding = none then
      [m.network.nextDue, registration, m.account.nextDue early, m.acquisition.bookmarks.nextDue,
        m.acquisition.nextDue, m.budget.nextToken now.monotonic]
    else []
  minOf ((reminder :: work).map fun due => due.filter fun due => now.monotonic < due)

/-- Wake the core when the earliest wanted work becomes due. -/
def Mam.scheduleWake (early : Bool) (timers : Timers) : Mam × Timers × List Action :=
  match m.wakeDue now early with
  | none => (m, timers, [])
  | some due =>
    if m.wake.any fun (_, at') => at' == due then (m, timers, [])
    else
      let (timers, id, deadline) := timers.schedule now.monotonic (due.durationSince now.monotonic)
      ({ m with wake := some (id, due) }, timers, [.startTimer .mam id deadline])

def Mam.usableCookie (context : Context) : Option ApiCookie :=
  context.cookie.filter fun _ => !m.session.blocks m.network.current

/-- Follow the running client, MAM's view of the connection and the running
downloads. -/
def Mam.survey (context : Context) : Mam × UnsatisfiedCount :=
  let m : Mam := { m with client := m.account.clientStanding context.clientVersion }
  let watched := (m.followConnectability now context).watchDownloads now context.registry
  ({ watched.1 with
     account := watched.1.account.setPace (if context.registry.downloading =
       0 then .routine else .downloading) },
    watched.2)

def Mam.facts (context : Context) (cookie : Option ApiCookie) (observed : Option IpObservation)
    (recent : UnsatisfiedCount) : Facts where
  now := now.monotonic
  wall := now.wall
  gate := if cookie.isSome then m.gate else .closed
  seedbox := m.seedbox.confirms observed
  readiness := context.readiness
  client := m.client
  recent := recent
  downloading := context.registry.downloading
  downloadingLimit := context.downloadingLimit
  ratioGuard := m.ratioGuard
  account := m.account

def Mam.plan (context : Context) (cookie : Option ApiCookie) (observed : Option IpObservation)
    (recent : UnsatisfiedCount) : Plan :=
  let next :=
    match context.registry with
    | .loaded records => m.acquisition.next records.queued (m.facts now context cookie observed recent)
    | _ => .idle
  let watching := m.acquisition.watchNext m.account now.monotonic
  { cookie := cookie
    watching := watching
    next := next
    -- an uncertain purchase is settled by the next reading, which comes early
    early := next == .needReading || watching == .needReading || m.account.purchaseUncertain }

def Mam.noteHold (next : Next) : Mam :=
  { m with
    acquisition.hold :=
      match next with
      | .hold hold => some hold
      | .needReading => if m.account.reading.isNone then some .accountUnknown else none
      | _ => none }

/-- MAM work once the gate and the cookie are followed. -/
def Mam.connect (context : Context) : Mam := ((m.remind now).1.followGate context).followCookie context

/-- MAM work once everything but the request is decided, and what is wanted. -/
def Mam.prepare (context : Context) : Mam × Plan :=
  let connected := m.connect now context
  let surveyed := connected.survey now context
  let plan := surveyed.1.plan now context (connected.usableCookie context) connected.network.current
    surveyed.2
  (surveyed.1.noteHold plan.next, plan)

/-- Choose and send the next request, if one is wanted and allowed. -/
def Mam.decide (context : Context) (timers : Timers) : Mam × Timers × List Action :=
  let prepared := m.prepare now context
  let sent := prepared.1.send now context prepared.2
  let waiting := sent.1.scheduleWake now prepared.2.early timers
  (waiting.1, waiting.2.1, (m.remind now).2 ++ sent.2 ++ waiting.2.2)

end

end Windlass
