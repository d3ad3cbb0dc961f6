import Windlass.Mam.Network

/-!
# The account and bonus point spending

`core/mam/account.rs`: readings of the account, when the next is wanted, and
purchases with their outcomes.
-/

namespace Windlass

def accountReadEvery : Duration := Duration.fromMins 15

def accountReadWhileDownloading : Duration := Duration.fromMins 5

def clientStatsEvery : Duration := Duration.fromMins 30

def accountFreshFor : Duration := Duration.fromMins 5

def unsatisfiedReserve : UnsatisfiedCount := 2

def ratioFloor : Ratio := 2000

def ratioUrgent : Ratio := 1100

def vipRenewWithin : Duration := Duration.fromHours (14 * 24)

def vipWarnWithin : Duration := Duration.fromHours (7 * 24)

def vipFill : Duration := Duration.fromHours (90 * 24)

def vipPricePerWeek : Points := 1250

def refusalBackoff : Duration := Duration.fromHours 6

def earlyReadSpacing : Duration := Duration.fromMins 1

def week : Duration := Duration.fromHours (7 * 24)

structure Reading where
  data : UserData
  at' : SystemTime
  taken : Instant
deriving DecidableEq

structure ClientList where
  clients : List ListedClient
  at' : SystemTime
deriving DecidableEq

inductive SettledBy
  | reading | owner
deriving DecidableEq

inductive PurchaseOutcome
  | made (points : Points)
  | refused (message : Option String)
  | uncertain
  | settled (sale : Sale) (settledBy : SettledBy)
  | unresolved
deriving DecidableEq

/-- What a purchase can change, as the reading before it showed. -/
structure Before where
  points : Points
  vipUntil : Option SystemTime
deriving DecidableEq

/-- VIP time bought at once, in hundredths of a week. -/
abbrev VipWeeks := Nat

structure PurchaseRecord where
  purchase : Purchase
  at' : SystemTime
  outcome : Option PurchaseOutcome
  sent : Instant
  before : Option Before
  vipWeeks : Option VipWeeks
deriving DecidableEq

inductive ReadPace
  | routine | downloading
deriving DecidableEq

structure Account where
  reading : Option Reading
  nextRead : Option Instant
  failures : FailureCount
  lastFailure : Option MamFailure
  lastPurchase : Option PurchaseRecord
  vipPricePerWeek : Points
  clientList : Option ClientList
  clientStatsRead : Option Instant
  lastRequest : Option Instant
  pace : ReadPace
  refused : Option Instant
deriving DecidableEq

def Account.new : Account :=
  { reading := none
    nextRead := none
    failures := FailureCount.none
    lastFailure := none
    lastPurchase := none
    vipPricePerWeek := Windlass.vipPricePerWeek
    clientList := none
    clientStatsRead := none
    lastRequest := none
    pace := .routine
    refused := none }

structure Attention where
  partials : Partials
  trackerErrors : TorrentCount
  flagged : TorrentCount
deriving DecidableEq

def Attention.any (a : Attention) : Bool := a.partials == .seen || a.trackerErrors != 0 || a.flagged != 0

/-! ## Readings -/

def Account.data (a : Account) : Option UserData := a.reading.map (·.data)

def Account.fresh (a : Account) (now : Instant) (since : Option Instant) : Option UserData :=
  (a.reading.filter fun reading =>
    now.durationSince reading.taken ≤ accountFreshFor && since.all fun since => since < reading.taken).map
    (·.data)

/-- When the next routine reading is due; now when absent. While a download
runs, a reading is due five minutes after the last. -/
def Account.routineDue (a : Account) : Option Instant :=
  let downloading :=
    match a.pace with
    | .downloading => a.reading.bind fun reading => reading.taken.checkedAdd accountReadWhileDownloading
    | .routine => none
  a.nextRead.map fun next => (downloading.map fun downloading => min next downloading).getD next

def Account.wanted (a : Account) (now : Instant) (early : Bool) : Option ClientListing :=
  if a.lastFailure.isSome && a.nextRead.any fun retryAt => now < retryAt then none
  else
    let routine := a.routineDue.all fun next => next ≤ now
    let early := early && a.lastRequest.all fun last => earlyReadSpacing ≤ now.durationSince last
    if routine || early then
      if a.clientStatsRead.all fun read => clientStatsEvery ≤ now.durationSince read then some .include'
      else some .omit
    else none

def Account.requested (a : Account) (now : Instant) : Account := { a with lastRequest := some now }

def Account.nextDue (a : Account) (early : Bool) : Option Instant :=
  if a.lastFailure.isSome then a.nextRead
  else
    let early := if early then a.lastRequest.bind fun last => last.checkedAdd earlyReadSpacing else none
    match a.routineDue, early with
    | some next, some early => some (min next early)
    | some next, none => some next
    | none, early => early

def Account.setPace (a : Account) (pace : ReadPace) : Account := { a with pace := pace }

/-- Times before none, as `Option` orders them. -/
def laterVip (after before : Option SystemTime) : Bool :=
  match after, before with
  | some after, some before => before < after
  | some _, none => true
  | none, _ => false

/-- Settle an uncertain purchase from the reading after it: VIP that ends later
means MAM sold it; points that were not spent mean it did not. -/
def Account.settle (a : Account) (after : UserData) : Account × Option (Purchase × PurchaseOutcome) :=
  match a.lastPurchase with
  | some record =>
    if record.outcome = some .uncertain then
      let made := record.before.bind fun before =>
        match record.purchase with
        | .vip =>
          if laterVip after.vipUntil before.vipUntil then some Sale.made
          else if after.points < before.points then none
          else some Sale.notMade
      let outcome : PurchaseOutcome :=
        match made with
        | some sale => .settled sale .reading
        | none => .unresolved
      ({ a with lastPurchase := some { record with outcome := some outcome } },
        some (record.purchase, outcome))
    else (a, none)
  | none => (a, none)

def Account.read (a : Account) (now : Instant) (wall : SystemTime) (data : UserData) :
    Account × Option (Purchase × PurchaseOutcome) :=
  let (a, settled) := a.settle data
  ({ a with
     clientStatsRead := if data.clients.isSome then some now else a.clientStatsRead
     clientList :=
       match data.clients with
       | some clients => some { clients := clients, at' := wall }
       | none => a.clientList
     reading := some { data := data, at' := wall, taken := now }
     failures := FailureCount.none
     lastFailure := none
     nextRead := now.checkedAdd accountReadEvery }, settled)

def Account.failed (a : Account) (now : Instant) (failure : MamFailure) : Account :=
  { a with
    failures := a.failures.afterAnother
    lastFailure := some failure
    nextRead := now.checkedAdd (failure.wait accountFreshFor) }

/-- The owner checked an unresolved purchase on MAM. -/
def Account.checked (a : Account) (sale : Sale) : Account × Option Purchase :=
  match a.lastPurchase with
  | some record =>
    if record.outcome = some .unresolved then
      ({ a with lastPurchase := some { record with outcome := some (.settled sale .owner) } },
        some record.purchase)
    else (a, none)
  | none => (a, none)

def Account.purchaseUncertain (a : Account) : Bool :=
  a.lastPurchase.any fun record => record.outcome == some .uncertain

def Account.unresolvedPurchase (a : Account) : Option Purchase :=
  (a.lastPurchase.filter fun record => record.outcome == some .unresolved).map (·.purchase)

/-! ## What readings show -/

def Account.runningClient (a : Account) (running : ClientVersion) : List ListedClient :=
  match a.clientList with
  | some list => list.clients.filter fun client => client.qbittorrent == some running
  | none => []

def Account.clientStanding (a : Account) (running : Option ClientVersion) : ClientStanding :=
  match a.clientList, running with
  | some list, some running =>
    if (a.runningClient running).any fun client => client.refusal == .refused then .refused
    else if a.runningClient running ≠ [] then .listed
    else if list.clients.isEmpty then .noneListed
    else if list.clients.all fun client => client.qbittorrent.isNone then .notUnderstood
    else .notListed
  | _, _ => .unknown

def Account.ratioLow (a : Account) : Option (Ratio × Urgency) :=
  ((a.data.bind UserData.ratio).filter fun ratio => ratio < ratioFloor).map fun ratio =>
    (ratio, if ratio < ratioUrgent then .urgent else .normal)

def Account.unsatisfiedNearLimit (a : Account) : Option (UnsatisfiedCount × UnsatisfiedLimit) :=
  (a.data.bind (·.summary)).bind fun summary =>
    if UnsatisfiedLimit.nearlyReachedBy summary.unsatisfiedLimit summary.unsatisfied then
      some (summary.unsatisfied, summary.unsatisfiedLimit)
    else none

def Account.notSeedingUnsatisfied (a : Account) : Option TorrentCount :=
  (a.data.bind (·.summary)).map fun summary =>
    summary.unsatisfiedNotSeeding.plus summary.hitAndRunNotSeeding

def Account.attention (a : Account) : Option Attention :=
  (a.data.bind (·.summary)).map fun summary =>
    { partials := summary.partials
      trackerErrors := summary.trackerErrors
      flagged := ((summary.red.filter fun category => category.kind == .other).map (·.count)).foldl
        TorrentCount.plus 0 }

def Account.vipEnding (a : Account) (now : SystemTime) : Option SystemTime :=
  (a.data.bind (·.vipUntil)).bind fun until' =>
    if now < until' && (now.checkedAdd vipWarnWithin).any fun warn =>
      until' ≤ warn then some until' else none

/-! ## Purchases -/

def VipWeeks.cost (w : VipWeeks) (perWeek : Points) : Points := (satMul u64Max w perWeek + 99) / 100

def VipWeeks.pricePerWeek (w : VipWeeks) (spent : Points) : Points := spent.times 100 / max w 1

/-- The VIP time a renewal now buys, when it is due: VIP filled to 90 days, and
at least one week. -/
def vipWeeks (data : UserData) (now : SystemTime) : Option VipWeeks :=
  let remaining := (data.vipUntil.bind fun until' => until'.durationSince now).getD 0
  if vipRenewWithin ≤ remaining then none
  else
    let bought := Duration.asSecs (vipFill - remaining)
    some (max (satMul u64Max bought 100 / week.asSecs) 100)

def Account.vipCost (a : Account) (data : UserData) (now : SystemTime) : Option Points :=
  (vipWeeks data now).map fun weeks => weeks.cost a.vipPricePerWeek

def Account.wantedPurchase (a : Account) (now : Instant) (wall : SystemTime) (reserve : Points) :
    Option Purchase :=
  let since := a.lastPurchase.map (·.sent)
  let waiting := a.lastPurchase.any fun purchase =>
    match purchase.outcome with
    | none | some .uncertain | some .unresolved => true
    | _ => false
  ((a.fresh now since).filter fun _ => !waiting).bind fun data =>
    let backedOff := a.refused.any fun at' => now.durationSince at' < refusalBackoff
    (a.vipCost data wall).bind fun cost =>
      if reserve.plus cost ≤ data.points && !backedOff then some .vip else none

def Account.buying (a : Account) (purchase : Purchase) (now : Instant) (wall : SystemTime) : Account :=
  { a with
    lastPurchase := some
      { purchase := purchase
        at' := wall
        outcome := none
        sent := now
        before := a.data.map fun data => { points := data.points, vipUntil := data.vipUntil }
        vipWeeks := a.data.bind fun data => vipWeeks data wall } }

/-- The price a purchase that went through showed, if it showed one. -/
def PurchaseRecord.pricePaid (record : PurchaseRecord) (outcome : PurchaseOutcome) : Option Points :=
  match outcome, record.purchase, record.before, record.vipWeeks with
  | .made after, .vip, some before, some weeks =>
    let price := weeks.pricePerWeek (before.points.less after)
    if 0 < price then some price else none
  | _, _, _, _ => none

def Account.bought (a : Account) (purchase : Purchase) (now : Instant) (wall : SystemTime)
    (outcome : PurchaseOutcome) : Account :=
  let record := a.lastPurchase.getD
    { purchase := purchase
      at' := wall
      outcome := none
      sent := now
      before := none
      vipWeeks := none }
  { a with
    lastPurchase := some { record with outcome := some outcome }
    vipPricePerWeek := (record.pricePaid outcome).getD a.vipPricePerWeek
    refused :=
      match outcome with
      | .refused _ => some now
      | _ => a.refused }

end Windlass
