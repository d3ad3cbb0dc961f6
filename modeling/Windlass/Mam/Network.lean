import Windlass.Registry

/-!
# The session, the IP MAM sees, the request budget and the ratio guard

`core/mam/network.rs`, `core/mam/budget.rs`, `core/mam/ratio_guard.rs` and
`core/mam/connectability.rs`.
-/

namespace Windlass

/-! ## The API session -/

def observeEvery : Duration := Duration.fromMins 5

def lookupSpacing : Duration := Duration.fromMins 1

def registrationSpacing : Duration := Duration.fromHours 1

inductive MamSession
  | unverified
  | verified (at' : SystemTime)
  | rejected (rejection : SessionRejection) (seen : Option (IpAddr × Asn)) (at' : SystemTime)
deriving DecidableEq

/-- Whether requests that need the cookie must wait. -/
def MamSession.blocks (s : MamSession) (observed : Option IpObservation) : Bool :=
  match s with
  | .rejected rejection seen _ =>
    match rejection with
    | .asnMismatch => observed.all fun now => seen.any fun (_, asn) => asn == now.asn
    | .ipMismatch => observed.all fun now => seen.any fun (ip, _) => ip == now.ip
    | .invalidCookie | .notAllowed | .other => true
  | .unverified | .verified _ => false

/-! ## Observing the IP -/

inductive IpStanding
  | current | unconfirmed
deriving DecidableEq

structure Observed where
  observation : IpObservation
  at' : SystemTime
  standing : IpStanding
deriving DecidableEq

structure Network where
  observed : Option Observed
  nextLookup : Option Instant
  failures : FailureCount
  lastFailure : Option MamFailure
  lastSent : Option Instant
deriving DecidableEq

def Network.new : Network :=
  { observed := none
    nextLookup := none
    failures := FailureCount.none
    lastFailure := none
    lastSent := none }

def Network.current (n : Network) : Option IpObservation :=
  (n.observed.filter fun observed => observed.standing == .current).map (·.observation)

def Network.due (n : Network) (now : Instant) : Bool :=
  (n.nextLookup.all fun next => next ≤ now) &&
    n.lastSent.all fun sent => lookupSpacing ≤ now.durationSince sent

def Network.nextDue (n : Network) : Option Instant :=
  match n.nextLookup, n.lastSent.bind fun sent => sent.checkedAdd lookupSpacing with
  | some next, some spaced => some (max next spaced)
  | some next, none => some next
  | none, spaced => spaced

def Network.sent (n : Network) (now : Instant) : Network := { n with lastSent := some now }

def Network.observe (n : Network) (now : Instant) (wall : SystemTime)
    (observation : IpObservation) : Network :=
  { n with
    observed := some { observation := observation, at' := wall, standing := .current }
    failures := FailureCount.none
    lastFailure := none
    nextLookup := now.checkedAdd observeEvery }

/-- How long to wait after a failure: `base`, or what MAM asked if longer. -/
def MamFailure.wait (failure : MamFailure) (base : Duration) : Duration :=
  match failure with
  | .tooSoon (some after) => max base after
  | _ => base

def Network.failed (n : Network) (now : Instant) (failure : MamFailure) : Network :=
  { n with
    failures := n.failures.afterAnother
    lastFailure := some failure
    nextLookup := now.checkedAdd (failure.wait observeEvery) }

/-- The connection may have changed: observe again as soon as allowed. -/
def Network.unconfirm (n : Network) : Network :=
  { n with
    observed := n.observed.map fun observed => { observed with standing := .unconfirmed }
    nextLookup := none }

/-! ## The seedbox registration -/

inductive LastAttempt
  | unread
  | reading
  | known (last : Option SystemTime)
  | readFailed
deriving DecidableEq

inductive RegistrationFailure
  | mam (failure : MamFailure)
  | notSaved
deriving DecidableEq

inductive SeedboxStatus
  | unconfirmed
  | confirmed (ip : IpAddr) (at' : SystemTime)
  | failed (failure : RegistrationFailure) (at' : SystemTime)
deriving DecidableEq

inductive RegistrationAllowance
  | now
  | after (at' : SystemTime)
  | unknown
deriving DecidableEq

structure Seedbox where
  lastAttempt : LastAttempt
  status : SeedboxStatus
  notBefore : Option SystemTime
deriving DecidableEq

def Seedbox.new : Seedbox := { lastAttempt := .unread, status := .unconfirmed, notBefore := none }

/-- The later of two times, either of which may be absent. -/
def laterOf : Option SystemTime → Option SystemTime → Option SystemTime
  | some a, some b => some (max a b)
  | some a, none => some a
  | none, b => b

def Seedbox.allowance (s : Seedbox) (now : SystemTime) : RegistrationAllowance :=
  match s.lastAttempt with
  | .known last =>
    match laterOf (last.bind fun last => last.checkedAdd registrationSpacing) s.notBefore with
    | some allowed => if now < allowed then .after allowed else .now
    | none => .now
  | .unread | .reading | .readFailed => .unknown

def Seedbox.confirms (s : Seedbox) (observed : Option IpObservation) : SeedboxConfirmation :=
  match s.status, observed with
  | .confirmed ip _, some observed => if ip = observed.ip then .confirmed else .unconfirmed
  | _, _ => .unconfirmed

def Seedbox.refused (s : Seedbox) : Bool :=
  match s.status with
  | .failed (.mam (.session .notAllowed)) _ => true
  | _ => false

def Seedbox.wanted (s : Seedbox) (now : SystemTime) (observed : Option IpObservation) : Bool :=
  observed.isSome && s.confirms observed == .unconfirmed && !s.refused && s.allowance now == .now

def Seedbox.saved (s : Seedbox) (at' : SystemTime) : Seedbox :=
  { s with lastAttempt := .known (some at') }

def Seedbox.saveFailed (s : Seedbox) (now : SystemTime) : Seedbox :=
  { s with status := .failed .notSaved now }

def Seedbox.confirmed (s : Seedbox) (ip : IpAddr) (now : SystemTime) : Seedbox :=
  { s with status := .confirmed ip now, notBefore := none }

def Seedbox.failed (s : Seedbox) (failure : MamFailure) (now : SystemTime) : Seedbox :=
  { s with
    status := .failed (.mam failure) now
    notBefore :=
      match failure with
      | .tooSoon (some after) => now.checkedAdd after
      | _ => s.notBefore }

def Seedbox.unconfirm (s : Seedbox) : Seedbox := { s with status := .unconfirmed }

/-! ## The token bucket -/

abbrev Tokens := Nat

def requestBurst : Tokens := 10

def requestRefill : Duration := Duration.fromSecs 3

structure Budget where
  tokens : Tokens
  refilledAt : Option Instant
deriving DecidableEq

def Budget.new : Budget := { tokens := requestBurst, refilledAt := none }

def Tokens.restoring (t : Tokens) (restored : Nat) : Tokens := min (satAdd u32Max t restored) requestBurst

/-- The tokens after restoring those due by `now`, and when the last was
restored; a full bucket has no restoring in progress. -/
def Budget.refilled (b : Budget) (now : Instant) : Tokens × Option Instant :=
  match b.refilledAt with
  | none => (b.tokens, none)
  | some refilledAt =>
    let restored := min ((now.durationSince refilledAt).asSecs / requestRefill.asSecs) u32Max
    let tokens := b.tokens.restoring restored
    if tokens = requestBurst then (tokens, none)
    else (tokens, refilledAt.checkedAdd (requestRefill * restored))

def Budget.take (b : Budget) (now : Instant) : Option Budget :=
  match b.refilled now with
  | (0, _) => none
  | (left + 1, refilledAt) => some { tokens := left, refilledAt := some (refilledAt.getD now) }

def Budget.nextToken (b : Budget) (now : Instant) : Option Instant :=
  match b.refilled now with
  | (0, some refilledAt) => refilledAt.checkedAdd requestRefill
  | _ => none

/-! ## The watch over ratio use -/

inductive RatioGuard
  | reading
  | readFailed
  | watching (downloaded : Option ByteSize)
  | tripped (used : RatioUse)
deriving DecidableEq

inductive Seen
  | unchanged
  | rebased (guard : SavedRatioGuard)
  | tripped (used : RatioUse)
deriving DecidableEq

def RatioGuard.restored : SavedRatioGuard → RatioGuard
  | .unset => .watching none
  | .watching downloaded => .watching (some downloaded)
  | .tripped used => .tripped used

def RatioGuard.permitsDownloads : RatioGuard → Bool
  | .watching _ => true
  | .reading | .readFailed | .tripped _ => false

/-- A rise trips the guard; a fall becomes the figure to watch from. -/
def RatioGuard.observe (g : RatioGuard) (downloaded : ByteSize) (at' : SystemTime) : RatioGuard × Seen :=
  match g with
  | .watching (some before) =>
    if before < downloaded then
      let used : RatioUse := { before := before, after := downloaded, at' := at' }
      (.tripped used, .tripped used)
    else if downloaded = before then (g, .unchanged)
    else (.watching (some downloaded), .rebased (.watching downloaded))
  | .watching none => (.watching (some downloaded), .rebased (.watching downloaded))
  | g => (g, .unchanged)

def RatioGuard.checked (g : RatioGuard) (latest : Option ByteSize) :
    RatioGuard × Option SavedRatioGuard :=
  match g with
  | .tripped used =>
    (.watching (some (latest.getD used.after)), some (.watching (latest.getD used.after)))
  | g => (g, none)

/-! ## Keeping qBittorrent connectable -/

def repairSettlesAfter : Duration := Duration.fromMins 30

structure Connection where
  listenPort : Option Port
  forwardedPort : Option Port
  tunnelIp : Option IpAddr
  interface : Option String
deriving DecidableEq

def Findings.check (connection : Connection) (mamIp : Option IpAddr) (seedbox : SeedboxConfirmation) :
    Findings where
  listenPort :=
    match connection.listenPort, connection.forwardedPort with
    | _, none => .noForwardedPort
    | some listening, some forwarded =>
      if listening = forwarded then .matches' forwarded else .differs (some listening) forwarded
    | none, some forwarded => .differs none forwarded
  lease := if connection.forwardedPort.isSome then .requested else .notRequested
  exitIp :=
    match mamIp, connection.tunnelIp with
    | some mam, some tunnel => if mam = tunnel then .matches' mam else .differs mam tunnel
    | _, _ => .unknown
  seedbox := seedbox
  interface := connection.interface

inductive Connectability
  | fine
  | repaired (at' : Instant) (wall : SystemTime) (findings : Findings)
  | unresolved (repaired : SystemTime) (findings : Findings)
deriving DecidableEq

/-- Follow the latest reading: when it was taken and whether MAM could not reach
qBittorrent. Whether a repair is wanted now. -/
def Connectability.follow (c : Connectability) (reading : Option (Instant × Bool)) :
    Connectability × Bool :=
  match reading with
  | none => (c, false)
  | some (taken, unreachable) =>
    match c with
    | .fine => (.fine, unreachable)
    | .repaired at' wall findings =>
      if (at'.checkedAdd repairSettlesAfter).any fun settled => settled ≤ taken then
        (if unreachable then .unresolved wall findings else .fine, false)
      else (c, false)
    | .unresolved .. => (if unreachable then c else .fine, false)

end Windlass
