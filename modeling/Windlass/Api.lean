import Windlass.Values

/-!
# What Windlass asks MAM, and what MAM answers

The types of `core/mam/api.rs`, and the values of the other MAM modules that
events, actions and notices carry.
-/

namespace Windlass

/-! ## Requests -/

inductive Wedge
  | spend | keep
deriving DecidableEq

inductive ClientListing
  | include' | omit
deriving DecidableEq

inductive Purchase
  | vip
deriving DecidableEq

abbrev BookmarkCount := Nat

inductive MamRequest
  | lookUpIp
  | registerSeedbox
  | loadUserData (clients : ClientListing)
  | listBookmarks (start : BookmarkCount)
  | fetchTorrent (id : MamTorrentId) (wedge : Wedge)
  | buy (purchase : Purchase)
  | wedgeHistory
  | lookUpTorrent (id : MamTorrentId)
deriving DecidableEq

def MamRequest.needsCookie : MamRequest → Bool
  | .lookUpIp => false
  | _ => true

/-! ## Answers -/

abbrev UnsatisfiedCount := Nat

def UnsatisfiedCount.plus (n more : UnsatisfiedCount) : UnsatisfiedCount := satAdd u32Max n more

abbrev UnsatisfiedLimit := Nat

def UnsatisfiedLimit.admitsOneMore (limit : UnsatisfiedLimit) (count reserve : UnsatisfiedCount) : Bool :=
  satAdd u32Max (satAdd u32Max count 1) reserve ≤ limit

def UnsatisfiedLimit.nearlyReachedBy (limit : UnsatisfiedLimit) (count : UnsatisfiedCount) : Bool :=
  0 < limit && limit * 4 ≤ count * 5

abbrev NoticeCount := Nat

def NoticeCount.plus (n other : NoticeCount) : NoticeCount := satAdd u32Max n other

abbrev WedgeCount := Nat

abbrev Asn := Nat

structure IpObservation where
  ip : IpAddr
  asn : Asn
  provider : Option String
deriving DecidableEq

inductive Registration
  | completed | noChange
deriving DecidableEq

inductive Connectable
  | yes | no | offline
  | unrecognised (value : String)
deriving DecidableEq

inductive RedKind
  | notSeeding | other
deriving DecidableEq

structure RedCategory where
  name : String
  kind : RedKind
  count : TorrentCount
deriving DecidableEq

inductive Partials
  | notSeen | seen
deriving DecidableEq

structure SnatchSummary where
  unsatisfied : UnsatisfiedCount
  unsatisfiedLimit : UnsatisfiedLimit
  unsatisfiedNotSeeding : TorrentCount
  hitAndRunNotSeeding : TorrentCount
  partials : Partials
  duplicates : TorrentCount
  trackerErrors : TorrentCount
  connectable : Connectable
  red : List RedCategory
deriving DecidableEq

structure MamNotices where
  messages : NoticeCount
  tickets : NoticeCount
  waitingTickets : NoticeCount
  requests : NoticeCount
  topics : NoticeCount
  aboutToDropClient : NoticeCount
deriving DecidableEq

def MamNotices.total (n : MamNotices) : NoticeCount :=
  ((((n.messages.plus n.tickets).plus n.waitingTickets).plus n.requests).plus n.topics).plus
    n.aboutToDropClient

inductive UserClass
  | mouse | user | powerUser | vip | eliteVip
  | other (name : String)
deriving DecidableEq

inductive ClientRefusal
  | notRefused | refused
deriving DecidableEq

structure ListedClient where
  qbittorrent : Option ClientVersion
  connectable : Option Connectable
  refusal : ClientRefusal
deriving DecidableEq

structure UserData where
  uploaded : ByteSize
  downloaded : ByteSize
  points : Points
  wedges : WedgeCount
  class' : UserClass
  vipUntil : Option SystemTime
  summary : Option SnatchSummary
  notices : Option MamNotices
  clients : Option (List ListedClient)
deriving DecidableEq

def UserData.ratio (d : UserData) : Option Ratio := Ratio.of d.uploaded d.downloaded

def UserData.isVip (d : UserData) (now : SystemTime) : Bool := d.vipUntil.any (now < ·)

inductive VipTorrent
  | no | indefinitely
  | until' (end' : SystemTime)
deriving DecidableEq

def VipTorrent.holdsAt (v : VipTorrent) (time : SystemTime) : Bool :=
  match v with
  | .no => false
  | .indefinitely => true
  | .until' end' => time < end'

inductive Freeleech
  | no | forEveryone
deriving DecidableEq

inductive PersonalFreeleech
  | no | throughVip | throughWedge
deriving DecidableEq

inductive Snatched
  | never | before
deriving DecidableEq

structure Bookmark where
  id : MamTorrentId
  title : String
  vip : VipTorrent
  freeleech : Freeleech
  personal : PersonalFreeleech
  snatched : Snatched
  bookmarkedAt : Option SystemTime
deriving DecidableEq

/-- The number of bookmarks in a list, or `none` past what MAM counts. -/
def BookmarkCount.of (listed : List Bookmark) : Option BookmarkCount :=
  if listed.length ≤ u32Max then some listed.length else none

def BookmarkCount.isReachedBy (n : BookmarkCount) (listed : Nat) : Bool := n ≤ listed

structure BookmarkPage where
  found : BookmarkCount
  bookmarks : List Bookmark
deriving DecidableEq

structure FetchedTorrent where
  hash : TorrentHash
  size : ByteSize
deriving DecidableEq

structure WedgeSpent where
  torrent : MamTorrentId
  at' : SystemTime
deriving DecidableEq

inductive MamReply
  | ip (observation : IpObservation)
  | registered (registration : Registration) (ip : IpAddr)
  | userData (data : UserData)
  | bookmarks (page : BookmarkPage)
  | fetched (torrent : FetchedTorrent)
  | purchased (points : Points)
  | wedgeHistory (spent : List WedgeSpent)
  | torrent (listing : Option Bookmark)
deriving DecidableEq

inductive SessionRejection
  | invalidCookie | ipMismatch | asnMismatch | notAllowed | other
deriving DecidableEq

inductive MamFailure
  | session (rejection : SessionRejection)
  | tooSoon (retryAfter : Option Duration)
  | refused (message : Option String)
  | notKept
  | unreachable
  | rejected (status : HttpStatus)
  | malformed
deriving DecidableEq

/-- Whether MAM may have acted on the request even though it failed. -/
def MamFailure.uncertain : MamFailure → Bool
  | .unreachable | .rejected _ | .malformed | .notKept => true
  | .session _ | .tooSoon _ | .refused _ => false

/-! ## Values of the other MAM modules -/

inductive Sale
  | made | notMade
deriving DecidableEq

inductive ClientStanding
  | unknown | noneListed | listed | notListed | refused | notUnderstood
deriving DecidableEq

def ClientStanding.admits : ClientStanding → Bool
  | .listed | .noneListed => true
  | .unknown | .notListed | .refused | .notUnderstood => false

/-- MAM's downloaded figure rose: something used ratio. -/
structure RatioUse where
  before : ByteSize
  after : ByteSize
  at' : SystemTime
deriving DecidableEq

def RatioUse.counted (u : RatioUse) : ByteSize := u.after - u.before

inductive SavedRatioGuard
  | unset
  | watching (downloaded : ByteSize)
  | tripped (used : RatioUse)
deriving DecidableEq

/-- Why the next queued torrent is not downloaded yet. -/
inductive Hold
  | mamUnavailable
  | seedboxUnconfirmed
  | downloadsRefused
  | clientUnavailable
  | mamClientList (standing : ClientStanding)
  | downloadingLimit (downloading : TorrentCount) (limit : DownloadingLimit)
  | accountUnknown
  | ratioLow
  | unsatisfiedLimit (count : UnsatisfiedCount) (limit : UnsatisfiedLimit)
  | noWedge
  | ratioUsed
  | ratioGuardUnknown
  | notBookmarked
deriving DecidableEq

inductive PortFinding
  | matches' (port : Port)
  | differs (listening : Option Port) (forwarded : Port)
  | noForwardedPort
deriving DecidableEq

inductive IpFinding
  | matches' (ip : IpAddr)
  | differs (mam tunnel : IpAddr)
  | unknown
deriving DecidableEq

inductive LeaseRenewal
  | requested | notRequested
deriving DecidableEq

inductive SeedboxConfirmation
  | confirmed | unconfirmed
deriving DecidableEq

structure Findings where
  listenPort : PortFinding
  lease : LeaseRenewal
  exitIp : IpFinding
  seedbox : SeedboxConfirmation
  interface : Option String
deriving DecidableEq

inductive MamEvent
  | enable
  | answered (result : Except MamFailure MamReply) (rotated : Option ApiCookie)
  | stateRead (lastRegistration lastReminder : Option SystemTime) (ratioGuard : SavedRatioGuard)
  | stateReadFailed
  | registrationAttemptSaved
  | registrationAttemptSaveFailed
  | purchaseChecked (sale : Sale)
  | ratioUseChecked
  | ratioGuardSaved
  | ratioGuardSaveFailed
  | reminderSaved
  | reminderSaveFailed

end Windlass
