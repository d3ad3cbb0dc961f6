import Windlass.Api
import Windlass.QbittorrentClient
import Windlass.TorrentFile

/-!
# MAM's answers

`shell/mam_reply.rs`: every field Windlass relies on is required, and an answer that
lacks one, or holds a value outside its type, is not understood as a whole. Only the
client list is searched for what Windlass needs.
-/

namespace Windlass

/-! ## Values of the core -/

def UserClass.parse (name : String) : Option UserClass :=
  match (String.ofList (trim name.toList) : String) with
  | "Mouse" => some .mouse
  | "User" => some .user
  | "Power User" => some .powerUser
  | "VIP" => some .vip
  | "Elite VIP" => some .eliteVip
  | name => (trimmed name).map .other

def asciiLower (text : List Char) : List Char := text.map Char.toLower

/-- Read MAM's text, ignoring case. -/
def Connectable.parse (value : String) : Connectable :=
  match (String.ofList (asciiLower (trim value.toList)) : String) with
  | "yes" | "true" | "connectable" => .yes
  | "no" | "false" | "not connectable" | "unconnectable" => .no
  | "offline" => .offline
  | _ => .unrecognised (.ofList (trim value.toList))

def PersonalFreeleech.fromFlags : Bool → Bool → PersonalFreeleech
  | true, _ => .throughWedge
  | false, true => .throughVip
  | false, false => .no

namespace Reply

variable {F : Type} (p : Parsers F)

/-! ## What MAM sends as a number or as text -/

/-- A whole number MAM sends as a JSON number or as text. -/
def whole : Json.Value F → Option Nat
  | .number n => (Json.Value.number n).u64?
  | .text text => unsignedFromStr u64Max (trim text.toList)
  | _ => none

def count (whole : Nat) : Option Nat := if whole ≤ u32Max then some whole else none

/-- A number with a possible fraction, sent as a JSON number or as text. -/
def decimal : Json.Value F → Option F
  | .number n => some (p.float n)
  | .text text => p.floatFromText (.ofList (trim text.toList))
  | _ => none

/-- A yes or no MAM sends as `0` or `1`, as a number or text, or as a boolean. -/
def flag : Json.Value F → Option Bool
  | .bool flag => some flag
  | .number n =>
    match (Json.Value.number n).u64? with
    | some 0 => some false
    | some 1 => some true
    | _ => none
  | .text text =>
    if trim text.toList = ['0'] then some false
    else if trim text.toList = ['1'] then some true
    else none
  | _ => none

def json {α : Type} (read : Json.Value F → Option α) (body : Bytes) : Option α := (p.json body).bind read

/-- A required entry of a JSON object. -/
def entry {α : Type} (object : List (String × Json.Value F)) (name : String)
    (read : Json.Value F → Option α) : Option α :=
  (object.lookup name).bind read

/-- A Unix time in whole seconds. -/
def unix (seconds : Nat) : Option SystemTime := SystemTime.checkedAdd 0 (Duration.fromSecs seconds)

/-- MAM's `YYYY-MM-DD HH:MM:SS`, which is UTC. -/
def utc (value : String) : Option SystemTime := p.dateTime (.ofList (trim value.toList))

/-! ## Refused sessions -/

def isAsciiWhitespace (b : UInt8) : Bool := b == 9 || b == 10 || b == 12 || b == 13 || b == 32

/-- Whether the body is MAM's plain-text answer to a refused session. -/
def signedOut (body : Bytes) : Bool :=
  (text "Error, you are not signed in").isPrefixOf (body.dropWhile isAsciiWhitespace)

/-- What follows the first place where a word stands. -/
def after (word : List Char) : List Char → Option (List Char)
  | [] => if word = [] then some [] else none
  | c :: text =>
    if word.isPrefixOf (c :: text) then some ((c :: text).drop word.length) else after word text

def contains (text : List Char) (word : String) : Bool := (after word.toList text).isSome

/-- Why MAM refused a session, from its message. -/
def rejection (message : String) : SessionRejection :=
  let message := asciiLower message.toList
  if contains message "asn mismatch" then .asnMismatch
  else if contains message "ip mismatch" then .ipMismatch
  else if contains message "session type" then .notAllowed
  else if contains message "cookie" then .invalidCookie
  else .other

/-! ## The seedbox -/

def ipAddr (v : Json.Value F) : Option IpAddr := v.text?.bind p.ip

def ipObservation (body : Bytes) : Option IpObservation :=
  json p (fun answer => do
    let field ← answer.record ["ip", "ASN", "AS"]
    let ip ← (field "ip").required (ipAddr p)
    let asn ← (field "ASN").required whole
    let network ← (field "AS").optional Json.Value.text?
    return { ip := ip, asn := ← count asn, provider := network.bind trimmed }) body

structure SeedboxAnswer where
  msg : Option String
  ip : Option IpAddr

def SeedboxAnswer.read (answer : Json.Value F) : Option SeedboxAnswer := do
  let field ← answer.record ["msg", "ip"]
  return { msg := ← (field "msg").optional Json.Value.text?, ip := ← (field "ip").optional (ipAddr p) }

def forbidden : Nat := 403

/-- The seedbox registration's answer, which says what MAM did in `msg`. A refusal may
come with a body that is not JSON. -/
def registration (status : HttpStatus) (body : Bytes) : Except MamFailure MamReply :=
  let answer := json p (SeedboxAnswer.read p) body
  let message := (answer.bind SeedboxAnswer.msg).getD ""
  if status.code = forbidden then .error (.session (rejection message))
  else if !status.isSuccess then .error (.rejected status)
  else
    let registration :=
      if asciiLower message.toList = "completed".toList then some Registration.completed
      else if asciiLower message.toList = "no change".toList then some .noChange
      else none
    match registration, answer.bind SeedboxAnswer.ip with
    | some registration, some ip => .ok (.registered registration ip)
    | _, _ => .error .malformed

/-! ## The account -/

def counted (v : Json.Value F) : Option Nat := do
  let field ← v.record ["count"]
  (field "count").required whole

def limited (v : Json.Value F) : Option (Nat × Nat) := do
  let field ← v.record ["count", "limit"]
  return (← (field "count").required whole, ← (field "limit").required whole)

structure RedEntry where
  name : String
  count : Nat
  red : Bool

def RedEntry.read (v : Json.Value F) : Option RedEntry := do
  let field ← v.record ["name", "count", "red"]
  return { name := ← (field "name").required Json.Value.text?
           count := ← (field "count").required whole
           red := ← (field "red").required flag }

def redKind (key : String) : RedKind :=
  if key = "inactUnsat" ∨ key = "inactHnr" then .notSeeding else .other

/-- A category that carries a `red` mark must also carry its name and count; one that is
not marked, or holds no torrents, is skipped. -/
def redCategory (e : String × Json.Value F) : Option (Option RedCategory) :=
  if (e.2.get? "red").isNone then some none
  else do
    let category ← RedEntry.read e.2
    let count ← count category.count
    if !category.red || count == 0 then return none
    return some { name := ← trimmed category.name, kind := redKind e.1, count := count }

/-- Categories marked red that hold torrents. -/
def redCategories (summary : List (String × Json.Value F)) : Option (List RedCategory) :=
  (summary.mapM redCategory).map fun categories => categories.filterMap id

/-- MAM's snatch summary. Every category Windlass watches must be present. -/
def snatchSummary (summary : List (String × Json.Value F)) : Option SnatchSummary := do
  let unsatisfied ← entry summary "unsat" limited
  let notSeeding ← entry summary "inactUnsat" counted
  let hitAndRun ← entry summary "inactHnr" counted
  let duplicates ← entry summary "duplicates" counted
  let trackerErrors ← entry summary "ite" counted
  let partials ← entry summary "partial" flag
  let connectable ← entry summary "connectable" Json.Value.text?
  return { unsatisfied := ← count unsatisfied.1
           unsatisfiedLimit := ← count unsatisfied.2
           unsatisfiedNotSeeding := ← count notSeeding
           hitAndRunNotSeeding := ← count hitAndRun
           partials := if partials then .seen else .notSeen
           duplicates := ← count duplicates
           trackerErrors := ← count trackerErrors
           connectable := Connectable.parse connectable
           red := ← redCategories summary }

structure NoticesAnswer where
  pms : Nat
  tickets : Nat
  waitingTickets : Nat
  requests : Nat
  topics : Nat
  aboutToDropClient : Nat

def NoticesAnswer.read (v : Json.Value F) : Option NoticesAnswer := do
  let field ← v.record ["pms", "tickets", "waiting_tickets", "requests", "topics", "aboutToDropClient"]
  return { pms := ← (field "pms").required whole
           tickets := ← (field "tickets").required whole
           waitingTickets := ← (field "waiting_tickets").required whole
           requests := ← (field "requests").required whole
           topics := ← (field "topics").required whole
           aboutToDropClient := ← (field "aboutToDropClient").required whole }

def notices (answer : NoticesAnswer) : Option MamNotices := do
  return { messages := ← count answer.pms
           tickets := ← count answer.tickets
           waitingTickets := ← count answer.waitingTickets
           requests := ← count answer.requests
           topics := ← count answer.topics
           aboutToDropClient := ← count answer.aboutToDropClient }

/-! ## The client list -/

/-- Whether text says a client is not allowed. -/
def refusal (text : List Char) : Bool :=
  ["not allowed", "disallowed", "unauthori", "banned", "blocked"].any (contains (asciiLower text))

def digit (c : Char) : Option Nat := if isDigit c then some (c.toNat - '0'.toNat) else none

/-- The characters that take up so many bytes, if they end there. -/
def takeBytes : Nat → List Char → Option (List Char)
  | 0, _ => some []
  | _, [] => none
  | n, c :: text => if c.utf8Size ≤ n then (takeBytes (n - c.utf8Size) text).map (c :: ·) else none

/-- A qBittorrent version named in text, such as `qBittorrent 5.1.2`,
`qBittorrent/v5.1.2`, or the peer ID prefix `-qB5120-`. -/
def qbittorrentVersion (text : String) : Option ClientVersion :=
  match after "qbittorrent".toList (asciiLower text.toList) with
  | some rest =>
    let version :=
      (rest.dropWhile fun c => c == ' ' || c == '/' || c == 'v' || c == '-' || c == ':').takeWhile
      fun c => isDigit c || c == '.'
    ClientVersion.parse (version.reverse.dropWhile (· == '.')).reverse
  | none => do
    let digits ← takeBytes 4 (← after "-qB".toList text.toList)
    match digits.map digit with
    | some major :: some minor :: some patch :: _ =>
      ClientVersion.parse s!"{major}.{minor}.{patch}".toList
    | _ => none

def entryConnectable : Json.Value F → Option Connectable
  | .text text => some (Connectable.parse text)
  | .bool true => some .yes
  | .bool false => some .no
  | .number (.posInt n) => some (if n = 0 then .no else .yes)
  | .number _ => some .yes
  | _ => none

def entryRefused (e : String × Json.Value F) : Bool :=
  let key := asciiLower e.1.toList
  match e.2 with
  | .text text => refusal text.toList
  | .bool flag =>
    (flag && refusal key) || (!flag &&
      (key == "allowed".toList || key == "approved".toList || key == "authorized".toList))
  | _ => false

def listedClient (v : Json.Value F) : ListedClient :=
  let fields :=
    match v with
    | .object fields => fields
    | other => [("", other)]
  { qbittorrent := (fields.filterMap fun e => e.2.text?).findSome? qbittorrentVersion
    connectable :=
      (fields.find? fun e => contains (asciiLower e.1.toList) "connect").bind fun e =>
      entryConnectable e.2
    refusal := if fields.any entryRefused then .refused else .notRefused }

/-- MAM's client list: a list, or an object of entries. -/
def clients : Json.Value F → Option (List ListedClient)
  | .array entries => some (entries.map listedClient)
  | .object entries => some (entries.map fun e => listedClient e.2)
  | _ => none

/-! ## Load User Data -/

def accountFields : List String :=
  ["uploaded_bytes", "downloaded_bytes", "seedbonus", "wedges", "classname", "vip_until",
    "snatch_summary", "notifs",
    "clientStats"]

def userData (body : Bytes) : Option UserData :=
  json p (fun answer => do
    let field ← answer.record accountFields
    let uploaded ← (field "uploaded_bytes").required whole
    let downloaded ← (field "downloaded_bytes").required whole
    let seedbonus ← (field "seedbonus").required (decimal p)
    let wedges ← (field "wedges").required whole
    let classname ← (field "classname").required Json.Value.text?
    -- Absent, or null, when the account is not VIP.
    let vipUntil ← (field "vip_until").optional Json.Value.text?
    let summary ← (field "snatch_summary").optional Json.Value.map?
    let notifs ← (field "notifs").optional NoticesAnswer.read
    let clientStats ← (field "clientStats").optional fun v => some v.settled
    return { uploaded := uploaded
             downloaded := downloaded
             points := ← p.balance seedbonus
             wedges := ← count wedges
             class' := ← UserClass.parse classname
             vipUntil := ← vipUntil.mapM (utc p)
             summary := ← summary.mapM snatchSummary
             notices := ← notifs.mapM notices
             clients := ← clientStats.mapM clients }) body

/-! ## Torrent Search -/

structure SearchResult where
  id : Nat
  title : String
  vip : Bool
  free : Bool
  flVip : Bool
  personalFreeleech : Bool
  mySnatched : Bool
  vipExpire : Nat
  bookmarked : Option Nat

def searchFields : List String :=
  ["id", "title", "vip", "free", "fl_vip", "personal_freeleech", "my_snatched", "vip_expire",
    "bookmarked"]

def SearchResult.read (v : Json.Value F) : Option SearchResult := do
  let field ← v.record searchFields
  return { id := ← (field "id").required whole
           title := ← (field "title").required Json.Value.text?
           vip := ← (field "vip").required flag
           free := ← (field "free").required flag
           flVip := ← (field "fl_vip").required flag
           personalFreeleech := ← (field "personal_freeleech").required flag
           mySnatched := ← (field "my_snatched").required flag
           vipExpire := ← (field "vip_expire").required whole
           bookmarked := ← (field "bookmarked").optional whole }

def vipTorrent (vip : Bool) (expire : Nat) : Option VipTorrent :=
  if !vip then some .no
  else if expire = 0 then some .indefinitely
  else (unix expire).map .until'

def bookmark (result : SearchResult) : Option Bookmark := do
  let vip ← vipTorrent result.vip result.vipExpire
  return { id := ← MamTorrentId.new result.id
           title := ← trimmed result.title
           vip := vip
           freeleech := if result.free then .forEveryone else .no
           personal := PersonalFreeleech.fromFlags result.personalFreeleech result.flVip
           snatched := if result.mySnatched then .before else .never
           bookmarkedAt := ← (result.bookmarked.filter (· ≠ 0)).mapM unix }

/-- A page of Torrent Search results. -/
def bookmarkPage (body : Bytes) : Option BookmarkPage :=
  json p (fun answer => do
    let field ← answer.record ["found", "data"]
    let found ← (field "found").required whole
    let data ← (field "data").optional (Json.Value.list SearchResult.read)
    let counted ← count found
    let results ←
      match data with
      | some results => some results
      | none => if found = 0 then some [] else none
    return { found := counted, bookmarks := ← results.mapM bookmark }) body

/-! ## The store and the bonus history -/

structure StoreAnswer (F : Type) where
  success : Bool
  seedbonus : Option F
  error : Option String

def StoreAnswer.read (v : Json.Value F) : Option (StoreAnswer F) := do
  let field ← v.record ["success", "seedbonus", "error"]
  return { success := ← (field "success").required Json.Value.bool?
           seedbonus := ← (field "seedbonus").optional (decimal p)
           error := ← (field "error").optional Json.Value.text? }

/-- The store's answer: the balance after a sale, or why it refused. -/
def purchase (body : Bytes) : Except MamFailure MamReply :=
  match json p (StoreAnswer.read p) body with
  | none => .error .malformed
  | some answer =>
    if !answer.success then .error (.refused (answer.error.bind trimmed))
    else
      match answer.seedbonus.bind p.balance with
      | some points => .ok (.purchased points)
      | none => .error .malformed

structure BonusEntry (F : Type) where
  kind : String
  tid : Option Nat
  timestamp : F

def BonusEntry.read (v : Json.Value F) : Option (BonusEntry F) := do
  let field ← v.record ["type", "tid", "timestamp"]
  return { kind := ← (field "type").required Json.Value.text?
           tid := ← (field "tid").optional whole
           timestamp := ← (field "timestamp").required (decimal p) }

def wedgeSpent (entry : BonusEntry F) : Option WedgeSpent := do
  let since ← p.seconds entry.timestamp
  return { torrent := ← entry.tid.bind MamTorrentId.new, at' := ← SystemTime.checkedAdd 0 since }

/-- User Bonus History: personal freeleech wedges are kept, and each must name its
torrent; other entries are skipped. -/
def wedgeHistory (body : Bytes) : Option (List WedgeSpent) :=
  (json p (Json.Value.list (BonusEntry.read p)) body).bind fun entries =>
    (entries.filter (·.kind == "wedgePF")).mapM (wedgeSpent p)

end Reply

end Windlass
