import Windlass.MamReply

/-!
# MAM's API

`shell/mam.rs`: send the request the core chose, and translate the answer into core
terms, with a replacement cookie if MAM issued one.
-/

namespace Windlass

/-- MAM's two hosts. -/
inductive MamHost
  | site | tracker
deriving DecidableEq

inductive Method
  | get | post
deriving DecidableEq

/-- A request as it is sent to one of MAM's hosts. -/
structure MamCall (F : Type) where
  host : MamHost
  method : Method := .get
  path : String
  query : List (String × String) := []
  body : Option (Json.Value F) := none
  cookie : Option String := none

/-- What a host answers; a body may not be read whole. -/
structure MamResponse where
  status : HttpStatus
  setCookie : List Bytes
  retryAfter : Option Bytes
  body : Option Bytes

/-- A configured MAM client. -/
structure MamClient (F : Type) where
  parsers : Parsers F
  sha1 : Bytes → Vector UInt8 20
  http : MamCall F → Option MamResponse

/-- The result of a request, the torrent file it fetched, and a replacement cookie if
MAM issued one. -/
structure MamAnswer where
  result : Except MamFailure MamReply
  file : Option Bytes
  rotated : Option ApiCookie

def MamAnswer.failed (failure : MamFailure) : MamAnswer :=
  { result := .error failure, file := none, rotated := none }

/-! ## Requests -/

/-- Bookmarks are listed this many to a page. -/
def bookmarksPerPage : Nat := 100

section
variable {F : Type}

def MamRequest.build : MamRequest → MamCall F
  | .lookUpIp => { host := .tracker, path := "json/jsonIp.php" }
  | .registerSeedbox => { host := .tracker, path := "json/dynamicSeedbox.php" }
  | .loadUserData clients =>
    { host := .site
      path := "jsonLoad.php"
      query := [("snatch_summary", "true"), ("notif", "true")] ++
        if clients = .include' then [("clientStats", "true")] else [] }
  | .listBookmarks start =>
    { host := .site
      method := .post
      path := "tor/js/loadSearchJSONbasic.php"
      body := some (.object [("perpage", .int bookmarksPerPage),
        ("tor", .object [("searchIn", .text "bookmarks"), ("sortType", .text ""),
          ("startNumber", .text (toString start))])]) }
  | .fetchTorrent id wedge =>
    { host := .site
      path := "tor/download.php"
      query := ("tid", toString id.val) :: if wedge = .spend then [("fl", "1")] else [] }
  | .buy .vip =>
    { host := .site, path := "json/bonusBuy.php", query := [("spendtype", "VIP"), ("duration", "max")] }
  | .lookUpTorrent id =>
    { host := .site, path := "tor/js/loadSearchJSONbasic.php", query := [("tor[id]", toString id.val)] }
  | .wedgeHistory =>
    { host := .site, path := "json/userBonusHistory.php", query := [("type[]", "wedgePF")] }

end

/-! ## Answers -/

/-- The text of a header, which is visible ASCII. -/
def headerText (value : Bytes) : Option (List Char) :=
  if value.all fun b => (32 ≤ b && b < 127) ||
    b == 9 then some (value.map fun b => Char.ofNat b.toNat) else none

def stripPrefix (start text : List Char) : Option (List Char) :=
  if start.isPrefixOf text then some (text.drop start.length) else none

def setCookieValue (value : Bytes) : Option ApiCookie := do
  let value ← stripPrefix "mam_id=".toList (← headerText value)
  (ApiCookie.parse (.ofList (value.takeWhile (· ≠ ';')))).toOption

/-- A new `mam_id` value from the response, if it differs from the one sent. -/
def rotatedCookie (setCookie : List Bytes) (sent : Option ApiCookie) : Option ApiCookie :=
  (setCookie.filterMap setCookieValue).find? fun cookie => some cookie ≠ sent

def retryAfterValue (value : Bytes) : Option Duration := do
  let seconds ← unsignedFromStr u64Max (trim (← headerText value))
  return Duration.fromSecs seconds

def tooManyRequests : Nat := 429

section
variable {F : Type} (client : MamClient F)

def reply {α : Type} (make : α → MamReply) : Option α → Except MamFailure MamReply
  | some a => .ok (make a)
  | none => .error .malformed

def MamClient.interpret (request : MamRequest) (status : HttpStatus) (retryAfter : Option Duration)
    (body : Bytes) :
    Except MamFailure MamReply × Option Bytes :=
  if Reply.signedOut body then (.error (.session (Reply.rejection (client.parsers.text body))), none)
  else if status.code = tooManyRequests then (.error (.tooSoon retryAfter), none)
  else if request = .registerSeedbox then (Reply.registration client.parsers status body, none)
  else if !status.isSuccess then (.error (.rejected status), none)
  else
    match request with
    | .fetchTorrent _ _ =>
      match TorrentFile.read client.sha1 body with
      | none => (.error (.refused none), none)
      | some file => (.ok (.fetched { hash := file.hash, size := file.size }), some body)
    | .lookUpIp => (reply .ip (Reply.ipObservation client.parsers body), none)
    | .loadUserData _ => (reply .userData (Reply.userData client.parsers body), none)
    | .listBookmarks _ => (reply .bookmarks (Reply.bookmarkPage client.parsers body), none)
    | .buy _ => (Reply.purchase client.parsers body, none)
    | .lookUpTorrent id =>
      (reply (fun page => .torrent (page.bookmarks.find? (·.id == id)))
        (Reply.bookmarkPage client.parsers body), none)
    | .wedgeHistory => (reply .wedgeHistory (Reply.wedgeHistory client.parsers body), none)
    | .registerSeedbox => (Reply.registration client.parsers status body, none)

/-- Send a request; without a client or a needed cookie it fails. -/
def MamRequest.perform (client : Option (MamClient F)) (request : MamRequest)
    (cookie : Option ApiCookie) : MamAnswer :=
  match client with
  | none => .failed .unreachable
  | some client =>
    let call :=
      match request.needsCookie, cookie with
      | false, _ => some request.build
      | true, some cookie => some { request.build with cookie := some s!"mam_id={cookie.value}" }
      | true, none => none
    match call with
    | none => .failed (.session .invalidCookie)
    | some call =>
      match client.http call with
      | none => .failed .unreachable
      | some response =>
        let (result, file) :=
          client.interpret request response.status (response.retryAfter.bind retryAfterValue)
          (response.body.getD [])
        { result := result, file := file, rotated := rotatedCookie response.setCookie cookie }

end

end Windlass
