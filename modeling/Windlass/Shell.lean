import Windlass.MamClient
import Windlass.NatPmp
import Windlass.System

/-!
# The shell

`shell/mod.rs`: an action is dispatched as work for a worker of its own, whose result
comes back as one event. Workers share the database file; what they reach outside
answers each of them as it likes. Timers, the dashboard and the history writer only
put events in.
-/

namespace Windlass

/-! ## Other clients -/

/-- The tunnel work the core can ask for. -/
inductive TunnelRequest
  | checkExitIp
  | switch (server : VpnServer)

/-- How the shell reaches the exit-IP service and starts server units: a body that
cannot be read is empty. -/
structure TunnelClient where
  service : Option HttpResponse
  starts : VpnServer → Bool

section
variable {F : Type} (p : Parsers F)

def TunnelClient.exitIp (client : TunnelClient) : Except ExitIpFailure IpAddr :=
  match client.service with
  | none => .error .unreachable
  | some response =>
    if !response.status.isSuccess then .error (.rejected response.status)
    else
      match p.ip (.ofList (trim (p.text response.body).toList)) with
      | some ip => .ok ip
      | none => .error .malformed

/-- Perform a request; without configured tunnel checks it fails. -/
def TunnelRequest.perform (client : Option TunnelClient) : TunnelRequest → TunnelEvent
  | .checkExitIp =>
    match client with
    | none => .exitIpCheckFailed .unreachable
    | some client =>
      match client.exitIp p with
      | .ok ip => .exitIpObserved ip
      | .error reason => .exitIpCheckFailed reason
  | .switch server => if client.any fun client => client.starts server then .switched else .switchFailed

end

/-- Where notices are published. -/
structure Channel where
  post : NtfyTopic → Push → Option HttpStatus

/-- Push a notice and report the outcome. -/
def Channel.send (channel : Channel) (topic : NtfyTopic) (push : Push) : NotificationEvent :=
  match channel.post topic push with
  | none => .deliveryFailed .unreachable
  | some status => if status.isSuccess then .delivered else .deliveryFailed (.rejected status)

/-- A gateway's port-mapping exchange. -/
structure Exchange where
  sends : Instant → Bool
  socket : NatPmp.Socket

/-! ## The world outside -/

/-- Everything a worker reaches, at the moment it does its work; `keeps` tells whether
a file can be written to storage. -/
structure Outside (F : Type) where
  mam : MamCall F → Option MamResponse
  qbittorrent : Http F
  tunnel : TunnelClient
  gateway : Option Exchange
  channel : Channel
  keeps : Bool

/-- What is configured, and what other crates do. -/
structure Configuration (F : Type) where
  parsers : Parsers F
  sha1 : Bytes → Vector UInt8 20
  message : Notice → Message
  mam : Bool
  qbittorrent : Bool
  tunnel : Bool

/-- The database file, and what the workers to come will reach. -/
structure World (F : Type) where
  file : Option Database
  coming : ℕ → Outside F

/-! ## Work -/

inductive Work
  | store (operation : Operation)
  | mapPorts (lifetime : Duration)
  | qbittorrent (request : QbittorrentRequest)
  | tunnel (request : TunnelRequest)
  | send (topic : NtfyTopic) (push : Push)
  | mam (request : MamRequest) (cookie : Option ApiCookie)

/-- What an action is dispatched as; timers and history have no worker here. -/
def Action.dispatch : Action → Option Work
  | .openHistory | .trimHistory _ | .startTimer .. => none
  | .requestPortMapping lifetime => some (.mapPorts lifetime)
  | .connectQbittorrent => some (.qbittorrent .connect)
  | .syncQbittorrent position => some (.qbittorrent (.sync position))
  | .readQbittorrentPreferences => some (.qbittorrent .readPreferences)
  | .setQbittorrentListenPort port => some (.qbittorrent (.setListenPort port))
  | .setQbittorrentQueue queue => some (.qbittorrent (.setQueue queue))
  | .qbittorrentCommand command => some (.qbittorrent (.command command))
  | .checkExitIp => some (.tunnel .checkExitIp)
  | .switchVpnServer server => some (.tunnel (.switch server))
  | .sendNotification topic push => some (.send topic push)
  | .mamRequest request cookie => some (.mam request cookie)
  | action => action.operation?.map .store

section
variable {F : Type} (config : Configuration F)

/-- Keep a fetched torrent file for qBittorrent; a file that cannot be kept makes the
fetch fail. -/
def keep (database : Option Database) (keeps : Bool) (request : MamRequest) (answer : MamAnswer) :
    Option Database × Except MamFailure MamReply :=
  match request, answer.result, answer.file with
  | .fetchTorrent id _, .ok (.fetched fetched), some file =>
    match if keeps then database.bind fun db => db.keepTorrentFile id fetched.hash file else none with
    | some db => (some db, answer.result)
    | none => (database, .error .notKept)
  | _, result, _ => (database, result)

def Outside.mamClient (outside : Outside F) : Option (MamClient F) :=
  if config.mam then some { parsers := config.parsers, sha1 := config.sha1,
                            http := outside.mam } else none

def Outside.qbittorrentClient (outside : Outside F) (database : Option Database) :
    Option (QbittorrentClient F) :=
  if config.qbittorrent then
    some { parsers := config.parsers
           http := outside.qbittorrent
           kept := fun mam => database.bind fun db => db.keptTorrentFile mam }
  else none

/-- What a worker does and reports. -/
def Work.perform (database : Option Database) (outside : Outside F) : Work → Option Database × Event
  | .store operation => execute config.message database operation
  | .mapPorts _ =>
    (database, .portForwarding (match outside.gateway with
      | some exchange => NatPmp.mapPorts exchange.sends (some exchange.socket)
      | none => NatPmp.mapPorts (fun _ => false) none))
  | .qbittorrent request =>
    (database, .qbittorrent (request.execute (outside.qbittorrentClient config database)))
  | .tunnel request =>
    (database, .tunnel (request.perform config.parsers
      (if config.tunnel then some outside.tunnel else none)))
  | .send topic push => (database, .notification (outside.channel.send topic push))
  | .mam request cookie =>
    let answer := request.perform (outside.mamClient config) cookie
    let (database, result) := keep database outside.keeps request answer
    (database, .mam (.answered result answer.rotated))

/-- Each worker reaches the world of its own moment. -/
def World.perform (world : World F) (work : Work) : World F × Event :=
  let (file, event) := work.perform config world.file (world.coming 0)
  ({ file := file, coming := fun n => world.coming (n + 1) }, event)

end

/-- What a worker reports that reaches nothing. -/
def Work.failure : Work → Event
  | .store operation => operation.failure
  | .mapPorts _ => .portForwarding (.mappingFailed .noResponse)
  | .qbittorrent request => .qbittorrent (request.failed .unreachable)
  | .tunnel .checkExitIp => .tunnel (.exitIpCheckFailed .unreachable)
  | .tunnel (.switch _) => .tunnel .switchFailed
  | .send .. => .notification (.deliveryFailed .unreachable)
  | .mam .. => .mam (.answered (.error .unreachable) none)

/-- The events that only workers report. -/
def Event.reported : Event → Bool
  | .portForwarding event => event != .enable
  | .qbittorrent event => event != .enable
  | .tunnel (.enable ..) => false
  | .tunnel _ => true
  | .notification .sendTest => false
  | .notification _ => true
  | .mam .enable | .mam (.purchaseChecked _) | .mam .ratioUseChecked => false
  | .mam _ => true
  | event => event.reportsStorage

/-- The core and the workers it asks for. -/
def shell : Workers.Crew Core TimedEvent Action Work Event ClockReading where
  machine := core
  work? := Action.dispatch
  failure := Work.failure
  deliver at' event := { occurredAt := at', event := event }
  reserved i := i.event.reported

abbrev Living (F : Type) := Workers.State TimedEvent (World F) Work Event

/-- The whole program in its world. -/
def living {F : Type} (config : Configuration F) (world : World F) :
    Reactive.Machine (Living F) Happening Action :=
  shell.over (World.perform config) world

/-- The state of the core in the process under way. -/
def coreNow {F : Type} (s : Living F) : Core := core.last s.taken

end Windlass
