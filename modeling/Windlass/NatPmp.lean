import Windlass.Values

/-!
# Mapping ports

Request TCP and UDP mappings from a NAT-PMP gateway. Both requests share one
socket, each is sent up to four times, and the first packet that the gateway
answers with decides. An answer to the UDP request that is received while the TCP
mapping is awaited ends the exchange.
-/

namespace Windlass

namespace NatPmp

def udp : UInt8 := 1

def tcp : UInt8 := 2

def attemptTimeouts : List Duration := [250, 500, 1000, 2000].map (· * 1000000)

def be16 (a b : UInt8) : Nat := a.toNat * 256 + b.toNat

def be32 (a b c d : UInt8) : Nat := be16 a b * 65536 + be16 c d

theorem be16_le (a b : UInt8) : be16 a b ≤ u16Max := by
  have ha := a.toNat_lt
  have hb := b.toNat_lt
  unfold be16 u16Max
  omega

/-- A port, unless the number is zero. -/
def portOf (a b : UInt8) : Option Port :=
  if h : 0 < be16 a b then some ⟨be16 a b, h, be16_le a b⟩ else none

/-- The granted public port and lifetime, or why there is none. -/
def response (opcode : UInt8) (packet : List UInt8) : Except MappingFailure (Port × Duration) :=
  match packet with
  | [version, op, r0, r1, _, _, _, _, _, _, p0, p1, l0, l1, l2, l3] =>
    if version ≠ 0 ∨ op ≠ opcode + 128 then .error .malformed
    else
      match be16 r0 r1 with
      | 0 =>
        match portOf p0 p1 with
        | some port => .ok (port, Duration.fromSecs (be32 l0 l1 l2 l3))
        | none => .error .malformed
      | 1 => .error (.refused .unsupportedVersion)
      | 2 => .error (.refused .notAuthorized)
      | 3 => .error (.refused .networkFailure)
      | 4 => .error (.refused .outOfResources)
      | 5 => .error (.refused .unsupportedOpcode)
      | _ => .error .malformed
  | _ => .error .malformed

/-- What the socket receives at a time: a packet of the gateway's, or else one from
elsewhere or an error. -/
structure Arrival where
  at' : Instant
  packet : Option (List UInt8)

/-- The socket at a time, with what it has still to receive, in order. -/
structure Socket where
  now : Instant
  arrivals : List Arrival

/-- Wait for what arrives next, so long at most. -/
def Socket.receive (s : Socket) (timeout : Duration) : Option Arrival × Socket :=
  match s.arrivals with
  | a :: arrivals =>
    if a.at' ≤ s.now + timeout then (some a, { now := max s.now a.at', arrivals := arrivals })
    else (none, { s with now := s.now + timeout })
  | [] => (none, { s with now := s.now + timeout })

/-- One request, sent again after each timeout that is left. `sends` tells when
the socket can send. -/
def map (sends : Instant → Bool) (opcode : UInt8) :
    List Duration → Socket → Except MappingFailure (Port × Duration) × Socket
  | [], s => (.error .noResponse, s)
  | timeout :: timeouts, s =>
    if sends s.now then
      match s.receive timeout with
      | (some ⟨_, some packet⟩, s) => (response opcode (packet.take 64), s)
      | (_, s) => map sends opcode timeouts s
    else (.error .noResponse, s)

/-- Map UDP and TCP ports; there is no socket without a gateway. -/
def mapPorts (sends : Instant → Bool) (socket : Option Socket) : PortForwardingEvent :=
  match socket with
  | none => .mappingFailed .noResponse
  | some s =>
    match map sends udp attemptTimeouts s with
    | (.error reason, _) => .mappingFailed reason
    | (.ok (udp, udpLifetime), s) =>
      match map sends tcp attemptTimeouts s with
      | (.error reason, _) => .mappingFailed reason
      | (.ok (tcp, tcpLifetime), _) => .mapped tcp udp (min udpLifetime tcpLifetime)

/-! ## Answers -/

/-- A success response: what it tells of the gateway, its epoch and the internal
port, and the port and lifetime it grants. -/
structure Answer where
  epoch : UInt8 × UInt8 × UInt8 × UInt8
  internal : UInt8 × UInt8
  public' : UInt8 × UInt8
  lifetime : UInt8 × UInt8 × UInt8 × UInt8
  named : 0 < be16 public'.1 public'.2

def Answer.port (a : Answer) : Port := ⟨be16 a.public'.1 a.public'.2, a.named, be16_le _ _⟩

def Answer.duration (a : Answer) : Duration :=
  Duration.fromSecs (be32 a.lifetime.1 a.lifetime.2.1 a.lifetime.2.2.1 a.lifetime.2.2.2)

def Answer.packet (opcode : UInt8) (a : Answer) : List UInt8 :=
  [0, opcode + 128, 0, 0, a.epoch.1, a.epoch.2.1, a.epoch.2.2.1, a.epoch.2.2.2, a.internal.1,
    a.internal.2,
    a.public'.1, a.public'.2, a.lifetime.1, a.lifetime.2.1, a.lifetime.2.2.1, a.lifetime.2.2.2]

theorem response_answer (opcode : UInt8) (a : Answer) :
    response opcode ((a.packet opcode).take 64) = .ok (a.port, a.duration) := by
  have hport : portOf a.public'.1 a.public'.2 = some a.port := dif_pos a.named
  unfold response Answer.packet
  simp [hport, be16, Answer.duration]

theorem response_other {opcode opcode' : UInt8} (h : opcode ≠ opcode') (a : Answer) :
    response opcode' ((a.packet opcode).take 64) = .error .malformed := by
  have hop : opcode + 128 ≠ opcode' + 128 := fun he => h (add_right_cancel he)
  unfold response Answer.packet
  simp [hop]

/-! ## One request -/

/-- When the last attempt of a request ends, where each packet from elsewhere ends
an attempt early; none when no attempt is left. -/
def lastTimeout : List Duration → Instant → List Instant → Option Instant
  | [], _, _ => none
  | timeout :: timeouts, now, [] => some (now + (timeout :: timeouts).sum)
  | timeout :: timeouts, now, other :: others =>
    if other ≤ now + timeout then lastTimeout timeouts (max now other) others
    else lastTimeout timeouts (now + timeout) (other :: others)

def fromElsewhere (at' : Instant) : Arrival := { at' := at', packet := none }

section
variable {sends : Instant → Bool} {opcode : UInt8} {timeout : Duration} {timeouts : List Duration}
  {now : Instant}
  {a : Arrival} {arrivals : List Arrival}

theorem receive_next (h : a.at' ≤ now + timeout) :
    Socket.receive { now := now, arrivals := a :: arrivals } timeout =
    (some a, { now := max now a.at', arrivals := arrivals }) := if_pos h

theorem receive_late (h : now + timeout < a.at') :
    Socket.receive { now := now, arrivals := a :: arrivals } timeout =
    (none, { now := now + timeout, arrivals := a :: arrivals }) := if_neg (not_le.mpr h)

theorem map_received (hs : sends now = true) {packet : List UInt8} (hp : a.packet = some packet)
    (h : a.at' ≤ now + timeout) :
    map sends opcode (timeout :: timeouts) { now := now, arrivals := a :: arrivals } =
      (response opcode (packet.take 64), { now := max now a.at', arrivals := arrivals }) := by
  obtain ⟨at', received⟩ := a
  cases hp
  rw [map, if_pos hs, receive_next h]

theorem map_elsewhere (hs : sends now = true) (hp : a.packet = none) (h : a.at' ≤ now + timeout) :
    map sends opcode (timeout :: timeouts) { now := now, arrivals := a :: arrivals } =
      map sends opcode timeouts { now := max now a.at', arrivals := arrivals } := by
  obtain ⟨at', received⟩ := a
  cases hp
  rw [map, if_pos hs, receive_next h]

theorem map_late (hs : sends now = true) (h : now + timeout < a.at') :
    map sends opcode (timeout :: timeouts) { now := now, arrivals := a :: arrivals } =
      map sends opcode timeouts { now := now + timeout, arrivals := a :: arrivals } := by
  rw [map, if_pos hs, receive_late h]

theorem map_none (hs : sends now = true) :
    map sends opcode (timeout :: timeouts) { now := now, arrivals := [] } =
    map sends opcode timeouts { now := now + timeout, arrivals := [] } := by
  rw [map, if_pos hs]
  rfl

end

/-- A packet that arrives before the last timeout decides, when only packets from
elsewhere come before it. -/
theorem map_heard (opcode : UInt8) {timeouts : List Duration} {now : Instant}
    {others : List Instant} {at' last : Instant}
    {packet : List UInt8} {arrivals : List Arrival} (hnow : now ≤ at')
    (hothers : ∀ other ∈ others, other ≤ at')
    (hlast : lastTimeout timeouts now others = some last) (hin : at' ≤ last) :
    map (fun _ => true) opcode timeouts
      { now := now, arrivals := others.map fromElsewhere ++ ⟨at', some packet⟩ :: arrivals } =
      (response opcode (packet.take 64), { now := at', arrivals := arrivals }) := by
  -- on the attempts left; packets from elsewhere and late ones are passed over
  induction timeouts generalizing now others with
  | nil => cases hlast
  | cons timeout timeouts ih =>
    cases others with
    | nil =>
      obtain h | h := le_or_gt at' (now + timeout)
      · exact (map_received rfl rfl h).trans (by rw [max_eq_right hnow])
      · have hrest : lastTimeout timeouts (now + timeout) [] = some last := by
          cases hlast
          cases timeouts with
          | nil =>
            rw [List.sum_singleton] at hin
            exact absurd hin (not_le.mpr h)
          | cons next timeouts => exact congrArg some (by simp only [List.sum_cons, Nat.add_assoc])
        exact (map_late rfl h).trans (@ih (now + timeout) [] h.le (List.forall_mem_nil _) hrest)
    | cons other others =>
      have hother := hothers other List.mem_cons_self
      have hrest : ∀ o ∈ others, o ≤ at' := fun o ho => hothers o (List.mem_cons_of_mem other ho)
      rw [lastTimeout] at hlast
      split at hlast
      · next h => exact (map_elsewhere rfl rfl h).trans (ih (max_le hnow hother) hrest hlast)
      · next h =>
        have hlate : now + timeout < other := not_le.mp h
        exact (map_late rfl hlate).trans (ih (hlate.le.trans hother) hothers hlast)

theorem map_first {sends : Instant → Bool} {opcode : UInt8} {timeouts : List Duration}
    {s s' : Socket} {grant : Port × Duration}
    (h : map sends opcode timeouts s = (.ok grant, s')) :
    ∃ packet, s.arrivals.findSome? Arrival.packet = some packet ∧
    response opcode (packet.take 64) = .ok grant := by
  -- the first packet received decides, in whichever attempt it comes
  induction timeouts generalizing s with
  | nil => cases h
  | cons timeout timeouts ih =>
    cases hs : sends s.now with
    | false =>
      rw [map, if_neg (by rw [hs]; nofun)] at h
      cases h
    | true =>
      obtain ⟨now, arrivals⟩ := s
      cases arrivals with
      | nil =>
        rw [map_none hs] at h
        obtain ⟨packet, hfind, hok⟩ := ih h
        exact ⟨packet, hfind, hok⟩
      | cons a arrivals =>
        obtain ht | ht := le_or_gt a.at' (now + timeout)
        · cases hp : a.packet with
          | none =>
            rw [map_elsewhere hs hp ht] at h
            obtain ⟨packet, hfind, hok⟩ := ih h
            exact ⟨packet, by rw [List.findSome?_cons, hp]; exact hfind, hok⟩
          | some packet =>
            rw [map_received hs hp ht] at h
            exact ⟨packet, by rw [List.findSome?_cons, hp], (Prod.mk.inj h).1⟩
        · rw [map_late hs ht] at h
          obtain ⟨packet, hfind, hok⟩ := ih h
          exact ⟨packet, hfind, hok⟩

/-! ## The exchange -/

/-- An exchange where each request is answered before its last timeout, and all
else that the gateway sends before the TCP answer are late or repeated answers
to the UDP request. Packets from elsewhere may come in between. -/
structure Exchange where
  start : Instant
  before : List Instant
  udpAt : Instant
  udp : Answer
  between : List (Instant × Option Answer)
  tcpAt : Instant
  tcp : Answer
  after : List Arrival
  sent : start ≤ udpAt
  inOrder : (before ++ udpAt :: between.map Prod.fst ++ [tcpAt]).Pairwise (· ≤ ·)
  udpInTime : ∃ last, lastTimeout attemptTimeouts start before = some last ∧ udpAt ≤ last
  tcpInTime : ∃ last, lastTimeout attemptTimeouts udpAt
    ((between.filter fun p => p.2.isNone).map Prod.fst) = some last ∧ tcpAt ≤ last

/-- A packet from elsewhere, or another answer to the UDP request. -/
def lateArrival (p : Instant × Option Answer) : Arrival :=
  { at' := p.1, packet := p.2.map (Answer.packet NatPmp.udp) }

def Exchange.socket (x : Exchange) : Socket where
  now := x.start
  arrivals := x.before.map fromElsewhere ++ ⟨x.udpAt, some (x.udp.packet NatPmp.udp)⟩ ::
    (x.between.map lateArrival ++ ⟨x.tcpAt, some (x.tcp.packet NatPmp.tcp)⟩ :: x.after)

theorem udp_heard (x : Exchange) : map (fun _ => true) udp attemptTimeouts x.socket =
    (.ok (x.udp.port, x.udp.duration),
      { now := x.udpAt
        arrivals := x.between.map lateArrival ++ ⟨x.tcpAt,
          some (x.tcp.packet NatPmp.tcp)⟩ :: x.after }) := by
  obtain ⟨last, hlast, hin⟩ := x.udpInTime
  have hothers : ∀ other ∈ x.before, other ≤ x.udpAt := by
    intro other ho
    have hsplit := x.inOrder
    rw [List.append_assoc] at hsplit
    exact (List.pairwise_append.mp hsplit).2.2 other ho x.udpAt List.mem_cons_self
  rw [← response_answer]
  exact map_heard udp x.sent hothers hlast hin

theorem late_found {between : List (Instant × Option Answer)} (h : ∃ p ∈ between, p.2 ≠ none)
    (arrivals : List Arrival) :
    ∃ a : Answer, (between.map lateArrival ++ arrivals).findSome? Arrival.packet =
    some (a.packet udp) := by
  induction between with
  | nil =>
    obtain ⟨p, hp, -⟩ := h
    cases hp
  | cons p between ih =>
    obtain ⟨at', answer⟩ := p
    cases answer with
    | some a => exact ⟨a, rfl⟩
    | none =>
      obtain ⟨p', hp', hne⟩ := h
      obtain rfl | hp' := List.mem_cons.mp hp'
      · exact (hne rfl).elim
      · exact ih ⟨p', hp', hne⟩

theorem tcp_heard (x : Exchange) (h : ∀ p ∈ x.between, p.2 = none) :
    map (fun _ => true) tcp attemptTimeouts
      { now := x.udpAt
        arrivals := x.between.map lateArrival ++ ⟨x.tcpAt, some (x.tcp.packet NatPmp.tcp)⟩ :: x.after } =
      (.ok (x.tcp.port, x.tcp.duration), { now := x.tcpAt, arrivals := x.after }) := by
  have hall : x.between.filter (fun p => p.2.isNone) = x.between :=
    List.filter_eq_self.mpr fun p hp => Option.isNone_iff_eq_none.mpr (h p hp)
  have hlate : x.between.map lateArrival = (x.between.map Prod.fst).map fromElsewhere := by
    rw [List.map_map]
    refine List.map_congr_left fun p hp => ?_
    unfold lateArrival
    rw [h p hp]
    rfl
  obtain ⟨last, hlast, hin⟩ := x.tcpInTime
  rw [hall] at hlast
  have hlatest := (List.pairwise_append.mp x.inOrder).2.2
  have hnow : x.udpAt ≤ x.tcpAt :=
    hlatest x.udpAt (List.mem_append_right _ List.mem_cons_self) x.tcpAt (List.mem_singleton_self _)
  have hothers : ∀ other ∈ x.between.map Prod.fst, other ≤ x.tcpAt := fun other ho =>
    hlatest other (List.mem_append_right _ (List.mem_cons_of_mem _ ho)) x.tcpAt
    (List.mem_singleton_self _)
  rw [← response_answer, hlate]
  exact map_heard tcp hnow hothers hlast hin

/-- The exchange reports both ports, and the smaller lifetime, just when no other
answer to the UDP request arrives before the TCP request is answered. -/
theorem mapped_iff (x : Exchange) :
    mapPorts (fun _ => true) (some x.socket) =
        .mapped x.tcp.port x.udp.port (min x.udp.duration x.tcp.duration) ↔
      ∀ p ∈ x.between, p.2 = none := by
  unfold mapPorts
  dsimp only
  rw [udp_heard]
  dsimp only
  constructor
  · intro h
    by_contra hsome
    simp only [not_forall] at hsome
    obtain ⟨p, hp, hne⟩ := hsome
    obtain ⟨a, hfind⟩ := late_found ⟨p, hp, hne⟩ (⟨x.tcpAt, some (x.tcp.packet NatPmp.tcp)⟩ :: x.after)
    split at h
    · cases h
    · next hmap =>
      obtain ⟨packet, hfirst, hok⟩ := map_first hmap
      rw [hfind] at hfirst
      cases hfirst
      rw [response_other (by decide)] at hok
      cases hok
  · intro h
    rw [tcp_heard x h]

/-- A second answer to the UDP request comes 10 ms before the TCP answer. -/
def lateExchange : Exchange :=
  let answer : Answer :=
    { epoch := (0, 0, 0, 9), internal := (0, 0), public' := (160, 40), lifetime := (0, 0, 0, 60),
      named := by decide }
  { start := 0
    before := []
    udpAt := 300000000
    udp := answer
    between := [(310000000, some answer)]
    tcpAt := 320000000
    tcp := answer
    after := []
    sent := by decide
    inOrder := by decide
    udpInTime := ⟨_, rfl, by decide⟩
    tcpInTime := ⟨_, rfl, by decide⟩ }

theorem late_answer_malformed :
    mapPorts (fun _ => true) (some lateExchange.socket) = .mappingFailed .malformed := by
  decide +kernel

end NatPmp

end Windlass
