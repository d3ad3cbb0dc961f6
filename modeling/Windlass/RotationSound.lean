import Windlass.Integrations

/-!
# Turning through the servers

The next server is the first after the current one, once around the configured
list. Switch after switch to the next server goes through all of the others before
it comes back.
-/

namespace Windlass

/-! ## The next server -/

theorem mem_rotateLeft {α : Type} {l : List α} {n : Nat} {a : α} : a ∈ l.rotateLeft n ↔ a ∈ l := by
  unfold List.rotateLeft
  dsimp only
  split
  · exact Iff.rfl
  · rw [List.mem_append, or_comm, ← List.mem_append, List.take_append_drop]

theorem nextServer_other {w : Watch} {server : VpnServer} (h : w.nextServer = some server) :
    server ∈ w.servers ∧ some server ≠ w.current := by
  unfold Watch.nextServer at h
  refine ⟨mem_rotateLeft.mp (List.mem_of_find?_eq_some h), ?_⟩
  have hne := List.find?_some h
  exact of_decide_eq_true hne

theorem nextServer_isSome {w : Watch} :
    w.nextServer.isSome = true ↔ ∃ server ∈ w.servers, some server ≠ w.current := by
  unfold Watch.nextServer
  rw [List.find?_isSome]
  simp only [mem_rotateLeft, decide_eq_true_iff]

/-! ## Around the list -/

def Upcoming (servers : List VpnServer) (server : VpnServer) (others : List VpnServer) : Prop :=
  ∃ before after, servers = before ++ server :: after ∧ others = after ++ before

section
variable {servers others : List VpnServer} {server next : VpnServer}

theorem upcoming_of_mem (h : server ∈ servers) : ∃ others, Upcoming servers server others := by
  obtain ⟨before, after, rfl⟩ := List.append_of_mem h
  exact ⟨_, before, after, rfl, rfl⟩

theorem Upcoming.perm (h : Upcoming servers server others) : (server :: others).Perm servers := by
  obtain ⟨before, after, rfl, rfl⟩ := h
  exact (List.perm_append_comm.cons server).trans List.perm_middle.symm

/-- The list turned by one: the server comes up last, after the next one. -/
theorem Upcoming.turn (h : Upcoming servers server (next :: others)) :
    Upcoming servers next (others ++ [server]) := by
  obtain ⟨before, after, rfl, hothers⟩ := h
  cases after with
  | nil =>
    obtain rfl : next :: others = before := hothers
    exact ⟨[], others ++ [server], rfl, (List.append_nil _).symm⟩
  | cons first after =>
    obtain ⟨rfl, rfl⟩ := List.cons.inj hothers
    exact ⟨before ++ [server], after, by simp, by simp⟩

theorem rotateLeft_upcoming {before after : List VpnServer} :
    (before ++ server :: after).rotateLeft (before.length + 1) = after ++ (before ++ [server]) := by
  have htake : (before ++ server :: after).take (before.length + 1) = before ++ [server] := by
    simp [List.take_append]
  have hdrop : (before ++ server :: after).drop (before.length + 1) = after := by simp [List.drop_append]
  unfold List.rotateLeft
  dsimp only
  split
  · next hle =>
    rw [List.length_append, List.length_cons] at hle
    obtain rfl := List.eq_nil_of_length_eq_zero (l := before) (by omega)
    obtain rfl := List.eq_nil_of_length_eq_zero (l := after) (by omega)
    rfl
  · cases after with
    | nil => simp
    | cons first after =>
      rw [Nat.mod_eq_of_lt (by simp), htake, hdrop]

theorem nextServer_upcoming {w : Watch} (hn : w.servers.Nodup) (hc : w.current = some server)
    (h : Upcoming w.servers server others) : w.nextServer = others.head? := by
  have hother (s : VpnServer) (hs : s ∈ others) : s ≠ server :=
    fun heq => (List.nodup_cons.mp (h.perm.nodup_iff.mpr hn)).1 (heq ▸ hs)
  obtain ⟨before, after, hservers, rfl⟩ := h
  have hidx : w.servers.findIdx? (· == server) = some before.length := by
    have hbefore : before.findIdx? (· == server) = none :=
      List.findIdx?_eq_none_iff.mpr fun s hs => beq_false_of_ne (hother s (List.mem_append_right _ hs))
    rw [hservers, List.findIdx?_append, hbefore, List.findIdx?_cons, beq_self_eq_true]
    exact congrArg some (Nat.zero_add _)
  unfold Watch.nextServer
  rw [hc, Option.bind_some, hidx]
  dsimp only
  rw [hservers, rotateLeft_upcoming, ← List.append_assoc]
  cases hothers : after ++ before with
  | nil => simp
  | cons first rest =>
    have hfirst : first ≠ server := hother first (hothers ▸ List.mem_cons_self)
    have hfound : decide (some first ≠ some server) = true :=
      decide_eq_true fun heq => hfirst (Option.some.inj heq)
    rw [List.cons_append, List.find?_cons, hfound]
    rfl

end

/-! ## Switch after switch -/

def Watch.switchedTo (w : Watch) (server : VpnServer) : Watch :=
  { w with
    failover := none
    current := some server
    protection := .unknown
    failures := FailureCount.none
    lastFailure := none }

/-- The servers that this many switches, each to the next server, go to. -/
def Watch.switches (w : Watch) : Nat → List VpnServer
  | 0 => []
  | n + 1 =>
    match w.nextServer with
    | some server => server :: (w.switchedTo server).switches n
    | none => []

theorem switches_eq {w : Watch} {server : VpnServer} {others : List VpnServer} (hn : w.servers.Nodup)
    (hc : w.current = some server) (h : Upcoming w.servers server others) {n : Nat}
    (hle : n ≤ others.length) :
    w.switches n = others.take n := by
  -- each switch turns the ring of servers by one
  induction n generalizing w server others with
  | zero => rfl
  | succ n ih =>
    cases others with
    | nil => exact absurd hle (Nat.not_succ_le_zero n)
    | cons next others =>
      have hnext : w.nextServer = some next := nextServer_upcoming hn hc h
      have hle : n ≤ others.length := Nat.le_of_succ_le_succ hle
      have hrest := ih (w := w.switchedTo next) hn rfl h.turn (by simp; omega)
      unfold Watch.switches
      rw [hnext]
      dsimp only
      rw [hrest, List.take_append_of_le_length hle, List.take_succ_cons]

/-- There is a next server where some server is not the current one, it is not the current one,
and from any server of the list the switches to the next go once to each of the others. -/
theorem servers_rotated (w : Watch) (hn : w.servers.Nodup) :
    (w.nextServer.isSome = true ↔ ∃ server ∈ w.servers, some server ≠ w.current) ∧
      (∀ server, w.nextServer = some server → server ∈ w.servers ∧ some server ≠ w.current) ∧
      ∀ server, w.current = some server → server ∈ w.servers →
        (w.switches (w.servers.length - 1)).Perm (w.servers.erase server) := by
  refine ⟨nextServer_isSome, fun server => nextServer_other, fun server hc hmem => ?_⟩
  obtain ⟨others, hothers⟩ := upcoming_of_mem hmem
  have hlength : w.servers.length - 1 = others.length := by
    rw [← hothers.perm.length_eq]
    rfl
  rw [switches_eq hn hc hothers hlength.le, hlength, List.take_length]
  have herase := hothers.perm.erase server
  rwa [List.erase_cons_head] at herase

def serverA : VpnServer := ⟨"a", by decide⟩

def serverB : VpnServer := ⟨"b", by decide⟩

def serverC : VpnServer := ⟨"c", by decide⟩

def threeServers : Watch where
  servers := [serverA, serverB, serverC]
  current := some serverB
  protection := .unknown
  check := .outstanding
  failures := 0
  lastFailure := none
  failover := none
  lastCheck := 0

theorem three_servers_rotated : (threeServers.switches 2).Perm [serverA, serverC] :=
  (servers_rotated threeServers (by decide)).2.2 serverB rfl (by decide)

end Windlass
