import Windlass.Store
import Windlass.CookieSound

/-!
# Settings and what is stored

Every setting has at most one write under way, and a newer request waits for it.
What the dashboard calls saved is then what is stored, the newest request is written
last, and the cookie that may be used is the stored one, with no other asked for.
-/

namespace Windlass

open Reactive Storage

/-! ## One setting and its writes -/

section
variable {α : Type} [DecidableEq α]

inductive Setting.Kept (x : Setting α) (stored : α) : List (Storage.Task (α × Bool)) → Prop
  | rest (hs : x.saved = stored) (hp : ∀ v, x.persistence ≠ .pending v)
      (hr : x.persistence = .idle → x.requested = x.saved) : Setting.Kept x stored []
  | writing (task : Storage.Task (α × Bool)) (hp : x.persistence = .pending task.value.1)
      (hs : stored = if task.written then task.value.1 else x.saved) : Setting.Kept x stored [task]

structure Asked (α : Type) where
  newest : Option α
  written : Option α

/-- The newest value asked for is the one requested, and a write under way is the last
one and was asked for. -/
structure Setting.Heard (x : Setting α) (a : Asked α) (tasks : List (Storage.Task (α × Bool))) :
    Prop where
  requested : x.requested = a.newest.getD x.saved
  written : ∀ task ∈ tasks, a.written = some task.value.1 ∧ a.newest.isSome

def writes (written : Option α) (rotated : Bool) : List (Storage.Task (α × Bool)) :=
  (written.map fun v => { value := (v, rotated), written := false }).toList

variable {x : Setting α} {stored v : α} {tasks : List (Storage.Task (α × Bool))}
  {task : Storage.Task (α × Bool)} {a : Asked α}

theorem request_pending {w : α} (hp : x.persistence = .pending w) (v : α) :
    x.request v = ({ x with requested := v }, none) := by
  simp [Setting.request, hp]

theorem request_free (hp : ∀ w, x.persistence ≠ .pending w) (v : α) : x.request v =
    if v = x.saved then ({ x with requested := v, persistence := .idle }, none)
    else ({ x with requested := v, persistence := .pending v }, some v) := by
  unfold Setting.request
  split
  · next w hw => exact absurd hw (hp w)
  · rfl

def Setting.heed (x : Setting α) (v : Option α) : Setting α × Option α := v.elim (x, none) x.request

theorem Setting.Kept.request (h : x.Kept stored tasks) (v : α) (rotated : Bool) :
    (x.request v).1.Kept stored (tasks ++ writes (x.request v).2 rotated) := by
  cases h with
  | rest hs hp hr =>
    rw [request_free hp, List.nil_append]
    by_cases hv : v = x.saved
    · rw [if_pos hv]
      exact .rest hs (by simp) fun _ => hv
    · rw [if_neg hv]
      exact .writing { value := (v, rotated), written := false } rfl hs.symm
  | writing task hp hs =>
    rw [request_pending hp]
    exact .writing task hp hs

theorem Setting.Kept.heed (h : x.Kept stored tasks) (v : Option α) (rotated : Bool) :
    (x.heed v).1.Kept stored (tasks ++ writes (x.heed v).2 rotated) := by
  cases v with
  | none =>
    change x.Kept stored (tasks ++ [])
    rw [List.append_nil]
    exact h
  | some v => exact h.request v rotated

def Setting.ended (x : Setting α) (v : α) (succeeded : Bool) : Setting α :=
  { x with
    saved := if succeeded then v else x.saved
    persistence := if succeeded then .idle else .failed }

theorem complete_pending (hp : x.persistence = .pending v) (succeeded : Bool) : x.complete succeeded =
    if v = x.requested then (x.ended v succeeded, none)
    else (x.ended v succeeded).request x.requested := by
  simp only [Setting.complete, hp, Setting.ended]

omit [DecidableEq α] in
theorem ended_free (x : Setting α) (v : α) (succeeded : Bool) :
    ∀ w, (x.ended v succeeded).persistence ≠ .pending w := by
  intro w
  cases succeeded <;> simp [Setting.ended]

theorem Setting.Kept.complete (h : x.Kept stored [task]) (rotated : Bool) :
    (x.complete task.written).1.Kept stored (writes (x.complete task.written).2 rotated) := by
  cases h with
  | writing _ hp hs =>
    have hended : (x.ended task.value.1 task.written).saved = stored := hs.symm
    rw [complete_pending hp]
    by_cases hv : task.value.1 = x.requested
    · rw [if_pos hv]
      refine .rest hended (ended_free _ _ _) fun hi => ?_
      cases hw : task.written with
      | true => exact hv.symm
      | false => simp [Setting.ended, hw] at hi
    · rw [if_neg hv]
      have hnext : (x.ended task.value.1 task.written).request x.requested = _ :=
        request_free (ended_free x task.value.1 task.written) x.requested
      rw [hnext]
      by_cases hq : x.requested = (x.ended task.value.1 task.written).saved
      · rw [if_pos hq]
        exact .rest hended (by simp) fun _ => hq
      · rw [if_neg hq]
        exact .writing { value := (x.requested, rotated), written := false } rfl hended.symm

theorem Setting.Kept.replacementFailed (h : x.Kept stored [task]) (hw : task.written = false)
    (rotated : Bool) :
    x.replacementFailed.1.Kept stored (writes x.replacementFailed.2 rotated) := by
  have hc := h.complete rotated
  rw [hw] at hc
  cases h with
  | writing _ hp hs =>
    rw [hw] at hs
    by_cases hv : task.value.1 = x.requested
    · have hf : x.replacementFailed = ({ x with requested := x.saved, persistence := .idle }, none) := by
        simp [Setting.replacementFailed, hp, hv]
      rw [hf]
      exact .rest hs.symm (by simp) fun _ => rfl
    · have hf : x.replacementFailed = x.complete false := by
        simp [Setting.replacementFailed, hp, hv]
      rw [hf]
      exact hc

omit [DecidableEq α] in
theorem writes_last {o : Option α} {rotated : Bool} (hn : a.newest.isSome) :
    ∀ task ∈ writes o rotated, (o <|> a.written) = some task.value.1 ∧ a.newest.isSome := by
  intro task ht
  cases o with
  | none => cases ht
  | some v =>
    rw [List.mem_singleton.mp ht]
    exact ⟨rfl, hn⟩

theorem Setting.Heard.heed (h : x.Heard a tasks) (hk : x.Kept stored tasks) (v : Option α)
    (rotated : Bool) :
    (x.heed v).1.Heard ⟨v <|> a.newest, (x.heed v).2 <|> a.written⟩
      (tasks ++ writes (x.heed v).2 rotated) := by
  cases v with
  | none =>
    change x.Heard a (tasks ++ [])
    rw [List.append_nil]
    exact h
  | some v =>
    refine ⟨request_requested x v, ?_⟩
    cases hk with
    | rest hs hp hr => exact writes_last (a := ⟨some v, a.written⟩) rfl
    | writing task hp hs =>
      change ∀ t ∈ [task] ++ writes (x.request v).2 rotated, ((x.request v).2 <|> a.written) = _ ∧ _
      rw [request_pending hp]
      intro t ht
      exact ⟨(h.written t ht).1, rfl⟩

theorem Setting.Heard.complete (h : x.Heard a [task]) (succeeded rotated : Bool) :
    (x.complete succeeded).1.Heard ⟨a.newest, (x.complete succeeded).2 <|> a.written⟩
      (writes (x.complete succeeded).2 rotated) := by
  obtain ⟨-, hn⟩ := h.written task (List.mem_singleton_self _)
  refine ⟨?_, writes_last hn⟩
  obtain ⟨v, hv⟩ := Option.isSome_iff_exists.mp hn
  have hr := h.requested
  rw [hv] at hr
  rw [complete_requested, hr, hv]
  rfl

/-- A replacement that was not saved is given up, or followed by what was asked for since. -/
theorem Setting.Heard.replacementFailed (h : x.Heard a [task]) (hk : x.Kept stored [task])
    (rotated : Bool) :
    x.replacementFailed.1.Heard
      ⟨if a.newest == a.written then none else a.newest, x.replacementFailed.2 <|> a.written⟩
      (writes x.replacementFailed.2 rotated) := by
  obtain ⟨hw, hn⟩ := h.written task (List.mem_singleton_self _)
  obtain ⟨v, hv⟩ := Option.isSome_iff_exists.mp hn
  have hr : x.requested = v := by
    rw [h.requested, hv]
    rfl
  cases hk with
  | writing _ hp hs =>
    by_cases htask : task.value.1 = x.requested
    · have hf : x.replacementFailed = ({ x with requested := x.saved, persistence := .idle }, none) := by
        simp [Setting.replacementFailed, hp, htask]
      have hgiven : (a.newest == a.written) = true := by
        rw [hv, hw, htask, hr]
        simp
      rw [hf, if_pos hgiven]
      exact ⟨rfl, fun t ht => by cases ht⟩
    · have hf : x.replacementFailed = x.complete false := by
        simp [Setting.replacementFailed, hp, htask]
      have hgiven : ¬ (a.newest == a.written) = true := by
        rw [hv, hw]
        intro heq
        exact htask ((Option.some.inj (beq_iff_eq.mp heq)).symm.trans hr.symm)
      rw [hf, if_neg hgiven]
      exact h.complete false rotated

/-- A write that is not the newest request is followed by the newest, if it is not saved. -/
theorem complete_next (hp : x.persistence = .pending v) (hv : v ≠ x.requested) (succeeded : Bool) :
    (x.complete succeeded).2 =
      if x.requested = (x.complete succeeded).1.saved then none else some x.requested := by
  rw [complete_pending hp, if_neg hv, request_free (ended_free x v succeeded)]
  by_cases hq : x.requested = (x.ended v succeeded).saved
  · simp only [if_pos hq]
  · simp only [if_neg hq]

theorem replacementFailed_next (hp : x.persistence = .pending v) (hv : v ≠ x.requested) :
    x.replacementFailed = x.complete false := by
  simp [Setting.replacementFailed, hp, hv]

end

/-! ## The five settings -/

inductive SettingKey
  | historyLimit | apiCookie | ntfyTopic | pointsReserve | torrentLimits
deriving DecidableEq

abbrev SettingKey.Value : SettingKey → Type
  | .historyLimit => HistoryLimit
  | .apiCookie => Option ApiCookie
  | .ntfyTopic => Option NtfyTopic
  | .pointsReserve => PointsReserve
  | .torrentLimits => TorrentLimits

/-- The column of the settings table, empty where nothing was ever written. -/
abbrev SettingKey.Stored : SettingKey → Type
  | .historyLimit => Option HistoryLimit
  | .apiCookie => Option ApiCookie
  | .ntfyTopic => Option NtfyTopic
  | .pointsReserve => Option PointsReserve
  | .torrentLimits => Option TorrentLimits

instance : (key : SettingKey) → DecidableEq key.Value
  | .historyLimit => inferInstanceAs (DecidableEq HistoryLimit)
  | .apiCookie => inferInstanceAs (DecidableEq (Option ApiCookie))
  | .ntfyTopic => inferInstanceAs (DecidableEq (Option NtfyTopic))
  | .pointsReserve => inferInstanceAs (DecidableEq PointsReserve)
  | .torrentLimits => inferInstanceAs (DecidableEq TorrentLimits)

def SettingKey.setting : (key : SettingKey) → Settings → Setting key.Value
  | .historyLimit => Settings.historyLimit
  | .apiCookie => Settings.apiCookie
  | .ntfyTopic => Settings.ntfyTopic
  | .pointsReserve => Settings.pointsReserve
  | .torrentLimits => Settings.torrentLimits

def SettingKey.view : (key : SettingKey) → key.Stored → key.Value
  | .historyLimit => fun limit => limit.getD default
  | .apiCookie => id
  | .ntfyTopic => id
  | .pointsReserve => fun reserve => reserve.getD default
  | .torrentLimits => fun limits => limits.getD default

def SettingKey.column : (key : SettingKey) → key.Value → key.Stored
  | .historyLimit => some
  | .apiCookie => id
  | .ntfyTopic => id
  | .pointsReserve => some
  | .torrentLimits => some

/-- The write an action asks for: the value, and whether MAM issued it. -/
def SettingKey.write? : (key : SettingKey) → Action → Option (key.Value × Bool)
  | .historyLimit, .writeHistoryLimit limit => some (limit, false)
  | .apiCookie, .writeApiCookie cookie => some (cookie, false)
  | .apiCookie, .writeRotatedApiCookie cookie => some (some cookie, true)
  | .ntfyTopic, .writeNtfyTopic topic => some (topic, false)
  | .pointsReserve, .writePointsReserve reserve => some (reserve, false)
  | .torrentLimits, .writeTorrentLimits limits => some (limits, false)
  | _, _ => none

def SettingKey.result : SettingKey → Bool → Bool → SettingsEvent
  | .historyLimit, _, true => .historyLimitWritten
  | .historyLimit, _, false => .historyLimitWriteFailed
  | .apiCookie, false, true => .apiCookieWritten
  | .apiCookie, false, false => .apiCookieWriteFailed
  | .apiCookie, true, true => .rotatedApiCookieWritten
  | .apiCookie, true, false => .rotatedApiCookieWriteFailed
  | .ntfyTopic, _, true => .ntfyTopicWritten
  | .ntfyTopic, _, false => .ntfyTopicWriteFailed
  | .pointsReserve, _, true => .pointsReserveWritten
  | .pointsReserve, _, false => .pointsReserveWriteFailed
  | .torrentLimits, _, true => .torrentLimitsWritten
  | .torrentLimits, _, false => .torrentLimitsWriteFailed

def SettingKey.asks : (key : SettingKey) → SettingsEvent → Option key.Value
  | .historyLimit, .setHistoryLimit limit => some limit
  | .apiCookie, .setApiCookie cookie => some (some cookie)
  | .apiCookie, .clearApiCookie => some none
  | .ntfyTopic, .setNtfyTopic topic => some (some topic)
  | .ntfyTopic, .clearNtfyTopic => some none
  | .pointsReserve, .setPointsReserve reserve => some reserve
  | .torrentLimits, .setTorrentLimits limits => some limits
  | _, _ => none

def SettingKey.issued : (key : SettingKey) → ApiCookie → Option key.Value
  | .apiCookie, cookie => some (some cookie)
  | _, _ => none

def SettingKey.request? (key : SettingKey) (c : Core) (event : Event) : Option key.Value :=
  if c.settings.toLoaded.isSome then
    match event with
    | .settings event => key.asks event
    | event => (c.mam.rotates event).bind key.issued
  else none

def SettingKey.givesUp : SettingKey → Event → Bool
  | .apiCookie, .settings .rotatedApiCookieWriteFailed => true
  | _, _ => false

def SettingKey.hear (key : SettingKey) (a : Asked key.Value) (c : Core) (i : TimedEvent) :
    Asked key.Value where
  newest := key.request? c i.event <|>
    if key.givesUp i.event && a.newest == a.written then none else a.newest
  written := ((core.step c i).2.filterMap key.write?).getLast?.map Prod.fst <|> a.written

def SettingKey.fromStorage (key : SettingKey) (event : SettingsEvent) : Bool :=
  match event with
  | .read .. => true
  | event => [false, true].any fun rotated => [false, true].any fun succeeded =>
    event == key.result rotated succeeded

/-- When storage answers, and what it holds of the other settings. -/
structure Answering where
  at' : ClockReading
  historyLimit : Option HistoryLimit
  apiCookie : Option ApiCookie
  ntfyTopic : Option NtfyTopic
  pointsReserve : Option PointsReserve
  torrentLimits : Option TorrentLimits

def SettingKey.read : (key : SettingKey) → Answering → key.Stored → SettingsEvent
  | .historyLimit, a, limit => .read limit a.apiCookie a.ntfyTopic a.pointsReserve a.torrentLimits
  | .apiCookie, a, cookie => .read a.historyLimit cookie a.ntfyTopic a.pointsReserve a.torrentLimits
  | .ntfyTopic, a, topic => .read a.historyLimit a.apiCookie topic a.pointsReserve a.torrentLimits
  | .pointsReserve, a, reserve => .read a.historyLimit a.apiCookie a.ntfyTopic reserve a.torrentLimits
  | .torrentLimits, a, limits => .read a.historyLimit a.apiCookie a.ntfyTopic a.pointsReserve limits

/-- The core and what was asked of it, over what is stored for one setting. -/
def SettingKey.client (key : SettingKey) :
    Client (Core × Asked key.Value) TimedEvent Action key.Stored (key.Value × Bool) Answering where
  machine := core.noting key.hear { newest := none, written := none }
  task? := key.write?
  effect write _ := key.column write.1
  answer a write succeeded := { occurredAt := a.at', event := .settings (key.result write.2 succeeded) }
  read a stored := { occurredAt := a.at', event := .settings (key.read a stored) }
  reserved i :=
    match i.event with
    | .settings event => key.fromStorage event
    | _ => false

theorem view_column (key : SettingKey) (v : key.Value) : key.view (key.column v) = v := by
  cases key <;> rfl

/-! ## What an event does to one setting -/

def SettingKey.on :
    (key : SettingKey) → SettingsEvent → Setting key.Value → Setting key.Value × Option key.Value
  | .historyLimit, .setHistoryLimit limit => fun x => x.request limit
  | .historyLimit, .historyLimitWritten => fun x => x.complete true
  | .historyLimit, .historyLimitWriteFailed => fun x => x.complete false
  | .apiCookie, event => event.onCookie
  | .ntfyTopic, .setNtfyTopic topic => fun x => x.request (some topic)
  | .ntfyTopic, .clearNtfyTopic => fun x => x.request none
  | .ntfyTopic, .ntfyTopicWritten => fun x => x.complete true
  | .ntfyTopic, .ntfyTopicWriteFailed => fun x => x.complete false
  | .pointsReserve, .setPointsReserve reserve => fun x => x.request reserve
  | .pointsReserve, .pointsReserveWritten => fun x => x.complete true
  | .pointsReserve, .pointsReserveWriteFailed => fun x => x.complete false
  | .torrentLimits, .setTorrentLimits limits => fun x => x.request limits
  | .torrentLimits, .torrentLimitsWritten => fun x => x.complete true
  | .torrentLimits, .torrentLimitsWriteFailed => fun x => x.complete false
  | _, _ => fun x => (x, none)

/-- A settings event changes each of loaded settings as its own operation does. -/
theorem handle_on (key : SettingKey) (s : Settings) (event : SettingsEvent) : ∃ s' out,
    (SettingsState.loaded s).handle event = (.loaded s', out) ∧
      key.setting s' = (key.on event (key.setting s)).1 ∧
      out.filterMap key.write? = ((key.on event (key.setting s)).2.map fun v => (v, false)).toList := by
  have hother {key : SettingKey} {β : Type} (o : Option β) {f : β → Action}
    (hf : ∀ b, key.write? (f b) = none) :
      (o.map f).toList.filterMap key.write? = [] := by
    cases o with
    | none => rfl
    | some b => simp [hf]
  have hown {key : SettingKey} (o : Option key.Value) {f : key.Value → Action}
      (hf : ∀ v, key.write? (f v) = some (v, false)) :
      (o.map f).toList.filterMap key.write? = (o.map fun v => (v, false)).toList := by
    cases o with
    | none => rfl
    | some v => simp [hf]
  -- each setting hears its own events, and no other's
  cases key with
  | historyLimit =>
    cases event with
    | read | readFailed => exact ⟨s, [], rfl, rfl, rfl⟩
    | setHistoryLimit | historyLimitWritten | historyLimitWriteFailed =>
      exact ⟨_, _, rfl, rfl, hown _ fun _ => rfl⟩
    | _ => exact ⟨_, _, rfl, rfl, hother _ fun _ => rfl⟩
  | apiCookie =>
    cases event with
    | read | readFailed => exact ⟨s, [], rfl, rfl, rfl⟩
    | setApiCookie | clearApiCookie | apiCookieWritten | apiCookieWriteFailed | rotatedApiCookieWritten
    | rotatedApiCookieWriteFailed => exact ⟨_, _, rfl, rfl, hown _ fun _ => rfl⟩
    | _ => exact ⟨_, _, rfl, rfl, hother _ fun _ => rfl⟩
  | ntfyTopic =>
    cases event with
    | read | readFailed => exact ⟨s, [], rfl, rfl, rfl⟩
    | setNtfyTopic | clearNtfyTopic | ntfyTopicWritten | ntfyTopicWriteFailed =>
      exact ⟨_, _, rfl, rfl, hown _ fun _ => rfl⟩
    | _ => exact ⟨_, _, rfl, rfl, hother _ fun _ => rfl⟩
  | pointsReserve =>
    cases event with
    | read | readFailed => exact ⟨s, [], rfl, rfl, rfl⟩
    | setPointsReserve | pointsReserveWritten | pointsReserveWriteFailed =>
      exact ⟨_, _, rfl, rfl, hown _ fun _ => rfl⟩
    | _ => exact ⟨_, _, rfl, rfl, hother _ fun _ => rfl⟩
  | torrentLimits =>
    cases event with
    | read | readFailed => exact ⟨s, [], rfl, rfl, rfl⟩
    | setTorrentLimits | torrentLimitsWritten | torrentLimitsWriteFailed =>
      exact ⟨_, _, rfl, rfl, hown _ fun _ => rfl⟩
    | _ => exact ⟨_, _, rfl, rfl, hother _ fun _ => rfl⟩

/-- A cookie MAM issued is a request for the cookie, and for nothing else. -/
theorem rotate_on (key : SettingKey) (s : Settings) (cookie : ApiCookie) : ∃ s' out,
    (SettingsState.loaded s).rotate cookie = (.loaded s', out) ∧
      key.setting s' = ((key.setting s).heed (key.issued cookie)).1 ∧
      out.filterMap key.write? =
      (((key.setting s).heed (key.issued cookie)).2.map fun v => (v, true)).toList := by
  have hother {key : SettingKey} (o : Option ApiCookie)
    (hf : ∀ k, key.write? (.writeRotatedApiCookie k) = none) :
      (o.map Action.writeRotatedApiCookie).toList.filterMap key.write? = [] := by
    cases o with
    | none => rfl
    | some k => simp [hf]
  cases key with
  | apiCookie =>
    refine ⟨_, _, rfl, rfl, ?_⟩
    change ((s.apiCookie.request (some cookie)).2.join.map
      Action.writeRotatedApiCookie).toList.filterMap _ =
      ((s.apiCookie.request (some cookie)).2.map fun v => (v, true)).toList
    cases hw : (s.apiCookie.request (some cookie)).2 with
    | none => rfl
    | some v =>
      rw [request_write _ hw]
      rfl
  | _ => exact ⟨_, _, rfl, rfl, hother _ fun _ => rfl⟩

/-- What storage does not answer is a request or nothing for the setting. -/
theorem on_asked (key : SettingKey) {event : SettingsEvent} (h : key.fromStorage event = false) :
    key.on event = fun x => x.heed (key.asks event) := by
  cases key with
  | historyLimit =>
    cases event with
    | historyLimitWritten | historyLimitWriteFailed => cases h
    | _ => rfl
  | apiCookie =>
    cases event with
    | apiCookieWritten | apiCookieWriteFailed | rotatedApiCookieWritten | rotatedApiCookieWriteFailed =>
      cases h
    | _ => rfl
  | ntfyTopic =>
    cases event with
    | ntfyTopicWritten | ntfyTopicWriteFailed => cases h
    | _ => rfl
  | pointsReserve =>
    cases event with
    | pointsReserveWritten | pointsReserveWriteFailed => cases h
    | _ => rfl
  | torrentLimits =>
    cases event with
    | torrentLimitsWritten | torrentLimitsWriteFailed => cases h
    | _ => rfl

/-- A write that failed is a failed replacement when MAM issued its cookie. -/
theorem on_result (key : SettingKey) (rotated succeeded : Bool) :
    key.on (key.result rotated succeeded) = (fun x => x.complete succeeded) ∧
        key.givesUp (.settings (key.result rotated succeeded)) = false ∨
      succeeded = false ∧ key.on (key.result rotated succeeded) = (fun x => x.replacementFailed) ∧
        key.givesUp (.settings (key.result rotated succeeded)) = true := by
  cases key <;> cases rotated <;> cases succeeded <;>
    first | exact .inl ⟨rfl, rfl⟩ | exact .inr ⟨rfl, rfl, rfl⟩

theorem result_stored (key : SettingKey) (rotated succeeded : Bool) :
    key.fromStorage (key.result rotated succeeded) := by
  cases key <;> cases rotated <;> cases succeeded <;> rfl

theorem read_stored (key : SettingKey) (a : Answering) (stored : key.Stored) :
    key.fromStorage (key.read a stored) := by
  cases key <;> rfl

theorem read_kept (key : SettingKey) (a : Answering) (stored : key.Stored) :
    key.givesUp (.settings (key.read a stored)) = false := by
  cases key <;> rfl

/-! ## What a step does to the settings -/

section
variable (key : SettingKey) (c : Core) (now : ClockReading)

theorem handle_write (event : Event) : (c.handle now event).2.filterMap key.write? =
    ((c.note event).dispatch now event).2.filterMap key.write? :=
  handle_dispatched_out c now event fun a ha => by
    cases key <;> cases a <;> first | rfl | simp [Action.part] at ha

theorem step_settings (event : SettingsEvent) :
    (c.handle now (.settings event)).1.settings = (c.settings.handle event).1 ∧
      (c.handle now (.settings event)).2.filterMap key.write? =
      (c.settings.handle event).2.filterMap key.write? := by
  rw [handle_write, (handle_frame c now _).2.1, received_settings]
  exact ⟨rfl, rfl⟩

theorem emits_no_write {part : Part} {out : List Action} (h : Emits part out) (hp : part ≠ .settings) :
    out.filterMap key.write? = [] := by
  refine List.filterMap_eq_nil_iff.mpr fun a ha => ?_
  have hne : a.part ≠ .settings := fun hs => hp ((h a ha).symm.trans hs)
  cases key <;> cases a <;> first | rfl | exact absurd rfl hne

/-- Another event saves a cookie MAM issued, has the settings read for the first
time, or leaves them alone. -/
theorem step_other {event : Event} (h : ∀ e, event ≠ .settings e) :
    (∃ k, c.mam.rotates event = some k ∧ (c.handle now event).1.settings = (c.settings.rotate k).1 ∧
        (c.handle now event).2.filterMap key.write? = (c.settings.rotate k).2.filterMap key.write?) ∨
      c.mam.rotates event = none ∧ (c.handle now event).2.filterMap key.write? = [] ∧
        ((c.handle now event).1.settings = c.settings ∨
          c.state.isEarly ∧ (c.handle now event).1.settings = .reading) := by
  rw [handle_write, (handle_frame c now event).2.1, received_settings]
  -- most events do not reach the settings at all
  have hquiet (hp : Part.settings ∉ event.parts) :
      ((c.note event).dispatch now event).2.filterMap key.write? = [] := by
    refine List.filterMap_eq_nil_iff.mpr fun a ha => ?_
    have hne : a.part ≠ .settings := fun hs => hp (hs ▸ dispatch_parts _ now ha)
    cases key <;> cases a <;> first | rfl | exact absurd rfl hne
  cases event with
  | settings e => exact absurd rfl (h e)
  | startup e =>
    refine .inr ⟨rfl, ?_, ?_⟩
    · simp only [Core.dispatch, Core.handleStartup, List.filterMap_append]
      rw [emits_no_write key (startup_emits _ e) (by decide), List.nil_append]
      split
      · cases key <;> rfl
      · rfl
    · obtain ⟨-, hs, -⟩ | ⟨ho, -, -, hs, -⟩ := handleStartup_eq (c.note (.startup e)) e
      · exact .inl hs
      · refine .inr ⟨?_, hs⟩
        cases hst : c.state with
        | openingStorage requested => rfl
        | _ =>
          have ho' : c.state.isOpeningStorage = true := ho
          rw [hst] at ho'
          cases ho'
  | mam e =>
    simp only [Core.dispatch, Core.handleMam, List.filterMap_append]
    have hbooks : ((c.note (.mam e)).mam.handle now e (c.note (.mam e)).registry).2.2.1.filterMap
        key.write? = [] := by
      refine List.filterMap_eq_nil_iff.mpr fun a ha => ?_
      have hne : a.part ≠ .settings := by
        intro hs
        have hp := mam_handle_parts now _ _ e ha
        rw [hs] at hp
        cases hp with
        | tail _ hp => cases hp with
          | tail _ hp => cases hp
      cases key <;> cases a <;> first | rfl | exact absurd rfl hne
    obtain ⟨hrotates, -⟩ := mam_handle_rotates (c.note (.mam e)).mam now (c.note (.mam e)).registry e
    rw [hbooks, List.nil_append, hrotates]
    split
    · next k hk => exact .inl ⟨k, hk, rfl, rfl⟩
    · next hk => exact .inr ⟨hk, rfl, .inl rfl⟩
  | timerExpired name id =>
    cases name <;> exact .inr ⟨rfl, hquiet (by simp [Event.parts, TimerName.part]), .inl rfl⟩
  | _ => exact .inr ⟨rfl, hquiet (by simp [Event.parts]), .inl rfl⟩

end

section
variable {key : SettingKey} {c : Core} {event : Event} (now : ClockReading)

theorem loaded_or (s : SettingsState) : (∃ s', s = .loaded s') ∨ ∀ s', s ≠ .loaded s' := by
  cases s with
  | loaded s' => exact .inl ⟨s', rfl⟩
  | _ => exact .inr fun _ => nofun

/-- Without loaded settings an event asks for nothing, and only a read loads them. -/
theorem handle_unloaded {s : SettingsState} (hs : ∀ s', s ≠ .loaded s') (event : SettingsEvent) :
    (s.handle event).2 = [] ∧ ((∀ s', (s.handle event).1 ≠ .loaded s') ∨
      s = .reading ∧ ∃ limit cookie topic reserve limits,
      event = .read limit cookie topic reserve limits) := by
  cases s with
  | loaded s' => exact absurd rfl (hs s')
  | unread => cases event <;> exact ⟨rfl, .inl fun _ => nofun⟩
  | readFailed => cases event <;> exact ⟨rfl, .inl fun _ => nofun⟩
  | reading =>
    cases event with
    | read limit cookie topic reserve limits =>
      exact ⟨rfl, .inr ⟨rfl, limit, cookie, topic, reserve, limits, rfl⟩⟩
    | _ => exact ⟨rfl, .inl fun _ => nofun⟩

/-- Loaded settings take what storage does not bring as what it asks for. -/
theorem step_asked {s : Settings} (hs : c.settings = .loaded s) (hc : c.state.isEarly = false)
    (hr : ∀ e, event = .settings e → key.fromStorage e = false) : ∃ s' rotated,
    (c.handle now event).1.settings = .loaded s' ∧
      key.setting s' = ((key.setting s).heed (key.request? c event)).1 ∧
      (c.handle now event).2.filterMap key.write? =
        (((key.setting s).heed (key.request? c event)).2.map fun v => (v, rotated)).toList := by
  have hloaded : c.settings.toLoaded.isSome = true := by
    rw [hs]
    rfl
  by_cases he : ∃ e, event = .settings e
  · obtain ⟨e, rfl⟩ := he
    obtain ⟨hsettings, hout⟩ := step_settings key c now e
    obtain ⟨s', out, hh, hset, hw⟩ := handle_on key s e
    rw [on_asked key (hr e rfl)] at hset hw
    have hasks : key.request? c (.settings e) = key.asks e := if_pos hloaded
    rw [hs, hh] at hsettings hout
    rw [hasks]
    exact ⟨s', false, hsettings, hset, hout.trans hw⟩
  · have hne : ∀ e, event ≠ .settings e := fun e h => he ⟨e, h⟩
    have hasks : key.request? c event = (c.mam.rotates event).bind key.issued := by
      unfold SettingKey.request?
      rw [if_pos hloaded]
      split
      · next e => exact absurd rfl (hne e)
      · rfl
    rw [hasks]
    obtain ⟨k, hk, hsettings, hout⟩ | ⟨hk, hout, hsettings⟩ := step_other key c now hne
    · obtain ⟨s', out, hh, hset, hw⟩ := rotate_on key s k
      rw [hs, hh] at hsettings hout
      rw [hk]
      exact ⟨s', true, hsettings, hset, hout.trans hw⟩
    · rw [hk]
      refine ⟨s, false, ?_, rfl, hout⟩
      rcases hsettings with hsettings | ⟨hearly, -⟩
      · exact hsettings.trans hs
      · rw [hc] at hearly
        cases hearly

/-- Settings that are not loaded stay so, and nothing is written, unless storage reads them. -/
theorem step_unloaded (hl : ∀ s, c.settings ≠ .loaded s)
    (hr : ∀ e, event = .settings e → key.fromStorage e = false) :
    (c.handle now event).2.filterMap key.write? = [] ∧ ∀ s,
    (c.handle now event).1.settings ≠ .loaded s := by
  by_cases he : ∃ e, event = .settings e
  · obtain ⟨e, rfl⟩ := he
    obtain ⟨hsettings, hout⟩ := step_settings key c now e
    obtain ⟨hnone, hn | ⟨-, limit, cookie, topic, reserve, limits, rfl⟩⟩ := handle_unloaded hl e
    · rw [hout, hnone, hsettings]
      exact ⟨rfl, hn⟩
    · cases hr _ rfl
  · obtain ⟨k, -, hsettings, hout⟩ | ⟨-, hout, hsettings⟩ := step_other key c now fun e h => he ⟨e, h⟩
    · have hsame : c.settings.rotate k = (c.settings, []) := by
        cases hs : c.settings with
        | loaded s => exact absurd hs (hl s)
        | _ => rfl
      rw [hsettings, hout, hsame]
      exact ⟨rfl, hl⟩
    · refine ⟨hout, fun s => ?_⟩
      rcases hsettings with hsettings | ⟨-, hsettings⟩
      · rw [hsettings]
        exact hl s
      · rw [hsettings]
        exact nofun

end

/-! ## The settings over what is stored -/

section
variable {key : SettingKey} {s : SettingsState} {a : Asked key.Value}
  {store : Store key.Stored (key.Value × Bool)}

/-- Settings that are not loaded have nothing written and were asked for nothing. -/
def SettingKey.Held (key : SettingKey) (s : SettingsState) (a : Asked key.Value)
    (store : Store key.Stored (key.Value × Bool)) : Prop :=
  match s with
  | .loaded s =>
    (key.setting s).Kept (key.view store.stored) store.tasks ∧ (key.setting s).Heard a store.tasks
  | _ => store.tasks = [] ∧ a.newest = none

theorem issue_writes (written : Option key.Value) (rotated : Bool) :
    (store.issue (written.map fun v => (v, rotated)).toList).tasks = store.tasks ++
    writes written rotated := by
  cases written <;> rfl

theorem last_written (written : Option key.Value) (rotated : Bool) :
    ((written.map fun v => (v, rotated)).toList.getLast?.map Prod.fst) = written := by
  cases written <;> rfl

theorem held_idle (h : key.Held s a store) (hs : ∀ s', s ≠ .loaded s') :
    store.tasks = [] ∧ a.newest = none := by
  cases s with
  | loaded s' => exact absurd rfl (hs s')
  | _ => exact h

theorem idle_held (h : store.tasks = [] ∧ a.newest = none) (hs : ∀ s', s ≠ .loaded s') :
    key.Held s a store := by
  cases s with
  | loaded s' => exact absurd rfl (hs s')
  | _ => exact h

theorem read_loads (key : SettingKey) (a : Answering) (stored : key.Stored) : ∃ s',
    SettingsState.reading.handle (key.read a stored) = (.loaded s', []) ∧
      key.setting s' = Setting.loaded (key.view stored) (key.view stored) := by
  cases key <;> exact ⟨_, rfl, rfl⟩

theorem on_read (key : SettingKey) (a : Answering) (stored : key.Stored) (x : Setting key.Value) :
    key.on (key.read a stored) x = (x, none) := by
  cases key <;> rfl

theorem asks_stored (key : SettingKey) {event : SettingsEvent} (h : key.fromStorage event) :
    key.asks event = none := by
  cases key <;> cases event <;> first | rfl | cases h

/-- What is heard of an event that storage brings, or that settings not loaded refuse. -/
theorem hear_quiet {c : Core} {i : TimedEvent} (hq : key.request? c i.event = none) :
    key.hear a c i =
      ⟨if key.givesUp i.event && a.newest == a.written then none else a.newest,
        ((core.step c i).2.filterMap key.write?).getLast?.map Prod.fst <|> a.written⟩ := by
  unfold SettingKey.hear
  rw [hq]
  rfl

theorem request_stored {c : Core} {event : SettingsEvent} (h : key.fromStorage event) :
    key.request? c (.settings event) = none := by
  unfold SettingKey.request?
  split
  · exact asks_stored key h
  · rfl

theorem givesUp_stored {event : Event} (h : ∀ e, event = .settings e → key.fromStorage e = false) :
    key.givesUp event = false := by
  unfold SettingKey.givesUp
  split
  · cases h _ rfl
  · rfl

theorem unloaded_held {c : Core} {i : TimedEvent} (h : store.tasks = [] ∧ a.newest = none)
    (hl : ∀ s, c.settings ≠ .loaded s) (hout : (core.step c i).2.filterMap key.write? = [])
    (hs : ∀ s, (core.step c i).1.settings ≠ .loaded s) :
    key.Held (core.step c i).1.settings (key.hear a c i)
    (store.issue ((core.step c i).2.filterMap key.write?)) := by
  have hquiet : key.request? c i.event = none := by
    unfold SettingKey.request?
    obtain ⟨s, hc⟩ | hc := loaded_or c.settings
    · exact absurd hc (hl s)
    · rw [if_neg]
      intro hsome
      cases hload : c.settings with
      | loaded s => exact hc s hload
      | _ => simp [hload, SettingsState.toLoaded] at hsome
  rw [hout, store_issue_nil]
  refine idle_held ⟨h.1, ?_⟩ hs
  rw [hear_quiet hquiet, h.2]
  simp

/-- What storage does not bring is taken as what it asks for, or refused. -/
theorem held_input {c : Core} (hc : CookieInv c) (h : key.Held c.settings a store) {i : TimedEvent}
    (hi : key.client.reserved i = false) :
    key.Held (core.step c i).1.settings (key.hear a c i)
    (store.issue ((core.step c i).2.filterMap key.write?)) := by
  have hr : ∀ e, i.event = .settings e → key.fromStorage e = false := by
    intro e he
    change (match i.event with | .settings event => key.fromStorage event | _ => false) = false at hi
    rw [he] at hi
    exact hi
  obtain ⟨s, hs⟩ | hl := loaded_or c.settings
  · obtain ⟨s', rotated, hset, hx, hout⟩ := step_asked i.occurredAt hs (hc.started (by simp [hs])) hr
    have hset' : (core.step c i).1.settings = .loaded s' := hset
    have hout' : (core.step c i).2.filterMap key.write? = _ := hout
    have hhear : key.hear a c i =
        ⟨key.request? c i.event <|> a.newest,
          ((key.setting s).heed (key.request? c i.event)).2 <|> a.written⟩ := by
      unfold SettingKey.hear
      rw [hout', last_written, givesUp_stored hr]
      rfl
    rw [hs] at h
    obtain ⟨hkept, hheard⟩ := h
    rw [hset', hhear, hout']
    change (key.setting s').Kept (key.view store.stored) (store.issue _).tasks ∧
      (key.setting s').Heard _ (store.issue _).tasks
    rw [issue_writes, hx]
    exact ⟨hkept.heed _ rotated, hheard.heed hkept _ rotated⟩
  · obtain ⟨hout, hs⟩ := step_unloaded i.occurredAt hl hr
    exact unloaded_held (held_idle h hl) hl hout hs

/-- Once the write under way ends, nothing is, or the write of what was asked for since. -/
theorem held_result {c : Core} {task : Storage.Task (key.Value × Bool)} (h : key.Held c.settings a store)
    (ht : store.tasks = [task]) {k : Nat} (hk : (store.remove k).tasks = []) (at' : ClockReading) :
    key.Held (c.handle at' (.settings (key.result task.value.2 task.written))).1.settings
      (key.hear a c { occurredAt := at', event := .settings (key.result task.value.2 task.written) })
      ((store.remove k).issue
        ((c.handle at' (.settings (key.result task.value.2 task.written))).2.filterMap key.write?)) := by
  obtain ⟨s, hs⟩ | hl := loaded_or c.settings
  · obtain ⟨hsettings, hout⟩ := step_settings key c at' (key.result task.value.2 task.written)
    obtain ⟨s', out, hh, hset, hw⟩ := handle_on key s (key.result task.value.2 task.written)
    rw [hs, hh] at hsettings hout
    have hwrites := hout.trans hw
    rw [hs] at h
    obtain ⟨hkept, hheard⟩ : (key.setting s).Kept (key.view store.stored) [task] ∧
      (key.setting s).Heard a [task] :=
      ht ▸ h
    have hquiet :=
      hear_quiet (a := a) (c := c) (i := ⟨at', .settings (key.result task.value.2 task.written)⟩)
      (request_stored (result_stored key task.value.2 task.written))
    have hlast : ((core.step c ⟨at', .settings (key.result task.value.2 task.written)⟩).2.filterMap
        key.write?).getLast?.map Prod.fst =
        (key.on (key.result task.value.2 task.written) (key.setting s)).2 :=
      (congrArg (fun l => l.getLast?.map Prod.fst) hwrites).trans (last_written _ false)
    rw [hlast] at hquiet
    rw [hsettings, hquiet, hwrites]
    change (key.setting s').Kept (key.view store.stored) ((store.remove k).issue _).tasks ∧
      (key.setting s').Heard _ ((store.remove k).issue _).tasks
    rw [issue_writes, hset, hk, List.nil_append]
    obtain ⟨hon, hgives⟩ | ⟨hf, hon, hgives⟩ := on_result key task.value.2 task.written
    · rw [hon, hgives]
      exact ⟨hkept.complete false, hheard.complete task.written false⟩
    · rw [hon, hgives]
      exact ⟨hkept.replacementFailed hf false, hheard.replacementFailed hkept false⟩
  · exact absurd (ht.symm.trans (held_idle h hl).1) (List.cons_ne_nil _ _)

theorem held_read {c : Core} (h : key.Held c.settings a store) (at' : Answering) :
    key.Held (c.handle at'.at' (.settings (key.read at' store.stored))).1.settings
      (key.hear a c { occurredAt := at'.at', event := .settings (key.read at' store.stored) })
      (store.issue ((c.handle at'.at' (.settings (key.read at' store.stored))).2.filterMap
        key.write?)) := by
  obtain ⟨hsettings, hout⟩ := step_settings key c at'.at' (key.read at' store.stored)
  have hquiet := hear_quiet (a := a) (c := c) (i := ⟨at'.at', .settings (key.read at' store.stored)⟩)
    (request_stored (read_stored key at' store.stored))
  rw [read_kept] at hquiet
  obtain ⟨s, hs⟩ | hl := loaded_or c.settings
  · obtain ⟨s', out, hh, hset, hw⟩ := handle_on key s (key.read at' store.stored)
    rw [on_read] at hset hw
    rw [hs, hh] at hsettings hout
    have hnone : (core.step c ⟨at'.at',
        .settings (key.read at' store.stored)⟩).2.filterMap key.write? = [] :=
      hout.trans hw
    rw [hnone] at hquiet
    rw [hs] at h
    rw [hsettings, hquiet, hout.trans hw]
    change (key.setting s').Kept (key.view store.stored) (store.issue []).tasks ∧
      (key.setting s').Heard a (store.issue []).tasks
    rw [hset, store_issue_nil]
    exact h
  · have hn := held_idle h hl
    obtain ⟨hnone, hs | ⟨hreading, -⟩⟩ := handle_unloaded hl (key.read at' store.stored)
    · exact unloaded_held (i := ⟨at'.at', .settings (key.read at' store.stored)⟩) hn hl
        (hout.trans (by rw [hnone]; rfl)) fun s hs' => hs s (hsettings.symm.trans hs')
    · obtain ⟨s', hh, hset⟩ := read_loads key at' store.stored
      rw [hreading, hh] at hsettings hout
      have hnone : (core.step c ⟨at'.at',
        .settings (key.read at' store.stored)⟩).2.filterMap key.write? = [] := hout
      rw [hnone] at hquiet
      rw [hsettings, hquiet, hout]
      change (key.setting s').Kept (key.view store.stored) (store.issue []).tasks ∧
        (key.setting s').Heard a (store.issue []).tasks
      rw [hset, store_issue_nil, hn.1]
      refine ⟨.rest rfl (by simp [Setting.loaded]) fun _ => rfl, ?_, fun t ht => by cases ht⟩
      rw [hn.2]
      rfl

theorem held_busy (h : key.Held s a store) :
    store.tasks = [] ∨ ∃ s' task, s = .loaded s' ∧ store.tasks = [task] ∧
    (key.setting s').persistence = .pending task.value.1 := by
  obtain ⟨s, rfl⟩ | hl := loaded_or s
  · obtain ⟨hkept, -⟩ : (key.setting s).Kept (key.view store.stored) store.tasks ∧ _ := h
    generalize store.tasks = tasks at hkept ⊢
    cases hkept with
    | rest => exact .inl rfl
    | writing task hp => exact .inr ⟨s, task, rfl, rfl, hp⟩
  · exact .inl (held_idle h hl).1

theorem held_write (h : key.Held s a store) (k : Nat) :
    key.Held s a (store.write (fun write _ => key.column write.1) k) := by
  obtain hn | ⟨s, task, rfl, ht, hp⟩ := held_busy h
  · rw [store_write_idle hn]
    exact h
  · obtain hw | ⟨-, hw⟩ := store_write_one ht (fun write _ => key.column write.1) k
    · rw [hw]
      exact h
    · obtain ⟨-, hheard⟩ : _ ∧ (key.setting s).Heard a store.tasks := h
      rw [ht] at hheard
      rw [hw]
      refine ⟨?_, hheard.requested, fun t hmem => ?_⟩
      · change (key.setting s).Kept (key.view (key.column task.value.1)) [{ task with written := true }]
        rw [view_column]
        exact .writing _ hp rfl
      · rw [List.mem_singleton.mp hmem]
        exact hheard.written task (List.mem_singleton_self _)

end

/-! ## Runs -/

section
variable (key : SettingKey) (stored : key.Stored) (acts : List (Act TimedEvent Answering))

def SettingKey.last : Served (Core × Asked key.Value) key.Stored (key.Value × Bool) :=
  (key.client.over' stored).last acts

theorem held_last : CookieInv (key.last stored acts).core.1 ∧
    key.Held (key.last stored acts).core.1.settings (key.last stored acts).core.2
    (key.last stored acts).store := by
  have hinit : key.Held SettingsState.unread { newest := none, written := none }
    { stored := stored, tasks := [] } :=
    ⟨rfl, rfl⟩
  refine @served_invariant _ _ _ _ _ _ key.client
    (fun c store => CookieInv c.1 ∧ key.Held c.1.settings c.2 store) stored
    ⟨cookieInv_init, hinit⟩ ?_ ?_ ?_ ?_ acts
  · intro heard store i hheard hi
    obtain ⟨hc, h⟩ := hheard
    have hinv := cookieInv_step i.occurredAt i.event hc
    have hkept := held_input hc h hi
    exact ⟨hinv, hkept⟩
  · intro heard store k hheard
    obtain ⟨hc, h⟩ := hheard
    exact ⟨hc, held_write h k⟩
  · intro heard store k task at' hheard hk
    obtain ⟨hc, h⟩ := hheard
    have hinv := cookieInv_step at'.at' (.settings (key.result task.value.2 task.written)) hc
    obtain ⟨ht, hrest⟩ : store.tasks = [task] ∧ (store.remove k).tasks = [] := by
      obtain hn | ⟨-, task', -, ht, -⟩ := held_busy h
      · rw [hn] at hk
        cases hk
      · obtain ⟨rfl, hn⟩ := store_remove_one ht hk
        exact ⟨ht, hn⟩
    have hkept := held_result h ht hrest at'.at'
    have hstep : key.client.machine.step heard (key.client.answer at' task.value task.written) =
        (((heard.1.handle at'.at' (.settings (key.result task.value.2 task.written))).1,
          key.hear heard.2 heard.1 ⟨at'.at', .settings (key.result task.value.2 task.written)⟩),
          (heard.1.handle at'.at' (.settings (key.result task.value.2 task.written))).2) := rfl
    rw [hstep]
    exact ⟨hinv, hkept⟩
  · intro heard store at' hheard
    obtain ⟨hc, h⟩ := hheard
    have hinv := cookieInv_step at'.at' (.settings (key.read at' store.stored)) hc
    have hkept := held_read h at'
    have hstep : key.client.machine.step heard (key.client.read at' store.stored) =
        (((heard.1.handle at'.at' (.settings (key.read at' store.stored))).1,
          key.hear heard.2 heard.1 ⟨at'.at', .settings (key.read at' store.stored)⟩),
          (heard.1.handle at'.at' (.settings (key.read at' store.stored))).2) := rfl
    rw [hstep]
    exact ⟨hinv, hkept⟩

/-- What is asked for next when a write that is not the newest request ends. -/
theorem result_next {s : Settings} {v : key.Value} (hp : (key.setting s).persistence = .pending v)
    (hv : v ≠ (key.setting s).requested) (c : Core) (hc : c.settings = .loaded s) (now : ClockReading)
    (rotated succeeded : Bool) : ∃ s',
      (c.handle now (.settings (key.result rotated succeeded))).1.settings = .loaded s' ∧
      (key.setting s').requested = (key.setting s).requested ∧
      ((c.handle now (.settings (key.result rotated succeeded))).2.filterMap key.write?).map Prod.fst =
        if (key.setting s).requested =
          (key.setting s').saved then [] else [(key.setting s).requested] := by
  obtain ⟨hsettings, hout⟩ := step_settings key c now (key.result rotated succeeded)
  obtain ⟨s', out, hh, hs, hw⟩ := handle_on key s (key.result rotated succeeded)
  have hon : key.on (key.result rotated succeeded) (key.setting s) =
      (key.setting s).complete succeeded := by
    obtain ⟨hon, -⟩ | ⟨hf, hon, -⟩ := on_result key rotated succeeded
    · rw [hon]
    · rw [hon, hf]
      exact replacementFailed_next hp hv
  rw [hon] at hs hw
  refine ⟨s', ?_, ?_, ?_⟩
  · rw [hsettings, hc, hh]
  · rw [hs, complete_requested]
  · rw [hout, hc, hh]
    change (out.filterMap key.write?).map Prod.fst = _
    rw [hw, hs, complete_next hp hv]
    split
    · rfl
    · rfl

theorem hear_next {c : Core} {s : Settings} {a : Asked key.Value} {v w : key.Value}
    (hs : c.settings = .loaded s) (hp : (key.setting s).persistence = .pending v)
    (hr : (key.setting s).requested = w) (hn : a.newest = some w) (hw : a.written = some v)
    (hv : v ≠ w) (now : ClockReading) (rotated succeeded : Bool) :
    (key.hear a c ⟨now, .settings (key.result rotated succeeded)⟩).newest = some w ∧
      ∃ s', (c.handle now (.settings (key.result rotated succeeded))).1.settings = .loaded s' ∧
        ((c.handle now (.settings (key.result rotated succeeded))).2.filterMap key.write?).map Prod.fst =
          if w = (key.setting s').saved then [] else [w] := by
  constructor
  · have hdiff : (a.newest == a.written) = false := by
      rw [hn, hw]
      exact beq_eq_false_iff_ne.mpr fun heq => hv (Option.some.inj heq).symm
    rw [hear_quiet (request_stored (result_stored key rotated succeeded)), hdiff, Bool.and_false]
    exact hn
  · obtain ⟨s', hset, -, hout⟩ := result_next key hp (hr ▸ hv) c hs now rotated succeeded
    exact ⟨s', hset, hr ▸ hout⟩

theorem last_loaded {s : Settings} (hs : (key.last stored acts).core.1.settings = .loaded s) :
    (key.setting s).Kept (key.view (key.last stored acts).store.stored)
        (key.last stored acts).store.tasks ∧
      (key.setting s).Heard (key.last stored acts).core.2 (key.last stored acts).store.tasks := by
  have hheld := (held_last key stored acts).2
  rw [hs] at hheld
  exact hheld

theorem last_saved {s : Settings} (hs : (key.last stored acts).core.1.settings = .loaded s) :
    ((key.last stored acts).store.tasks = [] →
      (key.setting s).saved = key.view (key.last stored acts).store.stored) ∧
    ((key.setting s).persistence = .idle → (key.setting s).requested = (key.setting s).saved ∧
      (key.setting s).saved = key.view (key.last stored acts).store.stored) ∧
    (key.setting s).requested = (key.last stored acts).core.2.newest.getD (key.setting s).saved := by
  obtain ⟨hkept, hheard⟩ := last_loaded key stored acts hs
  have hrequested := hheard.requested
  generalize (key.last stored acts).store.tasks = tasks at hkept
  -- nothing is being written, or the one write there is
  cases hkept with
  | rest hs hp hr => exact ⟨fun _ => hs, fun hi => ⟨hr hi, hs⟩, hrequested⟩
  | writing task hp hs => exact ⟨nofun, fun hi => by simp [hi] at hp, hrequested⟩

/-- A write under way is the only one, was asked for, and is the value waited for. -/
theorem last_writing {task : Storage.Task (key.Value × Bool)}
    (ht : task ∈ (key.last stored acts).store.tasks) :
    (key.last stored acts).store.tasks = [task] ∧ (key.last stored acts).core.2.newest.isSome ∧
    ∃ s, (key.last stored acts).core.1.settings = .loaded s ∧
      (key.setting s).persistence = .pending task.value.1 ∧
      (key.last stored acts).core.2.written = some task.value.1 := by
  obtain hn | ⟨s, task', hs, hone, hp⟩ := held_busy (held_last key stored acts).2
  · rw [hn] at ht
    cases ht
  · obtain ⟨-, hheard⟩ := last_loaded key stored acts hs
    obtain ⟨hw, hnewest⟩ := hheard.written task ht
    rw [hone, List.mem_singleton] at ht
    rw [← ht] at hone hp
    exact ⟨hone, hnewest, s, hs, hp, hw⟩

/-- A write that ends after a newer request is followed by the newest. -/
theorem superseded_followed {k : Nat} {task : Storage.Task (key.Value × Bool)} {v : key.Value}
    (hk : (key.last stored acts).store.tasks[k]? = some task)
    (hn : (key.last stored acts).core.2.newest = some v) (hv : task.value.1 ≠ v) (at' : Answering) :
    (key.client.step (key.last stored acts) (.answer k at')).1.core.2.newest = some v ∧
      ∃ s', (key.client.step (key.last stored acts) (.answer k at')).1.core.1.settings = .loaded s' ∧
        ((key.client.step (key.last stored acts) (.answer k at')).2.filterMap key.write?).map Prod.fst =
          if v = (key.setting s').saved then [] else [v] := by
  obtain ⟨-, -, s, hs, hp, hw⟩ := last_writing key stored acts (List.mem_of_getElem? hk)
  obtain ⟨-, -, hr⟩ := last_saved key stored acts hs
  rw [hn] at hr
  have hb : key.client.brings (key.last stored acts) (.answer k at') =
      some ((key.last stored acts).store.remove k,
        { occurredAt := at'.at', event := .settings (key.result task.value.2 task.written) }) := by
    simp only [Client.brings, hk, Option.map_some]
    rfl
  unfold Client.step
  rw [hb]
  exact hear_next key hs hp hr hn hw hv at'.at' task.value.2 task.written

theorem usable_stored {stored : Option ApiCookie} {s : Settings} {cookie : ApiCookie}
    (hs : (SettingKey.apiCookie.last stored acts).core.1.settings = .loaded s)
    (hu : s.usableApiCookie = some cookie) :
    (SettingKey.apiCookie.last stored acts).store.stored = some cookie ∧
      s.apiCookie.requested = some cookie ∧
      ∀ v, (SettingKey.apiCookie.last stored acts).core.2.newest = some v → v = some cookie := by
  obtain ⟨-, hat, hr⟩ := last_saved .apiCookie stored acts hs
  cases hp : s.apiCookie.persistence with
  | idle =>
    have hsaved : s.apiCookie.saved = some cookie := by
      simpa [Settings.usableApiCookie, hp] using hu
    obtain ⟨hrest, hv⟩ := hat hp
    refine ⟨hv.symm.trans hsaved, hrest.trans hsaved, fun v hn => ?_⟩
    rw [hn] at hr
    exact hr.symm.trans (hrest.trans hsaved)
  | _ => simp [Settings.usableApiCookie, hp] at hu

/-- For every setting, in every run: at most one write is under way, its value is the
one waited for, and it was asked for; with none, what counts as saved is what is stored; a
setting at rest is saved as asked for; what is requested is the newest value asked for and
not given up, and a write that ends after a newer one was asked for is followed by the
newest, unless it is what is saved. The cookie that may be used is the stored one, with no
other asked for. -/
theorem settings_are_stored :
    (∀ (key : SettingKey) (stored : key.Stored) (acts : List (Act TimedEvent Answering)),
      (key.last stored acts).store.tasks.length ≤ 1 ∧
      (∀ task ∈ (key.last stored acts).store.tasks, (key.last stored acts).core.2.newest.isSome ∧
        ∃ s, (key.last stored acts).core.1.settings = .loaded s ∧
          (key.setting s).persistence = .pending task.value.1) ∧
      (∀ s, (key.last stored acts).core.1.settings = .loaded s →
        ((key.last stored acts).store.tasks = [] →
          (key.setting s).saved = key.view (key.last stored acts).store.stored) ∧
        ((key.setting s).persistence = .idle → (key.setting s).requested = (key.setting s).saved ∧
          (key.setting s).saved = key.view (key.last stored acts).store.stored) ∧
        (key.setting s).requested = (key.last stored acts).core.2.newest.getD (key.setting s).saved) ∧
      ∀ k at' task v, (key.last stored acts).store.tasks[k]? = some task →
        (key.last stored acts).core.2.newest = some v → task.value.1 ≠ v →
        (key.client.step (key.last stored acts) (.answer k at')).1.core.2.newest = some v ∧
          ∃ s', (key.client.step (key.last stored acts) (.answer k at')).1.core.1.settings = .loaded s' ∧
            ((key.client.step (key.last stored acts) (.answer k at')).2.filterMap key.write?).map
            Prod.fst =
              if v = (key.setting s').saved then [] else [v]) ∧
    ∀ (stored : Option ApiCookie) (acts : List (Act TimedEvent Answering)) (s : Settings)
    (cookie : ApiCookie),
      (SettingKey.apiCookie.last stored acts).core.1.settings = .loaded s →
      s.usableApiCookie = some cookie →
      (SettingKey.apiCookie.last stored acts).store.stored = some cookie ∧
      s.apiCookie.requested = some cookie ∧
        ∀ v, (SettingKey.apiCookie.last stored acts).core.2.newest = some v → v = some cookie := by
  refine ⟨fun key stored acts => ⟨?_, ?_, fun s hs => last_saved key stored acts hs, ?_⟩,
    fun stored acts s cookie hs hu => usable_stored acts hs hu⟩
  · cases ht : (key.last stored acts).store.tasks with
    | nil => exact Nat.zero_le 1
    | cons task rest =>
      have hmem : task ∈ (key.last stored acts).store.tasks := by simp [ht]
      obtain ⟨hone, -⟩ := last_writing key stored acts hmem
      rw [← ht, hone]
      exact le_refl 1
  · intro task ht
    obtain ⟨-, hnewest, s, hs, hp, -⟩ := last_writing key stored acts ht
    exact ⟨hnewest, s, hs, hp⟩
  · intro k at' task v hk hn hv
    exact superseded_followed key stored acts hk hn hv at'

end

/-! ## A request during a write -/

def shorterHistory : HistoryLimit := ⟨200, by decide⟩

def longerHistory : HistoryLimit := ⟨300, by decide⟩

def noneStored (seconds : Nat) : Answering where
  at' := (TimedEvent.after seconds (.notification .sendTest)).occurredAt
  historyLimit := none
  apiCookie := none
  ntfyTopic := none
  pointsReserve := none
  torrentLimits := none

def newerLimit : List (Act TimedEvent Answering) :=
  [.input (.after 0 (.startup (.start .resume))), .input (.after 0 (.startup .storageOpened)),
    .read (noneStored 0),
    .input (.after 1 (.settings (.setHistoryLimit shorterHistory))),
    .input (.after 2 (.settings (.setHistoryLimit longerHistory))), .write 0]

theorem newer_limit_written :
    (SettingKey.historyLimit.last none newerLimit).store.tasks = [⟨(shorterHistory, false), true⟩] ∧
      ((SettingKey.historyLimit.client.step (SettingKey.historyLimit.last none newerLimit)
        (.answer 0 (noneStored 3))).2.filterMap SettingKey.historyLimit.write?).map Prod.fst =
        [longerHistory] := by
  have hwriting : (SettingKey.historyLimit.last none newerLimit).store.tasks =
      [⟨(shorterHistory, false), true⟩] := by
    decide +kernel
  have htask : (SettingKey.historyLimit.last none newerLimit).store.tasks[0]? =
      some ⟨(shorterHistory, false), true⟩ :=
    congrArg (fun tasks => tasks[0]?) hwriting
  have hnewest : (SettingKey.historyLimit.last none newerLimit).core.2.newest =
    some longerHistory := by decide +kernel
  have hsome : ((SettingKey.historyLimit.client.step (SettingKey.historyLimit.last none newerLimit)
      (.answer 0 (noneStored 3))).2.filterMap SettingKey.historyLimit.write?).isEmpty = false := by
        decide +kernel
  obtain ⟨-, -, -, hends⟩ := settings_are_stored.1 .historyLimit none newerLimit
  have hdiff : shorterHistory ≠ longerHistory := by decide
  obtain ⟨-, s, -, hout⟩ := hends 0 (noneStored 3) _ _ htask hnewest hdiff
  refine ⟨hwriting, ?_⟩
  rw [hout]
  by_cases hs : longerHistory = (SettingKey.historyLimit.setting s).saved
  · rw [if_pos hs] at hout
    rw [List.map_eq_nil_iff.mp hout] at hsome
    cases hsome
  · rw [if_neg hs]

end Windlass
