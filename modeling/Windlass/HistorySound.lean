import Windlass.History
import Windlass.Turns

/-!
# Counting what is stored

The core counts the stored entries without looking: it adds one for every step and
subtracts every loss it is told of, while the writer runs behind it. An open or a
trim corrects the count by what the writer counts at that moment, to which the core
adds the steps since its request. A loss that is not yet reported when the writer
counts is left out of that count and subtracted once more when it is reported, so
the counts agree as long as the writer never counts with a loss unreported.
-/

namespace Windlass

open Reactive

/-! ## What is on its way -/

def HistoryEvent.lost : HistoryEvent → Nat
  | .entriesLost count _ _ => count
  | _ => 0

def HistoryEvent.isLoss : HistoryEvent → Bool
  | .entriesLost .. => true
  | _ => false

def HistoryCommand.isRecord : HistoryCommand → Bool
  | .record _ => true
  | _ => false

def OnlyRecords (commands : List HistoryCommand) : Prop := ∀ c ∈ commands, c.isRecord = true

def OnlyLosses (results : List HistoryEvent) : Prop := ∀ e ∈ results, e.isLoss = true

def lostIn (results : List HistoryEvent) : Nat := (results.map HistoryEvent.lost).sum

def waiting (commands : List HistoryCommand) : Nat := commands.countP HistoryCommand.isRecord

def HistoryWriter.unreported (w : HistoryWriter) : Nat := (w.lost.map Lost.count).getD 0

/-- The entries the writer has received and the core was not told it lost. -/
def HistoryWriter.held (w : HistoryWriter) : Nat := w.rows.length + w.buffer.length + w.unreported

def entriesTaken (w : HistoryWriter) (commands : List HistoryCommand)
    (results : List HistoryEvent) : Nat :=
  w.held + waiting commands + lostIn results

section
variable {commands commands' : List HistoryCommand} {results results' : List HistoryEvent}

@[simp] theorem onlyRecords_nil : OnlyRecords [] := by
  simp [OnlyRecords]

@[simp] theorem onlyRecords_append :
    OnlyRecords (commands ++ commands') ↔ OnlyRecords commands ∧ OnlyRecords commands' :=
  List.forall_mem_append

@[simp] theorem onlyRecords_cons {c : HistoryCommand} :
    OnlyRecords (c :: commands) ↔ c.isRecord = true ∧ OnlyRecords commands :=
  List.forall_mem_cons

@[simp] theorem onlyLosses_nil : OnlyLosses [] := by
  simp [OnlyLosses]

@[simp] theorem onlyLosses_append :
    OnlyLosses (results ++ results') ↔ OnlyLosses results ∧ OnlyLosses results' :=
  List.forall_mem_append

@[simp] theorem onlyLosses_cons {e : HistoryEvent} :
    OnlyLosses (e :: results) ↔ e.isLoss = true ∧ OnlyLosses results :=
  List.forall_mem_cons

@[simp] theorem lostIn_nil : lostIn [] = 0 := rfl

@[simp] theorem lostIn_cons (e : HistoryEvent) : lostIn (e :: results) = e.lost + lostIn results := by
  simp [lostIn]

@[simp] theorem lostIn_append : lostIn (results ++ results') = lostIn results + lostIn results' := by
  simp [lostIn]

@[simp] theorem waiting_nil : waiting [] = 0 := rfl

@[simp] theorem waiting_append : waiting (commands ++ commands') = waiting commands + waiting commands' :=
  List.countP_append

@[simp] theorem waiting_record (entry : HistoryEntry) :
    waiting (.record entry :: commands) = waiting commands + 1 :=
  List.countP_cons_of_pos rfl

@[simp] theorem waiting_open : waiting (.open' :: commands) = waiting commands :=
  List.countP_cons_of_neg (by simp [HistoryCommand.isRecord])

@[simp] theorem waiting_trim (keep : EntryCount) : waiting (.trim keep :: commands) = waiting commands :=
  List.countP_cons_of_neg (by simp [HistoryCommand.isRecord])

theorem OnlyRecords.waiting (h : OnlyRecords commands) : waiting commands = commands.length :=
  List.countP_eq_length.mpr h

end

/-! ## The writer -/

section
variable (w : HistoryWriter)

theorem lose_held (processedAt : SystemTime) : (w.lose processedAt).held = w.held + 1 := by
  obtain ⟨store, buffer, lost, rows⟩ := w
  cases lost with
  | none => rfl
  | some lost => rfl

structure HistoryWriter.Recorded (w : HistoryWriter) (count : Nat)
    (recorded : HistoryWriter × List HistoryEvent) : Prop where
  held : recorded.1.held + lostIn recorded.2 = w.held + count
  losses : OnlyLosses recorded.2
  store : recorded.1.store = w.store
  buffer : recorded.1.buffer = w.buffer

theorem lose_recorded (processedAt : SystemTime) : w.Recorded 1 (w.lose processedAt, []) :=
  ⟨lose_held w processedAt, onlyLosses_nil, rfl, rfl⟩

theorem record_recorded (entry : HistoryEntry) (inserted : Bool) :
    w.Recorded 1 (w.record entry inserted) := by
  unfold HistoryWriter.record
  split
  · obtain ⟨store, buffer, lost, rows⟩ := w
    cases lost with
    | none =>
      refine ⟨?_, onlyLosses_nil, rfl, rfl⟩
      simp only [HistoryWriter.held, HistoryWriter.unreported, List.length_append, List.length_singleton,
        Option.map_none, Option.getD_none, lostIn_nil]
      omega
    | some lost =>
      refine ⟨?_, by simp [HistoryEvent.isLoss], rfl, rfl⟩
      simp only [HistoryWriter.held, HistoryWriter.unreported, List.length_append, List.length_singleton,
        Option.map_none, Option.map_some, Option.getD_none, Option.getD_some, lostIn_cons, lostIn_nil,
        HistoryEvent.lost]
      omega
  · exact lose_recorded w entry.processedAt

theorem record_lost (entry : HistoryEntry) (inserted : Bool) :
    (w.record entry inserted).1.lost = none ↔ inserted = true := by
  obtain ⟨store, buffer, lost, rows⟩ := w
  cases inserted with
  | true => cases lost <;> simp [HistoryWriter.record]
  | false => cases lost <;> simp [HistoryWriter.record, HistoryWriter.lose]

theorem recordAll_recorded (entries : List HistoryEntry) (inserts : List Bool) :
    w.Recorded entries.length (w.recordAll entries inserts) := by
  induction entries generalizing w inserts with
  | nil => exact ⟨rfl, onlyLosses_nil, rfl, rfl⟩
  | cons entry entries ih =>
    have hfirst := record_recorded w entry (inserts.headD false)
    have hrest := ih (w.record entry (inserts.headD false)).1 inserts.tail
    refine ⟨?_, onlyLosses_append.mpr ⟨hfirst.losses, hrest.losses⟩, hrest.store.trans hfirst.store,
      hrest.buffer.trans hfirst.buffer⟩
    have hheld := hfirst.held
    have hheld' := hrest.held
    simp only [HistoryWriter.recordAll, lostIn_append, List.length_cons]
    omega

theorem recordAll_lost {entries : List HistoryEntry} (h : entries ≠ []) (inserts : List Bool) :
    (w.recordAll entries inserts).1.lost = none ↔ inserts.getD (entries.length - 1) false = true := by
  -- on the entries; the insert of the last one decides
  induction entries generalizing w inserts with
  | nil => exact absurd rfl h
  | cons entry entries ih =>
    cases entries with
    | nil =>
      have hhead : inserts.headD false = inserts.getD 0 false := by cases inserts <;> rfl
      change (w.record entry (inserts.headD false)).1.lost = none ↔ inserts.getD 0 false = true
      rw [record_lost, hhead]
    | cons entry' entries =>
      have hrest :=
        ih (w.record entry (inserts.headD false)).1 (List.cons_ne_nil entry' entries) inserts.tail
      change ((w.record entry (inserts.headD false)).1.recordAll (entry' :: entries)
        inserts.tail).1.lost = none ↔ _
      rw [hrest]
      cases inserts with
      | nil => rfl
      | cons b inserts => rfl

theorem handle_record (disk : Disk) (entry : HistoryEntry) :
    (w.handle disk (.record entry)).1.held + lostIn (w.handle disk (.record entry)).2 = w.held + 1 ∧
      OnlyLosses (w.handle disk (.record entry)).2 ∧ (w.handle disk (.record entry)).1.store = w.store ∧
      (w.store = .open' → (w.handle disk (.record entry)).1.buffer = w.buffer) := by
  cases hs : w.store with
  | open' =>
    have h := record_recorded w entry (disk.inserts.headD false)
    simp only [HistoryWriter.handle, hs]
    exact ⟨h.held, h.losses, h.store.trans hs, fun _ => h.buffer⟩
  | unavailable =>
    have h := lose_recorded w entry.processedAt
    simp only [HistoryWriter.handle, hs]
    exact ⟨h.held, h.losses, h.store.trans hs, nofun⟩
  | buffering =>
    simp only [HistoryWriter.handle, hs]
    split
    · refine ⟨?_, onlyLosses_nil, rfl, nofun⟩
      simp only [HistoryWriter.held, HistoryWriter.unreported, List.length_append,
        List.length_singleton, lostIn_nil]
      omega
    · have h := lose_recorded w entry.processedAt
      exact ⟨h.held, h.losses, h.store.trans hs, nofun⟩

end

/-! ## A request and its answer -/

def Waits (request : HistoryCommand) (since : Nat) (commands : List HistoryCommand)
    (results : List HistoryEvent) : Prop :=
  ∃ before after, commands = before ++ request :: after ∧ OnlyRecords before ∧ OnlyRecords after ∧
  after.length = since ∧
    OnlyLosses results

/-- A count that the core has not handled: with the steps since its request it makes
up for what is stored or on its way after it. -/
def Counted (answer : Nat → HistoryEvent) (since : Nat) (w : HistoryWriter)
    (commands : List HistoryCommand)
    (results : List HistoryEvent) : Prop :=
  ∃ before count after, results = before ++ answer count :: after ∧ OnlyLosses before ∧ OnlyLosses after ∧
    OnlyRecords commands ∧ count + since = w.held + commands.length + lostIn after ∧ w.store = .open'

def Refused (answer : HistoryEvent) (commands : List HistoryCommand) (results : List HistoryEvent) :
    Prop :=
  ∃ before after, results = before ++ answer :: after ∧ OnlyLosses before ∧ OnlyLosses after ∧
  OnlyRecords commands

section
variable {request : HistoryCommand} {answer : Nat → HistoryEvent} {refusal : HistoryEvent} {since : Nat}
  {w : HistoryWriter} {commands : List HistoryCommand} {results : List HistoryEvent}
  {entry : HistoryEntry}
  {c : HistoryCommand}

theorem waits_sent (hc : OnlyRecords commands) (hr : OnlyLosses results) (entry : HistoryEntry)
    (step : Nat) :
    Waits request (step - step) (commands ++ .record entry :: [request]) results := by
  refine ⟨commands ++ [.record entry], [], by simp, ?_, onlyRecords_nil, by simp, hr⟩
  simp [hc, HistoryCommand.isRecord]

theorem Waits.sent (h : Waits request since commands results) (entry : HistoryEntry) :
    Waits request (since + 1) (commands ++ [.record entry]) results := by
  obtain ⟨before, after, rfl, hbefore, hafter, hsince, hresults⟩ := h
  refine ⟨before, after ++ [.record entry], by simp, hbefore, ?_, by simp [hsince], hresults⟩
  simp [hafter, HistoryCommand.isRecord]

theorem Counted.sent (h : Counted answer since w commands results) (entry : HistoryEntry) :
    Counted answer (since + 1) w (commands ++ [.record entry]) results := by
  obtain ⟨before, count, after, rfl, hbefore, hafter, hcommands, hcount, hstore⟩ := h
  refine ⟨before, count, after, rfl, hbefore, hafter, by simp [hcommands, HistoryCommand.isRecord],
    ?_, hstore⟩
  rw [List.length_append, List.length_singleton]
  omega

theorem Refused.sent (h : Refused refusal commands results) (entry : HistoryEntry) :
    Refused refusal (commands ++ [.record entry]) results := by
  obtain ⟨before, after, rfl, hbefore, hafter, hcommands⟩ := h
  exact ⟨before, after, rfl, hbefore, hafter, by simp [hcommands, HistoryCommand.isRecord]⟩

theorem Counted.next {e : HistoryEvent} (h : Counted answer since w commands (e :: results)) :
    e.isLoss = true ∧ Counted answer since w commands results ∨
      ∃ count, e = answer count ∧ OnlyRecords commands ∧ OnlyLosses results ∧ w.store = .open' ∧
        count + since = w.held + commands.length + lostIn results := by
  obtain ⟨before, count, after, he, hbefore, hafter, hcommands, hcount, hstore⟩ := h
  cases before with
  | nil =>
    obtain ⟨rfl, rfl⟩ := List.cons.inj he
    exact .inr ⟨count, rfl, hcommands, hafter, hstore, hcount⟩
  | cons loss before =>
    obtain ⟨rfl, rfl⟩ := List.cons.inj he
    obtain ⟨hloss, hbefore⟩ := onlyLosses_cons.mp hbefore
    exact .inl ⟨hloss, before, count, after, rfl, hbefore, hafter, hcommands, hcount, hstore⟩

theorem Refused.next {e : HistoryEvent} (h : Refused refusal commands (e :: results)) :
    e.isLoss = true ∧ Refused refusal commands results ∨
      e = refusal ∧ OnlyRecords commands ∧ OnlyLosses results := by
  obtain ⟨before, after, he, hbefore, hafter, hcommands⟩ := h
  cases before with
  | nil =>
    obtain ⟨rfl, rfl⟩ := List.cons.inj he
    exact .inr ⟨rfl, hcommands, hafter⟩
  | cons loss before =>
    obtain ⟨rfl, rfl⟩ := List.cons.inj he
    obtain ⟨hloss, hbefore⟩ := onlyLosses_cons.mp hbefore
    exact .inl ⟨hloss, before, after, rfl, hbefore, hafter, hcommands⟩

theorem Waits.next {e : HistoryEvent} (h : Waits request since commands (e :: results)) :
    e.isLoss = true ∧ Waits request since commands results := by
  obtain ⟨before, after, hcommands, hbefore, hafter, hsince, hresults⟩ := h
  obtain ⟨hloss, hresults⟩ := onlyLosses_cons.mp hresults
  exact ⟨hloss, before, after, hcommands, hbefore, hafter, hsince, hresults⟩

/-- The oldest command is a record before the request, or the request itself. -/
theorem Waits.first {c : HistoryCommand} (h : Waits request since (c :: commands) results) :
    c.isRecord = true ∧
      (∀ results', OnlyLosses results' → Waits request since commands (results ++ results')) ∨
      c = request ∧ OnlyRecords commands ∧ commands.length = since ∧ OnlyLosses results := by
  obtain ⟨before, after, hc, hbefore, hafter, hsince, hresults⟩ := h
  cases before with
  | nil =>
    obtain ⟨rfl, rfl⟩ := List.cons.inj hc
    exact .inr ⟨rfl, hafter, hsince, hresults⟩
  | cons record before =>
    obtain ⟨rfl, rfl⟩ := List.cons.inj hc
    obtain ⟨hrecord, hbefore⟩ := onlyRecords_cons.mp hbefore
    exact .inl ⟨hrecord, fun results' h => ⟨before, after, rfl, hbefore, hafter, hsince,
      by simp [hresults, h]⟩⟩

theorem Counted.written (h : Counted answer since w (.record entry :: commands) results) (disk : Disk) :
    Counted answer since (w.handle disk (.record entry)).1 commands
      (results ++ (w.handle disk (.record entry)).2) := by
  obtain ⟨before, count, after, rfl, hbefore, hafter, hcommands, hcount, hstore⟩ := h
  obtain ⟨hheld, hlosses, hstore', -⟩ := handle_record w disk entry
  refine ⟨before, count, after ++ (w.handle disk (.record entry)).2, by simp, hbefore,
    by simp [hafter, hlosses],
    (onlyRecords_cons.mp hcommands).2, ?_, hstore'.trans hstore⟩
  rw [List.length_cons] at hcount
  rw [lostIn_append]
  omega

theorem Refused.written (h : Refused refusal (c :: commands) results) {results' : List HistoryEvent}
    (hr : OnlyLosses results') : c.isRecord = true ∧ Refused refusal commands (results ++ results') := by
  obtain ⟨before, after, rfl, hbefore, hafter, hcommands⟩ := h
  obtain ⟨hrecord, hcommands⟩ := onlyRecords_cons.mp hcommands
  exact ⟨hrecord, before, after ++ results', by simp, hbefore, by simp [hafter, hr], hcommands⟩

end

/-! ## The count and what it stands for -/

/-- What the core knows about stored history, beside the writer and all that is on
its way between the two. -/
def HistoryState.Tracks (h : HistoryState) (now : Step) (w : HistoryWriter)
    (commands : List HistoryCommand)
    (results : List HistoryEvent) : Prop :=
  match h with
  | .closed => OnlyRecords commands ∧ OnlyLosses results
  | .opening step =>
    step ≤ now ∧ (Waits .open' (now - step) commands results ∨
      Counted .opened (now - step) w commands results ∨
      Refused .openFailed commands results)
  | .open' retained (.pending step) =>
    step ≤ now ∧ w.store = .open' ∧ (Counted .trimmed (now - step) w commands results ∨
      retained = entriesTaken w commands results ∧
        ((∃ keep, Waits (.trim keep) (now - step) commands results) ∨
          Refused .trimFailed commands results))
  | .open' retained .idle | .open' retained .failed =>
    w.store = .open' ∧ OnlyRecords commands ∧ OnlyLosses results ∧
    retained = entriesTaken w commands results
  | .unavailable => True

theorem plus_room {retained count : Nat} (h : retained + count ≤ u64Max) :
    EntryCount.plus retained count = retained + count := min_eq_left h

theorem loss_eq {e : HistoryEvent} (h : e.isLoss = true) :
    ∃ count since until', e = .entriesLost count since until' := by
  cases e with
  | entriesLost count since until' => exact ⟨count, since, until', rfl⟩
  | _ => cases h

section
variable {h : HistoryState} {now : Step} {w : HistoryWriter} {commands : List HistoryCommand}
  {results : List HistoryEvent}

theorem since_succ {now step : Nat} (h : step ≤ now) : now + 1 - step = now - step + 1 := by
  omega

theorem entriesTaken_sent (entry : HistoryEntry) (requests : List HistoryCommand)
    (hr : waiting requests = 0) :
    entriesTaken w (commands ++ .record entry :: requests) results =
    entriesTaken w commands results + 1 := by
  unfold entriesTaken
  rw [waiting_append, waiting_record, hr]
  omega

theorem HistoryState.Tracks.sent (ht : h.Tracks now w commands results)
    (hroom : entriesTaken w commands results < u64Max) (entry : HistoryEntry)
    (limit : Option HistoryLimit) :
    (h.afterStep (now + 1) limit).1.Tracks (now + 1) w
      (commands ++ .record entry ::
        (h.afterStep (now + 1) limit).2.filterMap Action.historyCommand?) results := by
  cases h with
  | closed =>
    obtain ⟨hcommands, hresults⟩ := ht
    exact ⟨by simp [HistoryState.afterStep, hcommands, HistoryCommand.isRecord], hresults⟩
  | unavailable => trivial
  | opening step =>
    obtain ⟨hstep, hwaits | hcounted | hrefused⟩ := ht
    · refine ⟨hstep.trans (Nat.le_succ now), .inl ?_⟩
      rw [since_succ hstep]
      exact hwaits.sent entry
    · refine ⟨hstep.trans (Nat.le_succ now), .inr (.inl ?_)⟩
      rw [since_succ hstep]
      exact hcounted.sent entry
    · exact ⟨hstep.trans (Nat.le_succ now), .inr (.inr (hrefused.sent entry))⟩
  | open' retained trim =>
    -- without a trim under way the limit alone decides whether one starts
    have hsettled : ∀ trim, (∀ step, trim ≠ .pending step) →
        w.store = .open' ∧ OnlyRecords commands ∧ OnlyLosses results ∧
        retained = entriesTaken w commands results →
        ((HistoryState.open' retained trim).afterStep (now + 1) limit).1.Tracks (now + 1) w
          (commands ++ .record entry ::
            ((HistoryState.open' retained trim).afterStep (now + 1) limit).2.filterMap
            Action.historyCommand?) results := by
      rintro trim hne ⟨hstore, hcommands, hresults, rfl⟩
      have hplus : EntryCount.plus (entriesTaken w commands results) 1 =
          entriesTaken w commands results + 1 :=
        plus_room hroom
      have hrecords : OnlyRecords (commands ++ [.record entry]) := by
        simp [hcommands, HistoryCommand.isRecord]
      have hstays : (HistoryState.open' (EntryCount.plus (entriesTaken w commands results) 1)
        trim).Tracks (now + 1) w
          (commands ++ [.record entry]) results := by
        have hkept : w.store = .open' ∧ OnlyRecords (commands ++ [.record entry]) ∧ OnlyLosses results ∧
            EntryCount.plus (entriesTaken w commands results) 1 =
              entriesTaken w (commands ++ [.record entry]) results :=
          ⟨hstore, hrecords, hresults, hplus.trans (entriesTaken_sent entry [] rfl).symm⟩
        cases trim with
        | idle => exact hkept
        | failed => exact hkept
        | pending step => exact absurd rfl (hne step)
      cases limit with
      | none => exact hstays
      | some limit =>
        unfold HistoryState.afterStep
        dsimp only
        split
        · exact ⟨le_refl _, hstore,
            .inr ⟨hplus.trans (entriesTaken_sent entry [.trim limit.trimTarget] (by simp)).symm,
            .inl ⟨limit.trimTarget, waits_sent hcommands hresults entry (now + 1)⟩⟩⟩
        · exact hstays
    cases trim with
    | idle => exact hsettled .idle (by simp) ht
    | failed => exact hsettled .failed (by simp) ht
    | pending step =>
      have hafter : (HistoryState.open' retained (.pending step)).afterStep (now + 1) limit =
          (.open' (retained.plus 1) (.pending step), []) := by
        cases limit <;> rfl
      rw [hafter]
      obtain ⟨hstep, hstore, hcounted | ⟨rfl, hrest⟩⟩ := ht
      · refine ⟨hstep.trans (Nat.le_succ now), hstore, .inl ?_⟩
        rw [since_succ hstep]
        exact hcounted.sent entry
      · refine ⟨hstep.trans (Nat.le_succ now), hstore, .inr ⟨?_, ?_⟩⟩
        · exact (plus_room hroom).trans (entriesTaken_sent entry [] rfl).symm
        · rw [since_succ hstep]
          obtain ⟨keep, hwaits⟩ | hrefused := hrest
          · exact .inl ⟨keep, hwaits.sent entry⟩
          · exact .inr (hrefused.sent entry)

theorem HistoryState.Tracks.result {e : HistoryEvent} (ht : h.Tracks now w commands (e :: results))
    (hroom : entriesTaken w commands (e :: results) ≤ u64Max) :
    (h.handle (now + 1) e).Tracks now w commands results := by
  have hcorrected : ∀ {count step : Nat}, OnlyRecords commands → OnlyLosses results →
      w.store = .open' → count + (now - step) = w.held + commands.length + lostIn results →
      (HistoryState.open' (EntryCount.plus count (Step.strictlyAfter (now + 1) step)) .idle).Tracks
      now w commands results := by
    intro count step hcommands hresults hstore hcount
    have hafter : Step.strictlyAfter (now + 1) step = now - step := by
      unfold Step.strictlyAfter
      omega
    have htaken : count + (now - step) = entriesTaken w commands results := by
      unfold entriesTaken
      rw [hcount, hcommands.waiting]
    refine ⟨hstore, hcommands, hresults, ?_⟩
    rw [hafter, ← htaken]
    refine plus_room ?_
    rw [htaken]
    refine le_trans ?_ hroom
    unfold entriesTaken
    rw [lostIn_cons]
    omega
  have hreported : ∀ {retained : EntryCount} {count : Nat} {since until' : SystemTime},
    e = .entriesLost count since until' →
      retained = entriesTaken w commands (e :: results) →
      retained.minus count = entriesTaken w commands results := by
    rintro retained count since until' rfl rfl
    unfold entriesTaken EntryCount.minus
    rw [lostIn_cons]
    change w.held + waiting commands + (count + lostIn results) - count = _
    omega
  cases h with
  | closed =>
    obtain ⟨hcommands, hresults⟩ := ht
    obtain ⟨hloss, hrest⟩ := onlyLosses_cons.mp hresults
    exact ⟨hcommands, hrest⟩
  | unavailable => trivial
  | opening step =>
    -- the writer has not opened yet, has counted, or could not open
    obtain ⟨hstep, hwaits | hcounted | hrefused⟩ := ht
    · obtain ⟨hloss, hnext⟩ := hwaits.next
      obtain ⟨count, since, until', rfl⟩ := loss_eq hloss
      exact ⟨hstep, .inl hnext⟩
    · obtain ⟨hloss, hnext⟩ | ⟨count, rfl, hcommands, hresults, hstore, hcount⟩ := hcounted.next
      · obtain ⟨count, since, until', rfl⟩ := loss_eq hloss
        exact ⟨hstep, .inr (.inl hnext)⟩
      · exact hcorrected hcommands hresults hstore hcount
    · obtain ⟨hloss, hnext⟩ | ⟨rfl, hcommands, hresults⟩ := hrefused.next
      · obtain ⟨count, since, until', rfl⟩ := loss_eq hloss
        exact ⟨hstep, .inr (.inr hnext)⟩
      · trivial
  | open' retained trim =>
    cases trim with
    | idle | failed =>
      obtain ⟨hstore, hcommands, hresults, hretained⟩ := ht
      obtain ⟨hloss, hrest⟩ := onlyLosses_cons.mp hresults
      obtain ⟨count, since, until', rfl⟩ := loss_eq hloss
      exact ⟨hstore, hcommands, hrest, hreported rfl hretained⟩
    | pending step =>
      obtain ⟨hstep, hstore, hcounted | ⟨hretained, hrest⟩⟩ := ht
      · obtain ⟨hloss, hnext⟩ | ⟨count, rfl, hcommands, hresults, -, hcount⟩ := hcounted.next
        · obtain ⟨count, since, until', rfl⟩ := loss_eq hloss
          exact ⟨hstep, hstore, .inl hnext⟩
        · exact hcorrected hcommands hresults hstore hcount
      · obtain ⟨keep, hwaits⟩ | hrefused := hrest
        · obtain ⟨hloss, hnext⟩ := hwaits.next
          obtain ⟨count, since, until', rfl⟩ := loss_eq hloss
          exact ⟨hstep, hstore, .inr ⟨hreported rfl hretained, .inl ⟨keep, hnext⟩⟩⟩
        · obtain ⟨hloss, hnext⟩ | ⟨rfl, hcommands, hresults⟩ := hrefused.next
          · obtain ⟨count, since, until', rfl⟩ := loss_eq hloss
            exact ⟨hstep, hstore, .inr ⟨hreported rfl hretained, .inr hnext⟩⟩
          · refine ⟨hstore, hcommands, hresults, hretained.trans ?_⟩
            unfold entriesTaken
            rw [lostIn_cons]
            exact congrArg _ (Nat.zero_add _)

end

/-! ## The writer works off a command -/

/-- Where the writer counts the rows, its last insert succeeded, so that no loss is
unreported then, and rows that it deletes are counted. -/
def HistoryWriter.Reports (w : HistoryWriter) (disk : Disk) : HistoryCommand → Prop
  | .record _ => True
  | .open' =>
    disk.opens → disk.counts →
      if w.buffer = [] then w.lost = none else disk.inserts.getD (w.buffer.length - 1) false = true
  | .trim keep =>
    w.store = .open' → disk.deletes → if disk.counts then w.lost = none else w.rows.length ≤ keep

section
variable {w : HistoryWriter} {disk : Disk} {c : HistoryCommand} {commands : List HistoryCommand}
  {results : List HistoryEvent}

theorem held_counted (hb : w.buffer = []) (hl : w.lost = none) : w.held = w.rows.length := by
  simp [HistoryWriter.held, HistoryWriter.unreported, hb, hl]

theorem handle_open (hr : w.Reports disk .open') : ∃ losses, OnlyLosses losses ∧
    ((∃ count, (w.handle disk .open').2 = losses ++ [.opened count] ∧
      (w.handle disk .open').1.held = count ∧
        (w.handle disk .open').1.store = .open' ∧ (w.handle disk .open').1.buffer = []) ∨
      (w.handle disk .open').2 = losses ++ [.openFailed] ∧
      (w.handle disk .open').1.store = .unavailable) := by
  have hall := recordAll_recorded { w with buffer := [] } w.buffer disk.inserts
  by_cases ho : disk.opens = true
  · refine ⟨_, hall.losses, ?_⟩
    by_cases hc : disk.counts = true
    · refine .inl ⟨(({ w with buffer := [] } : HistoryWriter).recordAll w.buffer
        disk.inserts).1.rows.length, ?_⟩
      simp only [HistoryWriter.handle, ho, hc, if_true]
      refine ⟨trivial, held_counted hall.buffer ?_, trivial, hall.buffer⟩
      have hlost := hr ho hc
      change (({ w with buffer := [] } : HistoryWriter).recordAll w.buffer disk.inserts).1.lost = none
      by_cases hb : w.buffer = []
      · rw [if_pos hb] at hlost
        rw [hb]
        exact hlost
      · rw [if_neg hb] at hlost
        exact (recordAll_lost _ hb disk.inserts).mpr hlost
    · exact .inr (by simp [HistoryWriter.handle, ho, hc])
  · exact ⟨[], onlyLosses_nil, .inr (by simp [HistoryWriter.handle, ho])⟩

theorem handle_trim {keep : EntryCount} (hs : w.store = .open') (hb : w.buffer = [])
    (hr : w.Reports disk (.trim keep)) :
    (∃ count, (w.handle disk (.trim keep)).2 = [.trimmed count] ∧
      (w.handle disk (.trim keep)).1.held = count ∧
        (w.handle disk (.trim keep)).1.store = .open' ∧ (w.handle disk (.trim keep)).1.buffer = []) ∨
      w.handle disk (.trim keep) = (w, [.trimFailed]) := by
  by_cases hd : disk.deletes = true
  · have hcount := hr hs hd
    by_cases hc : disk.counts = true
    · rw [if_pos hc] at hcount
      refine .inl ⟨(newest keep w.rows).length, ?_⟩
      simp only [HistoryWriter.handle, hs, hd, hc, if_true]
      exact ⟨trivial, held_counted hb hcount, trivial, hb⟩
    · rw [if_neg hc] at hcount
      refine .inr ?_
      have hall : newest keep w.rows = w.rows := by
        unfold newest
        rw [Nat.sub_eq_zero_of_le hcount, List.drop_zero]
      simp only [HistoryWriter.handle, hs, hd, hc, if_true, hall]
      simp [← hs]
  · exact .inr (by simp [HistoryWriter.handle, hs, hd])

theorem entriesTaken_written (entry : HistoryEntry) :
    entriesTaken (w.handle disk (.record entry)).1 commands (results ++
      (w.handle disk (.record entry)).2) =
      entriesTaken w (.record entry :: commands) results := by
  have hheld := (handle_record w disk entry).1
  unfold entriesTaken
  rw [waiting_record, lostIn_append]
  omega

theorem record_eq (h : c.isRecord = true) : ∃ entry, c = .record entry := by
  cases c with
  | record entry => exact ⟨entry, rfl⟩
  | _ => cases h

theorem HistoryState.Tracks.written {h : HistoryState} {now : Step}
    (ht : h.Tracks now w (c :: commands) results)
    (hb : w.store = .open' → w.buffer = []) (hr : w.Reports disk c) :
    h.Tracks now (w.handle disk c).1 commands (results ++ (w.handle disk c).2) := by
  cases h with
  | closed =>
    obtain ⟨hcommands, hresults⟩ := ht
    obtain ⟨hrecord, hrest⟩ := onlyRecords_cons.mp hcommands
    obtain ⟨entry, rfl⟩ := record_eq hrecord
    exact ⟨hrest, onlyLosses_append.mpr ⟨hresults, (handle_record w disk entry).2.1⟩⟩
  | unavailable => trivial
  | opening step =>
    obtain ⟨hstep, hwaits | hcounted | hrefused⟩ := ht
    · refine ⟨hstep, ?_⟩
      -- the writer takes an entry sent before the request, or the request itself
      obtain ⟨hrecord, hrest⟩ | ⟨rfl, hcommands, hsince, hresults⟩ := hwaits.first
      · obtain ⟨entry, rfl⟩ := record_eq hrecord
        exact .inl (hrest _ (handle_record w disk entry).2.1)
      · obtain ⟨losses, hlosses, ⟨count, hout, hheld, hstore, -⟩ | ⟨hout, -⟩⟩ := handle_open hr
        · refine .inr (.inl ⟨results ++ losses, count, [], by simp [hout],
            by simp [hresults, hlosses], onlyLosses_nil,
            hcommands, ?_, hstore⟩)
          rw [hheld, hsince]
          rfl
        · exact .inr (.inr ⟨results ++ losses, [], by simp [hout], by simp [hresults, hlosses],
            onlyLosses_nil,
            hcommands⟩)
    · obtain ⟨entry, rfl⟩ : ∃ entry, c = .record entry := by
        obtain ⟨before, count, after, -, -, -, hcommands, -⟩ := hcounted
        exact record_eq (onlyRecords_cons.mp hcommands).1
      exact ⟨hstep, .inr (.inl (hcounted.written disk))⟩
    · obtain ⟨entry, rfl⟩ := record_eq (hrefused.written onlyLosses_nil).1
      exact ⟨hstep, .inr (.inr (hrefused.written (handle_record w disk entry).2.1).2)⟩
  | open' retained trim =>
    cases trim with
    | idle | failed =>
      obtain ⟨hstore, hcommands, hresults, rfl⟩ := ht
      obtain ⟨hrecord, hrest⟩ := onlyRecords_cons.mp hcommands
      obtain ⟨entry, rfl⟩ := record_eq hrecord
      obtain ⟨-, hlosses, hstore', -⟩ := handle_record w disk entry
      exact ⟨hstore'.trans hstore, hrest, onlyLosses_append.mpr ⟨hresults, hlosses⟩,
        (entriesTaken_written entry).symm⟩
    | pending step =>
      obtain ⟨hstep, hstore, hcounted | ⟨rfl, ⟨keep, hwaits⟩ | hrefused⟩⟩ := ht
      · obtain ⟨entry, rfl⟩ : ∃ entry, c = .record entry := by
          obtain ⟨before, count, after, -, -, -, hcommands, -⟩ := hcounted
          exact record_eq (onlyRecords_cons.mp hcommands).1
        exact ⟨hstep, (handle_record w disk entry).2.2.1.trans hstore, .inl (hcounted.written disk)⟩
      · obtain ⟨hrecord, hrest⟩ | ⟨rfl, hcommands, hsince, hresults⟩ := hwaits.first
        · obtain ⟨entry, rfl⟩ := record_eq hrecord
          exact ⟨hstep, (handle_record w disk entry).2.2.1.trans hstore,
            .inr ⟨(entriesTaken_written entry).symm,
              .inl ⟨keep, hrest _ (handle_record w disk entry).2.1⟩⟩⟩
        · obtain ⟨count, hout, hheld, hstore', -⟩ | hout := handle_trim hstore (hb hstore) hr
          · refine ⟨hstep, hstore',
              .inl ⟨results, count, [], by rw [hout], hresults, onlyLosses_nil, hcommands, ?_,
              hstore'⟩⟩
            rw [hheld, hsince]
            rfl
          · rw [hout]
            refine ⟨hstep, hstore, .inr ⟨?_,
              .inr ⟨results, [], rfl, hresults, onlyLosses_nil, hcommands⟩⟩⟩
            unfold entriesTaken
            rw [waiting_trim, lostIn_append]
            rfl
      · obtain ⟨entry, rfl⟩ := record_eq (hrefused.written onlyLosses_nil).1
        exact ⟨hstep, (handle_record w disk entry).2.2.1.trans hstore,
          .inr ⟨(entriesTaken_written entry).symm,
          .inr (hrefused.written (handle_record w disk entry).2.1).2⟩⟩

theorem handle_buffer (hb : w.store = .open' → w.buffer = []) (hr : w.Reports disk c) :
    (w.handle disk c).1.store = .open' → (w.handle disk c).1.buffer = [] := by
  intro hs
  cases c with
  | record entry =>
    obtain ⟨-, -, hstore, hbuffer⟩ := handle_record w disk entry
    have hopen : w.store = .open' := hstore.symm.trans hs
    rw [hbuffer hopen]
    exact hb hopen
  | open' =>
    obtain ⟨losses, -, ⟨count, -, -, -, hbuffer⟩ | ⟨-, hstore⟩⟩ := handle_open hr
    · exact hbuffer
    · rw [hstore] at hs
      cases hs
  | trim keep =>
    cases hw : w.store with
    | open' =>
      obtain ⟨count, -, -, -, hbuffer⟩ | hout := handle_trim hw (hb hw) hr
      · exact hbuffer
      · rw [hout]
        exact hb hw
    | _ =>
      simp only [HistoryWriter.handle, hw] at hs
      cases hs

end

/-! ## A step of the core -/

section
variable (c : Core) (now : ClockReading) (event : Event)

theorem emits_no_history {part : Part} {out : List Action} (h : Emits part out) (hp : part ≠ .history) :
    out.filterMap Action.historyCommand? = [] := by
  refine List.filterMap_eq_nil_iff.mpr fun a ha => ?_
  have hne : a.part ≠ .history := h a ha ▸ hp
  cases a with
  | openHistory => exact absurd rfl hne
  | trimHistory keep => exact absurd rfl hne
  | _ => rfl

theorem dispatch_no_history (hs : ∀ e, event ≠ .startup e) :
    (c.dispatch now event).2.filterMap Action.historyCommand? = [] := by
  refine List.filterMap_eq_nil_iff.mpr fun a ha => ?_
  have hparts := dispatch_parts c now ha
  have hne : a.part ≠ .history := by
    intro hp
    rw [hp] at hparts
    cases event with
    | startup e => exact hs e rfl
    | timerExpired name id => cases name <;> simp [Event.parts, TimerName.part] at hparts
    | _ => simp [Event.parts] at hparts
  cases a with
  | openHistory => exact absurd rfl hne
  | trimHistory keep => exact absurd rfl hne
  | _ => rfl

theorem handleStartup_history (e : StartupEvent) :
    (c.handleStartup e).1.step = c.step ∧
      ((c.handleStartup e).1.history = c.history ∧
        (c.handleStartup e).2.filterMap Action.historyCommand? = [] ∨
        c.state.isEarly = true ∧ (c.handleStartup e).1.state.isEarly = false ∧
          (c.handleStartup e).1.history = .opening c.step ∧
          (c.handleStartup e).2.filterMap Action.historyCommand? = [.open']) := by
  have hstate := handleStartup_state c e
  have hstarted := emits_no_history (startup_emits c.state e) (by decide)
  by_cases h : (c.state.isOpeningStorage && (c.state.handleStartup e).1.isReadingMamPreference) = true
  · obtain ⟨hopening, hreading⟩ := Bool.and_eq_true_iff.mp h
    have hnot : (c.state.handleStartup e).1 ≠ .failed := by
      intro hf
      rw [hf] at hreading
      cases hreading
    have hlate : (c.state.handleStartup e).1.isEarly = false := by
      cases hs : (c.state.handleStartup e).1 with
      | readingMamPreference requested => rfl
      | _ =>
        rw [hs] at hreading
        cases hreading
    have hearly : c.state.isEarly = true := by
      cases hs : c.state with
      | openingStorage requested => rfl
      | _ =>
        rw [hs] at hopening
        cases hopening
    have hout : (c.handleStartup e).2.filterMap Action.historyCommand? = [.open'] := by
      simp only [Core.handleStartup, List.filterMap_append, hstarted, if_pos h]
      rfl
    refine ⟨?_, .inr ⟨hearly, hstate ▸ hlate, ?_, hout⟩⟩
    · simp only [Core.handleStartup, if_pos h, if_neg hnot]
      rfl
    · simp only [Core.handleStartup, if_pos h, if_neg hnot]
      rfl
  · have hout : (c.handleStartup e).2.filterMap Action.historyCommand? = [] := by
      simp only [Core.handleStartup, List.filterMap_append, hstarted, if_neg h]
      rfl
    unfold Core.handleStartup at hout ⊢
    dsimp only at hout ⊢
    rw [if_neg h] at hout ⊢
    split
    · exact ⟨rfl, .inl ⟨rfl, hout⟩⟩
    · exact ⟨rfl, .inl ⟨rfl, hout⟩⟩

theorem handle_history : ∃ limit,
    (c.handle now event).1.history =
      (((c.note event).dispatch now event).1.history.afterStep
        ((c.note event).dispatch now event).1.step limit).1 ∧
    (c.handle now event).2.filterMap Action.historyCommand? =
      ((c.note event).dispatch now event).2.filterMap Action.historyCommand? ++
        (((c.note event).dispatch now event).1.history.afterStep
          ((c.note event).dispatch now event).1.step
          limit).2.filterMap Action.historyCommand? ∧
    (c.handle now event).1.step = ((c.note event).dispatch now event).1.step := by
  have hframe : ((((c.received now event).decideMam now).1.renewLease.1.decideQbittorrent now).1.history =
        ((c.note event).dispatch now event).1.history) ∧
      ((((c.received now event).decideMam now).1.renewLease.1.decideQbittorrent now).1.step =
        ((c.note event).dispatch now event).1.step) := by
    rw [decideQbittorrent_frame, renewLease_frame, decideMam_eq, received_eq]
    exact ⟨rfl, rfl⟩
  have hn {part : Part} {out : List Action} (h : Emits part out) (hp : part ≠ .history) :
      out.filterMap Action.historyCommand? = [] := emits_no_history h hp
  refine ⟨(((c.received now event).decideMam now).1.renewLease.1.decideQbittorrent
    now).1.settings.historyLimit, ?_, ?_, ?_⟩
  · rw [handle_eq, ← hframe.1, ← hframe.2]
    rfl
  · rw [handle_out, ← hframe.1, ← hframe.2]
    simp only [List.filterMap_append, hn (observe_emits now _) (by decide),
      hn (renewLease_emits _) (by decide),
      hn (decideQbittorrent_emits now _) (by decide), hn (decideMam_emits c now event) (by decide),
      hn (notify_emits now _ _ _) (by decide), List.append_nil, List.nil_append]
    rfl
  · rw [handle_eq, ← hframe.2]
    rfl

/-- Before storage is open the core knows nothing of history, and it is opened once. -/
theorem step_history : (c.handle now event).1.step = c.step + 1 ∧ ∃ h limit,
    (c.handle now event).1.history = (h.afterStep (c.step + 1) limit).1 ∧
    ((c.handle now event).2.filterMap Action.historyCommand? =
        (h.afterStep (c.step + 1) limit).2.filterMap Action.historyCommand? ∧
      ((∃ e, event = .history e ∧ h = c.history.handle (c.step + 1) e) ∨
        (∀ e, event ≠ .history e) ∧ h = c.history) ∨
      (c.handle now event).2.filterMap Action.historyCommand? = [.open'] ∧ (∀ e, event ≠ .history e) ∧
        c.state.isEarly = true ∧ (c.handle now event).1.state.isEarly = false ∧
        h = .opening (c.step + 1)) := by
  obtain ⟨limit, hhistory, hout, hstep⟩ := handle_history c now event
  by_cases hs : ∃ e, event = .startup e
  · obtain ⟨e, rfl⟩ := hs
    have hstate : (c.handle now (.startup e)).1.state =
        ((c.note (.startup e)).handleStartup e).1.state := by
      rw [(handle_frame c now _).1, received_state]
      rfl
    obtain ⟨hstep', ⟨hsame, hnone⟩ | ⟨hearly, hlate, hopening, hopen⟩⟩ :=
      handleStartup_history (c.note (.startup e)) e
    · refine ⟨hstep.trans hstep', c.history, limit, ?_, .inl ⟨?_, .inr ⟨nofun, rfl⟩⟩⟩
      · rw [hhistory]
        exact congrArg₂ (fun h s => (HistoryState.afterStep h s limit).1) hsame hstep'
      · rw [hout]
        refine (congrArg (· ++ _) hnone).trans ?_
        exact congrArg₂ (fun h s =>
          (HistoryState.afterStep h s limit).2.filterMap Action.historyCommand?) hsame hstep'
    · refine ⟨hstep.trans hstep', .opening (c.step + 1), limit, ?_,
        .inr ⟨?_, nofun, hearly, hstate ▸ hlate, rfl⟩⟩
      · rw [hhistory]
        exact congrArg₂ (fun h s => (HistoryState.afterStep h s limit).1) hopening hstep'
      · rw [hout]
        refine (congrArg (· ++ _) hopen).trans ?_
        exact congrArg (fun h => [HistoryCommand.open'] ++
          (HistoryState.afterStep h _ limit).2.filterMap Action.historyCommand?) hopening
  · rw [dispatch_no_history _ now event fun e he => hs ⟨e, he⟩, List.nil_append] at hout
    cases event with
    | startup e => exact absurd ⟨e, rfl⟩ hs
    | history e => exact ⟨hstep, _, limit, hhistory, .inl ⟨hout, .inl ⟨e, rfl, rfl⟩⟩⟩
    | timerExpired name id =>
      cases name <;> exact ⟨hstep, _, limit, hhistory, .inl ⟨hout, .inr ⟨nofun, rfl⟩⟩⟩
    | _ => exact ⟨hstep, _, limit, hhistory, .inl ⟨hout, .inr ⟨nofun, rfl⟩⟩⟩

end

theorem counted (is : List TimedEvent) :
    (core.last is).step = is.length ∧ (core.last is).mam.epoch ≤ 2 * is.length := by
  induction is using List.reverseRecOn with
  | nil => exact ⟨rfl, le_refl _⟩
  | append_singleton is i ih =>
    obtain ⟨hstep, hepoch⟩ := ih
    obtain ⟨hnext, -⟩ := step_history (core.last is) i.occurredAt i.event
    have hle := epoch_step_le (core.last is) i.occurredAt i.event
    rw [Reactive.last_snoc, List.length_append, List.length_singleton]
    exact ⟨hnext.trans (congrArg (· + 1) hstep), hle.trans (Nat.add_le_add_right hepoch 2)⟩

/-- The source counts steps and connections in 64 bits. In a run it can take, the counts
are those it has. -/
theorem counters_fit {is : List TimedEvent} (h : is.length < 2 ^ 62) :
    (core.last is).step < 2 ^ 64 ∧ (core.last is).mam.epoch < 2 ^ 64 := by
  obtain ⟨hstep, hepoch⟩ := counted is
  have hlen : is.length < 2 ^ 64 ∧ 2 * is.length < 2 ^ 64 := by omega
  exact ⟨hstep.trans_lt hlen.1, hepoch.trans_lt hlen.2⟩

/-! ## Runs -/

/-- The writer reports its losses before it counts, and the entries fit in 64 bits. -/
def Recorder.Reports (r : Recorder) : Recording → Prop
  | .event .. | .result .. => entriesTaken r.writer r.commands r.results < u64Max
  | .write disk => ∀ command ∈ r.commands.head?, r.writer.Reports disk command

structure Recorder.Counts (r : Recorder) : Prop where
  tracks : r.core.history.Tracks r.core.step r.writer r.commands r.results
  buffer : r.writer.store = .open' → r.writer.buffer = []
  early : r.core.state.isEarly = true → r.core.history = .closed

section
variable {r : Recorder} (now : ClockReading) (processedAt : SystemTime)

theorem handle_early {c : Core} {event : Event} (h : (c.handle now event).1.state.isEarly = true) :
    c.state.isEarly = true := by
  by_contra hlate
  have hreceived := received_late now event (Bool.eq_false_iff.mpr hlate)
  rw [(handle_frame c now event).1, hreceived] at h
  cases h

theorem closed_handle (step : Step) (e : HistoryEvent) : HistoryState.closed.handle step e = .closed := by
  cases e <;> rfl

theorem Recorder.Counts.take (h : r.Counts)
    (hroom : entriesTaken r.writer r.commands r.results < u64Max) {event : Event}
    (he : ∀ e, event ≠ .history e) : (r.take now processedAt event).Counts := by
  obtain ⟨hstep, state, limit, hhistory, hcases⟩ := step_history r.core now event
  obtain ⟨hout, ⟨e, rfl, -⟩ | ⟨-, rfl⟩⟩ | ⟨hout, -, hearly, hlate, rfl⟩ := hcases
  · exact absurd rfl (he e)
  · refine ⟨?_, h.buffer, fun hs => ?_⟩
    · unfold Recorder.take
      dsimp only
      rw [hhistory, hstep, hout]
      exact h.tracks.sent hroom _ limit
    · change (r.core.handle now event).1.state.isEarly = true at hs
      change (r.core.handle now event).1.history = .closed
      rw [hhistory, h.early (handle_early now hs)]
      rfl
  · refine ⟨?_, h.buffer, fun hs => ?_⟩
    · have hclosed := h.tracks
      rw [h.early hearly] at hclosed
      obtain ⟨hcommands, hresults⟩ := hclosed
      unfold Recorder.take
      dsimp only
      rw [hhistory, hstep, hout]
      exact ⟨le_refl _, .inl (waits_sent hcommands hresults _ _)⟩
    · change (r.core.handle now event).1.state.isEarly = true at hs
      rw [hlate] at hs
      cases hs

theorem Recorder.Counts.result (h : r.Counts)
    (hroom : entriesTaken r.writer r.commands r.results < u64Max)
    {e : HistoryEvent} {results : List HistoryEvent} (hr : r.results = e :: results) :
    (({ r with results := results } : Recorder).take now processedAt (.history e)).Counts := by
  obtain ⟨hstep, state, limit, hhistory, hcases⟩ := step_history r.core now (.history e)
  have htracks := h.tracks
  rw [hr] at htracks hroom
  have hhandled := htracks.result (le_of_lt hroom)
  have hroom' : entriesTaken r.writer r.commands results < u64Max := by
    refine lt_of_le_of_lt ?_ hroom
    unfold entriesTaken
    rw [lostIn_cons]
    omega
  obtain ⟨hout, ⟨e', he, rfl⟩ | ⟨hne, -⟩⟩ | ⟨-, hne, -⟩ := hcases
  · cases he
    refine ⟨?_, h.buffer, fun hs => ?_⟩
    · unfold Recorder.take
      dsimp only
      rw [hhistory, hstep, hout]
      exact hhandled.sent hroom' _ limit
    · change (r.core.handle now (.history e)).1.state.isEarly = true at hs
      change (r.core.handle now (.history e)).1.history = .closed
      rw [hhistory, h.early (handle_early now hs), closed_handle]
      rfl
  · exact absurd rfl (hne e)
  · exact absurd rfl (hne e)

end

theorem Recorder.Counts.step {r : Recorder} (h : r.Counts) {m : Recording} (hm : r.Reports m) :
    (r.step m).Counts := by
  cases m with
  | event now processedAt event =>
    unfold Recorder.step
    dsimp only
    split
    · exact h
    · next hne => exact h.take now processedAt hm hne
  | result now processedAt =>
    unfold Recorder.step
    dsimp only
    split
    · exact h
    · next hr => exact h.result now processedAt hm hr
  | write disk =>
    unfold Recorder.step
    dsimp only
    split
    · exact h
    · next command commands hc =>
      have hreports := hm command (by rw [hc]; rfl)
      refine ⟨?_, handle_buffer h.buffer hreports, h.early⟩
      have htracks := h.tracks
      rw [hc] at htracks
      exact htracks.written h.buffer hreports

section
variable (rows : List HistoryEntry) (moves : List Recording)

theorem recorder_counts (h : ∀ e ∈ (recorder rows).run moves, e.before.Reports e.input) :
    ((recorder rows).last moves).Counts := by
  refine run_invariant (recorder rows) (I := fun _ r => r.Counts)
    (H := fun tr => ∀ e ∈ tr, e.before.Reports e.input) ?_ ?_ ?_ moves h
  · intro tr e htr f hf
    exact htr f (List.mem_append_left _ hf)
  · exact ⟨⟨onlyRecords_nil, onlyLosses_nil⟩, nofun, fun _ => rfl⟩
  · intro tr r m hr htr
    exact hr.step (htr _ (List.mem_append_right _ (List.mem_singleton_self _)))

/-- Over every run of the core and the writer in which the writer counts with no loss
unreported: once nothing is on its way, what the core counts is what is stored. -/
theorem history_counted (h : ∀ e ∈ (recorder rows).run moves, e.before.Reports e.input)
    (hc : ((recorder rows).last moves).commands = []) (hr : ((recorder rows).last moves).results = [])
    (hl : ((recorder rows).last moves).writer.lost = none) {retained : EntryCount} {trim : Trim}
    (ho : ((recorder rows).last moves).core.history = .open' retained trim) :
    retained = ((recorder rows).last moves).writer.rows.length := by
  have hcounts := recorder_counts rows moves h
  generalize (recorder rows).last moves = r at hcounts hc hr hl ho
  obtain ⟨htracks, hbuffer, -⟩ := hcounts
  rw [ho, hc, hr] at htracks
  have htaken : r.writer.store = .open' → entriesTaken r.writer [] [] = r.writer.rows.length :=
    fun hs => held_counted (hbuffer hs) hl
  cases trim with
  | idle | failed =>
    obtain ⟨hstore, -, -, rfl⟩ := htracks
    exact htaken hstore
  | pending step =>
    obtain ⟨-, hstore, hcounted | ⟨rfl, -⟩⟩ := htracks
    · obtain ⟨before, count, after, he, -⟩ := hcounted
      exact absurd he.symm (by simp)
    · exact htaken hstore

end

/-! ## Two runs -/

instance (w : HistoryWriter) (disk : Disk) (c : HistoryCommand) : Decidable (w.Reports disk c) :=
  match c with
  | .record _ => inferInstanceAs (Decidable True)
  | .open' =>
    inferInstanceAs (Decidable (disk.opens → disk.counts →
      if w.buffer = [] then w.lost = none else disk.inserts.getD (w.buffer.length - 1) false = true))
  | .trim keep =>
    inferInstanceAs (Decidable (w.store = .open' → disk.deletes →
      if disk.counts then w.lost = none else w.rows.length ≤ keep))

instance (r : Recorder) (m : Recording) : Decidable (r.Reports m) :=
  match m with
  | .event .. | .result .. =>
    inferInstanceAs (Decidable (entriesTaken r.writer r.commands r.results < u64Max))
  | .write disk =>
    inferInstanceAs (Decidable (∀ command ∈ r.commands.head?, r.writer.Reports disk command))

def diskInserting (second : Bool) : Disk :=
  { opens := true, inserts := [true, second], deletes := true, counts := true }

def openingMoves (second : Bool) : List Recording :=
  -- storage opens; the writer stores both entries it holds, or only the first of them
  let clock : ClockReading := { monotonic := 0, wall := 0 }
  [.event clock 0 (.startup (.start .resume)), .event clock 0 (.startup .storageOpened),
    .write (diskInserting second),
    .write (diskInserting second), .write (diskInserting second), .result clock 0,
    .write (diskInserting second)]

theorem opening_counted : ((recorder []).last (openingMoves true)).core.history = .open' 3 .idle ∧
    3 = ((recorder []).last (openingMoves true)).writer.rows.length := by
  have hreports : ∀ e ∈ (recorder []).run (openingMoves true), e.before.Reports e.input := by
    decide +kernel
  have hc : ((recorder []).last (openingMoves true)).commands.length = 0 := by decide +kernel
  have hr : ((recorder []).last (openingMoves true)).results = [] := by decide +kernel
  have hl : ((recorder []).last (openingMoves true)).writer.lost = none := by decide +kernel
  have ho : ((recorder []).last (openingMoves true)).core.history = .open' 3 .idle := by decide +kernel
  exact ⟨ho, history_counted [] (openingMoves true) hreports (List.length_eq_zero_iff.mp hc) hr hl ho⟩

/-- The loss is left out of what the writer counts, and subtracted once more. -/
theorem loss_subtracted_twice : ¬ ∀ rows moves, ((recorder rows).last moves).commands = [] →
    ((recorder rows).last moves).results = [] → ((recorder rows).last moves).writer.lost = none →
    ∀ retained trim, ((recorder rows).last moves).core.history = .open' retained trim →
      retained = ((recorder rows).last moves).writer.rows.length := by
  intro h
  let clock : ClockReading := { monotonic := 0, wall := 0 }
  have hrun := h [] (openingMoves false ++ [.result clock 0, .write (diskInserting true)])
  have hc : ((recorder []).last (openingMoves false ++ [.result clock 0,
      .write (diskInserting true)])).commands.length = 0 := by
    decide +kernel
  have hrows : ((recorder []).last (openingMoves false ++ [.result clock 0,
      .write (diskInserting true)])).writer.rows.length = 3 := by
    decide +kernel
  have hcount :=
    hrun (List.length_eq_zero_iff.mp hc) (by decide +kernel) (by decide +kernel) 2 .idle
      (by decide +kernel)
  rw [hrows] at hcount
  exact absurd hcount (by decide)

end Windlass
