import Windlass.DurableSound
import Windlass.System

/-!
# The registry in the database

The rows of the registry over every run of the whole program: batches are saved by
workers, which may fail, and the program may stop at any moment and start again. The
rows stored keep their ids and hashes apart, none is ever lost, and while the registry
is loaded the rows in memory and in storage are the same rows.
-/

namespace Windlass

open Sqlite

/-! ## Rows stored and on their way -/

def Operation.batch? : Operation → Option (List TorrentRecord)
  | .saveTorrents records => some records
  | _ => none

def storedTorrents (saved : Option Saved) : List TorrentRecord := saved.elim [] Saved.torrents

def waitingBatches (jobs : List (Workers.Job Operation Event)) : List (List TorrentRecord) :=
  jobs.filterMap fun job => job.work.batch?

def Operation.savedBatch? (w : Operation) : Option Event → Option (List TorrentRecord)
  | some (.registry .saved) => w.batch?
  | _ => none

def savedBatches (jobs : List (Workers.Job Operation Event)) : List (List TorrentRecord) :=
  jobs.filterMap fun job => job.work.savedBatch? job.report

def applyBatches (table : List Row) (batches : List (List TorrentRecord)) : List Row :=
  batches.foldl (fun table batch => (saveTorrents table batch).toOption.getD table) table

/-- The rows of storage beside the batches a process has handed to it, counted from the
table that the process started with. -/
structure RegistrySafe (before : List TorrentRecord) (base : List Row) (handed : Saves)
    (s : Running (Option Saved)) : Prop where
  apart : (storedTorrents s.resource).Pairwise fun old record => old.replacedBy record = false
  storable : ∀ record ∈ storedTorrents s.resource, (record.id : Nat) ≤ i64Max
  asked : ∀ job ∈ s.jobs, job.work.Valid
  reads : ReadFrom base (core.run s.taken)
  waits : waitingBatches s.jobs = handed.pending
  table : (storedTorrents s.resource).map TorrentRecord.parameters =
    applyBatches handed.table (savedBatches s.jobs)
  reports : ∀ job ∈ s.jobs, ∀ event, job.report = some event →
    ((event = .registry .saved ∨ event = .registry .saveFailed) ↔ job.work.batch?.isSome)
  unread : (coreOf s).registry.records? = none → ∀ job ∈ s.jobs, ∀ rows,
    job.report = some (.registry (.read rows)) → readRegistry base = .ok rows ∧ DistinctHashes rows
  bounded : ∀ r, (coreOf s).registry = .loaded r → r.nextId.val ≤ i64Max + 1
  kept : ∀ record ∈ before, ∃ record' ∈ storedTorrents s.resource, record'.id = record.id

def handedBy (base : List Row) (s : Running (Option Saved)) : Saves := saves base (core.run s.taken)

def RegistryMay (s : Running (Option Saved)) (out : List Action) : Prop :=
  (∀ action ∈ out, ∀ operation ∈ action.operation?, operation.Valid) ∧
    ∀ r, (coreOf s).registry = .loaded r → r.nextId.val ≤ i64Max + 1

section
variable {jobs : List (Workers.Job Operation Event)}

theorem saved_waiting (h : waitingBatches jobs = []) : savedBatches jobs = [] := by
  unfold waitingBatches at h
  unfold savedBatches
  rw [List.filterMap_eq_nil_iff] at h ⊢
  intro job hj
  unfold Operation.savedBatch?
  rw [h job hj]
  split <;> rfl

theorem waiting_asked (out : List Action) :
    waitingBatches ((out.filterMap Action.operation?).map fun w => ⟨w, none⟩) = batches out := by
  induction out with
  | nil => rfl
  | cons action out ih =>
    cases action <;> first | exact ih | exact congrArg (_ :: ·) ih

theorem saved_asked (out : List Action) :
    savedBatches ((out.filterMap Action.operation?).map fun w => ⟨w, none⟩) = [] := by
  unfold savedBatches
  rw [List.filterMap_map, List.filterMap_eq_nil_iff]
  intro w _
  rfl

end

/-! ## The table of rows -/

theorem insertAll_apart {clashes : TorrentRecord → TorrentRecord → Bool} {table rows : List TorrentRecord}
    (h : table.Pairwise fun old record => clashes old record = false) :
    (insertAll clashes table rows).Pairwise fun old record => clashes old record = false := by
  rw [insertAll_eq]
  refine List.pairwise_append.mpr ⟨h.filter _, survivors_pairwise, fun old ho record hr => ?_⟩
  have hnone := (List.mem_filter.mp ho).2
  rw [Bool.not_eq_true', List.any_eq_false] at hnone
  exact Bool.eq_false_iff.mpr (hnone record (survivors_sublist.subset hr))

section
variable {rows : List TorrentRecord} (h : rows.Pairwise fun old record => old.replacedBy record = false)
  (hs : ∀ record ∈ rows, (record.id : Nat) ≤ i64Max)
include h

theorem stored_ids : ((rows.map TorrentRecord.parameters).map rowId).Nodup := by
  rw [List.map_map]
  refine List.pairwise_map.mpr (h.imp fun {old record} hapart => ?_)
  intro heq
  have hid : integer old.id = integer record.id := heq
  simp [TorrentRecord.replacedBy, hid] at hapart

include hs

theorem stored_read :
    ∃ read, readRegistry (rows.map TorrentRecord.parameters) = .ok read ∧ DistinctHashes read := by
  refine ⟨_, readRegistry_saved hs, ?_⟩
  have hsymm : rows.Pairwise fun record record' =>
      ∀ hash, record.identity.hash = some hash → record'.identity.hash ≠ some hash := by
    refine h.imp fun {old record} hapart hash ho hr => ?_
    simp [TorrentRecord.replacedBy, ho, hr] at hapart
  have hsorted : (orderBy (fun record => integer record.id) rows).Perm rows := orderBy_perm
  refine List.pairwise_map.mpr
    (((hsorted.pairwise_iff fun {a b} hab hash hb ha => hab hash ha hb).mpr hsymm).imp ?_)
  intro record record' hne hash hr hr'
  have hkeeps (record : TorrentRecord) : record.clamped.unforced.identity.hash = record.identity.hash :=
    clamped_hash record.identity
  exact hne hash ((hkeeps record).symm.trans hr) ((hkeeps record').symm.trans hr')

end

theorem execute_torrents (saved : Option Saved) (w : Operation) :
    (w.batch? = none → storedTorrents (Saved.execute saved w).1 = storedTorrents saved ∧
      (Saved.execute saved w).2 ≠ .registry .saved ∧ (Saved.execute saved w).2 ≠ .registry .saveFailed) ∧
    ∀ batch, w = .saveTorrents batch →
      (storedTorrents (Saved.execute saved w).1 = storedTorrents saved ∧
        (Saved.execute saved w).2 = .registry .saveFailed) ∨
      (storedTorrents (Saved.execute saved w).1 =
        insertAll TorrentRecord.replacedBy (storedTorrents saved) batch ∧
        (Saved.execute saved w).2 = .registry .saved) := by
  cases saved with
  | none =>
    refine ⟨fun hw => ?_, fun batch hw => ?_⟩
    · cases w with
      | openStorage mode =>
        cases mode <;> exact ⟨rfl, by simp [Saved.execute, Operation.failure],
          by simp [Saved.execute, Operation.failure]⟩
      | saveTorrents batch => cases hw
      | _ => exact ⟨rfl, by simp [Saved.execute, Operation.failure],
          by simp [Saved.execute, Operation.failure]⟩
    · subst hw
      exact .inl ⟨rfl, rfl⟩
  | some s =>
    refine ⟨fun hw => ?_, fun batch hw => ?_⟩
    · cases w with
      | openStorage mode =>
        cases mode <;> exact ⟨rfl, by simp [Saved.execute, Saved.report],
          by simp [Saved.execute, Saved.report]⟩
      | saveTorrents batch => cases hw
      | saveNotice entry through =>
        refine ⟨?_, by simp [Saved.execute, Saved.report], by simp [Saved.execute, Saved.report]⟩
        unfold Saved.execute Saved.after
        by_cases ht : s.taken entry.id
        · simp [ht]
        · simp [ht, Saved.log, storedTorrents]
      | _ => exact ⟨rfl, by simp [Saved.execute, Saved.report], by simp [Saved.execute, Saved.report]⟩
    · subst hw
      exact .inr ⟨rfl, rfl⟩

theorem failure_torrents (w : Operation) :
    (w.batch? = none → w.failure ≠ .registry .saved ∧ w.failure ≠ .registry .saveFailed) ∧
      (w.batch?.isSome → w.failure = .registry .saveFailed) ∧ ∀ rows,
      w.failure ≠ .registry (.read rows) := by
  cases w <;> simp [Operation.batch?, Operation.failure]

theorem execute_registry {saved : Option Saved} {w : Operation} {read : List TorrentRecord}
    (h : (Saved.execute saved w).2 = .registry (.read read))
    (hs : ∀ record ∈ storedTorrents saved, (record.id : Nat) ≤ i64Max) :
    readRegistry ((storedTorrents saved).map TorrentRecord.parameters) = .ok read := by
  cases saved with
  | none =>
    cases w with
    | openStorage mode => cases mode <;> cases h
    | _ => cases h
  | some s =>
    cases w with
    | readTorrentRegistry =>
      have hread := readRegistry_saved hs
      have heq : (orderBy (fun record => integer record.id) s.torrents).map (fun record =>
          record.clamped.unforced) = read := by
        injection h with h
        injection h
      rw [hread]
      exact congrArg _ heq
    | openStorage mode => cases mode <;> cases h
    | _ => cases h

/-! ## One step -/

section
variable {before : List TorrentRecord} {base : List Row} {handed : Saves}
  {s : Running (Option Saved)} {k : Nat}
  {w : Operation}

theorem RegistrySafe.storedBy (h : RegistrySafe before base handed s) :
    StoredBy base (handedBy base s) (coreOf s) :=
  stored_run h.reads

theorem RegistrySafe.one_waits (h : RegistrySafe before base (handedBy base s) s) :
    (waitingBatches s.jobs).length ≤ 1 := by
  rw [h.waits]
  cases hr : (coreOf s).registry.records? with
  | none =>
    rw [h.storedBy.untouched hr]
    exact Nat.zero_le 1
  | some records =>
    obtain ⟨r, hloaded⟩ := records?_loaded (g := (coreOf s).registry) (by simp [hr])
    exact (h.storedBy.kept r hloaded (h.bounded r hloaded)).pending_length

theorem records?_take {i : TimedEvent} (h : (core.step (coreOf s) i).1.registry.records? = none) :
    (coreOf s).registry.records? = none := by
  refine Classical.byContradiction fun hne => ?_
  obtain ⟨r, hr⟩ := records?_loaded hne
  have hlast : (core.last s.taken).registry = .loaded r := hr
  obtain ⟨r', hr', -⟩ := rows_stay hlast [i]
  rw [Reactive.last_snoc] at hr'
  have hstep : (core.step (coreOf s) i).1.registry = .loaded r' := hr'
  rw [hstep] at h
  cases h

theorem RegistrySafe.take {i : TimedEvent}
    (h : RegistrySafe before base ((handedBy base s).answer i.event) s)
    (hread : (coreOf s).registry = .reading → ∀ rows, i.event = .registry (.read rows) →
      readRegistry base = .ok rows ∧ DistinctHashes rows)
    (hmay : RegistryMay (program.take s i).1 (program.take s i).2) :
    RegistrySafe before base (handedBy base (program.take s i).1) (program.take s i).1 := by
  obtain ⟨hvalid, hbounded⟩ := hmay
  have hrun : core.run (program.take s i).1.taken = core.run s.taken ++ [core.entry (coreOf s) i] :=
    Reactive.run_snoc core s.taken i
  have hout : (program.take s i).2 = (core.step (coreOf s) i).2 := rfl
  have hjobs : ∀ job ∈ (program.take s i).1.jobs, job ∈ s.jobs ∨
      job.report = none ∧ ∃ action ∈ (program.take s i).2, action.operation? = some job.work := by
    intro job hj
    rcases List.mem_append.mp hj with hj | hj
    · exact .inl hj
    · obtain ⟨w, hw, rfl⟩ := List.mem_map.mp hj
      exact .inr ⟨rfl, List.mem_filterMap.mp hw⟩
  have hhanded : handedBy base (program.take s i).1 =
      ((handedBy base s).answer i.event).hand (batches (core.step (coreOf s) i).2) := by
    unfold handedBy
    rw [hrun, saves_snoc]
    rfl
  have hwaiting : waitingBatches (program.take s i).1.jobs =
      waitingBatches s.jobs ++ batches (core.step (coreOf s) i).2 :=
    List.filterMap_append.trans (congrArg (_ ++ ·) (waiting_asked _))
  have hsaved : savedBatches (program.take s i).1.jobs = savedBatches s.jobs :=
    List.filterMap_append.trans ((congrArg (_ ++ ·) (saved_asked _)).trans (List.append_nil _))
  -- a step of the core leaves storage alone and may only add workers
  refine ⟨h.apart, h.storable, fun job hj => ?_, ⟨h.reads.ids, fun e he => ?_⟩, ?_, ?_, fun job hj => ?_,
    fun hnone job hj => ?_, hbounded, h.kept⟩
  · obtain hj | ⟨-, action, ha, hwork⟩ := hjobs job hj
    · exact h.asked job hj
    · exact hvalid action ha job.work hwork
  · rw [hrun] at he
    rcases List.mem_append.mp he with he | he
    · exact h.reads.rows e he
    · rw [List.mem_singleton.mp he]
      exact hread
  · rw [hwaiting, hhanded, h.waits]
    rfl
  · rw [hsaved, hhanded]
    exact h.table
  · obtain hj | ⟨hr, -⟩ := hjobs job hj
    · exact h.reports job hj
    · intro event he
      rw [hr] at he
      cases he
  · have hbefore := records?_take (s := s) (i := i) ((congrArg (fun c => c.registry.records?)
      (Reactive.last_snoc core s.taken i)).symm.trans hnone)
    obtain hj | ⟨hr, -⟩ := hjobs job hj
    · exact h.unread hbefore job hj
    · intro rows he
      rw [hr] at he
      cases he

theorem RegistrySafe.only_batch (h : RegistrySafe before base (handedBy base s) s)
    {batch : List TorrentRecord}
    {report : Option Event} (hj : s.jobs[k]? = some ⟨.saveTorrents batch, report⟩) :
    waitingBatches s.jobs = [batch] ∧
      savedBatches s.jobs = ((Operation.saveTorrents batch).savedBatch? report).toList ∧
      ∀ event, savedBatches (s.jobs.set k ⟨.saveTorrents batch, some event⟩) =
        ((Operation.saveTorrents batch).savedBatch? (some event)).toList := by
  obtain ⟨hwaiting, -⟩ := Workers.gather_split (fun job => job.work.batch?) hj
  have hone := h.one_waits
  have hlen := hwaiting.length_eq
  have hrest : waitingBatches (s.jobs.eraseIdx k) = [] := by
    refine List.length_eq_zero_iff.mp ?_
    change (waitingBatches s.jobs).length = _ at hlen
    have hsum : (waitingBatches s.jobs).length = 1 + (waitingBatches (s.jobs.eraseIdx k)).length := by
      rw [hlen, List.length_append]
      rfl
    omega
  have hgather : ∀ {l : List (List TorrentRecord)} {o : Option (List TorrentRecord)},
      l.Perm (o.toList ++ savedBatches (s.jobs.eraseIdx k)) → l = o.toList := by
    intro l o hperm
    rw [saved_waiting hrest, List.append_nil] at hperm
    cases o with
    | none => exact hperm.eq_nil
    | some b => exact List.perm_singleton.mp hperm
  obtain ⟨hsaved, hset⟩ :=
    Workers.gather_split (fun job : Workers.Job Operation Event => job.work.savedBatch? job.report) hj
  refine ⟨?_, hgather hsaved, fun event => hgather (hset _)⟩
  have hperm : (waitingBatches s.jobs).Perm ([batch] ++ waitingBatches (s.jobs.eraseIdx k)) := hwaiting
  rw [hrest, List.append_nil] at hperm
  exact List.perm_singleton.mp hperm

theorem RegistrySafe.batch_keeps (h : RegistrySafe before base (handedBy base s) s)
    {batch : List TorrentRecord}
    (hwaiting : waitingBatches s.jobs = [batch]) :
    ∀ row ∈ (handedBy base s).table,
      ∃ row' ∈ (saveTorrents (handedBy base s).table batch).toOption.getD (handedBy base s).table,
      rowId row' = rowId row := by
  have hpending : (handedBy base s).pending = [batch] := h.waits.symm.trans hwaiting
  obtain ⟨r, hr⟩ := records?_loaded (g := (coreOf s).registry) fun hnone => by
    have huntouched := h.storedBy.untouched hnone
    rw [huntouched] at hpending
    cases hpending
  have hbound := h.bounded r hr
  have hkeeps := h.storedBy.kept r hr hbound
  cases hs : r.saving with
  | none =>
    rw [hkeeps.settled hs] at hpending
    cases hpending
  | some ids =>
    obtain ⟨batch', hbatch', hsent⟩ := hkeeps.sent ids hs
    obtain rfl : batch' = batch := by
      rw [hpending] at hbatch'
      exact (List.cons.inj hbatch').1.symm
    intro row hrow
    obtain ⟨row', hrow', hid, -⟩ := hkeeps.saved_rows hsent hbound hrow
    exact ⟨row', hrow', hid⟩

theorem RegistrySafe.ended_unread (h : RegistrySafe before base (handedBy base s) s) {event : Event}
    (hread : ∀ rows, event = .registry (.read rows) →
      readRegistry ((storedTorrents s.resource).map TorrentRecord.parameters) = .ok rows)
    (hnone : (coreOf s).registry.records? = none) : ∀ job ∈ s.jobs.set k ⟨w, some event⟩, ∀ rows,
      job.report = some (.registry (.read rows)) → readRegistry base = .ok rows ∧ DistinctHashes rows := by
  intro job hjob rows hr
  rcases List.mem_or_eq_of_mem_set hjob with hjob | rfl
  · exact h.unread hnone job hjob rows hr
  · have hhanded : handedBy base s = ⟨base, []⟩ := h.storedBy.untouched hnone
    have hnothing : waitingBatches s.jobs = [] := by
      rw [h.waits, hhanded]
    have hbase : (storedTorrents s.resource).map TorrentRecord.parameters = base := by
      rw [h.table, saved_waiting hnothing, hhanded]
      rfl
    obtain ⟨read, hread', hdistinct⟩ := stored_read h.apart h.storable
    have hrows := hread rows (Option.some.inj hr)
    have heq : read = rows := Except.ok.inj (hread'.symm.trans hrows)
    rw [← hbase]
    exact ⟨hrows, heq ▸ hdistinct⟩

theorem RegistrySafe.ended_valid (h : RegistrySafe before base (handedBy base s) s)
    (hj : s.jobs[k]? = some ⟨w, none⟩) (event : Event) :
    ∀ job ∈ s.jobs.set k ⟨w, some event⟩, job.work.Valid := by
  intro job hjob
  obtain ⟨old, ho, hwork⟩ := Workers.mem_set_work hj hjob
  exact hwork ▸ h.asked old ho

theorem RegistrySafe.ended_reports (h : RegistrySafe before base (handedBy base s) s) {event : Event}
    (he : (event = .registry .saved ∨ event = .registry .saveFailed) ↔ w.batch?.isSome) :
    ∀ job ∈ s.jobs.set k ⟨w, some event⟩, ∀ e, job.report = some e →
      ((e = .registry .saved ∨ e = .registry .saveFailed) ↔ job.work.batch?.isSome) := by
  intro job hjob e hr
  rcases List.mem_or_eq_of_mem_set hjob with hjob | rfl
  · exact h.reports job hjob e hr
  · cases hr
    exact he

theorem waiting_ended (hj : s.jobs[k]? = some ⟨w, none⟩) (event : Event) :
    waitingBatches (s.jobs.set k ⟨w, some event⟩) = waitingBatches s.jobs :=
  Workers.gather_set hj rfl

/-- A worker that wrote no row leaves the table as it was. -/
theorem RegistrySafe.ended_other (h : RegistrySafe before base (handedBy base s) s)
    (hj : s.jobs[k]? = some ⟨w, none⟩) {resource : Option Saved} {event : Event}
    (hsame : storedTorrents resource = storedTorrents s.resource)
    (hbatches : savedBatches (s.jobs.set k ⟨w, some event⟩) = savedBatches s.jobs)
    (he : (event = .registry .saved ∨ event = .registry .saveFailed) ↔ w.batch?.isSome)
    (hread : ∀ rows, event = .registry (.read rows) →
      readRegistry ((storedTorrents s.resource).map TorrentRecord.parameters) = .ok rows) :
    RegistrySafe before base (handedBy base s)
      { s with resource := resource, jobs := s.jobs.set k ⟨w, some event⟩ } where
  apart := by rw [hsame]; exact h.apart
  storable := by rw [hsame]; exact h.storable
  asked := h.ended_valid hj event
  reads := h.reads
  waits := (waiting_ended hj event).trans h.waits
  table := by rw [hsame, hbatches]; exact h.table
  reports := h.ended_reports he
  unread := h.ended_unread hread
  bounded := h.bounded
  kept := by rw [hsame]; exact h.kept

theorem RegistrySafe.inserted_storable (h : RegistrySafe before base (handedBy base s) s)
    {batch : List TorrentRecord} (hv : (Operation.saveTorrents batch).Valid) :
    ∀ record ∈ insertAll TorrentRecord.replacedBy (storedTorrents s.resource) batch,
      (record.id : Nat) ≤ i64Max := by
  rw [insertAll_eq]
  intro record hr
  rcases List.mem_append.mp hr with hr | hr
  · exact h.storable record (List.mem_filter.mp hr).1
  · exact hv record (survivors_sublist.subset hr)

/-- A batch is in the table as a whole, and no row is gone. -/
theorem RegistrySafe.ended_saved (h : RegistrySafe before base (handedBy base s) s)
    {batch : List TorrentRecord} (hj : s.jobs[k]? = some ⟨.saveTorrents batch, none⟩)
    {resource : Option Saved}
    (hinsert : storedTorrents resource =
      insertAll TorrentRecord.replacedBy (storedTorrents s.resource) batch) :
    RegistrySafe before base (handedBy base s) { s with
      resource := resource
      jobs := s.jobs.set k ⟨.saveTorrents batch, some (.registry .saved)⟩ } := by
  have hasked : (Operation.saveTorrents batch).Valid := h.asked _ (List.mem_of_getElem? hj)
  obtain ⟨hwaiting, hsaved, hset⟩ := h.only_batch hj
  have htable : (storedTorrents s.resource).map TorrentRecord.parameters =
      (handedBy base s).table := by
    rw [h.table, hsaved]
    rfl
  have happlied : (insertAll TorrentRecord.replacedBy (storedTorrents s.resource) batch).map
      TorrentRecord.parameters =
        (saveTorrents (handedBy base s).table batch).toOption.getD (handedBy base s).table := by
    rw [saveTorrents_eq, ← htable, insertAll_map]
    simp only [sameKey_replacedBy]
    rfl
  have hnew : savedBatches (s.jobs.set k ⟨.saveTorrents batch, some (.registry .saved)⟩) =
      [batch] := hset _
  have hstorable := h.inserted_storable hasked
  refine ⟨by rw [hinsert]; exact insertAll_apart h.apart, by rw [hinsert]; exact hstorable,
    h.ended_valid hj _, h.reads, (waiting_ended hj _).trans h.waits, ?_,
    h.ended_reports (by simp [Operation.batch?]), h.ended_unread nofun, h.bounded, ?_⟩
  · rw [hinsert, happlied, hnew]
    rfl
  · have hstays := h.batch_keeps hwaiting
    intro record hr
    obtain ⟨old, ho, hid⟩ := h.kept record hr
    rw [hinsert]
    obtain ⟨row', hrow', hrowId⟩ := hstays old.parameters (htable ▸ List.mem_map_of_mem ho)
    rw [← happlied] at hrow'
    obtain ⟨new, hnew, rfl⟩ := List.mem_map.mp hrow'
    refine ⟨new, hnew, ?_⟩
    have hsmall := hstorable new hnew
    have hsmall' := h.storable old ho
    have hints : integer new.id = integer old.id := hrowId
    unfold integer at hints
    rw [← hid]
    exact PNat.coe_injective (by omega)

theorem RegistrySafe.ended (h : RegistrySafe before base (handedBy base s) s)
    (hj : s.jobs[k]? = some ⟨w, none⟩)
    {resource : Option Saved} {event : Event}
    (hother : w.batch? = none → storedTorrents resource = storedTorrents s.resource ∧
      event ≠ .registry .saved ∧ event ≠ .registry .saveFailed)
    (hbatch : ∀ batch, w = .saveTorrents batch →
      (storedTorrents resource = storedTorrents s.resource ∧ event = .registry .saveFailed) ∨
      (storedTorrents resource = insertAll TorrentRecord.replacedBy (storedTorrents s.resource) batch ∧
        event = .registry .saved))
    (hread : ∀ rows, event = .registry (.read rows) →
      readRegistry ((storedTorrents s.resource).map TorrentRecord.parameters) = .ok rows) :
    RegistrySafe before base (handedBy base s)
      { s with resource := resource, jobs := s.jobs.set k ⟨w, some event⟩ } := by
  cases hw : w.batch? with
  | none =>
    obtain ⟨hsame, hsaved, hfailed⟩ := hother hw
    have hbatches : savedBatches (s.jobs.set k ⟨w, some event⟩) = savedBatches s.jobs := by
      refine Workers.gather_set hj ?_
      unfold Operation.savedBatch?
      rw [hw]
      split <;> rfl
    exact h.ended_other hj hsame hbatches (by simp [hsaved, hfailed, hw]) hread
  | some batch =>
    obtain rfl : w = .saveTorrents batch := by
      cases w <;> cases hw
      rfl
    -- the table is as it was, or has the whole batch in it
    rcases hbatch batch rfl with ⟨hsame, rfl⟩ | ⟨hinsert, rfl⟩
    · obtain ⟨-, hsaved, hset⟩ := h.only_batch hj
      have hnone : savedBatches (s.jobs.set k ⟨.saveTorrents batch, some (.registry .saveFailed)⟩) =
        [] := hset _
      exact h.ended_other hj hsame (hnone.trans hsaved.symm) (by simp [Operation.batch?]) nofun
    · exact h.ended_saved hj hinsert

/-- The rows stored, with a batch that is saved and not reported yet, are those in memory. -/
theorem RegistrySafe.loaded (h : RegistrySafe before base (handedBy base s) s) {r : Records}
    (hr : (coreOf s).registry = .loaded r) :
    (∀ record ∈ storedTorrents s.resource, ∃ row, r.row record.id = some row) ∧
      ∀ id row, r.row id = some row → id ∉ r.unsaved →
        (∀ batch ∈ waitingBatches s.jobs, ∀ b ∈ batch, b.id ≠ id) →
        ∃ record ∈ storedTorrents s.resource, row.StoredAs record.clamped.unforced := by
  have hbound := h.bounded r hr
  have hkeeps := h.storedBy.kept r hr hbound
  have hread : ∀ record ∈ storedTorrents s.resource,
      torrentRecord record.parameters = .ok record.clamped.unforced := by
    intro record hrecord
    exact torrentRecord_saved (h.storable record hrecord)
  obtain ⟨r', handed', hrow', hunsaved', hpending', hheld, htable⟩ : ∃ (r' : Records) (handed' : Saves),
      r'.row = r.row ∧ r'.unsaved = r.unsaved ∧
      (∀ batch ∈ handed'.pending, batch ∈ waitingBatches s.jobs) ∧
        handed'.Keeps r' ∧ (storedTorrents s.resource).map TorrentRecord.parameters = handed'.table := by
    -- a batch can be in the table before the core hears of it
    cases hsaved : savedBatches s.jobs with
    | nil =>
      refine ⟨r, handedBy base s, rfl, rfl, fun batch hb => h.waits ▸ hb, hkeeps, ?_⟩
      rw [h.table, hsaved]
      rfl
    | cons batch rest =>
      have hmem : batch ∈ savedBatches s.jobs := hsaved ▸ List.mem_cons_self
      obtain ⟨job, hjob, hbatch⟩ := List.mem_filterMap.mp hmem
      obtain ⟨work, report⟩ := job
      have hwork : work = .saveTorrents batch ∧ report = some (.registry .saved) := by
        unfold Operation.savedBatch? at hbatch
        dsimp only at hbatch
        split at hbatch
        · cases work <;> cases hbatch
          exact ⟨rfl, rfl⟩
        · cases hbatch
      obtain ⟨rfl, rfl⟩ := hwork
      obtain ⟨k, hk⟩ := List.getElem?_of_mem hjob
      obtain ⟨hwaiting, hsaved', -⟩ := h.only_batch hk
      have hpending : (handedBy base s).pending = [batch] := h.waits.symm.trans hwaiting
      cases hs : r.saving with
      | none =>
        rw [hkeeps.settled hs] at hpending
        cases hpending
      | some ids =>
        obtain ⟨batch', hbatch', hsent⟩ := hkeeps.sent ids hs
        obtain rfl : batch' = batch := by
          rw [hpending] at hbatch'
          exact (List.cons.inj hbatch').1.symm
        refine ⟨{ r with saving := none }, ⟨(saveTorrents (handedBy base s).table batch').toOption.getD
          (handedBy base s).table, []⟩, rfl, rfl, by simp, hkeeps.saved hsent hbound hs r.lastSave, ?_⟩
        rw [h.table, hsaved']
        rfl
  have hback : ∀ stored ∈ handed'.table, ∃ record ∈ storedTorrents s.resource,
      record.parameters = stored :=
    fun stored hstored => List.mem_map.mp (htable ▸ hstored)
  constructor
  · intro record hrecord
    obtain ⟨old, hold, -, row, hrow⟩ :=
      hheld.stored record.parameters (htable ▸ List.mem_map_of_mem hrecord)
    rw [hread record hrecord] at hold
    cases hold
    exact ⟨row, hrow' ▸ hrow⟩
  · intro id row hrow hu hw
    obtain ⟨stored, hstored, old, hold, hstoredAs⟩ := hheld.in_storage (hrow' ▸ hrow) (hunsaved' ▸ hu)
      fun batch hb => hw batch (hpending' batch hb)
    obtain ⟨record, hrecord, rfl⟩ := hback stored hstored
    rw [hread record hrecord] at hold
    cases hold
    exact ⟨record, hrecord, hstoredAs⟩

/-- A report that is about to be taken answers the batch of its worker. -/
theorem RegistrySafe.erased (h : RegistrySafe before base (handedBy base s) s) {event : Event}
    (hj : s.jobs[k]? = some ⟨w, some event⟩) :
    RegistrySafe before base ((handedBy base s).answer event) { s with jobs := s.jobs.eraseIdx k } := by
  have hmem {job : Workers.Job Operation Event} (hjob : job ∈ s.jobs.eraseIdx k) : job ∈ s.jobs :=
    List.mem_of_mem_eraseIdx hjob
  have hiff := h.reports _ (List.mem_of_getElem? hj) event rfl
  suffices hboth : waitingBatches (s.jobs.eraseIdx k) = ((handedBy base s).answer event).pending ∧
      applyBatches ((handedBy base s).answer event).table (savedBatches (s.jobs.eraseIdx k)) =
        applyBatches (handedBy base s).table (savedBatches s.jobs) by
    exact ⟨h.apart, h.storable, fun job hjob => h.asked job (hmem hjob), h.reads, hboth.1,
      h.table.trans hboth.2.symm, fun job hjob => h.reports job (hmem hjob),
      fun hnone job hjob => h.unread hnone job (hmem hjob), h.bounded, h.kept⟩
  cases hw : w.batch? with
  | none =>
    rw [hw, Option.isSome_none] at hiff
    have hsaved : event ≠ .registry .saved := fun he => Bool.false_ne_true (hiff.mp (.inl he))
    have hfailed : event ≠ .registry .saveFailed := fun he => Bool.false_ne_true (hiff.mp (.inr he))
    have hsame : (handedBy base s).answer event = handedBy base s :=
      (answer_other (r := Records.new []) hsaved hfailed).1
    have hwaiting : waitingBatches (s.jobs.eraseIdx k) = waitingBatches s.jobs :=
      Workers.gather_erase hj hw
    have hsavedBatches : savedBatches (s.jobs.eraseIdx k) = savedBatches s.jobs := by
      refine Workers.gather_erase hj ?_
      unfold Operation.savedBatch?
      rw [hw]
      split <;> rfl
    rw [hsame, hwaiting, hsavedBatches]
    exact ⟨h.waits, rfl⟩
  | some batch =>
    obtain rfl : w = .saveTorrents batch := by
      cases w <;> cases hw
      rfl
    obtain ⟨hwaiting, hsaved, -⟩ := h.only_batch hj
    have hpending : (handedBy base s).pending = [batch] := h.waits.symm.trans hwaiting
    have hrest : waitingBatches (s.jobs.eraseIdx k) = [] := by
      obtain ⟨hperm, -⟩ := Workers.gather_split (fun job => job.work.batch?) hj
      have hlen := hperm.length_eq
      change (waitingBatches s.jobs).length = _ at hlen
      rw [hwaiting, List.length_append] at hlen
      exact List.length_eq_zero_iff.mp (Nat.add_left_cancel (n := 1) hlen).symm
    rw [saved_waiting hrest, hrest, hsaved]
    unfold Saves.answer
    rw [hpending]
    rcases hiff.mpr rfl with rfl | rfl
    · exact ⟨rfl, rfl⟩
    · exact ⟨rfl, rfl⟩

end

theorem registry_keeps (before : List TorrentRecord) : program.Keeps Saved.execute RegistryMay
    fun s => ∃ base, RegistrySafe before base (handedBy base s) s where
  input s i h hi hmay := by
    obtain ⟨base, h⟩ := h
    have hr : i.event.reportsStorage = false := hi
    have hsaved : i.event ≠ .registry .saved := fun he => by rw [he] at hr; cases hr
    have hfailed : i.event ≠ .registry .saveFailed := fun he => by rw [he] at hr; cases hr
    have hsame : (handedBy base s).answer i.event = handedBy base s :=
      (answer_other (r := Records.new []) hsaved hfailed).1
    refine ⟨base, RegistrySafe.take (by rw [hsame]; exact h) (fun _ rows he => ?_) hmay⟩
    rw [he] at hr
    cases hr
  perform s k w h hj := by
    obtain ⟨base, h⟩ := h
    obtain ⟨hother, hbatch⟩ := execute_torrents s.resource w
    exact ⟨base, h.ended hj hother hbatch fun rows he => execute_registry he h.storable⟩
  fail s k w h hj := by
    obtain ⟨base, h⟩ := h
    obtain ⟨hother, hbatch, hread⟩ := failure_torrents w
    refine ⟨base, h.ended hj (fun hw => ⟨rfl, hother hw⟩) (fun batch hw => .inl ⟨rfl,
      hbatch ?_⟩) fun rows he => ?_⟩
    · rw [hw]
      rfl
    · exact absurd he (hread rows)
  complete s k w e at' h hj hmay := by
    obtain ⟨base, h⟩ := h
    refine ⟨base, (h.erased hj).take (fun hreading rows he => ?_) hmay⟩
    have hnone : (coreOf s).registry.records? = none := by
      rw [show (coreOf s).registry = .reading from hreading]
      rfl
    exact h.unread hnone _ (List.mem_of_getElem? hj) rows (congrArg some he)
  restart s h := by
    obtain ⟨base, h⟩ := h
    refine ⟨(storedTorrents s.resource).map TorrentRecord.parameters, h.apart, h.storable, by simp,
      ⟨stored_ids h.apart, fun e he => by cases he⟩, rfl, rfl, by simp, by simp,
      fun r hr => (by cases hr), h.kept⟩

/-! ## Every run -/

def TorrentRows : Option Database → List TorrentRecord → Prop
  | none, records => records = []
  | some db, records => ∃ t, db.tables "torrents" = some t ∧ t.rows = records.map TorrentRecord.parameters

theorem holds_torrents {message : Notice → Message} {file : Option Database} {saved : Option Saved}
    (h : FileHolds message file saved) : TorrentRows file (storedTorrents saved) := by
  cases file with
  | none =>
    cases saved with
    | none => rfl
    | some s => exact h.elim
  | some db =>
    cases saved with
    | none => exact h.elim
    | some s => exact h.torrents

section
variable {message : Notice → Message} {earlier later : List Happening}

/-- In every run of the whole program from new storage, while ids fit in storage: no two
stored rows share an id or an info hash, none is ever lost, and once a process has loaded
the registry it has a row for each stored one, and each of its rows that waits for no save
is stored. -/
theorem registry_stored (hv : Asks Operation.Valid ((system message none).run (earlier ++ later)))
    (hb : ∀ e ∈ (system message none).run (earlier ++ later), ∀ r,
      (coreOf e.after).registry = .loaded r → r.nextId.val ≤ i64Max + 1) :
    ∃ before after, TorrentRows ((system message none).last earlier).resource before ∧
      TorrentRows ((system message none).last (earlier ++ later)).resource after ∧
      (after.Pairwise fun old record => old.replacedBy record = false) ∧
      (∀ record ∈ before, ∃ record' ∈ after, record'.id = record.id) ∧
      ∀ r, (coreOf ((system message none).last (earlier ++ later))).registry = .loaded r →
        (∀ record ∈ after, ∃ row, r.row record.id = some row) ∧
        ∀ id row, r.row id = some row → id ∉ r.unsaved →
          (∀ batch ∈ waitingBatches ((system message none).last (earlier ++ later)).jobs,
            ∀ b ∈ batch, b.id ≠ id) →
          ∃ record ∈ after, row.StoredAs record.clamped.unforced := by
  have h0 : FileHolds message none none := trivial
  have hsplit : (system message none).run (earlier ++ later) = (system message none).run earlier ++
      (system message none).trace ((system message none).last earlier) later := Reactive.trace_append ..
  have hsplit' : (ideal none).run (earlier ++ later) = (ideal none).run earlier ++
      (ideal none).trace ((ideal none).last earlier) later := Reactive.trace_append ..
  have hv₁ : Asks Operation.Valid ((system message none).run earlier) := by
    intro e he
    exact hv e (hsplit ▸ List.mem_append_left _ he)
  obtain ⟨-, -, hmatch₁⟩ := system_matches h0 hv₁
  obtain ⟨hsteps, -, hmatch⟩ := system_matches h0 hv
  have hmay : ∀ e ∈ (ideal none).run (earlier ++ later), RegistryMay e.after e.out := by
    intro e' he'
    obtain ⟨e, he, htaken, hout⟩ := hsteps e' he'
    have hcore : coreOf e'.after = coreOf e.after := congrArg core.last htaken
    refine ⟨?_, fun r hr => hb e he r (hcore ▸ hr)⟩
    rw [hout]
    exact hv e he
  rw [hsplit'] at hmay
  have hfirst : ∃ base, RegistrySafe [] base (handedBy base ((ideal none).last earlier))
      ((ideal none).last earlier) := by
    refine Workers.crew_invariant (registry_keeps []) ?_ earlier fun e he => hmay e
      (List.mem_append_left _ he)
    refine ⟨[], by simp [storedTorrents], by simp [storedTorrents], by simp,
      ⟨by simp, fun e he => by cases he⟩,
      rfl, rfl, by simp, by simp, fun r hr => (by cases hr), by simp⟩
  obtain ⟨base, hfirst⟩ := hfirst
  have hlast : ∃ base, RegistrySafe (storedTorrents ((ideal none).last earlier).resource) base
      (handedBy base ((ideal none).last (earlier ++ later))) ((ideal none).last (earlier ++ later)) := by
    have hsame : (ideal none).last (earlier ++ later) =
        (ideal none).final ((ideal none).last earlier) later :=
      Reactive.final_append ..
    rw [hsame]
    refine Workers.crew_kept (registry_keeps _) ⟨base, ?_⟩ later fun e he => hmay e
      (List.mem_append_right _ he)
    exact { hfirst with kept := fun record hr => ⟨record, hr, rfl⟩ }
  obtain ⟨base, hlast⟩ := hlast
  have hcore : coreOf ((ideal none).last (earlier ++ later)) =
      coreOf ((system message none).last (earlier ++ later)) := congrArg core.last hmatch.taken
  refine ⟨_, _, holds_torrents hmatch₁.resource, holds_torrents hmatch.resource, hlast.apart,
    hlast.kept, fun r hr => ?_⟩
  obtain ⟨hrows, hstored⟩ := hlast.loaded (r := r) (hcore ▸ hr)
  exact ⟨hrows, fun id row hrow hu hw => hstored id row hrow hu (hmatch.jobs ▸ hw)⟩

end

def settledAt (seconds count : Nat) : List Happening :=
  (List.replicate count [.perform 0,
    .complete 0 (TimedEvent.after seconds (.notification .sendTest)).occurredAt]).flatten

def savingLife (mam : Nat) : List Happening :=
  -- a new Windlass is set up, reads that a torrent is bookmarked and saves it
  .input (.after 0 (.startup (.start .initialise))) :: settledAt 0 9 ++
    .input (.after 0 (.settings (.setApiCookie savedCookie))) :: settledAt 0 1 ++
    .input (.after 0 (.mamPause (.set .enabled))) :: settledAt 0 1 ++
    [.after 0 (.tunnel (.enable [serverOne, serverTwo] (some serverOne))),
      .after 0 (.tunnel (.exitIpObserved (.v4 1))),
      .after 0 (.mam .enable), .after 0 (.qbittorrent .enable),
      .after 0 (.qbittorrent (.connected (.release { major := 5, minor := 2, patch := 0 })
        { listenPort := none, interface := none, queue := none })),
      .after 0 (.qbittorrent (.synced { position := 1, scope := .full, torrents := [], removed := [] })),
      .after 60 (.timerExpired .mam 0),
      replyAt 61 (.ip { ip := .v4 1, asn := 1, provider := none })].map Workers.Act.input ++
      settledAt 62 1 ++
    [replyAt 63 (.registered .completed (.v4 1)), replyAt 64 (.userData accountData),
      replyAt 65 (.bookmarks { found := 1, bookmarks := [listing mam .no] })].map Workers.Act.input ++
    settledAt 66 3

def restartedLife : List Happening :=
  .restart :: .input (.after 100 (.startup (.start .resume))) :: settledAt 100 7

theorem bookmark_loaded : ∃ after, TorrentRows
      ((system (fun _ => noWords) none).last (savingLife 5 ++ restartedLife)).resource after ∧
    (after.Pairwise fun old record => old.replacedBy record = false) ∧
    ∃ r row, (coreOf ((system (fun _ => noWords) none).last (savingLife 5 ++
      restartedLife))).registry = .loaded r ∧
      r.row 1 = some row ∧ row.identity = .mam 5 ∧ ∃ record ∈ after,
      row.StoredAs record.clamped.unforced := by
  have hvalid : ((system (fun _ => noWords) none).run (savingLife 5 ++ restartedLife)).all
      (fun e => e.out.all fun action => action.operation?.all fun operation =>
        decide operation.Valid) = true := by
    decide +kernel
  have hids : ((system (fun _ => noWords) none).run (savingLife 5 ++ restartedLife)).all
      (fun e => (coreOf e.after).registry.records?.all fun r =>
        decide (r.nextId.val ≤ i64Max + 1)) = true := by
    decide +kernel
  have hsmall : ∀ e ∈ (system (fun _ => noWords) none).run (savingLife 5 ++ restartedLife), ∀ r,
      (coreOf e.after).registry = .loaded r → r.nextId.val ≤ i64Max + 1 := by
    intro e he r hr
    have h := List.all_eq_true.mp hids e he
    rw [hr] at h
    exact of_decide_eq_true h
  have hstored := registry_stored (asks_valid hvalid) hsmall
  have hrow : (coreOf ((system (fun _ => noWords) none).last (savingLife 5 ++
    restartedLife))).registry.records?.any
      (fun r => !r.unsaved.contains 1 && (r.row 1).any fun row => row.identity == .mam 5) = true :=
        by decide +kernel
  have hjobs : waitingBatches ((system (fun _ => noWords) none).last (savingLife 5 ++
      restartedLife)).jobs = [] := by
    decide +kernel
  generalize (system (fun _ => noWords) none).last (savingLife 5 ++ restartedLife) = s at *
  obtain ⟨-, after, -, hafter, hapart, -, hloaded⟩ := hstored
  obtain ⟨r, hr, hstate⟩ := (Option.any_eq_true _ _).mp hrow
  rw [Bool.and_eq_true, Bool.not_eq_true'] at hstate
  obtain ⟨hu, hrow⟩ := hstate
  obtain ⟨row, hrow, hid⟩ := (Option.any_eq_true _ _).mp hrow
  obtain ⟨r', hr'⟩ := records?_loaded (by rw [hr]; exact Option.some_ne_none r)
  rw [hr'] at hr
  cases hr
  have hunsaved : (1 : RecordId) ∉ r.unsaved := by
    rw [← Std.ExtTreeSet.contains_iff_mem, hu]
    exact Bool.false_ne_true
  obtain ⟨-, hstored⟩ := hloaded r hr'
  have hdone : ∀ batch ∈ waitingBatches s.jobs, ∀ b ∈ batch, b.id ≠ 1 := by
    intro batch hb
    rw [hjobs] at hb
    cases hb
  exact ⟨after, hafter, hapart, r, row, hr', hrow, beq_iff_eq.mp hid, hstored 1 row hrow hunsaved hdone⟩

end Windlass
