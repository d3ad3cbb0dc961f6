import Windlass.Answers

/-!
# Why a request is sent

The requests of acquisition, traced back to what is known about the torrent they
are for.
-/

namespace Windlass

section
variable {a : Acquisition} {account : Account} {now : Instant} {request : MamRequest}

/-- The watch over running downloads asks only about a download it watches. -/
theorem watchNext_cases (h : acquisitionRequest (a.watchNext account now) = some request) :
    ∃ download watch, (download, watch) ∈ a.watched ∧
      ((request = .lookUpTorrent download.mam ∧ watch = .needLookup ∧ mayAsk a.lookupFailed now) ∨
        (request = .wedgeHistory ∧ watch = .needHistory ∧ a.mayAskHistory download.mam now) ∨
        (request = .fetchTorrent download.mam .spend ∧ watch = .notFree .complete .listed)) := by
  unfold Acquisition.watchNext at h
  generalize hf : List.find? _ _ = found at h
  cases found with
  | none => cases h
  | some next =>
    obtain ⟨⟨download, watch⟩, hmem, hone⟩ := List.mem_map.mp (List.mem_of_find?_eq_some hf)
    refine ⟨download, watch, hmem, ?_⟩
    dsimp only at hone
    rw [Option.getD_some, ← hone] at h
    unfold Acquisition.watchOne at h
    split at h
    · split at h
      · next hask =>
        cases h
        exact .inl ⟨rfl, rfl, hask⟩
      · cases h
    · split at h
      · next hask =>
        cases h
        exact .inr (.inl ⟨rfl, rfl, hask⟩)
      · cases h
    · split at h
      · split at h
        · split at h
          · cases h
            exact .inr (.inr ⟨rfl, rfl⟩)
          · cases h
        · cases h
      · cases h
    · cases h

theorem ask_eq {allowed : Bool} {next : Next} (h : acquisitionRequest (ask allowed next) = some request) :
    allowed ∧ acquisitionRequest next = some request := by
  unfold ask at h
  split at h
  · next ha => exact ⟨ha, h⟩
  · cases h

/-- Everything admission can ask for, with what it knows. -/
theorem admit_cases {facts : Facts} {data : UserData} {id : MamTorrentId}
    (h : acquisitionRequest ( Acquisition.admit a facts data id) = some request) :
    (request = .fetchTorrent id .keep ∧ ∃ listing seen,
        a.current id facts.now lookupFreshFor = some (some listing, seen) ∧
        freeForOwner listing data facts.wall) ∨
    (∃ history, a.historySettles id facts.now = some history ∧
      (request = .fetchTorrent id .keep ∧ history.wedged.contains id ∨
        request = .fetchTorrent id .spend ∧ history.wedged.contains id = false)) ∨
    (request = .wedgeHistory ∧ a.mayAskHistory id facts.now) ∨
    (request = .lookUpTorrent id ∧ mayAsk a.lookupFailed facts.now) := by
  unfold Acquisition.admit at h
  split at h
  · next listing seen hc =>
    split at h
    · next hfree =>
      cases h
      exact .inl ⟨rfl, listing, seen, hc, hfree⟩
    · split at h
      · obtain ⟨ha, hr⟩ := ask_eq h
        cases hr
        exact .inr (.inr (.inl ⟨rfl, ha⟩))
      · next history hs =>
        refine .inr (.inl ⟨history, hs, ?_⟩)
        split at h
        · next hw =>
          cases h
          exact .inl ⟨rfl, hw⟩
        · next hw =>
          rw [Bool.not_eq_true] at hw
          split at h
          · cases h
          · cases h
            exact .inr ⟨rfl, hw⟩
  · obtain ⟨ha, hr⟩ := ask_eq h
    cases hr
    exact .inr (.inr (.inr ⟨rfl, ha⟩))

theorem next_cases {queued : List MamTorrentId} {facts : Facts}
    (h : acquisitionRequest (a.next queued facts) = some request) :
    ∃ bookmark data, a.candidate queued = some bookmark ∧
    facts.account.fresh facts.now a.lastAdmission = some data ∧
      acquisitionRequest ( Acquisition.admit a facts data bookmark.id) = some request := by
  unfold Acquisition.next at h
  split at h
  · split at h <;> cases h
  · next bookmark hb =>
    split at h
    · cases h
    · split at h
      · cases h
      · next data hd =>
        split at h
        · cases h
        · exact ⟨bookmark, data, hb, hd, h⟩

end

/-! ## The decision of a step -/

section
variable {c : Core} {now : ClockReading} {event : Event} {request : MamRequest}

def Core.admissionFacts (c : Core) (now : ClockReading) (event : Event) : Facts :=
  (c.surveyed now event).facts now (c.received now event).context (c.planned now event).cookie
    ((c.received now event).mam.connect now (c.received now event).context).network.current
    (((c.received now event).mam.connect now (c.received now event).context).survey now
      (c.received now event).context).2

theorem planned_next (h : acquisitionRequest (c.planned now event).next = some request) :
    ∃ records, (c.received now event).registry = .loaded records ∧
      acquisitionRequest ((c.surveyed now event).acquisition.next records.queued
        (c.admissionFacts now event)) =
        some request := by
  have hp : (c.planned now event).next = ((c.surveyed now event).plan now (c.received now event).context
      (c.planned now event).cookie _ _).next := rfl
  have hr : (c.received now event).context.registry = (c.received now event).registry := rfl
  rw [hp, Mam.plan, hr] at h
  cases hl : (c.received now event).registry with
  | loaded records =>
    rw [hl] at h
    exact ⟨records, rfl, h⟩
  | _ =>
    rw [hl] at h
    cases h

theorem survey_watched {m : Mam} {context : Context} {download : Download} {watch : DownloadWatch}
    (h : (download, watch) ∈ (m.survey now context).1.acquisition.watched) :
    watch = m.acquisition.watch download m.account.data now.monotonic now.wall ∧
      ∃ records, context.registry = .loaded records ∧ download ∈ records.downloads := by
  simp only [Mam.survey] at h
  rw [followConnectability_frame] at h
  unfold Mam.watchDownloads at h
  cases hr : context.registry with
  | loaded records =>
    rw [hr] at h
    obtain ⟨d, hd, he⟩ := List.mem_map.mp h
    cases he
    exact ⟨rfl, records, rfl, List.mem_of_mem_filter hd⟩
  | _ =>
    rw [hr] at h
    cases h

theorem surveyed_watched {download : Download} {watch : DownloadWatch}
    (h : (download, watch) ∈ (c.surveyed now event).acquisition.watched) :
    watch = (c.surveyed now event).acquisition.watch download
    (c.received now event).mam.account.data now.monotonic
        now.wall ∧
      ∃ records, (c.received now event).registry = .loaded records ∧ download ∈ records.downloads := by
  obtain ⟨hw, hr⟩ := survey_watched h
  refine ⟨?_, hr⟩
  have ha : ((c.received now event).mam.connect now (c.received now event).context).account =
      (c.received now event).mam.account := by rw [connect_frame]
  rw [hw, ha]
  unfold Core.surveyed
  rw [survey_frame]
  rfl

theorem decision_cases {reserve : Option Points}
    (h : (c.prepared now event).wanted now reserve (c.planned now event) = some (.request request)) :
    (request = .lookUpIp ∧ (c.surveyed now event).network.due now.monotonic) ∨
    (∃ clients, request = .loadUserData clients ∧
      (c.surveyed now event).account.wanted now.monotonic (c.planned now event).early = some clients) ∨
    (∃ start, request = .listBookmarks start ∧
      (c.surveyed now event).acquisition.bookmarks.wanted now.monotonic = some start) ∨
    (∃ purchase points, request = .buy purchase ∧
      (c.surveyed now event).account.wantedPurchase now.monotonic now.wall points = some purchase) ∨
    acquisitionRequest ((c.surveyed now event).acquisition.watchNext (c.surveyed now event).account
      now.monotonic) =
      some request ∨
    ∃ records, (c.received now event).registry = .loaded records ∧
      acquisitionRequest ((c.surveyed now event).acquisition.next records.queued
        (c.admissionFacts now event)) =
        some request := by
  obtain ⟨hr, hd⟩ | ⟨-, -, ⟨clients, hr, hw⟩ | ⟨start, hr, hw⟩ | ⟨purchase, points, hr,
    hw⟩ | hw | hw⟩ := wanted_cases h
  · exact .inl ⟨hr, hd⟩
  · exact .inr (.inl ⟨clients, hr, hw⟩)
  · exact .inr (.inr (.inl ⟨start, hr, hw⟩))
  · exact .inr (.inr (.inr (.inl ⟨purchase, points, hr, hw⟩)))
  · exact .inr (.inr (.inr (.inr (.inl hw))))
  · exact .inr (.inr (.inr (.inr (.inr (planned_next hw)))))

end

/-! ## The outstanding request -/

section
variable {c : Core} {now : ClockReading} {event : Event} {request : MamRequest}

/-- A request is outstanding because it was, or because this step sent it. -/
theorem outstanding_step {sent : Instant} {epoch : ConnectionEpoch}
    (h : (c.handle now event).1.mam.outstanding = some (.request request sent epoch)) :
    c.mam.outstanding = some (.request request sent epoch) ∨
      sent = now.monotonic ∧ ∃ cookie, .mamRequest request cookie ∈ (c.handle now event).2 := by
  cases hslot : c.mam.slotAfter now event with
  | some slot =>
    obtain ⟨ho, hr, -⟩ := slot_taken c now event hslot
    rw [ho] at h
    cases h
    unfold Mam.slotAfter at hslot
    split at hslot
    · next at' k epoch' hm =>
      split at hslot
      · cases hslot
      · next he =>
        cases hslot
        refine .inr ⟨rfl, some k, ?_⟩
        rw [← mem_requests, hr]
        simp [Mam.sentAtOnce, hm, not_not.mp he]
    · cases hslot
    · cases hslot
    · exact .inl hslot
  | none =>
    obtain ⟨ho, -⟩ | ⟨k, ho, -⟩ | ⟨r, ho, -, -, hr, -⟩ := slot_empty c now event hslot
    · rw [ho] at h
      cases h
    · rw [ho] at h
      cases h
    · rw [ho] at h
      cases h
      refine .inr ⟨rfl, (c.planned now event).cookie.filter fun _ => request.needsCookie, ?_⟩
      rw [← mem_requests, hr]
      exact List.mem_singleton_self _

end

end Windlass
