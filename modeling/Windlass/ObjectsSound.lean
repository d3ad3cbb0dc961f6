import Windlass.CodecSound
import Windlass.QbittorrentClient
import Windlass.SyncSound

/-!
# Mirroring qBittorrent's torrents from its JSON

qBittorrent sends its torrents as JSON objects: all of them whole, or the entries that
changed. Read entry by entry, a change on top of an earlier object comes to what the
whole object would; so a session has the torrents of the server's objects.
-/

namespace Windlass

open Reactive

/-! ## One object -/

def TorrentField.json : TorrentField → String
  | .name => "name"
  | .state => "state"
  | .progress => "progress"
  | .size => "size"
  | .totalSize => "total_size"
  | .downloaded => "completed"
  | .uploaded => "uploaded"
  | .ratio => "ratio"
  | .seedingTime => "seeding_time"
  | .addedAt => "added_on"
  | .completedAt => "completion_on"
  | .contentPath => "content_path"
  | .savePath => "save_path"
  | .forceStart => "force_start"

section
variable {F : Type} (p : Parsers F)

def TorrentField.read : ∀ f : TorrentField, Json.Value F → Option f.Value
  | .name, v => v.text?.bind fun name => (nonEmpty name).map some
  | .state, v => v.text?.map torrentState
  | .progress, v => (v.float? p.float).bind p.progress
  | .size, v | .totalSize, v | .downloaded, v | .uploaded, v => v.u64?
  | .ratio, v => (v.float? p.float).bind p.ratio
  | .seedingTime, v => v.u64?.map Duration.fromSecs
  | .addedAt, v | .completedAt, v => v.i64?.bind reportedTime
  | .contentPath, v | .savePath, v => v.text?.map nonEmpty
  | .forceStart, v => v.bool?.map ForceStart.ofBool

variable {p} {entries : List (String × Json.Value F)}

/-- The fields of the torrent that an object gives, all of them readable. -/
structure Gives (p : Parsers F) (entries : List (String × Json.Value F)) : Prop where
  distinct : (entries.map Prod.fst).Nodup
  readable : ∀ (f : TorrentField) v, entries.lookup f.json = some v → (f.read p v).isSome

theorem given_field {α β : Type} {raw : Json.Value F → Option α} {next : α → Option β} {name : String}
    (h : ∀ v, entries.lookup name = some v → ((raw v).bind next).isSome) :
    given next ((entries.lookup name).bind raw) =
    .ok ((entries.lookup name).bind fun v => (raw v).bind next) := by
  cases hv : entries.lookup name with
  | none => rfl
  | some v =>
    obtain ⟨b, hb⟩ := Option.isSome_iff_exists.mp (h v hv)
    obtain ⟨a, ha, hnext⟩ := Option.bind_eq_some_iff.mp hb
    simp only [Option.bind_some, ha, given, hnext, Option.map_some, understood]

theorem bind_of_ok {α β : Type} {x : QbittorrentOutcome α} {a : α} {f : α → QbittorrentOutcome β} {b : β}
    (hx : x = .ok a) (h : f a = .ok b) : x >>= f = .ok b := by
  rw [hx]
  exact h

theorem isSome_of_bind {α β : Type} {o : Option α} {f : α → Option β} (h : (o.bind f).isSome) :
    o.isSome := by
  cases o with
  | none => cases h
  | some a => rfl

theorem torrentUpdate_eq (h : Gives p entries) :
    ∃ u, torrentUpdate p (.object entries) = .ok u ∧ ∀ f,
    u.given f = (entries.lookup f.json).bind (f.read p) := by
  have hraw {α : Type} (f : TorrentField) (raw : Json.Value F → Option α) (hnull : raw .null = none)
      (hr : ∀ v, (f.read p v).isSome → (raw v).isSome) :
      (Json.fieldOf entries f.json).optional raw = some ((entries.lookup f.json).bind raw) :=
    Json.optional_field hnull fun v hv => hr v (h.readable f v hv)
  have hmap {α β : Type} {o : Option α} {g : α → β} (ho : (o.map g).isSome) : o.isSome := by
    simpa using ho
  have hread : RawTorrent.read p (.object entries) = some
      { name := (entries.lookup "name").bind Json.Value.text?
        state := (entries.lookup "state").bind Json.Value.text?
        progress := (entries.lookup "progress").bind (Json.Value.float? p.float)
        size := (entries.lookup "size").bind Json.Value.u64?
        totalSize := (entries.lookup "total_size").bind Json.Value.u64?
        completed := (entries.lookup "completed").bind Json.Value.u64?
        uploaded := (entries.lookup "uploaded").bind Json.Value.u64?
        ratio := (entries.lookup "ratio").bind (Json.Value.float? p.float)
        seedingTime := (entries.lookup "seeding_time").bind Json.Value.u64?
        addedOn := (entries.lookup "added_on").bind Json.Value.i64?
        completionOn := (entries.lookup "completion_on").bind Json.Value.i64?
        contentPath := (entries.lookup "content_path").bind Json.Value.text?
        savePath := (entries.lookup "save_path").bind Json.Value.text?
        forceStart := (entries.lookup "force_start").bind Json.Value.bool? } := by
    have hname := hraw .name Json.Value.text? rfl fun v hv => isSome_of_bind hv
    have hstate := hraw .state Json.Value.text? rfl fun v hv => hmap hv
    have hprogress := hraw .progress (Json.Value.float? p.float) rfl fun v hv => isSome_of_bind hv
    have hsize := hraw .size Json.Value.u64? rfl fun v hv => hv
    have htotal := hraw .totalSize Json.Value.u64? rfl fun v hv => hv
    have hcompleted := hraw .downloaded Json.Value.u64? rfl fun v hv => hv
    have huploaded := hraw .uploaded Json.Value.u64? rfl fun v hv => hv
    have hratio := hraw .ratio (Json.Value.float? p.float) rfl fun v hv => isSome_of_bind hv
    have hseeding := hraw .seedingTime Json.Value.u64? rfl fun v hv => hmap hv
    have hadded := hraw .addedAt Json.Value.i64? rfl fun v hv => isSome_of_bind hv
    have hcompletion := hraw .completedAt Json.Value.i64? rfl fun v hv => isSome_of_bind hv
    have hcontent := hraw .contentPath Json.Value.text? rfl fun v hv => hmap hv
    have hsave := hraw .savePath Json.Value.text? rfl fun v hv => hmap hv
    have hforce := hraw .forceStart Json.Value.bool? rfl fun v hv => hmap hv
    simp only [TorrentField.json] at hname hstate hprogress hsize htotal hcompleted huploaded
    simp only [TorrentField.json] at hratio hseeding hadded hcompletion hcontent hsave hforce
    refine Option.bind_eq_some_iff.mpr ⟨_, Json.record_object h.distinct _, ?_⟩
    refine Option.bind_eq_some_iff.mpr ⟨_, hname, Option.bind_eq_some_iff.mpr ⟨_, hstate, ?_⟩⟩
    refine Option.bind_eq_some_iff.mpr ⟨_, hprogress, Option.bind_eq_some_iff.mpr ⟨_, hsize, ?_⟩⟩
    refine Option.bind_eq_some_iff.mpr ⟨_, htotal, Option.bind_eq_some_iff.mpr ⟨_, hcompleted, ?_⟩⟩
    refine Option.bind_eq_some_iff.mpr ⟨_, huploaded, Option.bind_eq_some_iff.mpr ⟨_, hratio, ?_⟩⟩
    refine Option.bind_eq_some_iff.mpr ⟨_, hseeding, Option.bind_eq_some_iff.mpr ⟨_, hadded, ?_⟩⟩
    refine Option.bind_eq_some_iff.mpr ⟨_, hcompletion, Option.bind_eq_some_iff.mpr ⟨_, hcontent, ?_⟩⟩
    exact Option.bind_eq_some_iff.mpr ⟨_, hsave, Option.bind_eq_some_iff.mpr ⟨_, hforce, rfl⟩⟩
  have hname := given_field (h.readable .name)
  have hprogress := given_field (h.readable .progress)
  have hratio := given_field (h.readable .ratio)
  have hadded := given_field (h.readable .addedAt)
  have hcompleted := given_field (h.readable .completedAt)
  simp only [TorrentField.json] at hname hprogress hratio hadded hcompleted
  have hok := congrArg understood hread
  refine ⟨_, bind_of_ok hok (bind_of_ok hname (bind_of_ok hprogress (bind_of_ok hratio (bind_of_ok hadded
    (bind_of_ok hcompleted rfl))))), fun f => ?_⟩
  cases f <;> simp only [TorrentUpdate.given, TorrentField.json, TorrentField.read,
    Option.map_bind] <;> rfl

def shownTorrent (p : Parsers F) (entries : List (String × Json.Value F)) : Torrent :=
  Torrent.apply {} ((torrentUpdate p (.object entries)).toOption.getD {})

structure Whole (p : Parsers F) (entries : List (String × Json.Value F)) : Prop where
  gives : Gives p entries
  complete : ∀ f : TorrentField, (entries.lookup f.json).isSome

theorem Whole.get (h : Whole p entries) {f : TorrentField} {v : Json.Value F}
    (hv : entries.lookup f.json = some v) :
    f.read p v = some ((shownTorrent p entries).get f) := by
  obtain ⟨u, hu, hgiven⟩ := torrentUpdate_eq h.gives
  obtain ⟨x, hx⟩ := Option.isSome_iff_exists.mp (h.gives.readable f v hv)
  have hf : u.given f = some x := by rw [hgiven, hv, Option.bind_some, hx]
  unfold shownTorrent
  rw [hu, get_apply]
  change _ = some ((u.given f).getD _)
  rw [hf, hx]
  rfl

end

/-! ## The answer of a sync -/

abbrev Objects (F : Type) := Std.ExtTreeMap TorrentHash (List (String × Json.Value F))

section
variable {F : Type} (p : Parsers F)

def Objects.torrents (server : Objects F) : Torrents := server.map fun _ entries => shownTorrent p entries

def Objects.Whole (server : Objects F) : Prop :=
  ∀ (hash : TorrentHash) entries, server[hash]? = some entries →
  Windlass.Whole p entries

/-- An answer says of the server's objects what is so, and leaves out no entry that differs
from what was told before, and no object that is gone. -/
structure Tells (told server : Objects F) (raw : RawSync F) : Prop where
  named : ∀ e ∈ raw.torrents, ∃ hash entries changes,
    TorrentHash.parse e.1 = some hash ∧ server[hash]? = some entries ∧
    e.2 = .object changes ∧ (changes.map Prod.fst).Nodup ∧
    ∀ key v, changes.lookup key = some v → entries.lookup key = some v
  changed : ∀ (hash : TorrentHash) (entries : List (String × Json.Value F)),
    server[hash]? = some entries →
    ∀ key v, entries.lookup key = some v →
    (told[hash]?.bind fun old => old.lookup key) = some v ∨ ∃ e ∈ raw.torrents,
    TorrentHash.parse e.1 = some hash ∧
      ∃ changes, e.2 = .object changes ∧ changes.lookup key = some v
  removed : ∀ text ∈ raw.torrentsRemoved, ∃ hash :
    TorrentHash, TorrentHash.parse text = some hash ∧ server[hash]? = none
  gone : ∀ (hash : TorrentHash) old, told[hash]? = some old → server[hash]? = none →
    ∃ text ∈ raw.torrentsRemoved, TorrentHash.parse text = some hash

variable {p}

theorem mapM_ok {α β : Type} {f : α → QbittorrentOutcome β} {l : List α} (h : ∀ a ∈ l, ∃ b, f a = .ok b) :
    ∃ bs, l.mapM f = .ok bs ∧ (∀ a ∈ l, ∃ b ∈ bs, f a = .ok b) ∧ ∀ b ∈ bs, ∃ a ∈ l, f a = .ok b := by
  induction l with
  | nil => exact ⟨[], rfl, by simp, by simp⟩
  | cons a l ih =>
    obtain ⟨b, hb⟩ := h a List.mem_cons_self
    obtain ⟨bs, hbs, hall, hback⟩ := ih fun a' ha' => h a' (List.mem_cons_of_mem _ ha')
    refine ⟨b :: bs, ?_, ?_, ?_⟩
    · rw [List.mapM_cons]
      exact bind_of_ok hb (bind_of_ok hbs rfl)
    · intro a' ha'
      rcases List.mem_cons.mp ha' with rfl | ha'
      · exact ⟨b, List.mem_cons_self, hb⟩
      · obtain ⟨b', hb', hf⟩ := hall a' ha'
        exact ⟨b', List.mem_cons_of_mem _ hb', hf⟩
    · intro b' hb'
      rcases List.mem_cons.mp hb' with rfl | hb'
      · exact ⟨a, List.mem_cons_self, hb⟩
      · obtain ⟨a', ha', hf⟩ := hback b' hb'
        exact ⟨a', List.mem_cons_of_mem _ ha', hf⟩

theorem Tells.entry {told server : Objects F} {raw : RawSync F} (h : Tells told server raw)
    (hs : server.Whole p)
    {e : String × Json.Value F} (he : e ∈ raw.torrents) :
    ∃ hash entries changes u, TorrentHash.parse e.1 = some hash ∧
      server[hash]? = some entries ∧ e.2 = .object changes ∧ torrentUpdate p e.2 = .ok u ∧
      (∀ key v, changes.lookup key = some v → entries.lookup key = some v) ∧
      ∀ f, u.given f = (changes.lookup f.json).bind (f.read p) := by
  obtain ⟨hash, entries, changes, hhash, hentries, hchanges, hn, hsub⟩ := h.named e he
  have hgives : Gives p changes :=
    ⟨hn, fun f v hv => (hs hash entries hentries).gives.readable f v (hsub _ v hv)⟩
  obtain ⟨u, hu, hgiven⟩ := torrentUpdate_eq hgives
  exact ⟨hash, entries, changes, u, hhash, hentries, hchanges, hchanges ▸ hu, hsub, hgiven⟩

theorem torrents_getElem? {server : Objects F} {hash : TorrentHash} {t : Torrent} :
    (server.torrents p)[hash]? = some t ↔
    ∃ entries, server[hash]? = some entries ∧ shownTorrent p entries = t := by
  unfold Objects.torrents
  rw [Std.ExtTreeMap.getElem?_map, Option.map_eq_some_iff]

theorem torrents_absent {server : Objects F} {hash : TorrentHash} :
    (server.torrents p)[hash]? = none ↔ server[hash]? = none := by
  unfold Objects.torrents
  rw [Std.ExtTreeMap.getElem?_map, Option.map_eq_none_iff]

theorem updateEntry_ok {e : String × Json.Value F} {hash : TorrentHash} {u : TorrentUpdate}
    (hhash : TorrentHash.parse e.1 = some hash) (hu : torrentUpdate p e.2 = .ok u) :
    updateEntry p e = .ok (hash, u) :=
  bind_of_ok (congrArg understood hhash) (bind_of_ok hu rfl)

/-- The entries are understood one by one, each under its hash. -/
theorem Tells.entries {told server : Objects F} {raw : RawSync F} (h : Tells told server raw)
    (hs : server.Whole p) : ∃ torrents, raw.torrents.mapM (updateEntry p) = .ok torrents ∧
      (∀ e ∈ raw.torrents, ∀ hash, TorrentHash.parse e.1 = some hash →
        ∃ u, torrentUpdate p e.2 = .ok u ∧ (hash, u) ∈ torrents) ∧
      ∀ hash u, (hash, u) ∈ torrents → ∃ e ∈ raw.torrents,
        TorrentHash.parse e.1 = some hash ∧ torrentUpdate p e.2 = .ok u := by
  obtain ⟨torrents, htorrents, hsent, hcame⟩ := mapM_ok (f := updateEntry p) fun e he => by
    obtain ⟨hash, entries, changes, u, hhash, -, -, hu, -⟩ := h.entry hs he
    exact ⟨_, updateEntry_ok hhash hu⟩
  refine ⟨torrents, htorrents, fun e he hash hhash => ?_, fun hash u hmem => ?_⟩
  · obtain ⟨hash', -, -, u, hhash', -, -, hu, -⟩ := h.entry hs he
    rw [hhash'] at hhash
    cases hhash
    obtain ⟨b, hb, hf⟩ := hsent e he
    rw [updateEntry_ok hhash' hu] at hf
    cases hf
    exact ⟨u, hu, hb⟩
  · obtain ⟨e, he, hf⟩ := hcame (hash, u) hmem
    obtain ⟨hash', -, -, u', hhash, -, -, hu, -⟩ := h.entry hs he
    rw [updateEntry_ok hhash hu] at hf
    cases hf
    exact ⟨e, he, hhash, hu⟩

theorem Tells.removals {told server : Objects F} {raw : RawSync F} (h : Tells told server raw) :
    ∃ removed, raw.torrentsRemoved.mapM readHash = .ok removed ∧
      ∀ hash, hash ∈ removed ↔ ∃ text ∈ raw.torrentsRemoved, TorrentHash.parse text = some hash := by
  obtain ⟨removed, hremoved, hdropped, hgone⟩ := mapM_ok (f := readHash) fun text htext => by
    obtain ⟨hash, hhash, -⟩ := h.removed text htext
    exact ⟨hash, congrArg understood hhash⟩
  have hread {text : String} {hash hash' : TorrentHash} (hhash : TorrentHash.parse text = some hash)
      (hf : readHash text = .ok hash') : hash = hash' := by
    rw [readHash, hhash] at hf
    cases hf
    rfl
  refine ⟨removed, hremoved, fun hash => ⟨fun hmem => ?_, fun ⟨text, htext, hhash⟩ => ?_⟩⟩
  · obtain ⟨text, htext, hf⟩ := hgone hash hmem
    obtain ⟨hash', hhash, -⟩ := h.removed text htext
    exact ⟨text, htext, hread hhash hf ▸ hhash⟩
  · obtain ⟨hash', hmem, hf⟩ := hdropped text htext
    exact hread hhash hf ▸ hmem

/-- An answer is understood, and carries what changed of the torrents. -/
theorem tells_carries {told server : Objects F} {raw : RawSync F} (ht : told.Whole p)
    (hs : server.Whole p)
    (h : Tells told server raw) : ∃ u, raw.intoUpdate p = .ok u ∧
      u.scope = (if raw.fullUpdate then .full else .changes) ∧
      Mirror.Carries torrentFields (told.torrents p) (server.torrents p) u.torrents u.removed := by
  obtain ⟨torrents, htorrents, hsent, hcame⟩ := h.entries hs
  obtain ⟨removed, hremoved, hgone⟩ := h.removals
  refine ⟨_, bind_of_ok htorrents (bind_of_ok hremoved rfl), rfl, ?_, ?_, ?_, ?_, ?_⟩
  · intro hash u hu _
    obtain ⟨e, he, hhash, hok⟩ := hcame hash u hu
    obtain ⟨hash', entries, changes, u', hhash', hentries, -, hu', hsub, hgiven⟩ := h.entry hs he
    rw [hhash] at hhash'
    cases hhash'
    rw [hok] at hu'
    cases hu'
    refine ⟨shownTorrent p entries, torrents_getElem?.mpr ⟨entries, hentries, rfl⟩, fun f x hx => ?_⟩
    change TorrentUpdate.given _ f = some x at hx
    rw [hgiven] at hx
    obtain ⟨v, hv, hread⟩ := Option.bind_eq_some_iff.mp hx
    rw [(hs _ entries hentries).get (hsub _ v hv)] at hread
    exact (Option.some.inj hread).symm
  · intro hash t hnew f
    obtain ⟨entries, hentries, rfl⟩ := torrents_getElem?.mp hnew
    have hwhole := hs hash entries hentries
    obtain ⟨v, hv⟩ := Option.isSome_iff_exists.mp (hwhole.complete f)
    -- a field the answer leaves out is as it was last told
    rcases h.changed hash entries hentries f.json v hv with hold | ⟨e, he, hhash, changes, hchanges,
      hsent'⟩
    · left
      obtain ⟨old, hold, hov⟩ := Option.bind_eq_some_iff.mp hold
      rw [torrents_getElem?.mpr ⟨old, hold, rfl⟩]
      have hsame := (ht hash old hold).get hov
      rw [hwhole.get hv] at hsame
      exact (Option.some.inj hsame).symm
    · right
      obtain ⟨u, hu, hmem⟩ := hsent e he hash hhash
      refine ⟨u, hmem, ?_⟩
      obtain ⟨hash', entries', changes', u', -, -, hchanges', hu', hsub, hgiven⟩ := h.entry hs he
      rw [hu] at hu'
      cases hu'
      rw [hchanges] at hchanges'
      cases hchanges'
      change (u.given f).isSome
      rw [hgiven, hsent', Option.bind_some, hwhole.get hv]
      rfl
  · intro hash t hnew hold
    obtain ⟨entries, hentries, rfl⟩ := torrents_getElem?.mp hnew
    obtain ⟨v, hv⟩ := Option.isSome_iff_exists.mp ((hs hash entries hentries).complete .name)
    rcases h.changed hash entries hentries _ v hv with hmem | ⟨e, he, hhash, -⟩
    · rw [torrents_absent.mp hold] at hmem
      cases hmem
    · obtain ⟨u, -, hmem⟩ := hsent e he hash hhash
      exact ⟨u, hmem⟩
  · intro hash hmem
    obtain ⟨text, htext, hhash⟩ := (hgone hash).mp hmem
    obtain ⟨hash', hhash', hnone⟩ := h.removed text htext
    rw [hhash] at hhash'
    cases hhash'
    exact torrents_absent.mpr hnone
  · intro hash t hold hnew
    obtain ⟨old, hold, -⟩ := torrents_getElem?.mp hold
    exact (hgone hash).mpr (h.gone hash old hold (torrents_absent.mp hnew))

end

/-! ## Beside the server's objects -/

structure Listening (F : Type) where
  core : Core
  told : Option (Objects F)

section
variable {F : Type}

/-- The core handles each event while the server keeps its torrents as given. -/
def listening : Machine (Listening F) (TimedEvent × Objects F) Action where
  init := { core := core.init, told := none }
  step w i :=
    ({ core := (core.step w.core i.1).1
       told := if w.core.qbittorrent.connects i.1.event then none
         else if (w.core.qbittorrent.merges i.1.event).isSome then some i.2 else w.told },
      (core.step w.core i.1).2)

variable (p : Parsers F)

def Sent (told : Option (Objects F)) (server : Objects F) (u : SyncUpdate) : Prop :=
  ∃ raw : RawSync F, raw.intoUpdate p = .ok u ∧
    ((raw.fullUpdate = true ∧ Tells ∅ server raw) ∨
      (raw.fullUpdate = false ∧ ∃ old ∈ told, Tells old server raw))

/-- Each update merged on the way is sent by the server for its objects as they stand. -/
def Answered (tr : List (Reactive.Entry (Listening F) (TimedEvent × Objects F) Action)) : Prop :=
  ∀ e ∈ tr, e.input.2.Whole p ∧
    ∀ u, e.before.core.qbittorrent.merges e.input.1.event = some u → Sent p e.before.told e.input.2 u

variable {p}

theorem empty_whole : Objects.Whole p ∅ := by
  intro hash entries h
  simp at h

theorem empty_torrents : Objects.torrents p ∅ = ∅ := by
  unfold Objects.torrents
  exact Std.ExtTreeMap.ext_getElem? fun k => by simp

theorem Sent.reports {told : Option (Objects F)} {server : Objects F} {u : SyncUpdate}
    (h : Sent p told server u)
    (ht : ∀ old ∈ told, old.Whole p) (hs : server.Whole p) :
    Reports (told.map (Objects.torrents p)) (server.torrents p) u := by
  obtain ⟨raw, hu, ⟨hfull, htells⟩ | ⟨hchanges, old, hold, htells⟩⟩ := h
  · obtain ⟨u', hu', hscope, hcarries⟩ := tells_carries empty_whole hs htells
    rw [hu] at hu'
    cases hu'
    rw [empty_torrents] at hcarries
    exact .full (by rw [hscope, hfull]; rfl) hcarries
  · obtain ⟨u', hu', hscope, hcarries⟩ := tells_carries (ht old hold) hs htells
    rw [hu] at hu'
    cases hu'
    refine .changes (old.torrents p) ?_ (by rw [hscope, hchanges]; rfl) hcarries
    rw [show told = some old from hold]
    rfl

theorem listening_told (w : Listening F) (i : TimedEvent × Objects F) : (listening.step w i).1.told =
    if w.core.qbittorrent.connects i.1.event then none
    else if (w.core.qbittorrent.merges i.1.event).isSome then some i.2 else w.told := rfl

theorem told_torrents (w : Listening F) (i : TimedEvent × Objects F) :
    (listening.step w i).1.told.map (Objects.torrents p) =
      w.core.qbittorrent.told i.1.event (i.2.torrents p) (w.told.map (Objects.torrents p)) := by
  unfold Qbittorrent.told
  rw [listening_told]
  by_cases hc : w.core.qbittorrent.connects i.1.event
  · simp [hc]
  · by_cases hm : (w.core.qbittorrent.merges i.1.event).isSome
    · simp [hc, hm]
    · simp [hc, hm]

structure Listening.Mirrors (p : Parsers F) (w : Listening F) : Prop where
  torrents : w.core.qbittorrent.Mirrors (w.told.map (Objects.torrents p))
  whole : ∀ old ∈ w.told, old.Whole p

theorem listening_mirrors {is : List (TimedEvent × Objects F)} (h : Answered p (listening.run is)) :
    (listening.last is).Mirrors p := by
  refine run_invariant listening (I := fun _ w => w.Mirrors p) (H := Answered p) ?_ ?_ ?_ is h
  · exact fun tr e h e' he' => h e' (List.mem_append_left _ he')
  · refine ⟨?_, by simp [listening]⟩
    intro s hs
    cases hs
  · intro tr w i hw htr
    obtain ⟨hwhole, hsent⟩ :=
      htr (listening.entry w i) (List.mem_append_right _ (List.mem_singleton_self _))
    constructor
    · rw [told_torrents]
      exact @step_mirrors ⟨w.core, w.told.map (Objects.torrents p)⟩ i.1 (i.2.torrents p) hw.torrents
        fun u hu => (hsent u hu).reports hw.whole hwhole
    · intro old hold
      rw [listening_told] at hold
      split at hold
      · cases hold
      · split at hold
        · cases hold
          exact hwhole
        · exact hw.whole old hold

/-- A session has the torrents of the server's JSON objects as it was last told of them, and
after each sync those of the moment, where each answer gives at least the entries that
changed; and every such answer is understood. -/
theorem objects_mirrored {is : List (TimedEvent × Objects F)} (h : Answered p (listening.run is)) :
    (∀ e ∈ listening.run is,
      (∀ s, e.after.core.qbittorrent = .connected s →
        s.torrents = (e.after.told.map (Objects.torrents p)).getD ∅ ∧ s.listed = e.after.told.isSome) ∧
      ∀ u, e.before.core.qbittorrent.merges e.input.1.event = some u →
        ∃ s, e.after.core.qbittorrent = .connected s ∧ s.torrents = e.input.2.torrents p ∧
        s.listed = true) ∧
    ∀ (told server : Objects F) raw, told.Whole p → server.Whole p → Tells told server raw →
      ∃ u, raw.intoUpdate p = .ok u := by
  constructor
  · intro e he
    obtain ⟨pre, post, hsplit⟩ := List.append_of_mem he
    obtain ⟨js, i, ks, his, hpre, rfl, -⟩ := run_split listening hsplit
    have hbefore : (listening.last js).Mirrors p := listening_mirrors fun e' he' => by
      refine h e' ?_
      rw [hsplit, hpre]
      exact List.mem_append_left _ he'
    have hafter : (listening.step (listening.last js) i).1.Mirrors p := by
      rw [← last_snoc]
      refine listening_mirrors fun e' he' => h e' ?_
      rw [run_snoc, ← hpre] at he'
      rw [hsplit, List.append_cons]
      exact List.mem_append_left _ he'
    obtain ⟨hwhole, hsent⟩ := h _ he
    refine ⟨fun s hs => ?_, fun u hm => ?_⟩
    · have hs' := hafter.torrents s hs
      refine ⟨hs'.torrents, hs'.listed.trans ?_⟩
      exact Option.isSome_map
    · exact @step_merges ⟨(listening.last js).core, (listening.last js).told.map (Objects.torrents p)⟩ i.1
        (i.2.torrents p) u hbefore.torrents hm ((hsent u hm).reports hbefore.whole hwhole)
  · intro told server raw ht hs hraw
    obtain ⟨u, hu, -⟩ := tells_carries ht hs hraw
    exact ⟨u, hu⟩

end

/-! ## A torrent that finishes -/

def wholeParsers : Parsers Nat where
  json _ := none
  text _ := ""
  float
    | .posInt n => n.toNat
    | .negInt _ => 0
    | .float x => x
  floatFromText _ := none
  progress x := if h : x ≤ 1000 then some ⟨x, h⟩ else none
  ratio x := some x
  balance x := some x
  seconds x := some x
  ip _ := none
  dateTime _ := none

def changedFields (state : String) (progress : Nat) : List (String × Json.Value Nat) :=
  [("state", .text state), ("progress", .number (.float progress))]

def bookObject (state : String) (progress : Nat) : List (String × Json.Value Nat) :=
  [("name", .text "A book"), ("state", .text state), ("progress", .number (.float progress)),
    ("size", .int 10),
    ("total_size", .int 10), ("completed", .int 5), ("uploaded", .int 1), ("ratio", .number (.float 0)),
    ("seeding_time", .int 0), ("added_on", .int 20), ("completion_on", .int (-1)),
    ("content_path", .text ""),
    ("save_path", .text "/books"), ("force_start", .bool false)]

def bookText : String := .ofList (List.replicate 40 'a')

theorem book_lookup (key : String) :
    (∀ state progress, (bookObject state progress).lookup key =
      (changedFields state progress).lookup key) ∨
      ∀ state progress, (changedFields state progress).lookup key = none ∧
        (bookObject state progress).lookup key = (bookObject "" 0).lookup key := by
  by_cases hs : key = "state"
  · subst hs
    exact .inl fun _ _ => rfl
  · by_cases hp : key = "progress"
    · subst hp
      exact .inl fun _ _ => rfl
    · right
      intro state progress
      simp [bookObject, changedFields, List.lookup_cons, beq_false_of_ne hs, beq_false_of_ne hp]

def bookServer (state : String) (progress : Nat) : Objects Nat :=
  Std.ExtTreeMap.insert ∅ someHash (bookObject state progress)

def unfinishedBook : Objects Nat := bookServer "downloading" 500

def finishedBook : Objects Nat := bookServer "stalledUP" 1000

def bookListed : RawSync Nat where
  rid := 1
  fullUpdate := true
  torrents := [(bookText, .object (bookObject "downloading" 500))]
  torrentsRemoved := []

def bookFinished : RawSync Nat where
  rid := 2
  fullUpdate := false
  torrents := [(bookText, .object (changedFields "stalledUP" 1000))]
  torrentsRemoved := []

def syncOf (raw : RawSync Nat) : SyncUpdate :=
  (raw.intoUpdate wholeParsers).toOption.getD
    { position := 0, scope := .full, torrents := [], removed := [] }

def bookBegun : List (TimedEvent × Objects Nat) := (connectedEvents []).map (·, ∅)

def bookTold : TimedEvent × Objects Nat :=
  (.after 0 (.qbittorrent (.synced (syncOf bookListed))), unfinishedBook)

def bookDue : TimedEvent × Objects Nat := (.after 2 (.timerExpired .qbittorrentPoll 0), finishedBook)

def bookEvents : List (TimedEvent × Objects Nat) := bookBegun ++ [bookTold] ++ [bookDue]

theorem book_reads (state : String) {progress : Nat} (h : progress ≤ 1000) (f : TorrentField) :
    (((bookObject state progress).lookup f.json).bind (f.read wholeParsers)).isSome := by
  cases f
  case progress =>
    change ((wholeParsers.progress progress)).isSome
    simp [wholeParsers, h]
  all_goals rfl

theorem book_hash {state : String} {progress : Nat} :
    (bookServer state progress)[someHash]? = some (bookObject state progress) := by
  simp [bookServer]

theorem book_only {state : String} {progress : Nat} {hash : TorrentHash}
    {entries : List (String × Json.Value Nat)}
    (h : (bookServer state progress)[hash]? = some entries) :
    hash = someHash ∧ entries = bookObject state progress := by
  unfold bookServer at h
  rw [Std.ExtTreeMap.getElem?_insert] at h
  split at h
  · next heq =>
    cases h
    exact ⟨(Std.LawfulEqCmp.eq_of_compare heq).symm, rfl⟩
  · simp at h

theorem book_whole {state : String} {progress : Nat} (h : progress ≤ 1000) :
    (bookServer state progress).Whole wholeParsers := by
  intro hash entries hentries
  obtain ⟨rfl, rfl⟩ := book_only hentries
  refine ⟨⟨by simp [bookObject], fun f v hv => ?_⟩, fun f => ?_⟩
  · have hread := book_reads state h f
    rwa [hv] at hread
  · cases f <;> rfl

theorem book_parses : TorrentHash.parse bookText = some someHash := by decide +kernel

theorem listed_tells : Tells ∅ unfinishedBook bookListed := by
  refine ⟨?_, ?_, by simp [bookListed], by simp⟩
  · intro e he
    obtain rfl := List.mem_singleton.mp he
    exact ⟨someHash, _, _, book_parses, book_hash, rfl, by simp [bookObject], fun _ _ h => h⟩
  · intro hash entries hentries key v hv
    obtain ⟨rfl, rfl⟩ := book_only hentries
    exact .inr ⟨_, List.mem_singleton_self _, book_parses, _, rfl, hv⟩

theorem finished_tells : Tells unfinishedBook finishedBook bookFinished := by
  refine ⟨?_, ?_, by simp [bookFinished], ?_⟩
  · intro e he
    obtain rfl := List.mem_singleton.mp he
    refine ⟨someHash, _, _, book_parses, book_hash, rfl, by simp [changedFields], fun key v hv => ?_⟩
    rcases book_lookup key with hchanged | hsame
    · rw [hchanged, hv]
    · rw [(hsame _ _).1] at hv
      cases hv
  · intro hash entries hentries key v hv
    obtain ⟨rfl, rfl⟩ := book_only hentries
    rcases book_lookup key with hchanged | hsame
    · right
      rw [hchanged] at hv
      exact ⟨_, List.mem_singleton_self _, book_parses, _, rfl, hv⟩
    · left
      rw [unfinishedBook, book_hash, Option.bind_some, (hsame _ _).2, ← hv, (hsame "stalledUP" 1000).2]
  · intro hash old hold hnew
    obtain ⟨rfl, rfl⟩ := book_only hold
    rw [finishedBook, book_hash] at hnew
    cases hnew

theorem book_answered : Answered wholeParsers (listening.run
    (bookEvents ++ [(.after 2 (.qbittorrent (.synced (syncOf bookFinished))), finishedBook)])) := by
  have hbook := @book_whole "downloading" 500 (by decide)
  have hdone := @book_whole "stalledUP" 1000 (by decide)
  have hlisted : ∀ u, u = syncOf bookListed → bookListed.intoUpdate wholeParsers = .ok u := by
    obtain ⟨u, hu, -⟩ := tells_carries empty_whole hbook listed_tells
    unfold syncOf
    rw [hu]
    rintro u rfl
    rfl
  have hfinished : ∀ u, u = syncOf bookFinished → bookFinished.intoUpdate wholeParsers = .ok u := by
    obtain ⟨u, hu, -⟩ := tells_carries hbook hdone finished_tells
    unfold syncOf
    rw [hu]
    rintro u rfl
    rfl
  have htold : (listening.last bookEvents).told = some unfinishedBook := by
    have hc : (listening.last bookBegun).core.qbittorrent.connects bookTold.1.event = false := by
      decide +kernel
    have hm : ((listening.last bookBegun).core.qbittorrent.merges bookTold.1.event).isSome = true :=
      by decide +kernel
    have hidle : (listening.last (bookBegun ++
      [bookTold])).core.qbittorrent.connects bookDue.1.event = false ∧
        (listening.last (bookBegun ++ [bookTold])).core.qbittorrent.merges bookDue.1.event = none :=
          by decide +kernel
    rw [bookEvents, last_snoc, listening_told, hidle.1, hidle.2, last_snoc, listening_told, hc, hm]
    rfl
  have hbefore : ∀ i ∈ bookEvents, i.2.Whole wholeParsers ∧ ∀ u, i.1.event = .qbittorrent (.synced u) →
      u = syncOf bookListed ∧ i.2 = unfinishedBook := by
    intro i hi
    simp only [bookEvents, bookBegun, bookTold, bookDue, connectedEvents, List.map_cons,
      List.map_nil, List.cons_append,
      List.nil_append, List.mem_cons, List.not_mem_nil, or_false] at hi
    rcases hi with rfl | rfl | rfl | rfl | rfl | rfl | rfl
    case inr.inr.inr.inr.inr.inl =>
      refine ⟨hbook, fun u hu => ?_⟩
      cases hu
      exact ⟨rfl, rfl⟩
    case inr.inr.inr.inr.inr.inr => exact ⟨hdone, fun u hu => by cases hu⟩
    all_goals exact ⟨empty_whole, fun u hu => by cases hu⟩
  intro e he
  rw [run_snoc] at he
  rcases List.mem_append.mp he with he | he
  · obtain ⟨hwhole, hsynced⟩ := (forall_mem_run listening).mpr hbefore e he
    refine ⟨hwhole, fun u hm => ?_⟩
    obtain ⟨s, -, hevent, -⟩ := merges_iff.mp hm
    obtain ⟨hu, hserver⟩ := hsynced u hevent
    rw [hserver]
    exact ⟨bookListed, hlisted u hu, .inl ⟨rfl, listed_tells⟩⟩
  · obtain rfl := List.mem_singleton.mp he
    refine ⟨hdone, fun u hm => ?_⟩
    obtain ⟨s, -, hevent, -⟩ := merges_iff.mp hm
    refine ⟨bookFinished, hfinished u ?_, .inr ⟨rfl, unfinishedBook, htold, finished_tells⟩⟩
    cases hevent
    rfl

theorem book_finished : ∃ s, (listening.last (bookEvents ++
    [(.after 2 (.qbittorrent (.synced (syncOf bookFinished))), finishedBook)])).core.qbittorrent =
    .connected s ∧
      s.torrents = finishedBook.torrents wholeParsers ∧ s.listed = true := by
  have hmerges : (listening.last bookEvents).core.qbittorrent.merges
    (.qbittorrent (.synced (syncOf bookFinished))) =
      some (syncOf bookFinished) := by decide +kernel
  have hlast : listening.entry (listening.last bookEvents)
      (.after 2 (.qbittorrent (.synced (syncOf bookFinished))),
        finishedBook) ∈ listening.run (bookEvents ++
        [(.after 2 (.qbittorrent (.synced (syncOf bookFinished))), finishedBook)]) := by
    rw [run_snoc]
    simp
  rw [last_snoc]
  exact ((objects_mirrored book_answered).1 _ hlast).2 _ hmerges

end Windlass
