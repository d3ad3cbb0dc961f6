import Windlass.Scan

/-!
# The guard in front of the dashboard

The dashboard has no login. A request has to name the dashboard in its `Host`
header, which stops DNS rebinding, and one that changes state must not come from
another website's page. Without an opening bracket a value is let in as an allowed
name, with a port or without one. Behind a bracketed name the guard reads no
further, so any text may follow there.
-/

namespace Windlass

open Split

def eqIgnoreAsciiCase (s t : List Char) : Bool := s.map Char.toLower == t.map Char.toLower

/-- The host name of a `Host` header value, without its port. -/
def hostName (host : List Char) : List Char :=
  match host with
  | '[' :: bracketed =>
    match splitOnce ']' bracketed with
    | some (name, _) => name
    | none => host
  | _ =>
    match rsplitOnce ':' host with
    | some (name, port) => if ':' ∉ name ∧ port ≠ [] ∧ port.all Char.isDigit then name else host
    | none => host

def hostAllowed (host : Option (List Char)) (allowed : List (List Char)) : Bool :=
  host.any fun host => allowed.any fun allowed => eqIgnoreAsciiCase allowed (hostName host)

/-- Browsers send `Origin` with form submissions; a request without it is not from
another website's page. -/
def sameOrigin (host : List Char) (origin fetchSite : Option (List Char)) : Bool :=
  if fetchSite.any fun site => site ≠ "same-origin".toList ∧ site ≠ "none".toList then false
  else
    origin.all fun origin =>
      ((origin.dropPrefix? "http://".toList).or (origin.dropPrefix? "https://".toList)).any
      fun authority =>
        eqIgnoreAsciiCase authority host

/-! ## Text up to ASCII case -/

theorem eqIgnoreAsciiCase_iff {s t : List Char} :
    eqIgnoreAsciiCase s t = true ↔ s.map Char.toLower = t.map Char.toLower :=
  beq_iff_eq

theorem toLower_plain {c d : Char} (hd : d.isAlpha = false) (h : c.toLower = d) : c = d := by
  have hc : c.isAlpha = false := by rw [← Char.isAlpha_toLower_eq_isAlpha, h, hd]
  have hupper : ¬ c.isUpper := by
    intro hu
    simp [Char.isAlpha, hu] at hc
  rwa [Char.toLower_eq_of_not_isUpper hupper] at h

theorem mem_lower {s : List Char} {d : Char} (hd : d.isAlpha = false) :
    d ∈ s.map Char.toLower ↔ d ∈ s := by
  constructor
  · intro h
    obtain ⟨c, hc, hlow⟩ := List.mem_map.mp h
    rwa [← toLower_plain hd hlow]
  · intro h
    refine List.mem_map.mpr ⟨d, h, Char.toLower_eq_of_not_isUpper ?_⟩
    intro hu
    simp [Char.isAlpha, hu] at hd

theorem lower_plain {s t : List Char} (ht : ∀ c ∈ t, c.isAlpha = false)
    (h : s.map Char.toLower = t.map Char.toLower) :
    s = t := by
  induction t generalizing s with
  | nil => exact List.map_eq_nil_iff.mp h
  | cons d t ih =>
    obtain ⟨c, s, rfl⟩ : ∃ c s', s = c :: s' := by
      cases s with
      | nil => cases h
      | cons c s => exact ⟨c, s, rfl⟩
    obtain ⟨hd, htail⟩ := List.cons.inj h
    have hplain := ht d List.mem_cons_self
    have hlow : d.toLower = d := by
      apply Char.toLower_eq_of_not_isUpper
      intro hu
      simp [Char.isAlpha, hu] at hplain
    rw [toLower_plain hplain (hd.trans hlow), ih (fun c hc => ht c (List.mem_cons_of_mem d hc)) htail]

theorem isAlpha_digit {c : Char} (h : c.isDigit) : c.isAlpha = false := by
  simp only [Char.isDigit, Char.isAlpha, Char.isUpper, Char.isLower, UInt32.le_iff_toNat_le,
    ge_iff_le, Bool.and_eq_true,
    decide_eq_true_eq] at h ⊢
  simp at h ⊢
  omega

/-! ## Names and ports -/

/-- No text, or a port: a colon and one or more digits. -/
def portText : List Char → Bool
  | [] => true
  | c :: digits => c = ':' ∧ digits ≠ [] ∧ digits.all Char.isDigit

/-- Ignoring ASCII case, the value is the name, with brackets around it or without,
and with a port behind it or without. -/
def Named (name host : List Char) : Prop :=
  ∃ port, portText port = true ∧
    (eqIgnoreAsciiCase host (name ++ port) = true ∨
      eqIgnoreAsciiCase host ('[' :: (name ++ ']' :: port)) = true)

theorem portText_plain {port : List Char} (h : portText port = true) :
    ∀ c ∈ port, c.isAlpha = false ∧ c ≠ ']' := by
  cases port with
  | nil => exact fun c hc => absurd hc List.not_mem_nil
  | cons d digits =>
    simp only [portText, decide_eq_true_eq] at h
    obtain ⟨rfl, -, hdigits⟩ := h
    intro c hc
    rcases List.mem_cons.mp hc with rfl | hc
    · decide
    · have hdigit := List.all_eq_true.mp hdigits c hc
      refine ⟨isAlpha_digit hdigit, ?_⟩
      rintro rfl
      exact absurd hdigit (by decide)

theorem named_plain {a name port : List Char} (hp : portText port = true)
    (h : eqIgnoreAsciiCase a name = true) :
    Named a (name ++ port) := by
  refine ⟨port, hp, .inl ?_⟩
  rw [eqIgnoreAsciiCase_iff] at h ⊢
  simp [h]

theorem named_bracketed {a name port : List Char} (hp : portText port = true)
    (h : eqIgnoreAsciiCase a name = true) :
    Named a ('[' :: (name ++ ']' :: port)) := by
  refine ⟨port, hp, .inr ?_⟩
  rw [eqIgnoreAsciiCase_iff] at h ⊢
  simp [h]

/-- Text behind the closing bracket that is no port belongs to the name. -/
theorem bracket_in_name {a name rest : List Char} (hname : ']' ∉ name) (hrest : portText rest = false)
    (h : Named a ('[' :: (name ++ ']' :: rest))) : ']' ∈ a := by
  obtain ⟨port, hport, h⟩ := h
  have hplain := portText_plain hport
  simp only [eqIgnoreAsciiCase_iff] at h
  rcases h with h | h
  · have hmem : ']' ∈ (a ++ port).map Char.toLower := by
      rw [← h]
      exact (mem_lower rfl).mpr (by simp)
    rcases List.mem_append.mp ((mem_lower rfl).mp hmem) with ha | hport
    · exact ha
    · exact absurd rfl (hplain ']' hport).2
  · by_contra ha
    simp only [List.map_cons, List.map_append, List.cons.injEq, true_and] at h
    have hclose : Char.toLower ']' = ']' := rfl
    rw [hclose] at h
    obtain ⟨-, htail⟩ := split_unique h (mt (mem_lower rfl).mp hname) (mt (mem_lower rfl).mp ha)
    have heq := lower_plain (fun c hc => (hplain c hc).1) htail
    rw [heq, hport] at hrest
    cases hrest

/-! ## What is let in -/

/-- The value opens with an allowed name in brackets, and what follows is no port. -/
def Trailing (host : List Char) (allowed : List (List Char)) : Prop :=
  ∃ name rest, host = '[' :: (name ++ ']' :: rest) ∧ ']' ∉ name ∧ portText rest = false ∧
    ∃ a ∈ allowed, eqIgnoreAsciiCase a name = true

theorem hostAllowed_iff {host : List Char} {allowed : List (List Char)} :
    hostAllowed (some host) allowed = true ↔
    ∃ a ∈ allowed, eqIgnoreAsciiCase a (hostName host) = true := by
  simp [hostAllowed]

theorem hostName_bracketed {name rest : List Char} (h : ']' ∉ name) :
    hostName ('[' :: (name ++ ']' :: rest)) = name := by
  simp [hostName, splitOnce_append h]

theorem hostName_unclosed {bracketed : List Char} (h : ']' ∉ bracketed) :
    hostName ('[' :: bracketed) = '[' :: bracketed := by
  simp [hostName, splitOnce_eq_none.mpr h]

/-- Without a bracket a value is its name and, if it ends in one, a port. -/
theorem hostName_plain {host : List Char} (h : ∀ bracketed, host ≠ '[' :: bracketed) :
    ∃ port, portText port = true ∧ host = hostName host ++ port := by
  unfold hostName
  split
  · next bracketed => exact absurd rfl (h bracketed)
  · cases hs : rsplitOnce ':' host with
    | none => exact ⟨[], rfl, (List.append_nil host).symm⟩
    | some p =>
      obtain ⟨hsplit, -⟩ := rsplitOnce_eq_some.mp hs
      dsimp only
      by_cases hp : ':' ∉ p.1 ∧ p.2 ≠ [] ∧ p.2.all Char.isDigit
      · rw [if_pos hp]
        exact ⟨':' :: p.2, by simpa [portText] using hp.2, hsplit⟩
      · rw [if_neg hp]
        exact ⟨[], rfl, (List.append_nil host).symm⟩

/-- How a value is cut: behind a bracketed name, in front of a port, or not at all. -/
theorem hostName_cases (host : List Char) :
    (∃ name rest, host = '[' :: (name ++ ']' :: rest) ∧ ']' ∉ name ∧ hostName host = name) ∨
    ∃ port, portText port = true ∧ host = hostName host ++ port := by
  by_cases hbracket : ∃ bracketed, host = '[' :: bracketed
  · obtain ⟨bracketed, rfl⟩ := hbracket
    by_cases hclosed : ']' ∈ bracketed
    · left
      obtain ⟨p, hp⟩ := Option.ne_none_iff_exists'.mp (mt splitOnce_eq_none.mp (not_not.mpr hclosed))
      obtain ⟨rfl, hname⟩ := splitOnce_eq_some.mp hp
      exact ⟨p.1, p.2, rfl, hname, hostName_bracketed hname⟩
    · right
      exact ⟨[], rfl, by rw [hostName_unclosed hclosed, List.append_nil]⟩
  · right
    exact hostName_plain (not_exists.mp hbracket)

/-- What is let in is named by an allowed name, or has an allowed name in brackets
and text behind it. -/
theorem named_or_trailing {host : List Char} {allowed : List (List Char)}
    (h : hostAllowed (some host) allowed = true) :
    (∃ a ∈ allowed, Named a host) ∨ Trailing host allowed := by
  obtain ⟨a, ha, heq⟩ := hostAllowed_iff.mp h
  obtain ⟨name, rest, rfl, hname, hhost⟩ | ⟨port, hport, hhost⟩ := hostName_cases host
  · rw [hhost] at heq
    cases hrest : portText rest with
    | true => exact .inl ⟨a, ha, named_bracketed hrest heq⟩
    | false => exact .inr ⟨name, rest, rfl, hname, hrest, a, ha, heq⟩
  · left
    refine ⟨a, ha, ?_⟩
    rw [hhost]
    exact named_plain hport heq

theorem trailing_allowed {host : List Char} {allowed : List (List Char)} (h : Trailing host allowed) :
    hostAllowed (some host) allowed = true := by
  obtain ⟨name, rest, rfl, hname, -, a, ha, heq⟩ := h
  exact hostAllowed_iff.mpr ⟨a, ha, by rwa [hostName_bracketed hname]⟩

/-- A value that is let in is an allowed name, with brackets or a port around it at
most, exactly if it has no other text behind an allowed name in brackets, unless
that text belongs to an allowed name with a closing bracket of its own. -/
theorem host_named_iff (host : List Char) (allowed : List (List Char)) :
    (hostAllowed (some host) allowed = true → ∃ a ∈ allowed, Named a host) ↔
      (Trailing host allowed → ∃ a ∈ allowed, ']' ∈ a ∧ Named a host) := by
  constructor
  · intro hnamed htrailing
    obtain ⟨a, ha, h⟩ := hnamed (trailing_allowed htrailing)
    obtain ⟨name, rest, rfl, hname, hrest, -⟩ := htrailing
    exact ⟨a, ha, bracket_in_name hname hrest h, h⟩
  · intro hnone hallowed
    rcases named_or_trailing hallowed with hnamed | htrailing
    · exact hnamed
    · obtain ⟨a, ha, -, h⟩ := hnone htrailing
      exact ⟨a, ha, h⟩

/-- Another site's name behind the address in brackets. -/
theorem other_host_allowed : hostAllowed (some "[::1].attacker.example".toList) ["::1".toList] = true ∧
    ¬ ∃ a ∈ ["::1".toList], Named a "[::1].attacker.example".toList := by
  refine ⟨by decide, ?_⟩
  rintro ⟨a, ha, h⟩
  rw [List.mem_singleton.mp ha] at h
  have hbracket : ']' ∈ "::1".toList :=
    @bracket_in_name _ "::1".toList ".attacker.example".toList (by decide) (by decide) h
  exact absurd hbracket (by decide)

/-! ## Other websites' pages -/

theorem dropPrefix_eq {s p rest : List Char} (h : s.dropPrefix? p = some rest) : s = p ++ rest := by
  obtain ⟨p', rfl, heq⟩ := List.dropPrefix?_eq_some_iff.mp h
  rw [beq_iff_eq.mp heq]

/-- A page that may submit a form was served by this host, over either scheme. -/
theorem sameOrigin_served {host origin : List Char} {fetchSite : Option (List Char)}
    (h : sameOrigin host (some origin) fetchSite = true) :
    ∃ authority, (origin = "http://".toList ++ authority ∨ origin = "https://".toList ++ authority) ∧
      eqIgnoreAsciiCase authority host = true := by
  unfold sameOrigin at h
  split at h
  · cases h
  · rw [Option.all_some, Option.any_eq_true] at h
    obtain ⟨authority, hdrop, heq⟩ := h
    refine ⟨authority, ?_, heq⟩
    rcases Option.or_eq_some_iff.mp hdrop with hdrop | ⟨-, hdrop⟩
    · exact .inl (dropPrefix_eq hdrop)
    · exact .inr (dropPrefix_eq hdrop)

end Windlass
