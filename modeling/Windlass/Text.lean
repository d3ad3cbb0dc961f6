import Windlass.Values

/-!
# Values from text and from numbers

What the user submits and what storage holds is checked before it becomes a value
of the core: a secret or a name by its characters, a number by its range.
-/

namespace Windlass

/-! ## Text -/

/-- Unicode's `White_Space`. -/
def isWhiteSpace (c : Char) : Bool :=
  let n := c.toNat
  (9 ≤ n && n ≤ 13) || n == 32 || n == 0x85 || n == 0xA0 || n == 0x1680 || (0x2000 ≤ n && n ≤ 0x200A) ||
    n == 0x2028 || n == 0x2029 || n == 0x202F || n == 0x205F || n == 0x3000

def trimStart (s : List Char) : List Char := s.dropWhile isWhiteSpace

def trim (s : List Char) : List Char := (trimStart (trimStart s).reverse).reverse

inductive InvalidApiCookie
  | empty | invalidCharacter
deriving DecidableEq

/-- Validate a submitted cookie value, ignoring surrounding whitespace. -/
def ApiCookie.parse (value : String) : Except InvalidApiCookie ApiCookie :=
  let value : String := .ofList (trim value.toList)
  if hn : value.toList = [] then .error .empty
  else if hc : value.toList.all isCookieCharacter then .ok ⟨value, hn, hc⟩
  else .error .invalidCharacter

inductive InvalidNtfyTopic
  | empty | invalid
deriving DecidableEq

/-- Validate a topic name, ignoring surrounding whitespace. -/
def NtfyTopic.parse (value : String) : Except InvalidNtfyTopic NtfyTopic :=
  let value : String := .ofList (trim value.toList)
  if hn : value.toList = [] then .error .empty
  else if hv : 64 < value.utf8ByteSize || !value.toList.all isNameCharacter then .error .invalid
  else .ok ⟨value, hn, by simpa using hv⟩

def VpnServer.tryNew (name : String) : Option VpnServer :=
  if h : 1 ≤ name.utf8ByteSize ∧ name.utf8ByteSize ≤ 64 ∧
    name.toList.all isNameCharacter then some ⟨name, h⟩ else none

/-! ## Numbers -/

def u32TryFrom (n : Int) : Option Nat := if 0 ≤ n ∧ n ≤ u32Max then some n.toNat else none

def HistoryLimit.tryNew (entries : Nat) : Option HistoryLimit :=
  if h : 100 ≤ entries ∧ entries ≤ 1000000 then some ⟨entries, h⟩ else none

def PointsReserve.tryNew (points : Nat) : Option PointsReserve :=
  if h : points ≤ 100000000 then some ⟨points, h⟩ else none

def DownloadingLimit.tryNew (torrents : Nat) : Option DownloadingLimit :=
  if h : 1 ≤ torrents ∧ torrents ≤ 100 then some ⟨torrents, h⟩ else none

def ActiveLimit.tryNew (torrents : Nat) : Option ActiveLimit :=
  if h : 1 ≤ torrents ∧ torrents ≤ 1000 then some ⟨torrents, h⟩ else none

/-- Limits with at least as many active torrents as downloading ones. -/
def TorrentLimits.new (downloading : DownloadingLimit) (active : ActiveLimit) : Option TorrentLimits :=
  if h : downloading.torrents ≤ active.torrents then some ⟨downloading, active, h⟩ else none

@[simp] theorem historyLimit_tryNew (l : HistoryLimit) : HistoryLimit.tryNew l.entries = some l :=
  dif_pos l.valid

@[simp] theorem pointsReserve_tryNew (r : PointsReserve) : PointsReserve.tryNew r.points = some r :=
  dif_pos r.valid

@[simp] theorem downloadingLimit_tryNew (l : DownloadingLimit) :
    DownloadingLimit.tryNew l.torrents = some l :=
  dif_pos l.valid

@[simp] theorem activeLimit_tryNew (l : ActiveLimit) : ActiveLimit.tryNew l.torrents = some l :=
  dif_pos l.valid

@[simp] theorem torrentLimits_new (l : TorrentLimits) :
    TorrentLimits.new l.downloading l.active = some l := dif_pos l.valid

theorem u32TryFrom_natCast {n : Nat} (h : n ≤ u32Max) : u32TryFrom n = some n := by
  unfold u32TryFrom
  rw [if_pos ⟨by omega, by omega⟩, Int.toNat_natCast]

/-! ## What was checked stays valid -/

theorem trimStart_eq {s : List Char} (h : s.all fun c => !isWhiteSpace c) : trimStart s = s := by
  cases s with
  | nil => rfl
  | cons c s =>
    rw [List.all_cons, Bool.and_eq_true] at h
    unfold trimStart
    rw [List.dropWhile_cons, if_neg (by simpa using h.1)]

theorem trim_eq {s : List Char} (h : s.all fun c => !isWhiteSpace c) : trim s = s := by
  unfold trim
  rw [trimStart_eq h, trimStart_eq (by simpa using h), List.reverse_reverse]

theorem isAsciiGraphic_space {c : Char} (h : isAsciiGraphic c) : isWhiteSpace c = false := by
  unfold isAsciiGraphic at h
  unfold isWhiteSpace
  simp only [Bool.and_eq_true, decide_eq_true_eq] at h
  simp
  omega

theorem isNameCharacter_space {c : Char} (h : isNameCharacter c) : isWhiteSpace c = false := by
  apply isAsciiGraphic_space
  unfold isNameCharacter Char.isAlphanum Char.isAlpha Char.isUpper Char.isLower Char.isDigit at h
  unfold isAsciiGraphic Char.toNat
  simp only [Bool.or_eq_true, Bool.and_eq_true, decide_eq_true_eq, beq_iff_eq] at h ⊢
  rcases h with (((⟨h, h'⟩ | ⟨h, h'⟩) | ⟨h, h'⟩) | rfl) | rfl
  · exact ⟨le_trans (by decide) (UInt32.le_iff_toNat_le.mp h),
      le_trans (UInt32.le_iff_toNat_le.mp h') (by decide)⟩
  · exact ⟨le_trans (by decide) (UInt32.le_iff_toNat_le.mp h),
      le_trans (UInt32.le_iff_toNat_le.mp h') (by decide)⟩
  · exact ⟨le_trans (by decide) (UInt32.le_iff_toNat_le.mp h),
      le_trans (UInt32.le_iff_toNat_le.mp h') (by decide)⟩
  · decide
  · decide

theorem cookie_unspaced (cookie : ApiCookie) : cookie.value.toList.all fun c => !isWhiteSpace c := by
  obtain ⟨-, hall⟩ := cookie.valid
  rw [List.all_eq_true] at hall ⊢
  intro c hc
  have hg := hall c hc
  unfold isCookieCharacter at hg
  simp only [Bool.and_eq_true] at hg
  rw [isAsciiGraphic_space hg.1.1.1.1]
  rfl

theorem topic_unspaced (topic : NtfyTopic) : topic.value.toList.all fun c => !isWhiteSpace c := by
  obtain ⟨-, -, hall⟩ := topic.valid
  rw [List.all_eq_true] at hall ⊢
  intro c hc
  rw [isNameCharacter_space (hall c hc)]
  rfl

@[simp] theorem apiCookie_parse (cookie : ApiCookie) : ApiCookie.parse cookie.value = .ok cookie := by
  obtain ⟨hne, hall⟩ := cookie.valid
  unfold ApiCookie.parse
  simp only [trim_eq (cookie_unspaced cookie), String.ofList_toList]
  rw [dif_neg hne, dif_pos hall]

@[simp] theorem ntfyTopic_parse (topic : NtfyTopic) : NtfyTopic.parse topic.value = .ok topic := by
  obtain ⟨hne, hlen, hall⟩ := topic.valid
  unfold NtfyTopic.parse
  simp only [trim_eq (topic_unspaced topic), String.ofList_toList]
  rw [dif_neg hne, dif_neg (by simp [hlen, hall])]

@[simp] theorem vpnServer_tryNew (server : VpnServer) :
    VpnServer.tryNew server.name = some server := dif_pos server.valid

end Windlass
