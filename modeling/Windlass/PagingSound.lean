import Windlass.Mam.Acquisition

/-!
# Paging through bookmarks

MAM answers each page wanted from one list. The pages cover the list in order,
up to its end or to the most that Windlass lists, and a listing given up starts
again from the first page.
-/

namespace Windlass

def pageFrom (list : List Bookmark) (size : Nat) (start : BookmarkCount) : BookmarkPage where
  found := list.length
  bookmarks := (list.drop start).take size

def Bookmarks.answer (b : Bookmarks) (list : List Bookmark) (size : Nat) (at' : ClockReading) :
    Bookmarks :=
  match b.wanted at'.monotonic with
  | some start => (b.page at'.monotonic at'.wall (pageFrom list size start)).1
  | none => b

def Bookmarks.answers (b : Bookmarks) (list : List Bookmark) (size : Nat)
    (times : List ClockReading) : Bookmarks :=
  times.foldl (fun b at' => b.answer list size at') b

def leastListed (list : List Bookmark) : Nat := min list.length (maxBookmarkPages * pageSize)

def pagesOf (list : List Bookmark) (size : Nat) : Nat := max 1 (leastListed list ⌈/⌉ size)

/-- The listing that ends with a page answered at this time. -/
def listingDone (list : List Bookmark) (size : Nat) (at' : ClockReading) : Bookmarks where
  latest := some
    { at' := at'.wall, taken := at'.monotonic, found := list.length,
      bookmarks := list.take (size * pagesOf list size) }
  next := at'.monotonic.checkedAdd bookmarksEvery
  failures := FailureCount.none
  lastFailure := none
  listing := none

section
variable {list : List Bookmark} {size : Nat} {b : Bookmarks} {at' : ClockReading}

theorem covered_short (hs : 0 < size) {n : Nat} (h0 : 0 < n) (h : n < pagesOf list size) :
    size * n < leastListed list := by
  obtain h | h := lt_max_iff.mp h
  · omega
  · exact not_le.mp fun hle => absurd ((ceilDiv_le_iff_le_mul hs).mpr hle) (not_le.mpr h)

theorem covered_all (hs : 0 < size) : leastListed list ≤ size * pagesOf list size :=
  (ceilDiv_le_iff_le_mul hs).mp (le_max_right _ _)

theorem page_appended (n : Nat) :
    list.take (size * n) ++ (pageFrom list size (size * n)).bookmarks = list.take (size * (n + 1)) := by
  rw [Nat.mul_succ, List.take_add]
  rfl

theorem answer_more {n : Nat} (hlist : b.listing.getD [] = list.take (size * n))
    (hw : b.wanted at'.monotonic = some (size * n))
    (hs : 0 < size) (h : size * (n + 1) < leastListed list) :
    b.answer list size at' = { b with listing := some (list.take (size * (n + 1))) } := by
  obtain ⟨hshort, hcap⟩ := lt_min_iff.mp h
  have hlen : (list.take (size * (n + 1))).length = size * (n + 1) := List.length_take_of_le hshort.le
  have hpage : (pageFrom list size (size * n)).bookmarks.length = size := by
    have happ := congrArg List.length (@page_appended list size n)
    rw [List.length_append, hlen, List.length_take_of_le (by rw [Nat.mul_succ] at hshort; omega),
      Nat.mul_succ] at happ
    omega
  have hsome : (pageFrom list size (size * n)).bookmarks.isEmpty = false :=
    List.isEmpty_eq_false_iff.mpr (List.ne_nil_of_length_pos (by rwa [hpage]))
  have hreached : (pageFrom list size (size * n)).found.isReachedBy (size * (n + 1)) = false :=
    decide_eq_false (not_le.mpr hshort)
  unfold Bookmarks.answer Bookmarks.page
  rw [hw]
  dsimp only
  rw [hlist, page_appended, hlen, hsome, hreached, decide_eq_false (not_le.mpr hcap), if_neg (by decide)]

theorem answer_last {n : Nat} (hlist : b.listing.getD [] = list.take (size * n))
    (hw : b.wanted at'.monotonic = some (size * n))
    (hn : n + 1 = pagesOf list size) (hs : 0 < size) :
    b.answer list size at' = listingDone list size at' := by
  have hall : leastListed list ≤ size * (n + 1) := hn ▸ covered_all hs
  have hdone : (pageFrom list size (size * n)).found.isReachedBy
    (list.take (size * (n + 1))).length = true ∨
      maxBookmarkPages * pageSize ≤ (list.take (size * (n + 1))).length := by
    obtain h | h := le_or_gt list.length (size * (n + 1))
    · rw [List.take_of_length_le h]
      exact .inl (decide_eq_true le_rfl)
    · rw [List.length_take_of_le h.le]
      exact .inr ((min_le_iff.mp hall).resolve_left (not_le.mpr h))
  unfold Bookmarks.answer Bookmarks.page
  rw [hw]
  dsimp only
  rw [hlist, page_appended, if_pos (by
    rw [Bool.or_eq_true, Bool.or_eq_true, decide_eq_true_iff]
    exact hdone.elim (fun h => .inl (.inr h)) .inr), hn]
  rfl

theorem read_answers_snoc (times : List ClockReading) :
    b.answers list size (times ++ [at']) = (b.answers list size times).answer list size at' :=
  List.foldl_concat ..

theorem wanted_listing {n : Nat} (hu : list.length ≤ u32Max) (h : size * n < leastListed list)
    (hb : b.listing = some (list.take (size * n))) (now : Instant) : b.wanted now = some (size * n) := by
  have hshort : size * n < list.length := (lt_min_iff.mp h).1
  unfold Bookmarks.wanted
  rw [hb]
  dsimp only
  unfold BookmarkCount.of
  rw [List.length_take_of_le hshort.le, if_pos (hshort.le.trans hu)]

end

section
variable {list : List Bookmark} {size : Nat} {b : Bookmarks} {first : ClockReading}

/-- Until its last page, a listing holds the pages answered so far, and wants the next. -/
theorem answers_more (hu : list.length ≤ u32Max) (hs : 0 < size) (hb : b.listing = none)
    (hdue : b.wanted first.monotonic = some 0) {times : List ClockReading}
    (h : times.length + 1 < pagesOf list size) :
    b.answers list size (first :: times) =
    { b with listing := some (list.take (size * (times.length + 1))) } := by
  -- each page but the last asks for the one after it
  induction times using List.reverseRecOn with
  | nil =>
    have hlist : b.listing.getD [] = list.take (size * 0) := by
      rw [hb]
      rfl
    exact answer_more (n := 0) hlist hdue hs (covered_short hs Nat.one_pos h)
  | append_singleton times at' ih =>
    rw [List.length_append, List.length_singleton] at h ⊢
    have hbefore := ih (Nat.lt_of_succ_lt h)
    have hw := wanted_listing hu (covered_short hs (Nat.succ_pos _) (Nat.lt_of_succ_lt h))
      (congrArg Bookmarks.listing hbefore) at'.monotonic
    rw [← List.cons_append, read_answers_snoc, answer_more (congrArg (·.listing.getD []) hbefore) hw hs
      (covered_short hs (Nat.succ_pos _) h), hbefore]

/-- Before each page of a listing, the pages before it are held and it is wanted. -/
theorem answers_before (hu : list.length ≤ u32Max) (hs : 0 < size) (hb : b.listing = none)
    (hdue : b.wanted first.monotonic = some 0) {rest pre post : List ClockReading} {at' : ClockReading}
    (hlen : (first :: rest).length = pagesOf list size) (h : first :: rest = pre ++ at' :: post) :
    (b.answers list size pre).wanted at'.monotonic = some (size * pre.length) ∧
      (b.answers list size pre).listing.getD [] = list.take (size * pre.length) := by
  cases pre with
  | nil =>
    obtain ⟨rfl, -⟩ := List.cons.inj h
    exact ⟨hdue, congrArg (·.getD []) hb⟩
  | cons first' pre =>
    obtain ⟨rfl, hrest⟩ := List.cons.inj h
    have hmore : pre.length + 1 < pagesOf list size := by
      have hl := congrArg List.length hrest
      rw [List.append_eq, List.length_append, List.length_cons] at hl
      rw [← hlen, List.length_cons]
      omega
    have hbefore := answers_more hu hs hb hdue hmore
    refine ⟨?_, congrArg (·.listing.getD []) hbefore⟩
    exact wanted_listing hu (covered_short hs (Nat.succ_pos _) hmore)
      (congrArg Bookmarks.listing hbefore) at'.monotonic

theorem answers_all (hu : list.length ≤ u32Max) (hs : 0 < size) (hb : b.listing = none)
    (hdue : b.wanted first.monotonic = some 0) {rest : List ClockReading}
    (hlen : (first :: rest).length = pagesOf list size) :
    b.answers list size (first :: rest) =
    listingDone list size ((first :: rest).getLast (List.cons_ne_nil _ _)) := by
  have hsplit := (List.dropLast_append_getLast (List.cons_ne_nil first rest)).symm
  obtain ⟨hw, hlisting⟩ := answers_before hu hs hb hdue hlen hsplit
  have hcount : (first :: rest).dropLast.length + 1 = pagesOf list size := by
    rw [← hlen, List.length_dropLast]
    simp
  conv_lhs => rw [hsplit]
  rw [read_answers_snoc, answer_last hlisting hw hcount hs]

theorem done_wants (at' : ClockReading) (now : Instant) : (listingDone list size at').wanted now = none ↔
    ∃ next, at'.monotonic.checkedAdd bookmarksEvery = some next ∧ now < next := by
  unfold Bookmarks.wanted listingDone
  cases at'.monotonic.checkedAdd bookmarksEvery with
  | none => simp
  | some next => simp

/-- A listing that starts when it is due ends with as many pages as cover the list,
or the most that is listed of it, and holds just what they cover, in order. No page
is then wanted until the next listing is due. A listing given up at any page starts
again, and ends the same. -/
theorem bookmarks_paged (hu : list.length ≤ u32Max) (hs : 0 < size) (hb : b.listing = none)
    (hdue : b.wanted first.monotonic = some 0) {rest : List ClockReading}
    (hlen : (first :: rest).length = pagesOf list size) :
    (∀ pre at' post, first :: rest = pre ++ at' :: post →
      (b.answers list size pre).wanted at'.monotonic = some (size * pre.length)) ∧
    b.answers list size (first :: rest) =
    listingDone list size ((first :: rest).getLast (List.cons_ne_nil _ _)) ∧
    leastListed list ≤ (list.take (size * pagesOf list size)).length ∧
    (∀ now, (b.answers list size (first :: rest)).wanted now = none ↔ ∃ next,
      ((first :: rest).getLast (List.cons_ne_nil _ _)).monotonic.checkedAdd bookmarksEvery =
      some next ∧ now < next) ∧
    ∀ pre at' post failure, first :: rest = pre ++ at' :: post →
      ((b.answers list size pre).failed at'.monotonic failure).listing = none ∧
      ∀ first' rest', ((b.answers list size pre).failed at'.monotonic failure).wanted
      first'.monotonic = some 0 →
        (first' :: rest').length = pagesOf list size →
        ((b.answers list size pre).failed at'.monotonic failure).answers list size (first' :: rest') =
          listingDone list size ((first' :: rest').getLast (List.cons_ne_nil _ _)) := by
  have hall := answers_all hu hs hb hdue hlen
  refine ⟨fun pre at' post h => (answers_before hu hs hb hdue hlen h).1, hall, ?_, fun now => ?_, ?_⟩
  · rw [List.length_take]
    exact le_min (covered_all hs) (min_le_left _ _)
  · rw [hall]
    exact done_wants _ now
  · exact fun pre at' post failure h => ⟨rfl,
      fun first' rest' hdue' hlen' => answers_all hu hs rfl hdue' hlen'⟩

end

def bookmarked (id : MamTorrentId) : Bookmark :=
  { id := id
    title := "listed"
    vip := .no
    freeleech := .no
    personal := .no
    snatched := .never
    bookmarkedAt := none }

theorem two_pages_listed : (Bookmarks.new.answers [bookmarked 5, bookmarked 6, bookmarked 7] 2
    [{ monotonic := 0, wall := 0 }, { monotonic := 1, wall := 1 }]).latest =
      some { at' := 1, taken := 1, found := 3,
             bookmarks := [bookmarked 5, bookmarked 6, bookmarked 7] } := by
  have hpaged :=
    @bookmarks_paged [bookmarked 5, bookmarked 6, bookmarked 7] 2 Bookmarks.new
      { monotonic := 0, wall := 0 }
    (by decide) (by decide) rfl (by decide) [{ monotonic := 1, wall := 1 }] (by decide)
  rw [hpaged.2.1]
  rfl

end Windlass
