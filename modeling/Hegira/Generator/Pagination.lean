/-
# The pager of a generated page

`tools/resource_generator/src/web_pagination.rs`, which a generated page holds
verbatim, and the loop of its `load` callback (`write_load_callback` of `web.rs`).

A pager issues a request for a page and takes the answer to it, unless a later
request has been issued meanwhile.  An answer that puts the page past the end is
followed by a request for the last page instead (`ResourcePagination.complete`).

Numbers are `u64`s; a sum or product that leaves them is `none`.  Every request
carries the number of its `begin`, so that of the requests issued only the latest is
current (`Issued.latest`), and the page of a pager with a total is one of its pages
(`Issued.shown`); the rest is arithmetic.
-/

import Mathlib.Data.List.Chain

namespace Hegira
namespace Generator

/-! ### The state -/

/-- `i64::MAX`. -/
def ResourcePagination.i64Max : Nat := 9223372036854775807

/-- The number as a `u64`. -/
def checked (n : Nat) : Option Nat := if n < UInt64.size then some n else none

structure ResourcePageRequest where
  page : Nat
  generation : Nat
  deriving DecidableEq

namespace ResourcePageRequest

/-- `LIMIT`. -/
def limit : Nat := 50

def offset (self : ResourcePageRequest) : Option Nat := checked (self.page * limit)

end ResourcePageRequest

open ResourcePageRequest (limit)

structure ResourcePagination where
  page : Nat
  total : Option Nat
  loading : Bool
  generation : Nat
  deriving DecidableEq

namespace ResourcePagination

/-- `default`. -/
def initial : ResourcePagination := ⟨0, none, false, 0⟩

/-- The request, and the pager that waits for its answer. -/
def begin (self : ResourcePagination) (page : Nat) : ResourcePageRequest × ResourcePagination :=
  let page := min page (ResourcePagination.i64Max / limit)
  let generation := (self.generation + 1) % UInt64.size
  (⟨page, generation⟩, ⟨page, none, true, generation⟩)

def isCurrent (self : ResourcePagination) (request : ResourcePageRequest) : Bool :=
  self.loading && self.generation == request.generation && self.page == request.page

def complete (self : ResourcePagination) (request : ResourcePageRequest) (total : Nat) :
    Option ResourcePageRequest × ResourcePagination :=
  if !self.isCurrent request then (none, self)
  else
    let last := (total - 1) / limit
    if self.page > last then
      let (corrected, self) := self.begin last
      (some corrected, self)
    else (none, { self with total := some total, loading := false })

def fail (self : ResourcePagination) (request : ResourcePageRequest) : ResourcePagination :=
  if self.isCurrent request then { self with total := none, loading := false } else self

def ready (self : ResourcePagination) : Bool := !self.loading && self.total.isSome

/-- `checked_sub` of the page. -/
def previous (self : ResourcePagination) : Option Nat :=
  if self.ready && 1 ≤ self.page then some (self.page - 1) else none

def pages (self : ResourcePagination) : Option Nat :=
  match self.total.filter (0 < ·) with
  | some total => checked ((total - 1) / limit + 1)
  | none => some 0

/-- `next`; the argument of `then_some` is computed in any case. -/
def next (self : ResourcePagination) : Option (Option Nat) := do
  let following ← checked (self.page + 1)
  if self.ready then
    let pages ← self.pages
    return if following < pages then some following else none
  else
    return none

def range (self : ResourcePagination) (visible : Nat) : Option (Nat × Nat) :=
  match self.total with
  | some total =>
      if self.ready && 0 < total && 0 < visible then do
        let offset ← checked (self.page * limit)
        let first ← checked (offset + 1)
        return (first, min (min (offset + visible) (UInt64.size - 1)) total)
      else some (0, 0)
  | none => some (0, 0)

end ResourcePagination

/-! ### Runs -/

/-- A pager and the requests it has issued, the latest first. -/
inductive Issued : List ResourcePageRequest → ResourcePagination → Prop
  | initial : Issued [] .initial
  | begin {issued : List ResourcePageRequest} {s : ResourcePagination} (h : Issued issued s)
      (page : Nat) : Issued ((s.begin page).1 :: issued) (s.begin page).2
  | complete {issued : List ResourcePageRequest} {s : ResourcePagination} (h : Issued issued s)
      {request : ResourcePageRequest} (hrequest : request ∈ issued) {total : Nat}
      (htotal : total ≤ ResourcePagination.i64Max) :
      Issued ((s.complete request total).1.toList ++ issued) (s.complete request total).2
  | fail {issued : List ResourcePageRequest} {s : ResourcePagination} (h : Issued issued s)
      {request : ResourcePageRequest} (hrequest : request ∈ issued) :
      Issued issued (s.fail request)

/-- The answer to the one request is answered with the other. -/
def Corrects (request corrected : ResourcePageRequest) : Prop :=
  ∃ (s : ResourcePagination) (total : Nat), (s.complete request total).1 = some corrected

section Steps

variable {s : ResourcePagination} {issued : List ResourcePageRequest}
  {request corrected : ResourcePageRequest} {total : Nat}

open ResourcePagination

/-- An answer is current when it is for the request that is loading. -/
theorem isCurrent_iff : s.isCurrent request = true ↔
    s.loading = true ∧ s.generation = request.generation ∧ s.page = request.page := by
  simp [isCurrent, and_assoc]

/-- Another answer changes nothing. -/
theorem complete_of_not_current (h : s.isCurrent request = false) :
    s.complete request total = (none, s) := by
  simp [complete, h]

theorem fail_of_not_current (h : s.isCurrent request = false) : s.fail request = s := by
  simp [fail, h]

/-- What `complete` does. -/
theorem complete_cases (s : ResourcePagination) (request : ResourcePageRequest) (total : Nat) :
    s.complete request total = (none, s) ∨
      s.isCurrent request = true ∧
        ((total - 1) / limit < s.page ∧
            s.complete request total =
              (some (s.begin ((total - 1) / limit)).1, (s.begin ((total - 1) / limit)).2) ∨
          s.page ≤ (total - 1) / limit ∧
            s.complete request total = (none, { s with total := some total, loading := false })) := by
  cases hcurrent : s.isCurrent request with
  | false => exact .inl (complete_of_not_current hcurrent)
  | true =>
      refine .inr ⟨rfl, ?_⟩
      by_cases hlast : (total - 1) / limit < s.page
      · exact .inl ⟨hlast, by simp [complete, hcurrent, hlast]⟩
      · exact .inr ⟨Nat.not_lt.1 hlast, by simp [complete, hcurrent, hlast]⟩

/-- What `fail` does. -/
theorem fail_cases (s : ResourcePagination) (request : ResourcePageRequest) :
    s.fail request = s ∨ s.fail request = { s with total := none, loading := false } := by
  rw [fail]
  split
  · exact .inr rfl
  · exact .inl rfl

/-- **A corrected request is for an earlier page.** -/
theorem Corrects.page_lt (h : Corrects request corrected) : corrected.page < request.page := by
  obtain ⟨s, total, h⟩ := h
  rcases complete_cases s request total with
    heq | ⟨hcurrent, ⟨hlast, heq⟩ | ⟨-, heq⟩⟩
  · rw [heq] at h
    cases h
  · rw [heq] at h
    obtain rfl := Option.some.inj h
    rw [← (isCurrent_iff.1 hcurrent).2.2]
    exact lt_of_le_of_lt (Nat.min_le_left _ _) hlast
  · rw [heq] at h
    cases h

/-- A decreasing list is no longer than its first number. -/
theorem length_le_of_decreasing {first : Nat} {rest : List Nat}
    (h : (first :: rest).Pairwise (· > ·)) : rest.length ≤ first := by
  induction rest generalizing first with
  | nil => exact Nat.zero_le _
  | cons second rest ih =>
      obtain ⟨hfirst, hrest⟩ := List.pairwise_cons.1 h
      have hlt : second < first := hfirst second List.mem_cons_self
      have hle : rest.length ≤ second := ih hrest
      show rest.length + 1 ≤ first
      omega

/-! ### The invariant -/

/-- Requests are numbered in turn, for pages whose offsets fit. -/
structure Numbered (issued : List ResourcePageRequest) (s : ResourcePagination) : Prop where
  generation : s.generation = issued.length
  page : s.page ≤ ResourcePagination.i64Max / limit
  pages : ∀ request ∈ issued, request.page ≤ ResourcePagination.i64Max / limit
  numbers : ∀ request ∈ issued, request.generation ≤ issued.length
  order : issued.Pairwise fun later earlier => earlier.generation < later.generation

/-- A new request takes the next number. -/
theorem Numbered.begin (h : Numbered issued s) (hfew : issued.length + 1 < UInt64.size) (page : Nat) :
    Numbered ((s.begin page).1 :: issued) (s.begin page).2 := by
  have hgeneration : (s.generation + 1) % UInt64.size = issued.length + 1 := by
    rw [h.generation]
    exact Nat.mod_eq_of_lt hfew
  have hpage : (s.begin page).1.page ≤ ResourcePagination.i64Max / limit := Nat.min_le_right _ _
  refine ⟨hgeneration, hpage, ?_, ?_, ?_⟩
  · exact List.forall_mem_cons.2 ⟨hpage, h.pages⟩
  · refine List.forall_mem_cons.2 ⟨Nat.le_of_eq hgeneration, fun request hr => ?_⟩
    exact Nat.le_succ_of_le (h.numbers request hr)
  · refine List.pairwise_cons.2 ⟨fun request hr => ?_, h.order⟩
    have hle := h.numbers request hr
    show request.generation < (s.generation + 1) % UInt64.size
    omega

/-- Only the number and the page matter. -/
theorem Numbered.congr {s' : ResourcePagination} (h : Numbered issued s)
    (hgeneration : s'.generation = s.generation) (hpage : s'.page = s.page) : Numbered issued s' :=
  ⟨hgeneration.trans h.generation, hpage ▸ h.page, h.pages, h.numbers, h.order⟩

/-- The total of a pager is one its page belongs to. -/
def Shows (s : ResourcePagination) : Prop :=
  ∀ total, s.total = some total → total ≤ ResourcePagination.i64Max ∧ s.page ≤ (total - 1) / limit

/-- **Every pager of a run is numbered and shows a page of its total.** -/
theorem Issued.sound (h : Issued issued s) (hfew : issued.length < UInt64.size) :
    Numbered issued s ∧ Shows s := by
  induction h with
  | initial => exact ⟨⟨rfl, Nat.zero_le _, nofun, nofun, .nil⟩, nofun⟩
  | begin h page ih =>
      obtain ⟨hnumbered, -⟩ := ih (by rw [List.length_cons] at hfew; omega)
      exact ⟨hnumbered.begin hfew page, nofun⟩
  | @complete issued s h request hrequest total htotal ih =>
      have hlength : issued.length < UInt64.size := by
        rw [List.length_append] at hfew
        omega
      obtain ⟨hnumbered, hshows⟩ := ih hlength
      rcases complete_cases s request total with
        heq | ⟨-, ⟨-, heq⟩ | ⟨hlast, heq⟩⟩
      · rw [heq]
        exact ⟨hnumbered, hshows⟩
      · rw [heq] at hfew ⊢
        exact ⟨hnumbered.begin hfew _, nofun⟩
      · rw [heq]
        refine ⟨hnumbered.congr rfl rfl, fun shown hshown => ?_⟩
        obtain rfl : total = shown := Option.some.inj hshown
        exact ⟨htotal, hlast⟩
  | @fail issued s h request hrequest ih =>
      obtain ⟨hnumbered, hshows⟩ := ih hfew
      rcases fail_cases s request with heq | heq
      · rw [heq]
        exact ⟨hnumbered, hshows⟩
      · rw [heq]
        exact ⟨hnumbered.congr rfl rfl, nofun⟩

/-- **Only the latest request is current.** -/
theorem Numbered.latest (h : Numbered issued s) (hrequest : request ∈ issued)
    (hcurrent : s.isCurrent request = true) : issued.head? = some request := by
  have hgeneration := (isCurrent_iff.1 hcurrent).2.1
  cases issued with
  | nil => cases hrequest
  | cons latest issued =>
      rcases List.mem_cons.1 hrequest with rfl | hearlier
      · rfl
      · have hlt := (List.pairwise_cons.1 h.order).1 request hearlier
        have hle := h.numbers latest List.mem_cons_self
        have heq := h.generation
        omega

end Steps

/-! ### What is shown -/

/-- A pager whose page is one of `pages`, and what it says of it. -/
structure Displays (s : ResourcePagination) (pages : Nat) : Prop where
  page : s.page = 0 ∨ s.page < pages
  previous : ∀ q, s.previous = some q ↔ q + 1 = s.page ∧ q < pages
  next : ∃ next, s.next = some next ∧ ∀ q, next = some q ↔ q = s.page + 1 ∧ q < pages
  nothing : s.range 0 = some (0, 0)
  range : ∀ total, s.total = some total → ∀ visible, 0 < visible →
    visible ≤ min limit (total - s.page * limit) →
    ∃ first last, s.range visible = some (first, last) ∧ 1 ≤ first ∧ first ≤ last ∧ last ≤ total

/-- The pager of a run, and the requests it has issued. -/
structure Consistent (issued : List ResourcePageRequest) (s : ResourcePagination) : Prop where
  stale : ∀ request ∈ issued, issued.head? ≠ some request →
    (∀ total, s.complete request total = (none, s)) ∧ s.fail request = s
  offsets : ∀ request ∈ issued, ∃ offset, request.offset = some offset ∧ offset ≤ ResourcePagination.i64Max
  computes : ∃ pages, s.pages = some pages ∧ (s.next).isSome ∧
    (∀ visible, (s.range visible).isSome) ∧ (s.ready = true → Displays s pages)
  corrected : ∀ request ∈ issued, ∀ chain, (request :: chain).IsChain Corrects →
    ((request :: chain).map ResourcePageRequest.page).Pairwise (· > ·) ∧
      chain.length ≤ request.page

section Shown

variable {s : ResourcePagination} {issued : List ResourcePageRequest}

open ResourcePagination

/-- A number that fits is kept. -/
theorem checked_of_lt {n : Nat} (h : n < UInt64.size) : checked n = some n := if_pos h

/-- How many pages a total has. -/
def pagesOf (total : Nat) : Nat := if 0 < total then (total - 1) / limit + 1 else 0

/-- The pages of a total that fits. -/
theorem pagesOf_lt {total : Nat} (h : total ≤ ResourcePagination.i64Max) :
    pagesOf total ≤ ResourcePagination.i64Max / limit + 1 := by
  rw [pagesOf]
  simp only [ResourcePagination.i64Max, limit] at h ⊢
  split <;> omega

/-- The pages of a known total. -/
theorem pages_of_total {total : Nat} (htotal : s.total = some total)
    (h : total ≤ ResourcePagination.i64Max) :
    s.pages = some (pagesOf total) := by
  have hlt := pagesOf_lt h
  rw [pages, htotal, pagesOf]
  by_cases hpos : 0 < total
  · rw [pagesOf, if_pos hpos] at hlt
    have hfilter : (some total).filter (0 < ·) = some total :=
      Option.filter_some_pos (decide_eq_true hpos)
    rw [if_pos hpos, hfilter]
    refine checked_of_lt ?_
    simp only [ResourcePagination.i64Max, limit, UInt64.size] at hlt ⊢
    omega
  · have hfilter : (some total).filter (0 < ·) = none :=
      Option.filter_some_neg (by simpa using hpos)
    rw [if_neg hpos, hfilter]

/-- There is no page before the total is known. -/
theorem pages_of_none (h : s.total = none) : s.pages = some 0 := by
  rw [pages, h]
  rfl

/-- The next page, while there is one. -/
theorem next_of_pages {count : Nat} (hpage : s.page ≤ ResourcePagination.i64Max / limit)
    (hpages : s.pages = some count) :
    s.next = some (if s.ready = true ∧ s.page + 1 < count then some (s.page + 1) else none) := by
  have hfollowing : checked (s.page + 1) = some (s.page + 1) := by
    refine checked_of_lt ?_
    simp only [ResourcePagination.i64Max, limit, UInt64.size] at hpage ⊢
    omega
  rw [next, hfollowing, hpages]
  cases s.ready <;> simp

/-- Where the rows of a page begin and end. -/
theorem range_of_page {total visible : Nat} (hpage : s.page ≤ ResourcePagination.i64Max / limit)
    (hready : s.ready = true) (htotal : s.total = some total) (hpos : 0 < total)
    (hvisible : 0 < visible) :
    s.range visible = some (s.page * limit + 1,
      min (min (s.page * limit + visible) (UInt64.size - 1)) total) := by
  have hoffset : checked (s.page * limit) = some (s.page * limit) := by
    refine checked_of_lt ?_
    simp only [ResourcePagination.i64Max, limit, UInt64.size] at hpage ⊢
    omega
  have hfirst : checked (s.page * limit + 1) = some (s.page * limit + 1) := by
    refine checked_of_lt ?_
    simp only [ResourcePagination.i64Max, limit, UInt64.size] at hpage ⊢
    omega
  simp [range, htotal, hready, hpos, hvisible, hoffset, hfirst]

/-- The range does not overflow. -/
theorem range_isSome (hpage : s.page ≤ ResourcePagination.i64Max / limit) (visible : Nat) :
    (s.range visible).isSome = true := by
  cases htotal : s.total with
  | none => simp [range, htotal]
  | some total =>
      by_cases h : s.ready = true ∧ 0 < total ∧ 0 < visible
      · rw [range_of_page hpage h.1 htotal h.2.1 h.2.2]
        rfl
      · have hzero : (s.ready && decide (0 < total) && decide (0 < visible)) = false := by
          simpa [and_assoc] using h
        simp [range, htotal, hzero]

/-- The previous page, once loaded. -/
theorem previous_iff {q : Nat} :
    s.previous = some q ↔ s.ready = true ∧ q + 1 = s.page := by
  rw [previous]
  split
  · next h =>
      simp only [Bool.and_eq_true, decide_eq_true_eq] at h
      simp only [Option.some.injEq, h.1, true_and]
      omega
  · next h =>
      simp only [Bool.and_eq_true, decide_eq_true_eq, not_and] at h
      refine ⟨nofun, fun ⟨hready, hq⟩ => absurd (h hready) ?_⟩
      omega

/-- **A pager that is ready shows a page of its total.** -/
theorem displays_of_ready {total : Nat} (hnumbered : Numbered issued s) (hshows : Shows s)
    (hready : s.ready = true) (htotal : s.total = some total) : Displays s (pagesOf total) := by
  obtain ⟨hmax, hlast⟩ := hshows total htotal
  have hpage : s.page = 0 ∨ s.page < pagesOf total := by
    rw [pagesOf]
    split
    · exact .inr (Nat.lt_succ_of_le hlast)
    · refine .inl ?_
      simp only [limit] at hlast
      omega
  refine ⟨hpage, fun q => ?_, ?_, ?_, ?_⟩
  · rw [previous_iff]
    refine ⟨fun ⟨_, hq⟩ => ⟨hq, ?_⟩, fun ⟨hq, _⟩ => ⟨hready, hq⟩⟩
    omega
  · refine ⟨_, next_of_pages hnumbered.page (pages_of_total htotal hmax), fun q => ?_⟩
    rw [hready]
    simp only [true_and]
    split
    · rw [Option.some.injEq]
      omega
    · refine ⟨nofun, fun ⟨hq, hlt⟩ => ?_⟩
      omega
  · simp [range, htotal]
  · intro total' htotal' visible hvisible hrows
    obtain rfl : total = total' := Option.some.inj (htotal.symm.trans htotal')
    have hpos : 0 < total := by omega
    refine ⟨_, _, range_of_page hnumbered.page hready htotal hpos hvisible, ?_, ?_, ?_⟩
    · exact Nat.le_add_left 1 _
    · simp only [ResourcePagination.i64Max, UInt64.size, limit] at hmax hrows ⊢
      omega
    · exact Nat.min_le_right _ _

end Shown

/-- No row is visible on the page of an empty table, and its range is outside the total. -/
theorem empty_range_outside : ∃ (issued : List ResourcePageRequest) (s : ResourcePagination),
    Issued issued s ∧ issued.length < UInt64.size ∧ s.ready = true ∧ s.total = some 0 ∧
      0 ≤ min limit (0 - s.page * limit) ∧
      ∀ first last, s.range 0 = some (first, last) → ¬(1 ≤ first ∧ last ≤ 0) := by
  have hstart : Issued [⟨0, 1⟩] (ResourcePagination.initial.begin 0).2 := .begin .initial 0
  have hcomplete := hstart.complete (List.mem_singleton.2 rfl) (Nat.zero_le ResourcePagination.i64Max)
  refine ⟨_, _, hcomplete, by decide, rfl, rfl, Nat.zero_le _, fun first last h => ?_⟩
  obtain ⟨rfl, rfl⟩ := Prod.mk.inj (Option.some.inj h)
  decide

/-- **The pager of every run is consistent.** -/
theorem pager_consistent {issued : List ResourcePageRequest} {s : ResourcePagination}
    (h : Issued issued s) (hfew : issued.length < UInt64.size) : Consistent issued s := by
  obtain ⟨hnumbered, hshows⟩ := h.sound hfew
  refine ⟨fun request hr hne => ?_, fun request hr => ?_, ?_, fun request hr chain hchain => ?_⟩
  · have hstale : s.isCurrent request = false := by
      rw [Bool.eq_false_iff]
      exact fun hcurrent => hne (hnumbered.latest hr hcurrent)
    exact ⟨fun _ => complete_of_not_current hstale, fail_of_not_current hstale⟩
  · have hpage := hnumbered.pages request hr
    refine ⟨request.page * limit, checked_of_lt ?_, ?_⟩ <;>
      simp only [ResourcePagination.i64Max, limit, UInt64.size] at hpage ⊢ <;> omega
  · cases htotal : s.total with
    | none =>
        have hpages := pages_of_none htotal
        refine ⟨0, hpages, ?_, range_isSome hnumbered.page, fun hready => ?_⟩
        · rw [next_of_pages hnumbered.page hpages]
          rfl
        · simp [ResourcePagination.ready, htotal] at hready
    | some total =>
        have hpages := pages_of_total htotal (hshows total htotal).1
        refine ⟨_, hpages, ?_, range_isSome hnumbered.page, fun hready =>
          displays_of_ready hnumbered hshows hready htotal⟩
        rw [next_of_pages hnumbered.page hpages]
        rfl
  · have hpages : ((request :: chain).map ResourcePageRequest.page).Pairwise (· > ·) := by
      rw [List.pairwise_map]
      exact List.isChain_iff_pairwise.1 (hchain.imp fun _ _ hcorrects => hcorrects.page_lt)
    have hlength := length_le_of_decreasing hpages
    rw [List.length_map] at hlength
    exact ⟨hpages, hlength⟩

/-- One record past a page: the second page. -/
theorem pager_consistent_second : Consistent [⟨1, 1⟩] ⟨1, some 51, false, 1⟩ := by
  have hstart : Issued [⟨1, 1⟩] (ResourcePagination.initial.begin 1).2 := .begin .initial 1
  have htotal : 51 ≤ ResourcePagination.i64Max := by decide
  exact pager_consistent (hstart.complete (List.mem_singleton.2 rfl) htotal) (by decide)

end Generator
end Hegira
