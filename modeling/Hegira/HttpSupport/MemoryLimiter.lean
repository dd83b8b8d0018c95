/-
# The memory limiter admits by a sliding window

`MemoryRateLimiter::check` prunes every key on every call and records the calls it allows.
What it keeps for a key counts as much as the whole history of the key (`Tracks`), so its
history is an exact log of `Hegira.Library.SlidingWindow` and `memory_limiter_exact` reads
off what that means.
-/

import Hegira.Library.SlidingWindow
import Hegira.HttpSupport.RateLimit

namespace Hegira
namespace HttpSupport

open Std (TreeMap)
open SlidingWindow

/-! ### Runs -/

section Replay

variable {σ ι δ : Type*} (step : σ → ι → δ × σ) (s : σ)

@[simp] theorem replay_nil : replay step s [] = ([], s) := rfl

/-- A history with one more call. -/
theorem replay_append_singleton (calls : List ι) (call : ι) :
    replay step s (calls ++ [call]) =
      ((replay step s calls).1 ++ [(call, (step (replay step s calls).2 call).1)],
        (step (replay step s calls).2 call).2) := by
  rw [replay, List.foldl_append]
  rfl

/-- A history in two parts. -/
theorem replay_append (calls calls' : List ι) :
    replay step s (calls ++ calls') =
      ((replay step s calls).1 ++ (replay step (replay step s calls).2 calls').1,
        (replay step (replay step s calls).2 calls').2) := by
  induction calls' using List.reverseRecOn with
  | nil => simp
  | append_singleton calls' call ih =>
      rw [← List.append_assoc, replay_append_singleton, ih, replay_append_singleton,
        List.append_assoc]

/-- Every call has its decision. -/
theorem replay_calls (calls : List ι) : (replay step s calls).1.map Prod.fst = calls := by
  induction calls using List.reverseRecOn with
  | nil => rfl
  | append_singleton calls call ih =>
      rw [replay_append_singleton, List.map_append, ih]
      rfl

end Replay

/-- A decision in the log. -/
def entry {δ : Type*} (e : Call × δ) : Entry String δ := ⟨e.1.key, e.1.now, e.2⟩

/-- An entry is its call and its answer. -/
theorem entry_injective {δ : Type*} : Function.Injective (entry (δ := δ)) := by
  rintro ⟨⟨key, now⟩, decision⟩ ⟨⟨key', now'⟩, decision'⟩ h
  obtain ⟨rfl, rfl, rfl⟩ := Entry.mk.inj h
  rfl

/-! ### The memory limiter -/

/-- What the limiter keeps for a key. -/
def MemoryRateLimiter.kept (limiter : MemoryRateLimiter) (key : String) : List ℕ :=
  limiter.clients.getD key []

/-- What `check` answers when these times count. -/
def memoryDecision (maxRequests window now : ℕ) (timestamps : List ℕ) : RateLimitDecision :=
  if maxRequests ≤ timestamps.length then
    let retryAfterSeconds := match timestamps.head? with
      | some oldest => max ((window - (now - oldest)) / second) 1
      | none => max (window / second) 1
    { allowed := false
      limit := maxRequests
      remaining := 0
      resetSeconds := retryAfterSeconds
      retryAfterSeconds := some retryAfterSeconds }
  else
    { allowed := true
      limit := maxRequests
      remaining := maxRequests - (timestamps.length + 1)
      resetSeconds := max (window / second) 1
      retryAfterSeconds := none }

/-- A request is allowed while fewer than the maximum are kept. -/
theorem memoryDecision_allowed {maxRequests window now : ℕ} {timestamps : List ℕ} :
    (memoryDecision maxRequests window now timestamps).allowed = true ↔
      timestamps.length < maxRequests := by
  rw [memoryDecision]
  split
  · next h => simpa using h
  · next h => simpa using h

/-- Pruning all the clients is pruning each of them. -/
theorem getD_prune (clients : TreeMap String (List ℕ)) (now window : ℕ) (key : String) :
    (clients.filterMap fun _ timestamps =>
      if (retain now window timestamps).isEmpty then none
      else some (retain now window timestamps)).getD key [] =
      live window now (clients.getD key []) := by
  rw [TreeMap.getD_eq_getD_getElem?, TreeMap.getD_eq_getD_getElem?, TreeMap.getElem?_filterMap']
  cases clients[key]? with
  | none => rfl
  | some timestamps =>
      rw [Option.bind_some, Option.getD_some]
      by_cases h : (retain now window timestamps).isEmpty
      · rw [if_pos h]
        exact (List.isEmpty_iff.1 h).symm
      · rw [if_neg h]
        rfl

variable {maxRequests window : ℕ}

/-- One check decides on the live timestamps of its key. -/
theorem MemoryRateLimiter.check_decision (maxRequests window : ℕ) (limiter : MemoryRateLimiter)
    (call : Call) :
    (limiter.check maxRequests window call).1 =
      memoryDecision maxRequests window call.now
        (live window call.now (limiter.kept call.key)) := by
  rw [check, memoryDecision, getD_prune]
  rw [show retain call.now window = live window call.now from rfl, live_live le_rfl, kept]
  split
  · rfl
  · rw [List.length_append, List.length_singleton]

/-- It keeps them, and its own time when it was allowed. -/
theorem MemoryRateLimiter.check_kept (maxRequests window : ℕ) (limiter : MemoryRateLimiter)
    (call : Call) (key : String) :
    (limiter.check maxRequests window call).2.kept key =
      live window call.now (limiter.kept key) ++
        if call.key = key ∧ (live window call.now (limiter.kept call.key)).length < maxRequests
        then [call.now] else [] := by
  rw [check, getD_prune, ← kept]
  rw [show retain call.now window = live window call.now from rfl, live_live le_rfl]
  by_cases hkey : call.key = key
  · subst hkey
    by_cases hroom : (live window call.now (limiter.kept call.key)).length < maxRequests
    · rw [if_neg (Nat.not_le.2 hroom), if_pos ⟨rfl, hroom⟩]
      exact TreeMap.getD_insert_self
    · rw [if_pos (Nat.le_of_not_lt hroom), if_neg fun h => hroom h.2, List.append_nil]
      exact TreeMap.getD_insert_self
  · rw [if_neg (show ¬(call.key = key ∧ _) from fun h => hkey h.1), List.append_nil]
    have hne : compare call.key key ≠ .eq := fun h => hkey (Std.LawfulEqCmp.eq_of_compare h)
    split <;>
      · rw [kept, TreeMap.getD_insert, if_neg hne]
        exact getD_prune ..

/-- The memory limiter's policy. -/
def memoryPolicy (maxRequests window : ℕ) : Policy RateLimitDecision where
  window := window
  answer := memoryDecision maxRequests window
  admits := RateLimitDecision.allowed

/-- The policy admits at most the maximum. -/
theorem memoryPolicy_bounded : (memoryPolicy maxRequests window).Bounded maxRequests :=
  fun _ _ => memoryDecision_allowed

/-- The calls of the memory limiter with their decisions. -/
abbrev memoryHistory (maxRequests window : ℕ) (calls : List Call) :
    List (Call × RateLimitDecision) × MemoryRateLimiter :=
  replay (MemoryRateLimiter.check maxRequests window) {} calls

/-- **The memory limiter keeps an exact log.** -/
theorem memoryHistory_exact (maxRequests window : ℕ) {calls : List Call}
    (hclock : calls.Pairwise (·.now ≤ ·.now)) :
    Exact (memoryPolicy maxRequests window)
        ((memoryHistory maxRequests window calls).1.map entry) ∧
      ∀ now, (∀ call ∈ calls, call.now ≤ now) →
        Tracks (memoryPolicy maxRequests window) now
          (memoryHistory maxRequests window calls).2.kept
          ((memoryHistory maxRequests window calls).1.map entry) := by
  induction calls using List.reverseRecOn with
  | nil => exact ⟨exact_nil, fun now _ key t _ => rfl⟩
  | append_singleton calls call ih =>
      rw [List.pairwise_append] at hclock
      have hbefore : ∀ c ∈ calls, c.now ≤ call.now :=
        fun c hc => hclock.2.2 c hc call (List.mem_singleton_self call)
      obtain ⟨hexact, htracks⟩ := ih hclock.1
      have htracks := htracks call.now hbefore
      simp only [memoryHistory, replay_append_singleton, List.map_append, List.map_singleton]
      set history := replay (MemoryRateLimiter.check maxRequests window) {} calls
      have hdecision := history.2.check_decision maxRequests window call
      refine ⟨exact_append_singleton.2 ⟨hexact, ?_⟩, fun now hnow => ?_⟩
      · rw [entry, hdecision, ← htracks call.key call.now le_rfl]
        rfl
      · have hcall := hnow call (List.mem_append_right _ (List.mem_singleton_self call))
        have hstep : Tracks (memoryPolicy maxRequests window) call.now
            (history.2.check maxRequests window call).2.kept
            (history.1.map entry ++
              [entry (call, (history.2.check maxRequests window call).1)]) := by
          change Tracks _ (entry (call, (history.2.check maxRequests window call).1)).time _ _
          refine htracks.append_singleton (le_refl call.now) fun key t ht => ?_
          have hadmits : (memoryPolicy maxRequests window).admits
              (history.2.check maxRequests window call).1 = true ↔
                (live window call.now (history.2.kept call.key)).length < maxRequests := by
            rw [hdecision]
            exact memoryDecision_allowed
          simp only [entry, hadmits]
          rw [history.2.check_kept maxRequests window call key, live_append, live_append]
          exact congrArg (· ++ _) (live_live ht _)
        exact fun key t ht => hstep key t (hcall.trans ht)

/-- A history of a clock that does not go back is chronological. -/
theorem memoryHistory_chronological (maxRequests window : ℕ) {calls : List Call}
    (hclock : calls.Pairwise (·.now ≤ ·.now)) :
    Chronological ((memoryHistory maxRequests window calls).1.map entry) := by
  rw [← replay_calls (MemoryRateLimiter.check maxRequests window) {} calls,
    List.pairwise_map] at hclock
  exact List.pairwise_map.2 hclock

/-- A history is determined by its calls. -/
theorem eq_memoryHistory {history : List (Call × RateLimitDecision)}
    (hclock : (history.map Prod.fst).Pairwise (·.now ≤ ·.now))
    (h : Exact (memoryPolicy maxRequests window) (history.map entry)) :
    (memoryHistory maxRequests window (history.map Prod.fst)).1 = history := by
  have hcalls := replay_calls (MemoryRateLimiter.check maxRequests window) {}
    (history.map Prod.fst)
  refine List.map_injective_iff.2 entry_injective
    ((memoryHistory_exact _ _ hclock).1.eq_of_calls h ?_)
  have := congrArg (List.map fun call : Call => (call.key, call.now)) hcalls
  rwa [List.map_map, List.map_map] at this ⊢

/-- The admitted times of a key are counted in its history. -/
theorem countP_times (maxRequests window : ℕ) (history : List (Call × RateLimitDecision))
    (key : String) (p : ℕ → Prop) [DecidablePred p] :
    ((memoryPolicy maxRequests window).times (history.map entry) key).countP (fun t => p t) =
      history.countP fun e => e.1.key = key ∧ e.2.allowed ∧ p e.1.now := by
  rw [Policy.times, List.countP_map, List.filter_map, List.countP_map, List.countP_filter]
  refine List.countP_congr fun e _ => ?_
  by_cases hkey : e.1.key = key <;> simp [entry, memoryPolicy, hkey, and_comm]

theorem length_load (maxRequests window : ℕ) (history : List (Call × RateLimitDecision))
    (key : String) (now : ℕ) :
    ((memoryPolicy maxRequests window).load (history.map entry) key now).length =
      history.countP fun e => e.1.key = key ∧ e.2.allowed ∧ now - e.1.now < window := by
  rw [Policy.load, live, ← List.countP_eq_length_filter, countP_times]
  rfl

/-- The decisions on a key are those it has alone. -/
theorem memoryHistory_filter_key {calls : List Call} (hclock : calls.Pairwise (·.now ≤ ·.now))
    (key : String) :
    (memoryHistory maxRequests window (calls.filter fun call => call.key = key)).1 =
      (memoryHistory maxRequests window calls).1.filter fun e => e.1.key = key := by
  have hfilter : ((memoryHistory maxRequests window calls).1.filter fun e =>
      e.1.key = key).map Prod.fst = calls.filter fun call => call.key = key := by
    have hcalls := replay_calls (MemoryRateLimiter.check maxRequests window) {} calls
    have := congrArg (List.filter fun call : Call => call.key = key) hcalls
    rwa [List.filter_map] at this
  rw [← hfilter]
  refine eq_memoryHistory ?_ ?_
  · rw [hfilter]
    exact hclock.filter _
  · have := (memoryHistory_exact maxRequests window hclock).1.filter_key key
    rwa [List.filter_map] at this

/-- **Sliding-window exactness.**  With a clock that does not go back, a call is allowed
just when fewer than `max_requests` earlier calls of its key were allowed less than one
window before.  So no window holds more allowed calls of a key, a key's decisions are
those it has alone, and refused calls can be left out. -/
theorem memory_limiter_exact (maxRequests window : ℕ) (calls : List Call)
    (hclock : calls.Pairwise (·.now ≤ ·.now)) :
    let history := (memoryHistory maxRequests window calls).1
    history.map Prod.fst = calls ∧
      (∀ before call decision after, history = before ++ (call, decision) :: after →
        (decision.allowed = true ↔ before.countP (fun e => e.1.key = call.key ∧ e.2.allowed ∧
          call.now - e.1.now < window) < maxRequests)) ∧
      (∀ key start, history.countP (fun e => e.1.key = key ∧ e.2.allowed ∧
        start ≤ e.1.now ∧ e.1.now < start + window) ≤ maxRequests) ∧
      (∀ key, (memoryHistory maxRequests window (calls.filter fun call => call.key = key)).1 =
        history.filter fun e => e.1.key = key) ∧
      ∀ rest, rest.Sublist history →
        rest.filter (fun e => e.2.allowed) = history.filter (fun e => e.2.allowed) →
        (memoryHistory maxRequests window (rest.map Prod.fst)).1 = rest := by
  intro history
  have hcalls : history.map Prod.fst = calls := replay_calls _ _ _
  have hexact : Exact (memoryPolicy maxRequests window) (history.map entry) :=
    (memoryHistory_exact _ _ hclock).1
  have hchron : Chronological (history.map entry) := memoryHistory_chronological _ _ hclock
  refine ⟨hcalls, fun before call decision after h => ?_, fun key start => ?_, fun key => ?_,
    fun rest hsub hallowed => ?_⟩
  · have hlog := hexact (before.map entry) (entry (call, decision)) (after.map entry)
      (by rw [h, List.map_append, List.map_cons])
    rw [← length_load maxRequests, ← memoryPolicy_bounded call.now]
    exact iff_of_eq (congrArg (·.allowed = true) hlog)
  · rw [← countP_times maxRequests window history key
      fun t => start ≤ t ∧ t < start + window]
    exact hexact.count_le memoryPolicy_bounded hchron key start
  · exact memoryHistory_filter_key hclock key
  · refine eq_memoryHistory ?_ ?_
    · rw [← hcalls] at hclock
      exact hclock.sublist (hsub.map _)
    · refine hexact.of_sublist (hsub.map entry) ?_
      rw [List.filter_map, List.filter_map]
      exact congrArg _ hallowed

/-- Two requests a minute: the third call is refused, the key of another client is not, and
at the boundary the first call no longer counts. -/
theorem memory_limiter_exact_minute :
    let calls : List Call :=
      [⟨"a", 0⟩, ⟨"a", second⟩, ⟨"a", 2 * second⟩, ⟨"b", 2 * second⟩, ⟨"a", 60 * second⟩]
    (memoryHistory 2 (60 * second) calls).1.map (fun e => e.2.allowed) =
        [true, true, false, true, true] ∧
      (memoryHistory 2 (60 * second) (calls.filter fun call => call.key = "a")).1 =
        (memoryHistory 2 (60 * second) calls).1.filter fun e => e.1.key = "a" :=
  ⟨by decide +kernel,
    (memory_limiter_exact 2 (60 * second) _ (by decide +kernel)).2.2.2.1 "a"⟩

end HttpSupport
end Hegira
