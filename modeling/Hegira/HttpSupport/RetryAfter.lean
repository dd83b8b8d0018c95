/-
# The advertised delay

A refusal ends when the oldest time that counts leaves the window.  The script rounds what
is left up to seconds, the memory limiter rounds it down: `retry_after_sufficient_iff`
says when its delay is enough all the same.
-/

import Hegira.HttpSupport.RedisLimiter

namespace Hegira
namespace HttpSupport

open SlidingWindow

variable {maxRequests window : ℕ}

/-- The memory limiter decides by what counts in its history. -/
theorem check_memoryHistory (maxRequests window : ℕ) {calls : List Call} {call : Call}
    (hclock : (calls ++ [call]).Pairwise (·.now ≤ ·.now)) :
    ((memoryHistory maxRequests window calls).2.check maxRequests window call).1 =
      memoryDecision maxRequests window call.now ((memoryPolicy maxRequests window).load
        ((memoryHistory maxRequests window calls).1.map entry) call.key call.now) := by
  have hexact := (memoryHistory_exact maxRequests window hclock).1
  rw [memoryHistory, replay_append_singleton, List.map_append, List.map_singleton] at hexact
  exact (exact_append_singleton.1 hexact).2

/-- The script decides by what counts in its history. -/
theorem eval_scriptHistory (maxRequests window : ℕ) {calls : List (Call × String)}
    {call : Call × String}
    (hclock : (calls ++ [call]).Pairwise (·.1.now ≤ ·.1.now))
    (hmembers : ((calls ++ [call]).map Prod.snd).Nodup) :
    (RedisSlidingWindowRateLimiter.eval maxRequests window
        (scriptHistory maxRequests window calls).2 call).1 =
      scriptAnswer maxRequests window call.1.now ((scriptPolicy maxRequests window).load
        (scriptLog maxRequests window calls) call.1.key call.1.now) := by
  have hexact := (scriptLog_exact maxRequests window hclock
    hmembers).1
  rw [scriptLog, scriptHistory, replay_append_singleton, List.map_append,
    List.map_singleton] at hexact
  exact (exact_append_singleton.1 hexact).2

/-- The oldest time that counts against a call of the memory limiter. -/
def MemoryRateLimiter.oldest (limiter : MemoryRateLimiter) (window : ℕ) (call : Call) : Option ℕ :=
  (retain call.now window (limiter.kept call.key)).head?

theorem entry_time_le {δ : Type*} {history : List (Call × δ)} {now : ℕ}
    (h : ∀ call ∈ history.map Prod.fst, call.now ≤ now) :
    ∀ e ∈ history.map entry, e.time ≤ now := by
  intro e he
  obtain ⟨e, hmem, rfl⟩ := List.mem_map.1 he
  exact h e.1 (List.mem_map_of_mem hmem)

theorem length_of_retry {now r : ℕ} {times : List ℕ}
    (h : (memoryDecision maxRequests window now times).retryAfterSeconds = some r) :
    maxRequests ≤ times.length := by
  rw [memoryDecision] at h
  split at h
  · assumption
  · cases h

theorem retry_eq {now r oldest : ℕ} {times : List ℕ}
    (h : (memoryDecision maxRequests window now times).retryAfterSeconds = some r)
    (holdest : times.head? = some oldest) :
    r = max ((window - (now - oldest)) / second) 1 := by
  rw [memoryDecision, if_pos (length_of_retry h), holdest] at h
  exact (Option.some.inj h).symm

/-- What counts against a key after a call of it was refused and others were made. -/
theorem load_memoryHistory {calls others : List Call} {call : Call}
    (hdenied : ((memoryHistory maxRequests window calls).2.check maxRequests window
      call).1.allowed = false) (hothers : ∀ other ∈ others, other.key ≠ call.key) (now : ℕ) :
    (memoryPolicy maxRequests window).load
        ((memoryHistory maxRequests window (calls ++ call :: others)).1.map entry) call.key now =
      (memoryPolicy maxRequests window).load
        ((memoryHistory maxRequests window calls).1.map entry) call.key now := by
  have happend : calls ++ call :: others = (calls ++ [call]) ++ others := by simp
  rw [memoryHistory, happend, replay_append, replay_append_singleton, List.append_assoc,
    List.map_append, List.singleton_append, List.map_cons]
  refine load_of_refused hdenied (fun e he => ?_) now
  obtain ⟨e, hmem, rfl⟩ := List.mem_map.1 he
  refine hothers e.1 ?_
  rw [← replay_calls (MemoryRateLimiter.check maxRequests window) _ others]
  exact List.mem_map_of_mem hmem

/-- Seconds rounded down cover what is left when nothing is dropped. -/
theorem le_seconds_iff {left r : ℕ} (hr : r = max (left / second) 1) :
    left ≤ r * second ↔ left ≤ second ∨ second ∣ left := by
  rw [hr, Nat.dvd_iff_mod_eq_zero]
  have hdiv := Nat.div_add_mod left second
  have hmod := Nat.mod_lt left (show 0 < second by decide)
  rw [Nat.mul_comm] at hdiv
  rcases Nat.eq_zero_or_pos (left / second) with hzero | hpos
  · rw [hzero, Nat.zero_mul] at hdiv
    rw [hzero, Nat.max_eq_right (Nat.zero_le 1), Nat.one_mul]
    omega
  · rw [Nat.max_eq_left hpos]
    have := Nat.mul_le_mul_right second hpos
    omega

/-- The delay the memory limiter advertises is enough just when what is left of the window
is at most a second or whole seconds: `as_secs` drops the rest. -/
theorem memory_retry_iff (hmax : 0 < maxRequests) {calls : List Call} {call : Call}
    (hclock : (calls ++ [call]).Pairwise (·.now ≤ ·.now)) {r : ℕ}
    (hdenied : ((memoryHistory maxRequests window calls).2.check maxRequests window
      call).1.retryAfterSeconds = some r) :
    (∀ others later, (calls ++ call :: others ++ [later]).Pairwise (·.now ≤ ·.now) →
      (∀ other ∈ others, other.key ≠ call.key) → later.key = call.key →
      call.now + r * second ≤ later.now →
      ((memoryHistory maxRequests window (calls ++ call :: others)).2.check maxRequests window
        later).1.allowed = true) ↔
    ∃ oldest, (memoryHistory maxRequests window calls).2.oldest window call = some oldest ∧
      (window - (call.now - oldest) ≤ second ∨ second ∣ window - (call.now - oldest)) := by
  have hcalls := (List.pairwise_append.1 hclock).1
  have hbefore : ∀ c ∈ calls, c.now ≤ call.now := fun c hc =>
    (List.pairwise_append.1 hclock).2.2 c hc call (List.mem_singleton_self call)
  have hexact := (memoryHistory_exact maxRequests window hcalls).1
  have hchron := memoryHistory_chronological maxRequests window hcalls
  have htimes : ∀ e ∈ (memoryHistory maxRequests window calls).1.map entry,
      e.time ≤ call.now := by
    refine entry_time_le fun c hc => hbefore c ?_
    rwa [replay_calls] at hc
  have holdest : (memoryHistory maxRequests window calls).2.oldest window call =
      ((memoryPolicy maxRequests window).load
        ((memoryHistory maxRequests window calls).1.map entry) call.key call.now).head? :=
    congrArg List.head?
      ((memoryHistory_exact _ _ hcalls).2 call.now hbefore call.key call.now le_rfl)
  have hdecision := check_memoryHistory maxRequests window hclock
  rw [hdecision] at hdenied
  have hfull := length_of_retry hdenied
  obtain ⟨oldest, hhead, hfree⟩ :=
    hexact.refused_until memoryPolicy_bounded hchron hmax htimes hfull
  have hr := retry_eq hdenied hhead
  have hlive := mem_live.1 (List.mem_of_head? hhead)
  have hpast : oldest ≤ call.now := by
    obtain ⟨e, he, -, -, rfl⟩ := mem_times.1 hlive.1
    exact htimes e he
  have hrefused : ((memoryHistory maxRequests window calls).2.check maxRequests window
      call).1.allowed = false := by
    rw [hdecision, ← Bool.not_eq_true, memoryDecision_allowed]
    exact Nat.not_lt.2 hfull
  have hallowed (others : List Call) (later : Call)
      (hlater : (calls ++ call :: others ++ [later]).Pairwise (·.now ≤ ·.now))
      (hothers : ∀ other ∈ others, other.key ≠ call.key) (hkey : later.key = call.key) :
      ((memoryHistory maxRequests window (calls ++ call :: others)).2.check maxRequests window
        later).1.allowed = true ↔ window ≤ later.now - oldest := by
    have hle : call.now ≤ later.now := (List.pairwise_append.1 hlater).2.2 call
      (List.mem_append_right _ List.mem_cons_self) later (List.mem_singleton_self later)
    rw [check_memoryHistory _ _ hlater, memoryDecision_allowed, hkey,
      load_memoryHistory hrefused hothers]
    exact hfree later.now hle
  rw [holdest, hhead]
  constructor
  · intro h
    have hlast : ∀ c ∈ calls ++ [call], c.now ≤ call.now + r * second := by
      intro c hc
      obtain hc | hc := List.mem_append.1 hc
      · exact (hbefore c hc).trans (Nat.le_add_right ..)
      · exact (List.mem_singleton.1 hc) ▸ Nat.le_add_right ..
    have hclock' : (calls ++ [call] ++ [(⟨call.key, call.now + r * second⟩ : Call)]).Pairwise
        (·.now ≤ ·.now) := by
      refine List.pairwise_append.2 ⟨hclock, List.pairwise_singleton .., fun c hc last hmem => ?_⟩
      rw [List.mem_singleton.1 hmem]
      exact hlast c hc
    have hnone : ∀ other ∈ ([] : List Call), other.key ≠ call.key := by simp
    have hgap := (hallowed [] _ hclock' hnone rfl).1 (h [] _ hclock' hnone rfl le_rfl)
    refine ⟨oldest, rfl, (le_seconds_iff hr).1 ?_⟩
    change window ≤ call.now + r * second - oldest at hgap
    omega
  · rintro ⟨_, heq, hleft⟩ others later hlater hothers hkey hdelay
    obtain rfl := Option.some.inj heq
    rw [hallowed others later hlater hothers hkey]
    have := (le_seconds_iff hr).2 hleft
    omega

theorem scriptPolicy_bounded : (scriptPolicy maxRequests window).Bounded maxRequests :=
  fun _ _ => scriptAnswer_allowed

theorem scriptLog_chronological {calls : List (Call × String)}
    (hclock : calls.Pairwise (·.1.now ≤ ·.1.now)) :
    Chronological (scriptLog maxRequests window calls) := by
  rw [← replay_calls (RedisSlidingWindowRateLimiter.eval maxRequests window) {} calls,
    List.pairwise_map] at hclock
  exact List.pairwise_map.2 hclock

theorem scriptLog_time_le {calls : List (Call × String)} {now : ℕ}
    (h : ∀ call ∈ calls, call.1.now ≤ now) :
    ∀ e ∈ scriptLog maxRequests window calls, e.time ≤ now := by
  intro e he
  obtain ⟨e, hmem, rfl⟩ := List.mem_map.1 he
  refine h e.1 ?_
  rw [← replay_calls (RedisSlidingWindowRateLimiter.eval maxRequests window) {} calls]
  exact List.mem_map_of_mem hmem

/-- A refusal of the script: the key is full, and the delay is rounded up. -/
theorem scriptAnswer_retry {now r : ℕ} {times : List ℕ} {decision : RateLimitDecision}
    (h : scriptAnswer maxRequests window now times = .ok decision)
    (hr : decision.retryAfterSeconds = some r) :
    maxRequests ≤ times.length ∧ ∃ oldest, times.head? = some oldest ∧
      oldest + window ≤ now + r * 1000 := by
  rw [scriptAnswer] at h
  split at h
  · next hfull =>
      refine ⟨hfull, ?_⟩
      split at h
      · next oldest hhead =>
          obtain rfl := Except.ok.inj h
          refine ⟨oldest, hhead, ?_⟩
          obtain rfl := Option.some.inj hr
          simp only [List.getElem?_cons_succ, List.getElem?_cons_zero, Option.getD_some,
            ceilSeconds]
          omega
      · cases h
  · obtain rfl := Except.ok.inj h
    cases hr

/-- What counts against a key after the script refused a call of it. -/
theorem load_scriptLog {calls others : List (Call × String)} {call : Call × String}
    (hdenied : (scriptPolicy maxRequests window).admits
      (RedisSlidingWindowRateLimiter.eval maxRequests window
        (scriptHistory maxRequests window calls).2 call).1 = false)
    (hothers : ∀ other ∈ others, other.1.key ≠ call.1.key) (now : ℕ) :
    (scriptPolicy maxRequests window).load
        (scriptLog maxRequests window (calls ++ call :: others)) call.1.key now =
      (scriptPolicy maxRequests window).load (scriptLog maxRequests window calls)
        call.1.key now := by
  have happend : calls ++ call :: others = (calls ++ [call]) ++ others := by simp
  rw [scriptLog, scriptHistory, happend, replay_append, replay_append_singleton,
    List.append_assoc, List.map_append, List.singleton_append, List.map_cons]
  refine load_of_refused hdenied (fun e he => ?_) now
  obtain ⟨e, hmem, rfl⟩ := List.mem_map.1 he
  refine hothers e.1 ?_
  rw [← replay_calls (RedisSlidingWindowRateLimiter.eval maxRequests window) _ others]
  exact List.mem_map_of_mem hmem

/-- The delay the script advertises is enough. -/
theorem script_retry (hmax : 0 < maxRequests) {calls others : List (Call × String)}
    {call later : Call × String}
    (hclock : (calls ++ call :: others ++ [later]).Pairwise (·.1.now ≤ ·.1.now))
    (hmembers : ((calls ++ call :: others ++ [later]).map Prod.snd).Nodup)
    {decision : RateLimitDecision} {r : ℕ}
    (hdecision : (RedisSlidingWindowRateLimiter.eval maxRequests window
      (scriptHistory maxRequests window calls).2 call).1 = .ok decision)
    (hr : decision.retryAfterSeconds = some r)
    (hothers : ∀ other ∈ others, other.1.key ≠ call.1.key) (hkey : later.1.key = call.1.key)
    (hdelay : call.1.now + r * 1000 ≤ later.1.now) :
    ∃ decision', (RedisSlidingWindowRateLimiter.eval maxRequests window
        (scriptHistory maxRequests window (calls ++ call :: others)).2 later).1 = .ok decision' ∧
      decision'.allowed = true := by
  have hpre : (calls ++ [call]).Sublist (calls ++ call :: others ++ [later]) := by
    rw [List.append_assoc]
    exact List.Sublist.append_left (List.singleton_sublist.2 (by simp)) calls
  have hcallsClock := hclock.sublist ((List.sublist_append_left calls [call]).trans hpre)
  have hbefore : ∀ c ∈ calls, c.1.now ≤ call.1.now := fun c hc =>
    (List.pairwise_append.1 (hclock.sublist hpre)).2.2 c hc call (List.mem_singleton_self call)
  have hcallsMembers := hmembers.sublist
    (((List.sublist_append_left calls [call]).trans hpre).map Prod.snd)
  have hexact := (scriptLog_exact maxRequests window hcallsClock
    hcallsMembers).1
  have hanswer := eval_scriptHistory maxRequests window
    (hclock.sublist hpre) (hmembers.sublist (hpre.map Prod.snd))
  obtain ⟨hfull, oldest, hhead, hdone⟩ := scriptAnswer_retry (hanswer.symm.trans hdecision) hr
  obtain ⟨oldest', hhead', hfree⟩ := hexact.refused_until scriptPolicy_bounded
    (scriptLog_chronological hcallsClock) hmax (scriptLog_time_le hbefore) hfull
  obtain rfl := Option.some.inj (hhead.symm.trans hhead')
  have hrefused : (scriptPolicy maxRequests window).admits
      (RedisSlidingWindowRateLimiter.eval maxRequests window
        (scriptHistory maxRequests window calls).2 call).1 = false := by
    rw [hanswer, ← Bool.not_eq_true, scriptAnswer_allowed]
    exact Nat.not_lt.2 hfull
  have hroom : ((scriptPolicy maxRequests window).load
      (scriptLog maxRequests window (calls ++ call :: others)) later.1.key later.1.now).length <
        maxRequests := by
    rw [hkey, load_scriptLog hrefused hothers, hfree later.1.now (by omega)]
    change window ≤ later.1.now - oldest
    omega
  rw [eval_scriptHistory _ _ hclock hmembers, scriptAnswer, if_neg (Nat.not_le.2 hroom)]
  exact ⟨_, rfl, rfl⟩

/-- **Retry-After.**  A call on the key of a refused call that waits as long as the memory
limiter advertised is allowed, whatever happens on other keys, just when what was left of
the window of the oldest time that counts was at most a second or whole seconds.  The
delay of the script always suffices. -/
theorem retry_after_sufficient_iff (maxRequests window : ℕ) (hmax : 0 < maxRequests) :
    (∀ (calls : List Call) (call : Call) (r : ℕ),
      (calls ++ [call]).Pairwise (·.now ≤ ·.now) →
      ((memoryHistory maxRequests window calls).2.check maxRequests window
        call).1.retryAfterSeconds = some r →
      ((∀ others later, (calls ++ call :: others ++ [later]).Pairwise (·.now ≤ ·.now) →
        (∀ other ∈ others, other.key ≠ call.key) → later.key = call.key →
        call.now + r * second ≤ later.now →
        ((memoryHistory maxRequests window (calls ++ call :: others)).2.check maxRequests window
          later).1.allowed = true) ↔
      ∃ oldest, (memoryHistory maxRequests window calls).2.oldest window call = some oldest ∧
        (window - (call.now - oldest) ≤ second ∨ second ∣ window - (call.now - oldest)))) ∧
    ∀ (calls others : List (Call × String)) (call later : Call × String)
      (decision : RateLimitDecision) (r : ℕ),
      (calls ++ call :: others ++ [later]).Pairwise (·.1.now ≤ ·.1.now) →
      ((calls ++ call :: others ++ [later]).map Prod.snd).Nodup →
      (RedisSlidingWindowRateLimiter.eval maxRequests window
        (scriptHistory maxRequests window calls).2 call).1 = .ok decision →
      decision.retryAfterSeconds = some r →
      (∀ other ∈ others, other.1.key ≠ call.1.key) → later.1.key = call.1.key →
      call.1.now + r * 1000 ≤ later.1.now →
      ∃ decision', (RedisSlidingWindowRateLimiter.eval maxRequests window
          (scriptHistory maxRequests window (calls ++ call :: others)).2 later).1 =
            .ok decision' ∧ decision'.allowed = true :=
  ⟨fun _ _ _ hclock hdenied => memory_retry_iff hmax hclock hdenied,
    fun _ _ _ _ _ _ hclock hmembers hdecision hr hothers hkey hdelay =>
      script_retry hmax hclock hmembers hdecision hr hothers hkey hdelay⟩

/-- One request a minute: the refusal after ten seconds advertises the fifty that are left. -/
theorem retry_after_sufficient_whole_seconds :
    ((memoryHistory 1 (60 * second) ([⟨"a", 0⟩] ++ ⟨"a", 10 * second⟩ ::
      [⟨"b", 11 * second⟩])).2.check 1 (60 * second) ⟨"a", 60 * second⟩).1.allowed = true :=
  (((retry_after_sufficient_iff 1 (60 * second) (by decide)).1 [⟨"a", 0⟩] ⟨"a", 10 * second⟩ 50
      (by decide) (by decide +kernel)).2 ⟨0, by decide +kernel, Or.inr (by decide)⟩)
    [⟨"b", 11 * second⟩] ⟨"a", 60 * second⟩ (by decide) (by decide) rfl (by decide)

/-- One request a minute: the refusal after half a second advertises 59 seconds, and a call
after them is refused again. -/
theorem retry_after_too_short :
    let limiter := (memoryHistory 1 (60 * second) [⟨"a", 0⟩]).2
    let refused : Call := ⟨"a", second / 2⟩
    (limiter.check 1 (60 * second) refused).1.retryAfterSeconds = some 59 ∧
      ((memoryHistory 1 (60 * second) [⟨"a", 0⟩, refused]).2.check 1 (60 * second)
        ⟨"a", second / 2 + 59 * second⟩).1.allowed = false := by
  decide +kernel

end HttpSupport
end Hegira
