/-
# The Redis script admits by the same window

The sorted set of a key holds the times that count (`Keeps`): a member is removed, or the
key expires, only when its score has left the window.  So the script keeps an exact log as
well, and what the two backends show of a decision depends on the log alone
(`backends_agree`).
-/

import Hegira.HttpSupport.MemoryLimiter

namespace Hegira
namespace HttpSupport

open Std (TreeMap)
open SlidingWindow

variable {maxRequests window : ℕ}

/-- What a script decides when these times count. -/
def scriptAnswer (maxRequests window now : ℕ) (times : List ℕ) : Except String RateLimitDecision :=
  if maxRequests ≤ times.length then
    match times.head? with
    | some oldest => .ok (scriptDecision maxRequests (window * millisecond)
        [0, times.length, ceilSeconds (oldest + window - now)])
    | none => .error "attempt to perform arithmetic on a nil value"
  else .ok (scriptDecision maxRequests (window * millisecond) [1, times.length + 1, 0])

/-- The script's policy. -/
def scriptPolicy (maxRequests window : ℕ) : Policy (Except String RateLimitDecision) where
  window := window
  answer := scriptAnswer maxRequests window
  admits decision := decision.toOption.any RateLimitDecision.allowed

/-- The script admits a request while fewer than the maximum are kept. -/
theorem scriptAnswer_allowed {now : ℕ} {times : List ℕ} :
    (scriptPolicy maxRequests window).admits (scriptAnswer maxRequests window now times) = true ↔
      times.length < maxRequests := by
  rw [scriptAnswer]
  split
  · next h =>
      split <;> simpa [scriptPolicy, Except.toOption, scriptDecision] using h
  · next h => simpa [scriptPolicy, Except.toOption, scriptDecision] using h

/-- A sorted set holds these times: they are its scores, its members were drawn before,
and it does not expire while one of them counts. -/
structure Keeps (window now : ℕ) (names : List String) (set : SortedSet) (times : List ℕ) :
    Prop where
  scores : set.members.map Prod.snd = times.map Nat.cast
  sorted : times.Pairwise (· ≤ ·)
  past : ∀ t ∈ times, t ≤ now
  lasts : ∀ time, set.expiresAt = some time → ∀ t ∈ times, (t : ℤ) + window ≤ time
  names : ∀ m ∈ set.members, m.1 ∈ names

/-- What the script works on, once it has removed the old members. -/
def pruned (redis : Redis) (key : String) (now window : ℤ) : SortedSet :=
  ((redis.find now key).getD ⟨[], none⟩).zremrangebyscore 0 (now - window)

/-- Removing the range leaves the times within the window. -/
theorem scores_zremrangebyscore {set : SortedSet} {times : List ℕ} {now : ℕ} (window : ℕ)
    (h : set.members.map Prod.snd = times.map Nat.cast) (hpast : ∀ t ∈ times, t ≤ now) :
    (set.zremrangebyscore 0 (now - window)).members.map Prod.snd =
      (live window now times).map Nat.cast := by
  have hfilter : (set.zremrangebyscore 0 (now - window)).members.map Prod.snd =
      (set.members.map Prod.snd).filter fun score => ¬(0 ≤ score ∧ score ≤ (now : ℤ) - window) := by
    rw [List.filter_map]
    rfl
  rw [hfilter, h, List.filter_map, live]
  refine congrArg _ (List.filter_congr fun t ht => ?_)
  have := hpast t ht
  rw [Function.comp_apply, decide_eq_decide]
  omega

/-- The empty set keeps no time. -/
theorem keeps_nil (now : ℕ) (names : List String) (expiresAt : Option ℤ) :
    Keeps window now names ⟨[], expiresAt⟩ [] where
  scores := rfl
  sorted := List.Pairwise.nil
  past _ ht := absurd ht List.not_mem_nil
  lasts _ _ _ ht := absurd ht List.not_mem_nil
  names _ hm := absurd hm List.not_mem_nil

/-- A later clock and more names keep it. -/
theorem Keeps.mono {now now' : ℕ} {names names' : List String} {set : SortedSet} {times : List ℕ}
    (h : Keeps window now names set times) (hnow : now ≤ now') (hnames : names ⊆ names') :
    Keeps window now' names' set times :=
  { h with
    past := fun t ht => (h.past t ht).trans hnow
    names := fun m hm => hnames (h.names m hm) }

/-- A key that has expired holds no times that count. -/
theorem Keeps.find {now : ℕ} (now' : ℕ) {names : List String} {redis : Redis} {key : String}
    {times : List ℕ} (h : Keeps window now names (redis.keys[key]?.getD ⟨[], none⟩) times) :
    Keeps window now names ((redis.find now' key).getD ⟨[], none⟩) times ∨
      redis.find now' key = none ∧ live window now' times = [] := by
  rw [Redis.find]
  cases hset : redis.keys[key]? with
  | none =>
      rw [hset] at h
      exact Or.inl h
  | some set =>
      rw [hset] at h
      cases htime : set.expiresAt with
      | none =>
          rw [Option.filter_some_pos (by rw [htime]; rfl)]
          exact Or.inl h
      | some time =>
          by_cases halive : (now' : ℤ) ≤ time
          · rw [Option.filter_some_pos (by rw [htime]; exact decide_eq_true halive)]
            exact Or.inl h
          · refine Or.inr ⟨Option.filter_some_neg (by rw [htime]; exact decide_eq_false halive), ?_⟩
            refine List.filter_eq_nil_iff.2 fun t ht => ?_
            have := h.lasts time htime t ht
            rw [decide_eq_true_eq]
            omega

/-- The removal keeps the times within the window. -/
theorem Keeps.zremrangebyscore {now now' : ℕ} {names : List String} {set : SortedSet}
    {times : List ℕ} (h : Keeps window now names set times) (hnow : now ≤ now') :
    Keeps window now' names (set.zremrangebyscore 0 (now' - window)) (live window now' times) where
  scores := scores_zremrangebyscore window h.scores fun t ht => (h.past t ht).trans hnow
  sorted := h.sorted.filter _
  past t ht := (h.past t (mem_live.1 ht).1).trans hnow
  lasts time htime t ht := h.lasts time htime t (mem_live.1 ht).1
  names m hm := h.names m (List.mem_filter.1 hm).1

theorem Keeps.pruned {now now' : ℕ} {names : List String} {redis : Redis} {key : String}
    {times : List ℕ} (h : Keeps window now names (redis.keys[key]?.getD ⟨[], none⟩) times)
    (hnow : now ≤ now') :
    Keeps window now' names (pruned redis key now' window) (live window now' times) := by
  obtain h | ⟨hnone, hlive⟩ := h.find now'
  · exact h.zremrangebyscore hnow
  · rw [HttpSupport.pruned, hnone, hlive]
    exact keeps_nil ..

/-- The times a set holds are as many as its members, and the oldest is the first. -/
theorem Keeps.length {now : ℕ} {names : List String} {set : SortedSet} {times : List ℕ}
    (h : Keeps window now names set times) : set.members.length = times.length := by
  have := congrArg List.length h.scores
  rwa [List.length_map, List.length_map] at this

/-- The first score is the earliest time. -/
theorem Keeps.firstScore {now : ℕ} {names : List String} {set : SortedSet} {times : List ℕ}
    (h : Keeps window now names set times) : set.firstScore = times.head?.map Nat.cast := by
  rw [SortedSet.firstScore, h.scores]
  cases times with
  | nil => rfl
  | cons oldest times =>
      rw [List.head?_cons, Option.map_some, List.min?_eq_some_iff]
      refine ⟨List.mem_map_of_mem List.mem_cons_self, fun score hscore => ?_⟩
      obtain ⟨t, ht, rfl⟩ := List.mem_map.1 hscore
      obtain rfl | ht := List.mem_cons.1 ht
      · exact Int.le_refl _
      · exact Int.ofNat_le.2 (List.rel_of_pairwise_cons h.sorted ht)

/-- A new member is the last. -/
theorem Keeps.zadd {now : ℕ} {names : List String} {set : SortedSet} {times : List ℕ}
    (h : Keeps window now names set times) {member : String} (hmember : member ∉ names) :
    Keeps window now (member :: names)
      ((set.zadd now member).expire now (ceilSeconds window + 1)) (times ++ [now]) := by
  have hothers : set.members.filter (fun m => m.1 ≠ member) = set.members := by
    refine List.filter_eq_self.2 fun m hm => ?_
    rw [decide_eq_true_eq]
    rintro rfl
    exact hmember (h.names m hm)
  have hmembers : (set.zadd now member).members = set.members ++ [(member, (now : ℤ))] :=
    congrArg (· ++ _) hothers
  refine ⟨?_, ?_, ?_, ?_, ?_⟩
  · rw [SortedSet.expire, hmembers, List.map_append, h.scores, List.map_append]
    rfl
  · refine List.pairwise_append.2 ⟨h.sorted, List.pairwise_singleton .., fun t ht last hlast => ?_⟩
    rw [List.mem_singleton.1 hlast]
    exact h.past t ht
  · intro t ht
    obtain ht | ht := List.mem_append.1 ht
    · exact h.past t ht
    · exact (List.mem_singleton.1 ht).le
  · rintro time htime t ht
    obtain rfl := Option.some.inj htime
    have htnow : t ≤ now := by
      obtain ht | ht := List.mem_append.1 ht
      · exact h.past t ht
      · exact (List.mem_singleton.1 ht).le
    rw [ceilSeconds]
    omega
  · intro m hm
    rw [SortedSet.expire, hmembers, List.mem_append, List.mem_singleton] at hm
    obtain hm | rfl := hm
    · exact List.mem_cons_of_mem _ (h.names m hm)
    · exact List.mem_cons_self

/-- What is found after a set was stored. -/
theorem Redis.getElem?_put (redis : Redis) (key key' : String) (set : SortedSet) :
    (redis.put key set).keys[key']? =
      if key = key' then (if set.members.isEmpty then none else some set)
      else redis.keys[key']? := by
  rw [Redis.put]
  split
  · simp only [TreeMap.getElem?_erase, Std.compare_eq_iff_eq]
  · simp only [TreeMap.getElem?_insert, Std.compare_eq_iff_eq]

/-- What was stored is found. -/
theorem Keeps.put {now : ℕ} {names : List String} {redis : Redis} {key : String}
    {set : SortedSet} {times : List ℕ} (h : Keeps window now names set times) :
    Keeps window now names ((redis.put key set).keys[key]?.getD ⟨[], none⟩) times := by
  rw [Redis.getElem?_put, if_pos rfl]
  by_cases hempty : set.members.isEmpty = true
  · have htimes : times = [] := by
      rw [← List.length_eq_zero_iff, ← h.length, List.length_eq_zero_iff]
      exact List.isEmpty_iff.1 hempty
    rw [if_pos hempty, htimes]
    exact keeps_nil ..
  · rw [if_neg hempty]
    exact h

/-- What the script does when its key holds these times. -/
theorem slidingWindowLua_spec {now : ℕ} {names : List String} {redis : Redis} {call : Call}
    {member : String} {times : List ℕ} (maxRequests : ℕ)
    (h : Keeps window now names (redis.keys[call.key]?.getD ⟨[], none⟩) times)
    (hnow : now ≤ call.now) (hmember : member ∉ names) :
    let counted := live window call.now times
    let result := RedisSlidingWindowRateLimiter.eval maxRequests window redis (call, member)
    result.1 = scriptAnswer maxRequests window call.now counted ∧
      Keeps window call.now (member :: names) (result.2.keys[call.key]?.getD ⟨[], none⟩)
        (counted ++ if counted.length < maxRequests then [call.now] else []) ∧
      ∀ key, key ≠ call.key → result.2.keys[key]? = redis.keys[key]? := by
  intro counted result
  have hset : Keeps window call.now names (pruned redis call.key call.now window) counted :=
    h.pruned hnow
  have hresult : result = RedisSlidingWindowRateLimiter.eval maxRequests window redis
    (call, member) := rfl
  rw [RedisSlidingWindowRateLimiter.eval, RedisSlidingWindowRateLimiter.query, slidingWindowLua,
    ← pruned, hset.length,
    hset.firstScore] at hresult
  have hothers (set : SortedSet) (key : String) (hkey : key ≠ call.key) :
      (redis.put call.key set).keys[key]? = redis.keys[key]? := by
    rw [Redis.getElem?_put, if_neg hkey.symm]
  by_cases hroom : counted.length < maxRequests
  · rw [if_neg (by omega)] at hresult
    rw [hresult, scriptAnswer, if_neg (Nat.not_le.2 hroom), if_pos hroom]
    exact ⟨rfl, (hset.zadd hmember).put, hothers _⟩
  · rw [if_pos (by omega)] at hresult
    rw [scriptAnswer, if_pos (Nat.le_of_not_lt hroom), if_neg hroom, List.append_nil]
    cases hhead : counted.head? with
    | none =>
        rw [hhead] at hresult
        rw [hresult]
        exact ⟨rfl, (hset.mono le_rfl (List.subset_cons_self ..)).put, hothers _⟩
    | some oldest =>
        rw [hhead] at hresult
        rw [hresult]
        exact ⟨rfl, (hset.mono le_rfl (List.subset_cons_self ..)).put, hothers _⟩

/-- The calls of the script, with the member each of them drew, and its answers. -/
abbrev scriptHistory (maxRequests window : ℕ) (calls : List (Call × String)) :
    List ((Call × String) × Except String RateLimitDecision) × Redis :=
  replay (RedisSlidingWindowRateLimiter.eval maxRequests window) {} calls

/-- The log of the script. -/
def scriptLog (maxRequests window : ℕ) (calls : List (Call × String)) :
    List (Entry String (Except String RateLimitDecision)) :=
  (scriptHistory maxRequests window calls).1.map fun e => entry (e.1.1, e.2)

/-- **The script keeps an exact log.** -/
theorem scriptLog_exact (maxRequests window : ℕ) {calls : List (Call × String)}
    (hclock : calls.Pairwise (·.1.now ≤ ·.1.now)) (hnames : (calls.map Prod.snd).Nodup) :
    Exact (scriptPolicy maxRequests window) (scriptLog maxRequests window calls) ∧
      ∃ kept : String → List ℕ, ∀ now, (∀ call ∈ calls, call.1.now ≤ now) →
        Tracks (scriptPolicy maxRequests window) now kept
            (scriptLog maxRequests window calls) ∧
          ∀ key, Keeps window now (calls.map Prod.snd)
            ((scriptHistory maxRequests window calls).2.keys[key]?.getD ⟨[], none⟩)
            (kept key) := by
  induction calls using List.reverseRecOn with
  | nil =>
      exact ⟨exact_nil, fun _ => [], fun now _ => ⟨fun key t _ => rfl, fun key => keeps_nil ..⟩⟩
  | append_singleton calls call ih =>
      obtain ⟨call, member⟩ := call
      rw [List.pairwise_append] at hclock
      rw [List.map_append, List.map_singleton, List.nodup_append] at hnames
      have hbefore : ∀ c ∈ calls, c.1.now ≤ call.now :=
        fun c hc => hclock.2.2 c hc _ (List.mem_singleton_self (call, member))
      have hmember : member ∉ calls.map Prod.snd :=
        fun hm => hnames.2.2 member hm member (List.mem_singleton_self member) rfl
      obtain ⟨hexact, kept, hkept⟩ := ih hclock.1 hnames.1
      obtain ⟨htracks, hkeeps⟩ := hkept call.now hbefore
      obtain ⟨hanswer, hkey, hothers⟩ :=
        slidingWindowLua_spec maxRequests (hkeeps call.key) le_rfl hmember
      simp only [scriptLog, scriptHistory, replay_append_singleton, List.map_append,
        List.map_singleton] at htracks hkeeps hexact hanswer hkey hothers ⊢
      set history := replay (RedisSlidingWindowRateLimiter.eval maxRequests window) {} calls
      have hcount : live window call.now (kept call.key) =
          (scriptPolicy maxRequests window).load
            (history.1.map fun e => entry (e.1.1, e.2)) call.key call.now :=
        htracks call.key call.now le_rfl
      have hstep := htracks.update (e := entry (call,
        (RedisSlidingWindowRateLimiter.eval maxRequests window history.2 (call, member)).1))
        (le_refl call.now)
      have hallowed : (scriptPolicy maxRequests window).admits (entry (call,
          (RedisSlidingWindowRateLimiter.eval maxRequests window history.2
            (call, member)).1)).decision = true ↔
              (live window call.now (kept call.key)).length < maxRequests := by
        rw [entry, hanswer]
        exact scriptAnswer_allowed
      refine ⟨exact_append_singleton.2 ⟨hexact, ?_⟩, Function.update kept call.key
        (live window call.now (kept call.key) ++
          if (live window call.now (kept call.key)).length < maxRequests then [call.now] else []),
        fun now hnow => ⟨fun key t ht => ?_, fun key => ?_⟩⟩
      · rw [entry, hanswer, hcount]
        rfl
      · have hcall := hnow _ (List.mem_append_right _ (List.mem_singleton_self (call, member)))
        refine Eq.trans ?_ (hstep key t (hcall.trans ht))
        simp only [hallowed]
        rfl
      · have hcall := hnow _ (List.mem_append_right _ (List.mem_singleton_self (call, member)))
        have hsub : member :: calls.map Prod.snd ⊆ calls.map Prod.snd ++ [member] :=
          List.cons_subset.2 ⟨List.mem_append_right _ (List.mem_singleton_self member),
            List.subset_append_left ..⟩
        by_cases hk : key = call.key
        · subst hk
          rw [Function.update_self]
          exact hkey.mono hcall hsub
        · rw [Function.update_of_ne hk, hothers key hk]
          exact (hkeeps key).mono hcall (List.Subset.trans (List.subset_cons_self ..) hsub)

/-- A number below 2⁶³ is read as itself. -/
theorem asI64_of_lt {value : ℕ} (h : value < 2 ^ 63) : asI64 value = value := by
  refine Int.bmod_eq_of_le ?_ ?_
  · omega
  · omega

/-- `check` runs the script with the limit and the window, where the casts keep them. -/
theorem RedisSlidingWindowRateLimiter.check_eq_eval (hmax : maxRequests < 2 ^ 63)
    (hwindow : window < 2 ^ 63) :
    RedisSlidingWindowRateLimiter.check maxRequests (window * millisecond) =
      RedisSlidingWindowRateLimiter.eval maxRequests window := by
  have hpos : 0 < millisecond := by decide
  rw [check, Nat.mul_div_cancel window hpos, asI64_of_lt hmax, asI64_of_lt hwindow, eval]

/-! ### Agreement of the backends -/

/-- What both backends show when so many times count: the flag and the remaining count. -/
def shownAnswer (maxRequests count : ℕ) : Bool × ℕ :=
  if maxRequests ≤ count then (false, 0) else (true, maxRequests - (count + 1))

def shownPolicy (maxRequests window : ℕ) : Policy (Except String (Bool × ℕ)) where
  window := window
  answer _ times := .ok (shownAnswer maxRequests times.length)
  admits shown := shown.toOption.any Prod.fst

/-- What is shown of a decision. -/
def RateLimitDecision.shown (decision : RateLimitDecision) : Bool × ℕ :=
  (decision.allowed, decision.remaining)

/-- The decision of the memory limiter, as far as both show it. -/
theorem shown_memoryDecision (now : ℕ) (times : List ℕ) :
    (memoryDecision maxRequests window now times).shown =
      shownAnswer maxRequests times.length := by
  rw [memoryDecision, shownAnswer]
  split <;> rfl

/-- The script shows the same. -/
theorem shown_scriptAnswer (hmax : 0 < maxRequests) (now : ℕ) (times : List ℕ) :
    (scriptAnswer maxRequests window now times).map RateLimitDecision.shown =
      .ok (shownAnswer maxRequests times.length) := by
  rw [scriptAnswer, shownAnswer]
  split
  · next hfull =>
      cases times with
      | nil => exact absurd hfull (Nat.not_le.2 hmax)
      | cons oldest times =>
          have hcount : maxRequests - (max ((times.length + 1 : ℕ) : ℤ) 0).toNat = 0 := by
            rw [List.length_cons] at hfull
            omega
          exact congrArg (fun remaining => Except.ok (false, remaining)) hcount
  · have hcount : (max ((times.length : ℤ) + 1) 0).toNat = times.length + 1 := by omega
    exact congrArg (fun count => Except.ok (true, maxRequests - count)) hcount

/-- The answer depends on how many times count, in every unit. -/
theorem shownPolicy_answer (now' c : ℕ) (times : List ℕ) :
    (shownPolicy maxRequests window).answer now' (times.map (· * c)) =
      .ok (shownAnswer maxRequests times.length) :=
  congrArg (fun count => Except.ok (shownAnswer maxRequests count)) (List.length_map _)

/-- The script shows what the memory limiter shows. -/
theorem script_agrees (maxRequests window : ℕ) (hmax : 0 < maxRequests)
    (calls : List (Call × String)) (hclock : calls.Pairwise (·.1.now ≤ ·.1.now))
    (hmembers : (calls.map Prod.snd).Nodup) :
    (scriptHistory maxRequests window calls).1.map (fun e => e.2.map RateLimitDecision.shown) =
      (memoryHistory maxRequests (window * millisecond)
        (calls.map fun call => ⟨call.1.key, call.1.now * millisecond⟩)).1.map
          fun e => .ok e.2.shown := by
  have hms : 0 < millisecond := by decide
  have hmclock : (calls.map fun call : Call × String =>
      (⟨call.1.key, call.1.now * millisecond⟩ : Call)).Pairwise (·.now ≤ ·.now) :=
    List.pairwise_map.2 (hclock.imp fun h => Nat.mul_le_mul_right _ h)
  have hmemory : Exact (shownPolicy maxRequests (window * millisecond))
      (((memoryHistory maxRequests (window * millisecond) (calls.map fun call =>
        ⟨call.1.key, call.1.now * millisecond⟩)).1.map entry).map
          (Entry.view 1 fun decision => .ok decision.shown)) :=
    (memoryHistory_exact _ _ hmclock).1.view Nat.one_pos (Nat.mul_one _).symm (fun _ => rfl)
      fun now ts => by
        rw [shownPolicy_answer]
        exact congrArg Except.ok (shown_memoryDecision now ts).symm
  have hscript : Exact (shownPolicy maxRequests (window * millisecond))
      ((scriptLog maxRequests window calls).map
        (Entry.view millisecond (Except.map RateLimitDecision.shown))) := by
    refine (scriptLog_exact _ _ hclock hmembers).1.view (by decide) rfl (fun decision => ?_)
      fun now ts => ?_
    · cases decision <;> rfl
    · rw [shownPolicy_answer]
      exact (shown_scriptAnswer hmax now ts).symm
  have hlog := hscript.eq_of_calls hmemory (by
    have hscriptCalls := congrArg (List.map fun call : Call × String =>
        (call.1.key, call.1.now * millisecond))
      (replay_calls (RedisSlidingWindowRateLimiter.eval maxRequests window) {} calls)
    have hmemoryCalls := congrArg (List.map fun call : Call => (call.key, call.now * 1))
      (replay_calls (MemoryRateLimiter.check maxRequests (window * millisecond)) {}
        (calls.map fun call => ⟨call.1.key, call.1.now * millisecond⟩))
    rw [List.map_map] at hscriptCalls hmemoryCalls
    rw [scriptLog, List.map_map, List.map_map, List.map_map, List.map_map]
    refine hscriptCalls.trans (Eq.trans ?_ hmemoryCalls.symm)
    rw [List.map_map]
    exact List.map_congr_left fun call _ => by rw [Function.comp_apply, Nat.mul_one])
  have hshown := congrArg (List.map Entry.decision) hlog
  rwa [scriptLog, List.map_map, List.map_map, List.map_map, List.map_map] at hshown

/-- **The two backends agree.**  On the same calls, with times and a window in whole
milliseconds and a new member for each call, the memory limiter and the script show the
same flag and the same remaining count; and so does `check`, which gives the script the
limit and the window as `i64`. -/
theorem backends_agree (maxRequests window : ℕ) (hmax : 0 < maxRequests)
    (calls : List (Call × String)) (hclock : calls.Pairwise (·.1.now ≤ ·.1.now))
    (hmembers : (calls.map Prod.snd).Nodup) :
    let memory := (memoryHistory maxRequests (window * millisecond)
      (calls.map fun call => ⟨call.1.key, call.1.now * millisecond⟩)).1
    (scriptHistory maxRequests window calls).1.map (fun e => e.2.map RateLimitDecision.shown) =
        memory.map (fun e => .ok e.2.shown) ∧
      (maxRequests < 2 ^ 63 → window < 2 ^ 63 →
        (replay (RedisSlidingWindowRateLimiter.check maxRequests (window * millisecond)) {}
            calls).1.map (fun e => e.2.map RateLimitDecision.shown) =
          memory.map fun e => .ok e.2.shown) := by
  have hscript := script_agrees maxRequests window hmax calls hclock hmembers
  refine ⟨hscript, fun hlimit hwindow => ?_⟩
  rw [RedisSlidingWindowRateLimiter.check_eq_eval hlimit hwindow]
  exact hscript

/-- A window of 1.5 s with one request: the boundary, a refusal and a second key. -/
theorem backends_agree_boundary :
    let calls : List (Call × String) :=
      [(⟨"a", 0⟩, "x"), (⟨"a", 1499⟩, "y"), (⟨"b", 1499⟩, "z"), (⟨"a", 1500⟩, "w")]
    let shown : List (Except String (Bool × ℕ)) :=
      [.ok (true, 0), .ok (false, 0), .ok (true, 0), .ok (true, 0)]
    (scriptHistory 1 1500 calls).1.map (fun e => e.2.map RateLimitDecision.shown) = shown ∧
      (replay (RedisSlidingWindowRateLimiter.check 1 (1500 * millisecond)) {} calls).1.map
        (fun e => e.2.map RateLimitDecision.shown) = shown := by
  intro calls shown
  obtain ⟨hscript, hcheck⟩ := backends_agree 1 1500 (by decide) calls (by decide) (by decide)
  rw [hscript, hcheck (by decide) (by decide)]
  decide +kernel

end HttpSupport
end Hegira
