/-
# Decisions by a sliding window

A log holds calls in the order they were made, each with its key, its time and what was
decided.  A policy decides a call by the times of the admitted calls of its key that lie
less than one window back, and a log is `Exact` when every call was decided so.  An exact
log is determined by its calls (`Exact.eq_of_calls`), treats each key by itself
(`Exact.filter_key`) and is not changed by its refused calls (`Exact.of_sublist`).

Where a policy admits a call just when fewer than `max` times count (`Bounded`), no window
holds more than `max` admitted calls of a key (`Exact.count_le`), and a refusal ends when
the oldest time that counts leaves the window (`Exact.refused_until`).
-/

import Mathlib.Data.List.Basic
import Mathlib.Data.List.Infix
import Mathlib.Tactic.Common

namespace Hegira
namespace SlidingWindow

structure Entry (K δ : Type*) where
  key : K
  time : ℕ
  decision : δ
  deriving DecidableEq, Repr

/-- What is decided at a time when the given times count, and which decisions admit. -/
structure Policy (δ : Type*) where
  window : ℕ
  answer : ℕ → List ℕ → δ
  admits : δ → Bool

variable {K δ : Type*} [DecidableEq K] (P : Policy δ)

/-- The times of the admitted calls of a key. -/
def Policy.times (log : List (Entry K δ)) (k : K) : List ℕ :=
  (log.filter fun e => e.key = k ∧ P.admits e.decision).map Entry.time

/-- The times less than one window before `now`. -/
def live (window now : ℕ) (times : List ℕ) : List ℕ := times.filter fun t => now - t < window

/-- The times that count against a key. -/
def Policy.load (log : List (Entry K δ)) (k : K) (now : ℕ) : List ℕ :=
  live P.window now (P.times log k)

/-- Every call is decided by what counts against its key. -/
def Exact (log : List (Entry K δ)) : Prop :=
  ∀ before e after, log = before ++ e :: after →
    e.decision = P.answer e.time (P.load before e.key e.time)

/-- The clock does not go back. -/
def Chronological (log : List (Entry K δ)) : Prop := log.Pairwise fun e e' => e.time ≤ e'.time

/-- A call is admitted just when fewer than `max` times count. -/
def Policy.Bounded (max : ℕ) : Prop :=
  ∀ now ts, P.admits (P.answer now ts) = true ↔ ts.length < max

/-! ### Times -/

@[simp] theorem live_nil (window now : ℕ) : live window now [] = [] := rfl

/-- What is live of two lists. -/
@[simp] theorem live_append (window now : ℕ) (ts ts' : List ℕ) :
    live window now (ts ++ ts') = live window now ts ++ live window now ts' :=
  List.filter_append ..

/-- A time is live within the window. -/
theorem mem_live {window now t : ℕ} {ts : List ℕ} :
    t ∈ live window now ts ↔ t ∈ ts ∧ now - t < window := by
  simp [live]

/-- What no longer counts will not count later. -/
theorem live_live {window now now' : ℕ} (h : now ≤ now') (ts : List ℕ) :
    live window now' (live window now ts) = live window now' ts := by
  rw [live, live, List.filter_filter]
  refine List.filter_congr fun t _ => ?_
  rw [← Bool.decide_and, decide_eq_decide]
  omega

variable {P}

@[simp] theorem times_nil (k : K) : P.times ([] : List (Entry K δ)) k = [] := rfl

/-- One more entry adds its time, when it is admitted. -/
theorem times_append_singleton (log : List (Entry K δ)) (e : Entry K δ) (k : K) :
    P.times (log ++ [e]) k =
      P.times log k ++ if e.key = k ∧ P.admits e.decision then [e.time] else [] := by
  rw [Policy.times, List.filter_append, List.map_append, ← Policy.times, List.filter_singleton]
  by_cases h : e.key = k ∧ P.admits e.decision
  · rw [if_pos h, decide_eq_true h]
    rfl
  · rw [if_neg h, decide_eq_false h]
    rfl

/-- Only the admitted calls are read. -/
theorem times_filter_admits (log : List (Entry K δ)) (k : K) :
    P.times (log.filter fun e => P.admits e.decision) k = P.times log k := by
  rw [Policy.times, List.filter_filter, Policy.times]
  refine congrArg _ (List.filter_congr fun e _ => ?_)
  cases P.admits e.decision <;> simp

/-- Only the calls of the key are read. -/
theorem times_filter_key (log : List (Entry K δ)) (k : K) :
    P.times (log.filter fun e => e.key = k) k = P.times log k := by
  rw [Policy.times, List.filter_filter, Policy.times]
  refine congrArg _ (List.filter_congr fun e _ => ?_)
  by_cases h : e.key = k <;> simp [h]

/-- The admitted times of a key. -/
theorem mem_times {log : List (Entry K δ)} {k : K} {t : ℕ} :
    t ∈ P.times log k ↔
      ∃ e ∈ log, e.key = k ∧ P.admits e.decision = true ∧ e.time = t := by
  simp [Policy.times, and_assoc]

/-- They are in order when the log is. -/
theorem Chronological.times {log : List (Entry K δ)} (h : Chronological log) (k : K) :
    (P.times log k).Pairwise (· ≤ ·) :=
  List.pairwise_map.2 (h.filter _)

/-! ### Exact logs -/

variable {log : List (Entry K δ)}

/-- The empty log is exact and chronological. -/
theorem exact_nil : Exact P ([] : List (Entry K δ)) := by
  intro before e after h
  simp at h

/-- One more entry is exact when it is answered by the policy. -/
theorem exact_append_singleton {e : Entry K δ} :
    Exact P (log ++ [e]) ↔
      Exact P log ∧ e.decision = P.answer e.time (P.load log e.key e.time) := by
  constructor
  · intro h
    refine ⟨fun before e' after he => ?_, h log e [] rfl⟩
    exact h before e' (after ++ [e]) (by rw [he, List.append_assoc, List.cons_append])
  · rintro ⟨h, he⟩ before e' after hlog
    obtain rfl | ⟨after, last, rfl⟩ := after.eq_nil_or_concat
    · obtain ⟨rfl, hlast⟩ := List.append_inj' hlog rfl
      obtain rfl := List.singleton_inj.1 hlast
      exact he
    · rw [List.concat_eq_append, ← List.cons_append, ← List.append_assoc] at hlog
      exact h before e' after (List.append_inj' hlog rfl).1

omit [DecidableEq K] in
/-- It is chronological when it is not earlier than any. -/
theorem chronological_append_singleton {e : Entry K δ} :
    Chronological (log ++ [e]) ↔ Chronological log ∧ ∀ e' ∈ log, e'.time ≤ e.time := by
  simp [Chronological, List.pairwise_append]

/-- **An exact log is determined by its calls.** -/
theorem Exact.eq_of_calls {log' : List (Entry K δ)} (h : Exact P log) (h' : Exact P log')
    (hcalls : log.map (fun e => (e.key, e.time)) = log'.map fun e => (e.key, e.time)) :
    log = log' := by
  induction log using List.reverseRecOn generalizing log' with
  | nil => exact (List.map_eq_nil_iff.1 hcalls.symm).symm
  | append_singleton log e ih =>
      obtain rfl | ⟨log', e', rfl⟩ := log'.eq_nil_or_concat
      · simp at hcalls
      · rw [List.concat_eq_append] at h' hcalls ⊢
        rw [List.map_append, List.map_append] at hcalls
        obtain ⟨hcalls, hlast⟩ := List.append_inj' hcalls rfl
        obtain ⟨h, he⟩ := exact_append_singleton.1 h
        obtain ⟨h', he'⟩ := exact_append_singleton.1 h'
        obtain rfl := ih h h' hcalls
        obtain ⟨hkey, htime⟩ := Prod.mk.inj (List.singleton_inj.1 hlast)
        have hdecision : e.decision = e'.decision := by rw [he, he', hkey, htime]
        cases e
        cases e'
        obtain rfl := hkey
        obtain rfl := htime
        obtain rfl := hdecision
        rfl

/-- **Other keys do not matter.** -/
theorem Exact.filter_key (h : Exact P log) (k : K) :
    Exact P (log.filter fun e => e.key = k) := by
  induction log using List.reverseRecOn with
  | nil => exact exact_nil
  | append_singleton log e ih =>
      obtain ⟨h, he⟩ := exact_append_singleton.1 h
      rw [List.filter_append, List.filter_singleton]
      by_cases hk : e.key = k
      · rw [decide_eq_true hk, cond_true, exact_append_singleton]
        subst hk
        rw [Policy.load, times_filter_key]
        exact ⟨ih h, he⟩
      · rw [decide_eq_false hk, cond_false, List.append_nil]
        exact ih h

/-- **Refused calls do not matter.** -/
theorem Exact.of_sublist {rest : List (Entry K δ)} (h : Exact P log) (hsub : rest.Sublist log)
    (hadmitted : rest.filter (fun e => P.admits e.decision) =
      log.filter fun e => P.admits e.decision) :
    Exact P rest := by
  induction log using List.reverseRecOn generalizing rest with
  | nil =>
      rw [List.sublist_nil.1 hsub]
      exact exact_nil
  | append_singleton log e ih =>
      obtain ⟨h, he⟩ := exact_append_singleton.1 h
      obtain ⟨init, last, rfl, hinit, hlast⟩ := List.sublist_append_iff.1 hsub
      obtain rfl | rfl := List.sublist_singleton.1 hlast
      · rw [List.append_nil, List.filter_append] at hadmitted
        have hlength := (hinit.filter fun e => P.admits e.decision).length_le
        have hnone : [e].filter (fun e => P.admits e.decision) = [] := by
          have := congrArg List.length hadmitted
          rw [List.length_append] at this
          exact List.eq_nil_of_length_eq_zero (by omega)
        rw [hnone, List.append_nil] at hadmitted
        rw [List.append_nil]
        exact ih h hinit hadmitted
      · rw [List.filter_append, List.filter_append] at hadmitted
        have hsame := List.append_cancel_right hadmitted
        refine exact_append_singleton.2 ⟨ih h hinit hsame, ?_⟩
        rw [Policy.load, ← times_filter_admits, hsame, times_filter_admits]
        exact he

/-! ### Bounded policies -/

variable {max : ℕ}

/-- **No window holds more than `max` admitted calls of a key.** -/
theorem Exact.count_le (h : Exact P log) (hP : P.Bounded max) (hc : Chronological log) (k : K)
    (s : ℕ) : (P.times log k).countP (fun t => s ≤ t ∧ t < s + P.window) ≤ max := by
  induction log using List.reverseRecOn with
  | nil => exact Nat.zero_le _
  | append_singleton log e ih =>
      obtain ⟨h, he⟩ := exact_append_singleton.1 h
      obtain ⟨hc, hlast⟩ := chronological_append_singleton.1 hc
      rw [times_append_singleton]
      by_cases hnew : (e.key = k ∧ P.admits e.decision) ∧ s ≤ e.time ∧ e.time < s + P.window
      · obtain ⟨⟨rfl, hadm⟩, hs⟩ := hnew
        have hroom := hadm
        rw [he, hP] at hroom
        -- What lies in the window of `s` lies in the window that ends with the new call.
        have hle : (P.times log e.key).countP (fun t => s ≤ t ∧ t < s + P.window) ≤
            (P.load log e.key e.time).length := by
          rw [Policy.load, live, ← List.countP_eq_length_filter]
          refine List.countP_mono_left fun t _ ht => ?_
          rw [decide_eq_true_eq] at ht ⊢
          omega
        rw [if_pos ⟨rfl, hadm⟩, List.countP_append]
        have hone := List.countP_le_length
          (p := fun t => decide (s ≤ t ∧ t < s + P.window)) (l := [e.time])
        rw [List.length_singleton] at hone
        omega
      · have hzero : (if e.key = k ∧ P.admits e.decision then [e.time] else []).countP
            (fun t => s ≤ t ∧ t < s + P.window) = 0 := by
          by_cases hk : e.key = k ∧ P.admits e.decision
          · rw [if_pos hk, List.countP_singleton, if_neg]
            simpa using fun h₁ h₂ => hnew ⟨hk, h₁, h₂⟩
          · rw [if_neg hk, List.countP_nil]
        rw [List.countP_append, hzero, Nat.add_zero]
        exact ih h hc

/-- **The bound.** No load exceeds the maximum. -/
theorem Exact.load_le (h : Exact P log) (hP : P.Bounded max) (hc : Chronological log) (k : K)
    {now : ℕ} (hnow : ∀ e ∈ log, e.time ≤ now) : (P.load log k now).length ≤ max := by
  refine le_trans ?_ (h.count_le hP hc k (now + 1 - P.window))
  rw [Policy.load, live, ← List.countP_eq_length_filter]
  refine List.countP_mono_left fun t ht hlive => ?_
  obtain ⟨e, he, -, -, rfl⟩ := mem_times.1 ht
  have := hnow e he
  rw [decide_eq_true_eq] at hlive ⊢
  omega

/-- Neither a refused call nor one of another key counts. -/
theorem load_of_refused {before others : List (Entry K δ)} {e : Entry K δ} {k : K}
    (he : P.admits e.decision = false) (hothers : ∀ o ∈ others, o.key ≠ k) (now : ℕ) :
    P.load (before ++ e :: others) k now = P.load before k now := by
  have hnone : (e :: others).filter (fun e => e.key = k ∧ P.admits e.decision) = [] := by
    refine List.filter_eq_nil_iff.2 fun o ho => ?_
    obtain rfl | ho := List.mem_cons.1 ho
    · simp [he]
    · simp [hothers o ho]
  rw [Policy.load, Policy.times, List.filter_append, hnone, List.append_nil, Policy.load,
    Policy.times]

/-- **When a refusal ends.**  A key without room has room again just when the oldest
time that counts against it leaves the window. -/
theorem Exact.refused_until (h : Exact P log) (hP : P.Bounded max) (hc : Chronological log)
    (hmax : 0 < max) {k : K} {now : ℕ} (hnow : ∀ e ∈ log, e.time ≤ now)
    (hfull : max ≤ (P.load log k now).length) :
    ∃ oldest, (P.load log k now).head? = some oldest ∧
      ∀ now', now ≤ now' → ((P.load log k now').length < max ↔ P.window ≤ now' - oldest) := by
  have hlength : (P.load log k now).length = max := le_antisymm (h.load_le hP hc k hnow) hfull
  have hsorted : (P.load log k now).Pairwise (· ≤ ·) := (hc.times k).filter _
  have hlater (now' : ℕ) (hle : now ≤ now') :
      P.load log k now' = live P.window now' (P.load log k now) := (live_live hle _).symm
  revert hlength hsorted hlater
  generalize P.load log k now = ts
  intro hlength hsorted hlater
  cases ts with
  | nil => exact absurd hlength (by simpa using hmax.ne)
  | cons oldest ts =>
      refine ⟨oldest, rfl, fun now' hle => ?_⟩
      rw [hlater now' hle, ← hlength]
      constructor
      · intro hlt
        by_contra hcount
        -- If the oldest still counts, so do the others.
        have hall : live P.window now' (oldest :: ts) = oldest :: ts := by
          refine List.filter_eq_self.2 fun t ht => ?_
          rw [decide_eq_true_eq]
          obtain rfl | ht := List.mem_cons.1 ht
          · omega
          · have := List.rel_of_pairwise_cons hsorted ht
            omega
        rw [hall] at hlt
        exact lt_irrefl _ hlt
      · intro hout
        have hdrop : live P.window now' (oldest :: ts) = live P.window now' ts :=
          List.filter_cons_of_neg (by simpa using hout)
        rw [hdrop, List.length_cons]
        exact Nat.lt_succ_of_le (List.length_filter_le _ _)

/-! ### Views of a log -/

/-- The entry with another decision, on a clock with `c` times as many ticks. -/
def Entry.view {ε : Type*} (c : ℕ) (f : δ → ε) (e : Entry K δ) : Entry K ε :=
  ⟨e.key, e.time * c, f e.decision⟩

/-- A finer unit of time changes nothing. -/
theorem live_scale {c : ℕ} (hc : 0 < c) (window now : ℕ) (ts : List ℕ) :
    live (window * c) (now * c) (ts.map (· * c)) = (live window now ts).map (· * c) := by
  rw [live, live, List.filter_map]
  refine congrArg _ (List.filter_congr fun t _ => ?_)
  rw [Function.comp_apply, ← Nat.sub_mul, decide_eq_decide]
  exact Nat.mul_lt_mul_right hc

/-- **A view of an exact log is exact**, for a policy that decides what is seen. -/
theorem Exact.view {ε : Type*} {Q : Policy ε} {c : ℕ} {f : δ → ε} (h : Exact P log) (hc : 0 < c)
    (hwindow : Q.window = P.window * c) (hadmits : ∀ d, Q.admits (f d) = P.admits d)
    (hanswer : ∀ now ts, Q.answer (now * c) (ts.map (· * c)) = f (P.answer now ts)) :
    Exact Q (log.map (Entry.view c f)) := by
  have htimes (log : List (Entry K δ)) (k : K) :
      Q.times (log.map (Entry.view c f)) k = (P.times log k).map (· * c) := by
    rw [Policy.times, Policy.times, List.filter_map, List.map_map, List.map_map]
    refine congrArg _ (List.filter_congr fun e _ => ?_)
    rw [Function.comp_apply, Entry.view, hadmits]
  induction log using List.reverseRecOn with
  | nil => exact exact_nil
  | append_singleton log e ih =>
      obtain ⟨h, he⟩ := exact_append_singleton.1 h
      rw [List.map_append, List.map_singleton, exact_append_singleton]
      refine ⟨ih h, ?_⟩
      rw [Policy.load, htimes, hwindow, Entry.view, live_scale hc, hanswer, he, Policy.load]

/-! ### Implementations

An implementation keeps some of the times for each key; it may drop those that no longer
count. -/

/-- From `now` on, the kept times count as much as all the admitted ones. -/
def Tracks (P : Policy δ) (now : ℕ) (kept : K → List ℕ) (log : List (Entry K δ)) : Prop :=
  ∀ k t, now ≤ t → live P.window t (kept k) = P.load log k t

/-- What a step must do to what it keeps: drop nothing that will still count, and keep
the call if it is admitted. -/
theorem Tracks.append_singleton {now : ℕ} {kept kept' : K → List ℕ} {e : Entry K δ}
    (h : Tracks P now kept log) (hnow : now ≤ e.time)
    (hstep : ∀ k t, e.time ≤ t → live P.window t (kept' k) = live P.window t
      (kept k ++ if e.key = k ∧ P.admits e.decision then [e.time] else [])) :
    Tracks P e.time kept' (log ++ [e]) := by
  intro k t ht
  rw [hstep k t ht, live_append, h k t (hnow.trans ht), Policy.load, Policy.load,
    times_append_singleton, live_append]

/-- An implementation may touch only the key of the call. -/
theorem Tracks.update {now : ℕ} {kept : K → List ℕ} {e : Entry K δ} (h : Tracks P now kept log)
    (hnow : now ≤ e.time) :
    Tracks P e.time (Function.update kept e.key (live P.window e.time (kept e.key) ++
      if P.admits e.decision then [e.time] else [])) (log ++ [e]) := by
  refine h.append_singleton hnow fun k t ht => ?_
  by_cases hk : k = e.key
  · subst hk
    rw [Function.update_self, live_append, live_live ht, live_append]
    simp
  · rw [Function.update_of_ne hk, if_neg fun hadm => hk hadm.1.symm, List.append_nil]

end SlidingWindow
end Hegira
