/-
# Depth-first search with three marks

A search visits a vertex, then what the vertex requires, and lists the vertex after
all of that.  A vertex is unmarked, `visiting` while it is on the stack, and
`resolved` once it is listed.  The search goes on after a failure: a vertex met on
the stack, or one that does not exist, is reported and left (`visit`).

Vertices come from any type, and a vertex exists where `next` is defined.  The
search is fuelled by its depth, and fuel for one more than the vertices there are
is enough (`exists_visitAll`).  It reports nothing exactly when everything that can
be reached exists and lies on no cycle (`reports_eq_nil_iff`), and then it lists
what can be reached, each vertex once and after all it requires
(`ordered_of_reports_eq_nil`, `Closed`).
-/

import Mathlib.Logic.Relation
import Mathlib.Logic.Function.Basic
import Mathlib.Data.List.Infix
import Mathlib.Data.List.Nodup

namespace Hegira
namespace DepthFirst

open Relation

variable {V E : Type*}

/-- The mark of a vertex the search has come to. -/
inductive Mark where
  | visiting
  | resolved
  deriving DecidableEq, Repr

/-- A graph, and what a search reports about it. -/
structure Graph (V E : Type*) where
  /-- What a vertex requires, if it exists. -/
  next : V → Option (List V)
  /-- The report of a vertex that is on the stack already. -/
  cycle : List V → V → E
  /-- The report of a vertex that does not exist, and of what requires it. -/
  missing : V → Option V → E

/-- The state of a search; the top of the stack is its last vertex. -/
structure Search (V E : Type*) where
  marks : V → Option Mark
  stack : List V
  ordered : List V
  reports : List E

/-- Before anything is visited. -/
def Search.start : Search V E := ⟨fun _ => none, [], [], []⟩

/-- A report. -/
def Search.report (s : Search V E) (e : E) : Search V E := { s with reports := s.reports ++ [e] }

section Visit

variable [DecidableEq V]

/-- A vertex goes onto the stack. -/
def Search.enter (s : Search V E) (v : V) : Search V E :=
  { s with marks := Function.update s.marks v (some .visiting), stack := s.stack ++ [v] }

/-- The top of the stack is done. -/
def Search.leave (s : Search V E) (v : V) : Search V E :=
  { s with
    marks := Function.update s.marks v (some .resolved)
    stack := s.stack.dropLast
    ordered := if v ∈ s.ordered then s.ordered else s.ordered ++ [v] }

/-- The visit of a vertex, for the sake of another one; `none` when the fuel is used
up. -/
def visit (G : Graph V E) : ℕ → V → Option V → Search V E → Option (Search V E)
  | 0, _, _, _ => none
  | fuel + 1, v, requiredBy, s =>
      match s.marks v with
      | some .resolved => some s
      | some .visiting => some (s.report (G.cycle s.stack v))
      | none =>
          match G.next v with
          | none => some (s.report (G.missing v requiredBy))
          | some deps => do
              let s ← deps.foldlM (fun s dep => visit G fuel dep (some v) s) (s.enter v)
              return s.leave v

/-- The visits of vertices, one after another. -/
def visitAll (G : Graph V E) (fuel : ℕ) (vs : List V) (requiredBy : Option V) (s : Search V E) :
    Option (Search V E) :=
  vs.foldlM (fun s v => visit G fuel v requiredBy s) s

end Visit

variable {G : Graph V E} {s s' s'' : Search V E} {v w : V} {vs : List V}

/-- A vertex requires another one. -/
def Graph.Requires (G : Graph V E) (v w : V) : Prop := ∃ deps, G.next v = some deps ∧ w ∈ deps

/-- The vertices that can be reached. -/
abbrev Graph.Reaches (G : Graph V E) : V → V → Prop := ReflTransGen G.Requires

/-- Everything that can be reached exists and lies on no cycle. -/
def Graph.Sound (G : Graph V E) (v : V) : Prop :=
  ∀ w, G.Reaches v w → G.next w ≠ none ∧ ¬TransGen G.Requires w w

/-- The list has every vertex after all it requires. -/
def Graph.Closed (G : Graph V E) (l : List V) : Prop :=
  ∀ pre v post, l = pre ++ v :: post → ∃ deps, G.next v = some deps ∧ ∀ w ∈ deps, w ∈ pre

/-- The marks tell what is on the stack and what is listed. -/
structure Search.Coherent (s : Search V E) : Prop where
  resolved : ∀ v, s.marks v = some .resolved ↔ v ∈ s.ordered
  visiting : ∀ v, s.marks v = some .visiting ↔ v ∈ s.stack
  nodup : s.ordered.Nodup

theorem Search.start_coherent : (Search.start : Search V E).Coherent :=
  ⟨fun _ => by simp [start], fun _ => by simp [start], List.nodup_nil⟩

/-- What visits of the vertices `vs` do to a search. -/
structure Visited (G : Graph V E) (vs : List V) (s s' : Search V E) : Prop where
  stack : s'.stack = s.stack
  ordered : s.ordered <+: s'.ordered
  reports : s.reports <+: s'.reports
  coherent : s'.Coherent
  /-- Without a report everything is listed, in its place. -/
  clean : s'.reports = s.reports →
    (∀ v ∈ vs, v ∈ s'.ordered) ∧ (G.Closed s.ordered → G.Closed s'.ordered)
  /-- Only what can be reached is listed. -/
  reached : ∀ w ∈ s'.ordered, w ∈ s.ordered ∨ ∃ v ∈ vs, G.Reaches v w
  /-- Where nothing is wrong nothing is reported. -/
  quiet : (∀ v ∈ vs, ∀ w ∈ s.stack, TransGen G.Requires w v) → (∀ v ∈ vs, G.Sound v) →
    s'.reports = s.reports

theorem Visited.refl (h : s.Coherent) (hvs : ∀ v ∈ vs, v ∈ s.ordered) : Visited G vs s s where
  stack := rfl
  ordered := List.prefix_rfl
  reports := List.prefix_rfl
  coherent := h
  clean _ := ⟨hvs, id⟩
  reached _ hw := Or.inl hw
  quiet _ _ := rfl

/-- Visits one after another. -/
theorem Visited.cons (h : Visited G [v] s s') (h' : Visited G vs s' s'') :
    Visited G (v :: vs) s s'' where
  stack := h'.stack.trans h.stack
  ordered := h.ordered.trans h'.ordered
  reports := h.reports.trans h'.reports
  coherent := h'.coherent
  clean he := by
    have hs' : s'.reports = s.reports := by
      refine (h.reports.eq_of_length_le ?_).symm
      rw [← he]
      exact h'.reports.length_le
    obtain ⟨hmem, hclosed⟩ := h.clean hs'
    obtain ⟨hmem', hclosed'⟩ := h'.clean (he.trans hs'.symm)
    refine ⟨List.forall_mem_cons.2 ⟨?_, hmem'⟩, fun hc => hclosed' (hclosed hc)⟩
    exact h'.ordered.subset (hmem v (List.mem_singleton_self v))
  reached w hw := by
    rcases h'.reached w hw with hw | ⟨u, hu, hr⟩
    · refine (h.reached w hw).imp_right ?_
      rintro ⟨u, hu, hr⟩
      exact ⟨u, List.mem_cons.2 (Or.inl (List.mem_singleton.1 hu)), hr⟩
    · exact Or.inr ⟨u, List.mem_cons_of_mem _ hu, hr⟩
  quiet hstack hsound := by
    rw [List.forall_mem_cons] at hstack hsound
    rw [h'.quiet (by rw [h.stack]; exact hstack.2) hsound.2]
    exact h.quiet (by simpa using hstack.1) (by simpa using hsound.1)

/-- What a clean list gains at its end. -/
theorem Graph.Closed.concat {l : List V} {deps : List V} (h : G.Closed l) (hv : G.next v = some deps)
    (hdeps : ∀ w ∈ deps, w ∈ l) : G.Closed (l ++ [v]) := by
  intro pre u post he
  rcases List.eq_nil_or_concat post with rfl | ⟨post, z, rfl⟩
  · obtain ⟨rfl, hu⟩ := List.append_inj' he rfl
    obtain rfl : v = u := by simpa using hu
    exact ⟨deps, hv, hdeps⟩
  · have he : l ++ [v] = (pre ++ u :: post) ++ [z] := by simpa using he
    obtain ⟨hl, -⟩ := List.append_inj' he rfl
    exact h pre u post hl

/-- A report leaves everything else. -/
theorem Visited.report (h : s.Coherent) (e : E)
    (hq : (∀ w ∈ s.stack, TransGen G.Requires w v) → G.Sound v → False) :
    Visited G [v] s (s.report e) where
  stack := rfl
  ordered := List.prefix_rfl
  reports := List.prefix_append _ _
  coherent := ⟨h.resolved, h.visiting, h.nodup⟩
  clean he := by simp [Search.report] at he
  reached _ hw := Or.inl hw
  quiet hstack hsound := by
    rw [List.forall_mem_singleton] at hstack hsound
    exact (hq hstack hsound).elim

variable [DecidableEq V]

/-- A vertex that is entered is unmarked before. -/
theorem Search.Coherent.enter (h : s.Coherent) (hv : s.marks v = none) : (s.enter v).Coherent where
  resolved w := by
    by_cases hw : w = v
    · subst hw
      simp [Search.enter, ← h.resolved, hv]
    · simpa [Search.enter, hw] using h.resolved w
  visiting w := by
    by_cases hw : w = v
    · subst hw
      simp [Search.enter]
    · simpa [Search.enter, hw] using h.visiting w
  nodup := h.nodup

/-- **The visit of a vertex**, once what it requires has been visited. -/
theorem Visited.leave {deps : List V} (h : s.Coherent) (hv : s.marks v = none)
    (hnext : G.next v = some deps) (hdeps : Visited G deps (s.enter v) s') :
    Visited G [v] s (s'.leave v) := by
  have hstack : s'.stack = s.stack ++ [v] := hdeps.stack
  have hvisiting : s'.marks v = some .visiting := by
    rw [hdeps.coherent.visiting, hstack]
    simp
  have hnot : v ∉ s'.ordered := by
    rw [← hdeps.coherent.resolved, hvisiting]
    simp
  have hordered : (s'.leave v).ordered = s'.ordered ++ [v] := if_neg hnot
  have hfresh : v ∉ s.stack := by
    rw [← h.visiting, hv]
    simp
  have hreach (w : V) (hw : w ∈ deps) : G.Requires v w := ⟨deps, hnext, hw⟩
  refine ⟨?_, ?_, hdeps.reports, ⟨?_, ?_, ?_⟩, ?_, ?_, ?_⟩
  · simp [Search.leave, hstack]
  · rw [hordered]
    exact hdeps.ordered.trans (List.prefix_append _ _)
  · intro w
    rw [hordered]
    by_cases hw : w = v
    · subst hw
      simp [Search.leave]
    · simpa [Search.leave, hw] using hdeps.coherent.resolved w
  · intro w
    by_cases hw : w = v
    · subst hw
      simpa [Search.leave, hstack] using hfresh
    · have := hdeps.coherent.visiting w
      simpa [Search.leave, hw, hstack] using this
  · rw [hordered]
    exact List.nodup_append.2 ⟨hdeps.coherent.nodup, by simp, by rintro a ha b hb rfl; simp_all⟩
  · intro he
    obtain ⟨hmem, hclosed⟩ := hdeps.clean he
    rw [hordered]
    refine ⟨by simp, fun hc => (hclosed hc).concat hnext hmem⟩
  · intro w hw
    rw [hordered, List.mem_append, List.mem_singleton] at hw
    rcases hw with hw | rfl
    · rcases hdeps.reached w hw with hw | ⟨u, hu, hr⟩
      · exact Or.inl hw
      · exact Or.inr ⟨v, by simp, .head (hreach u hu) hr⟩
    · exact Or.inr ⟨_, by simp, .refl⟩
  · intro hpath hsound
    rw [List.forall_mem_singleton] at hpath hsound
    refine hdeps.quiet (fun u hu w hw => ?_) fun u hu w hw => ?_
    · rcases List.mem_append.1 hw with hw | hw
      · exact (hpath w hw).tail (hreach u hu)
      · exact List.mem_singleton.1 hw ▸ .single (hreach u hu)
    · exact hsound w (.head (hreach u hu) hw)

omit [DecidableEq V] in
/-- Visits of a list, when each vertex is visited. -/
theorem visited_foldlM {f : Search V E → V → Option (Search V E)}
    (hf : ∀ {s s' : Search V E} {v}, s.Coherent → f s v = some s' → Visited G [v] s s')
    (h : s.Coherent) (hs : vs.foldlM f s = some s') : Visited G vs s s' := by
  induction vs generalizing s with
  | nil =>
      obtain rfl : s = s' := by simpa using hs
      exact .refl h (by simp)
  | cons v vs ih =>
      rw [List.foldlM_cons] at hs
      obtain ⟨s₁, h₁, hs⟩ := Option.bind_eq_some_iff.1 hs
      have hv := hf h h₁
      exact hv.cons (ih hv.coherent hs)

/-- **What a visit does.** -/
theorem visited_visit {fuel : ℕ} {requiredBy : Option V} (h : s.Coherent)
    (hs : visit G fuel v requiredBy s = some s') : Visited G [v] s s' := by
  induction fuel generalizing v requiredBy s s' with
  | zero => cases hs
  | succ fuel ih =>
      rw [visit] at hs
      split at hs
      · next hm =>
          obtain rfl := Option.some.inj hs
          exact .refl h (by simpa using (h.resolved v).1 hm)
      · next hm =>
          obtain rfl := Option.some.inj hs
          refine .report h _ fun hpath hsound => ?_
          exact (hsound v .refl).2 (hpath v ((h.visiting v).1 hm))
      · next hm =>
          split at hs
          · next hn =>
              obtain rfl := Option.some.inj hs
              exact .report h _ fun _ hsound => (hsound v .refl).1 hn
          · next deps hn =>
              obtain ⟨s₁, h₁, hs⟩ := Option.bind_eq_some_iff.1 hs
              obtain rfl := Option.some.inj hs
              exact .leave h hm hn (visited_foldlM (fun hc hv => ih hc hv) (h.enter hm) h₁)

theorem visited_visitAll {fuel : ℕ} {requiredBy : Option V} (h : s.Coherent)
    (hs : visitAll G fuel vs requiredBy s = some s') : Visited G vs s s' :=
  visited_foldlM (fun hc hv => visited_visit hc hv) h hs

/-! ### The search ends -/

section Fuel

variable {fuel : ℕ} {requiredBy : Option V} {support : List V}

/-- The vertices that have no mark yet. -/
def Search.unmarked (s : Search V E) (support : List V) : List V :=
  support.filter fun v => s.marks v = none

omit [DecidableEq V] in
/-- Marks are never taken back. -/
theorem Visited.unmarked_le (h : s.Coherent) (hv : Visited G vs s s') :
    (s'.unmarked support).length ≤ (s.unmarked support).length := by
  refine (List.monotone_filter_right _ fun v hm => ?_).length_le
  simp only [decide_eq_true_eq] at hm ⊢
  rcases hmark : s.marks v with _ | _ | _
  · rfl
  · have := (hv.coherent.visiting v).2 (hv.stack ▸ (h.visiting v).1 hmark)
    rw [hm] at this
    cases this
  · have := (hv.coherent.resolved v).2 (hv.ordered.subset ((h.resolved v).1 hmark))
    rw [hm] at this
    cases this

theorem Search.unmarked_enter_lt (hv : v ∈ support) (hm : s.marks v = none) :
    ((s.enter v).unmarked support).length < (s.unmarked support).length := by
  have hsub : (s.enter v).unmarked support = (s.unmarked support).filter fun w => w ≠ v := by
    rw [unmarked, unmarked, List.filter_filter]
    refine List.filter_congr fun w _ => ?_
    by_cases hw : w = v
    · simp [enter, hw]
    · simp [enter, hw]
  rw [hsub]
  refine List.length_filter_lt_length_iff_exists.2 ⟨v, ?_, by simp⟩
  exact List.mem_filter.2 ⟨hv, by simpa using hm⟩

omit [DecidableEq V] in
/-- Visits of a list exist, when those of each vertex do. -/
theorem exists_foldlM {f : Search V E → V → Option (Search V E)}
    (hf : ∀ {s s' : Search V E} {v}, s.Coherent → f s v = some s' → Visited G [v] s s')
    (he : ∀ {s : Search V E} {v}, s.Coherent → (s.unmarked support).length < fuel →
      ∃ s', f s v = some s')
    (h : s.Coherent) (hlt : (s.unmarked support).length < fuel) :
    ∃ s', vs.foldlM f s = some s' := by
  induction vs generalizing s with
  | nil => exact ⟨s, rfl⟩
  | cons v vs ih =>
      obtain ⟨s₁, h₁⟩ := he (v := v) h hlt
      have hv := hf h h₁
      obtain ⟨s₂, h₂⟩ := ih hv.coherent ((hv.unmarked_le h).trans_lt hlt)
      exact ⟨s₂, by rw [List.foldlM_cons, h₁]; exact h₂⟩

/-- **A visit ends** with fuel for more than the vertices that are left. -/
theorem exists_visit (hG : ∀ v, G.next v ≠ none → v ∈ support) (h : s.Coherent)
    (hf : (s.unmarked support).length < fuel) : ∃ s', visit G fuel v requiredBy s = some s' := by
  induction fuel generalizing v requiredBy s with
  | zero => omega
  | succ fuel ih =>
      rw [visit]
      split
      · exact ⟨_, rfl⟩
      · exact ⟨_, rfl⟩
      · next hm =>
          split
          · exact ⟨_, rfl⟩
          · next deps hn =>
              have hlt := s.unmarked_enter_lt (hG v (by simp [hn])) hm
              obtain ⟨s₁, h₁⟩ := exists_foldlM (fun hc hv => visited_visit hc hv) ih (h.enter hm) (by omega)
              exact ⟨s₁.leave v, by rw [h₁]; rfl⟩

theorem exists_visitAll (hG : ∀ v, G.next v ≠ none → v ∈ support) (h : s.Coherent)
    (hf : (s.unmarked support).length < fuel) :
    ∃ s', visitAll G fuel vs requiredBy s = some s' :=
  exists_foldlM (fun hc hv => visited_visit hc hv) (fun hc hlt => exists_visit hG hc hlt) h hf

omit [DecidableEq V] in
theorem foldlM_mono {f g : Search V E → V → Option (Search V E)}
    (hfg : ∀ {s s' : Search V E} {v}, f s v = some s' → g s v = some s')
    (hs : vs.foldlM f s = some s') : vs.foldlM g s = some s' := by
  induction vs generalizing s with
  | nil => exact hs
  | cons v vs ih =>
      rw [List.foldlM_cons] at hs ⊢
      obtain ⟨s₁, h₁, hs⟩ := Option.bind_eq_some_iff.1 hs
      rw [hfg h₁]
      exact ih hs

/-- More fuel changes nothing. -/
theorem visit_mono {m : ℕ} (hle : fuel ≤ m)
    (hs : visit G fuel v requiredBy s = some s') : visit G m v requiredBy s = some s' := by
  induction fuel generalizing v requiredBy s s' m with
  | zero => cases hs
  | succ fuel ih =>
      obtain ⟨m, rfl⟩ : ∃ n, m = n + 1 := ⟨m - 1, by omega⟩
      rw [visit] at hs ⊢
      split at hs
      · next hm => simpa [hm] using hs
      · next hm => simpa [hm] using hs
      · next hm =>
          split at hs
          · next hn => simpa [hm, hn] using hs
          · next deps hn =>
              obtain ⟨s₁, h₁, hs⟩ := Option.bind_eq_some_iff.1 hs
              have h₂ := foldlM_mono (fun hv => ih (m := m) (by omega) hv) h₁
              exact Option.bind_eq_some_iff.2 ⟨s₁, h₂, hs⟩

theorem visitAll_mono {fuel' : ℕ} (hle : fuel ≤ fuel')
    (hs : visitAll G fuel vs requiredBy s = some s') : visitAll G fuel' vs requiredBy s = some s' :=
  foldlM_mono (fun hv => visit_mono hle hv) hs

end Fuel

/-! ### What a search without reports says -/

namespace Graph.Closed

variable {l : List V}

omit [DecidableEq V] in
/-- What a listed vertex requires is listed before it. -/
theorem mem_of_transGen {pre post : List V} (h : G.Closed l) (hl : l = pre ++ v :: post)
    (hr : TransGen G.Requires v w) : w ∈ pre := by
  induction hr using TransGen.head_induction_on generalizing pre post with
  | single hstep =>
      obtain ⟨deps, hn, hw⟩ := hstep
      obtain ⟨deps', hn', hmem⟩ := h pre _ post hl
      obtain rfl := Option.some.inj (hn.symm.trans hn')
      exact hmem _ hw
  | head hstep _ ih =>
      obtain ⟨deps, hn, hw⟩ := hstep
      obtain ⟨deps', hn', hmem⟩ := h pre _ post hl
      obtain rfl := Option.some.inj (hn.symm.trans hn')
      obtain ⟨pre₁, post₁, rfl⟩ := List.append_of_mem (hmem _ hw)
      exact List.mem_append_left _ (ih (hl.trans (List.append_assoc _ (_ :: post₁) _)))

omit [DecidableEq V] in
theorem mem_of_reaches (h : G.Closed l) (hv : v ∈ l) (hr : G.Reaches v w) : w ∈ l := by
  obtain ⟨pre, post, hl⟩ := List.append_of_mem hv
  rcases reflTransGen_iff_eq_or_transGen.1 hr with rfl | hr
  · exact hv
  · exact hl ▸ List.mem_append_left _ (h.mem_of_transGen hl hr)

omit [DecidableEq V] in
/-- **A closed list lists sound vertices.** -/
theorem sound (h : G.Closed l) (hn : l.Nodup) (hv : v ∈ l) : G.Sound v := by
  intro w hw
  obtain ⟨pre, post, hl⟩ := List.append_of_mem (h.mem_of_reaches hv hw)
  obtain ⟨deps, hnext, -⟩ := h pre w post hl
  refine ⟨by simp [hnext], fun hcycle => ?_⟩
  rw [hl, List.nodup_append] at hn
  exact hn.2.2 w (h.mem_of_transGen hl hcycle) w List.mem_cons_self rfl

end Graph.Closed

/-- **A search reports nothing exactly when nothing is wrong.** -/
theorem reports_eq_nil_iff {fuel : ℕ} (hs : visitAll G fuel vs none Search.start = some s) :
    s.reports = [] ↔ ∀ v ∈ vs, G.Sound v := by
  have hv := visited_visitAll Search.start_coherent hs
  constructor
  · intro he v hmem
    obtain ⟨hall, hclosed⟩ := hv.clean he
    exact (hclosed (by rintro pre v post h; cases pre <;> cases h)).sound hv.coherent.nodup (hall v hmem)
  · exact hv.quiet fun v _ w hw => by cases hw

/-- **What a search without reports lists.** -/
theorem ordered_of_reports_eq_nil {fuel : ℕ} (hs : visitAll G fuel vs none Search.start = some s)
    (he : s.reports = []) :
    s.ordered.Nodup ∧ G.Closed s.ordered ∧
      ∀ w, w ∈ s.ordered ↔ ∃ v ∈ vs, G.Reaches v w := by
  have hv := visited_visitAll Search.start_coherent hs
  obtain ⟨hall, hclosed⟩ := hv.clean he
  have hclosed : G.Closed s.ordered :=
    hclosed (by rintro pre v post h; cases pre <;> cases h)
  refine ⟨hv.coherent.nodup, hclosed, fun w => ⟨fun hw => ?_, ?_⟩⟩
  · rcases hv.reached w hw with hw | hw
    · cases hw
    · exact hw
  · rintro ⟨v, hmem, hr⟩
    exact hclosed.mem_of_reaches (hall v hmem) hr

end DepthFirst
end Hegira
