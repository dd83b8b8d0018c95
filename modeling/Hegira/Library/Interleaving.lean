/-
# Requests served side by side

A `Site` answers requests with programs that share one store.  A configuration
holds the store and every request that has arrived, each with the program that is
left of it and the calls it has made (`Flight`).  In a step a request arrives, one
flight makes its next call, or the store drifts by itself (its clock moves, say);
a request that is dropped or whose process dies is a flight that is not heard of
again.  So a run is any interleaving, at the calls, of any number of requests.

Steps may be restricted by `allow`, a condition on the configuration and the
flight about to move.  An invariant of the store needs only the calls
(`Reaches.store_invariant`), and one of a flight only its own
(`Reaches.flight_invariant`): whatever the others do in between, a flight sees its
program answered call by call (`Reaches.heard`).
-/

import Mathlib.Algebra.Ring.Nat
import Mathlib.Data.List.Basic
import Mathlib.Logic.Relation
import Mathlib.Order.Defs.PartialOrder
import Hegira.Library.Program

namespace Hegira

/-- A request, the program that is left of it and the calls it has made. -/
structure Flight (Q C : Type) (R : C → Type) (α σ : Type) where
  request : Q
  rest : Program C R α
  log : List (Event C R σ)

/-- The programs that serve requests, and the store they share. -/
structure Site (Q C : Type) (R : C → Type) (α σ : Type) where
  serve : Q → Program C R α
  answer : σ → (c : C) → R c → σ → Prop
  drift : σ → σ → Prop

/-- The store, and the requests in the order of their arrival. -/
structure Config (Q C : Type) (R : C → Type) (α σ : Type) where
  store : σ
  flights : List (Flight Q C R α σ)

variable {Q C : Type} {R : C → Type} {α σ : Type}

/-- A request as it arrives. -/
def Site.arrival (S : Site Q C R α σ) (q : Q) : Flight Q C R α σ := ⟨q, S.serve q, []⟩

/-- One step of a site; before a call, `allow` is asked of the configuration and
of the position of the flight that makes it. -/
inductive Step (S : Site Q C R α σ) (allow : Config Q C R α σ → Nat → Prop) :
    Config Q C R α σ → Config Q C R α σ → Prop
  | arrive (s : σ) (fs : List (Flight Q C R α σ)) (q : Q) :
      Step S allow ⟨s, fs⟩ ⟨s, fs ++ [S.arrival q]⟩
  | call {s s' : σ} {fs : List (Flight Q C R α σ)} {i : Nat} {q : Q} {c : C}
      {next : R c → Program C R α} {log : List (Event C R σ)} {r : R c}
      (hi : fs[i]? = some ⟨q, .call c next, log⟩) (ha : allow ⟨s, fs⟩ i)
      (he : S.answer s c r s') :
      Step S allow ⟨s, fs⟩ ⟨s', fs.set i ⟨q, next r, log ++ [⟨s, c, r, s'⟩]⟩⟩
  | drift {s s' : σ} (fs : List (Flight Q C R α σ)) (hd : S.drift s s') :
      Step S allow ⟨s, fs⟩ ⟨s', fs⟩

/-- The second configuration follows the first in some run. -/
abbrev Reaches (S : Site Q C R α σ) (allow : Config Q C R α σ → Nat → Prop) :
    Config Q C R α σ → Config Q C R α σ → Prop :=
  Relation.ReflTransGen (Step S allow)

/-- Every step is allowed. -/
def AnyStep : Config Q C R α σ → Nat → Prop := fun _ _ => True

section Reaches

variable {S : Site Q C R α σ} {allow : Config Q C R α σ → Nat → Prop}
  {cfg cfg' : Config Q C R α σ}

/-- **A store invariant of every call holds in every run.** -/
theorem Reaches.store_invariant {I : σ → Prop} (hr : Reaches S allow cfg cfg')
    (hcall : ∀ s c r s', I s → S.answer s c r s' → I s')
    (hdrift : ∀ s s', I s → S.drift s s' → I s') (h : I cfg.store) : I cfg'.store := by
  induction hr with
  | refl => exact h
  | tail _ hs ih =>
      cases hs with
      | arrive s fs q => exact ih
      | call hi ha he => exact hcall _ _ _ _ ih he
      | drift fs hd => exact hdrift _ _ ih hd

/-- **What every flight keeps by its own calls holds of every flight.** -/
theorem Reaches.flight_invariant {P : Flight Q C R α σ → Prop} (hr : Reaches S allow cfg cfg')
    (harrive : ∀ q, P (S.arrival q))
    (hcall : ∀ s c r s' q next log fs (i : Nat), P ⟨q, .call c next, log⟩ →
      Reaches S allow cfg ⟨s, fs⟩ → allow ⟨s, fs⟩ i → fs[i]? = some ⟨q, .call c next, log⟩ →
      S.answer s c r s' → P ⟨q, next r, log ++ [⟨s, c, r, s'⟩]⟩)
    (h : ∀ f ∈ cfg.flights, P f) : ∀ f ∈ cfg'.flights, P f := by
  induction hr with
  | refl => exact h
  | tail hr₁ hs ih =>
      cases hs with
      | arrive s fs q =>
          intro f hf
          rcases List.mem_append.1 hf with hf | hf
          · exact ih f hf
          · rw [List.mem_singleton] at hf
            exact hf ▸ harrive q
      | call hi ha he =>
          intro f hf
          rcases List.mem_or_eq_of_mem_set hf with hf | rfl
          · exact ih f hf
          · exact hcall _ _ _ _ _ _ _ _ _ (ih _ (List.mem_of_getElem? hi)) hr₁ ha hi he
      | drift fs hd => exact ih

/-- A flight stays where it is, with its request, and its log only grows. -/
theorem Reaches.persists (hr : Reaches S allow cfg cfg') {i : Nat} {f : Flight Q C R α σ}
    (hi : cfg.flights[i]? = some f) :
    ∃ f', cfg'.flights[i]? = some f' ∧ f'.request = f.request ∧ f.log <+: f'.log := by
  induction hr with
  | refl => exact ⟨f, hi, rfl, List.prefix_rfl⟩
  | tail _ hs ih =>
      obtain ⟨f', hf', hq, hp⟩ := ih
      cases hs with
      | arrive s fs q =>
          refine ⟨f', ?_, hq, hp⟩
          rw [List.getElem?_append_left (List.getElem?_eq_some_iff.1 hf').1]
          exact hf'
      | @call s s' fs j q c next log r hj ha he =>
          by_cases hij : j = i
          · subst hij
            obtain rfl : f' = ⟨q, .call c next, log⟩ := Option.some.inj (hf'.symm.trans hj)
            refine ⟨_, List.getElem?_set_self (List.getElem?_eq_some_iff.1 hf').1, hq, ?_⟩
            exact hp.trans (List.prefix_append _ _)
          · exact ⟨f', by rw [List.getElem?_set_ne hij]; exact hf', hq, hp⟩
      | drift fs hd => exact ⟨f', hf', hq, hp⟩

theorem Reaches.mem_persists (hr : Reaches S allow cfg cfg') {f : Flight Q C R α σ}
    (hf : f ∈ cfg.flights) :
    ∃ f' ∈ cfg'.flights, f'.request = f.request ∧ f.log <+: f'.log := by
  obtain ⟨i, hi⟩ := List.mem_iff_getElem?.1 hf
  obtain ⟨f', hf', h⟩ := hr.persists hi
  exact ⟨f', List.mem_of_getElem? hf', h⟩

end Reaches

/-- The flights after a call: the one that moved, and the others. -/
theorem getElem?_set_cases {fs : List (Flight Q C R α σ)} {i j : Nat} {f f' g : Flight Q C R α σ}
    (hi : fs[i]? = some f) (hj : (fs.set i f')[j]? = some g) :
    (j = i ∧ g = f') ∨ j ≠ i ∧ fs[j]? = some g := by
  by_cases hij : j = i
  · subst hij
    rw [List.getElem?_set_self (List.getElem?_eq_some_iff.1 hi).1] at hj
    exact Or.inl ⟨rfl, (Option.some.inj hj).symm⟩
  · rw [List.getElem?_set_ne (Ne.symm hij)] at hj
    exact Or.inr ⟨hij, hj⟩

theorem mem_set_cases {fs : List (Flight Q C R α σ)} {i : Nat} {f f' g : Flight Q C R α σ}
    (hi : fs[i]? = some f) (hg : g ∈ fs.set i f') : g = f' ∨ ∃ j, j ≠ i ∧ fs[j]? = some g := by
  obtain ⟨j, hj⟩ := List.mem_iff_getElem?.1 hg
  rcases getElem?_set_cases hi hj with ⟨-, h⟩ | ⟨hji, h⟩
  · exact Or.inl h
  · exact Or.inr ⟨j, hji, h⟩

/-! ### What one flight sees -/

/-- A call as a flight sees it: the store may have been changed by others since its
last call, and the event joins its log. -/
def Heard (answer : σ → (c : C) → R c → σ → Prop) (log : List (Event C R σ)) (c : C) (r : R c)
    (log' : List (Event C R σ)) : Prop :=
  ∃ s s', answer s c r s' ∧ log' = log ++ [⟨s, c, r, s'⟩]

/-- A contract holds of every flight, when every call a flight makes is one that the
contract expects. -/
theorem Reaches.heard_of {S : Site Q C R α σ} {allow : Config Q C R α σ → Nat → Prop}
    {cfg cfg' : Config Q C R α σ} (hr : Reaches S allow cfg cfg')
    (env : Q → List (Event C R σ) → (c : C) → R c → List (Event C R σ) → Prop)
    (ev : Q → Event C R (List (Event C R σ)) → Prop)
    (post : Q → α → List (Event C R σ) → Prop)
    (henv : ∀ s fs (i : Nat) q c next log r s', allow ⟨s, fs⟩ i →
      fs[i]? = some ⟨q, .call c next, log⟩ → S.answer s c r s' →
      env q log c r (log ++ [⟨s, c, r, s'⟩]))
    (hserve : ∀ q, Meets (env q) (ev q) (post q) (S.serve q) [])
    (h : ∀ f ∈ cfg.flights, Meets (env f.request) (ev f.request) (post f.request) f.rest f.log) :
    ∀ f ∈ cfg'.flights,
      Meets (env f.request) (ev f.request) (post f.request) f.rest f.log := by
  refine hr.flight_invariant hserve ?_ h
  intro s c r s' q next log fs i hm _ ha hi he
  exact (hm r _ (henv s fs i q c next log r s' ha hi he)).2

/-- **A contract of the program alone holds of every flight.** -/
theorem Reaches.heard {S : Site Q C R α σ} {allow : Config Q C R α σ → Nat → Prop}
    {cfg cfg' : Config Q C R α σ} (hr : Reaches S allow cfg cfg')
    {ev : Q → Event C R (List (Event C R σ)) → Prop}
    {post : Q → α → List (Event C R σ) → Prop}
    (hserve : ∀ q, Meets (Heard S.answer) (ev q) (post q) (S.serve q) [])
    (h : ∀ f ∈ cfg.flights, Meets (Heard S.answer) (ev f.request) (post f.request) f.rest f.log) :
    ∀ f ∈ cfg'.flights,
      Meets (Heard S.answer) (ev f.request) (post f.request) f.rest f.log :=
  hr.heard_of (fun _ => Heard S.answer) ev post (fun s _ _ _ _ _ _ _ s' _ _ he => ⟨s, s', he, rfl⟩) hserve h

/-- Every event of a log satisfies `ev`, each with the log before it. -/
def Told (ev : Event C R (List (Event C R σ)) → Prop) (log : List (Event C R σ)) : Prop :=
  ∀ pre e post, log = pre ++ e :: post → ev ⟨pre, e.call, e.reply, pre ++ [e]⟩

theorem Told.concat {ev : Event C R (List (Event C R σ)) → Prop} {log : List (Event C R σ)}
    {e : Event C R σ} (h : Told ev log) (he : ev ⟨log, e.call, e.reply, log ++ [e]⟩) :
    Told ev (log ++ [e]) := by
  intro pre e' post heq
  rcases List.eq_nil_or_concat' post with rfl | ⟨post', e'', rfl⟩
  · obtain ⟨rfl, hlast⟩ := List.append_inj' heq rfl
    obtain rfl : e = e' := List.head_eq_of_cons_eq hlast
    exact he
  · rw [← List.cons_append, ← List.append_assoc] at heq
    exact h pre e' post' (List.append_inj' heq rfl).1

/-- **A contract holds of the log of every flight.** -/
theorem Reaches.told {S : Site Q C R α σ} {allow : Config Q C R α σ → Nat → Prop}
    {cfg cfg' : Config Q C R α σ} (hr : Reaches S allow cfg cfg')
    (ev : Event C R (List (Event C R σ)) → Prop)
    (hserve : ∀ q, Meets (Heard S.answer) ev (fun _ _ => True) (S.serve q) [])
    (h : cfg.flights = []) : ∀ f ∈ cfg'.flights, Told ev f.log := by
  have hinv : ∀ f ∈ cfg'.flights,
      Told ev f.log ∧ Meets (Heard S.answer) ev (fun _ _ => True) f.rest f.log := by
    refine hr.flight_invariant (P := fun f => Told ev f.log ∧
      Meets (Heard S.answer) ev (fun _ _ => True) f.rest f.log) ?_ ?_ (by simp [h])
    · exact fun q => ⟨fun pre e post heq => by simp [Site.arrival] at heq, hserve q⟩
    · rintro s c r s' q next log fs i ⟨ht, hm⟩ _ _ _ he
      obtain ⟨hev, hrest⟩ := hm r _ ⟨s, s', he, rfl⟩
      exact ⟨ht.concat hev, hrest⟩
  exact fun f hf => (hinv f hf).1

/-! ### What a flight relies on -/

/-- **Each keeps what the others rely on.**  `I` holds of the store and `K` of every
flight and the store, when a call keeps `I`, gives `K` of its own flight and leaves
`K` of the others. -/
theorem Reaches.rely {S : Site Q C R α σ} {allow : Config Q C R α σ → Nat → Prop}
    {cfg cfg' : Config Q C R α σ} {I : σ → Prop} {K : Flight Q C R α σ → σ → Prop}
    (hr : Reaches S allow cfg cfg') (harrive : ∀ q s, I s → K (S.arrival q) s)
    (hcall : ∀ s c r s' q next log fs (i : Nat), Reaches S allow cfg ⟨s, fs⟩ →
      allow ⟨s, fs⟩ i → fs[i]? = some ⟨q, .call c next, log⟩ → S.answer s c r s' →
      I s → K ⟨q, .call c next, log⟩ s →
        I s' ∧ K ⟨q, next r, log ++ [⟨s, c, r, s'⟩]⟩ s' ∧
          ∀ (j : Nat) g, j ≠ i → fs[j]? = some g → K g s → K g s')
    (hdrift : ∀ s s', S.drift s s' → I s → I s' ∧ ∀ f, K f s → K f s')
    (hI : I cfg.store) (hK : ∀ f ∈ cfg.flights, K f cfg.store) :
    I cfg'.store ∧ ∀ f ∈ cfg'.flights, K f cfg'.store := by
  induction hr with
  | refl => exact ⟨hI, hK⟩
  | tail hr₁ hs ih =>
      obtain ⟨hi₁, hk₁⟩ := ih
      cases hs with
      | arrive s fs q =>
          refine ⟨hi₁, fun f hf => ?_⟩
          rcases List.mem_append.1 hf with hf | hf
          · exact hk₁ f hf
          · rw [List.mem_singleton.1 hf]
            exact harrive q s hi₁
      | drift fs hd =>
          obtain ⟨hi', hk'⟩ := hdrift _ _ hd hi₁
          exact ⟨hi', fun f hf => hk' f (hk₁ f hf)⟩
      | call hi ha he =>
          obtain ⟨hi', hown, hothers⟩ := hcall _ _ _ _ _ _ _ _ _ hr₁ ha hi he hi₁
            (hk₁ _ (List.mem_of_getElem? hi))
          refine ⟨hi', fun f hf => ?_⟩
          rcases mem_set_cases hi hf with rfl | ⟨j, hji, hj⟩
          · exact hown
          · exact hothers j f hji hj (hk₁ f (List.mem_of_getElem? hj))

/-! ### Times -/

/-- **A measure that never falls orders every log.**  What a flight has seen lies in the
past, and one call before the next. -/
theorem Reaches.rises {S : Site Q C R α σ} {allow : Config Q C R α σ → Nat → Prop}
    {cfg cfg' : Config Q C R α σ} {β : Type} [Preorder β] {μ : σ → β}
    (hr : Reaches S allow cfg cfg') (hcall : ∀ s c r s', S.answer s c r s' → μ s ≤ μ s')
    (hdrift : ∀ s s', S.drift s s' → μ s ≤ μ s') (h : cfg.flights = []) :
    ∀ f ∈ cfg'.flights, f.log.Pairwise (fun e e' => μ e.after ≤ μ e'.before) ∧
      ∀ e ∈ f.log, μ e.before ≤ μ e.after ∧ μ e.after ≤ μ cfg'.store := by
  refine (hr.rely (I := fun _ => True) (K := fun f s =>
    f.log.Pairwise (fun e e' => μ e.after ≤ μ e'.before) ∧
      ∀ e ∈ f.log, μ e.before ≤ μ e.after ∧ μ e.after ≤ μ s) ?_ ?_ ?_ trivial (by simp [h])).2
  · exact fun q s _ => ⟨.nil, nofun⟩
  · rintro s c r s' q next log fs i _ _ hi he _ ⟨hsorted, hpast⟩
    have hle := hcall s c r s' he
    refine ⟨trivial, ⟨?_, ?_⟩, ?_⟩
    · refine List.pairwise_append.2 ⟨hsorted, List.pairwise_singleton _ _, ?_⟩
      intro e hmem e' he'
      rw [List.mem_singleton.1 he']
      exact (hpast e hmem).2
    · intro e hmem
      rcases List.mem_append.1 hmem with hmem | hmem
      · exact ⟨(hpast e hmem).1, le_trans (hpast e hmem).2 hle⟩
      · rw [List.mem_singleton.1 hmem]
        exact ⟨hle, le_refl _⟩
    · exact fun j g _ _ hg => ⟨hg.1, fun e hmem => ⟨(hg.2 e hmem).1, le_trans (hg.2 e hmem).2 hle⟩⟩
  · exact fun s s' hd _ => ⟨trivial, fun f hf =>
      ⟨hf.1, fun e hmem => ⟨(hf.2 e hmem).1, le_trans (hf.2 e hmem).2 (hdrift s s' hd)⟩⟩⟩

/-! ### Where the contents of the store come from -/

/-- One of the flights has made a call that puts `n` into the store. -/
def PutBy {ν : Type} (put : C → ν → Prop) (fs : List (Flight Q C R α σ)) (n : ν) : Prop :=
  ∃ f ∈ fs, ∃ e ∈ f.log, put e.call n

theorem PutBy.step {S : Site Q C R α σ} {allow : Config Q C R α σ → Nat → Prop}
    {cfg cfg' : Config Q C R α σ} {ν : Type} {put : C → ν → Prop} {n : ν}
    (h : PutBy put cfg.flights n) (hs : Step S allow cfg cfg') : PutBy put cfg'.flights n := by
  obtain ⟨f, hf, e, he, hput⟩ := h
  obtain ⟨f', hf', -, hpre⟩ := Reaches.mem_persists (.single hs) hf
  exact ⟨f', hf', e, hpre.subset he, hput⟩

/-- **What is in the store was put there by a call.**  `P` is what the store may hold of
the values `n`, and `put` tells that a call puts `n` there. -/
theorem Reaches.put {S : Site Q C R α σ} {allow : Config Q C R α σ → Nat → Prop}
    {cfg cfg' : Config Q C R α σ} {ν : Type} (hr : Reaches S allow cfg cfg')
    (P : σ → ν → Prop) (put : C → ν → Prop)
    (hcall : ∀ s c r s' n, S.answer s c r s' → P s' n → P s n ∨ put c n)
    (hdrift : ∀ s s' n, S.drift s s' → P s' n → P s n)
    (hflights : cfg.flights = []) (hstore : ∀ n, ¬P cfg.store n) {n : ν} :
    (P cfg'.store n → PutBy put cfg'.flights n) ∧
      ∀ g ∈ cfg'.flights, ∀ e ∈ g.log, P e.before n → PutBy put cfg'.flights n := by
  induction hr with
  | refl =>
      rw [hflights]
      exact ⟨fun hn => absurd hn (hstore n), nofun⟩
  | tail hr₁ hs ih =>
      have hgrows : PutBy put _ n → PutBy put _ n := fun h => h.step hs
      cases hs with
      | arrive s fs q =>
          refine ⟨fun hn => hgrows (ih.1 hn), fun g hg e he hn => ?_⟩
          rcases List.mem_append.1 hg with hg | hg
          · exact hgrows (ih.2 g hg e he hn)
          · rw [List.mem_singleton.1 hg] at he
            cases he
      | drift fs hd =>
          exact ⟨fun hn => hgrows (ih.1 (hdrift _ _ n hd hn)), fun g hg e he hn =>
            hgrows (ih.2 g hg e he hn)⟩
      | @call s s' fs i q c next log r hi ha he =>
          refine ⟨fun hn => ?_, fun g hg e hmem hn => ?_⟩
          · rcases hcall _ _ _ _ n he hn with hn | hput
            · exact hgrows (ih.1 hn)
            · exact ⟨_, List.mem_set (List.getElem?_eq_some_iff.1 hi).1 _, ⟨s, c, r, s'⟩,
                List.mem_append_right _ List.mem_cons_self, hput⟩
          · rcases mem_set_cases hi hg with rfl | ⟨j, -, hj⟩
            · rcases List.mem_append.1 hmem with hmem | hmem
              · exact hgrows (ih.2 _ (List.mem_of_getElem? hi) e hmem hn)
              · rw [List.mem_singleton.1 hmem] at hn
                exact hgrows (ih.1 hn)
            · exact hgrows (ih.2 g (List.mem_of_getElem? hj) e hmem hn)

/-! ### What the flights add up to -/

/-- What the calls of a log have added to a measure of the store. -/
def added (μ : σ → Nat) (log : List (Event C R σ)) : Nat :=
  (log.map fun e => μ e.after - μ e.before).sum

@[simp] theorem added_nil (μ : σ → Nat) : added μ ([] : List (Event C R σ)) = 0 := rfl

@[simp] theorem added_concat (μ : σ → Nat) (log : List (Event C R σ)) (e : Event C R σ) :
    added μ (log ++ [e]) = added μ log + (μ e.after - μ e.before) := by
  simp [added]

theorem exists_of_added_pos {μ : σ → Nat} {log : List (Event C R σ)} (h : 0 < added μ log) :
    ∃ e ∈ log, μ e.before < μ e.after := by
  induction log with
  | nil => cases h
  | cons e log ih =>
      by_cases he : μ e.before < μ e.after
      · exact ⟨e, List.mem_cons_self, he⟩
      · have hlog : added μ (e :: log) = (μ e.after - μ e.before) + added μ log := List.sum_cons
        obtain ⟨e', he', hlt⟩ := ih (by omega)
        exact ⟨e', List.mem_cons_of_mem _ he', hlt⟩

theorem sum_map_le_countP {β : Type} {m : β → Nat} {p : β → Bool} {l : List β}
    (h : ∀ a ∈ l, m a ≤ 1 ∧ (0 < m a → p a = true)) : (l.map m).sum ≤ l.countP p := by
  induction l with
  | nil => exact Nat.le_refl _
  | cons a l ih =>
      obtain ⟨⟨hle, hp⟩, hl⟩ := List.forall_mem_cons.1 h
      have := ih hl
      rw [List.map_cons, List.sum_cons, List.countP_cons]
      by_cases ha : 0 < m a
      · rw [hp ha, if_pos rfl]
        omega
      · split <;> omega

theorem sum_map_set {β : Type} (m : β → Nat) {l : List β} {i : Nat} {a a' : β} (hi : l[i]? = some a)
    {d : Nat} (h : m a' = m a + d) : ((l.set i a').map m).sum = (l.map m).sum + d := by
  induction l generalizing i with
  | nil => cases hi
  | cons b l ih =>
      cases i with
      | zero =>
          obtain rfl : b = a := Option.some.inj hi
          simp only [List.set_cons_zero, List.map_cons, List.sum_cons]
          omega
      | succ i =>
          have := ih (i := i) hi
          simp only [List.set_cons_succ, List.map_cons, List.sum_cons]
          omega

/-- **A measure that only calls add to is what the logs have added to it.** -/
theorem Reaches.accounts {S : Site Q C R α σ} {allow : Config Q C R α σ → Nat → Prop}
    {cfg cfg' : Config Q C R α σ} (μ : σ → Nat) (hr : Reaches S allow cfg cfg')
    (hcall : ∀ s c r s', S.answer s c r s' → μ s ≤ μ s')
    (hdrift : ∀ s s', S.drift s s' → μ s' = μ s) (h : cfg.flights = []) :
    μ cfg'.store = μ cfg.store + (cfg'.flights.map fun f => added μ f.log).sum := by
  induction hr with
  | refl => simp [h]
  | tail _ hs ih =>
      cases hs with
      | arrive s fs q =>
          rw [ih, List.map_append, List.sum_append]
          simp [Site.arrival]
      | drift fs hd => rw [hdrift _ _ hd, ih]
      | @call s s' fs i q c next log r hi ha he =>
          have hle := hcall _ _ _ _ he
          have hlog : added μ (⟨q, next r, log ++ [⟨s, c, r, s'⟩]⟩ : Flight Q C R α σ).log =
              added μ log + (μ s' - μ s) := added_concat μ log _
          have hsum := sum_map_set (fun f : Flight Q C R α σ => added μ f.log) hi hlog
          dsimp only at ih hsum ⊢
          omega

/-! ### What only one flight has -/

/-- Flights own names (locks they hold, values only they know): an owned name is
taken in the store, and no two flights own one name. -/
structure Exclusive {ν : Type} (owns : Flight Q C R α σ → ν → Prop) (taken : σ → ν → Prop)
    (cfg : Config Q C R α σ) : Prop where
  taken : ∀ f ∈ cfg.flights, ∀ n, owns f n → taken cfg.store n
  unique : ∀ (i j : Nat) (f g : Flight Q C R α σ) (n : ν), cfg.flights[i]? = some f →
    cfg.flights[j]? = some g → owns f n → owns g n → i = j

/-- How a call of `f` may change what its flight owns: it keeps some of it, and what
it gains was not taken; what others have taken stays so. -/
structure Trades {ν : Type} (owns : Flight Q C R α σ → ν → Prop) (taken : σ → ν → Prop)
    (f f' : Flight Q C R α σ) (s s' : σ) : Prop where
  owned : ∀ n, owns f' n → (owns f n ∧ (taken s n → taken s' n)) ∨ ¬taken s n ∧ taken s' n
  others : ∀ n, taken s n → ¬owns f n → taken s' n

/-- **A name is taken before it is owned, so it has one owner.** -/
theorem Reaches.exclusive {S : Site Q C R α σ} {allow : Config Q C R α σ → Nat → Prop}
    {cfg cfg' : Config Q C R α σ} {ν : Type} {owns : Flight Q C R α σ → ν → Prop}
    {taken : σ → ν → Prop} (hr : Reaches S allow cfg cfg')
    (harrive : ∀ q n, ¬owns (S.arrival q) n)
    (hcall : ∀ s c r s' q next log fs (i : Nat), Reaches S allow cfg ⟨s, fs⟩ →
      allow ⟨s, fs⟩ i → fs[i]? = some ⟨q, .call c next, log⟩ → S.answer s c r s' →
      Trades owns taken ⟨q, .call c next, log⟩ ⟨q, next r, log ++ [⟨s, c, r, s'⟩]⟩ s s')
    (hdrift : ∀ s s' n, S.drift s s' → taken s n → taken s' n)
    (h : Exclusive owns taken cfg) : Exclusive owns taken cfg' := by
  induction hr with
  | refl => exact h
  | tail hr₁ hs ih =>
      cases hs with
      | arrive s fs q =>
          refine ⟨?_, ?_⟩
          · intro f hf n hn
            rcases List.mem_append.1 hf with hf | hf
            · exact ih.taken f hf n hn
            · rw [List.mem_singleton.1 hf] at hn
              exact absurd hn (harrive q n)
          · have hlt : ∀ (i : Nat) (f : Flight Q C R α σ) (n : ν),
                (fs ++ [S.arrival q])[i]? = some f → owns f n → fs[i]? = some f := by
              intro i f n hi hn
              rcases Nat.lt_or_ge i fs.length with hlt | hge
              · rwa [List.getElem?_append_left hlt] at hi
              · rw [List.getElem?_append_right hge, List.getElem?_singleton] at hi
                split at hi
                · exact absurd (Option.some.inj hi ▸ hn) (harrive q n)
                · cases hi
            intro i j f g n hi hj hf hg
            exact ih.unique i j f g n (hlt i f n hi hf) (hlt j g n hj hg) hf hg
      | drift fs hd =>
          exact ⟨fun f hf n hn => hdrift _ _ n hd (ih.taken f hf n hn), ih.unique⟩
      | @call s s' fs i q c next log r hi ha he =>
          have ht := hcall s c r s' q next log fs i hr₁ ha hi he
          -- what another flight owns, this one neither owned nor gains
          have hother : ∀ (j : Nat) (g : Flight Q C R α σ) (n : ν), j ≠ i → fs[j]? = some g →
              owns g n → taken s n ∧ ¬owns ⟨q, .call c next, log⟩ n := fun j g n hj hg hn =>
            ⟨ih.taken g (List.mem_of_getElem? hg) n hn,
              fun hn' => hj (ih.unique j i g _ n hg hi hn hn')⟩
          refine ⟨?_, ?_⟩
          · intro f hf n hn
            obtain ⟨j, hj⟩ := List.mem_iff_getElem?.1 hf
            rcases getElem?_set_cases hi hj with ⟨rfl, rfl⟩ | ⟨hij, hj⟩
            · rcases ht.owned n hn with ⟨ho, hkeep⟩ | ⟨-, htaken⟩
              · exact hkeep (ih.taken _ (List.mem_of_getElem? hi) n ho)
              · exact htaken
            · exact ht.others n (hother j f n hij hj hn).1 (hother j f n hij hj hn).2
          · have hnew : ∀ (j : Nat) (g : Flight Q C R α σ) (n : ν), j ≠ i → fs[j]? = some g →
                owns g n → ¬owns ⟨q, next r, log ++ [⟨s, c, r, s'⟩]⟩ n := by
              intro j g n hj hg hn hn'
              obtain ⟨h₁, h₂⟩ := hother j g n hj hg hn
              rcases ht.owned n hn' with ⟨ho, -⟩ | ⟨hfree, -⟩
              · exact h₂ ho
              · exact hfree h₁
            intro j₁ j₂ f g n h₁ h₂ hf hg
            rcases getElem?_set_cases hi h₁ with ⟨rfl, rfl⟩ | ⟨hi₁, k₁⟩ <;>
              rcases getElem?_set_cases hi h₂ with ⟨rfl, rfl⟩ | ⟨hi₂, k₂⟩
            · rfl
            · exact absurd hf (hnew j₂ g n hi₂ k₂ hg)
            · exact absurd hg (hnew j₁ f n hi₁ k₁ hf)
            · exact ih.unique j₁ j₂ f g n k₁ k₂ hf hg

/-! ### Schedules -/

/-- A move of a schedule: a request arrives, a flight makes its next call with the
answer that `k` chooses, or the store drifts by `d`. -/
inductive Move (Q K D : Type) where
  | arrive (q : Q)
  | call (i : Nat) (k : K)
  | drift (d : D)

/-- A site whose answers are computed from choices. -/
structure Machine (Q C : Type) (R : C → Type) (α σ K D : Type) extends Site Q C R α σ where
  choose : K → σ → (c : C) → Option (R c × σ)
  choose_sound : ∀ k s c r s', choose k s c = some (r, s') → answer s c r s'
  shift : D → σ → σ
  shift_sound : ∀ d s, drift s (shift d s)

namespace Machine

variable {K D : Type} (M : Machine Q C R α σ K D)

/-- The configuration after a move, when the move can be made and `ok` permits it. -/
def move (ok : Config Q C R α σ → Nat → Bool) (cfg : Config Q C R α σ) :
    Move Q K D → Option (Config Q C R α σ)
  | .arrive q => some ⟨cfg.store, cfg.flights ++ [M.arrival q]⟩
  | .drift d => some ⟨M.shift d cfg.store, cfg.flights⟩
  | .call i k =>
      match cfg.flights[i]? with
      | some ⟨q, .call c next, log⟩ =>
          if ok cfg i then
            (M.choose k cfg.store c).map fun a =>
              ⟨a.2, cfg.flights.set i ⟨q, next a.1, log ++ [⟨cfg.store, c, a.1, a.2⟩]⟩⟩
          else none
      | _ => none

/-- The configuration after a schedule. -/
def play (ok : Config Q C R α σ → Nat → Bool) (cfg : Config Q C R α σ) :
    List (Move Q K D) → Option (Config Q C R α σ)
  | [] => some cfg
  | m :: ms => (M.move ok cfg m).bind fun cfg' => play ok cfg' ms

variable {M} {ok : Config Q C R α σ → Nat → Bool} {allow : Config Q C R α σ → Nat → Prop}
  {cfg cfg' : Config Q C R α σ}

/-- A call of a schedule is a call of the flight. -/
theorem call_of_move {i : Nat} {k : K} (h : M.move ok cfg (.call i k) = some cfg') :
    ∃ q c next log r s', cfg.flights[i]? = some ⟨q, .call c next, log⟩ ∧ ok cfg i = true ∧
      M.answer cfg.store c r s' ∧
      cfg' = ⟨s', cfg.flights.set i ⟨q, next r, log ++ [⟨cfg.store, c, r, s'⟩]⟩⟩ := by
  rw [move] at h
  split at h
  · next q c next log hi =>
      split at h
      · next ha =>
          obtain ⟨⟨r, s'⟩, hc, rfl⟩ := Option.map_eq_some_iff.1 h
          exact ⟨q, c, next, log, r, s', hi, ha, M.choose_sound k _ _ _ _ hc, rfl⟩
      · cases h
  · cases h

theorem step_of_move (hok : ∀ cfg i, ok cfg i = true → allow cfg i) {m : Move Q K D}
    (h : M.move ok cfg m = some cfg') : Step M.toSite allow cfg cfg' := by
  cases m with
  | arrive q =>
      obtain rfl := Option.some.inj h
      exact .arrive _ _ q
  | drift d =>
      obtain rfl := Option.some.inj h
      exact .drift _ (M.shift_sound d _)
  | call i k =>
      obtain ⟨q, c, next, log, r, s', hi, ha, hc, rfl⟩ := call_of_move h
      exact .call hi (hok _ _ ha) hc

/-- **A schedule that plays is a run.** -/
theorem reaches_of_play (hok : ∀ cfg i, ok cfg i = true → allow cfg i) {ms : List (Move Q K D)}
    (h : M.play ok cfg ms = some cfg') : Reaches M.toSite allow cfg cfg' := by
  induction ms generalizing cfg with
  | nil =>
      obtain rfl := Option.some.inj h
      exact .refl
  | cons m ms ih =>
      obtain ⟨cfg₁, h₁, h₂⟩ := Option.bind_eq_some_iff.1 h
      exact .head (step_of_move hok h₁) (ih h₂)

/-- A schedule that plays, and ends as `check` says. -/
theorem exists_of_play (allow : Config Q C R α σ → Nat → Prop)
    (hok : ∀ cfg i, ok cfg i = true → allow cfg i) {ms : List (Move Q K D)}
    {check : Config Q C R α σ → Bool} (h : (M.play ok cfg ms).any check = true) :
    ∃ cfg', Reaches M.toSite allow cfg cfg' ∧ check cfg' = true := by
  obtain ⟨cfg', hp, hc⟩ := (Option.any_eq_true _ _).1 h
  exact ⟨cfg', reaches_of_play hok hp, hc⟩

end Machine

end Hegira
