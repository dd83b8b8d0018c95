/-
# Where each name is put from

A call may put a name into the store: the token of a row, say.  When a flight puts
one name at most, and one that it owns (`Once`), and no two flights own a name
(`Sole`), then a name that has been put is not put again (`Sole.fresh`).  So what
the other calls keep of a name holds ever after (`Sole.since_put`), and any two
rows of one name agree, at whatever times (`Sole.agree_later`).
-/

import Mathlib.Data.List.Basic
import Hegira.Library.Interleaving

namespace Hegira

variable {ε Q C : Type} {R : C → Type} {α β σ ι ν : Type}

/-- Nothing has been put. -/
def Quiet (puts : C → Option ι) (log : List (Event C R σ)) : Prop := ∀ e ∈ log, puts e.call = none

/-- A call that puts something is the first to do so, and the log backs what it puts. -/
def Once (puts : C → Option ι) (backed : ι → List (Event C R σ) → Prop)
    (e : Event C R (List (Event C R σ))) : Prop :=
  ∀ a, puts e.call = some a → Quiet puts e.before ∧ backed a e.before

/-! ### Programs that put once -/

section Programs

variable {answer : σ → (c : C) → R c → σ → Prop} {puts : C → Option ι}
  {backed : ι → List (Event C R σ) → Prop} {log : List (Event C R σ)}

/-- What is left of a flight puts once. -/
structure PutsOnce (answer : σ → (c : C) → R c → σ → Prop) (puts : C → Option ι)
    (backed : ι → List (Event C R σ) → Prop) (p : Fallible ε C R α) (log : List (Event C R σ)) :
    Prop where
  spec : p.Spec (Heard answer) (Once puts backed) (fun _ _ => True) log

/-- Nothing was put at the start. -/
theorem quiet_nil : Quiet puts ([] : List (Event C R σ)) := List.forall_mem_nil _

/-- A call that puts nothing keeps it so. -/
theorem Quiet.concat (h : Quiet puts log) {e : Event C R σ} (he : puts e.call = none) :
    Quiet puts (log ++ [e]) := by
  intro e' he'
  rcases List.mem_append.1 he' with he' | he'
  · exact h e' he'
  · rw [List.mem_singleton.1 he']
    exact he

/-- Such a call needs no backing. -/
theorem once_of_none {e : Event C R (List (Event C R σ))} (h : puts e.call = none) :
    Once puts backed e := by
  intro a ha
  cases h.symm.trans ha

/-- A value puts nothing. -/
theorem PutsOnce.pure {a : α} : PutsOnce answer puts backed (Pure.pure a : Fallible ε C R α) log :=
  ⟨Fallible.spec_pure.2 trivial⟩

theorem PutsOnce.throw {e : ε} :
    PutsOnce answer puts backed (throw e : Fallible ε C R α) log := ⟨Fallible.spec_throw⟩

/-- A branch puts what the side that is taken puts. -/
theorem PutsOnce.ite {b : Prop} [Decidable b] {p q : Fallible ε C R α}
    (hp : PutsOnce answer puts backed p log) (hq : PutsOnce answer puts backed q log) :
    PutsOnce answer puts backed (if b then p else q) log := by
  split <;> assumption

/-- Both parts of a sequence put backed values, and one of them at most. -/
theorem PutsOnce.bind {p : Fallible ε C R β} {f : β → Fallible ε C R α}
    (hp : PutsOnce answer puts backed p log)
    (hf : ∀ b log', PutsOnce answer puts backed (f b) log') :
    PutsOnce answer puts backed (p >>= f) log :=
  ⟨Fallible.spec_bind.2 (hp.spec.imp fun b log' _ => (hf b log').spec)⟩

/-- A function of the result puts nothing. -/
theorem PutsOnce.map {p : Fallible ε C R β} {f : β → α} (hp : PutsOnce answer puts backed p log) :
    PutsOnce answer puts backed (f <$> p) log :=
  ⟨Fallible.spec_map.2 hp.spec⟩

namespace Fallible
namespace Makes

variable {p : Fallible ε C R β} {ok : C → Prop}

/-- A part that puts nothing leaves the log quiet. -/
theorem quiet (hp : p.Makes ok) (hok : ∀ c, ok c → puts c = none) (hlog : Quiet puts log) :
    p.Spec (Heard answer) (Once puts backed) (fun _ log' => Quiet puts log') log := by
  have honce : Meets (Heard answer) (Once puts backed) (fun _ _ => True) p.run log :=
    hp.only.meets (fun _ c _ _ hc _ => once_of_none (hok c hc)) log
  have hquiet : Meets (Heard answer) (fun e => Quiet puts e.before ∧ Quiet puts e.after)
      (fun _ log => Quiet puts log) p.run log := by
    refine hp.only.meets_invariant (fun log c r log' hc he h => ?_) hlog
    obtain ⟨s, s', -, rfl⟩ := he
    exact h.concat (hok c hc)
  exact (honce.and hquiet).mono (fun _ he => he.1) fun _ _ h _ _ => h.2

/-- A program without putting calls puts nothing. -/
theorem putsOnce (hp : p.Makes ok) (hok : ∀ c, ok c → puts c = none) :
    PutsOnce answer puts backed p log := by
  have honce : Meets (Heard answer) (Once puts backed) (fun _ _ => True) p.run log :=
    hp.only.meets (fun _ c _ _ hc _ => once_of_none (hok c hc)) log
  exact ⟨honce.imp fun _ _ _ _ _ => trivial⟩

/-- A part that puts nothing, and then the rest. -/
theorem then_puts (hp : p.Makes ok) (hok : ∀ c, ok c → puts c = none) (hlog : Quiet puts log)
    {f : β → Fallible ε C R α} (hf : ∀ b log', Quiet puts log' →
      PutsOnce answer puts backed (f b) log') : PutsOnce answer puts backed (p >>= f) log :=
  ⟨Fallible.spec_bind.2 ((hp.quiet hok hlog).imp fun b log' hlog' => (hf b log' hlog').spec)⟩

end Makes
end Fallible

end Programs

/-! ### Runs -/

variable {S : Site Q C R α σ} {allow : Config Q C R α σ → Nat → Prop}
  {cfg₀ cfg cfg' : Config Q C R α σ} {puts : C → Option ι} {name : ι → ν}
  {owns : List (Event C R σ) → ν → Prop}

/-- The call puts something under the name. -/
def PutsName (puts : C → Option ι) (name : ι → ν) (c : C) (n : ν) : Prop :=
  ∃ a, puts c = some a ∧ name a = n

/-- In the runs from `cfg₀`, a flight puts one name at most, and one that it alone owns. -/
structure Sole (S : Site Q C R α σ) (allow : Config Q C R α σ → Nat → Prop)
    (cfg₀ : Config Q C R α σ) (puts : C → Option ι) (name : ι → ν)
    (owns : List (Event C R σ) → ν → Prop) : Prop where
  told : ∀ {cfg}, Reaches S allow cfg₀ cfg → ∀ f ∈ cfg.flights,
    Told (Once puts fun a log => owns log (name a)) f.log
  unique : ∀ {cfg}, Reaches S allow cfg₀ cfg → ∀ {i j : Nat} {f g : Flight Q C R α σ} {n : ν},
    cfg.flights[i]? = some f → cfg.flights[j]? = some g → owns f.log n → owns g.log n → i = j
  keeps : ∀ {log post : List (Event C R σ)} {n : ν}, owns log n → owns (log ++ post) n

namespace Sole

variable (h : Sole S allow cfg₀ puts name owns)

include h

/-- A flight that has put a name owns it. -/
theorem owns_of_put (hr : Reaches S allow cfg₀ cfg) {f : Flight Q C R α σ} (hf : f ∈ cfg.flights)
    {e : Event C R σ} (he : e ∈ f.log) {n : ν} (hput : PutsName puts name e.call n) :
    owns f.log n := by
  obtain ⟨pre, post, heq⟩ := List.append_of_mem he
  obtain ⟨a, ha, rfl⟩ := hput
  rw [heq]
  exact h.keeps (h.told hr f hf pre e post heq a ha).2

/-- **A name that has been put is not put again.** -/
theorem fresh {s s' : σ} {fs : List (Flight Q C R α σ)} {i : Nat} {q : Q} {c : C}
    {next : R c → Program C R α} {log : List (Event C R σ)} {r : R c} {n : ν}
    (hr : Reaches S allow cfg₀ ⟨s, fs⟩) (hi : fs[i]? = some ⟨q, .call c next, log⟩)
    (ha : allow ⟨s, fs⟩ i) (he : S.answer s c r s') (hn : PutBy (PutsName puts name) fs n) :
    ¬PutsName puts name c n := by
  rintro ⟨a, hputs, rfl⟩
  have hlt := (List.getElem?_eq_some_iff.1 hi).1
  have hstep : Reaches S allow cfg₀ ⟨s', fs.set i ⟨q, next r, log ++ [⟨s, c, r, s'⟩]⟩⟩ :=
    hr.tail (.call hi ha he)
  obtain ⟨hquiet, howns⟩ := h.told hstep ⟨q, next r, log ++ [⟨s, c, r, s'⟩]⟩ (List.mem_set hlt _)
    log ⟨s, c, r, s'⟩ [] rfl a hputs
  obtain ⟨g, hg, e, hmem, hput⟩ := hn
  obtain ⟨j, hj⟩ := List.mem_iff_getElem?.1 hg
  have hij : i = j := h.unique hr hi hj howns (h.owns_of_put hr hg hmem hput)
  subst hij
  obtain rfl := Option.some.inj (hi.symm.trans hj)
  obtain ⟨b, hb, -⟩ := hput
  cases (hquiet e hmem).symm.trans hb

/-- **What the calls that do not put a name keep holds ever after it has been put.** -/
theorem since_put {I : σ → Prop} {n : ν} (hr : Reaches S allow cfg₀ cfg)
    (hr' : Reaches S allow cfg cfg') (hn : PutBy (PutsName puts name) cfg.flights n)
    (hcall : ∀ s c r s', I s → ¬PutsName puts name c n → S.answer s c r s' → I s')
    (hdrift : ∀ s s', I s → S.drift s s' → I s') (hI : I cfg.store) : I cfg'.store := by
  have hinv : I cfg'.store ∧ PutBy (PutsName puts name) cfg'.flights n := by
    induction hr' with
    | refl => exact ⟨hI, hn⟩
    | tail hr₁ hs ih =>
        refine ⟨?_, ih.2.step hs⟩
        cases hs with
        | arrive s fs q => exact ih.1
        | drift fs hd => exact hdrift _ _ ih.1 hd
        | call hi ha he => exact hcall _ _ _ _ ih.1 (h.fresh (hr.trans hr₁) hi ha he ih.2) he
  exact hinv.1

end Sole

/-! ### Rows -/

variable {ρ κ : Type} (rows : σ → List ρ) (key : ρ → ν) (ident : ρ → κ)

/-- Every row of the store has a name that has been put. -/
theorem put_of_row (hr : Reaches S allow cfg₀ cfg)
    (horigin : ∀ s c r s', S.answer s c r s' → ∀ x' ∈ rows s',
      (∃ x ∈ rows s, key x = key x' ∧ ident x = ident x') ∨ PutsName puts name c (key x'))
    (hdrift : ∀ s s', S.drift s s' → rows s' = rows s) (hflights : cfg₀.flights = [])
    (hstore : rows cfg₀.store = []) {x : ρ} (hx : x ∈ rows cfg.store) :
    PutBy (PutsName puts name) cfg.flights (key x) := by
  refine (Reaches.put hr (fun s n => ∃ x ∈ rows s, key x = n) (PutsName puts name) ?_ ?_ hflights
    ?_).1 ⟨x, hx, rfl⟩
  · rintro s c r s' _ ha ⟨x', hx', rfl⟩
    exact (horigin s c r s' ha x' hx').imp (fun ⟨x, hx, hsame, _⟩ => ⟨x, hx, hsame⟩) id
  · rintro s s' _ hd ⟨x, hx, rfl⟩
    exact ⟨x, hdrift s s' hd ▸ hx, rfl⟩
  · rintro _ ⟨x, hx, -⟩
    rw [hstore] at hx
    cases hx

namespace Sole

/-- **Rows of one name agree.**  A row that a call leaves continues a row of its name
(`horigin`), or the call has put the name, and then it is the only one (`hsingle`). -/
theorem agree (h : Sole S allow cfg₀ puts name owns) (hr : Reaches S allow cfg₀ cfg)
    (horigin : ∀ s c r s', S.answer s c r s' → ∀ x' ∈ rows s',
      (∃ x ∈ rows s, key x = key x' ∧ ident x = ident x') ∨ PutsName puts name c (key x'))
    (hsingle : ∀ s c r s', (∀ x ∈ rows s, ∀ y ∈ rows s, key x = key y → ident x = ident y) →
      S.answer s c r s' → ∀ x' ∈ rows s', ∀ y' ∈ rows s', key x' = key y' →
        PutsName puts name c (key x') → (∀ x ∈ rows s, key x ≠ key x') → ident x' = ident y')
    (hdrift : ∀ s s', S.drift s s' → rows s' = rows s) (hflights : cfg₀.flights = [])
    (hstore : rows cfg₀.store = []) :
    ∀ x ∈ rows cfg.store, ∀ y ∈ rows cfg.store, key x = key y → ident x = ident y := by
  induction hr with
  | refl =>
      rw [hstore]
      exact fun _ hx => nomatch hx
  | tail hr₁ hs ih =>
      cases hs with
      | arrive s fs q => exact ih
      | drift fs hd =>
          intro x hx y hy
          rw [hdrift _ _ hd] at hx hy
          exact ih x hx y hy
      | @call s s' fs i q c next log r hi ha he =>
          -- the name of a row has been put, so this call does not put it
          have hfresh : ∀ x ∈ rows s, ∀ n, PutsName puts name c n → key x ≠ n := by
            rintro x hx n hn rfl
            have hput := put_of_row rows key ident hr₁ horigin hdrift hflights hstore hx
            exact h.fresh hr₁ hi ha he hput hn
          intro x hx y hy hkey
          rcases horigin s c r s' he x hx with ⟨x₀, hx₀, hkx, hix⟩ | hputs <;>
            rcases horigin s c r s' he y hy with ⟨y₀, hy₀, hky, hiy⟩ | hputs'
          · rw [← hix, ← hiy]
            exact ih x₀ hx₀ y₀ hy₀ (hkx.trans (hkey.trans hky.symm))
          · exact absurd (hkx.trans hkey) (hfresh x₀ hx₀ _ hputs')
          · exact absurd (hky.trans hkey.symm) (hfresh y₀ hy₀ _ hputs)
          · exact hsingle s c r s' ih he x hx y hy hkey hputs
              fun x₀ hx₀ => hfresh x₀ hx₀ _ hputs

/-- **Rows of one name agree, at whatever times.** -/
theorem agree_later (h : Sole S allow cfg₀ puts name owns) (hr : Reaches S allow cfg₀ cfg)
    (hr' : Reaches S allow cfg cfg')
    (hagree : ∀ x ∈ rows cfg.store, ∀ y ∈ rows cfg.store, key x = key y → ident x = ident y)
    (horigin : ∀ s c r s', S.answer s c r s' → ∀ x' ∈ rows s',
      (∃ x ∈ rows s, key x = key x' ∧ ident x = ident x') ∨ PutsName puts name c (key x'))
    (hdrift : ∀ s s', S.drift s s' → rows s' = rows s) (hflights : cfg₀.flights = [])
    (hstore : rows cfg₀.store = []) {x y : ρ} (hx : x ∈ rows cfg.store)
    (hy : y ∈ rows cfg'.store) (hkey : key x = key y) : ident x = ident y := by
  have hput := put_of_row rows key ident hr horigin hdrift hflights hstore hx
  refine h.since_put (I := fun s => ∀ y ∈ rows s, key x = key y → ident x = ident y) hr hr' hput
    ?_ ?_ (hagree x hx) y hy hkey
  · intro s c r s' hI hn ha y' hy' hkey'
    rcases horigin s c r s' ha y' hy' with ⟨y, hy, hky, hiy⟩ | hputs
    · exact (hI y hy (hkey'.trans hky.symm)).trans hiy
    · exact absurd (hkey' ▸ hputs) hn
  · intro s s' hI hd
    rw [hdrift s s' hd]
    exact hI

end Sole

end Hegira
