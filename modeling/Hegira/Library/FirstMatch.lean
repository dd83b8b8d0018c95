/-
# The first match of a text in a text

`cut` splits a text at the first match of a pattern, as `str::find` and two slices do.
The match is the first exactly when the pattern is not in what comes before it followed
by all but the end of the pattern (`cut_eq_some`): no match starts earlier, nor in the
text before and ends in the match.
-/

import Mathlib.Data.List.Infix

namespace Hegira
namespace FirstMatch

variable {α : Type} [DecidableEq α]

/-- What comes before and after the first match of the pattern. -/
def cut (pat : List α) : List α → Option (List α × List α)
  | [] => if pat = [] then some ([], []) else none
  | a :: s =>
      if pat <+: a :: s then some ([], (a :: s).drop pat.length)
      else (cut pat s).map fun (before, after) => (a :: before, after)

/-- `str::contains`. -/
def contains (pat s : List α) : Bool := (cut pat s).isSome

section

variable {pat s before after : List α}

omit [DecidableEq α] in
theorem start_isPrefix (pat before after : List α) :
    before ++ pat.dropLast <+: before ++ pat ++ after := by
  rw [List.append_assoc, List.prefix_append_right_inj]
  exact (List.dropLast_prefix pat).trans (List.prefix_append ..)

/-- **The first match.** -/
theorem cut_eq_some (hpat : pat ≠ []) : cut pat s = some (before, after) ↔
    s = before ++ pat ++ after ∧ ¬pat <:+: before ++ pat.dropLast := by
  have hlast : pat.dropLast.length < pat.length := by
    rw [List.length_dropLast]
    have := List.length_pos_iff.2 hpat
    omega
  have hshort : ¬pat <:+: pat.dropLast := fun h => absurd h.length_le (by omega)
  induction s generalizing before with
  | nil =>
      rw [cut, if_neg hpat]
      refine iff_of_false nofun ?_
      rintro ⟨h, -⟩
      have := congrArg List.length h
      simp only [List.length_nil, List.length_append] at this
      have := List.length_pos_iff.2 hpat
      omega
  | cons a s ih =>
      rw [cut]
      split
      · next hpre =>
          rw [Option.some.injEq, Prod.mk.injEq]
          constructor
          · rintro ⟨rfl, rfl⟩
            refine ⟨?_, hshort⟩
            obtain ⟨t, ht⟩ := hpre
            rw [← ht, List.drop_left, List.nil_append]
          · rintro ⟨hs, hfirst⟩
            cases before with
            | nil =>
                refine ⟨rfl, ?_⟩
                rw [hs, List.nil_append, List.drop_left]
            | cons b before =>
                -- the match at the start would lie in what comes before
                have hin : pat <+: b :: before ++ pat.dropLast := by
                  refine List.prefix_of_prefix_length_le hpre (hs ▸ start_isPrefix ..) ?_
                  rw [List.length_append, List.length_cons, List.length_dropLast]
                  omega
                exact absurd hin.isInfix hfirst
      · next hpre =>
          rw [Option.map_eq_some_iff]
          constructor
          · rintro ⟨⟨b, t⟩, hcut, heq⟩
            obtain ⟨rfl, rfl⟩ := Prod.mk.inj heq
            obtain ⟨rfl, hfirst⟩ := ih.1 hcut
            refine ⟨rfl, fun hin => ?_⟩
            rcases List.infix_cons_iff.1 hin with hp | hin
            · exact hpre (List.IsPrefix.trans hp (start_isPrefix pat (a :: b) t))
            · exact hfirst hin
          · rintro ⟨hs, hfirst⟩
            cases before with
            | nil => exact absurd (hs ▸ List.prefix_append _ _) hpre
            | cons b before =>
                obtain ⟨rfl, rfl⟩ := List.cons.inj hs
                refine ⟨(before, after), ih.2 ⟨rfl, fun hin => hfirst ?_⟩, rfl⟩
                exact List.infix_cons hin

theorem cut_eq_none (hpat : pat ≠ []) : cut pat s = none ↔ ¬pat <:+: s := by
  induction s with
  | nil => simp [cut, hpat, List.infix_nil]
  | cons a s ih =>
      rw [cut, List.infix_cons_iff]
      split
      · next hpre => simp [hpre]
      · next hpre => simp [hpre, ih]

theorem contains_iff (hpat : pat ≠ []) : contains pat s = true ↔ pat <:+: s := by
  rw [contains, ← Option.ne_none_iff_isSome, Ne, cut_eq_none hpat, not_not]

/-- What follows the match is shorter than the text. -/
theorem length_after_lt (hpat : pat ≠ []) (h : cut pat s = some (before, after)) :
    after.length < s.length := by
  obtain ⟨rfl, -⟩ := (cut_eq_some hpat).1 h
  have := List.length_pos_iff.2 hpat
  simp only [List.length_append]
  omega

end

end FirstMatch
end Hegira
