import Mathlib.Data.Int.Basic
import Mathlib.Data.List.Induction
import Mathlib.Tactic.Linarith

/-!
# Averages by integer division

`blend a x d` moves a share of one in `a` from the average `x` to the new value `d`, both shares rounded down. What `x`
keeps grows with `x` (`keep_mono`), so no rounding leads out of an interval that holds both (`blend_between`). `average`
starts with the first value, and again whenever it is 0; it stays between the values it has seen (`average_between`).
-/

namespace Ewma

variable {a x y d lo hi : Int}

/-- A share of one in `a` is replaced. -/
def blend (a x d : Int) : Int := x - x / a + d / a

/-- What is kept of the average grows with it. -/
theorem keep_mono (ha : 0 < a) (h : x ≤ y) : x - x / a ≤ y - y / a := by
  have hgrow : y ≤ x + (y - x) * a := by nlinarith
  have hdiv : y / a ≤ x / a + (y - x) := by
    calc y / a ≤ (x + (y - x) * a) / a := Int.ediv_le_ediv ha hgrow
      _ = x / a + (y - x) := Int.add_mul_ediv_right x (y - x) (ne_of_gt ha)
  omega

/-- **An interval that holds the average and the new value holds the next average.** -/
theorem blend_between (ha : 0 < a) (hx : lo ≤ x ∧ x ≤ hi) (hd : lo ≤ d ∧ d ≤ hi) :
    lo ≤ blend a x d ∧ blend a x d ≤ hi := by
  have hlow := keep_mono ha hx.1
  have hhigh := keep_mono ha hx.2
  have hdlow := Int.ediv_le_ediv ha hd.1
  have hdhigh := Int.ediv_le_ediv ha hd.2
  rw [blend]
  omega

/-- One step; an average of 0 starts again. -/
def step (a ewma delta : Int) : Int := if ewma = 0 then delta else blend a ewma delta

/-- The average of the values, from the first to the last. -/
def average (a : Int) (deltas : List Int) : Int := deltas.foldl (step a) 0

@[simp] theorem average_nil : average a [] = 0 := rfl

@[simp] theorem average_snoc (deltas : List Int) : average a (deltas ++ [d]) = step a (average a deltas) d := by
  simp [average]

/-- **The average is between two of its values.** -/
theorem average_between (ha : 0 < a) {deltas : List Int} (hne : deltas ≠ []) :
    ∃ lo ∈ deltas, ∃ hi ∈ deltas, lo ≤ average a deltas ∧ average a deltas ≤ hi := by
  induction deltas using List.reverseRecOn with
  | nil => exact absurd rfl hne
  | append_singleton deltas d ih =>
    have hlast : d ∈ deltas ++ [d] := by simp
    rw [average_snoc, step]
    split
    · exact ⟨d, hlast, d, hlast, le_refl d, le_refl d⟩
    · next hstarted =>
      have hsome : deltas ≠ [] := by
        rintro rfl
        exact hstarted rfl
      obtain ⟨lo, hlo, hi, hhi, hbetween⟩ := ih hsome
      have hmem : ∀ z, z ∈ deltas ∨ z = d → z ∈ deltas ++ [d] := by
        rintro z (hz | rfl)
        · exact List.mem_append_left _ hz
        · exact hlast
      refine ⟨min lo d, hmem _ ?_, max hi d, hmem _ ?_, blend_between ha ?_ ?_⟩
      · rcases min_choice lo d with h | h
        · exact .inl (by rwa [h])
        · exact .inr h
      · rcases max_choice hi d with h | h
        · exact .inl (by rwa [h])
        · exact .inr h
      · exact ⟨le_trans (min_le_left _ _) hbetween.1, le_trans hbetween.2 (le_max_left _ _)⟩
      · exact ⟨min_le_right _ _, le_max_right _ _⟩

theorem average_nonneg (ha : 0 < a) {deltas : List Int} (h : ∀ delta ∈ deltas, 0 ≤ delta) : 0 ≤ average a deltas := by
  by_cases hne : deltas = []
  · rw [hne, average_nil]
  · obtain ⟨lo, hlo, hi, -, hbetween⟩ := average_between ha hne
    exact le_trans (h lo hlo) hbetween.1

end Ewma
