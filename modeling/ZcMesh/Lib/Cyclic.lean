import Mathlib.Logic.Function.Basic
import Mathlib.Data.Nat.Basic

/-!
# Windows over cyclic slots

Unbounded indices `0, 1, 2, …` are kept in `c` slots, index `i` in slot `i % c`. `Window c slots v lo hi` says that the
slots hold the values `v` of the indices from `lo` up to `hi`. At most `c` indices fit, and as long as no more are used
a write at an index outside the window does not touch it (`Window.write_above`, `Window.write_below`).
-/

namespace Cyclic

variable {β : Type*} {c lo hi : Nat} {slots v : Nat → β}

/-- The slots hold `v` from `lo` up to `hi`. -/
def Window (c : Nat) (slots v : Nat → β) (lo hi : Nat) : Prop := ∀ i, lo ≤ i → i < hi → slots (i % c) = v i

/-- Fewer than `c` steps apart, indices have different slots. -/
theorem mod_ne_of_lt {i j : Nat} (h : i < j) (hc : j < i + c) : i % c ≠ j % c := by
  intro heq
  have hdvd : c ∣ j - i := Nat.dvd_of_mod_eq_zero (Nat.sub_mod_eq_zero_of_mod_eq heq.symm)
  have := Nat.le_of_dvd (by omega) hdvd
  omega

namespace Window

theorem empty (slots v : Nat → β) (lo : Nat) : Window c slots v lo lo := fun i h1 h2 => by omega

theorem mono {lo' : Nat} (h : Window c slots v lo hi) (hlo : lo ≤ lo') : Window c slots v lo' hi :=
  fun i h1 h2 => h i (Nat.le_trans hlo h1) h2

/-- A write at or behind the end, within the capacity. -/
theorem write_above (h : Window c slots v lo hi) {j : Nat} (hj : hi ≤ j) (hc : j < lo + c) (y : β) :
    Window c (Function.update slots (j % c) y) v lo hi := by
  intro i h1 h2
  rw [Function.update_of_ne (mod_ne_of_lt (by omega) (by omega))]
  exact h i h1 h2

/-- A write in front of the window, within the capacity. -/
theorem write_below (h : Window c slots v lo hi) {j : Nat} (hj : j < lo) (hc : hi ≤ j + c) (y : β) :
    Window c (Function.update slots (j % c) y) v lo hi := by
  intro i h1 h2
  rw [Function.update_of_ne (mod_ne_of_lt (by omega) (by omega)).symm]
  exact h i h1 h2

/-- The window grows by an index whose slot holds its value. -/
theorem grow (h : Window c slots v lo hi) (hv : slots (hi % c) = v hi) : Window c slots v lo (hi + 1) :=
  fun i h1 h2 => by
    rcases Nat.lt_succ_iff_lt_or_eq.mp h2 with h2 | rfl
    · exact h i h1 h2
    · exact hv

/-- Only the values inside the window matter. -/
theorem congr {v' : Nat → β} (h : Window c slots v lo hi) (hv : ∀ i, lo ≤ i → i < hi → v i = v' i) :
    Window c slots v' lo hi := fun i h1 h2 => (h i h1 h2).trans (hv i h1 h2)

end Window

end Cyclic
