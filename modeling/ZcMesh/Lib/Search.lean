import Mathlib.Data.List.Basic

/-!
# Searching an index

`firstIndex p i n` is the first of the indices `i, …, i + n - 1` with `p`, as a counting loop finds it. Where keys are
distinct, changing the entry found for a key is changing every entry with it (`modify_findIdx?`).
-/

namespace IndexSearch

/-- The first of the `n` indices from `i` with `p`. -/
def firstIndex (p : Nat → Bool) (i n : Nat) : Option Nat := (List.range' i n).find? p

variable {p : Nat → Bool} {i n k : Nat}

/-- What is found has `p`, lies in the range, and nothing before it has `p`. -/
theorem firstIndex_eq_some (h : firstIndex p i n = some k) :
    p k = true ∧ i ≤ k ∧ k < i + n ∧ ∀ j, i ≤ j → j < k → p j = false := by
  obtain ⟨hp, hmem, hbefore⟩ := List.find?_range'_eq_some.mp h
  obtain ⟨m, hm, rfl⟩ := List.mem_range'.mp hmem
  exact ⟨hp, by omega, by omega, fun j h1 h2 => by simpa using hbefore j h1 h2⟩

theorem firstIndex_eq_none (h : firstIndex p i n = none) : ∀ j, i ≤ j → j < i + n → p j = false := by
  intro j h1 h2
  have hj := List.find?_eq_none.mp h j (List.mem_range'.mpr ⟨j - i, by omega, by omega⟩)
  simpa using hj

/-- Distinct keys: the entry found for a key is the only one with it. -/
theorem modify_findIdx? {α κ : Type*} [DecidableEq κ] (key : α → κ) (k : κ) (g : α → α) {l : List α}
    (h : (l.map key).Nodup) :
    (match l.findIdx? (key · == k) with
      | none => l
      | some i => l.modify i g) = l.map fun x => if key x = k then g x else x := by
  induction l with
  | nil => rfl
  | cons x l ih =>
    rw [List.map_cons, List.nodup_cons] at h
    have hrest := ih h.2
    by_cases hx : key x = k
    · have hothers : (l.map fun y => if key y = k then g y else y) = l := by
        refine (List.map_congr_left fun y hy => ?_).trans (List.map_id l)
        have hne : key y ≠ k := fun hyk => h.1 (hx ▸ hyk ▸ List.mem_map_of_mem hy)
        exact if_neg hne
      simp [List.findIdx?_cons, hx, hothers]
    · rw [List.map_cons, if_neg hx, ← hrest, List.findIdx?_cons, if_neg (by simpa using hx)]
      cases l.findIdx? (key · == k) with
      | none => rfl
      | some i => rfl

end IndexSearch
