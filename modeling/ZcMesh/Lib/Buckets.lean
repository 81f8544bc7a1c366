import Mathlib.Data.List.Perm.Subperm
import Mathlib.Data.List.Nodup
import Mathlib.Data.List.Range

/-!
# Counting over a whole range

A list without repeats that fills a range is the range, in some order (`perm_range`). In the range of `a * b` numbers
each of the `a` buckets of `b` neighbours holds as many, so a property of the bucket is met `b` times for each bucket
that has it (`countP_range_mul`).
-/

namespace Buckets

theorem perm_range {l : List Nat} {n : Nat} (hnodup : l.Nodup) (hlt : ∀ i ∈ l, i < n) (hlen : l.length = n) :
    l.Perm (List.range n) := by
  have hsub : l.Subperm (List.range n) := List.subperm_of_subset hnodup fun i hi => List.mem_range.mpr (hlt i hi)
  exact hsub.perm_of_length_le (by rw [List.length_range, hlen])

/-- A bucket more. -/
theorem range_succ_mul (a b : Nat) :
    List.range ((a + 1) * b) = List.range (a * b) ++ (List.range b).map (a * b + ·) := by
  rw [Nat.succ_mul, List.range_add]

theorem countP_range_mul (f : Nat → Bool) (a b : Nat) :
    (List.range (a * b)).countP (fun n => f (n / b)) = b * (List.range a).countP f := by
  induction a with
  | zero => simp
  | succ a ih =>
    have hbucket : ((List.range b).map (a * b + ·)).countP (fun n => f (n / b)) = b * [a].countP f := by
      rw [List.countP_map]
      have hsame : ∀ i ∈ List.range b, ((fun n => f (n / b)) ∘ (a * b + ·)) i = f a := by
        intro i hi
        have hlt := List.mem_range.mp hi
        have hdiv : (a * b + i) / b = a := by
          rw [Nat.mul_comm, Nat.mul_add_div (by omega), Nat.div_eq_of_lt hlt, Nat.add_zero]
        simp only [Function.comp_apply, hdiv]
      rw [List.countP_congr fun i hi => by rw [hsame i hi]]
      cases hfa : f a <;> simp [hfa]
    rw [range_succ_mul, List.countP_append, ih, hbucket, List.range_succ, List.countP_append, Nat.mul_add]

end Buckets
