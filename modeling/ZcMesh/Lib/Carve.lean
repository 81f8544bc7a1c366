import Mathlib.Algebra.Group.Nat.Defs
import Mathlib.Data.List.Basic

/-!
# Carving blocks out of a range

* `up a x` is the first multiple of `a` from `x` on. For a power of two a machine word gets there by a mask
  (`and_mask`), modulo its size (`up_mod`).
* Blocks that are cut off one behind the other lie in the range and apart from each other: `Carved`, kept by
  `Carved.cut`.
-/

namespace Carve

/-! ## Alignment -/

/-- The first multiple of `a` from `x` on. -/
def up (a x : Nat) : Nat := (x + (a - 1)) / a * a

variable {a x : Nat}

theorem le_up (ha : 0 < a) : x ≤ up a x := by
  have h := Nat.div_add_mod (x + (a - 1)) a
  have hlt := Nat.mod_lt (x + (a - 1)) ha
  unfold up
  rw [Nat.mul_comm]
  omega

theorem up_lt (ha : 0 < a) : up a x < x + a := by
  have h := Nat.div_mul_le_self (x + (a - 1)) a
  unfold up
  omega

theorem dvd_up : a ∣ up a x := Nat.dvd_mul_left _ _

/-- It is the first one. -/
theorem up_le {m : Nat} (hm : a ∣ m) (hx : x ≤ m) (ha : 0 < a) : up a x ≤ m := by
  obtain ⟨r, rfl⟩ := hm
  obtain ⟨q, hq⟩ := dvd_up (a := a) (x := x)
  have hlt : a * q < a * (r + 1) := by
    have := up_lt (x := x) ha
    rw [Nat.mul_add, ← hq]
    omega
  rw [hq]
  exact Nat.mul_le_mul_left a (Nat.lt_succ_iff.mp (Nat.lt_of_mul_lt_mul_left hlt))

/-- The bits from `k` on. -/
theorem and_mask {w k x : Nat} (hk : k ≤ w) (hx : x < 2 ^ w) : x &&& (2 ^ w - 1 - (2 ^ k - 1)) = x / 2 ^ k * 2 ^ k := by
  have hle : 2 ^ k ≤ 2 ^ w := Nat.pow_le_pow_right (by decide) hk
  have hpos : 0 < 2 ^ k := Nat.two_pow_pos k
  apply Nat.eq_of_testBit_eq
  intro i
  rw [Nat.testBit_and, show 2 ^ w - 1 - (2 ^ k - 1) = 2 ^ w - (2 ^ k - 1 + 1) by omega,
    Nat.testBit_two_pow_sub_succ (by omega), Nat.testBit_two_pow_sub_one, Nat.testBit_mul_two_pow]
  by_cases hi : k ≤ i
  · rw [Nat.testBit_div_two_pow, Nat.sub_add_cancel hi]
    by_cases hw : i < w
    · simp [hi, hw]
    · simp [hw, Nat.testBit_lt_two_pow (Nat.lt_of_lt_of_le hx (Nat.pow_le_pow_right (by decide) (Nat.not_lt.mp hw)))]
  · simp [hi, Nat.not_le.mp hi]

/-- Rounding down and taking the remainder by a larger power commute. -/
theorem up_mod {w k : Nat} (hk : k ≤ w) (x : Nat) :
    (x + (2 ^ k - 1)) % 2 ^ w / 2 ^ k * 2 ^ k = up (2 ^ k) x % 2 ^ w := by
  have hw : 2 ^ w = 2 ^ k * 2 ^ (w - k) := by rw [← Nat.pow_add, Nat.add_sub_cancel' hk]
  rw [up, hw, Nat.mod_mul_right_div_self, Nat.mul_comm (2 ^ k) (2 ^ (w - k)), Nat.mul_mod_mul_right]

/-! ## Blocks -/

/-- The addresses from `start` on, `length` of them. -/
structure Block where
  start : Nat
  length : Nat
  deriving DecidableEq, Repr

namespace Block

/-- Behind the block. -/
def stop (b : Block) : Nat := b.start + b.length

/-- The block lies in the range. -/
def Inside (lo hi : Nat) (b : Block) : Prop := lo ≤ b.start ∧ b.stop ≤ hi

/-- The blocks have no address in common. -/
def Apart (b c : Block) : Prop := b.stop ≤ c.start ∨ c.stop ≤ b.start

instance (lo hi : Nat) (b : Block) : Decidable (b.Inside lo hi) := inferInstanceAs (Decidable (_ ∧ _))

instance (b c : Block) : Decidable (b.Apart c) := inferInstanceAs (Decidable (_ ∨ _))

end Block

/-- The blocks lie between `lo` and `cur`, apart from each other. -/
structure Carved (lo cur : Nat) (blocks : List Block) : Prop where
  inside : ∀ b ∈ blocks, b.Inside lo cur
  apart : blocks.Pairwise Block.Apart

variable {lo cur : Nat} {blocks : List Block}

theorem carved_nil (lo cur : Nat) : Carved lo cur [] := ⟨nofun, .nil⟩

theorem Carved.mono {hi : Nat} (h : Carved lo cur blocks) (hle : cur ≤ hi) : Carved lo hi blocks :=
  ⟨fun b hb => ⟨(h.inside b hb).1, Nat.le_trans (h.inside b hb).2 hle⟩, h.apart⟩

/-- What comes behind everything is apart from everything. -/
theorem Carved.apart_of_le (h : Carved lo cur blocks) {c : Block} (hc : cur ≤ c.start) : ∀ b ∈ blocks, b.Apart c :=
  fun b hb => Or.inl (Nat.le_trans (h.inside b hb).2 hc)

/-- One more block is cut off. -/
theorem Carved.cut (h : Carved lo cur blocks) (hlo : lo ≤ cur) {c : Block} (hc : cur ≤ c.start) :
    Carved lo c.stop (blocks ++ [c]) where
  inside := by
    intro b hb
    rcases List.mem_append.mp hb with hb | hb
    · obtain ⟨hstart, hstop⟩ := h.inside b hb
      exact ⟨hstart, Nat.le_trans hstop (Nat.le_trans hc (Nat.le_add_right _ _))⟩
    · rw [List.mem_singleton.mp hb]
      exact ⟨Nat.le_trans hlo hc, Nat.le_refl _⟩
  apart := by
    rw [List.pairwise_append]
    refine ⟨h.apart, List.pairwise_singleton _ _, ?_⟩
    intro b hb d hd
    rw [List.mem_singleton.mp hd]
    exact h.apart_of_le hc b hb

end Carve
