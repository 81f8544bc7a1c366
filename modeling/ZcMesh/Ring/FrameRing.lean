import ZcMesh.Lib.Cyclic

/-!
# The frame ring of the operator

`operator-node/.../pipeline/FrameRing.java`, called by one thread at a time. The constructor's test on the capacity is
a field of `FrameRing`, so that the mask of an index is its remainder (`index_eq`). What the two threads do to each
other is in `LongThreads.lean`.
-/

namespace ZcMesh.Operator

variable {α : Type*}

/-- `FrameRing`. `head`, `tail` and `drops` are Java `long`s, here counted as numbers. Below `2 ^ 63` frames that is the
same (`longRing_refines`; for the pipeline `partition_longs`, for a recording `recorded_longs`). -/
structure FrameRing (α : Type*) where
  slots : Nat → Option α
  capacity : Nat
  capacity_pow2 : 2 ≤ capacity ∧ capacity &&& (capacity - 1) = 0
  head : Nat
  tail : Nat
  drops : Nat

namespace FrameRing

/-- `new FrameRing(capacityPow2)`. -/
def make (capacityPow2 : Nat) : Except String (FrameRing α) :=
  if h : 2 ≤ capacityPow2 ∧ capacityPow2 &&& (capacityPow2 - 1) = 0 then
    .ok { slots := fun _ => none, capacity := capacityPow2, capacity_pow2 := h, head := 0, tail := 0, drops := 0 }
  else .error "capacity must be power of two"

variable (r : FrameRing α)

def mask : Nat := r.capacity - 1

/-- The slot of an index. -/
def index (i : Nat) : Nat := i &&& r.mask

theorem index_eq (i : Nat) : r.index i = i % r.capacity := by
  have hne : r.capacity ≠ 0 := by have := r.capacity_pow2.1; omega
  obtain ⟨k, hk⟩ := (Nat.and_sub_one_eq_zero_iff_isPowerOfTwo hne).mp r.capacity_pow2.2
  rw [index, mask, hk, Nat.and_two_pow_sub_one_eq_mod]

/-- `slots.set`. -/
def setSlot (i : Nat) (y : Option α) : FrameRing α := { r with slots := Function.update r.slots (r.index i) y }

/-- `h - t >= slots.length()`. -/
def full (h t : Nat) : Prop := t + r.capacity ≤ h

instance (h t : Nat) : Decidable (r.full h t) := inferInstanceAs (Decidable (_ ≤ _))

/-- `offer`: a full ring loses its oldest frame. It always returns `true`. -/
def offer (frame : α) : FrameRing α :=
  let h := r.head
  let t := r.tail
  let r := if r.full h t then { r with tail := t + 1, drops := r.drops + 1 } else r
  { r.setSlot h (some frame) with head := h + 1 }

/-- `poll`: `null` from an empty ring. -/
def poll : Option α × FrameRing α :=
  let t := r.tail
  let h := r.head
  if h ≤ t then (none, r)
  else
    let f := r.slots (r.index t)
    (f, { r.setSlot t none with tail := t + 1 })

/-- `size`. -/
def size : Nat := r.head - r.tail

end FrameRing

end ZcMesh.Operator
