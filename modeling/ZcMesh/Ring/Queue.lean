import ZcMesh.Ring.FrameRing

/-!
# The frame ring as a queue

Called by one thread at a time, the ring is a queue of at most `capacity` frames: `offer` appends (`Queue.offer`), and a
full queue loses its oldest frame and counts it; `poll` takes the oldest frame (`Queue.poll_cons`), or gives `null`
(`Queue.poll_nil`).
-/

namespace ZcMesh.Operator

open Cyclic (Window)

variable {α : Type*}

/-- The queue with one more frame; a full queue loses its oldest. -/
def enqueue (capacity : Nat) (q : List α) (frame : α) : List α := (if capacity ≤ q.length then q.tail else q) ++ [frame]

theorem mem_enqueue {capacity : Nat} {q : List α} {f frame : α} (h : f ∈ enqueue capacity q frame) :
    f ∈ q ∨ f = frame := by
  rcases List.mem_append.mp h with hf | hf
  · left
    split at hf
    · exact List.mem_of_mem_tail hf
    · exact hf
  · right
    exact List.mem_singleton.mp hf

/-- The lost frame makes up for the new one. -/
theorem length_enqueue {capacity : Nat} (hpos : 0 < capacity) (q : List α) (frame : α) :
    (if capacity ≤ q.length then 1 else 0) + (enqueue capacity q frame).length = q.length + 1 := by
  unfold enqueue
  rw [List.length_append, List.length_singleton]
  split
  · rw [List.length_tail]
    omega
  · omega

/-- The ring holds the queue `q`, the oldest frame at the tail. -/
structure Queue (r : FrameRing α) (q : List α) : Prop where
  head_eq : r.head = r.tail + q.length
  le_capacity : q.length ≤ r.capacity
  window : Window r.capacity r.slots (fun i => q[i - r.tail]?) r.tail r.head

namespace Queue

variable {r : FrameRing α} {q : List α}

theorem size_eq (h : Queue r q) : r.size = q.length := by
  rw [FrameRing.size, h.head_eq, Nat.add_sub_cancel_left]

theorem make {capacityPow2 : Nat} (h : FrameRing.make capacityPow2 = .ok r) :
    Queue r [] ∧ r.drops = 0 ∧ r.capacity = capacityPow2 := by
  unfold FrameRing.make at h
  split at h
  · cases h
    exact ⟨⟨rfl, Nat.zero_le _, Window.empty _ _ _⟩, rfl, rfl⟩
  · cases h

/-- With room, a write at the head appends. -/
theorem append (h : Queue r q) (hroom : q.length < r.capacity) (frame : α) :
    Queue { r with slots := Function.update r.slots (r.index r.head) (some frame), head := r.head + 1 }
      (q ++ [frame]) := by
  have hhead := h.head_eq
  refine ⟨?_, ?_, ?_⟩
  · show r.head + 1 = r.tail + (q ++ [frame]).length
    rw [List.length_append, List.length_singleton]
    omega
  · show (q ++ [frame]).length ≤ r.capacity
    rw [List.length_append, List.length_singleton]
    omega
  · have hold : Window r.capacity (Function.update r.slots (r.head % r.capacity) (some frame))
        (fun i => (q ++ [frame])[i - r.tail]?) r.tail r.head := by
      refine (h.window.write_above (Nat.le_refl _) (by omega) _).congr ?_
      intro i h1 h2
      exact (List.getElem?_append_left (by omega)).symm
    rw [r.index_eq]
    apply hold.grow
    rw [Function.update_self, hhead, Nat.add_sub_cancel_left, List.getElem?_append_right (Nat.le_refl _), Nat.sub_self]
    rfl

/-- Moving the tail on loses the oldest frame. -/
theorem lose (h : Queue r q) (hne : 0 < q.length) :
    Queue { r with tail := r.tail + 1, drops := r.drops + 1 } q.tail := by
  have hhead := h.head_eq
  have hle := h.le_capacity
  have hlen : q.tail.length = q.length - 1 := List.length_tail
  refine ⟨?_, ?_, ?_⟩
  · show r.head = r.tail + 1 + q.tail.length
    omega
  · show q.tail.length ≤ r.capacity
    omega
  · refine (h.window.mono (Nat.le_succ _)).congr ?_
    intro i h1 _
    have hnext : r.tail + 1 ≤ i := h1
    show q[i - r.tail]? = q.tail[i - (r.tail + 1)]?
    rw [List.getElem?_tail]
    congr 1
    omega

/-- **`offer` appends**; a full ring loses its oldest frame and counts it. -/
theorem offer (h : Queue r q) (frame : α) :
    Queue (r.offer frame) (enqueue r.capacity q frame) ∧
      (r.offer frame).drops = r.drops + (if r.capacity ≤ q.length then 1 else 0) ∧
      (r.offer frame).capacity = r.capacity := by
  have hhead := h.head_eq
  have hle := h.le_capacity
  have hpos := r.capacity_pow2.1
  by_cases hfull : r.capacity ≤ q.length
  · have hcond : r.full r.head r.tail := by
      show r.tail + r.capacity ≤ r.head
      omega
    have hlost := h.lose (by omega)
    have hroom : q.tail.length < r.capacity := by
      rw [List.length_tail]
      omega
    have hoffer : r.offer frame =
        { r with
          tail := r.tail + 1
          drops := r.drops + 1
          slots := Function.update r.slots (r.index r.head) (some frame)
          head := r.head + 1 } := by
      simp only [FrameRing.offer, hcond, if_true]
      rfl
    rw [hoffer, enqueue, if_pos hfull, if_pos hfull]
    exact ⟨hlost.append hroom frame, rfl, rfl⟩
  · have hcond : ¬r.full r.head r.tail := by
      show ¬r.tail + r.capacity ≤ r.head
      omega
    have hoffer : r.offer frame =
        { r with slots := Function.update r.slots (r.index r.head) (some frame), head := r.head + 1 } := by
      simp only [FrameRing.offer, hcond, if_false]
      rfl
    rw [hoffer, enqueue, if_neg hfull, if_neg hfull]
    exact ⟨h.append (Nat.lt_of_not_le hfull) frame, rfl, rfl⟩

/-- **An empty ring gives `null`.** -/
theorem poll_nil (h : Queue r []) : r.poll = (none, r) := by
  have hhead := h.head_eq
  rw [List.length_nil, Nat.add_zero] at hhead
  simp [FrameRing.poll, hhead]

/-- **`poll` takes the oldest frame.** -/
theorem poll_cons {frame : α} (h : Queue r (frame :: q)) :
    r.poll.1 = some frame ∧ Queue r.poll.2 q ∧ r.poll.2.drops = r.drops ∧ r.poll.2.capacity = r.capacity := by
  have hhead := h.head_eq
  have hle := h.le_capacity
  rw [List.length_cons] at hhead hle
  have hoccupied : ¬r.head ≤ r.tail := by omega
  have hslot : r.slots (r.index r.tail) = some frame := by
    rw [r.index_eq, h.window r.tail (Nat.le_refl _) (by omega)]
    show (frame :: q)[r.tail - r.tail]? = some frame
    rw [Nat.sub_self]
    rfl
  have hpoll : r.poll =
      (some frame, { r with slots := Function.update r.slots (r.index r.tail) none, tail := r.tail + 1 }) := by
    simp only [FrameRing.poll, hoccupied, if_false, hslot]
    rfl
  rw [hpoll]
  refine ⟨rfl, ⟨?_, ?_, ?_⟩, rfl, rfl⟩
  · show r.head = r.tail + 1 + q.length
    omega
  · show q.length ≤ r.capacity
    omega
  · show Window r.capacity (Function.update r.slots (r.index r.tail) none) (fun i => q[i - (r.tail + 1)]?) (r.tail + 1)
      r.head
    rw [r.index_eq]
    refine ((h.window.mono (Nat.le_succ _)).write_below (Nat.lt_succ_self _) (by omega) _).congr ?_
    intro i h1 _
    rw [show i - r.tail = i - (r.tail + 1) + 1 by omega, List.getElem?_cons_succ]

end Queue

end ZcMesh.Operator
