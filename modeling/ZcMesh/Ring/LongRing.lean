import Mathlib.Data.UInt
import ZcMesh.Lib.Run
import ZcMesh.Ring.Queue

/-!
# The frame ring with its own integers

`operator-node/.../pipeline/FrameRing.java` once more, now with an `int` for the capacity and `long`s for `head`,
`tail` and `drops`. As long as fewer than `2 ^ 63` frames were offered, it does what the ring of `FrameRing.lean` does
(`Counts`), and so it is a bounded queue that loses its oldest element (`DropOldest`). With the offer number `2 ^ 63`
the head wraps below the tail, and `poll` takes the ring for empty.
-/

namespace ZcMesh.Operator

variable {α : Type*}

/-! ## The queue -/

/-- A queue that loses its oldest element when it is full, with the number of those it lost. -/
structure DropOldest (α : Type*) where
  content : List α := []
  discarded : Nat := 0

/-- A call, of `offer` or of `poll`. -/
inductive RingCall (α : Type*)
  | offer (frame : α)
  | poll

/-- What a call returns. -/
inductive RingReply (α : Type*)
  | offered (accepted : Bool)
  | polled (frame : Option α)

/-- `offer` and not `poll`. -/
def RingCall.isOffer : RingCall α → Bool
  | .offer _ => true
  | .poll => false

namespace DropOldest

def offer (capacity : Nat) (q : DropOldest α) (frame : α) : DropOldest α where
  content := enqueue capacity q.content frame
  discarded := q.discarded + if capacity ≤ q.content.length then 1 else 0

def call (capacity : Nat) (q : DropOldest α) : RingCall α → RingReply α × DropOldest α
  | .offer frame => (.offered true, q.offer capacity frame)
  | .poll => (.polled q.content.head?, { q with content := q.content.tail })

end DropOldest

/-! ## The ring -/

/-- `FrameRing`. -/
structure LongRing (α : Type*) where
  slots : Nat → Option α := fun _ => none
  length : Int32
  mask : Int32
  head : Int64 := 0
  tail : Int64 := 0
  drops : Int64 := 0

namespace LongRing

/-- `new FrameRing(capacityPow2)`. -/
def make (capacityPow2 : Int32) : Except String (LongRing α) :=
  if capacityPow2 < 2 ∨ capacityPow2 &&& (capacityPow2 - 1) ≠ 0 then .error "capacity must be power of two"
  else .ok { length := capacityPow2, mask := capacityPow2 - 1 }

variable (r : LongRing α)

/-- `(int) (i & mask)`. -/
def index (i : Int64) : Nat := (i &&& r.mask.toInt64).toInt32.toNatClampNeg

/-- `offer`. Called by one thread at a time, the `compareAndSet` of the tail succeeds. -/
def offer (frame : α) : Bool × LongRing α :=
  let h := r.head
  let t := r.tail
  let r := if h - t ≥ r.length.toInt64 then { r with tail := t + 1, drops := r.drops + 1 } else r
  (true, { r with slots := Function.update r.slots (r.index h) (some frame), head := h + 1 })

/-- `poll`. -/
def poll : Option α × LongRing α :=
  let t := r.tail
  let h := r.head
  if t ≥ h then (none, r)
  else
    let idx := r.index t
    (r.slots idx, { r with slots := Function.update r.slots idx none, tail := t + 1 })

/-- `size`. -/
def size : Int32 := (r.head - r.tail).toInt32

def call : RingCall α → RingReply α × LongRing α
  | .offer frame => (.offered (r.offer frame).1, (r.offer frame).2)
  | .poll => (.polled r.poll.1, r.poll.2)

end LongRing

/-! ## The same ring, counted by numbers -/

/-- The `long`s of `l` are the numbers of `r`, modulo `2 ^ 64`. -/
structure Counts (l : LongRing α) (r : FrameRing α) : Prop where
  slots_eq : l.slots = r.slots
  length_eq : l.length = Int32.ofNat r.capacity
  mask_eq : l.mask = Int32.ofNat r.mask
  capacity_lt : r.capacity < 2 ^ 31
  head_eq : l.head = Int64.ofNat r.head
  tail_eq : l.tail = Int64.ofNat r.tail
  drops_eq : l.drops = Int64.ofNat r.drops

theorem ofNat_succ (n : Nat) : Int64.ofNat (n + 1) = Int64.ofNat n + 1 := Int64.ofNat_add n 1

theorem toInt64_ofNat_of_lt {n : Nat} (h : n < 2 ^ 31) : (Int32.ofNat n).toInt64 = Int64.ofNat n := by
  apply Int32.toInt64_ofNat'
  rw [Int32.toInt_maxValue]
  omega

theorem ofNat_and (m n : Nat) : Int64.ofNat m &&& Int64.ofNat n = Int64.ofNat (m &&& n) := by
  apply Int64.toBitVec.inj
  simp

/-- The test of the constructor, on the number that the `int` is. -/
theorem and_pred_eq_zero {c : Int32} {n : Nat} (hc : c.toInt = n) (hpos : 1 ≤ n) :
    c = Int32.ofNat n ∧ c - 1 = Int32.ofNat (n - 1) ∧ (c &&& (c - 1) = 0 ↔ n &&& (n - 1) = 0) := by
  have hlt : n < 2 ^ 31 := by
    have := c.toInt_lt
    omega
  have hcast : c = Int32.ofNat n := by
    apply Int32.toInt.inj
    rw [Int32.toInt_ofNat_of_lt hlt, hc]
  have hpred : c - 1 = Int32.ofNat (n - 1) := by
    rw [Int32.ofNat_sub _ _ hpos, hcast]
    rfl
  have hand : c &&& (c - 1) = Int32.ofNat (n &&& (n - 1)) := by
    rw [hpred, hcast]
    apply Int32.toBitVec.inj
    rw [Int32.toBitVec_and, Int32.toBitVec_ofNat', Int32.toBitVec_ofNat', Int32.toBitVec_ofNat', ← BitVec.ofNat_and]
  refine ⟨hcast, hpred, ?_⟩
  have hle : n &&& (n - 1) ≤ n := Nat.and_le_left
  have hzero : (0 : Int32).toInt = 0 := rfl
  rw [hand, ← Int32.toInt_inj, Int32.toInt_ofNat_of_lt (by omega), hzero]
  exact Int.natCast_eq_zero

namespace Counts

variable {l : LongRing α} {r : FrameRing α} {q : List α}

theorem index_eq (h : Counts l r) (i : Nat) : l.index (Int64.ofNat i) = r.index i := by
  have hmask : r.mask < 2 ^ 31 := Nat.lt_of_le_of_lt (Nat.sub_le _ _) h.capacity_lt
  have hindex : r.index i < 2 ^ 31 := Nat.lt_of_le_of_lt Nat.and_le_right hmask
  rw [LongRing.index, h.mask_eq, toInt64_ofNat_of_lt hmask, ofNat_and, Int64.toInt32_ofNat']
  exact Int32.toNatClampNeg_ofNat_of_lt hindex

/-- The wrap does not matter to `h - t >= slots.length()`. -/
theorem full_iff (h : Counts l r) {head : Nat} (hle : r.tail ≤ head) (hroom : head ≤ r.tail + r.capacity) :
    Int64.ofNat head - l.tail ≥ l.length.toInt64 ↔ r.full head r.tail := by
  have hlt := h.capacity_lt
  rw [h.tail_eq, h.length_eq, toInt64_ofNat_of_lt hlt, ← Int64.ofNat_sub _ _ hle, ge_iff_le,
    Int64.ofNat_le_iff_le (by omega) (by omega)]
  show _ ↔ r.tail + r.capacity ≤ head
  omega

theorem full_iff_of_queue (h : Counts l r) (hq : Queue r q) :
    l.head - l.tail ≥ l.length.toInt64 ↔ r.full r.head r.tail := by
  have hhead := hq.head_eq
  have hle := hq.le_capacity
  rw [h.head_eq]
  exact h.full_iff (by omega) (by omega)

/-- **`offer` on the `long`s is `offer` on the numbers.** -/
theorem offer (h : Counts l r) (hq : Queue r q) (frame : α) : Counts (l.offer frame).2 (r.offer frame) := by
  have hindex := h.index_eq r.head
  rw [← h.head_eq] at hindex
  by_cases hcond : r.full r.head r.tail
  · have hcond' := (h.full_iff_of_queue hq).mpr hcond
    have hl : (l.offer frame).2 =
        { l with
          tail := l.tail + 1
          drops := l.drops + 1
          slots := Function.update l.slots (l.index l.head) (some frame)
          head := l.head + 1 } := by
      simp only [LongRing.offer, hcond', if_true]
      rfl
    have hr : r.offer frame =
        { r with
          tail := r.tail + 1
          drops := r.drops + 1
          slots := Function.update r.slots (r.index r.head) (some frame)
          head := r.head + 1 } := by
      simp only [FrameRing.offer, hcond, if_true]
      rfl
    rw [hl, hr]
    exact ⟨by simp [hindex, h.slots_eq], h.length_eq, h.mask_eq, h.capacity_lt, by simp [h.head_eq],
      by simp [h.tail_eq], by simp [h.drops_eq]⟩
  · have hcond' := mt (h.full_iff_of_queue hq).mp hcond
    have hl : (l.offer frame).2 =
        { l with slots := Function.update l.slots (l.index l.head) (some frame), head := l.head + 1 } := by
      simp only [LongRing.offer, hcond', if_false]
    have hr : r.offer frame =
        { r with slots := Function.update r.slots (r.index r.head) (some frame), head := r.head + 1 } := by
      simp only [FrameRing.offer, hcond, if_false]
      rfl
    rw [hl, hr]
    exact ⟨by simp [hindex, h.slots_eq], h.length_eq, h.mask_eq, h.capacity_lt, by simp [h.head_eq], h.tail_eq,
      h.drops_eq⟩

/-- **Before the head wraps, `poll` on the `long`s is `poll` on the numbers.** -/
theorem poll (h : Counts l r) (hq : Queue r q) (hlt : r.head < 2 ^ 63) :
    l.poll.1 = r.poll.1 ∧ Counts l.poll.2 r.poll.2 := by
  have hhead := hq.head_eq
  have hempty : l.tail ≥ l.head ↔ r.head ≤ r.tail := by
    rw [h.head_eq, h.tail_eq]
    exact Int64.ofNat_le_iff_le hlt (by omega)
  have hindex := h.index_eq r.tail
  rw [← h.tail_eq] at hindex
  by_cases hcond : r.head ≤ r.tail
  · have hcond' := hempty.mpr hcond
    simp only [LongRing.poll, FrameRing.poll, hcond, hcond', if_true]
    exact ⟨trivial, h⟩
  · have hcond' := mt hempty.mp hcond
    simp only [LongRing.poll, FrameRing.poll, hcond, hcond', if_false, hindex, h.slots_eq]
    exact ⟨trivial, rfl, h.length_eq, h.mask_eq, h.capacity_lt, h.head_eq, by simp [h.tail_eq], h.drops_eq⟩

/-- The size, while it is that of a queue. -/
theorem size_eq (h : Counts l r) (hq : Queue r q) : l.size.toInt = q.length := by
  have hhead := hq.head_eq
  have hle := hq.le_capacity
  have hlt := h.capacity_lt
  rw [LongRing.size, h.head_eq, h.tail_eq, ← Int64.ofNat_sub _ _ (by omega), Int64.toInt32_ofNat', hhead,
    Nat.add_sub_cancel_left]
  exact Int32.toInt_ofNat_of_lt (by omega)

end Counts

@[simp] theorem FrameRing.offer_head (r : FrameRing α) (frame : α) : (r.offer frame).head = r.head + 1 := rfl

@[simp] theorem FrameRing.poll_head (r : FrameRing α) : r.poll.2.head = r.head := by
  simp only [FrameRing.poll]
  split <;> rfl

/-- Behind `offered` frames: the ring on `long`s, the queue, and the ring on numbers between them. -/
structure Stands (capacity offered : Nat) (l : LongRing α) (q : DropOldest α) (r : FrameRing α) : Prop where
  counts : Counts l r
  queue : Queue r q.content
  capacity_eq : r.capacity = capacity
  head_eq : r.head = offered
  drops_eq : r.drops = q.discarded
  discarded_le : q.discarded ≤ offered

namespace Stands

variable {capacity offered : Nat} {l : LongRing α} {q : DropOldest α} {r : FrameRing α}

/-- A new ring. -/
theorem new {c : Int32} {n : Nat} (hc : c.toInt = n) (hpow2 : 2 ≤ n ∧ n &&& (n - 1) = 0) :
    ∃ l : LongRing α, LongRing.make c = .ok l ∧
      Stands n 0 l {}
        { slots := fun _ => none, capacity := n, capacity_pow2 := hpow2, head := 0, tail := 0, drops := 0 } := by
  have hlt : n < 2 ^ 31 := by
    have := c.toInt_lt
    omega
  obtain ⟨htwo, hand⟩ := hpow2
  obtain ⟨hcast, hpred, hiff⟩ := and_pred_eq_zero hc (by omega)
  have hword := hiff.mpr hand
  have hsmall : ¬c < 2 := by
    rw [Int32.lt_iff_toInt_lt, hc]
    show ¬(n : Int) < 2
    omega
  have hl : LongRing.make c = .ok { length := c, mask := c - 1 : LongRing α } := by
    simp [LongRing.make, hsmall, hword]
  exact ⟨_, hl, ⟨rfl, hcast, hpred, hlt, rfl, rfl, rfl⟩, ⟨rfl, Nat.zero_le _, Cyclic.Window.empty _ _ _⟩, rfl, rfl, rfl,
    Nat.le_refl 0⟩

/-- Every power of two is accepted. -/
theorem make {c : Int32} {n k : Nat} (hc : c.toInt = n) (htwo : 2 ≤ n) (hpow : n = 2 ^ k) :
    ∃ (l : LongRing α) (r : FrameRing α), LongRing.make c = .ok l ∧ Stands n 0 l {} r := by
  have hand : n &&& (n - 1) = 0 := by
    rw [hpow, Nat.and_two_pow_sub_one_eq_mod, Nat.mod_self]
  obtain ⟨l, hl, hnew⟩ := new hc ⟨htwo, hand⟩
  exact ⟨l, _, hl, hnew⟩

/-- What the constructor on numbers accepts, the one on `long`s accepts. -/
theorem of_make {c : Int32} (h : FrameRing.make c.toNatClampNeg = .ok r) :
    ∃ l : LongRing α, LongRing.make c = .ok l ∧ Stands c.toNatClampNeg 0 l {} r := by
  unfold FrameRing.make at h
  split at h
  · rename_i hpow2
    cases h
    refine new ?_ hpow2
    have htwo := hpow2.1
    rw [Int32.toNatClampNeg] at htwo ⊢
    omega
  · cases h

theorem offer (h : Stands capacity offered l q r) (frame : α) :
    Stands capacity (offered + 1) (l.offer frame).2 (q.offer capacity frame) (r.offer frame) := by
  obtain ⟨hqueue, hdrops, hcap⟩ := h.queue.offer frame
  rw [h.capacity_eq] at hqueue hdrops
  have hle := h.discarded_le
  exact
    { counts := h.counts.offer h.queue frame
      queue := hqueue
      capacity_eq := hcap.trans h.capacity_eq
      head_eq := by rw [FrameRing.offer_head, h.head_eq]
      drops_eq := by rw [hdrops, h.drops_eq, DropOldest.offer]
      discarded_le := by
        simp only [DropOldest.offer]
        split <;> omega }

theorem poll (h : Stands capacity offered l q r) (hlt : offered < 2 ^ 63) :
    l.poll.1 = q.content.head? ∧
      Stands capacity offered l.poll.2 { q with content := q.content.tail } r.poll.2 := by
  obtain ⟨hanswer, hcounts⟩ := h.counts.poll h.queue (h.head_eq ▸ hlt)
  obtain ⟨content, discarded⟩ := q
  cases content with
  | nil =>
    have hpoll := h.queue.poll_nil
    rw [hpoll] at hanswer hcounts
    rw [hpoll]
    exact ⟨hanswer, { h with counts := hcounts }⟩
  | cons frame rest =>
    obtain ⟨hfirst, hqueue, hdrops, hcap⟩ := Queue.poll_cons h.queue
    exact ⟨hanswer.trans hfirst,
      { counts := hcounts
        queue := hqueue
        capacity_eq := hcap.trans h.capacity_eq
        head_eq := (FrameRing.poll_head r).trans h.head_eq
        drops_eq := hdrops.trans h.drops_eq
        discarded_le := h.discarded_le }⟩

/-- What `size` and `drops` give. -/
theorem reads (h : Stands capacity offered l q r) (hlt : offered < 2 ^ 63) :
    l.size.toInt = q.content.length ∧ q.content.length ≤ capacity ∧ l.drops.toInt = q.discarded := by
  have hle := h.discarded_le
  refine ⟨h.counts.size_eq h.queue, h.capacity_eq ▸ h.queue.le_capacity, ?_⟩
  rw [h.counts.drops_eq, h.drops_eq]
  exact Int64.toInt_ofNat_of_lt (by omega)

/-- **One call on the ring is one call on the queue**, and the other way round. -/
theorem call (h : Stands capacity offered l q r) (hlt : offered < 2 ^ 63) (c : RingCall α) :
    (l.call c).1 = (q.call capacity c).1 ∧
      ∃ r', Stands capacity (offered + if c.isOffer then 1 else 0) (l.call c).2 (q.call capacity c).2 r' := by
  cases c with
  | offer frame => exact ⟨rfl, _, h.offer frame⟩
  | poll =>
    obtain ⟨hanswer, hnext⟩ := h.poll hlt
    exact ⟨congrArg RingReply.polled hanswer, _, hnext⟩

end Stands

/-! ## Runs -/

/-- **The ring is the bounded queue that loses its oldest element**, on every run that offers fewer than `2 ^ 63`
frames: the same answers, and behind the run the size and the drops of the queue. -/
theorem longRing_refines (α : Type*) (c : Int32) (hc : 2 ≤ c.toInt) (hpow : ∃ k : Nat, c.toInt = 2 ^ k) :
    ∃ ring : LongRing α, LongRing.make c = .ok ring ∧
      ∀ calls : List (RingCall α), calls.countP RingCall.isOffer < 2 ^ 63 →
        let actual := Runs.serve LongRing.call ring calls
        let queue := Runs.serve (DropOldest.call c.toInt.toNat) {} calls
        actual.1 = queue.1 ∧ actual.2.size.toInt = queue.2.content.length ∧
          queue.2.content.length ≤ c.toInt.toNat ∧ actual.2.drops.toInt = queue.2.discarded := by
  obtain ⟨k, hk⟩ := hpow
  obtain ⟨n, hn⟩ := Int.eq_ofNat_of_zero_le (show 0 ≤ c.toInt by omega)
  obtain ⟨ring, r, hmake, hnew⟩ := Stands.make (α := α) hn (by omega) (by exact_mod_cast hn.symm.trans hk)
  refine ⟨ring, hmake, fun calls hcount => ?_⟩
  rw [hn, Int.toNat_natCast]
  let R (is : List (RingCall α)) (l : LongRing α) (q : DropOldest α) : Prop :=
    ∃ offered r, Stands n offered l q r ∧ offered + is.countP RingCall.isOffer < 2 ^ 63
  have hstep : ∀ call rest l q, R (call :: rest) l q →
      (l.call call).1 = (q.call n call).1 ∧ R rest (l.call call).2 (q.call n call).2 := by
    rintro call rest l q ⟨offered, r, h, hlt⟩
    rw [List.countP_cons] at hlt
    obtain ⟨hanswer, r', hnext⟩ := h.call (by omega) call
    exact ⟨hanswer, _, r', hnext, by omega⟩
  obtain ⟨hanswers, offered, r', hlast, hlt⟩ := Runs.serve_sim hstep calls ring {} ⟨0, r, hnew, by omega⟩
  exact ⟨hanswers, hlast.reads (by omega)⟩

/-- The witness: a ring of four frames, overrun twice and then polled. -/
theorem longRing_refines_four :
    ∃ ring : LongRing Nat, LongRing.make 4 = .ok ring ∧
      (Runs.serve LongRing.call ring ((List.range 6).map RingCall.offer ++ [.poll])).1.getLast? =
        some (.polled (some 2)) := by
  obtain ⟨ring, hmake, hruns⟩ := longRing_refines Nat 4 (by decide) ⟨2, by decide⟩
  refine ⟨ring, hmake, ?_⟩
  obtain ⟨hanswers, -⟩ := hruns ((List.range 6).map RingCall.offer ++ [.poll]) (by decide)
  rw [hanswers]
  rfl

/-! ## The wrap of the head -/

/-- Behind any number of offers, even where the head has wrapped. -/
theorem Stands.offers {capacity offered : Nat} {l : LongRing α} {q : DropOldest α} {r : FrameRing α}
    (h : Stands capacity offered l q r) (frame : α) (n : Nat) :
    let calls := List.replicate n (RingCall.offer frame)
    ∃ r', Stands capacity (offered + n) (Runs.serve LongRing.call l calls).2
      (Runs.serve (DropOldest.call capacity) q calls).2 r' := by
  induction n generalizing offered l q r with
  | zero => exact ⟨r, h⟩
  | succ n ih =>
    obtain ⟨r', hlast⟩ := ih (h.offer frame)
    rw [Nat.add_right_comm] at hlast
    exact ⟨r', hlast⟩

/-- With offer number `2 ^ 63` the head is the least `long`, and `poll` gives `null`. -/
theorem Stands.poll_wrapped {capacity : Nat} {l : LongRing α} {q : DropOldest α} {r : FrameRing α}
    (h : Stands capacity (2 ^ 63) l q r) : l.poll.1 = none := by
  have hhead : l.head = Int64.minValue := by
    rw [h.counts.head_eq, h.head_eq]
    rfl
  have hge : l.tail ≥ l.head := hhead ▸ Int64.minValue_le l.tail
  simp only [LongRing.poll, hge, if_true]

/-- A queue is not empty behind an offer. -/
theorem head?_offers (capacity : Nat) (q : DropOldest α) (frame : α) (n : Nat) (hn : 0 < n) :
    (Runs.serve (DropOldest.call capacity) q (List.replicate n (RingCall.offer frame))).2.content.head? ≠ none := by
  obtain ⟨m, rfl⟩ := Nat.exists_eq_succ_of_ne_zero (Nat.pos_iff_ne_zero.mp hn)
  rw [List.replicate_succ', Runs.serve_append]
  simp [DropOldest.call, DropOldest.offer, enqueue]

/-- A ring of two frames, offered `2 ^ 63` of them, answers the next `poll` with `null`; the queue does not. -/
theorem longRing_wrapped :
    ¬∀ ring : LongRing Nat, LongRing.make 2 = .ok ring →
      ∀ calls, calls = List.replicate (2 ^ 63) (RingCall.offer 0) ++ [.poll] →
        (Runs.serve LongRing.call ring calls).1 = (Runs.serve (DropOldest.call 2) {} calls).1 := by
  intro hall
  obtain ⟨ring, r, hmake, hnew⟩ := Stands.make (α := Nat) (c := 2) (n := 2) (k := 1) (by decide) (by decide) (by decide)
  obtain ⟨r', hlast⟩ := hnew.offers 0 (2 ^ 63)
  rw [Nat.zero_add] at hlast
  have hqueue := head?_offers 2 {} 0 (2 ^ 63) (Nat.two_pow_pos 63)
  have hrun := hall ring hmake _ rfl
  rw [Runs.serve_snoc, Runs.serve_snoc] at hrun
  have hpolled := List.append_inj_right' hrun (by rw [List.length_singleton, List.length_singleton])
  rw [List.cons.injEq, LongRing.call, DropOldest.call, RingReply.polled.injEq, hlast.poll_wrapped] at hpolled
  exact hqueue hpolled.1.symm

end ZcMesh.Operator
