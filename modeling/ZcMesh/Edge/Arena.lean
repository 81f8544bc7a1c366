import Mathlib.Data.UInt
import ZcMesh.Lib.Carve
import ZcMesh.Lib.Run

/-!
# The arena

`core-engine/src/arena.cpp`: `allocate`, `alloc<T>` and `reset`, with the arithmetic of `size_t` and `uintptr_t`, and
the constructor of `FrameBatch`, which takes its frames from the arena.

* A request gets the first aligned address behind what is in use, when the padding and the size, modulo 2^64, fit
  (`allocate_eq`).
* As long as no sum or product wraps, or the wrapped one does not fit either, the blocks are carved out of the arena
  (`Owned`); a wrapped request that is granted never gets what it asked for: `arena_iff`.
-/

namespace ZcMesh.Core

open Carve (Block Carved)

/-! ## The code -/

/-- `Arena`; `base` is the address of its memory. -/
structure Arena where
  base : UInt64
  capacity : UInt64
  offset : UInt64
  deriving DecidableEq, Repr

/-- `std::invalid_argument` and `std::bad_alloc`. -/
inductive ArenaError
  | invalidArgument
  | badAlloc
  deriving DecidableEq, Repr

namespace Arena

variable (a : Arena)

/-- The constructor, once the memory is there. -/
def make (base capacity : UInt64) : Arena := { base, capacity, offset := 0 }

def used : UInt64 := a.offset

def remaining : UInt64 := a.capacity - a.offset

/-- `allocate`. -/
def allocate (size alignment : UInt64) : Except ArenaError (UInt64 × Arena) :=
  if alignment = 0 ∨ alignment &&& (alignment - 1) ≠ 0 then .error .invalidArgument
  else
    let current := a.base + a.offset
    let aligned := (current + (alignment - 1)) &&& ~~~(alignment - 1)
    let pad := aligned - current
    let total := pad + size
    if total > a.remaining then .error .badAlloc else .ok (aligned, { a with offset := a.offset + total })

/-- `alloc<T>`, for a `T` with this `sizeof` and `alignof`. -/
def alloc (sizeOf alignOf count : UInt64) : Except ArenaError (UInt64 × Arena) := a.allocate (sizeOf * count) alignOf

def reset : Arena := { a with offset := 0 }

/-- The frames of a new `FrameBatch`: 24 packed bytes each. -/
def allocFrames (capacityFrames : UInt64) : Except ArenaError (UInt64 × Arena) := a.alloc 24 1 capacityFrames

end Arena

/-- The calls. -/
inductive ArenaCall
  | allocate (size alignment : UInt64)
  | alloc (sizeOf alignOf count : UInt64)
  | reset
  deriving DecidableEq

/-- The arena, and the history: the blocks handed out since the last reset, as long as they were asked for. -/
structure ArenaRun where
  arena : Arena
  blocks : List Block := []

namespace ArenaRun

/-- What a call comes to; a call that throws changes nothing. -/
def take (s : ArenaRun) (length : Nat) : Except ArenaError (UInt64 × Arena) → ArenaRun
  | .error _ => s
  | .ok (p, arena) => { arena, blocks := s.blocks ++ [⟨p.toNat, length⟩] }

def step (s : ArenaRun) : ArenaCall → ArenaRun
  | .allocate size alignment => s.take size.toNat (s.arena.allocate size alignment)
  | .alloc sizeOf alignOf count => s.take (sizeOf.toNat * count.toNat) (s.arena.alloc sizeOf alignOf count)
  | .reset => { arena := s.arena.reset }

def start (base capacity : UInt64) : ArenaRun := { arena := .make base capacity }

/-- Behind the arena. -/
def stop (s : ArenaRun) : Nat := s.arena.base.toNat + s.arena.capacity.toNat

/-- A block that was handed out is in the arena, aligned, and apart from the others. -/
def Granted (s : ArenaRun) (length : Nat) (alignment : UInt64) : Except ArenaError (UInt64 × Arena) → Prop
  | .error _ => True
  | .ok (p, arena) => (Block.mk p.toNat length).Inside s.arena.base.toNat s.stop ∧ alignment.toNat ∣ p.toNat ∧
      (∀ b ∈ s.blocks, b.Apart ⟨p.toNat, length⟩) ∧ arena.used ≤ arena.capacity

/-- What a call promises. -/
def Good (s : ArenaRun) : ArenaCall → Prop
  | .allocate size alignment => s.Granted size.toNat alignment (s.arena.allocate size alignment)
  | .alloc sizeOf alignOf count =>
    s.Granted (sizeOf.toNat * count.toNat) alignOf (s.arena.alloc sizeOf alignOf count)
  | .reset => True

/-- The padding and the length do not wrap, or what is left of them does not fit either. -/
def Whole (s : ArenaRun) (length : Nat) (alignment : UInt64) : Prop :=
  let current := s.arena.base.toNat + s.arena.offset.toNat
  let pad := Carve.up alignment.toNat current - current
  alignment.toNat.isPowerOfTwo →
    pad + length < 2 ^ 64 ∨ s.arena.capacity.toNat - s.arena.offset.toNat < (pad + length) % 2 ^ 64

instance decidableWhole (s : ArenaRun) (length : Nat) (alignment : UInt64) : Decidable (s.Whole length alignment) :=
  inferInstanceAs (Decidable (_ → _ ∨ _))

/-- The condition on a call. -/
def WrapFree (s : ArenaRun) : ArenaCall → Prop
  | .allocate size alignment => s.Whole size.toNat alignment
  | .alloc sizeOf alignOf count => s.Whole (sizeOf.toNat * count.toNat) alignOf
  | .reset => True

instance decidableWrapFree (s : ArenaRun) : ∀ call, Decidable (s.WrapFree call)
  | .allocate size alignment => inferInstanceAs (Decidable (s.Whole size.toNat alignment))
  | .alloc sizeOf alignOf count => inferInstanceAs (Decidable (s.Whole (sizeOf.toNat * count.toNat) alignOf))
  | .reset => inferInstanceAs (Decidable True)

end ArenaRun

/-! ## One request -/

namespace Arena

variable {a : Arena}

/-- The arena has memory that does not wrap around the address space, and uses no more of it. -/
structure Placed (a : Arena) : Prop where
  base_pos : 0 < a.base.toNat
  room : a.base.toNat + a.capacity.toNat < 2 ^ 64
  used_le : a.offset.toNat ≤ a.capacity.toNat

/-- The address behind what is in use. -/
def current (a : Arena) : Nat := a.base.toNat + a.offset.toNat

/-- The bytes in front of the next aligned address. -/
def padding (a : Arena) (alignment : UInt64) : Nat := Carve.up alignment.toNat a.current - a.current

theorem power_iff (alignment : UInt64) :
    ¬ (alignment = 0 ∨ alignment &&& (alignment - 1) ≠ 0) ↔ alignment.toNat.isPowerOfTwo := by
  rw [← Nat.ne_zero_and_sub_one_eq_zero_iff_isPowerOfTwo, not_or, not_not, ← UInt64.toNat_inj, ← UInt64.toNat_inj]
  refine and_congr_right fun hne => ?_
  have hle : (1 : UInt64) ≤ alignment := by
    rw [UInt64.le_iff_toNat_le]
    exact Nat.pos_of_ne_zero hne
  rw [UInt64.toNat_and, UInt64.toNat_sub_of_le _ _ hle]
  rfl

/-- The next aligned address, as the code computes it. -/
theorem toNat_aligned {alignment : UInt64} (hpow : alignment.toNat.isPowerOfTwo) (current : UInt64) :
    ((current + (alignment - 1)) &&& ~~~(alignment - 1)).toNat = Carve.up alignment.toNat current.toNat % 2 ^ 64 := by
  obtain ⟨k, hk⟩ := hpow
  have hlt : 2 ^ k < 2 ^ 64 := by rw [← hk]; exact alignment.toNat_lt
  have hk64 : k ≤ 64 := Nat.le_of_lt ((Nat.pow_lt_pow_iff_right (by decide)).mp hlt)
  have hle : (1 : UInt64) ≤ alignment := by
    rw [UInt64.le_iff_toNat_le, hk]
    exact Nat.two_pow_pos k
  have hsub : (alignment - 1).toNat = 2 ^ k - 1 := by rw [UInt64.toNat_sub_of_le _ _ hle, hk]; rfl
  have hnot : (~~~(alignment - 1)).toNat = 2 ^ 64 - 1 - (2 ^ k - 1) := by
    rw [UInt64.toNat_not, hsub]
    rfl
  rw [UInt64.toNat_and, UInt64.toNat_add, hsub, hnot, Carve.and_mask hk64 (Nat.mod_lt _ (by decide)),
    Carve.up_mod hk64, hk]

theorem padding_lt {alignment : UInt64} (hpow : alignment.toNat.isPowerOfTwo) (a : Arena) :
    a.padding alignment < alignment.toNat ∧ Carve.up alignment.toNat a.current = a.current + a.padding alignment := by
  have hpos := Nat.pos_of_isPowerOfTwo hpow
  have hle := Carve.le_up (x := a.current) hpos
  have hlt := Carve.up_lt (x := a.current) hpos
  unfold padding
  omega

/-- The next aligned address is at most the end of the address space, where it wraps to 0. -/
theorem aligned_le {alignment : UInt64} (hpow : alignment.toNat.isPowerOfTwo) (h : a.current < 2 ^ 64) :
    a.current + a.padding alignment ≤ 2 ^ 64 := by
  rw [← (padding_lt hpow a).2]
  refine Carve.up_le ?_ (Nat.le_of_lt h) (Nat.pos_of_isPowerOfTwo hpow)
  obtain ⟨k, hk⟩ := hpow
  have hlt : 2 ^ k < 2 ^ 64 := by rw [← hk]; exact alignment.toNat_lt
  rw [hk]
  exact Nat.pow_dvd_pow 2 (Nat.le_of_lt ((Nat.pow_lt_pow_iff_right (by decide)).mp hlt))

/-- **What `allocate` does**, with the padding and the sizes as numbers. -/
theorem allocate_eq (h : a.Placed) (size : UInt64) {alignment : UInt64} (hpow : alignment.toNat.isPowerOfTwo) :
    (a.capacity.toNat - a.offset.toNat < (a.padding alignment + size.toNat) % 2 ^ 64 ∧
      a.allocate size alignment = .error .badAlloc) ∨
    ((a.padding alignment + size.toNat) % 2 ^ 64 ≤ a.capacity.toNat - a.offset.toNat ∧
      ∃ p offset : UInt64, a.allocate size alignment = .ok (p, { a with offset }) ∧
        p.toNat = (a.current + a.padding alignment) % 2 ^ 64 ∧
        offset.toNat = a.offset.toNat + (a.padding alignment + size.toNat) % 2 ^ 64) := by
  have hroom := h.room
  have hused := h.used_le
  obtain ⟨hlt, hup⟩ := padding_lt hpow a
  have hcurrent : (a.base + a.offset).toNat = a.current := by
    rw [UInt64.toNat_add, current]
    omega
  have haligned := toNat_aligned hpow (a.base + a.offset)
  rw [hcurrent, hup] at haligned
  have hpad : (((a.base + a.offset + (alignment - 1)) &&& ~~~(alignment - 1)) - (a.base + a.offset)).toNat =
      a.padding alignment := by
    have hsmall := alignment.toNat_lt
    have hbound : a.current < 2 ^ 64 := by rw [← hcurrent]; exact UInt64.toNat_lt _
    rw [UInt64.toNat_sub, haligned, hcurrent]
    omega
  have hremaining : a.remaining.toNat = a.capacity.toNat - a.offset.toNat :=
    UInt64.toNat_sub_of_le _ _ (UInt64.le_iff_toNat_le.mpr hused)
  unfold allocate
  rw [if_neg ((power_iff alignment).mpr hpow)]
  simp only
  generalize (a.base + a.offset + (alignment - 1)) &&& ~~~(alignment - 1) = aligned at haligned hpad
  have htotal : (aligned - (a.base + a.offset) + size).toNat = (a.padding alignment + size.toNat) % 2 ^ 64 := by
    rw [UInt64.toNat_add, hpad]
  by_cases hfits : aligned - (a.base + a.offset) + size > a.remaining
  · rw [if_pos hfits]
    have hnat := UInt64.lt_iff_toNat_lt.mp hfits
    rw [htotal, hremaining] at hnat
    exact Or.inl ⟨hnat, rfl⟩
  · rw [if_neg hfits]
    have hnat := UInt64.le_iff_toNat_le.mp (UInt64.not_lt.mp hfits)
    rw [htotal, hremaining] at hnat
    refine Or.inr ⟨hnat, aligned, _, rfl, haligned, ?_⟩
    rw [UInt64.toNat_add, htotal]
    omega

/-- A request with an alignment that is not a power of two throws. -/
theorem allocate_invalid {alignment : UInt64} (hpow : ¬ alignment.toNat.isPowerOfTwo) (a : Arena) (size : UInt64) :
    a.allocate size alignment = .error .invalidArgument := by
  rw [allocate, if_pos (not_not.mp fun hneg => hpow ((power_iff alignment).mp hneg))]

/-- The arena stays where it is, and within its bounds, whatever is asked for. -/
theorem allocate_ok (h : a.Placed) {size alignment p : UInt64} {a' : Arena}
    (hok : a.allocate size alignment = .ok (p, a')) : a'.Placed ∧ a'.base = a.base ∧ a'.capacity = a.capacity := by
  by_cases hpow : alignment.toNat.isPowerOfTwo
  · rcases allocate_eq h size hpow with ⟨_, heq⟩ | ⟨hfits, q, offset, heq, _, hoffset⟩
    · rw [heq] at hok
      cases hok
    · rw [heq] at hok
      cases hok
      have hused := h.used_le
      exact ⟨⟨h.base_pos, h.room, by show offset.toNat ≤ a.capacity.toNat; omega⟩, rfl, rfl⟩
  · rw [allocate_invalid hpow] at hok
    cases hok

end Arena

/-! ## Runs -/

namespace ArenaRun

variable {s : ArenaRun} {length : Nat} {size alignment : UInt64}

/-- The arena of a run. -/
structure Kept (base capacity : UInt64) (s : ArenaRun) : Prop where
  placed : s.arena.Placed
  base_eq : s.arena.base = base
  capacity_eq : s.arena.capacity = capacity

theorem Kept.take {base capacity : UInt64} (h : s.Kept base capacity) (length : Nat) (size alignment : UInt64) :
    (s.take length (s.arena.allocate size alignment)).Kept base capacity := by
  cases hres : s.arena.allocate size alignment with
  | error _ => exact h
  | ok res =>
    obtain ⟨hplaced, hbase, hcapacity⟩ := Arena.allocate_ok h.placed hres
    exact ⟨hplaced, hbase.trans h.base_eq, hcapacity.trans h.capacity_eq⟩

theorem Kept.step {base capacity : UInt64} (h : s.Kept base capacity) (call : ArenaCall) :
    (s.step call).Kept base capacity := by
  cases call with
  | allocate size alignment => exact h.take _ size alignment
  | alloc sizeOf alignOf count => exact h.take _ (sizeOf * count) alignOf
  | reset => exact ⟨⟨h.placed.base_pos, h.placed.room, Nat.zero_le _⟩, h.base_eq, h.capacity_eq⟩

/-- The blocks are carved out of what is in use. -/
structure Owned (s : ArenaRun) : Prop where
  placed : s.arena.Placed
  carved : Carved s.arena.base.toNat s.arena.current s.blocks

theorem owned_start {base capacity : UInt64} (hbase : 0 < base) (hroom : base.toNat + capacity.toNat < 2 ^ 64) :
    (start base capacity).Owned where
  placed := ⟨UInt64.lt_iff_toNat_lt.mp hbase, hroom, Nat.zero_le _⟩
  carved := Carve.carved_nil _ _

/-- Without wrapping, the block that is granted is as promised, and the blocks are still carved out. -/
theorem Owned.granted_of_fits (h : s.Owned) (hpow : alignment.toNat.isPowerOfTwo) {p offset : UInt64}
    (hfits : s.arena.padding alignment + length ≤ s.arena.capacity.toNat - s.arena.offset.toNat)
    (hp : p.toNat = (s.arena.current + s.arena.padding alignment) % 2 ^ 64)
    (hoffset : offset.toNat = s.arena.offset.toNat + (s.arena.padding alignment + length)) :
    s.Granted length alignment (.ok (p, { s.arena with offset })) ∧
      (s.take length (.ok (p, { s.arena with offset }))).Owned := by
  have hroom := h.placed.room
  have hused := h.placed.used_le
  have hpos := h.placed.base_pos
  have hstart : p.toNat = s.arena.current + s.arena.padding alignment := by
    rw [hp, Arena.current]
    omega
  have hinside : s.arena.base.toNat ≤ p.toNat ∧
      p.toNat + length ≤ s.arena.base.toNat + s.arena.capacity.toNat := by
    rw [hstart, Arena.current]
    omega
  have hbehind : s.arena.current ≤ p.toNat := by omega
  have hwithin : offset.toNat ≤ s.arena.capacity.toNat := by omega
  refine ⟨⟨hinside, ?_, h.carved.apart_of_le hbehind, UInt64.le_iff_toNat_le.mpr hwithin⟩,
    ⟨hpos, hroom, hwithin⟩, ?_⟩
  · rw [hstart, ← (Arena.padding_lt hpow s.arena).2]
    exact Carve.dvd_up
  · have hcut := h.carved.cut (Nat.le_add_right _ _) (c := ⟨p.toNat, length⟩) hbehind
    have hstop : (Block.mk p.toNat length).stop = s.arena.base.toNat + offset.toNat := by
      change p.toNat + length = _
      rw [hstart, hoffset, Arena.current]
      omega
    rw [hstop] at hcut
    exact hcut

/-- When the sum wraps, the block is longer than what is left, or starts at the address 0. -/
theorem Owned.not_granted (h : s.Owned) (hpow : alignment.toNat.isPowerOfTwo) {p : UInt64} {a : Arena}
    (hlt : ¬ s.arena.padding alignment + length < 2 ^ 64)
    (hp : p.toNat = (s.arena.current + s.arena.padding alignment) % 2 ^ 64) :
    ¬ s.Granted length alignment (.ok (p, a)) := by
  rintro ⟨⟨hlo, hhi⟩, _⟩
  change s.arena.base.toNat ≤ p.toNat at hlo
  change p.toNat + length ≤ s.arena.base.toNat + s.arena.capacity.toNat at hhi
  have hroom := h.placed.room
  have hused := h.placed.used_le
  have hpos := h.placed.base_pos
  have hbound : s.arena.current < 2 ^ 64 := by
    rw [Arena.current]
    omega
  have hend := Arena.aligned_le hpow hbound
  rcases Nat.lt_or_ge (s.arena.current + s.arena.padding alignment) (2 ^ 64) with hbelow | habove
  · rw [Nat.mod_eq_of_lt hbelow, Arena.current] at hp
    omega
  · rw [Nat.le_antisymm hend habove, Nat.mod_self] at hp
    omega

/-- A request is as promised if and only if nothing wrapped; then the blocks are still carved out. -/
theorem Owned.granted (h : s.Owned) (hsize : size.toNat = length % 2 ^ 64) :
    (s.Granted length alignment (s.arena.allocate size alignment) ↔ s.Whole length alignment) ∧
      (s.Whole length alignment → (s.take length (s.arena.allocate size alignment)).Owned) := by
  by_cases hpow : alignment.toNat.isPowerOfTwo
  · have hmod : (s.arena.padding alignment + size.toNat) % 2 ^ 64 = (s.arena.padding alignment + length) % 2 ^ 64 := by
      rw [hsize, Nat.add_mod_mod]
    have hwhole : s.Whole length alignment ↔ s.arena.padding alignment + length < 2 ^ 64 ∨
        s.arena.capacity.toNat - s.arena.offset.toNat < (s.arena.padding alignment + length) % 2 ^ 64 :=
      ⟨fun hw => hw hpow, fun hw _ => hw⟩
    have hresult := Arena.allocate_eq h.placed size hpow
    rw [hmod] at hresult
    rcases hresult with ⟨hmore, heq⟩ | ⟨hfits, p, offset, heq, hp, hoffset⟩
    · rw [heq]
      exact ⟨⟨fun _ => hwhole.mpr (Or.inr hmore), fun _ => trivial⟩, fun _ => h⟩
    · rw [heq, hwhole]
      by_cases hlt : s.arena.padding alignment + length < 2 ^ 64
      · rw [Nat.mod_eq_of_lt hlt] at hfits hoffset
        obtain ⟨hgranted, howned⟩ := h.granted_of_fits hpow hfits hp hoffset
        exact ⟨⟨fun _ => Or.inl hlt, fun _ => hgranted⟩, fun _ => howned⟩
      · have hno : ¬ (s.arena.padding alignment + length < 2 ^ 64 ∨
            s.arena.capacity.toNat - s.arena.offset.toNat < (s.arena.padding alignment + length) % 2 ^ 64) := by
          rintro (hwrap | hover)
          · exact hlt hwrap
          · exact absurd hfits (Nat.not_le.mpr hover)
        exact ⟨⟨fun hgranted => absurd hgranted (h.not_granted hpow hlt hp), fun hw => absurd hw hno⟩,
          fun hw => absurd hw hno⟩
  · rw [Arena.allocate_invalid hpow]
    exact ⟨⟨fun _ hyes => absurd hyes hpow, fun _ => trivial⟩, fun _ => h⟩

theorem Owned.good_iff (h : s.Owned) (call : ArenaCall) : s.Good call ↔ s.WrapFree call := by
  cases call with
  | allocate size alignment => exact (h.granted (Nat.mod_eq_of_lt size.toNat_lt).symm).1
  | alloc sizeOf alignOf count => exact (h.granted (UInt64.toNat_mul sizeOf count)).1
  | reset => exact Iff.rfl

theorem Owned.step (h : s.Owned) {call : ArenaCall} (hcall : s.WrapFree call) : (s.step call).Owned := by
  cases call with
  | allocate size alignment => exact (h.granted (Nat.mod_eq_of_lt size.toNat_lt).symm).2 hcall
  | alloc sizeOf alignOf count => exact (h.granted (UInt64.toNat_mul sizeOf count)).2 hcall
  | reset =>
    exact ⟨⟨h.placed.base_pos, h.placed.room, Nat.zero_le _⟩, Carve.carved_nil _ _⟩

/-- The call throws. -/
def Throws (s : ArenaRun) : ArenaCall → Prop
  | .allocate size alignment => ∃ err, s.arena.allocate size alignment = .error err
  | .alloc sizeOf alignOf count => ∃ err, s.arena.alloc sizeOf alignOf count = .error err
  | .reset => False

/-- A call that throws leaves everything as it is. -/
theorem step_of_throws {call : ArenaCall} (h : s.Throws call) : s.step call = s := by
  cases call with
  | allocate size alignment =>
    obtain ⟨err, heq⟩ := h
    simp only [step, heq, take]
  | alloc sizeOf alignOf count =>
    obtain ⟨err, heq⟩ := h
    simp only [step, heq, take]
  | reset => cases h

/-- The slots of the frames of a batch. -/
def Slots (s : ArenaRun) (p : UInt64) (capacityFrames : UInt64) : Prop :=
  ∀ i < capacityFrames.toNat, (Block.mk (p.toNat + 24 * i) 24).Inside s.arena.base.toNat s.stop

/-- The frames of a batch are in the arena if and only if their bytes can be counted. -/
theorem Owned.slots_iff (h : s.Owned) {capacityFrames p : UInt64} {arena : Arena}
    (hok : s.arena.allocFrames capacityFrames = .ok (p, arena)) :
    s.Slots p capacityFrames ↔ 24 * capacityFrames.toNat < 2 ^ 64 := by
  have hroom := h.placed.room
  constructor
  · intro hslots
    rcases Nat.eq_zero_or_pos capacityFrames.toNat with hzero | hpos
    · rw [hzero]
      decide
    · have hlast := (hslots (capacityFrames.toNat - 1) (by omega)).2
      change p.toNat + 24 * (capacityFrames.toNat - 1) + 24 ≤ s.arena.base.toNat + s.arena.capacity.toNat at hlast
      omega
  · intro hlt i hi
    have hone : (1 : UInt64).toNat.isPowerOfTwo := Nat.isPowerOfTwo_one
    have hpad : s.arena.padding 1 = 0 := Nat.lt_one_iff.mp (Arena.padding_lt hone s.arena).1
    have hwhole : s.Whole (24 * capacityFrames.toNat) 1 := by
      refine fun _ => Or.inl ?_
      show s.arena.padding 1 + 24 * capacityFrames.toNat < 2 ^ 64
      omega
    have hgood : s.Granted (24 * capacityFrames.toNat) 1 (s.arena.allocFrames capacityFrames) :=
      (h.good_iff (.alloc 24 1 capacityFrames)).mpr hwhole
    rw [hok] at hgood
    obtain ⟨⟨hlo, hhi⟩, _⟩ := hgood
    change s.arena.base.toNat ≤ p.toNat at hlo
    change p.toNat + 24 * capacityFrames.toNat ≤ s.stop at hhi
    constructor
    · show s.arena.base.toNat ≤ p.toNat + 24 * i
      omega
    · show p.toNat + 24 * i + 24 ≤ s.stop
      omega

/-- **When the arena hands out only what it owns.** In every run every call is as promised if and only if no padding and
length add up to 2^64, unless what is left modulo 2^64 does not fit either; then the blocks lie in the arena and apart,
and the frames of a batch that is made next are in the arena if and only if 24 bytes for each are below 2^64. In any
case the arena uses no more than it has, and a call that throws changes nothing. -/
theorem arena_iff (base capacity : UInt64) (hbase : 0 < base) (hroom : base.toNat + capacity.toNat < 2 ^ 64)
    (calls : List ArenaCall) :
    let s := Runs.run step (start base capacity) calls
    (Runs.AllSteps step Good (start base capacity) calls ↔ Runs.AllSteps step WrapFree (start base capacity) calls) ∧
    (Runs.AllSteps step WrapFree (start base capacity) calls →
      Carved base.toNat (base.toNat + capacity.toNat) s.blocks ∧
      ∀ capacityFrames p arena, s.arena.allocFrames capacityFrames = .ok (p, arena) →
        (s.Slots p capacityFrames ↔ 24 * capacityFrames.toNat < 2 ^ 64)) ∧
    s.arena.used ≤ s.arena.capacity ∧ ∀ call, s.Throws call → s.step call = s := by
  intro s
  have hstart := owned_start hbase hroom
  have hkept : s.Kept base capacity :=
    Runs.run_inv (fun _ call h => h.step call) calls _ ⟨hstart.placed, rfl, rfl⟩
  refine ⟨?_, ?_, UInt64.le_iff_toNat_le.mpr hkept.placed.used_le, fun _ h => step_of_throws h⟩
  · exact Runs.allSteps_iff (fun _ _ h hcall => h.step hcall) (fun _ call h => h.good_iff call) hstart
  · intro hfree
    have h : s.Owned := Runs.run_inv_of_steps (fun _ _ h hcall => h.step hcall) calls _ hfree hstart
    have hcarved := h.carved
    rw [hkept.base_eq] at hcarved
    refine ⟨hcarved.mono ?_, fun _ _ _ hok => h.slots_iff hok⟩
    have hused := hkept.placed.used_le
    rw [Arena.current, hkept.base_eq, ← hkept.capacity_eq]
    omega

/-- An arena of 4 MiB: three blocks, a reset, and a batch of 32 frames. -/
theorem arena_iff_batch :
    let s := Runs.run step (start 4096 4194304) [.allocate 10 8, .alloc 4 4 3, .allocate 0 16, .reset, .alloc 24 1 32]
    Carved 4096 (4096 + 4194304) s.blocks ∧ s.blocks = [⟨4096, 768⟩] := by
  intro s
  have h := (arena_iff 4096 4194304 (by decide) (by decide)
    [.allocate 10 8, .alloc 4 4 3, .allocate 0 16, .reset, .alloc 24 1 32]).2.1 (by decide)
  exact ⟨h.1, by decide⟩

/-- A batch of 768614336404564651 frames gets 8 bytes, and nearly all of its slots are outside the arena. -/
theorem arena_wraps :
    let s := start 4096 4194304
    ∃ arena, s.arena.allocFrames 768614336404564651 = .ok (4096, arena) ∧ arena.used = 8 ∧
      ¬ s.Good (.alloc 24 1 768614336404564651) ∧ ¬ s.Slots 4096 768614336404564651 := by
  intro s
  have hok : s.arena.allocFrames 768614336404564651 = .ok (4096, ⟨4096, 4194304, 8⟩) := by decide
  refine ⟨⟨4096, 4194304, 8⟩, hok, rfl, ?_, ?_⟩
  · intro hgood
    have hgranted : s.Granted _ 1 (s.arena.allocFrames 768614336404564651) := hgood
    rw [hok] at hgranted
    exact absurd hgranted.1.2 (by decide)
  · intro hslots
    have hhi := (hslots 200000 (by decide)).2
    exact absurd hhi (by decide)

end ArenaRun

end ZcMesh.Core
