import Mathlib.Data.BitVec

/-!
# Reflected CRCs, a bit and a byte at a time

A reflected CRC of width `w` with polynomial `poly` keeps a register of `w` bits. `bitStep` shifts it down by one bit
and adds the polynomial when the bit shifted out is set; `byteStep` adds a byte to the low end and makes eight bit
steps; `update` runs over a byte string.

* `bitStep` is linear for exclusive or (`bitStep_xor`), hence so is any number of steps (`bitSteps_xor`).
* While the bits shifted out are clear, `n` steps only shift (`bitSteps_of_low_clear`).
* Hence eight steps are a look-up on the low byte and a shift (`byteStep_entry`), which is what a table-driven
  implementation computes.
* A register that takes in the bits of a string one by one (`serial`) comes to the same as `update` (`update_serial`).
* A register takes in as many bytes as it holds at once, as one word (`update_eq_bitSteps`), and a polynomial with its
  top bit loses nothing (`bitSteps_eq_zero`). Hence a difference within the width of the register is never lost, however
  many equal bytes stand around it (`update_burst`).
-/

namespace ReflectedCrc

variable {w : Nat} (poly : BitVec w)

/-- One bit: the register moves down, and the polynomial is added when a set bit leaves. -/
def bitStep (c : BitVec w) : BitVec w := if c.getLsbD 0 then poly ^^^ (c >>> 1) else c >>> 1

/-- `n` bits. -/
def bitSteps : Nat → BitVec w → BitVec w
  | 0, c => c
  | n + 1, c => bitSteps n (bitStep poly c)

/-- One byte. -/
def byteStep (c : BitVec w) (b : BitVec 8) : BitVec w := bitSteps poly 8 (c ^^^ b.setWidth w)

/-- A byte string. -/
def update (c : BitVec w) (bs : List (BitVec 8)) : BitVec w := bs.foldl (byteStep poly) c

/-- The table entry of a byte: eight steps from a register that holds only this byte. -/
def entry (i : BitVec 8) : BitVec w := bitSteps poly 8 (i.setWidth w)

/-! ## Linearity -/

theorem bitStep_xor (a b : BitVec w) : bitStep poly (a ^^^ b) = bitStep poly a ^^^ bitStep poly b := by
  have hshift : (a ^^^ b) >>> 1 = (a >>> 1) ^^^ (b >>> 1) := BitVec.ushiftRight_xor_distrib a b 1
  simp only [bitStep, BitVec.getLsbD_xor, hshift]
  cases a.getLsbD 0 <;> cases b.getLsbD 0
  · rfl
  · simp only [Bool.false_xor, if_true, Bool.false_eq_true, if_false]
    ac_rfl
  · simp only [Bool.xor_false, if_true, Bool.false_eq_true, if_false]
    ac_rfl
  · have hpoly : poly ^^^ poly = 0#w := BitVec.xor_self
    simp only [Bool.xor_self, Bool.false_eq_true, if_false, if_true]
    calc (a >>> 1) ^^^ (b >>> 1) = (poly ^^^ poly) ^^^ ((a >>> 1) ^^^ (b >>> 1)) := by rw [hpoly, BitVec.zero_xor]
      _ = (poly ^^^ (a >>> 1)) ^^^ (poly ^^^ (b >>> 1)) := by ac_rfl

theorem bitSteps_xor (n : Nat) (a b : BitVec w) :
    bitSteps poly n (a ^^^ b) = bitSteps poly n a ^^^ bitSteps poly n b := by
  induction n generalizing a b with
  | zero => rfl
  | succ n ih => simp only [bitSteps, bitStep_xor, ih]

/-- A register whose low `n` bits are clear only moves down in `n` steps. -/
theorem bitSteps_of_low_clear (n : Nat) (c : BitVec w) (h : ∀ i, i < n → c.getLsbD i = false) :
    bitSteps poly n c = c >>> n := by
  induction n generalizing c with
  | zero => simp [bitSteps]
  | succ n ih =>
    have h0 : bitStep poly c = c >>> 1 := by simp [bitStep, h 0 (Nat.succ_pos n)]
    have hrest : ∀ i, i < n → (c >>> 1).getLsbD i = false := by
      intro i hi
      simpa [BitVec.getLsbD_ushiftRight, Nat.add_comm] using h (i + 1) (by omega)
    rw [bitSteps, h0, ih _ hrest, ← BitVec.shiftRight_add, Nat.add_comm]

/-! ## A byte at a time -/

/-- A register is its low byte plus the rest. -/
theorem split_low_byte (x : BitVec w) : x = (x.setWidth 8).setWidth w ^^^ ((x >>> 8) <<< 8) := by
  apply BitVec.eq_of_getLsbD_eq
  intro i hi
  simp only [BitVec.getLsbD_xor, BitVec.getLsbD_setWidth, BitVec.getLsbD_shiftLeft, BitVec.getLsbD_ushiftRight]
  by_cases h : i < 8
  · simp [h, hi]
  · have hge : 8 + (i - 8) = i := by omega
    simp [h, hi, hge]

/-- Eight steps of any register: the table entry of its low byte plus the rest moved down. -/
theorem bitSteps_eight (x : BitVec w) : bitSteps poly 8 x = entry poly (x.setWidth 8) ^^^ (x >>> 8) := by
  have hclear : ∀ i, i < 8 → ((x >>> 8) <<< 8).getLsbD i = false := by
    intro i hi
    simp [BitVec.getLsbD_shiftLeft, hi]
  have hback : ((x >>> 8) <<< 8) >>> 8 = x >>> 8 := by
    apply BitVec.eq_of_getLsbD_eq
    intro i hi
    simp only [BitVec.getLsbD_ushiftRight, BitVec.getLsbD_shiftLeft]
    by_cases h : 8 + i < w
    · simp [h]
    · simp [h, BitVec.getLsbD_of_ge x (8 + i) (by omega)]
  calc bitSteps poly 8 x = bitSteps poly 8 ((x.setWidth 8).setWidth w ^^^ ((x >>> 8) <<< 8)) := by
        rw [← split_low_byte x]
    _ = entry poly (x.setWidth 8) ^^^ bitSteps poly 8 ((x >>> 8) <<< 8) := bitSteps_xor poly 8 _ _
    _ = entry poly (x.setWidth 8) ^^^ (x >>> 8) := by rw [bitSteps_of_low_clear poly 8 _ hclear, hback]

/-- **The table step**: look up the low byte of `c ^ b` and shift `c` down by a byte. -/
theorem byteStep_entry (c : BitVec w) (b : BitVec 8) :
    byteStep poly c b = entry poly ((c ^^^ b.setWidth w).setWidth 8) ^^^ (c >>> 8) := by
  have hb : (b.setWidth w) >>> 8 = 0#w := by
    apply BitVec.eq_of_getLsbD_eq
    intro i _
    simp [BitVec.getLsbD_ushiftRight, BitVec.getLsbD_setWidth]
  rw [byteStep, bitSteps_eight, BitVec.ushiftRight_xor_distrib, hb, BitVec.xor_zero]

/-! ## A bit at a time -/

/-- One bit of the message: the register moves down, and the polynomial is added when the bit that leaves and the bit of
the message differ. -/
def serialBit (c : BitVec w) (b : Bool) : BitVec w :=
  if (c.getLsbD 0 ^^ b) = true then poly ^^^ (c >>> 1) else c >>> 1

/-- The bits of a message, one after the other. -/
def serial (c : BitVec w) (bits : List Bool) : BitVec w := bits.foldl (serialBit poly) c

/-- The bits of a byte, lowest first. -/
def bitsOf (b : BitVec 8) : List Bool := (List.range 8).map b.getLsbD

/-- A register with a message added to its low end takes in the lowest bit of it. -/
theorem bitStep_xor_message (c x : BitVec w) :
    bitStep poly (c ^^^ x) = serialBit poly c (x.getLsbD 0) ^^^ (x >>> 1) := by
  simp only [bitStep, serialBit, BitVec.getLsbD_xor, BitVec.ushiftRight_xor_distrib]
  split
  · rw [BitVec.xor_assoc]
  · rfl

/-- **A message of `n` bits at once is its bits one by one.** -/
theorem bitSteps_xor_message (n : Nat) (c x : BitVec w) (h : x >>> n = 0#w) :
    bitSteps poly n (c ^^^ x) = serial poly c ((List.range n).map x.getLsbD) := by
  induction n generalizing c x with
  | zero =>
    rw [show x = 0#w by simpa using h, BitVec.xor_zero]
    rfl
  | succ n ih =>
    have hrest : (x >>> 1) >>> n = 0#w := by rw [← BitVec.shiftRight_add, Nat.add_comm, h]
    have hbits : (List.range n).map (x >>> 1).getLsbD = (List.range n).map fun i => x.getLsbD (i + 1) := by
      simp [BitVec.getLsbD_ushiftRight, Nat.add_comm]
    rw [bitSteps, bitStep_xor_message, ih _ _ hrest, hbits, List.range_succ_eq_map, List.map_cons, List.map_map]
    rfl

/-- **The register of a byte string is that of its bits.** -/
theorem update_serial (hw : 8 ≤ w) (c : BitVec w) (bs : List (BitVec 8)) :
    update poly c bs = serial poly c (bs.flatMap bitsOf) := by
  induction bs generalizing c with
  | nil => rfl
  | cons b bs ih =>
    have hshort : (b.setWidth w) >>> 8 = 0#w := by
      apply BitVec.eq_of_getLsbD_eq
      intro i _
      simp [BitVec.getLsbD_ushiftRight, BitVec.getLsbD_setWidth]
    have hbits : (List.range 8).map (b.setWidth w).getLsbD = bitsOf b := by
      apply List.map_congr_left
      intro i hi
      have hlt : i < w := Nat.lt_of_lt_of_le (List.mem_range.mp hi) hw
      simp [hlt]
    have hbyte : byteStep poly c b = serial poly c (bitsOf b) := by
      rw [byteStep, bitSteps_xor_message poly 8 c _ hshort, hbits]
    have hnext : update poly c (b :: bs) = update poly (byteStep poly c b) bs := rfl
    rw [hnext, hbyte, ih, List.flatMap_cons, serial, serial, serial, List.foldl_append]

/-! ## Differences between byte strings -/

theorem byteStep_xor (c d : BitVec w) (b e : BitVec 8) :
    byteStep poly (c ^^^ d) (b ^^^ e) = byteStep poly c b ^^^ byteStep poly d e := by
  have hxor : (c ^^^ d) ^^^ (b ^^^ e).setWidth w = (c ^^^ b.setWidth w) ^^^ (d ^^^ e.setWidth w) := by
    rw [BitVec.setWidth_xor]
    ac_rfl
  rw [byteStep, hxor, bitSteps_xor]
  rfl

/-- The register of a difference is the difference of the registers. -/
theorem update_xor : ∀ {bs es : List (BitVec 8)} (c d : BitVec w), bs.length = es.length →
    update poly (c ^^^ d) (List.zipWith (· ^^^ ·) bs es) = update poly c bs ^^^ update poly d es
  | [], [], _, _, _ => rfl
  | b :: bs, e :: es, c, d, h => by
    have ih := update_xor (byteStep poly c b) (byteStep poly d e) (Nat.succ.inj h)
    rw [← byteStep_xor] at ih
    exact ih

theorem update_append (c : BitVec w) (as bs : List (BitVec 8)) :
    update poly c (as ++ bs) = update poly (update poly c as) bs := List.foldl_append

/-! ## Bytes taken in at once -/

theorem bitSteps_add (m n : Nat) (c : BitVec w) : bitSteps poly (m + n) c = bitSteps poly n (bitSteps poly m c) := by
  induction m generalizing c with
  | zero => rw [Nat.zero_add, bitSteps]
  | succ m ih => rw [Nat.succ_add, bitSteps, ih, bitSteps]

variable (w) in
/-- The word of a byte string, lowest byte first. -/
def word : List (BitVec 8) → BitVec w
  | [] => 0#w
  | b :: bs => b.setWidth w ^^^ (word bs <<< 8)

theorem getLsbD_word {bs : List (BitVec 8)} {i : Nat} (h : 8 * bs.length ≤ i) : (word w bs).getLsbD i = false := by
  induction bs generalizing i with
  | nil => simp [word]
  | cons b bs ih =>
    rw [List.length_cons] at h
    have hlow : b.getLsbD i = false := BitVec.getLsbD_of_ge b i (by omega)
    have hhigh := ih (i := i - 8) (by omega)
    simp [word, BitVec.getLsbD_shiftLeft, hlow, hhigh]

/-- A word that leaves room for a byte below it is only moved down by eight steps. -/
theorem bitSteps_word {bs : List (BitVec 8)} (h : 8 * (bs.length + 1) ≤ w) :
    bitSteps poly 8 (word w bs <<< 8) = word w bs := by
  rw [bitSteps_of_low_clear poly 8 _ (fun i hi => by simp [BitVec.getLsbD_shiftLeft, hi])]
  apply BitVec.eq_of_getLsbD_eq
  intro i _
  rw [BitVec.getLsbD_ushiftRight, BitVec.getLsbD_shiftLeft, Nat.add_sub_cancel_left]
  by_cases hi : 8 + i < w
  · simp [hi]
  · rw [getLsbD_word (by omega), Bool.and_false]

/-- **Bytes that fit into the register are taken in as one word.** -/
theorem update_eq_bitSteps {bs : List (BitVec 8)} (h : 8 * bs.length ≤ w) (c : BitVec w) :
    update poly c bs = bitSteps poly (8 * bs.length) (c ^^^ word w bs) := by
  induction bs generalizing c with
  | nil => rw [word, BitVec.xor_zero]; rfl
  | cons b bs ih =>
    rw [List.length_cons] at h
    have hsplit : c ^^^ word w (b :: bs) = (c ^^^ b.setWidth w) ^^^ (word w bs <<< 8) := by
      rw [word]
      ac_rfl
    have hcons : update poly c (b :: bs) = update poly (byteStep poly c b) bs := rfl
    have hmoved : bitSteps poly 8 (c ^^^ word w (b :: bs)) = byteStep poly c b ^^^ word w bs := by
      rw [hsplit, bitSteps_xor, bitSteps_word poly (by omega)]
      rfl
    rw [hcons, ih (by omega), List.length_cons, Nat.mul_succ, Nat.add_comm, bitSteps_add, hmoved]

/-- The word of a string of zero bytes only is zero. -/
theorem word_eq_zero {bs : List (BitVec 8)} (hlen : 8 * bs.length ≤ w) (h : word w bs = 0#w) : ∀ b ∈ bs, b = 0#8 := by
  induction bs with
  | nil => exact nofun
  | cons b bs ih =>
    rw [List.length_cons] at hlen
    have hbits : ∀ i, i < w → (b.getLsbD i ^^ !decide (i < 8) && (word w bs).getLsbD (i - 8)) = false := by
      intro i hi
      have := congrArg (·.getLsbD i) h
      simpa only [word, BitVec.getLsbD_xor, BitVec.getLsbD_setWidth, BitVec.getLsbD_shiftLeft, BitVec.getLsbD_zero, hi,
        decide_true, Bool.true_and] using this
    have hb : b = 0#8 := by
      apply BitVec.eq_of_getLsbD_eq
      intro i hi
      have := hbits i (by omega)
      simpa [hi] using this
    have hword : word w bs = 0#w := by
      apply BitVec.eq_of_getLsbD_eq
      intro i _
      rw [BitVec.getLsbD_zero]
      by_cases hi : i + 8 < w
      · have := hbits (i + 8) hi
        simpa [BitVec.getLsbD_of_ge b (i + 8) (by omega)] using this
      · exact getLsbD_word (by omega)
    intro b' hb'
    rcases List.mem_cons.mp hb' with rfl | hb'
    · exact hb
    · exact ih (by omega) hword b' hb'

/-! ## Bursts -/

section Burst

variable {poly} (hpoly : poly.msb = true)
include hpoly

/-- A polynomial with its top bit loses nothing: the step can be undone. -/
theorem bitStep_eq_zero {c : BitVec w} (h : bitStep poly c = 0#w) : c = 0#w := by
  unfold bitStep at h
  split at h
  · -- a set bit left, so the top bit of the polynomial has come in
    have hw : 0 < w := by
      cases w with
      | zero => simp [BitVec.msb] at hpoly
      | succ w => exact Nat.succ_pos w
    have htop := congrArg BitVec.msb h
    rw [BitVec.msb_xor, hpoly, BitVec.msb_ushiftRight] at htop
    simp at htop
  · rename_i hlow
    apply BitVec.eq_of_getLsbD_eq
    intro i _
    cases i with
    | zero => simpa using hlow
    | succ i =>
      have := congrArg (·.getLsbD i) h
      simpa [BitVec.getLsbD_ushiftRight, Nat.add_comm] using this

theorem bitSteps_eq_zero {n : Nat} {c : BitVec w} (h : bitSteps poly n c = 0#w) : c = 0#w := by
  induction n generalizing c with
  | zero => exact h
  | succ n ih => exact bitStep_eq_zero hpoly (ih h)

/-- Equal bytes, that is zero differences, take no difference away. -/
theorem update_zeros_eq_zero {n : Nat} {c : BitVec w} (h : update poly c (List.replicate n 0#8) = 0#w) : c = 0#w := by
  induction n generalizing c with
  | zero => exact h
  | succ n ih =>
    have hstep : byteStep poly c 0#8 = 0#w := ih h
    rw [byteStep, BitVec.setWidth_zero, BitVec.xor_zero] at hstep
    exact bitSteps_eq_zero hpoly hstep

omit hpoly in
/-- Nor do they make one. -/
theorem update_zeros (n : Nat) : update poly 0#w (List.replicate n 0#8) = 0#w := by
  have hclear : bitSteps poly 8 0#w = 0#w := by
    rw [bitSteps_of_low_clear poly 8 _ (fun i _ => BitVec.getLsbD_zero), BitVec.zero_ushiftRight]
  induction n with
  | zero => rfl
  | succ n ih =>
    have hstep : byteStep poly 0#w 0#8 = 0#w := by rw [byteStep, BitVec.setWidth_zero, BitVec.xor_zero, hclear]
    have hcons : update poly 0#w (List.replicate (n + 1) 0#8) =
        update poly (byteStep poly 0#w 0#8) (List.replicate n 0#8) := rfl
    rw [hcons, hstep, ih]

/-- **A burst within the width of the register is not lost.** -/
theorem update_burst {bs : List (BitVec 8)} (hlen : 8 * bs.length ≤ w) (hne : ∃ b ∈ bs, b ≠ 0#8) (m n : Nat) :
    update poly 0#w (List.replicate m 0#8 ++ bs ++ List.replicate n 0#8) ≠ 0#w := by
  intro h
  rw [update_append, update_append, update_zeros] at h
  have hbs := update_zeros_eq_zero hpoly h
  rw [update_eq_bitSteps poly hlen, BitVec.zero_xor] at hbs
  obtain ⟨b, hb, hne⟩ := hne
  exact hne (word_eq_zero hlen (bitSteps_eq_zero hpoly hbs) b hb)

end Burst

end ReflectedCrc
