import Mathlib.Data.List.Basic
import Mathlib.Tactic.Ring

/-!
# Little-endian numbers in byte strings

`le k n` are the `k` low bytes of `n`, lowest first, and `ofLe bs` is the number a byte string stands for. They are
inverse to each other on strings of length `k` (`le_ofLe`) and modulo `256 ^ k` (`ofLe_le`). `slice bs off k` is the
field of `k` bytes at offset `off`; a string is the concatenation of consecutive fields (`slice_append`).
-/

namespace LittleEndian

/-- The `k` low bytes of `n`, lowest first. -/
def le : Nat → Nat → List UInt8
  | 0, _ => []
  | k + 1, n => UInt8.ofNat n :: le k (n / 256)

/-- The number of a byte string, lowest byte first. -/
def ofLe : List UInt8 → Nat
  | [] => 0
  | b :: bs => b.toNat + 256 * ofLe bs

@[simp] theorem length_le (k n : Nat) : (le k n).length = k := by
  induction k generalizing n with
  | zero => rfl
  | succ k ih => simp [le, ih]

theorem ofLe_lt (bs : List UInt8) : ofLe bs < 256 ^ bs.length := by
  induction bs with
  | nil => simp [ofLe]
  | cons b bs ih =>
    have hb := b.toNat_lt
    simp only [ofLe, List.length_cons, Nat.pow_succ]
    omega

/-- Reading back a written number gives its low bytes. -/
theorem ofLe_le (k n : Nat) : ofLe (le k n) = n % 256 ^ k := by
  induction k generalizing n with
  | zero => simp [le, ofLe, Nat.mod_one]
  | succ k ih =>
    have hsplit : n % 256 ^ (k + 1) = n % 256 + 256 * (n / 256 % 256 ^ k) := by
      rw [show 256 ^ (k + 1) = 256 * 256 ^ k by ring, Nat.mod_mul]
    simp only [le, ofLe, ih, UInt8.toNat_ofNat', hsplit]

/-- Writing back the number of a byte string gives the string. -/
theorem le_ofLe : ∀ {k : Nat} {bs : List UInt8}, bs.length = k → le k (ofLe bs) = bs
  | 0, [], _ => rfl
  | k + 1, b :: bs, h => by
    have hb := b.toNat_lt
    have hd : (b.toNat + 256 * ofLe bs) / 256 = ofLe bs := by omega
    have hm : UInt8.ofNat (b.toNat + 256 * ofLe bs) = b := by
      apply UInt8.toNat_inj.mp
      simp only [UInt8.toNat_ofNat']
      omega
    simp only [ofLe, le, hd, hm, le_ofLe (Nat.succ.inj h)]

/-! ## Fields at an offset -/

/-- The field of `k` bytes at offset `off`. -/
def slice (bs : List UInt8) (off k : Nat) : List UInt8 := (bs.drop off).take k

theorem length_slice {bs : List UInt8} {off k : Nat} (h : off + k ≤ bs.length) : (slice bs off k).length = k := by
  simp only [slice, List.length_take, List.length_drop]
  omega

/-- Two consecutive fields are one field. -/
theorem slice_append (bs : List UInt8) (off j k : Nat) :
    slice bs off j ++ slice bs (off + j) k = slice bs off (j + k) := by
  simp only [slice, List.take_add, List.drop_drop]

theorem slice_all (bs : List UInt8) : slice bs 0 bs.length = bs := by simp [slice]

end LittleEndian
