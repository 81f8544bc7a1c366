import ZcMesh.Wire.Frame

/-!
# The checksum of the wire

`crc32` of `core-engine/src/frame.cpp` looks bytes up in a table that `init_crc_table` fills. It is the IEEE CRC-32,
computed a bit of the message at a time (`crc32_ieee`).
-/

namespace ZcMesh.Core

/-- The IEEE CRC-32 of a byte string: the register takes in its bits, the lowest of each byte first, and is
complemented. -/
def ieeeCrc32 (data : List UInt8) : BitVec 32 :=
  ~~~ReflectedCrc.serial 0xEDB88320#32 0xFFFFFFFF#32 (data.flatMap fun b => ReflectedCrc.bitsOf b.toBitVec)

/-- **The table holds what eight bit steps give**, for every byte. -/
theorem crcTable_entry {i : Nat} (h : i < 256) :
    (crcTable.getD i 0).toBitVec = ReflectedCrc.entry crcPoly (BitVec.ofNat 8 i) := by
  rw [crcTable_getD h, crcBit_iterate, ReflectedCrc.entry]
  congr 1
  apply BitVec.eq_of_toNat_eq
  rw [UInt32.toNat_toBitVec, UInt32.toNat_ofNat', BitVec.toNat_setWidth, BitVec.toNat_ofNat]
  omega

/-- **The checksum is the IEEE CRC-32**, the table has an entry for every byte, and the checksum of a concatenation goes
on with the register that the first part has left. -/
theorem crc32_ieee :
    (∀ data, (crc32 data crcSeed).toBitVec = ieeeCrc32 data) ∧
      (crcTable.length = 256 ∧
        ∀ i < 256, (crcTable.getD i 0).toBitVec = ReflectedCrc.entry crcPoly (BitVec.ofNat 8 i)) ∧
      ∀ (as bs : List UInt8) (seed : UInt32),
        (as ++ bs).foldl crcByte seed = bs.foldl crcByte (as.foldl crcByte seed) ∧
          crc32 (as ++ bs) seed = crc32 bs (crc32 as seed ^^^ 0xFFFFFFFF) := by
  refine ⟨?_, ⟨by simp [crcTable], fun i hi => crcTable_entry hi⟩, ?_⟩
  · intro data
    have hbits : data.flatMap (fun b => ReflectedCrc.bitsOf b.toBitVec) =
        (data.map UInt8.toBitVec).flatMap ReflectedCrc.bitsOf := by
      rw [List.flatMap_map]
    rw [crc32_eq, ReflectedCrc.update_serial _ (by decide), ieeeCrc32, hbits, ← BitVec.xor_allOnes]
    rfl
  · intro as bs seed
    have hregister : (as ++ bs).foldl crcByte seed = bs.foldl crcByte (as.foldl crcByte seed) := List.foldl_append
    refine ⟨hregister, ?_⟩
    rw [crc32, crc32, crc32, hregister, UInt32.xor_assoc, UInt32.xor_self, UInt32.xor_zero]

end ZcMesh.Core
