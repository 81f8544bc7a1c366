import ZcMesh.Lib.LittleEndian
import ZcMesh.Lib.Crc

/-!
# The wire frame of the core engine

`shared/wire_frame.h` and `core-engine/src/frame.cpp`: the packed 24-byte frame, its memory image on a little-endian
host (`WireFrame.bytes`, `WireFrame.ofBytes`), the table-driven checksum (`crc32`), `packFrameInto` and `verifyFrame`.

* The image and the fields determine each other (`bytes_ofBytes`, `ofBytes_bytes`).
* The table-driven checksum is the bit-at-a-time CRC (`crc32_eq`).
* A packed frame verifies (`verifyFrame_packFrameInto`); a string that verifies begins with the magic
  (`verifyFrame_magic`).
-/

namespace ZcMesh.Core

open LittleEndian

/-- `ZCMESH_WIRE_MAGIC`. -/
def wireMagic : UInt16 := 0x5A43
/-- `ZCMESH_WIRE_VERSION`. -/
def wireVersion : UInt8 := 1
/-- `ZCMESH_WIRE_FRAME_SIZE`. -/
def wireFrameSize : Nat := 24
/-- `ZCMESH_FLAG_LAST_HOP`. -/
def flagLastHop : UInt8 := 0x02
/-- `ZCMESH_CRC_SEED`. -/
def crcSeed : UInt32 := 0xFFFFFFFF
/-- `ZCMESH_CRC_PAYLOAD_LEN`. -/
def crcPayloadLen : Nat := 20

/-- `zcmesh_wire_frame`. -/
structure WireFrame where
  magic : UInt16
  version : UInt8
  flags : UInt8
  seq : UInt32
  timestampLo : UInt32
  nodeId : UInt16
  sensorType : UInt8
  reserved : UInt8
  rawValue : Int32
  checksum : UInt32
  deriving DecidableEq, Repr

/-- `SensorSample`. -/
structure SensorSample where
  seq : UInt32
  timestampNs : UInt64
  nodeId : UInt16
  sensorType : UInt8
  flags : UInt8
  reserved : UInt8
  rawValue : Int32
  deriving DecidableEq, Repr

/-! ## The memory image -/

/-- The bytes of a packed frame, on a little-endian host. -/
def WireFrame.bytes (f : WireFrame) : List UInt8 :=
  le 2 f.magic.toNat ++ (le 1 f.version.toNat ++ (le 1 f.flags.toNat ++ (le 4 f.seq.toNat ++
    (le 4 f.timestampLo.toNat ++ (le 2 f.nodeId.toNat ++ (le 1 f.sensorType.toNat ++ (le 1 f.reserved.toNat ++
      (le 4 f.rawValue.toUInt32.toNat ++ le 4 f.checksum.toNat))))))))

/-- The frame that `memcpy` of 24 bytes gives. -/
def WireFrame.ofBytes (bs : List UInt8) : WireFrame where
  magic := UInt16.ofNat (ofLe (slice bs 0 2))
  version := UInt8.ofNat (ofLe (slice bs 2 1))
  flags := UInt8.ofNat (ofLe (slice bs 3 1))
  seq := UInt32.ofNat (ofLe (slice bs 4 4))
  timestampLo := UInt32.ofNat (ofLe (slice bs 8 4))
  nodeId := UInt16.ofNat (ofLe (slice bs 12 2))
  sensorType := UInt8.ofNat (ofLe (slice bs 14 1))
  reserved := UInt8.ofNat (ofLe (slice bs 15 1))
  rawValue := (UInt32.ofNat (ofLe (slice bs 16 4))).toInt32
  checksum := UInt32.ofNat (ofLe (slice bs 20 4))

@[simp] theorem WireFrame.length_bytes (f : WireFrame) : f.bytes.length = wireFrameSize := rfl

theorem WireFrame.bytes_ne_nil (f : WireFrame) : f.bytes ≠ [] :=
  List.ne_nil_of_length_pos (by rw [f.length_bytes]; decide)

section Fields

variable {bs : List UInt8} {off : Nat}

theorem le_ofNat8 (h : off + 1 ≤ bs.length) : le 1 (UInt8.ofNat (ofLe (slice bs off 1))).toNat = slice bs off 1 := by
  have hlen := length_slice h
  have hlt := ofLe_lt (slice bs off 1)
  rw [hlen] at hlt
  rw [UInt8.toNat_ofNat', Nat.mod_eq_of_lt (by simpa using hlt), le_ofLe hlen]

theorem le_ofNat16 (h : off + 2 ≤ bs.length) :
    le 2 (UInt16.ofNat (ofLe (slice bs off 2))).toNat = slice bs off 2 := by
  have hlen := length_slice h
  have hlt := ofLe_lt (slice bs off 2)
  rw [hlen] at hlt
  rw [UInt16.toNat_ofNat', Nat.mod_eq_of_lt (by simpa using hlt), le_ofLe hlen]

theorem le_ofNat32 (h : off + 4 ≤ bs.length) :
    le 4 (UInt32.ofNat (ofLe (slice bs off 4))).toNat = slice bs off 4 := by
  have hlen := length_slice h
  have hlt := ofLe_lt (slice bs off 4)
  rw [hlen] at hlt
  rw [UInt32.toNat_ofNat', Nat.mod_eq_of_lt (by simpa using hlt), le_ofLe hlen]

theorem ofNat8_ofLe (x : UInt8) : UInt8.ofNat (ofLe (le 1 x.toNat)) = x := by
  rw [ofLe_le, Nat.mod_eq_of_lt (by simpa using x.toNat_lt), UInt8.ofNat_toNat]

theorem ofNat16_ofLe (x : UInt16) : UInt16.ofNat (ofLe (le 2 x.toNat)) = x := by
  rw [ofLe_le, Nat.mod_eq_of_lt (by simpa using x.toNat_lt), UInt16.ofNat_toNat]

theorem ofNat32_ofLe (x : UInt32) : UInt32.ofNat (ofLe (le 4 x.toNat)) = x := by
  rw [ofLe_le, Nat.mod_eq_of_lt (by simpa using x.toNat_lt), UInt32.ofNat_toNat]

end Fields

/-- **Fields restore the bytes.** -/
theorem WireFrame.bytes_ofBytes {bs : List UInt8} (h : bs.length = wireFrameSize) : (ofBytes bs).bytes = bs := by
  simp only [wireFrameSize] at h
  have hraw : (UInt32.ofNat (ofLe (slice bs 16 4))).toInt32.toUInt32 = UInt32.ofNat (ofLe (slice bs 16 4)) := by simp
  simp only [WireFrame.bytes, WireFrame.ofBytes, hraw]
  rw [le_ofNat16 (by omega), le_ofNat8 (by omega), le_ofNat8 (by omega), le_ofNat32 (by omega),
    le_ofNat32 (by omega), le_ofNat16 (by omega), le_ofNat8 (by omega), le_ofNat8 (by omega),
    le_ofNat32 (by omega), le_ofNat32 (by omega)]
  simp only [slice_append bs 16 4 4, slice_append bs 15 1 8, slice_append bs 14 1 9, slice_append bs 12 2 10,
    slice_append bs 8 4 12, slice_append bs 4 4 16, slice_append bs 3 1 20, slice_append bs 2 1 21,
    slice_append bs 0 2 22]
  rw [show 2 + 22 = bs.length by omega, slice_all]

/-- **The bytes restore the fields.** -/
theorem WireFrame.ofBytes_bytes (f : WireFrame) : ofBytes f.bytes = f := by
  have hraw : (UInt32.ofNat (ofLe (le 4 f.rawValue.toUInt32.toNat))).toInt32 = f.rawValue := by
    rw [ofNat32_ofLe]
    simp
  have hfields : ofBytes f.bytes =
      { magic := UInt16.ofNat (ofLe (le 2 f.magic.toNat))
        version := UInt8.ofNat (ofLe (le 1 f.version.toNat))
        flags := UInt8.ofNat (ofLe (le 1 f.flags.toNat))
        seq := UInt32.ofNat (ofLe (le 4 f.seq.toNat))
        timestampLo := UInt32.ofNat (ofLe (le 4 f.timestampLo.toNat))
        nodeId := UInt16.ofNat (ofLe (le 2 f.nodeId.toNat))
        sensorType := UInt8.ofNat (ofLe (le 1 f.sensorType.toNat))
        reserved := UInt8.ofNat (ofLe (le 1 f.reserved.toNat))
        rawValue := (UInt32.ofNat (ofLe (le 4 f.rawValue.toUInt32.toNat))).toInt32
        checksum := UInt32.ofNat (ofLe (le 4 f.checksum.toNat)) } := rfl
  rw [hfields, hraw]
  simp only [ofNat8_ofLe, ofNat16_ofLe, ofNat32_ofLe]

/-! ## The checksum -/

/-- The inner step of `init_crc_table`. -/
def crcBit (c : UInt32) : UInt32 := if c &&& 1 ≠ 0 then (0xEDB88320 : UInt32) ^^^ (c >>> 1) else c >>> 1

/-- `init_crc_table`: eight steps for each index. -/
def crcTable : List UInt32 := (List.range 256).map fun i => crcBit^[8] (UInt32.ofNat i)

/-- One turn of the loop of `crc32`. -/
def crcByte (c : UInt32) (p : UInt8) : UInt32 := crcTable.getD ((c ^^^ p.toUInt32) &&& 0xFF).toNat 0 ^^^ (c >>> 8)

/-- `crc32`. -/
def crc32 (data : List UInt8) (seed : UInt32) : UInt32 := data.foldl crcByte seed ^^^ 0xFFFFFFFF

/-- The polynomial, reflected. -/
def crcPoly : BitVec 32 := 0xEDB88320#32

theorem crcBit_toBitVec (c : UInt32) : (crcBit c).toBitVec = ReflectedCrc.bitStep crcPoly c.toBitVec := by
  have hlow : (c &&& 1 ≠ 0) ↔ c.toBitVec.getLsbD 0 = true := by
    have hmask : (c &&& 1).toBitVec = BitVec.setWidth 32 (BitVec.ofBool (c.toBitVec.getLsbD 0)) := by
      rw [UInt32.toBitVec_and]
      exact BitVec.and_one_eq_setWidth_ofBool_getLsbD
    rw [ne_eq, ← UInt32.toBitVec_inj, hmask]
    cases c.toBitVec.getLsbD 0 <;> simp
  unfold crcBit ReflectedCrc.bitStep
  by_cases h : c.toBitVec.getLsbD 0 = true
  · rw [if_pos (hlow.mpr h), if_pos h]
    simp [crcPoly]
  · rw [if_neg (fun h' => h (hlow.mp h')), if_neg h]
    simp

theorem crcBit_iterate (n : Nat) (c : UInt32) :
    (crcBit^[n] c).toBitVec = ReflectedCrc.bitSteps crcPoly n c.toBitVec := by
  induction n generalizing c with
  | zero => rfl
  | succ n ih =>
    rw [Function.iterate_succ_apply, ih, crcBit_toBitVec]
    rfl

/-- The index of a look-up is a byte. -/
theorem crcIndex (x : UInt32) : (x &&& 0xFF).toNat = (x.toBitVec.setWidth 8).toNat := by
  rw [UInt32.toNat_and, BitVec.toNat_setWidth]
  exact Nat.and_two_pow_sub_one_eq_mod x.toNat 8

theorem crcTable_getD {i : Nat} (h : i < 256) : crcTable.getD i 0 = crcBit^[8] (UInt32.ofNat i) := by
  simp [crcTable, h]

theorem crcByte_toBitVec (c : UInt32) (p : UInt8) :
    (crcByte c p).toBitVec = ReflectedCrc.byteStep crcPoly c.toBitVec p.toBitVec := by
  have hidx : ((c ^^^ p.toUInt32) &&& 0xFF).toNat = ((c.toBitVec ^^^ p.toBitVec.setWidth 32).setWidth 8).toNat :=
    crcIndex (c ^^^ p.toUInt32)
  have hlt := ((c.toBitVec ^^^ p.toBitVec.setWidth 32).setWidth 8).isLt
  have hentry : (UInt32.ofNat ((c.toBitVec ^^^ p.toBitVec.setWidth 32).setWidth 8).toNat).toBitVec =
      ((c.toBitVec ^^^ p.toBitVec.setWidth 32).setWidth 8).setWidth 32 := by
    apply BitVec.eq_of_toNat_eq
    rw [UInt32.toNat_toBitVec, UInt32.toNat_ofNat', BitVec.toNat_setWidth 32]
  rw [ReflectedCrc.byteStep_entry, crcByte, hidx, crcTable_getD hlt, UInt32.toBitVec_xor, crcBit_iterate, hentry]
  rfl

/-- **The table-driven checksum is the bit-at-a-time CRC.** -/
theorem crc32_eq (data : List UInt8) (seed : UInt32) :
    (crc32 data seed).toBitVec =
      ReflectedCrc.update crcPoly seed.toBitVec (data.map UInt8.toBitVec) ^^^ 0xFFFFFFFF#32 := by
  have hfold : ∀ (data : List UInt8) (c : UInt32),
      (data.foldl crcByte c).toBitVec = ReflectedCrc.update crcPoly c.toBitVec (data.map UInt8.toBitVec) := by
    intro data
    induction data with
    | nil => exact fun c => rfl
    | cons p data ih =>
      intro c
      rw [List.foldl_cons, ih, crcByte_toBitVec]
      rfl
  rw [crc32, UInt32.toBitVec_xor, hfold]
  rfl

/-! ## Packing and verifying -/

/-- `pack_frame_into`: the fields first, with a zero checksum, then the checksum of the first 20 bytes. -/
def packFrameInto (sample : SensorSample) : WireFrame :=
  let out : WireFrame :=
    { magic := wireMagic
      version := wireVersion
      flags := sample.flags
      seq := sample.seq
      timestampLo := (sample.timestampNs &&& 0xFFFFFFFF).toUInt32
      nodeId := sample.nodeId
      sensorType := sample.sensorType
      reserved := sample.reserved
      rawValue := sample.rawValue
      checksum := 0 }
  { out with checksum := crc32 (out.bytes.take crcPayloadLen) crcSeed }

/-- `verify_frame`. -/
def verifyFrame (frame : WireFrame) : Bool :=
  if frame.magic ≠ wireMagic ∨ frame.version ≠ wireVersion then false
  else
    let expect := crc32 (frame.bytes.take crcPayloadLen) crcSeed
    expect == frame.checksum

theorem verifyFrame_iff (f : WireFrame) : verifyFrame f = true ↔
    f.magic = wireMagic ∧ f.version = wireVersion ∧ crc32 (f.bytes.take crcPayloadLen) crcSeed = f.checksum := by
  simp only [verifyFrame]
  split
  · rename_i h
    simp only [Bool.false_eq_true, false_iff]
    rintro ⟨hm, hv, _⟩
    exact h.elim (fun h => h hm) (fun h => h hv)
  · rename_i h
    simp only [not_or, not_not] at h
    simp [h.1, h.2]

theorem verifyFrame_packFrameInto (s : SensorSample) : verifyFrame (packFrameInto s) = true :=
  (verifyFrame_iff _).mpr ⟨rfl, rfl, rfl⟩

/-- The bytes of the magic stand at the front of every string that verifies. -/
theorem verifyFrame_magic {f : WireFrame} (h : verifyFrame f = true) : f.bytes.take 2 = [0x43, 0x5A] := by
  have hm := ((verifyFrame_iff f).mp h).1
  have htake : f.bytes.take 2 = le 2 f.magic.toNat := rfl
  rw [htake, hm]
  rfl

end ZcMesh.Core
