import ZcMesh.Lib.LittleEndian
import ZcMesh.Lib.Crc

/-!
# The wire frame of the operator node

`operator-node/.../wire/WireFrame.java`: `WireFrame.decode` and `WireFrame.encode` over little-endian buffers, with
Java's widening and narrowing of `byte`, `short`, `int` and `long` made explicit.

* Widening without sign keeps the number (`toInt_byte`, `toInt_short`, `toInt_int`) and the casts of `encode` undo it.
* `encode` writes the ten fields one after the other, whatever the buffer held (`encode_eq`).
-/

namespace ZcMesh.Operator

open LittleEndian

/-! ## Java's conversions -/

/-- `Byte.toUnsignedInt`. -/
def byteToUnsignedInt (x : Int8) : Int32 := x.toUInt8.toUInt32.toInt32
/-- `Short.toUnsignedInt`. -/
def shortToUnsignedInt (x : Int16) : Int32 := x.toUInt16.toUInt32.toInt32
/-- `Integer.toUnsignedLong`. -/
def integerToUnsignedLong (x : Int32) : Int64 := x.toUInt32.toUInt64.toInt64

theorem toInt_int32 {y : UInt32} (h : y.toNat < 2 ^ 31) : y.toInt32.toInt = y.toNat := by
  have hb : y.toInt32.toInt = y.toBitVec.toInt := rfl
  rw [hb, BitVec.toInt_eq_toNat_of_lt (by rw [UInt32.toNat_toBitVec]; omega), UInt32.toNat_toBitVec]

theorem toInt_int64 {y : UInt64} (h : y.toNat < 2 ^ 63) : y.toInt64.toInt = y.toNat := by
  have hb : y.toInt64.toInt = y.toBitVec.toInt := rfl
  rw [hb, BitVec.toInt_eq_toNat_of_lt (by rw [UInt64.toNat_toBitVec]; omega), UInt64.toNat_toBitVec]

@[simp] theorem toInt_byte (x : UInt8) : (byteToUnsignedInt x.toInt8).toInt = x.toNat := by
  have hx := x.toNat_lt
  have h := toInt_int32 (y := x.toUInt32) (by rw [UInt8.toNat_toUInt32]; omega)
  simpa [byteToUnsignedInt] using h

@[simp] theorem toInt_short (x : UInt16) : (shortToUnsignedInt x.toInt16).toInt = x.toNat := by
  have hx := x.toNat_lt
  have h := toInt_int32 (y := x.toUInt32) (by rw [UInt16.toNat_toUInt32]; omega)
  simpa [shortToUnsignedInt] using h

@[simp] theorem toInt_int (x : UInt32) : (integerToUnsignedLong x.toInt32).toInt = x.toNat := by
  have hx := x.toNat_lt
  have h := toInt_int64 (y := x.toUInt64) (by rw [UInt32.toNat_toUInt64]; omega)
  simpa [integerToUnsignedLong] using h

/-- `(byte)` undoes the widening of a byte. -/
@[simp] theorem narrow_byte (x : UInt8) : (byteToUnsignedInt x.toInt8).toInt8.toUInt8 = x := by
  apply UInt8.toBitVec_inj.mp
  have h : (byteToUnsignedInt x.toInt8).toInt8.toUInt8.toBitVec = (x.toBitVec.setWidth 32).signExtend 8 := rfl
  rw [h, BitVec.signExtend_eq_setWidth_of_le _ (by omega)]
  simp

/-- `(short)` undoes the widening of a short. -/
@[simp] theorem narrow_short (x : UInt16) : (shortToUnsignedInt x.toInt16).toInt16.toUInt16 = x := by
  apply UInt16.toBitVec_inj.mp
  have h : (shortToUnsignedInt x.toInt16).toInt16.toUInt16.toBitVec = (x.toBitVec.setWidth 32).signExtend 16 := rfl
  rw [h, BitVec.signExtend_eq_setWidth_of_le _ (by omega)]
  simp

/-- `(int)` undoes the widening of an int. -/
@[simp] theorem narrow_int (x : UInt32) : (integerToUnsignedLong x.toInt32).toInt32.toUInt32 = x := by
  apply UInt32.toBitVec_inj.mp
  have h : (integerToUnsignedLong x.toInt32).toInt32.toUInt32.toBitVec = (x.toBitVec.setWidth 64).signExtend 32 := rfl
  rw [h, BitVec.signExtend_eq_setWidth_of_le _ (by omega)]
  simp

/-! ## Absolute reads and writes of a little-endian buffer -/

/-- `ByteBuffer.get(int)`. -/
def get (b : List UInt8) (off : Nat) : Int8 := (UInt8.ofNat (ofLe (slice b off 1))).toInt8
/-- `ByteBuffer.getShort(int)`. -/
def getShort (b : List UInt8) (off : Nat) : Int16 := (UInt16.ofNat (ofLe (slice b off 2))).toInt16
/-- `ByteBuffer.getInt(int)`. -/
def getInt (b : List UInt8) (off : Nat) : Int32 := (UInt32.ofNat (ofLe (slice b off 4))).toInt32

/-- Overwrite bytes at an offset. -/
def putBytes (b : List UInt8) (off : Nat) (bs : List UInt8) : List UInt8 :=
  b.take off ++ (bs ++ b.drop (off + bs.length))

/-- `ByteBuffer.put(int, byte)`. -/
def put (off : Nat) (x : Int8) (b : List UInt8) : List UInt8 := putBytes b off (le 1 x.toUInt8.toNat)
/-- `ByteBuffer.putShort(int, short)`. -/
def putShort (off : Nat) (x : Int16) (b : List UInt8) : List UInt8 := putBytes b off (le 2 x.toUInt16.toNat)
/-- `ByteBuffer.putInt(int, int)`. -/
def putInt (off : Nat) (x : Int32) (b : List UInt8) : List UInt8 := putBytes b off (le 4 x.toUInt32.toNat)

/-- The buffer `b` with its front overwritten by `as`. -/
def overlay (as b : List UInt8) : List UInt8 := as ++ b.drop as.length

/-- Writing right behind what has been written. -/
theorem putBytes_overlay {as bs b : List UInt8} {off : Nat} (h : as.length = off) :
    putBytes (overlay as b) off bs = overlay (as ++ bs) b := by
  subst h
  simp [putBytes, overlay, List.drop_append]

/-! ## `java.util.zip.CRC32` -/

/-- The register of `CRC32` after `update(data)`: IEEE CRC-32, a bit at a time. -/
def crc32Update (data : List UInt8) : BitVec 32 :=
  ReflectedCrc.update 0xEDB88320#32 0xFFFFFFFF#32 (data.map UInt8.toBitVec)

/-- `crc32Ieee`: a fresh `CRC32`, updated, and its `getValue()`. -/
def crc32Ieee (data : List UInt8) : Int64 := (UInt32.ofBitVec (crc32Update data ^^^ 0xFFFFFFFF#32)).toUInt64.toInt64

/-! ## `WireFrame` -/

namespace WireFrame

/-- `WireFrame.MAGIC`. -/
def MAGIC : Int32 := 0x5A43
/-- `WireFrame.VERSION`. -/
def VERSION : Int32 := 1
/-- `WireFrame.SIZE`. -/
def SIZE : Nat := 24
/-- `WireFrame.CRC_PAYLOAD_LEN`. -/
def CRC_PAYLOAD_LEN : Nat := 20
/-- `WireFrame.FLAG_LAST_HOP`. -/
def FLAG_LAST_HOP : Int32 := 0x02

end WireFrame

/-- `WireFrame`. -/
structure WireFrame where
  magic : Int32
  version : Int32
  flags : Int32
  seq : Int64
  timestampLo : Int64
  nodeId : Int32
  sensorType : Int32
  reserved : Int32
  rawValue : Int32
  checksum : Int64
  crcOk : Bool
  deriving DecidableEq, Repr

namespace WireFrame

/-- `WireFrame.decode`; `buf` are the remaining bytes of the buffer. -/
def decode (buf : List UInt8) : Except String WireFrame :=
  if buf.length < SIZE then .error "need 24 bytes"
  else
    let magic := shortToUnsignedInt (getShort buf 0)
    let version := byteToUnsignedInt (get buf 2)
    let flags := byteToUnsignedInt (get buf 3)
    let seq := integerToUnsignedLong (getInt buf 4)
    let timestampLo := integerToUnsignedLong (getInt buf 8)
    let nodeId := shortToUnsignedInt (getShort buf 12)
    let sensorType := byteToUnsignedInt (get buf 14)
    let reserved := byteToUnsignedInt (get buf 15)
    let rawValue := getInt buf 16
    let checksum := integerToUnsignedLong (getInt buf 20)
    let payload := buf.take CRC_PAYLOAD_LEN
    let expect := crc32Ieee payload
    let ok := magic == MAGIC && version == VERSION && expect == checksum
    .ok { magic, version, flags, seq, timestampLo, nodeId, sensorType, reserved, rawValue, checksum, crcOk := ok }

/-- `WireFrame.encode`: absolute writes into the 24 bytes at the position of the buffer. -/
def encode (f : WireFrame) (b : List UInt8) : List UInt8 :=
  b |> putShort 0 f.magic.toInt16
    |> put 2 f.version.toInt8
    |> put 3 f.flags.toInt8
    |> putInt 4 f.seq.toInt32
    |> putInt 8 f.timestampLo.toInt32
    |> putShort 12 f.nodeId.toInt16
    |> put 14 f.sensorType.toInt8
    |> put 15 f.reserved.toInt8
    |> putInt 16 f.rawValue
    |> putInt 20 f.checksum.toInt32

/-- The bytes `encode` writes, in order. -/
def image (f : WireFrame) : List UInt8 :=
  le 2 f.magic.toInt16.toUInt16.toNat ++ le 1 f.version.toInt8.toUInt8.toNat ++ le 1 f.flags.toInt8.toUInt8.toNat ++
    le 4 f.seq.toInt32.toUInt32.toNat ++ le 4 f.timestampLo.toInt32.toUInt32.toNat ++
    le 2 f.nodeId.toInt16.toUInt16.toNat ++ le 1 f.sensorType.toInt8.toUInt8.toNat ++
    le 1 f.reserved.toInt8.toUInt8.toNat ++ le 4 f.rawValue.toUInt32.toNat ++ le 4 f.checksum.toInt32.toUInt32.toNat

/-- **`encode` fills the 24 bytes, whatever they held.** -/
theorem encode_eq (f : WireFrame) {b : List UInt8} (h : b.length = SIZE) : f.encode b = f.image := by
  have hchain : f.encode (overlay [] b) = overlay f.image b := by
    simp only [encode, putShort, put, putInt]
    simp (disch := simp) only [putBytes_overlay, List.nil_append, image]
  have hend : b.drop f.image.length = [] := List.drop_of_length_le (by rw [h]; exact Nat.le_refl 24)
  rw [show b = overlay [] b from rfl, hchain, overlay, hend, List.append_nil]

end WireFrame

end ZcMesh.Operator
