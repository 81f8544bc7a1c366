import ZcMesh.Wire.Frame
import ZcMesh.Wire.JavaFrame

/-!
# One wire format in two languages

`view c` is the Java object with the numbers of the C++ frame `c` and the verdict of `verifyFrame`.

* `WireFrame.decode` of 24 bytes is the view of the frame at these bytes (`decode_eq_view`): same offsets, same
  numbers, and the library CRC agrees with the table-driven one.
* `WireFrame.encode` of a view writes the bytes of the frame (`encode_view`).
-/

namespace ZcMesh

open ZcMesh.Core (SensorSample packFrameInto verifyFrame)
open Operator (byteToUnsignedInt shortToUnsignedInt integerToUnsignedLong)

/-- The Java object with the numbers of a C++ frame. -/
def view (c : Core.WireFrame) : Operator.WireFrame where
  magic := shortToUnsignedInt c.magic.toInt16
  version := byteToUnsignedInt c.version.toInt8
  flags := byteToUnsignedInt c.flags.toInt8
  seq := integerToUnsignedLong c.seq.toInt32
  timestampLo := integerToUnsignedLong c.timestampLo.toInt32
  nodeId := shortToUnsignedInt c.nodeId.toInt16
  sensorType := byteToUnsignedInt c.sensorType.toInt8
  reserved := byteToUnsignedInt c.reserved.toInt8
  rawValue := c.rawValue
  checksum := integerToUnsignedLong c.checksum.toInt32
  crcOk := verifyFrame c

/-! ## The three checks of `decode` -/

theorem magic_iff (x : UInt16) : shortToUnsignedInt x.toInt16 = Operator.WireFrame.MAGIC ↔ x = Core.wireMagic := by
  have hm : Operator.WireFrame.MAGIC.toInt = Core.wireMagic.toNat := by decide
  rw [← Int32.toInt_inj, Operator.toInt_short, hm, Nat.cast_inj, UInt16.toNat_inj]

theorem version_iff (x : UInt8) :
    byteToUnsignedInt x.toInt8 = Operator.WireFrame.VERSION ↔ x = Core.wireVersion := by
  have hv : Operator.WireFrame.VERSION.toInt = Core.wireVersion.toNat := by decide
  rw [← Int32.toInt_inj, Operator.toInt_byte, hv, Nat.cast_inj, UInt8.toNat_inj]

theorem integerToUnsignedLong_inj (x y : UInt32) :
    integerToUnsignedLong x.toInt32 = integerToUnsignedLong y.toInt32 ↔ x = y := by
  rw [← Int64.toInt_inj, Operator.toInt_int, Operator.toInt_int, Nat.cast_inj, UInt32.toNat_inj]

/-- The library CRC, as a `long`, is the C++ checksum, widened. -/
theorem crc32Ieee_eq (data : List UInt8) :
    Operator.crc32Ieee data = integerToUnsignedLong (Core.crc32 data Core.crcSeed).toInt32 := by
  have hc : UInt32.ofBitVec (Operator.crc32Update data ^^^ 0xFFFFFFFF#32) = Core.crc32 data Core.crcSeed := by
    apply UInt32.toBitVec_inj.mp
    exact (Core.crc32_eq data Core.crcSeed).symm
  rw [Operator.crc32Ieee, hc]
  simp [integerToUnsignedLong]

/-! ## Decoding and encoding -/

/-- **Decoding 24 bytes gives the view of the frame at these bytes.** -/
theorem decode_eq_view {b : List UInt8} (h : b.length = Core.wireFrameSize) :
    Operator.WireFrame.decode b = .ok (view (Core.WireFrame.ofBytes b)) := by
  have hlen : ¬b.length < Operator.WireFrame.SIZE := by rw [h]; exact Nat.lt_irrefl 24
  have hpayload : (Core.WireFrame.ofBytes b).bytes.take Core.crcPayloadLen = b.take 20 := by
    rw [Core.WireFrame.bytes_ofBytes h]
    rfl
  have hverdict : (shortToUnsignedInt (Core.WireFrame.ofBytes b).magic.toInt16 == Operator.WireFrame.MAGIC &&
      byteToUnsignedInt (Core.WireFrame.ofBytes b).version.toInt8 == Operator.WireFrame.VERSION &&
      Operator.crc32Ieee (b.take 20) == integerToUnsignedLong (Core.WireFrame.ofBytes b).checksum.toInt32) =
      verifyFrame (Core.WireFrame.ofBytes b) := by
    rw [Bool.eq_iff_iff, Core.verifyFrame_iff, hpayload]
    simp only [Bool.and_eq_true, beq_iff_eq, magic_iff, version_iff, crc32Ieee_eq, integerToUnsignedLong_inj,
      and_assoc]
  rw [Operator.WireFrame.decode, if_neg hlen, view, ← hverdict]
  rfl

/-- **Encoding a view writes the bytes of the frame.** -/
theorem encode_view (c : Core.WireFrame) {b : List UInt8} (h : b.length = Core.wireFrameSize) :
    (view c).encode b = c.bytes := by
  rw [Operator.WireFrame.encode_eq _ h]
  simp only [Operator.WireFrame.image, view, Operator.narrow_byte, Operator.narrow_short, Operator.narrow_int,
    Core.WireFrame.bytes, List.append_assoc]

/-- **One format.** The bytes of every packed sample verify and decode to the numbers of the sample; on every string
of 24 bytes the two verdicts agree, and encoding what was decoded gives the string back. -/
theorem wire_format_agrees :
    (∀ s : SensorSample,
      verifyFrame (Core.WireFrame.ofBytes (packFrameInto s).bytes) = true ∧
      ∃ f, Operator.WireFrame.decode (packFrameInto s).bytes = .ok f ∧ f.crcOk = true ∧
        f.magic = Operator.WireFrame.MAGIC ∧ f.version = Operator.WireFrame.VERSION ∧
        f.flags.toInt = s.flags.toNat ∧ f.seq.toInt = s.seq.toNat ∧
        f.timestampLo.toInt = (s.timestampNs.toNat % 2 ^ 32 : Nat) ∧ f.nodeId.toInt = s.nodeId.toNat ∧
        f.sensorType.toInt = s.sensorType.toNat ∧ f.reserved.toInt = s.reserved.toNat ∧
        f.rawValue = s.rawValue ∧
        f.checksum.toInt = (Core.crc32 ((packFrameInto s).bytes.take 20) Core.crcSeed).toNat) ∧
    (∀ b : List UInt8, b.length = 24 →
      ∃ f, Operator.WireFrame.decode b = .ok f ∧ f.crcOk = verifyFrame (Core.WireFrame.ofBytes b) ∧
        ∀ buf : List UInt8, buf.length = 24 → f.encode buf = b) := by
  constructor
  · intro s
    have hv := Core.verifyFrame_packFrameInto s
    rw [Core.WireFrame.ofBytes_bytes]
    refine ⟨hv, view (packFrameInto s), ?_, hv, (magic_iff _).mpr rfl, (version_iff _).mpr rfl,
      Operator.toInt_byte _, Operator.toInt_int _, ?_, Operator.toInt_short _, Operator.toInt_byte _,
      Operator.toInt_byte _, rfl, Operator.toInt_int _⟩
    · rw [decode_eq_view (Core.WireFrame.length_bytes _), Core.WireFrame.ofBytes_bytes]
    · have hmask : (s.timestampNs &&& 0xFFFFFFFF).toUInt32.toNat = s.timestampNs.toNat % 2 ^ 32 := by
        have hand : (s.timestampNs &&& 0xFFFFFFFF).toNat = s.timestampNs.toNat % 2 ^ 32 :=
          (UInt64.toNat_and _ _).trans (Nat.and_two_pow_sub_one_eq_mod s.timestampNs.toNat 32)
        rw [UInt64.toNat_toUInt32, hand, Nat.mod_mod]
      exact (Operator.toInt_int _).trans (congrArg Nat.cast hmask)
  · intro b hb
    refine ⟨view (Core.WireFrame.ofBytes b), decode_eq_view hb, rfl, ?_⟩
    intro buf hbuf
    rw [encode_view _ hbuf, Core.WireFrame.bytes_ofBytes hb]

/-! ## The golden frame -/

/-- `make_golden` of `test_frame.cpp`. -/
def goldenSample : SensorSample where
  seq := 42
  timestampNs := 0x1122334455667788
  nodeId := 7
  sensorType := 2
  flags := Core.flagLastHop
  reserved := 0
  rawValue := -9001

/-- `shared/golden_frame.hex`. -/
def goldenFrame : List UInt8 :=
  [0x43, 0x5A, 0x01, 0x02, 0x2A, 0x00, 0x00, 0x00, 0x88, 0x77, 0x66, 0x55,
    0x07, 0x00, 0x02, 0x00, 0xD7, 0xDC, 0xFF, 0xFF, 0x89, 0x84, 0xEC, 0xFD]

example : (packFrameInto goldenSample).bytes = goldenFrame := by decide +kernel

/-- The golden frame through both codecs. -/
theorem wire_format_golden :
    ∃ f, Operator.WireFrame.decode goldenFrame = .ok f ∧
      f.crcOk = verifyFrame (Core.WireFrame.ofBytes goldenFrame) ∧
      f.encode (List.replicate 24 0) = goldenFrame := by
  obtain ⟨f, hf, hok, henc⟩ := wire_format_agrees.2 goldenFrame (by decide)
  exact ⟨f, hf, hok, henc _ (by decide)⟩

end ZcMesh
