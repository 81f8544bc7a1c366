import ZcMesh.Wire.Codec

/-!
# Short bursts do not verify

The checksum over the whole of a frame: the register behind all 24 bytes of a frame that verifies does not depend on
the frame (`update_verified`). Two frames that verify therefore differ by a string that leaves a zero register at zero,
which no difference within four consecutive bytes does (`ReflectedCrc.update_burst`). The four bytes may lie across the
payload and the stored checksum.
-/

namespace ZcMesh.Core

open LittleEndian

/-- `b` with the bits of `e` changed. -/
def corrupt (b e : List UInt8) : List UInt8 := List.zipWith (· ^^^ ·) b e

/-- A little-endian number is the word of its bytes. -/
theorem word_toBitVec (w : Nat) (bs : List UInt8) :
    ReflectedCrc.word w (bs.map UInt8.toBitVec) = BitVec.ofNat w (ofLe bs) := by
  induction bs with
  | nil => rfl
  | cons b bs ih =>
    apply BitVec.eq_of_getLsbD_eq
    intro i hi
    have hb : b.toNat < 2 ^ 8 := b.toNat_lt
    have hbit := Nat.testBit_two_pow_mul_add (ofLe bs) hb i
    rw [show 2 ^ 8 * ofLe bs + b.toNat = ofLe (b :: bs) by rw [ofLe]; omega] at hbit
    rw [List.map_cons, ReflectedCrc.word, ih, BitVec.getLsbD_xor, BitVec.getLsbD_setWidth, BitVec.getLsbD_shiftLeft,
      BitVec.getLsbD_ofNat, BitVec.getLsbD_ofNat, hbit]
    by_cases h8 : i < 8
    · simp [hi, h8, BitVec.getLsbD]
    · have hge : b.toBitVec.getLsbD i = false := BitVec.getLsbD_of_ge _ i (by omega)
      simp [hi, h8, hge, show i - 8 < w by omega]

/-- The register behind all bytes of a frame that verifies. -/
theorem update_verified {b : List UInt8} (hb : b.length = wireFrameSize) (hv : verifyFrame (.ofBytes b) = true) :
    ReflectedCrc.update crcPoly crcSeed.toBitVec (b.map UInt8.toBitVec) =
      ReflectedCrc.bitSteps crcPoly 32 0xFFFFFFFF#32 := by
  simp only [wireFrameSize] at hb
  have hcheck := ((verifyFrame_iff _).mp hv).2.2
  rw [WireFrame.bytes_ofBytes hb] at hcheck
  have hstored : (WireFrame.ofBytes b).checksum.toBitVec = ReflectedCrc.word 32 ((b.drop 20).map UInt8.toBitVec) := by
    have htail : slice b 20 4 = b.drop 20 := List.take_of_length_le (by rw [List.length_drop]; omega)
    rw [word_toBitVec, WireFrame.ofBytes, htail]
    rfl
  have hregister := crc32_eq (b.take crcPayloadLen) crcSeed
  rw [hcheck, hstored] at hregister
  have hfit : 8 * ((b.drop 20).map UInt8.toBitVec).length ≤ 32 := by rw [List.length_map, List.length_drop, hb]
  have htaken := ReflectedCrc.update_eq_bitSteps crcPoly hfit
    (ReflectedCrc.update crcPoly crcSeed.toBitVec ((b.take 20).map UInt8.toBitVec))
  rw [List.length_map, List.length_drop, hb, hregister] at htaken
  conv_lhs => rw [← List.take_append_drop 20 b]
  rw [List.map_append, ReflectedCrc.update_append, htaken]
  congr 1
  show ReflectedCrc.update _ _ ((b.take 20).map _) ^^^ (ReflectedCrc.update _ _ ((b.take 20).map _) ^^^ _) = _
  rw [← BitVec.xor_assoc, BitVec.xor_self, BitVec.zero_xor]

/-- The bytes outside the burst are the zero bytes. -/
theorem burst_split {e : List UInt8} {i : Nat} (h : ∀ j, e.getD j 0 ≠ 0 → i ≤ j ∧ j < i + 4) :
    e = List.replicate (e.take i).length 0 ++ slice e i 4 ++ List.replicate (e.drop (i + 4)).length 0 := by
  have hfront : e.take i = List.replicate (e.take i).length 0 := by
    apply List.eq_replicate_of_mem
    intro x hx
    obtain ⟨j, hj, rfl⟩ := List.getElem_of_mem hx
    rw [List.length_take] at hj
    by_contra hne
    have := (h j (by simpa [show j < e.length by omega] using hne)).1
    omega
  have hback : e.drop (i + 4) = List.replicate (e.drop (i + 4)).length 0 := by
    apply List.eq_replicate_of_mem
    intro x hx
    obtain ⟨j, hj, rfl⟩ := List.getElem_of_mem hx
    rw [List.length_drop] at hj
    by_contra hne
    have := (h (i + 4 + j) (by simpa [show i + 4 + j < e.length by omega] using hne)).2
    omega
  rw [← hfront, ← hback, slice, List.append_assoc, ← List.drop_drop, List.take_append_drop, List.take_append_drop]

/-- **A burst within four consecutive bytes never verifies.** -/
theorem verifyFrame_burst {b e : List UInt8} (hb : b.length = wireFrameSize) (he : e.length = wireFrameSize)
    (hv : verifyFrame (.ofBytes b) = true) (hne : ∃ x ∈ e, x ≠ 0) {i : Nat}
    (hburst : ∀ j, e.getD j 0 ≠ 0 → i ≤ j ∧ j < i + 4) : verifyFrame (.ofBytes (corrupt b e)) = false := by
  by_contra hc
  have hv' : verifyFrame (.ofBytes (corrupt b e)) = true := by simpa using hc
  have hlen : (corrupt b e).length = wireFrameSize := by rw [corrupt, List.length_zipWith, hb, he, Nat.min_self]
  -- both frames leave the same register, so their difference leaves none
  have hsame : (b.map UInt8.toBitVec).length = (e.map UInt8.toBitVec).length := by
    rw [List.length_map, List.length_map, hb, he]
  have hdiff := ReflectedCrc.update_xor crcPoly crcSeed.toBitVec 0#32 hsame
  have hmap : List.zipWith (· ^^^ ·) (b.map UInt8.toBitVec) (e.map UInt8.toBitVec) =
      (corrupt b e).map UInt8.toBitVec := by
    rw [corrupt, List.map_zipWith, List.zipWith_map]
    rfl
  rw [hmap, BitVec.xor_zero, update_verified hlen hv', update_verified hb hv] at hdiff
  have hzero : ReflectedCrc.update crcPoly 0#32 (e.map UInt8.toBitVec) = 0#32 := by
    have := congrArg (ReflectedCrc.bitSteps crcPoly 32 0xFFFFFFFF#32 ^^^ ·) hdiff
    simpa [← BitVec.xor_assoc] using this.symm
  -- a burst does leave something
  rw [burst_split hburst, List.map_append, List.map_append, List.map_replicate, List.map_replicate] at hzero
  refine ReflectedCrc.update_burst (by decide : crcPoly.msb = true) ?_ ?_ _ _ hzero
  · rw [List.length_map, slice, List.length_take]
    omega
  · obtain ⟨x, hx, hx0⟩ := hne
    rw [burst_split hburst] at hx
    simp only [List.mem_append, List.mem_replicate, hx0, and_false, false_or, or_false] at hx
    exact ⟨x.toBitVec, List.mem_map_of_mem hx, fun h => hx0 (UInt8.toBitVec_inj.mp h)⟩

/-- Two bytes of the golden frame's value and two of its checksum. -/
theorem verifyFrame_burst_golden :
    verifyFrame (.ofBytes (corrupt goldenFrame (List.replicate 18 0 ++ [0x01, 0x00, 0x80, 0x07, 0x00, 0x00]))) =
      false := by
  refine verifyFrame_burst (by decide) (by decide) (by decide +kernel) ⟨0x01, by decide, by decide⟩ (i := 18) ?_
  intro j hj
  have hinside : ∀ j < 24, (List.replicate 18 0 ++ [0x01, 0x00, 0x80, 0x07, 0x00, 0x00] : List UInt8).getD j 0 ≠ 0 →
      18 ≤ j ∧ j < 18 + 4 := by decide
  rcases Nat.lt_or_ge j 24 with h | h
  · exact hinside j h hj
  · exact absurd (List.getD_eq_getElem?_getD.trans (by rw [List.getElem?_eq_none h]; rfl)) hj

end ZcMesh.Core
