import ZcMesh.Wire.Codec
import ZcMesh.Zcm.Inspect
import ZcMesh.Zcm.Replay

/-!
# Hostile headers

`frame_count` is whatever the file says. `zcmesh_inspect` reserves four bytes for each frame before it reads one, and
`zcmesh_replay` computes the size of its blob in 64 bits, where `24 * frame_count` wraps. So a header that promises too
much is rejected safely exactly when the memory for both vectors is there and the wrapped product still asks for more
than the file holds (`safelyRejected_iff`).
-/

namespace ZcMesh.Core

open LittleEndian (slice)

/-- The header of a file. -/
def headerOf (file : List UInt8) : ZcmHeader := .ofBytes (file.take zcmHeaderSize)

/-- The bytes behind the header. -/
def payload (file : List UInt8) : List UInt8 := file.drop zcmHeaderSize

/-- The number of frames that the header promises. -/
def promised (file : List UInt8) : Nat := (headerOf file).frameCount.toNat

/-- The size of the blob, in 64 bits. -/
def blobSize (file : List UInt8) : Nat := wireFrameSize * promised file % 2 ^ 64

/-- A file with the magic and the version of a recording. -/
structure WellMarked (file : List UInt8) : Prop where
  long : zcmHeaderSize ≤ file.length
  valid : (headerOf file).Valid

/-- A file that is too short for its header is refused by both programs with status 1, and nothing is sent; and when
`zcmesh_replay` has loaded a file, its loop stays inside the blob. -/
structure SafelyRejected (mem : Memory) (file : List UInt8) : Prop where
  inspect : (payload file).length < wireFrameSize * promised file →
    ∀ opts, ∃ message, (inspect mem opts file).ending = .exit 1 message
  replay : (payload file).length < wireFrameSize * promised file → ∀ opts net,
    (∃ message, (replay mem opts net file).1 = .exit 1 message) ∧
      (replay mem opts net file).2.tcp.accepted = net.tcp.accepted ∧
      (replay mem opts net file).2.udp.sent = net.udp.sent
  inside : ∀ frameCount blob, loadBlob mem file = .ok (frameCount, blob) →
    ∀ i < frameCount.toNat, frameOffset i + wireFrameSize ≤ blob.length

/-- The memory for both vectors is there and the wrapped size is still too much; or the file is long enough, and its
size does not wrap or cannot be allocated. -/
def Harmless (mem : Memory) (file : List UInt8) : Prop :=
  let needed := wireFrameSize * promised file
  ((payload file).length < needed →
    mem.allocates (4 * promised file) = true ∧ mem.allocates (blobSize file) = true ∧
      (payload file).length < blobSize file) ∧
  (needed ≤ (payload file).length → needed < 2 ^ 64 ∨ mem.allocates (blobSize file) = false)

/-! ## The two programs on such a file -/

section Programs

variable {mem : Memory} {file : List UInt8}

theorem fread_wellMarked (h : WellMarked file) :
    fread file zcmHeaderSize = (file.take zcmHeaderSize, payload file) ∧
      (file.take zcmHeaderSize).length = zcmHeaderSize :=
  ⟨rfl, List.length_take_of_le h.long⟩

theorem inspect_truncated (h : WellMarked file) (hmem : mem.allocates (4 * promised file) = true)
    (hshort : (payload file).length < wireFrameSize * promised file) (opts : InspectOptions) :
    ∃ message, (inspect mem opts file).ending = .exit 1 message := by
  obtain ⟨hread, hlen⟩ := fread_wellMarked h
  obtain ⟨j, hj⟩ := inspectLoop_truncated 0 {} hshort
  have hvalid := h.valid
  refine ⟨s!"truncated at frame {j}", ?_⟩
  simp only [promised, headerOf] at hmem hj hvalid
  simp only [inspect, hread, hlen, hvalid, hmem, hj, ne_eq, not_true, if_false, Bool.not_true, Bool.false_eq_true]

theorem inspect_uncaught (h : WellMarked file) (hmem : mem.allocates (4 * promised file) = false)
    (opts : InspectOptions) : (inspect mem opts file).ending = .uncaught := by
  obtain ⟨hread, hlen⟩ := fread_wellMarked h
  have hvalid := h.valid
  simp only [promised, headerOf] at hmem hvalid
  simp only [inspect, hread, hlen, hvalid, hmem, ne_eq, not_true, if_false, Bool.not_false, if_true]

/-- What `zcmesh_replay` loads. -/
theorem loadBlob_eq (mem : Memory) (h : WellMarked file) :
    loadBlob mem file =
      if mem.allocates (blobSize file) = false then .error .uncaught
      else if 0 < promised file then
        if (payload file).length < blobSize file then .error (.exit 1 "truncated .zcm")
        else .ok ((headerOf file).frameCount, (payload file).take (blobSize file))
      else .ok ((headerOf file).frameCount, []) := by
  obtain ⟨hread, hlen⟩ := fread_wellMarked h
  have hvalid := h.valid
  have hwant : ((headerOf file).frameCount * UInt64.ofNat wireFrameSize).toNat = blobSize file := by
    rw [UInt64.toNat_mul, blobSize, promised, Nat.mul_comm]
    rfl
  have hpos : (headerOf file).frameCount > 0 ↔ 0 < promised file := UInt64.lt_iff_toNat_lt
  have htake : (fread (payload file) (blobSize file)).1 = (payload file).take (blobSize file) := rfl
  simp only [headerOf] at hvalid hwant hpos
  simp only [loadBlob, hread, hlen, hvalid, hwant, hpos, htake, ne_eq, not_true, or_self, if_false, Bool.not_eq_true',
    List.length_take, headerOf]
  split
  · rfl
  · split
    · by_cases hshort : (payload file).length < blobSize file
      · rw [if_pos (by omega), if_pos hshort]
      · rw [if_neg (by omega), if_neg hshort]
    · rfl

/-- A file that is not loaded ends `zcmesh_replay`, with nothing sent. -/
theorem replay_of_error {ending : Ending} (hload : loadBlob mem file = .error ending) (opts : ReplayOptions)
    (net : ReplayNet) : replay mem opts net file = (ending, { tcp := net.tcp, udp := net.udp }) := by
  simp only [replay, hload]

/-- A file that is shorter than the wrapped size is refused by `zcmesh_replay`. -/
theorem loadBlob_truncated (h : WellMarked file) (hmem : mem.allocates (blobSize file) = true)
    (hshort : (payload file).length < blobSize file) : loadBlob mem file = .error (.exit 1 "truncated .zcm") := by
  have hpos : 0 < promised file := by
    apply Nat.pos_of_ne_zero
    intro hzero
    rw [blobSize, hzero] at hshort
    exact Nat.not_lt_zero _ hshort
  rw [loadBlob_eq mem h, hmem, if_neg (by decide), if_pos hpos, if_pos hshort]

/-- A blob that is loaded is the front of the payload, as long as the wrapped size says. -/
theorem loadBlob_ok (h : WellMarked file) {frameCount : UInt64} {blob : List UInt8}
    (hok : loadBlob mem file = .ok (frameCount, blob)) :
    mem.allocates (blobSize file) = true ∧ blobSize file ≤ (payload file).length ∧
      frameCount = (headerOf file).frameCount ∧ blob.length = blobSize file := by
  rw [loadBlob_eq mem h] at hok
  by_cases hmem : mem.allocates (blobSize file) = false
  · rw [if_pos hmem] at hok
    cases hok
  · rw [if_neg hmem] at hok
    refine ⟨by simpa using hmem, ?_⟩
    by_cases hpos : 0 < promised file
    · rw [if_pos hpos] at hok
      by_cases hshort : (payload file).length < blobSize file
      · rw [if_pos hshort] at hok
        cases hok
      · rw [if_neg hshort] at hok
        cases hok
        exact ⟨Nat.le_of_not_lt hshort, rfl, List.length_take_of_le (Nat.le_of_not_lt hshort)⟩
    · rw [if_neg hpos] at hok
      cases hok
      have hzero : blobSize file = 0 := by
        rw [blobSize, Nat.eq_zero_of_not_pos hpos, Nat.mul_zero, Nat.zero_mod]
      rw [hzero]
      exact ⟨Nat.zero_le _, rfl, rfl⟩

/-- A blob of the exact size holds every frame. -/
theorem inside_of_fits (h : WellMarked file) (hfit : wireFrameSize * promised file < 2 ^ 64) {frameCount : UInt64}
    {blob : List UInt8} (hok : loadBlob mem file = .ok (frameCount, blob)) {i : Nat} (hi : i < frameCount.toNat) :
    frameOffset i + wireFrameSize ≤ blob.length := by
  obtain ⟨_, _, rfl, hlen⟩ := loadBlob_ok h hok
  have hi' : i < promised file := hi
  rw [hlen, blobSize, frameOffset, Nat.mod_eq_of_lt hfit]
  unfold wireFrameSize at *
  rw [Nat.mod_eq_of_lt (by omega)]
  omega

/-- With the memory and the bytes for a size that has wrapped, one of the frames is outside of the blob. -/
theorem not_inside (h : WellMarked file) (hmem : mem.allocates (blobSize file) = true)
    (hfull : blobSize file ≤ (payload file).length) (hwrap : blobSize file < wireFrameSize * promised file) :
    ¬SafelyRejected mem file := by
  intro hsafe
  have hsize : blobSize file < 2 ^ 64 := Nat.mod_lt _ (Nat.two_pow_pos 64)
  simp only [wireFrameSize] at hwrap
  have hload := loadBlob_eq mem h
  rw [hmem, if_neg (by decide), if_pos (by omega), if_neg (by omega)] at hload
  -- the frame at the end of the blob
  have hinside := hsafe.inside _ _ hload (blobSize file / 24) (by show _ < promised file; omega)
  rw [List.length_take_of_le hfull, frameOffset, wireFrameSize, Nat.mod_eq_of_lt (by omega)] at hinside
  omega

end Programs

/-! ## When it goes well -/

section Harmless

variable {mem : Memory} {file : List UInt8}

theorem SafelyRejected.harmless (h : WellMarked file) (hsafe : SafelyRejected mem file) : Harmless mem file := by
  have hwraps : mem.allocates (blobSize file) = true → blobSize file ≤ (payload file).length →
      wireFrameSize * promised file ≤ blobSize file := by
    intro hmem hfull
    by_contra hwrap
    exact not_inside h hmem hfull (Nat.lt_of_not_le hwrap) hsafe
  constructor
  · intro hshort
    have hblob : mem.allocates (blobSize file) = true := by
      by_contra hno
      have hload := loadBlob_eq mem h
      obtain ⟨⟨message, hmessage⟩, _⟩ := hsafe.replay hshort {} { endpoint := none }
      rw [if_pos (by simpa using hno)] at hload
      rw [replay_of_error hload] at hmessage
      cases hmessage
    refine ⟨?_, hblob, ?_⟩
    · by_contra hno
      obtain ⟨message, hmessage⟩ := hsafe.inspect hshort {}
      rw [inspect_uncaught h (by simpa using hno)] at hmessage
      cases hmessage
    · by_contra hfull
      have := hwraps hblob (Nat.le_of_not_lt hfull)
      omega
  · intro hlong
    by_cases hmem : mem.allocates (blobSize file) = true
    · have hsize : blobSize file < 2 ^ 64 := Nat.mod_lt _ (Nat.two_pow_pos 64)
      have hle : blobSize file ≤ wireFrameSize * promised file := Nat.mod_le _ _
      have := hwraps hmem (Nat.le_trans hle hlong)
      left
      omega
    · right
      simpa using hmem

theorem Harmless.safelyRejected (h : WellMarked file) (hharmless : Harmless mem file) : SafelyRejected mem file := by
  obtain ⟨hshort, hlong⟩ := hharmless
  have hrefused : (payload file).length < wireFrameSize * promised file →
      loadBlob mem file = .error (.exit 1 "truncated .zcm") := by
    intro hless
    obtain ⟨_, hblob, hwant⟩ := hshort hless
    exact loadBlob_truncated h hblob hwant
  exact
    { inspect := fun hless opts => inspect_truncated h (hshort hless).1 hless opts
      replay := by
        intro hless opts net
        rw [replay_of_error (hrefused hless)]
        exact ⟨⟨_, rfl⟩, rfl, rfl⟩
      inside := by
        intro frameCount blob hok i hi
        have hneeded : wireFrameSize * promised file ≤ (payload file).length := by
          by_contra hless
          rw [hrefused (Nat.lt_of_not_le hless)] at hok
          cases hok
        rcases hlong hneeded with hfit | hno
        · exact inside_of_fits h hfit hok hi
        · rw [(loadBlob_ok h hok).1] at hno
          cases hno }

end Harmless

/-- **A header that promises too much is rejected safely exactly when it is harmless.** -/
theorem safelyRejected_iff (mem : Memory) {file : List UInt8} (h : WellMarked file) :
    SafelyRejected mem file ↔ Harmless mem file :=
  ⟨SafelyRejected.harmless h, Harmless.safelyRejected h⟩

/-- A file that breaks off in its only frame is refused. -/
theorem safelyRejected_cut :
    SafelyRejected ⟨fun n => decide (n < 2 ^ 63), by simp⟩ ((zcmHeader 1).bytes ++ goldenFrame.take 10) := by
  have hmarked : WellMarked ((zcmHeader 1).bytes ++ goldenFrame.take 10) := ⟨by decide, by decide⟩
  have hsizes : promised ((zcmHeader 1).bytes ++ goldenFrame.take 10) = 1 ∧
      (payload ((zcmHeader 1).bytes ++ goldenFrame.take 10)).length = 10 := by decide
  refine (safelyRejected_iff _ hmarked).mpr ⟨?_, ?_⟩
  · rw [blobSize, hsizes.1, hsizes.2]
    decide
  · rw [hsizes.1, hsizes.2]
    decide

/-- A header for `2 ^ 61` frames and nothing behind it: the size of the blob wraps to zero. -/
theorem hostile_header :
    let mem : Memory := ⟨fun n => decide (n < 2 ^ 63), by simp⟩
    let file := (zcmHeader 0x2000000000000000).bytes
    (inspect mem {} file).ending = .uncaught ∧
      (replay mem { useTcp := false } { endpoint := some ⟨"127.0.0.1", 9900⟩ } file).1 = .outOfBounds ∧
      ¬SafelyRejected mem file := by
  intro mem file
  have hmarked : WellMarked file := ⟨by decide, by decide⟩
  have hinspect : (inspect mem {} file).ending = .uncaught := inspect_uncaught hmarked (by decide) {}
  refine ⟨hinspect, by decide +kernel, ?_⟩
  intro hsafe
  obtain ⟨message, hmessage⟩ := hsafe.inspect (by decide) {}
  rw [hinspect] at hmessage
  cases hmessage

end ZcMesh.Core
