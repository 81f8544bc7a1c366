import ZcMesh.Wire.Codec
import ZcMesh.Zcm.FailedWrite
import ZcMesh.Zcm.Inspect

/-!
# Recordings of the operator and the C++ tools

What `ZcmWriter` makes of the frames that `WireFrame.decode` gives is a `.zcm` file as `zcmesh_capture` writes it: the
header of `rewrite_header` and the bytes of the strings that verify, as they came (`Recorded.writeAll`,
`Recorded.closes`). So `zcmesh_inspect` accepts it, with the statistics of these frames (`java_recording`).
-/

namespace ZcMesh.Operator

open ZcMesh.Core (verifyFrame zcmHeader zcmFile rewriteHeader Memory inspect ZcmAnalyze)

/-! ## The code -/

namespace ZcmWriter

/-- `write(WireFrame.decode(…))`, string by string. -/
def writeAll (w : ZcmWriter) : List (List UInt8) → Except String ZcmWriter
  | [] => .ok w
  | b :: strings =>
    match WireFrame.decode b with
    | .error e => .error e
    | .ok frame =>
      match w.write frame with
      | (.error e, _) => .error e
      | (.ok (), w) => w.writeAll strings

/-- `close`, `k` times. -/
def closes : Nat → ZcmWriter → Except String Unit × ZcmWriter
  | 0, w => (.ok (), w)
  | k + 1, w =>
    match w.close with
    | (.error e, w) => (.error e, w)
    | (.ok (), w) => closes k w

end ZcmWriter

/-- The strings that verify. -/
def verifying (strings : List (List UInt8)) : List (List UInt8) := strings.filter fun b => verifyFrame (.ofBytes b)

/-! ## The file -/

/-- The images of decoded strings are the strings. -/
theorem images_decoded {strings : List (List UInt8)} (h : ∀ b ∈ strings, b.length = Core.wireFrameSize) :
    images (strings.map fun b => view (.ofBytes b)) = strings.flatten := by
  rw [images, List.flatMap_map, ← Core.frames_ofBytes h, Blocks.bytesOf, List.flatMap_map]
  exact List.flatMap_congr fun b _ => image_view _

namespace ZcmWriter

variable {w : ZcmWriter} {frames : List WireFrame}

/-- A frame with a bad checksum is left out. -/
theorem Recorded.skip (h : Recorded w frames) {frame : WireFrame} (hcrc : frame.crcOk = false) :
    w.write frame = (.ok (), w) := by
  simp [ZcmWriter.write, h.opened, hcrc]

/-- **The strings that verify are recorded**, and nothing else. -/
theorem Recorded.writeAll {strings : List (List UInt8)} (h : Recorded w frames)
    (hlen : ∀ b ∈ strings, b.length = Core.wireFrameSize) :
    ∃ w', w.writeAll strings = .ok w' ∧
      Recorded w' (frames ++ (verifying strings).map fun b => view (.ofBytes b)) := by
  induction strings generalizing w frames with
  | nil => exact ⟨w, rfl, by simpa [verifying] using h⟩
  | cons b strings ih =>
    have hrest : ∀ b ∈ strings, b.length = Core.wireFrameSize := fun c hc => hlen c (List.mem_cons_of_mem b hc)
    have hdecode := decode_eq_view (hlen b List.mem_cons_self)
    cases hv : verifyFrame (.ofBytes b) with
    | false =>
      have hskip : w.write (view (.ofBytes b)) = (.ok (), w) := h.skip hv
      obtain ⟨w', hall, hrecorded⟩ := ih h hrest
      refine ⟨w', ?_, ?_⟩
      · simpa only [ZcmWriter.writeAll, hdecode, hskip] using hall
      · simpa [verifying, hv] using hrecorded
    | true =>
      have hcrc : (view (.ofBytes b)).crcOk = true := hv
      obtain ⟨hok, hwritten⟩ := h.write hcrc
      have hwrite : w.write (view (.ofBytes b)) = (.ok (), (w.write (view (.ofBytes b))).2) := by rw [← hok]
      obtain ⟨w', hall, hrecorded⟩ := ih hwritten hrest
      refine ⟨w', ?_, ?_⟩
      · simp only [ZcmWriter.writeAll, hdecode]
        rw [hwrite]
        exact hall
      · simpa [verifying, hv] using hrecorded

/-- **Closing again changes nothing.** -/
theorem closes_closed (h : w.closed = true) (k : Nat) : closes k w = (.ok (), w) := by
  induction k with
  | zero => rfl
  | succ k ih => simp only [closes, ZcmWriter.close, h, if_true, ih]

/-- **The file behind one `close` or more.** -/
theorem Recorded.closes (h : Recorded w frames) (k : Nat) :
    (closes (k + 1) w).1 = .ok () ∧
      (ZcmWriter.closes (k + 1) w).2.channel.contents =
        (zcmHeader (UInt64.ofNat frames.length)).bytes ++ images frames := by
  obtain ⟨hok, hclosed, hcontents, -⟩ := h.close
  have hclose : w.close = (.ok (), w.close.2) := by rw [← hok]
  have hcloses : ZcmWriter.closes (k + 1) w = (.ok (), w.close.2) := by
    rw [ZcmWriter.closes, hclose]
    exact closes_closed hclosed k
  rw [hcloses, hcontents, Recorder.header_eq]
  exact ⟨rfl, rfl⟩

end ZcmWriter

/-! ## Its reader -/

/-- **Recordings of the operator are valid for the C++ tools.** Behind the last `close` the file is the header that
`rewrite_header` writes for the strings that verify, and these strings; `zcmesh_inspect`, with the memory for its
vector, accepts it and reports their number and the statistics of their frames. -/
theorem java_recording {w₀ : ZcmWriter} (hmake : ZcmWriter.make [] = .ok w₀) {strings : List (List UInt8)}
    (hlen : ∀ b ∈ strings, b.length = 24) :
    let good := verifying strings
    ∃ w, w₀.writeAll strings = .ok w ∧ ∀ k,
      let closed := ZcmWriter.closes (k + 1) w
      closed.1 = .ok () ∧
        closed.2.channel.contents =
          (rewriteHeader {} true (UInt64.ofNat good.length)).2.contents ++ good.flatten ∧
        ∀ mem : Memory, mem.allocates (4 * good.length) = true →
          let r := inspect mem {} closed.2.channel.contents
          r.ending = .exit 0 "" ∧ r.stats.ok.toNat = good.length ∧ r.stats.crcFail = 0 ∧
            r.stats = Runs.run ZcmAnalyze.observe {} (good.map Core.WireFrame.ofBytes) := by
  intro good
  obtain ⟨w, hall, hrecorded⟩ := (ZcmWriter.recorded_make hmake).writeAll hlen
  refine ⟨w, hall, fun k => ?_⟩
  have hgood : ∀ b ∈ good, b.length = Core.wireFrameSize := fun b hb => hlen b (List.mem_of_mem_filter hb)
  have hverify : ∀ c ∈ good.map Core.WireFrame.ofBytes, verifyFrame c = true := by
    intro c hc
    obtain ⟨b, hb, rfl⟩ := List.mem_map.mp hc
    exact (List.mem_filter.mp hb).2
  have hcount : (good.map Core.WireFrame.ofBytes).length = good.length := List.length_map _
  obtain ⟨hclosed, hcontents⟩ := hrecorded.closes k
  rw [List.nil_append, List.length_map, images_decoded hgood] at hcontents
  have hzcm : (ZcmWriter.closes (k + 1) w).2.channel.contents = zcmFile (good.map Core.WireFrame.ofBytes) := by
    rw [hcontents, zcmFile, hcount, Core.frames_ofBytes hgood]
  have hheader : (rewriteHeader {} true (UInt64.ofNat good.length)).2.contents =
      (zcmHeader (UInt64.ofNat good.length)).bytes := by
    exact (Core.rewriteHeader_complete rfl _).2.2
  refine ⟨hclosed, by rw [hheader, hcontents], ?_⟩
  intro mem hmem
  have hlt := Memory.lt_of_allocates hmem
  rw [hzcm, Core.inspect_zcmFile {} hverify (by rwa [hcount]), Core.unmet_none]
  refine ⟨rfl, ?_, Core.crcFail_run {} _, rfl⟩
  rw [ZcmAnalyze.ok_run, hcount]
  show (0 + UInt64.ofNat good.length).toNat = good.length
  rw [UInt64.zero_add, UInt64.toNat_ofNat_of_lt' (by simp only [UInt64.size]; omega)]

/-- A frame that verifies, between two that do not. -/
theorem java_recording_golden :
    ∃ w₀, ZcmWriter.make [] = .ok w₀ ∧ ∃ w,
      w₀.writeAll [List.replicate 24 0, goldenFrame, goldenFrame.reverse] = .ok w ∧
        (inspect ⟨fun n => decide (n < 2 ^ 63), by simp⟩ {} (ZcmWriter.closes 2 w).2.channel.contents).stats.ok.toNat =
          1 := by
  have hgood : verifying [List.replicate 24 0, goldenFrame, goldenFrame.reverse] = [goldenFrame] := by decide +kernel
  obtain ⟨w₀, hmake⟩ : ∃ w₀, ZcmWriter.make [] = .ok w₀ := ⟨_, rfl⟩
  have hlen : ∀ b ∈ [List.replicate 24 0, goldenFrame, goldenFrame.reverse], b.length = 24 := by decide
  obtain ⟨w, hall, hclosed⟩ := java_recording hmake hlen
  rw [hgood] at hclosed
  obtain ⟨-, -, hinspect⟩ := hclosed 1
  exact ⟨w₀, hmake, w, hall, (hinspect _ (by decide)).2.1⟩

end ZcMesh.Operator
