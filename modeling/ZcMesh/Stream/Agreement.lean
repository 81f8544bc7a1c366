import ZcMesh.Stream.Capture
import ZcMesh.Stream.Receiver

/-!
# The two TCP decoders agree

Both are the reference scan of the bytes they are fed, whatever the pieces, so they agree with each other
(`decoders_agree`): the same frames in the same order and the same number of rejections.
-/

namespace ZcMesh

open WindowScan (scan)
open Runs (run AllSteps)
open Operator (ByteBuffer)

/-- The frames of the reference scan are 24 bytes each, and the operator decodes each to its view. -/
theorem decode_scan_frames (s : List UInt8) :
    List.Forall₂ (fun b f => b.length = 24 ∧ Operator.WireFrame.decode b = .ok f) (scan frameSpec s).frames
      ((scan frameSpec s).frames.map fun b => view (Core.WireFrame.ofBytes b)) := by
  rw [List.forall₂_map_right_iff, List.forall₂_same]
  intro b hb
  have hlen := (WindowScan.scan_frames_accept s b hb).1
  exact ⟨hlen, decode_eq_view hlen⟩

/-- **The decoders agree**: `zcmesh_capture` fed the chunks `cs` and the operator fed the reads `js` of the same bytes.
After every read the operator keeps fewer than 24 bytes. -/
theorem decoders_agree {out : Core.File} (hout : out.AtEnd) (p : Operator.TelemetryPipeline)
    {cs js : List (List UInt8)} (hsame : cs.flatten = js.flatten)
    (hc : AllSteps Core.receive Core.Fits (.fresh out) cs)
    (hj : AllSteps Operator.readTcp Operator.Fits (Operator.accept p) js) :
    let c := run Core.receive (.fresh out) cs
    let j := run Operator.readTcp (Operator.accept p) js
    (∃ frames : List (List UInt8), c.out.contents = out.contents ++ frames.flatten ∧
      c.ok = UInt64.ofNat frames.length ∧
      List.Forall₂ (fun b f => b.length = 24 ∧ Operator.WireFrame.decode b = .ok f) frames j.offered) ∧
    j.pipeline.framesCrcFail.toUInt64 - p.framesCrcFail.toUInt64 = c.drop ∧
    ∀ fed, fed <+: js →
      let r := run Operator.readTcp (Operator.accept p) fed
      r.threw = none ∧ r.buf.pending.length < 24 ∧ r.buf.remaining + r.buf.pending.length = 256 * 1024 := by
  obtain ⟨lost, h⟩ := Operator.run_readTcp p hj
  rw [Core.run_receive hout hc, hsame]
  refine ⟨⟨(scan frameSpec js.flatten).frames, hout.contents_append _, UInt64.zero_add _, ?_⟩, ?_, ?_⟩
  · rw [h.counted.offered]
    exact decode_scan_frames js.flatten
  · rw [h.counted.crcFail]
    exact (add_sub_cancel_left _ _).trans (UInt64.zero_add _).symm
  · rintro fed ⟨later, rfl⟩
    obtain ⟨lost', h'⟩ := Operator.run_readTcp p (Runs.allSteps_append.mp hj).1
    have hrest := WindowScan.scan_rest_lt (S := frameSpec) fed.flatten
    rw [← h'.rest, frameSpec_width] at hrest
    refine ⟨h'.ready.threw, hrest, ?_⟩
    have hcap := h'.capacity.trans List.length_replicate
    have hlim := h'.ready.limit
    have hpos := (run Operator.readTcp (Operator.accept p) fed).buf.position_le
    rw [ByteBuffer.length_pending, ByteBuffer.remaining]
    omega

/-- The golden frame, whole on one side and in two reads on the other. -/
theorem decoders_agree_golden :
    ∃ p, Operator.TelemetryPipeline.make 2 (fun _ => 0) = .ok p ∧
      (run Operator.readTcp (Operator.accept p)
        [goldenFrame.take 9, goldenFrame.drop 9]).pipeline.framesCrcFail.toUInt64 -
        p.framesCrcFail.toUInt64 = (run Core.receive (.fresh {}) [goldenFrame]).drop := by
  obtain ⟨p, hmake⟩ : ∃ p, Operator.TelemetryPipeline.make 2 (fun _ => 0) = .ok p := ⟨_, rfl⟩
  have hout : ({} : Core.File).AtEnd := by decide
  have hc : AllSteps Core.receive Core.Fits (.fresh {}) [goldenFrame] :=
    Core.allSteps_fits_of_chunks hout (by decide)
  have hj : AllSteps Operator.readTcp Operator.Fits (Operator.accept p) [goldenFrame.take 9, goldenFrame.drop 9] :=
    Operator.allSteps_fits p (by decide)
  exact ⟨p, hmake, (decoders_agree hout p (by decide) hc hj).2.1⟩

end ZcMesh
