import Mathlib.Data.UInt
import ZcMesh.Stats.Interleave
import ZcMesh.Stats.Partition

/-!
# What a pipeline owes to the frames offered

The receiver calls `offer`, `noteCrcFail` and `noteTcpResync`. All but three counters of a pipeline are decided by the
calls of `offer` (`statistics_noteCrcFail`, `statistics_noteTcpResync`), and by those with a good frame alone
(`statistics_accepted`). `Told` puts the three counters beside them.
-/

namespace ZcMesh

open Operator (TelemetryPipeline)

theorem SameCounters.symm {p q : TelemetryPipeline} (h : SameCounters p q) : SameCounters q p :=
  ⟨h.framesOk.symm, h.seqGaps.symm, h.seqDups.symm, h.uniqueNodes.symm, h.sensors.symm, h.hops.symm⟩

theorem SameCounters.trans {p q r : TelemetryPipeline} (h : SameCounters p q) (h' : SameCounters q r) :
    SameCounters p r :=
  ⟨h.framesOk.trans h'.framesOk, h.seqGaps.trans h'.seqGaps, h.seqDups.trans h'.seqDups,
    h.uniqueNodes.trans h'.uniqueNodes, h.sensors.trans h'.sensors, h.hops.trans h'.hops⟩

namespace Operator

open Runs (run)

/-- Everything of a pipeline but the counters of bytes and of rejections. -/
def TelemetryPipeline.statistics (p : TelemetryPipeline) : TelemetryPipeline :=
  { p with bytesIn := 0, framesCrcFail := 0, tcpResync := 0 }

@[simp] theorem statistics_noteCrcFail (p : TelemetryPipeline) : p.noteCrcFail.statistics = p.statistics := rfl

@[simp] theorem statistics_noteTcpResync (p : TelemetryPipeline) (n : Int) :
    (p.noteTcpResync n).statistics = p.statistics := by
  unfold TelemetryPipeline.noteTcpResync
  split <;> rfl

theorem statistics_offer {p q : TelemetryPipeline} (h : p.statistics = q.statistics) (f : WireFrame) :
    (p.offer f).statistics = (q.offer f).statistics := by
  have hone : ∀ p : TelemetryPipeline, (p.offer f).statistics = (p.statistics.offer f).statistics := by
    intro p
    unfold TelemetryPipeline.offer
    split <;> rfl
  rw [hone p, hone q, h]

theorem statistics_run {p q : TelemetryPipeline} (h : p.statistics = q.statistics) (fs : List WireFrame) :
    (run TelemetryPipeline.offer p fs).statistics = (run TelemetryPipeline.offer q fs).statistics := by
  induction fs generalizing p q with
  | nil => exact h
  | cons f fs ih => exact ih (statistics_offer h f)

/-- Frames that do not verify leave no trace in them. -/
theorem statistics_accepted (p : TelemetryPipeline) (fs : List WireFrame) :
    (run TelemetryPipeline.offer p fs).statistics = (run TelemetryPipeline.offer p (accepted fs)).statistics := by
  induction fs generalizing p with
  | nil => rfl
  | cons f fs ih =>
    cases hf : f.crcOk with
    | true => rw [accepted, List.filter_cons_of_pos hf, Runs.run_cons, Runs.run_cons, ← accepted, ih]
    | false =>
      have hbad : (p.offer f).statistics = p.statistics := by rw [offer_bad p hf]; rfl
      rw [accepted, List.filter_cons_of_neg (by simp [hf]), Runs.run_cons, ← accepted, ih, statistics_run hbad]

/-- A new pipeline has not been told of anything. -/
theorem make_reports {n : Nat} {nanoTimes : Nat → Int64} {p : TelemetryPipeline}
    (h : TelemetryPipeline.make n nanoTimes = .ok p) : p.bytesIn = 0 ∧ p.framesCrcFail = 0 ∧ p.tcpResync = 0 := by
  simp only [TelemetryPipeline.make, bind, Except.bind] at h
  split at h
  · cases h
  · cases h
    exact ⟨rfl, rfl, rfl⟩

/-- The object that a window is decoded to. -/
def frameOf (w : List UInt8) : WireFrame := view (.ofBytes w)

/-- The pipeline `p` has been offered the windows `ws` and told of `rejected` windows and `skipped` bytes beside
them. -/
structure Told (p : TelemetryPipeline) (ws : List (List UInt8)) (rejected skipped : Nat) (p' : TelemetryPipeline) :
    Prop where
  statistics : p'.statistics = (run TelemetryPipeline.offer p (ws.map frameOf)).statistics
  bytesIn : p'.bytesIn.toUInt64 = p.bytesIn.toUInt64 + 24 * UInt64.ofNat ws.length
  crcFail : p'.framesCrcFail.toUInt64 =
    p.framesCrcFail.toUInt64 + UInt64.ofNat (rejected + ws.countP fun w => !(frameOf w).crcOk)
  resync : p'.tcpResync.toUInt64 = p.tcpResync.toUInt64 + UInt64.ofNat skipped

namespace Told

theorem refl (p : TelemetryPipeline) : Told p [] 0 0 p :=
  ⟨rfl, (UInt64.add_zero _).symm, (UInt64.add_zero _).symm, (UInt64.add_zero _).symm⟩

theorem trans {p p' p'' : TelemetryPipeline} {ws ws' : List (List UInt8)} {rejected rejected' skipped skipped' : Nat}
    (h : Told p ws rejected skipped p') (h' : Told p' ws' rejected' skipped' p'') :
    Told p (ws ++ ws') (rejected + rejected') (skipped + skipped') p'' where
  statistics := by rw [h'.statistics, List.map_append, Runs.run_append, statistics_run h.statistics]
  bytesIn := by
    rw [h'.bytesIn, h.bytesIn, List.length_append, UInt64.ofNat_add, UInt64.mul_add, UInt64.add_assoc]
  crcFail := by
    rw [h'.crcFail, h.crcFail, List.countP_append, UInt64.add_assoc, ← UInt64.ofNat_add]
    congr 2
    omega
  resync := by rw [h'.resync, h.resync, UInt64.add_assoc, ← UInt64.ofNat_add]

/-- A call of `offer`. -/
theorem offer (p : TelemetryPipeline) (w : List UInt8) : Told p [w] 0 0 (p.offer (frameOf w)) := by
  cases hcrc : (frameOf w).crcOk with
  | true =>
    have hbytes : (p.offer (frameOf w)).bytesIn = p.bytesIn + 24 := by
      simp only [TelemetryPipeline.offer, hcrc, Bool.not_true, Bool.false_eq_true, if_false]
      rfl
    have hreports : (p.offer (frameOf w)).framesCrcFail = p.framesCrcFail ∧
        (p.offer (frameOf w)).tcpResync = p.tcpResync := by
      simp [TelemetryPipeline.offer, TelemetryPipeline.nanoTime, hcrc]
    exact
      { statistics := rfl
        bytesIn := by rw [hbytes]; exact Int64.toUInt64_add _ _
        crcFail := by simp [hreports, hcrc]
        resync := by simp [hreports] }
  | false =>
    have hbad := offer_bad p hcrc
    exact
      { statistics := rfl
        bytesIn := by rw [hbad]; exact Int64.toUInt64_add _ _
        crcFail := by
          rw [hbad, List.countP_singleton, hcrc]
          exact Int64.toUInt64_add _ _
        resync := by rw [hbad]; exact (UInt64.add_zero _).symm }

end Told

theorem sameCounters_of_statistics {p q : TelemetryPipeline} (h : p.statistics = q.statistics) : SameCounters p q where
  framesOk := congrArg (·.framesOk) h
  seqGaps := congrArg (·.seqGaps) h
  seqDups := congrArg (·.seqDups) h
  uniqueNodes := congrArg (·.uniqueNodes) h
  sensors := congrArg (·.toSensorCounts) h
  hops := congrArg (·.toHopCounts) h

/-- When nothing was rejected or passed and all windows verify, the pipeline has seen nothing bad. -/
theorem Told.nothing_bad {n : Nat} {nanoTimes : Nat → Int64} {p p' : TelemetryPipeline} {ws : List (List UInt8)}
    {rejected skipped : Nat} (h : Told p ws rejected skipped p') (hmake : TelemetryPipeline.make n nanoTimes = .ok p)
    (hrejected : rejected = 0) (hskipped : skipped = 0) (hws : ∀ w ∈ ws, Core.verifyFrame (.ofBytes w) = true) :
    p'.framesCrcFail = 0 ∧ p'.tcpResync = 0 := by
  obtain ⟨_, hcrc, hresync⟩ := make_reports hmake
  have hnone : ws.countP (fun w => !(frameOf w).crcOk) = 0 := by
    rw [List.countP_eq_zero]
    intro w hw
    simp [frameOf, view, hws w hw]
  constructor
  · apply long_inj.mp
    rw [h.crcFail, hcrc, hrejected, hnone]
    rfl
  · apply long_inj.mp
    rw [h.resync, hresync, hskipped]
    rfl

/-- The latest states behind good frames. -/
theorem latestNode_run {n : Nat} {nanoTimes : Nat → Int64} (hmake : TelemetryPipeline.make n nanoTimes = .ok p₀)
    {cs : List Core.WireFrame} (hv : ∀ c ∈ cs, Core.verifyFrame c = true) (nodeId : Int32) :
    ∃ now, (run TelemetryPipeline.offer p₀ (cs.map view)).latestNode nodeId =
      (lastOf nodeId (cs.map view)).map (NodeState.ofFrame · now) := by
  let frame (c : Core.WireFrame) : DecodedFrame :=
    ⟨view c, c.bytes, by rw [decode_eq_view (Core.WireFrame.length_bytes _), Core.WireFrame.ofBytes_bytes]⟩
  have hcalls : ∀ (cs : List Core.WireFrame) (p : TelemetryPipeline),
      (Runs.serve TelemetryPipeline.call p (cs.map fun c => .offer (frame c))).2 =
        run TelemetryPipeline.offer p (cs.map view) := by
    intro cs
    induction cs with
    | nil => exact fun _ => rfl
    | cons c cs ih => exact fun p => ih _
  have hoffered : offered (cs.map fun c => .offer (frame c)) = cs.map view := by
    rw [offered, List.filterMap_map, ← List.filterMap_eq_map]
    rfl
  have haccepted : accepted (cs.map view) = cs.map view := by
    rw [accepted, List.filter_eq_self]
    intro f hf
    obtain ⟨c, hc, rfl⟩ := List.mem_map.mp hf
    exact hv c hc
  have hrun := (Partitioned.make hmake).run (cs.map fun c => .offer (frame c))
  rw [hcalls, hoffered, List.nil_append] at hrun
  obtain ⟨now, hlatest⟩ := hrun.latest nodeId
  rw [haccepted] at hlatest
  exact ⟨now, hlatest⟩

end Operator

end ZcMesh
