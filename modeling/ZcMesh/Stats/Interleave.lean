import ZcMesh.Stats.Agreement
import ZcMesh.Stats.PerNode

/-!
# Frames of several edges in any order

Two lists with the same frames of each node in the same order give the same statistics, however the nodes alternate
(`interleaving_irrelevant`). The entry of a node depends on its own frames (`ZcmAnalyze.lookup_run`); everything else
counts frames (`bySensor_run`, `hopHist_run`, `lastHop_run`) or takes a minimum or maximum (`minSeq_run`, `maxSeq_run`),
and the lists are permutations of each other. The pipeline follows by the simulation of `Agreement.lean`.
-/

namespace ZcMesh.Core

/-! ## What counts frames -/

section Counts

variable (a : ZcmAnalyze) (cs : List WireFrame)

/-- One more frame in a count. -/
theorem ofNat_countP_cons (q : WireFrame → Bool) (c : WireFrame) (n : UInt64) :
    n + UInt64.ofNat ((c :: cs).countP q) = (n + if q c then 1 else 0) + UInt64.ofNat (cs.countP q) := by
  rw [List.countP_cons, Nat.add_comm, UInt64.ofNat_add, ← UInt64.add_assoc]
  split <;> rfl

theorem bySensor_run (k : UInt8) : (Runs.run ZcmAnalyze.observe a cs).bySensor.lookup k =
    if cs.countP (·.sensorType = k) = 0 then a.bySensor.lookup k
    else some ((a.bySensor.lookup k).getD 0 + UInt64.ofNat (cs.countP (·.sensorType = k))) := by
  induction cs generalizing a with
  | nil => rfl
  | cons c cs ih =>
    have hnext : (a.observe c).bySensor.lookup k =
        if c.sensorType = k then some ((a.bySensor.lookup k).getD 0 + 1) else a.bySensor.lookup k := by
      simp only [ZcmAnalyze.observe]
      by_cases h : c.sensorType = k
      · rw [if_pos h, ← h, AList.lookup_insert]
      · rw [if_neg h, AList.lookup_insert_ne (Ne.symm h)]
    rw [Runs.run_cons, ih, hnext, ofNat_countP_cons]
    by_cases h : c.sensorType = k
    · have hpos : (c :: cs).countP (·.sensorType = k) ≠ 0 := by simp [h]
      rw [if_neg hpos, if_pos h]
      split
      · rename_i hzero
        rw [hzero]
        simp [h]
      · simp [h]
    · have hsame : (c :: cs).countP (·.sensorType = k) = cs.countP (·.sensorType = k) := by simp [h]
      rw [hsame, if_neg h]
      simp [h]

theorem lastHop_run : (Runs.run ZcmAnalyze.observe a cs).hop.lastHop =
    a.hop.lastHop + UInt64.ofNat (cs.countP fun c => c.flags &&& flagLastHop ≠ 0) := by
  induction cs generalizing a with
  | nil => exact (UInt64.add_zero _).symm
  | cons c cs ih =>
    have hnext : (a.observe c).hop.lastHop = a.hop.lastHop + if c.flags &&& flagLastHop ≠ 0 then 1 else 0 := by
      simp only [ZcmAnalyze.observe, HopStats.observe]
      split
      · rfl
      · exact (UInt64.add_zero _).symm
    rw [Runs.run_cons, ih, hnext, ofNat_countP_cons]
    simp only [decide_eq_true_eq]

/-- The bucket of a frame's hop index. -/
def hopBucket (c : WireFrame) : Nat := (if c.reserved < 16 then c.reserved else 15).toNat

theorem hopHist_run (i : Nat) : (Runs.run ZcmAnalyze.observe a cs).hop.hopHist i =
    a.hop.hopHist i + UInt64.ofNat (cs.countP (hopBucket · = i)) := by
  induction cs generalizing a with
  | nil => exact (UInt64.add_zero _).symm
  | cons c cs ih =>
    have hnext : (a.observe c).hop.hopHist i = a.hop.hopHist i + if hopBucket c = i then 1 else 0 := by
      have hupdate : (a.observe c).hop.hopHist =
          Function.update a.hop.hopHist (hopBucket c) (a.hop.hopHist (hopBucket c) + 1) := by
        simp only [ZcmAnalyze.observe, HopStats.observe, hopBucket]
        split_ifs <;> rfl
      rw [hupdate, Function.update_apply]
      by_cases h : i = hopBucket c
      · rw [if_pos h, if_pos h.symm, h]
      · rw [if_neg h, if_neg (Ne.symm h)]
        exact (UInt64.add_zero _).symm
    rw [Runs.run_cons, ih, hnext, ofNat_countP_cons]
    simp only [decide_eq_true_eq]

end Counts

/-! ## Minimum and maximum -/

/-- The smaller seq, as the code takes it. -/
def minStep (m : UInt32) (c : WireFrame) : UInt32 := if c.seq < m then c.seq else m

/-- The larger one. -/
def maxStep (m : UInt32) (c : WireFrame) : UInt32 := if c.seq > m then c.seq else m

/-- Before the first frame the minimum and the maximum are those of no seqs. -/
def Bounded (a : ZcmAnalyze) : Prop := a.any = false → a.minSeq = 0xFFFFFFFF ∧ a.maxSeq = 0

theorem Bounded.observe {a : ZcmAnalyze} (h : Bounded a) (c : WireFrame) :
    Bounded (a.observe c) ∧ (a.observe c).minSeq = minStep a.minSeq c ∧ (a.observe c).maxSeq = maxStep a.maxSeq c := by
  refine ⟨fun hc => Bool.noConfusion (show true = false from hc), ?_⟩
  cases hany : a.any with
  | true => simp [ZcmAnalyze.observe, hany, minStep, maxStep]
  | false =>
    obtain ⟨hmin, hmax⟩ := h hany
    have hle := c.seq.toNat_lt
    simp only [ZcmAnalyze.observe, hany, Bool.not_false, if_true, minStep, maxStep, hmin, hmax, gt_iff_lt]
    constructor
    · split
      · rfl
      · rename_i hc
        rw [UInt32.lt_iff_toNat_lt] at hc
        apply UInt32.toNat_inj.mp
        simp only [UInt32.reduceToNat] at hc ⊢
        omega
    · split
      · rfl
      · rename_i hc
        rw [UInt32.lt_iff_toNat_lt] at hc
        apply UInt32.toNat_inj.mp
        simp only [UInt32.reduceToNat] at hc ⊢
        omega

theorem minSeq_run {a : ZcmAnalyze} (h : Bounded a) (cs : List WireFrame) :
    (Runs.run ZcmAnalyze.observe a cs).minSeq = cs.foldl minStep a.minSeq ∧
      (Runs.run ZcmAnalyze.observe a cs).maxSeq = cs.foldl maxStep a.maxSeq := by
  induction cs generalizing a with
  | nil => exact ⟨rfl, rfl⟩
  | cons c cs ih =>
    obtain ⟨hnext, hmin, hmax⟩ := h.observe c
    rw [Runs.run_cons, (ih hnext).1, (ih hnext).2, hmin, hmax]
    exact ⟨rfl, rfl⟩

theorem minStep_comm (m : UInt32) (c d : WireFrame) : minStep (minStep m c) d = minStep (minStep m d) c := by
  simp only [minStep, UInt32.lt_iff_toNat_lt]
  apply UInt32.toNat_inj.mp
  split_ifs <;> omega

theorem maxStep_comm (m : UInt32) (c d : WireFrame) : maxStep (maxStep m c) d = maxStep (maxStep m d) c := by
  simp only [maxStep, gt_iff_lt, UInt32.lt_iff_toNat_lt]
  apply UInt32.toNat_inj.mp
  split_ifs <;> omega

/-! ## Two orders -/

/-- The same frames of each node, in the same order. -/
def SameNodes (cs ds : List WireFrame) : Prop :=
  ∀ node : UInt16, cs.filter (·.nodeId = node) = ds.filter (·.nodeId = node)

theorem SameNodes.perm {cs ds : List WireFrame} (h : SameNodes cs ds) : cs.Perm ds := by
  rw [List.perm_iff_count]
  intro c
  have hcount : ∀ l : List WireFrame, l.count c = (l.filter (·.nodeId = c.nodeId)).count c := by
    intro l
    rw [List.count_filter (by simp)]
  rw [hcount cs, hcount ds, h c.nodeId]

theorem SameNodes.seqsOf {cs ds : List WireFrame} (h : SameNodes cs ds) (node : UInt16) :
    seqsOf node cs = seqsOf node ds := by
  rw [Core.seqsOf, h node, Core.seqsOf]

/-- The same report. -/
structure SameReport (a b : ZcmAnalyze) : Prop where
  ok : a.ok = b.ok
  byNode : ∀ node, a.byNode.lookup node = b.byNode.lookup node
  bySensor : ∀ k, a.bySensor.lookup k = b.bySensor.lookup k
  hopHist : a.hop.hopHist = b.hop.hopHist
  lastHop : a.hop.lastHop = b.hop.lastHop
  minSeq : a.minSeq = b.minSeq
  maxSeq : a.maxSeq = b.maxSeq
  totalGaps : a.totalGaps = b.totalGaps
  totalDups : a.totalDups = b.totalDups

/-- **The analyser does not see how the nodes alternate.** -/
theorem SameNodes.sameReport {cs ds : List WireFrame} (h : SameNodes cs ds) :
    SameReport (Runs.run ZcmAnalyze.observe {} cs) (Runs.run ZcmAnalyze.observe {} ds) := by
  have hperm := h.perm
  have hnodes : ∀ node, (Runs.run ZcmAnalyze.observe {} cs).byNode.lookup node =
      (Runs.run ZcmAnalyze.observe {} ds).byNode.lookup node := by
    intro node
    rw [ZcmAnalyze.lookup_run, ZcmAnalyze.lookup_run, h.seqsOf node]
  have hbounded : Bounded {} := fun _ => ⟨rfl, rfl⟩
  exact
    { ok := by rw [ZcmAnalyze.ok_run, ZcmAnalyze.ok_run, hperm.length_eq]
      byNode := hnodes
      bySensor := fun k => by rw [bySensor_run, bySensor_run, hperm.countP_eq]
      hopHist := funext fun i => by rw [hopHist_run, hopHist_run, hperm.countP_eq]
      lastHop := by rw [lastHop_run, lastHop_run, hperm.countP_eq]
      minSeq := by
        rw [(minSeq_run hbounded cs).1, (minSeq_run hbounded ds).1]
        exact hperm.foldl_eq' (fun c _ d _ m => minStep_comm m c d) _
      maxSeq := by
        rw [(minSeq_run hbounded cs).2, (minSeq_run hbounded ds).2]
        exact hperm.foldl_eq' (fun c _ d _ m => maxStep_comm m c d) _
      totalGaps := AssocSum.total_congr hnodes
      totalDups := AssocSum.total_congr hnodes }

end ZcMesh.Core

namespace ZcMesh

open ZcMesh.Core (ZcmAnalyze verifyFrame SameNodes SameReport)
open Operator (TelemetryPipeline)

/-- The same counters. -/
structure SameCounters (p q : TelemetryPipeline) : Prop where
  framesOk : p.framesOk = q.framesOk
  seqGaps : p.seqGaps = q.seqGaps
  seqDups : p.seqDups = q.seqDups
  uniqueNodes : p.uniqueNodes = q.uniqueNodes
  sensors : p.toSensorCounts = q.toSensorCounts
  hops : p.toHopCounts = q.toHopCounts

/-- Pipelines that agree with analysers of the same report have the same counters. -/
theorem SameCounters.of_sim {p q : TelemetryPipeline} {a b : ZcmAnalyze} (hp : Sim p a) (hq : Sim q b)
    (h : SameReport a b) : SameCounters p q := by
  have hsensors : p.toSensorCounts = q.toSensorCounts := by
    have h0 := hp.sensors.voltage.trans ((congrArg (·.getD 0) (h.bySensor 0)).trans hq.sensors.voltage.symm)
    have h1 := hp.sensors.current.trans ((congrArg (·.getD 0) (h.bySensor 1)).trans hq.sensors.current.symm)
    have h2 := hp.sensors.temp.trans ((congrArg (·.getD 0) (h.bySensor 2)).trans hq.sensors.temp.symm)
    have h3 := hp.sensors.other.trans ((AssocSum.total_congr h.bySensor).trans hq.sensors.other.symm)
    rw [long_inj] at h0 h1 h2 h3
    exact Operator.SensorCounts.ext h0 h1 h2 h3
  have hhops : p.toHopCounts = q.toHopCounts := by
    have h0 := hp.hops.lastHop.trans (h.lastHop.trans hq.hops.lastHop.symm)
    have h1 := hp.hops.idx0.trans ((congrFun h.hopHist 0).trans hq.hops.idx0.symm)
    have h2 := hp.hops.idx1.trans ((congrFun h.hopHist 1).trans hq.hops.idx1.symm)
    have h3 := hp.hops.idx2Plus.trans ((by rw [h.hopHist] : _ = _).trans hq.hops.idx2Plus.symm)
    rw [long_inj] at h0 h1 h2 h3
    exact Operator.HopCounts.ext h0 h1 h2 h3
  exact
    { framesOk := long_inj.mp (hp.ok.trans (h.ok.trans hq.ok.symm))
      seqGaps := long_inj.mp (hp.seqs.gaps.trans (h.totalGaps.trans hq.seqs.gaps.symm))
      seqDups := long_inj.mp (hp.seqs.dups.trans (h.totalDups.trans hq.seqs.dups.symm))
      uniqueNodes := by
        have hlen : a.byNode.entries.length = b.byNode.entries.length := by
          rw [AssocSum.length_entries, AssocSum.length_entries, AssocSum.total_congr h.byNode]
        exact long_inj.mp (hp.seqs.nodes.trans ((congrArg UInt64.ofNat hlen).trans hq.seqs.nodes.symm))
      sensors := hsensors
      hops := hhops }

/-- **Edges do not disturb each other's statistics**: neither the analyser nor the pipeline sees how the nodes
alternate. -/
theorem interleaving_irrelevant {cs ds : List Core.WireFrame} (hsame : SameNodes cs ds)
    (hv : ∀ c ∈ cs, verifyFrame c = true) :
    SameReport (Runs.run ZcmAnalyze.observe {} cs) (Runs.run ZcmAnalyze.observe {} ds) ∧
    ∀ (m n : Nat) (times times' : Nat → Int64) (p₀ q₀ : TelemetryPipeline) (js ks : List Operator.WireFrame),
      TelemetryPipeline.make m times = .ok p₀ → TelemetryPipeline.make n times' = .ok q₀ →
      List.Forall₂ (fun c j => Operator.WireFrame.decode c.bytes = .ok j) cs js →
      List.Forall₂ (fun d k => Operator.WireFrame.decode d.bytes = .ok k) ds ks →
      SameCounters (Runs.run TelemetryPipeline.offer p₀ js) (Runs.run TelemetryPipeline.offer q₀ ks) := by
  refine ⟨hsame.sameReport, ?_⟩
  intro m n times times' p₀ q₀ js ks hp hq hjs hks
  have hv' : ∀ d ∈ ds, verifyFrame d = true := fun d hd => hv d (hsame.perm.mem_iff.mpr hd)
  rw [decoded_eq_map_view hjs, decoded_eq_map_view hks]
  exact SameCounters.of_sim (sim_run (sim_make hp) cs hv) (sim_run (sim_make hq) ds hv') hsame.sameReport

/-- Two nodes, in both orders. -/
theorem interleaving_irrelevant_two :
    let frame (node : UInt16) := Core.packFrameInto { goldenSample with nodeId := node }
    SameReport (Runs.run ZcmAnalyze.observe {} [frame 1, frame 2])
      (Runs.run ZcmAnalyze.observe {} [frame 2, frame 1]) := by
  intro frame
  have hsame : SameNodes [frame 1, frame 2] [frame 2, frame 1] := by
    intro node
    have hid : ∀ n, (frame n).nodeId = n := fun _ => rfl
    simp only [List.filter_cons, hid, List.filter_nil, decide_eq_true_eq]
    by_cases h1 : (1 : UInt16) = node
    · subst h1
      rfl
    · rw [if_neg h1, if_neg h1]
  refine (interleaving_irrelevant hsame ?_).1
  intro c hc
  simp only [List.mem_cons, List.not_mem_nil, or_false] at hc
  rcases hc with rfl | rfl <;> exact Core.verifyFrame_packFrameInto _

end ZcMesh
