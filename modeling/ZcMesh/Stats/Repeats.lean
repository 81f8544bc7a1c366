import ZcMesh.Stats.Agreement
import ZcMesh.Stats.Loss

/-!
# Repeated frames

Both detectors compare a frame with the one before it from the same node, and remember its seq whatever it is. So `dups`
counts the frames that do not go beyond the one before them (`dups_spec`). A repeated frame that follows on a larger or
equal seq is among them, and some frame is as soon as one is repeated; but behind the first frame of a run that is sent
again the others go up again, and are not counted (`dups_run_again`).
-/

namespace ZcMesh

open ZcMesh.Core (ZcmAnalyze WireFrame walkOf nodesOf verifyFrame)
open Operator (TelemetryPipeline)
open Walk (stalls repeats withPast again stalled)

/-- What the frames of a node, as the walk `w`, say about the counter `dups`: it counts the stalls, so all repeated
frames that do not go beyond the frame before them, and something as soon as a frame is repeated. It covers all repeated
frames exactly when no more of them overtake the frame before them than frames come late for the first time. -/
structure CountsStalls (w : List Nat) (dups : UInt64) : Prop where
  stalls : dups = UInt64.ofNat (stalls w)
  stalledRepeats : w.length ≤ 2 ^ 64 → (withPast [] w).countP (fun h => again h && stalled h) ≤ dups.toNat
  noticed : w.length ≤ 2 ^ 64 → 0 < repeats w → 0 < dups.toNat
  covers : w.length ≤ 2 ^ 64 → (repeats w ≤ dups.toNat ↔
    (withPast [] w).countP (fun h => again h && !stalled h) ≤ (withPast [] w).countP fun h => !again h && stalled h)

theorem countsStalls (w : List Nat) : CountsStalls w (UInt64.ofNat (stalls w)) := by
  have hfit : w.length ≤ 2 ^ 64 → (UInt64.ofNat (stalls w)).toNat = stalls w := by
    intro hlen
    apply UInt64.toNat_ofNat_of_lt'
    rcases eq_or_ne w [] with rfl | hne
    · exact Nat.two_pow_pos 64
    · exact Nat.lt_of_lt_of_le (Walk.stalls_lt_length hne) hlen
  have hsplit := Walk.stalls_split w
  have hrepeats := Walk.repeats_split w
  refine ⟨rfl, ?_, ?_, ?_⟩
  · intro hlen
    rw [hfit hlen]
    omega
  · intro hlen hrepeat
    rw [hfit hlen]
    exact Walk.stalls_pos hrepeat
  · intro hlen
    rw [hfit hlen]
    omega

/-- **`dups` counts the frames that do not go beyond the one before them**: node by node in the analyser, over all nodes
in the pipeline. -/
theorem dups_spec (cs : List WireFrame) :
    (∀ node, CountsStalls (walkOf node cs) (((Runs.run ZcmAnalyze.observe {} cs).byNode.lookup node).getD {}).dups) ∧
    ∀ (capacity : Nat) (nanoTimes : Nat → Int64) (p₀ : TelemetryPipeline) (js : List Operator.WireFrame),
      TelemetryPipeline.make capacity nanoTimes = .ok p₀ → (∀ c ∈ cs, verifyFrame c = true) →
      List.Forall₂ (fun c j => Operator.WireFrame.decode c.bytes = .ok j) cs js →
      let p := Runs.run TelemetryPipeline.offer p₀ js
      p.seqDups.toUInt64 = ∑ node ∈ nodesOf cs, UInt64.ofNat (stalls (walkOf node cs)) ∧
        ∀ node, (∀ c ∈ cs, c.nodeId = node) → CountsStalls (walkOf node cs) p.seqDups.toUInt64 := by
  constructor
  · intro node
    rw [(Core.entry_walk cs node).2.2.1]
    exact countsStalls _
  · intro capacity nanoTimes p₀ js hmake hcs hdec p
    have hsim := sim_run (sim_make hmake) cs hcs
    rw [← decoded_eq_map_view hdec] at hsim
    refine ⟨hsim.seqs.dups.trans (Core.totals_walk cs).2, ?_⟩
    intro node hnode
    rw [show p.seqDups.toUInt64 = _ from hsim.seqs.dups.trans (Core.totals_one_node hnode).2]
    exact countsStalls _

/-- Two frames sent again as a run: two frames are repeated, one duplicate is counted, on both sides. -/
theorem dups_run_again :
    let cs := Core.framesWith [1, 2, 1, 2]
    repeats (walkOf 7 cs) = 2 ∧
      (((Runs.run ZcmAnalyze.observe {} cs).byNode.lookup 7).getD {}).dups.toNat < repeats (walkOf 7 cs) ∧
      ∃ p₀, TelemetryPipeline.make 2 (fun _ => 0) = .ok p₀ ∧
        (Runs.run TelemetryPipeline.offer p₀ (cs.map view)).seqDups.toUInt64.toNat < repeats (walkOf 7 cs) := by
  intro cs
  have hwalk : walkOf 7 cs = [1, 2, 1, 2] := by
    rw [walkOf, Core.seqsOf_framesWith]
    rfl
  have hdups := (Core.entry_walk cs 7).2.2.1
  have hcs : ∀ c ∈ cs, verifyFrame c = true := by
    intro c hc
    obtain ⟨seq, _, rfl⟩ := List.mem_map.mp hc
    exact Core.verifyFrame_packFrameInto _
  obtain ⟨p₀, hmake⟩ : ∃ p₀, TelemetryPipeline.make 2 (fun _ => 0) = .ok p₀ := ⟨_, rfl⟩
  have hnode : ∀ c ∈ cs, c.nodeId = 7 := by decide
  have hpipeline := (sim_run (sim_make hmake) cs hcs).seqs.dups.trans (Core.totals_one_node hnode).2
  rw [hwalk] at hdups hpipeline ⊢
  refine ⟨by decide, ?_, p₀, hmake, ?_⟩
  · rw [hdups]
    decide
  · rw [hpipeline]
    decide

end ZcMesh
