import Mathlib.Algebra.BigOperators.Group.Finset.Piecewise
import Mathlib.Order.Interval.Finset.Nat
import ZcMesh.Lib.Run
import ZcMesh.Stats.Analyze
import ZcMesh.Stats.Pipeline
import ZcMesh.Wire.Codec

/-!
# Live and offline statistics agree

`TelemetryPipeline.offer` and `ZcmAnalyze::observe` count the same things with different arithmetic. Each tracker of
the pipeline simulates its part of `observe` (`SeqSim.step`, `HopSim.step`, `SensorSim.step`); together they give the
equality of the counters, as 64-bit words, after any list of verified frames (`live_eq_offline`).

What both count at a node is the same function of two consecutive seqs: `gapOf` and `dupOf`.
-/

namespace ZcMesh

open ZcMesh.Core (NodeGapStats HopStats ZcmAnalyze verifyFrame)
open Operator (SeqTracker SensorCounts HopCounts TelemetryPipeline shortToUnsignedInt byteToUnsignedInt
  integerToUnsignedLong)
open AssocSum (total)

/-! ## Gaps and duplicates -/

/-- The seqs missing between two consecutive frames of a node. -/
def gapOf (last seq : UInt32) : UInt64 := if last < seq then (seq - last - 1).toUInt64 else 0

/-- A frame that does not advance its node's seq. -/
def dupOf (last seq : UInt32) : UInt64 := if seq ≤ last then 1 else 0

/-- The next seq leaves no hole. -/
theorem hole_next {last seq : UInt32} (hlt : last < seq) (hle : seq.toNat ≤ last.toNat + 1) : seq - last - 1 = 0 := by
  have hs := seq.toNat_lt
  rw [UInt32.lt_iff_toNat_lt] at hlt
  apply UInt32.toNat_inj.mp
  rw [UInt32.toNat_sub, UInt32.toNat_sub]
  simp only [UInt32.reduceToNat]
  omega

/-- `observe`, at a node that has been seen. -/
theorem observe_seen {n : NodeGapStats} (h : n.seen = true) (seq : UInt32) :
    (n.observe seq).seen = true ∧ (n.observe seq).lastSeq = seq ∧
      (n.observe seq).gaps = n.gaps + gapOf n.lastSeq seq ∧ (n.observe seq).dups = n.dups + dupOf n.lastSeq seq := by
  simp only [NodeGapStats.observe, h, Bool.not_true, Bool.false_eq_true, if_false, gapOf, dupOf]
  by_cases hdup : seq ≤ n.lastSeq
  · rw [if_pos hdup, if_pos hdup, if_neg (UInt32.not_lt.mpr hdup)]
    exact ⟨rfl, trivial, (UInt64.add_zero _).symm, rfl⟩
  · have hlt : n.lastSeq < seq := UInt32.not_le.mp hdup
    rw [if_neg hdup, if_neg hdup, if_pos hlt]
    by_cases hgap : seq > n.lastSeq + 1
    · rw [if_pos hgap]
      exact ⟨rfl, trivial, rfl, (UInt64.add_zero _).symm⟩
    · have hle : seq.toNat ≤ n.lastSeq.toNat + 1 := by
        rw [gt_iff_lt, UInt32.lt_iff_toNat_lt, UInt32.toNat_add] at hgap
        rw [UInt32.lt_iff_toNat_lt] at hlt
        have hs := seq.toNat_lt
        simp only [UInt32.reduceToNat] at hgap
        omega
      rw [if_neg hgap, hole_next hlt hle]
      exact ⟨rfl, trivial, (UInt64.add_zero _).symm, (UInt64.add_zero _).symm⟩

/-- Comparing two `long`s that are not negative. -/
theorem toInt64_lt_iff {x y : UInt64} (hx : x.toNat < 2 ^ 63) (hy : y.toNat < 2 ^ 63) :
    x.toInt64 < y.toInt64 ↔ x < y := by
  rw [Int64.lt_iff_toInt_lt, Operator.toInt_int64 hx, Operator.toInt_int64 hy, UInt64.lt_iff_toNat_lt, Nat.cast_lt]

/-- `trackGaps`, at a node that has been seen. -/
theorem trackGaps_seen {p : SeqTracker} {f : Operator.WireFrame} {last seq : UInt32}
    (hlast : p.lastSeqByNode (f.nodeId &&& 0xFFFF) = some (integerToUnsignedLong last.toInt32))
    (hseq : f.seq = integerToUnsignedLong seq.toInt32) :
    (p.trackGaps f).lastSeqByNode = Function.update p.lastSeqByNode (f.nodeId &&& 0xFFFF) (some f.seq) ∧
      (p.trackGaps f).seqGaps.toUInt64 = p.seqGaps.toUInt64 + gapOf last seq ∧
      (p.trackGaps f).seqDups.toUInt64 = p.seqDups.toUInt64 + dupOf last seq ∧
      (p.trackGaps f).uniqueNodes = p.uniqueNodes := by
  have hs := seq.toNat_lt
  have hl := last.toNat_lt
  have hexpected : integerToUnsignedLong last.toInt32 + 1 = (last.toUInt64 + 1).toInt64 := rfl
  have hone : (last.toUInt64 + 1).toNat = last.toNat + 1 := by
    rw [UInt64.toNat_add, UInt32.toNat_toUInt64]
    simp only [UInt64.reduceToNat]
    omega
  have hgap : f.seq > integerToUnsignedLong last.toInt32 + 1 ↔ last.toNat + 1 < seq.toNat := by
    rw [hseq, hexpected, gt_iff_lt]
    have h := toInt64_lt_iff (x := last.toUInt64 + 1) (y := seq.toUInt64) (by rw [hone]; omega)
      (by rw [UInt32.toNat_toUInt64]; omega)
    rw [UInt64.lt_iff_toNat_lt, hone, UInt32.toNat_toUInt64] at h
    exact h
  have hdup : f.seq ≤ integerToUnsignedLong last.toInt32 ↔ seq ≤ last := by
    rw [hseq, Int64.le_iff_toInt_le, Operator.toInt_int, Operator.toInt_int, Nat.cast_le, UInt32.le_iff_toNat_le]
  have hdiff : last.toNat + 1 < seq.toNat →
      (f.seq - (integerToUnsignedLong last.toInt32 + 1)).toUInt64 = (seq - last - 1).toUInt64 := by
    intro hlt
    have hsub : (f.seq - (integerToUnsignedLong last.toInt32 + 1)).toUInt64 = seq.toUInt64 - (last.toUInt64 + 1) := by
      rw [hseq]
      rfl
    rw [hsub]
    apply UInt64.toNat_inj.mp
    rw [UInt64.toNat_sub, hone, UInt32.toNat_toUInt64, UInt32.toNat_toUInt64, UInt32.toNat_sub, UInt32.toNat_sub]
    simp only [UInt32.reduceToNat]
    omega
  simp only [SeqTracker.trackGaps, hlast, gapOf, dupOf]
  by_cases h1 : last.toNat + 1 < seq.toNat
  · rw [if_pos (hgap.mpr h1), if_pos (UInt32.lt_iff_toNat_lt.mpr (by omega)),
      if_neg (UInt32.not_le.mpr (UInt32.lt_iff_toNat_lt.mpr (by omega)))]
    exact ⟨rfl, by rw [Int64.toUInt64_add, hdiff h1], (UInt64.add_zero _).symm, rfl⟩
  · rw [if_neg (fun h => h1 (hgap.mp h))]
    by_cases h2 : seq ≤ last
    · rw [if_pos (hdup.mpr h2), if_pos h2, if_neg (UInt32.not_lt.mpr h2)]
      exact ⟨rfl, (UInt64.add_zero _).symm, Int64.toUInt64_add _ _, rfl⟩
    · have h3 : last < seq := UInt32.not_le.mp h2
      rw [if_neg (fun h => h2 (hdup.mp h)), if_neg h2, if_pos h3, hole_next h3 (by omega)]
      exact ⟨rfl, (UInt64.add_zero _).symm, (UInt64.add_zero _).symm, rfl⟩

/-- A `long` is its 64 bits. -/
theorem long_inj {x y : Int64} : x.toUInt64 = y.toUInt64 ↔ x = y := by
  constructor
  · intro h
    simpa using congrArg UInt64.toInt64 h
  · exact congrArg _

/-! ## Masks -/

theorem short_inj {x y : UInt16} : shortToUnsignedInt x.toInt16 = shortToUnsignedInt y.toInt16 ↔ x = y := by
  rw [← Int32.toInt_inj, Operator.toInt_short, Operator.toInt_short, Nat.cast_inj, UInt16.toNat_inj]

theorem byte_inj {x y : UInt8} : byteToUnsignedInt x.toInt8 = byteToUnsignedInt y.toInt8 ↔ x = y := by
  rw [← Int32.toInt_inj, Operator.toInt_byte, Operator.toInt_byte, Nat.cast_inj, UInt8.toNat_inj]

/-- `& 0xFFFF` keeps a widened short. -/
theorem short_mask (x : UInt16) : shortToUnsignedInt x.toInt16 &&& 0xFFFF = shortToUnsignedInt x.toInt16 := by
  have h : x.toUInt32 &&& 0xFFFF = x.toUInt32 := by
    apply UInt32.toNat_inj.mp
    have hx := x.toNat_lt
    rw [UInt32.toNat_and, UInt16.toNat_toUInt32]
    exact (Nat.and_two_pow_sub_one_eq_mod _ 16).trans (Nat.mod_eq_of_lt hx)
  exact congrArg UInt32.toInt32 h

/-- `& 0xFF` keeps a widened byte. -/
theorem byte_mask (x : UInt8) : byteToUnsignedInt x.toInt8 &&& 0xFF = byteToUnsignedInt x.toInt8 := by
  have h : x.toUInt32 &&& 0xFF = x.toUInt32 := by
    apply UInt32.toNat_inj.mp
    have hx := x.toNat_lt
    rw [UInt32.toNat_and, UInt8.toNat_toUInt32]
    exact (Nat.and_two_pow_sub_one_eq_mod _ 8).trans (Nat.mod_eq_of_lt hx)
  exact congrArg UInt32.toInt32 h

/-- A flag is tested the same way in the byte and in the widened byte. -/
theorem flag_ne_zero (x : UInt8) :
    byteToUnsignedInt x.toInt8 &&& Operator.WireFrame.FLAG_LAST_HOP ≠ 0 ↔ x &&& Core.flagLastHop ≠ 0 := by
  have hand : byteToUnsignedInt x.toInt8 &&& Operator.WireFrame.FLAG_LAST_HOP =
      byteToUnsignedInt (x &&& Core.flagLastHop).toInt8 := by
    have h : x.toUInt32 &&& 2 = (x &&& 2).toUInt32 := by simp
    exact congrArg UInt32.toInt32 h
  rw [hand, ne_eq, ne_eq, show (0 : Int32) = byteToUnsignedInt (0 : UInt8).toInt8 from rfl, byte_inj]

/-! ## The trackers -/

/-- `trackGaps` and the map of nodes. -/
structure SeqSim (p : SeqTracker) (m : AList fun _ : UInt16 => NodeGapStats) : Prop where
  last : ∀ node, p.lastSeqByNode (shortToUnsignedInt node.toInt16) =
    (m.lookup node).map fun n => integerToUnsignedLong n.lastSeq.toInt32
  seen : ∀ node n, m.lookup node = some n → n.seen = true
  gaps : p.seqGaps.toUInt64 = total (fun _ n => n.gaps) m
  dups : p.seqDups.toUInt64 = total (fun _ n => n.dups) m
  nodes : p.uniqueNodes.toUInt64 = UInt64.ofNat m.entries.length

/-- Both sides remember the seq of the frame as the last one of its node. -/
theorem last_update {p : SeqTracker} {m : AList fun _ : UInt16 => NodeGapStats} (h : SeqSim p m) (c : Core.WireFrame)
    {n : NodeGapStats} (hn : n.lastSeq = c.seq) (node : UInt16) :
    Function.update p.lastSeqByNode ((view c).nodeId &&& 0xFFFF) (some (view c).seq) (shortToUnsignedInt node.toInt16) =
      ((m.insert c.nodeId n).lookup node).map fun n => integerToUnsignedLong n.lastSeq.toInt32 := by
  have hid : (view c).nodeId &&& 0xFFFF = shortToUnsignedInt c.nodeId.toInt16 := short_mask _
  rw [hid]
  by_cases heq : node = c.nodeId
  · subst heq
    rw [Function.update_self, AList.lookup_insert, Option.map_some, hn]
    rfl
  · rw [Function.update_of_ne (fun hc => heq (short_inj.mp hc)), AList.lookup_insert_ne heq]
    exact h.last node

theorem SeqSim.step {p : SeqTracker} {m : AList fun _ : UInt16 => NodeGapStats} (h : SeqSim p m) (c : Core.WireFrame) :
    SeqSim (p.trackGaps (view c)) (m.insert c.nodeId (((m.lookup c.nodeId).getD {}).observe c.seq)) := by
  have hid : (view c).nodeId &&& 0xFFFF = shortToUnsignedInt c.nodeId.toInt16 := short_mask _
  have hlast := h.last c.nodeId
  rw [← hid] at hlast
  have hseen : ∀ n : NodeGapStats, n.seen = true → ∀ node n', (m.insert c.nodeId n).lookup node = some n' →
      n'.seen = true := by
    intro n hn node n' hlook
    by_cases heq : node = c.nodeId
    · subst heq
      rw [AList.lookup_insert] at hlook
      cases hlook
      exact hn
    · rw [AList.lookup_insert_ne heq] at hlook
      exact h.seen node n' hlook
  cases hold : m.lookup c.nodeId with
  | none =>
    rw [hold, Option.map_none] at hlast
    have hnew : ({} : NodeGapStats).observe c.seq = { seen := true, lastSeq := c.seq, frames := 1 } := rfl
    simp only [Option.getD_none, hnew]
    rw [SeqTracker.trackGaps, hlast]
    exact
      { last := last_update h c rfl
        seen := hseen _ rfl
        gaps := by rw [AssocSum.total_insert_none hold]; exact h.gaps.trans (add_zero _).symm
        dups := by rw [AssocSum.total_insert_none hold]; exact h.dups.trans (add_zero _).symm
        nodes := by
          rw [AssocSum.length_insert_none hold, UInt64.ofNat_add, ← h.nodes]
          exact Int64.toUInt64_add _ _ }
  | some n =>
    rw [hold, Option.map_some] at hlast
    obtain ⟨hs, hl, hg, hd⟩ := observe_seen (h.seen _ _ hold) c.seq
    obtain ⟨jlast, jgaps, jdups, jnodes⟩ := trackGaps_seen hlast rfl
    simp only [Option.getD_some]
    exact
      { last := fun node => by rw [jlast]; exact last_update h c hl node
        seen := hseen _ hs
        gaps := by rw [jgaps, AssocSum.total_insert_some hold hg, h.gaps]
        dups := by rw [jdups, AssocSum.total_insert_some hold hd, h.dups]
        nodes := by rw [jnodes, AssocSum.length_insert_some hold, h.nodes] }

/-- `trackHop` and the hop statistics. -/
structure HopSim (p : HopCounts) (h : HopStats) : Prop where
  lastHop : p.framesLastHop.toUInt64 = h.lastHop
  idx0 : p.hopIdx0.toUInt64 = h.hopHist 0
  idx1 : p.hopIdx1.toUInt64 = h.hopHist 1
  idx2Plus : p.hopIdx2Plus.toUInt64 = ∑ i ∈ Finset.Icc 2 15, h.hopHist i

/-- One more in a bucket is one more in the sum over it. -/
theorem sum_hist_inc {hist : Nat → UInt64} {s : Finset Nat} {i : Nat} (hi : i ∈ s) :
    ∑ j ∈ s, Function.update hist i (hist i + 1) j = ∑ j ∈ s, hist j + 1 := by
  rw [Finset.sum_update_of_mem hi, Finset.sum_eq_add_sum_sdiff_singleton_of_mem hi, add_right_comm]

theorem trackHop_framesLastHop (p : HopCounts) (f : Operator.WireFrame) : (p.trackHop f).framesLastHop =
    p.framesLastHop + if f.flags &&& Operator.WireFrame.FLAG_LAST_HOP ≠ 0 then 1 else 0 := by
  simp only [HopCounts.trackHop]
  split_ifs <;> simp

theorem trackHop_hopIdx (p : HopCounts) (f : Operator.WireFrame) :
    (p.trackHop f).hopIdx0 = p.hopIdx0 + (if f.reserved &&& 0xFF = 0 then 1 else 0) ∧
      (p.trackHop f).hopIdx1 = p.hopIdx1 + (if f.reserved &&& 0xFF = 1 then 1 else 0) ∧
      (p.trackHop f).hopIdx2Plus =
        p.hopIdx2Plus + (if f.reserved &&& 0xFF = 0 ∨ f.reserved &&& 0xFF = 1 then 0 else 1) := by
  unfold HopCounts.trackHop
  split_ifs <;> simp_all

/-- The bucket of a hop index. -/
theorem hopHist_observe (h : HopStats) (c : Core.WireFrame) : ∃ hi, (h.observe c).hopHist =
    Function.update h.hopHist hi (h.hopHist hi + 1) ∧ hi ≤ 15 ∧ (hi = 0 ↔ c.reserved = 0) ∧
      (hi = 1 ↔ c.reserved = 1) := by
  by_cases hlt : c.reserved < 16
  · refine ⟨c.reserved.toNat, by simp only [HopStats.observe, if_pos hlt]; split_ifs <;> rfl, ?_, ?_, ?_⟩
    · have h16 : c.reserved.toNat < 16 := UInt8.lt_iff_toNat_lt.mp hlt
      omega
    · exact UInt8.toNat_inj (b := 0)
    · exact UInt8.toNat_inj (b := 1)
  · have h16 : 16 ≤ c.reserved.toNat := UInt8.le_iff_toNat_le.mp (UInt8.not_lt.mp hlt)
    refine ⟨15, by simp only [HopStats.observe, if_neg hlt]; split_ifs <;> rfl, Nat.le_refl _, ?_, ?_⟩
    · exact ⟨fun h => by omega, fun h => by rw [h] at h16; exact absurd h16 (by decide)⟩
    · exact ⟨fun h => by omega, fun h => by rw [h] at h16; exact absurd h16 (by decide)⟩

theorem HopSim.step {p : HopCounts} {h : HopStats} (hs : HopSim p h) (c : Core.WireFrame) :
    HopSim (p.trackHop (view c)) (h.observe c) := by
  have hmask : (view c).reserved &&& 0xFF = byteToUnsignedInt c.reserved.toInt8 := byte_mask _
  have hzero : (view c).reserved &&& 0xFF = 0 ↔ c.reserved = 0 := by rw [hmask]; exact byte_inj (y := 0)
  have hone : (view c).reserved &&& 0xFF = 1 ↔ c.reserved = 1 := by rw [hmask]; exact byte_inj (y := 1)
  have hflag : (view c).flags &&& Operator.WireFrame.FLAG_LAST_HOP ≠ 0 ↔ c.flags &&& Core.flagLastHop ≠ 0 :=
    flag_ne_zero _
  obtain ⟨j0, j1, j2⟩ := trackHop_hopIdx p (view c)
  obtain ⟨hi, hhist, hle, h0, h1⟩ := hopHist_observe h c
  simp only [hzero, hone, ← h0, ← h1] at j0 j1 j2
  refine ⟨?_, ?_, ?_, ?_⟩
  · rw [trackHop_framesLastHop, Int64.toUInt64_add, hs.lastHop]
    by_cases hf : c.flags &&& Core.flagLastHop ≠ 0
    · rw [if_pos (hflag.mpr hf), HopStats.observe, if_pos hf]
      rfl
    · rw [if_neg (fun hc => hf (hflag.mp hc)), HopStats.observe, if_neg hf]
      exact UInt64.add_zero _
  · rw [j0, hhist, Int64.toUInt64_add, hs.idx0]
    by_cases hi0 : hi = 0
    · subst hi0
      rw [Function.update_self]
      rfl
    · rw [if_neg hi0, Function.update_of_ne (Ne.symm hi0)]
      exact UInt64.add_zero _
  · rw [j1, hhist, Int64.toUInt64_add, hs.idx1]
    by_cases hi1 : hi = 1
    · subst hi1
      rw [Function.update_self]
      rfl
    · rw [if_neg hi1, Function.update_of_ne (Ne.symm hi1)]
      exact UInt64.add_zero _
  · rw [j2, hhist, Int64.toUInt64_add, hs.idx2Plus]
    by_cases hi2 : hi = 0 ∨ hi = 1
    · rw [if_pos hi2, Finset.sum_update_of_notMem (by rw [Finset.mem_Icc]; omega)]
      exact UInt64.add_zero _
    · rw [if_neg hi2, sum_hist_inc (by rw [Finset.mem_Icc]; omega)]
      rfl

/-- `trackSensor` and the map of sensors. -/
structure SensorSim (p : SensorCounts) (m : AList fun _ : UInt8 => UInt64) : Prop where
  voltage : p.sensorVoltage.toUInt64 = (m.lookup 0).getD 0
  current : p.sensorCurrent.toUInt64 = (m.lookup 1).getD 0
  temp : p.sensorTemp.toUInt64 = (m.lookup 2).getD 0
  other : p.sensorOther.toUInt64 = total (fun k n => if k = 0 ∨ k = 1 ∨ k = 2 then 0 else n) m

theorem trackSensor_counts (p : SensorCounts) (type : Int32) :
    (p.trackSensor type).sensorVoltage = p.sensorVoltage + (if type = 0 then 1 else 0) ∧
      (p.trackSensor type).sensorCurrent = p.sensorCurrent + (if type = 1 then 1 else 0) ∧
      (p.trackSensor type).sensorTemp = p.sensorTemp + (if type = 2 then 1 else 0) ∧
      (p.trackSensor type).sensorOther = p.sensorOther + (if type = 0 ∨ type = 1 ∨ type = 2 then 0 else 1) := by
  unfold SensorCounts.trackSensor
  split_ifs <;> simp_all

/-- The count of a sensor type after one more frame of type `k`. -/
theorem getD_lookup_inc (m : AList fun _ : UInt8 => UInt64) (k j : UInt8) :
    ((m.insert k ((m.lookup k).getD 0 + 1)).lookup j).getD 0 = (m.lookup j).getD 0 + if k = j then 1 else 0 := by
  by_cases h : k = j
  · subst h
    rw [AList.lookup_insert, if_pos rfl]
    rfl
  · rw [AList.lookup_insert_ne (Ne.symm h), if_neg h]
    exact (UInt64.add_zero _).symm

/-- The counts of the selected types after one more frame of type `k`. -/
theorem total_inc (m : AList fun _ : UInt8 => UInt64) (k : UInt8) (q : UInt8 → Prop) [DecidablePred q] :
    total (fun k n => if q k then 0 else n) (m.insert k ((m.lookup k).getD 0 + 1)) =
      total (fun k n => if q k then 0 else n) m + if q k then 0 else 1 := by
  cases h : m.lookup k with
  | none => rw [AssocSum.total_insert_none h, Option.getD_none, zero_add]
  | some n =>
    refine AssocSum.total_insert_some h ?_
    rw [Option.getD_some]
    split_ifs
    · exact (add_zero _).symm
    · rfl

theorem SensorSim.step {p : SensorCounts} {m : AList fun _ : UInt8 => UInt64} (hs : SensorSim p m)
    (c : Core.WireFrame) : SensorSim (p.trackSensor (view c).sensorType)
      (m.insert c.sensorType ((m.lookup c.sensorType).getD 0 + 1)) := by
  have h0 : (view c).sensorType = 0 ↔ c.sensorType = 0 := byte_inj (y := 0)
  have h1 : (view c).sensorType = 1 ↔ c.sensorType = 1 := byte_inj (y := 1)
  have h2 : (view c).sensorType = 2 ↔ c.sensorType = 2 := byte_inj (y := 2)
  obtain ⟨j0, j1, j2, jother⟩ := trackSensor_counts p (view c).sensorType
  simp only [h0, h1, h2] at j0 j1 j2 jother
  refine ⟨?_, ?_, ?_, ?_⟩
  · rw [j0, getD_lookup_inc, Int64.toUInt64_add, hs.voltage]
    split_ifs <;> rfl
  · rw [j1, getD_lookup_inc, Int64.toUInt64_add, hs.current]
    split_ifs <;> rfl
  · rw [j2, getD_lookup_inc, Int64.toUInt64_add, hs.temp]
    split_ifs <;> rfl
  · rw [jother, total_inc m c.sensorType (fun k => k = 0 ∨ k = 1 ∨ k = 2), Int64.toUInt64_add, hs.other]
    split_ifs <;> rfl

/-! ## The pipeline and the analyser -/

/-- The pipeline has counted what the analyser has. -/
structure Sim (p : TelemetryPipeline) (a : ZcmAnalyze) : Prop where
  ok : p.framesOk.toUInt64 = a.ok
  seqs : SeqSim p.toSeqTracker a.byNode
  hops : HopSim p.toHopCounts a.hop
  sensors : SensorSim p.toSensorCounts a.bySensor

theorem sim_make {n : Nat} {nanoTimes : Nat → Int64} {p : TelemetryPipeline}
    (h : TelemetryPipeline.make n nanoTimes = .ok p) : Sim p {} := by
  simp only [TelemetryPipeline.make, bind, Except.bind] at h
  split at h
  · cases h
  cases h
  exact
    { ok := rfl
      seqs := ⟨fun _ => rfl, fun _ _ hc => (by cases hc), rfl, rfl, rfl⟩
      hops := ⟨rfl, rfl, rfl, rfl⟩
      sensors := ⟨rfl, rfl, rfl, rfl⟩ }

/-- **One verified frame** keeps the two in step. -/
theorem Sim.step {p : TelemetryPipeline} {a : ZcmAnalyze} (h : Sim p a) {c : Core.WireFrame}
    (hv : verifyFrame c = true) : Sim (p.offer (view c)) (a.observe c) := by
  have hcrc : (!(view c).crcOk) = false := by rw [show (view c).crcOk = true from hv]; rfl
  unfold TelemetryPipeline.offer
  rw [hcrc]
  exact
    { ok := (Int64.toUInt64_add _ _).trans (congrArg (· + 1) h.ok)
      seqs := h.seqs.step c
      hops := h.hops.step c
      sensors := h.sensors.step c }

theorem sim_run {p : TelemetryPipeline} {a : ZcmAnalyze} (h : Sim p a) :
    ∀ cs : List Core.WireFrame, (∀ c ∈ cs, verifyFrame c = true) →
      Sim (Runs.run TelemetryPipeline.offer p (cs.map view)) (Runs.run ZcmAnalyze.observe a cs) := by
  intro cs
  induction cs generalizing p a with
  | nil => exact fun _ => h
  | cons c cs ih =>
    intro hv
    exact ih (h.step (hv c List.mem_cons_self)) (fun c' hc => hv c' (List.mem_cons_of_mem _ hc))

/-- What the receiver decodes from the bytes of frames are their views. -/
theorem decoded_eq_map_view {cs : List Core.WireFrame} {js : List Operator.WireFrame}
    (h : List.Forall₂ (fun c j => Operator.WireFrame.decode c.bytes = .ok j) cs js) : js = cs.map view := by
  induction h with
  | nil => rfl
  | cons hd _ ih =>
    rw [decode_eq_view (Core.WireFrame.length_bytes _), Core.WireFrame.ofBytes_bytes] at hd
    cases hd
    rw [ih, List.map_cons]

/-- **Live and offline statistics agree**, as 64-bit words, on the frames `cs` that the pipeline decodes as `js`. -/
theorem live_eq_offline {n : Nat} {nanoTimes : Nat → Int64} {p₀ : TelemetryPipeline}
    (hmake : TelemetryPipeline.make n nanoTimes = .ok p₀) {cs : List Core.WireFrame} {js : List Operator.WireFrame}
    (hv : ∀ c ∈ cs, verifyFrame c = true)
    (hdec : List.Forall₂ (fun c j => Operator.WireFrame.decode c.bytes = .ok j) cs js) :
    let p := Runs.run TelemetryPipeline.offer p₀ js
    let a := Runs.run ZcmAnalyze.observe {} cs
    p.framesOk.toUInt64 = a.ok ∧ p.seqGaps.toUInt64 = a.totalGaps ∧ p.seqDups.toUInt64 = a.totalDups ∧
      p.uniqueNodes.toUInt64 = UInt64.ofNat a.byNode.entries.length ∧
      p.framesLastHop.toUInt64 = a.hop.lastHop ∧ p.hopIdx0.toUInt64 = a.hop.hopHist 0 ∧
      p.hopIdx1.toUInt64 = a.hop.hopHist 1 ∧ p.hopIdx2Plus.toUInt64 = ∑ i ∈ Finset.Icc 2 15, a.hop.hopHist i ∧
      p.sensorVoltage.toUInt64 = (a.bySensor.lookup 0).getD 0 ∧
      p.sensorCurrent.toUInt64 = (a.bySensor.lookup 1).getD 0 ∧
      p.sensorTemp.toUInt64 = (a.bySensor.lookup 2).getD 0 ∧
      p.sensorOther.toUInt64 = total (fun k n => if k = 0 ∨ k = 1 ∨ k = 2 then 0 else n) a.bySensor := by
  rw [decoded_eq_map_view hdec]
  have h := sim_run (sim_make hmake) cs hv
  exact ⟨h.ok, h.seqs.gaps, h.seqs.dups, h.seqs.nodes, h.hops.lastHop, h.hops.idx0, h.hops.idx1, h.hops.idx2Plus,
    h.sensors.voltage, h.sensors.current, h.sensors.temp, h.sensors.other⟩

/-- The golden frame, twice. -/
theorem live_eq_offline_golden :
    ∃ p₀, TelemetryPipeline.make 2 (fun _ => 0) = .ok p₀ ∧
      (Runs.run TelemetryPipeline.offer p₀
        (List.replicate 2 (view (Core.packFrameInto goldenSample)))).seqDups.toUInt64 =
        (Runs.run ZcmAnalyze.observe {} (List.replicate 2 (Core.packFrameInto goldenSample))).totalDups := by
  have hdec : Operator.WireFrame.decode (Core.packFrameInto goldenSample).bytes =
      .ok (view (Core.packFrameInto goldenSample)) := by
    rw [decode_eq_view (Core.WireFrame.length_bytes _), Core.WireFrame.ofBytes_bytes]
  have hv : ∀ c ∈ List.replicate 2 (Core.packFrameInto goldenSample), verifyFrame c = true := by
    intro c hc
    rw [List.eq_of_mem_replicate hc]
    exact Core.verifyFrame_packFrameInto goldenSample
  have hdecs : List.Forall₂ (fun c j => Operator.WireFrame.decode c.bytes = .ok j)
      (List.replicate 2 (Core.packFrameInto goldenSample))
      (List.replicate 2 (view (Core.packFrameInto goldenSample))) :=
    .cons hdec (.cons hdec .nil)
  obtain ⟨p₀, hmake⟩ : ∃ p₀, TelemetryPipeline.make 2 (fun _ => 0) = .ok p₀ := ⟨_, rfl⟩
  exact ⟨p₀, hmake, (live_eq_offline hmake hv hdecs).2.2.1⟩

end ZcMesh
