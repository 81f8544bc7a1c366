import Mathlib.Data.UInt
import ZcMesh.Lib.AssocSum
import ZcMesh.Wire.Frame

/-!
# The statistics of the offline tools

`core-engine/include/zcm_analyze.hpp`: `ZcmAnalyze`, its `observe`, `total_gaps` and `total_dups`. The two maps are
association lists; nothing depends on their order.
-/

namespace ZcMesh.Core

/-- `NodeGapStats`. -/
structure NodeGapStats where
  seen : Bool := false
  lastSeq : UInt32 := 0
  frames : UInt64 := 0
  gaps : UInt64 := 0
  gapEvents : UInt64 := 0
  dups : UInt64 := 0
  maxHole : UInt32 := 0
  deriving DecidableEq, Repr, Inhabited

/-- `HopStats`; `hopHist` has the 16 buckets from `0` to `15`. -/
structure HopStats where
  lastHop : UInt64 := 0
  hopHist : Nat → UInt64 := fun _ => 0

/-- `ZcmAnalyze`. -/
structure ZcmAnalyze where
  ok : UInt64 := 0
  crcFail : UInt64 := 0
  minSeq : UInt32 := 0xFFFFFFFF
  maxSeq : UInt32 := 0
  any : Bool := false
  byNode : AList (fun _ : UInt16 => NodeGapStats) := ∅
  bySensor : AList (fun _ : UInt8 => UInt64) := ∅
  hop : HopStats := {}

/-- What `observe` does to the entry of the frame's node. -/
def NodeGapStats.observe (n : NodeGapStats) (seq : UInt32) : NodeGapStats :=
  if !n.seen then { n with seen := true, lastSeq := seq, frames := 1 }
  else
    let n := { n with frames := n.frames + 1 }
    let n :=
      if seq ≤ n.lastSeq then { n with dups := n.dups + 1 }
      else if seq > n.lastSeq + 1 then
        let hole := seq - n.lastSeq - 1
        { n with
          gaps := n.gaps + hole.toUInt64
          gapEvents := n.gapEvents + 1
          maxHole := if hole > n.maxHole then hole else n.maxHole }
      else n
    { n with lastSeq := seq }

/-- What `observe` does to the hop statistics. -/
def HopStats.observe (h : HopStats) (frame : WireFrame) : HopStats :=
  let h := if frame.flags &&& flagLastHop ≠ 0 then { h with lastHop := h.lastHop + 1 } else h
  let hi := if frame.reserved < 16 then frame.reserved else 15
  { h with hopHist := Function.update h.hopHist hi.toNat (h.hopHist hi.toNat + 1) }

namespace ZcmAnalyze

/-- `observe`. -/
def observe (a : ZcmAnalyze) (frame : WireFrame) : ZcmAnalyze :=
  { a with
    ok := a.ok + 1
    bySensor := a.bySensor.insert frame.sensorType ((a.bySensor.lookup frame.sensorType).getD 0 + 1)
    minSeq := if !a.any then frame.seq else if frame.seq < a.minSeq then frame.seq else a.minSeq
    maxSeq := if !a.any then frame.seq else if frame.seq > a.maxSeq then frame.seq else a.maxSeq
    any := true
    hop := a.hop.observe frame
    byNode := a.byNode.insert frame.nodeId (((a.byNode.lookup frame.nodeId).getD {}).observe frame.seq) }

/-- `total_gaps`. -/
def totalGaps (a : ZcmAnalyze) : UInt64 := AssocSum.total (fun _ n => n.gaps) a.byNode

/-- `total_dups`. -/
def totalDups (a : ZcmAnalyze) : UInt64 := AssocSum.total (fun _ n => n.dups) a.byNode

end ZcmAnalyze

end ZcMesh.Core
