import ZcMesh.Zcm.ExpectRaws
import ZcMesh.Zcm.HopCheck

/-!
# What `zcmesh_inspect` expects

Each option of `core-engine/src/inspect.cpp` that is set says something about the frames of the recording, and the
program ends well exactly when all of them hold (`inspect_iff`).
-/

namespace ZcMesh.Core

open Runs (run)

/-- The gaps that the analysis finds in the frames. -/
def gapsOf (cs : List WireFrame) : UInt64 := (run ZcmAnalyze.observe {} cs).totalGaps

/-- The recording meets the options. The index 15 stands for all larger ones. -/
structure Meets (opts : InspectOptions) (cs : List WireFrame) : Prop where
  gapsMin : 0 ≤ opts.expectGapsMin → opts.expectGapsMin ≤ (gapsOf cs).toInt64
  gapsMax : 0 ≤ opts.expectGapsMax → (gapsOf cs).toInt64 ≤ opts.expectGapsMax
  hopIdx : 0 ≤ opts.expectHopIdx →
    cs ≠ [] ∧ ∀ c ∈ cs, ((min c.reserved.toNat 15 : Nat) : Int) = opts.expectHopIdx.toInt
  lastHop : opts.lastHopUnmet (UInt64.ofNat (cs.countP fun c => c.flags &&& flagLastHop ≠ 0))
    (UInt64.ofNat cs.length) = none
  framesMin : 0 ≤ opts.expectFramesMin → opts.expectFramesMin.toInt ≤ cs.length
  raws : opts.expectRaws <+: cs.map (·.rawValue)

namespace InspectOptions

variable {opts : InspectOptions} {stats : ZcmAnalyze}

theorem ite_some_eq_none {p : Prop} [Decidable p] {m : String} : (if p then some m else none) = none ↔ ¬p := by simp

theorem gapsMinUnmet_eq_none :
    opts.gapsMinUnmet stats = none ↔ (0 ≤ opts.expectGapsMin → opts.expectGapsMin ≤ stats.totalGaps.toInt64) := by
  refine ite_some_eq_none.trans ?_
  rw [not_and]
  exact forall_congr' fun _ => Int64.not_lt

theorem gapsMaxUnmet_eq_none :
    opts.gapsMaxUnmet stats = none ↔ (0 ≤ opts.expectGapsMax → stats.totalGaps.toInt64 ≤ opts.expectGapsMax) := by
  refine ite_some_eq_none.trans ?_
  rw [not_and]
  exact forall_congr' fun _ => Int64.not_lt

theorem framesMinUnmet_eq_none :
    opts.framesMinUnmet stats = none ↔ (0 ≤ opts.expectFramesMin → opts.expectFramesMin ≤ stats.ok.toInt64) := by
  refine ite_some_eq_none.trans ?_
  rw [not_and]
  exact forall_congr' fun _ => Int64.not_lt

theorem unmet_eq_none {seenRaws : List Int32} : opts.unmet stats seenRaws = none ↔
    opts.gapsMinUnmet stats = none ∧ opts.gapsMaxUnmet stats = none ∧ opts.hopIdxUnmet stats = none ∧
      opts.lastHopUnmet stats.hop.lastHop stats.ok = none ∧ opts.framesMinUnmet stats = none ∧
      opts.rawsUnmet seenRaws = none := by
  simp only [unmet, Option.orElse_eq_orElse, Option.orElse_eq_or, Option.or_eq_none_iff]

/-- The counter of the index is that of all frames, and there is a frame, when each frame has the index. -/
theorem hopIdxUnmet_run {mem : Memory} {cs : List WireFrame} (hcs : ∀ c ∈ cs, verifyFrame c = true)
    (hmem : mem.allocates (4 * cs.length) = true) :
    opts.hopIdxUnmet (run ZcmAnalyze.observe {} cs) = none ↔ (0 ≤ opts.expectHopIdx →
      cs ≠ [] ∧ ∀ c ∈ cs, ((min c.reserved.toNat 15 : Nat) : Int) = opts.expectHopIdx.toInt) := by
  by_cases h0 : 0 ≤ opts.expectHopIdx
  · have hindex : (opts.expectHopIdx.toNatClampNeg : Int) = opts.expectHopIdx.toInt := Int32.cast_toNatClampNeg _ h0
    have hbucket : ∀ c : WireFrame, hopBucket c = opts.expectHopIdx.toNatClampNeg ↔
        ((min c.reserved.toNat 15 : Nat) : Int) = opts.expectHopIdx.toInt := by
      intro c
      rw [hopBucket_eq, ← hindex]
      exact Int.natCast_inj.symm
    simp only [h0, true_implies, ← hbucket]
    by_cases h15 : opts.expectHopIdx ≤ 15
    · have hexit := expectHopIdx_exit hcs hmem h0 h15
      rw [inspect_zcmFile _ hcs hmem, unmet_hopIdx] at hexit
      rw [← hexit, show opts.hopIdxUnmet (run ZcmAnalyze.observe {} cs) =
        ({ expectHopIdx := opts.expectHopIdx } : InspectOptions).hopIdxUnmet (run ZcmAnalyze.observe {} cs) from rfl]
      cases ({ expectHopIdx := opts.expectHopIdx } : InspectOptions).hopIdxUnmet (run ZcmAnalyze.observe {} cs) <;> simp
    · -- out of range, and no counter has such an index
      have hgt : opts.expectHopIdx > 15 := Int32.not_le.mp h15
      have hfar : 15 < opts.expectHopIdx.toInt := Int32.lt_iff_toInt_lt.mp hgt
      simp only [hopIdxUnmet, ge_iff_le, h0, hgt, if_true]
      refine iff_of_false (Option.some_ne_none _) ?_
      rintro ⟨hne, hall⟩
      obtain ⟨c, hc⟩ := List.exists_mem_of_ne_nil cs hne
      have := (hbucket c).mp (hall c hc)
      omega
  · simp [hopIdxUnmet, h0]

end InspectOptions

/-- **`zcmesh_inspect` ends well exactly when the recording meets its options.** -/
theorem inspect_iff {mem : Memory} {cs : List WireFrame} (hcs : ∀ c ∈ cs, verifyFrame c = true)
    (hmem : mem.allocates (4 * cs.length) = true) (opts : InspectOptions) :
    (inspect mem opts (zcmFile cs)).ending = .exit 0 "" ↔ Meets opts cs := by
  have hlt := Memory.lt_of_allocates hmem
  have hok : (run ZcmAnalyze.observe {} cs).ok = UInt64.ofNat cs.length := by
    rw [ZcmAnalyze.ok_run]
    exact UInt64.zero_add _
  have hlast : (run ZcmAnalyze.observe {} cs).hop.lastHop =
      UInt64.ofNat (cs.countP fun c => c.flags &&& flagLastHop ≠ 0) := by
    rw [lastHop_run]
    exact UInt64.zero_add _
  have hframes : opts.expectFramesMin ≤ (UInt64.ofNat cs.length).toInt64 ↔ opts.expectFramesMin.toInt ≤ cs.length := by
    rw [Int64.le_iff_toInt_le, UInt64.toInt64_ofNat', Int64.toInt_ofNat_of_lt (by omega)]
  have hexit : (inspect mem opts (zcmFile cs)).ending = .exit 0 "" ↔
      opts.unmet (run ZcmAnalyze.observe {} cs) (cs.map (·.rawValue)) = none := by
    rw [inspect_zcmFile _ hcs hmem]
    cases opts.unmet (run ZcmAnalyze.observe {} cs) (cs.map (·.rawValue)) <;> simp
  rw [hexit, InspectOptions.unmet_eq_none, InspectOptions.gapsMinUnmet_eq_none, InspectOptions.gapsMaxUnmet_eq_none,
    InspectOptions.hopIdxUnmet_run hcs hmem, InspectOptions.framesMinUnmet_eq_none, rawsUnmet_eq_none, hlast, hok,
    hframes]
  exact ⟨fun ⟨a, b, c, d, e, f⟩ => ⟨a, b, c, d, e, f⟩, fun ⟨a, b, c, d, e, f⟩ => ⟨a, b, c, d, e, f⟩⟩

end ZcMesh.Core
