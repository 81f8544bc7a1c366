import ZcMesh.Stats.Interleave
import ZcMesh.Wire.Codec
import ZcMesh.Zcm.Inspect

/-!
# The hop check of `zcmesh_inspect`

`--expect-hop-idx N` compares one of the sixteen counters of `observe` with the number of frames. The counter of an
index below 15 is that of the frames with this index, but the last one is that of all frames from 15 on (`hopBucket`).
So `N` up to 14 is checked exactly, and 15 is taken for every larger index too (`expectHopIdx_iff`).
-/

namespace ZcMesh.Core

open Runs (run)

/-- The counters hold the indices up to 14 one by one, and all others together. -/
theorem hopBucket_eq (c : WireFrame) : hopBucket c = min c.reserved.toNat 15 := by
  unfold hopBucket
  split
  · next hlt =>
    have : c.reserved.toNat < 16 := UInt8.lt_iff_toNat_lt.mp hlt
    omega
  · next hge =>
    have : 16 ≤ c.reserved.toNat := UInt8.le_iff_toNat_le.mp (UInt8.not_lt.mp hge)
    show 15 = _
    omega

/-- With no other expectation. -/
theorem unmet_hopIdx (n : Int32) (stats : ZcmAnalyze) (seenRaws : List Int32) :
    ({ expectHopIdx := n } : InspectOptions).unmet stats seenRaws =
      ({ expectHopIdx := n } : InspectOptions).hopIdxUnmet stats := by
  have hnone : ∀ x : Option String, (none <|> none <|> x <|> none <|> none <|> none) = x := by
    intro x
    cases x <;> rfl
  exact hnone _

/-- The counter of the index has to be that of all frames, and there has to be a frame. -/
theorem hopIdxUnmet_eq_none {n : Int32} (h0 : 0 ≤ n) (h15 : n ≤ 15) (stats : ZcmAnalyze) :
    ({ expectHopIdx := n } : InspectOptions).hopIdxUnmet stats = none ↔
      stats.hop.hopHist n.toNatClampNeg = stats.ok ∧ stats.ok ≠ 0 := by
  have h15' : ¬n > 15 := Int32.not_lt.mpr h15
  simp only [InspectOptions.hopIdxUnmet, ge_iff_le, h0, h15', if_true, if_false]
  split
  · next hbad => simpa [imp_iff_not_or] using hbad
  · next hgood => simpa [not_or] using hgood

/-- **What the check comes to**: there is a frame, and the counter of every frame is the one of `N`. -/
theorem expectHopIdx_exit {mem : Memory} {cs : List WireFrame} (hcs : ∀ c ∈ cs, verifyFrame c = true)
    (hmem : mem.allocates (4 * cs.length) = true) {n : Int32} (h0 : 0 ≤ n) (h15 : n ≤ 15) :
    (∃ message, (inspect mem { expectHopIdx := n } (zcmFile cs)).ending = .exit 0 message) ↔
      cs ≠ [] ∧ ∀ c ∈ cs, hopBucket c = n.toNatClampNeg := by
  have hlt := Memory.lt_of_allocates hmem
  have hle : cs.countP (fun c => hopBucket c = n.toNatClampNeg) ≤ cs.length := List.countP_le_length
  have hok : (run ZcmAnalyze.observe {} cs).ok = UInt64.ofNat cs.length := by
    rw [ZcmAnalyze.ok_run]
    exact UInt64.zero_add _
  have hhist : (run ZcmAnalyze.observe {} cs).hop.hopHist n.toNatClampNeg =
      UInt64.ofNat (cs.countP fun c => hopBucket c = n.toNatClampNeg) := by
    rw [hopHist_run]
    exact UInt64.zero_add _
  have hinj : ∀ {a b : Nat}, a ≤ cs.length → b ≤ cs.length → (UInt64.ofNat a = UInt64.ofNat b ↔ a = b) := by
    intro a b ha hb
    rw [← UInt64.toNat_inj, UInt64.toNat_ofNat_of_lt' (by simp only [UInt64.size]; omega),
      UInt64.toNat_ofNat_of_lt' (by simp only [UInt64.size]; omega)]
  have hexit : (∃ message, (inspect mem { expectHopIdx := n } (zcmFile cs)).ending = .exit 0 message) ↔
      ({ expectHopIdx := n } : InspectOptions).hopIdxUnmet (run ZcmAnalyze.observe {} cs) = none := by
    rw [inspect_zcmFile _ hcs hmem, unmet_hopIdx]
    cases ({ expectHopIdx := n } : InspectOptions).hopIdxUnmet (run ZcmAnalyze.observe {} cs) <;> simp
  have hcount : UInt64.ofNat (cs.countP fun c => hopBucket c = n.toNatClampNeg) = UInt64.ofNat cs.length ↔
      ∀ c ∈ cs, hopBucket c = n.toNatClampNeg := by
    rw [hinj hle (Nat.le_refl _), List.countP_eq_length]
    simp
  have hsome : UInt64.ofNat cs.length ≠ 0 ↔ cs ≠ [] := by
    rw [show (0 : UInt64) = UInt64.ofNat 0 from rfl, ne_eq, hinj (Nat.le_refl _) (Nat.zero_le _),
      List.length_eq_zero_iff]
  rw [hexit, hopIdxUnmet_eq_none h0 h15, hok, hhist, hcount, hsome, and_comm]

/-- **The check of `N` is exact unless `N` is 15 and every frame of the file has an index from 15 on, one of them not
15.** -/
theorem expectHopIdx_iff {mem : Memory} {cs : List WireFrame} (hcs : ∀ c ∈ cs, verifyFrame c = true)
    (hmem : mem.allocates (4 * cs.length) = true) {n : Int32} (h0 : 0 ≤ n) (h15 : n ≤ 15) :
    ((∃ message, (inspect mem { expectHopIdx := n } (zcmFile cs)).ending = .exit 0 message) ↔
        cs ≠ [] ∧ ∀ c ∈ cs, c.reserved.toNat = n.toNatClampNeg) ↔
      ¬(n = 15 ∧ (∀ c ∈ cs, 15 ≤ c.reserved.toNat) ∧ ∃ c ∈ cs, c.reserved.toNat ≠ 15) := by
  rw [expectHopIdx_exit hcs hmem h0 h15]
  have hindex : (n.toNatClampNeg : Int) = n.toInt := Int32.cast_toNatClampNeg n h0
  have hle : n.toInt ≤ 15 := Int32.le_iff_toInt_le.mp h15
  by_cases hlast : n = 15
  · subst hlast
    have hfifteen : Int32.toNatClampNeg 15 = 15 := rfl
    have hbucket : ∀ c, hopBucket c = 15 ↔ 15 ≤ c.reserved.toNat := by
      intro c
      rw [hopBucket_eq]
      exact min_eq_right_iff
    simp only [hfifteen, hbucket, true_and, not_and]
    constructor
    · rintro hexact hall ⟨c, hc, hne⟩
      exact hne ((hexact.mp ⟨List.ne_nil_of_mem hc, hall⟩).2 c hc)
    · intro hnone
      constructor
      · rintro ⟨hne, hall⟩
        refine ⟨hne, fun c hc => ?_⟩
        by_contra hother
        exact hnone hall ⟨c, hc, hother⟩
      · rintro ⟨hne, hall⟩
        exact ⟨hne, fun c hc => (hall c hc).ge⟩
  · have hless : n.toNatClampNeg < 15 := by
      have hne : n.toInt ≠ (15 : Int32).toInt := mt Int32.toInt_inj.mp hlast
      have hfifteen : (15 : Int32).toInt = 15 := by decide
      omega
    have hbucket : ∀ c, hopBucket c = n.toNatClampNeg ↔ c.reserved.toNat = n.toNatClampNeg := by
      intro c
      rw [hopBucket_eq]
      omega
    simp [hbucket, hlast]

/-- A file of one frame with hop index 2. -/
theorem expectHopIdx_iff_two :
    ∃ message, (inspect ⟨fun n => decide (n < 2 ^ 63), by simp⟩ { expectHopIdx := 2 }
      (zcmFile [packFrameInto { goldenSample with reserved := 2 }])).ending = .exit 0 message := by
  have hverify : ∀ c ∈ [packFrameInto { goldenSample with reserved := 2 }], verifyFrame c = true := by
    intro c hc
    rw [List.mem_singleton.mp hc]
    exact verifyFrame_packFrameInto _
  let mem : Memory := ⟨fun n => decide (n < 2 ^ 63), by simp⟩
  have hmem : mem.allocates (4 * [packFrameInto { goldenSample with reserved := 2 }].length) = true := by decide
  have hiff := expectHopIdx_iff hverify hmem (n := 2) (by decide) (by decide)
  refine (hiff.mpr ?_).mpr ⟨by simp, ?_⟩
  · rintro ⟨htwo, -⟩
    exact absurd htwo (by decide)
  · intro c hc
    rw [List.mem_singleton.mp hc]
    rfl

/-- A frame with hop index 16 passes for one with hop index 15. -/
theorem expectHopIdx_folds :
    let cs := [packFrameInto { goldenSample with reserved := 16 }]
    (∀ c ∈ cs, verifyFrame c = true) ∧
      (∃ message, (inspect ⟨fun n => decide (n < 2 ^ 63), by simp⟩ { expectHopIdx := 15 } (zcmFile cs)).ending =
        .exit 0 message) ∧
      ¬∀ c ∈ cs, c.reserved.toNat = 15 := by
  intro cs
  have hverify : ∀ c ∈ cs, verifyFrame c = true := by
    intro c hc
    rw [List.mem_singleton.mp hc]
    exact verifyFrame_packFrameInto _
  refine ⟨hverify, (expectHopIdx_exit hverify (by decide) (by decide) (by decide)).mpr ⟨by simp [cs], ?_⟩, ?_⟩
  · intro c hc
    rw [List.mem_singleton.mp hc]
    rfl
  · intro hall
    exact absurd (hall _ List.mem_cons_self) (by decide)

end ZcMesh.Core
