import ZcMesh.Stats.PerNode
import ZcMesh.Wire.Codec

/-!
# Lost frames

What the `gaps` of a node say about the seqs that never arrived (`gaps_spec`): in any order of arrival they are at least
as many as the seqs missed between the first and the largest one, as long as 64 bits hold the sum of the holes; on seqs
that only go up they are exactly as many. Going to and fro over the whole range some `2 ^ 32` times makes the sum pass
`2 ^ 64` (`gaps_overflow`).
-/

namespace ZcMesh.Core

open Walk (steps hole holes jumps stalls missed runLengths)

/-! ## Bounds on the walk of a node -/

theorem lt_of_mem_walkOf {node : UInt16} {cs : List WireFrame} {v : Nat} (h : v ∈ walkOf node cs) : v < 2 ^ 32 := by
  obtain ⟨seq, _, rfl⟩ := List.mem_map.mp h
  exact seq.toNat_lt

/-- A walk of `n` seqs jumps over less than `n * 2 ^ 32`. -/
theorem holes_le {w : List Nat} (h : ∀ v ∈ w, v < 2 ^ 32) : holes w ≤ w.length * (2 ^ 32 - 1) := by
  induction w with
  | nil => exact Nat.zero_le _
  | cons a w ih =>
    cases w with
    | nil => exact Nat.zero_le _
    | cons b w =>
      have hb := h b (by simp)
      have hhole : hole (a, b) = b - a - 1 := Nat.card_Ioo a b
      have hrest := ih fun v hv => h v (List.mem_cons_of_mem _ hv)
      rw [Walk.holes_cons_cons, List.length_cons, Nat.add_mul, hhole]
      omega

/-- Fewer than `2 ^ 32` seqs are missed. -/
theorem card_missed_lt {w : List Nat} (h : ∀ v ∈ w, v < 2 ^ 32) : (missed w).card < 2 ^ 32 := by
  cases w with
  | nil => exact Nat.two_pow_pos 32
  | cons a w =>
    have hsub : missed (a :: w) ⊆ Finset.Ioo a (2 ^ 32) := by
      intro v hv
      obtain ⟨hav, ⟨x, hx, hvx⟩, _⟩ := Walk.mem_missed.mp hv
      have := h x (List.mem_cons_of_mem _ hx)
      exact Finset.mem_Ioo.mpr ⟨hav, by omega⟩
    have hcard := Finset.card_le_card hsub
    rw [Nat.card_Ioo] at hcard
    omega

theorem maxHole_lt {w : List Nat} (h : ∀ v ∈ w, v < 2 ^ 32) : Walk.maxHole w < 2 ^ 32 := by
  rcases Walk.exists_maxHole w with hzero | ⟨p, hp, hmax⟩
  · rw [hzero]
    exact Nat.two_pow_pos 32
  · have hend := h p.2 (Walk.mem_of_mem_steps hp).2
    have hhole : hole p = p.2 - p.1 - 1 := Nat.card_Ioo _ _
    omega

/-! ## Gaps -/

/-- **Loss is not under-reported** while 64 bits hold the sum of the holes, which they do for `2 ^ 32` frames at least;
on seqs that only go up the report is exact. -/
theorem gaps_spec (cs : List WireFrame) (node : UInt16) :
    let n := ((Runs.run ZcmAnalyze.observe {} cs).byNode.lookup node).getD {}
    let w := walkOf node cs
    n.gaps = UInt64.ofNat (holes w) ∧ (holes w < 2 ^ 64 → (missed w).card ≤ n.gaps.toNat) ∧
      (w.length ≤ 2 ^ 32 → holes w < 2 ^ 64) ∧
      (w.Pairwise (· < ·) →
        n.gaps.toNat = (missed w).card ∧ n.dups = 0 ∧ n.gapEvents.toNat = (steps w).countP (fun p => p.2 ≠ p.1 + 1) ∧
          IsGreatest (runLengths (missed w)) n.maxHole.toNat) := by
  intro n w
  obtain ⟨hgaps, hevents, hdups, hmax⟩ := entry_walk cs node
  have hw : ∀ v ∈ w, v < 2 ^ 32 := fun v => lt_of_mem_walkOf
  refine ⟨hgaps, ?_, ?_, ?_⟩
  · intro hfit
    rw [hgaps, UInt64.toNat_ofNat_of_lt' hfit]
    exact Walk.card_missed_le w
  · intro hlen
    have hsum := holes_le hw
    have hmul : w.length * (2 ^ 32 - 1) ≤ 2 ^ 32 * (2 ^ 32 - 1) := Nat.mul_le_mul_right _ hlen
    omega
  · intro hup
    have hcard := Walk.card_missed_of_increasing hup
    have hlt := card_missed_lt hw
    have hjumps := Walk.jumps_le_holes w
    refine ⟨?_, ?_, ?_, ?_⟩
    · have hfit : holes w < 2 ^ 64 := by omega
      rw [hgaps, hcard, UInt64.toNat_ofNat_of_lt' hfit]
    · rw [hdups, Walk.stalls_of_increasing hup]
      rfl
    · have hfit : jumps w < 2 ^ 64 := by omega
      rw [hevents, UInt64.toNat_ofNat_of_lt' hfit, jumps]
      apply List.countP_congr
      intro p hp
      have hstep := Walk.lt_of_mem_steps hup hp
      have hhole : hole p = p.2 - p.1 - 1 := Nat.card_Ioo _ _
      simp only [decide_eq_true_eq, hhole]
      omega
    · rw [hmax, UInt32.toNat_ofNat_of_lt' (maxHole_lt hw)]
      exact Walk.maxHole_isGreatest hup

/-! ## To and fro -/

/-- Frames of node 7 with the given seqs. -/
def framesWith (seqs : List UInt32) : List WireFrame :=
  seqs.map fun seq => packFrameInto { goldenSample with seq := seq }

theorem seqsOf_framesWith (seqs : List UInt32) : seqsOf 7 (framesWith seqs) = seqs := by
  induction seqs with
  | nil => rfl
  | cons seq seqs ih =>
    have hnode : (packFrameInto { goldenSample with seq := seq }).nodeId = 7 := rfl
    rw [framesWith, List.map_cons, seqsOf_cons, if_pos hnode]
    exact congrArg (seq :: ·) ih

/-- `k` times up from the first seq to the last. -/
def toAndFro (k : Nat) : List UInt32 := (List.replicate k [0, 0xFFFFFFFF]).flatten

theorem toAndFro_succ (k : Nat) :
    (toAndFro (k + 1)).map UInt32.toNat = 0 :: 4294967295 :: (toAndFro k).map UInt32.toNat := by
  rw [toAndFro, List.replicate_succ, List.flatten_cons]
  rfl

/-- Each time up jumps over everything; down nothing is jumped over. -/
theorem holes_toAndFro (k : Nat) : holes ((toAndFro k).map UInt32.toNat) = k * 4294967294 := by
  have hup : hole (0, 4294967295) = 4294967294 := Nat.card_Ioo 0 4294967295
  induction k with
  | zero => rfl
  | succ k ih =>
    rw [toAndFro_succ, Walk.holes_cons_cons, hup]
    cases k with
    | zero => rfl
    | succ k =>
      rw [toAndFro_succ] at ih ⊢
      rw [Walk.holes_cons_cons, Walk.hole_of_le (Nat.zero_le _), ih]
      omega

theorem card_missed_toAndFro (k : Nat) : (missed ((toAndFro (k + 1)).map UInt32.toNat)).card = 4294967294 := by
  have hends : ∀ v ∈ (toAndFro k).map UInt32.toNat, v = 0 ∨ v = 4294967295 := by
    intro v hv
    obtain ⟨seq, hseq, rfl⟩ := List.mem_map.mp hv
    obtain ⟨l, hl, hmem⟩ := List.mem_flatten.mp hseq
    rw [List.eq_of_mem_replicate hl] at hmem
    simp only [List.mem_cons, List.not_mem_nil, or_false] at hmem
    rcases hmem with rfl | rfl
    · exact Or.inl rfl
    · exact Or.inr rfl
  have hall : missed ((toAndFro (k + 1)).map UInt32.toNat) = Finset.Ioo 0 4294967295 := by
    rw [toAndFro_succ]
    ext v
    rw [Walk.mem_missed, Finset.mem_Ioo]
    simp only [List.mem_cons, exists_eq_or_imp, not_or]
    constructor
    · rintro ⟨hpos, hlt, hne, _⟩
      refine ⟨hpos, ?_⟩
      rcases hlt with hlt | ⟨x, hx, hlt⟩
      · exact hlt
      · rcases hends x hx with rfl | rfl
        · exact absurd hlt (Nat.not_lt_zero v)
        · exact hlt
    · rintro ⟨hpos, hlt⟩
      refine ⟨hpos, Or.inl hlt, Nat.ne_of_lt hlt, ?_⟩
      intro hmem
      rcases hends v hmem with rfl | rfl
      · exact absurd hpos (Nat.lt_irrefl 0)
      · exact absurd hlt (Nat.lt_irrefl _)
  rw [hall, Nat.card_Ioo]

/-- Going up `2 ^ 32 + 3` times makes the sum of the holes pass `2 ^ 64`: fewer gaps are reported than seqs are
missed. -/
theorem gaps_overflow :
    let cs := framesWith (toAndFro 4294967299)
    (((Runs.run ZcmAnalyze.observe {} cs).byNode.lookup 7).getD {}).gaps.toNat < (missed (walkOf 7 cs)).card := by
  intro cs
  have hcard := card_missed_toAndFro 4294967298
  have hholes := holes_toAndFro 4294967299
  have hgaps := (entry_walk cs 7).1
  have hwalk : walkOf 7 cs = (toAndFro 4294967299).map UInt32.toNat := by rw [walkOf, seqsOf_framesWith]
  rw [hwalk] at hgaps ⊢
  rw [hcard, hgaps, hholes]
  decide

end ZcMesh.Core
