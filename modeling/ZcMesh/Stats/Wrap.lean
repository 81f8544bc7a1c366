import ZcMesh.Stats.Agreement
import ZcMesh.Stats.Loss

/-!
# The wrap of the seq counter

The edge counts its samples in a `uint32_t`, so behind `0xFFFFFFFF` comes `0`. On a stream without loss
(`streamFrom`) neither detector reports a gap, but both take each step from `0xFFFFFFFF` to `0` for a duplicate
(`stalls_streamFrom`): the stream is reported clean exactly when it does not get there (`clean_iff`).
-/

namespace ZcMesh.Core

open Walk (hole holes stalls)

/-- The seqs of `len` frames from `start` on, as `uint32_t seq++` gives them. -/
def streamFrom (start : UInt32) (len : Nat) : List UInt32 := (List.range len).map fun i => start + UInt32.ofNat i

/-- How often the stream steps from `0xFFFFFFFF` to `0`. -/
def wraps (start : UInt32) (len : Nat) : Nat := (start.toNat + len - 1) / 2 ^ 32

theorem streamFrom_succ (start : UInt32) (len : Nat) :
    streamFrom start (len + 1) = start :: streamFrom (start + 1) len := by
  have hshift : ∀ i, start + (UInt32.ofNat i + 1) = start + 1 + UInt32.ofNat i := by
    intro i
    rw [UInt32.add_comm (UInt32.ofNat i), UInt32.add_assoc]
  simp [streamFrom, List.range_succ_eq_map, Function.comp_def, hshift]

/-- The next seq, as a number. -/
theorem toNat_next (seq : UInt32) : (seq + 1).toNat = if seq.toNat = 2 ^ 32 - 1 then 0 else seq.toNat + 1 := by
  have hs := seq.toNat_lt
  rw [UInt32.toNat_add]
  simp only [UInt32.reduceToNat]
  split <;> omega

/-- **No step of the stream leaves a hole, and a step stalls exactly at the wrap.** -/
theorem holes_stalls_streamFrom (start : UInt32) (len : Nat) :
    holes ((streamFrom start len).map UInt32.toNat) = 0 ∧
      stalls ((streamFrom start len).map UInt32.toNat) = wraps start len := by
  induction len generalizing start with
  | zero =>
    have hs := start.toNat_lt
    refine ⟨rfl, ?_⟩
    show 0 = (start.toNat + 0 - 1) / 2 ^ 32
    omega
  | succ len ih =>
    obtain ⟨hholes, hstalls⟩ := ih (start + 1)
    have hs := start.toNat_lt
    rw [streamFrom_succ, List.map_cons]
    cases len with
    | zero =>
      refine ⟨rfl, ?_⟩
      show 0 = (start.toNat + 1 - 1) / 2 ^ 32
      omega
    | succ len =>
      rw [streamFrom_succ, List.map_cons] at hholes hstalls ⊢
      have hhole : hole (start.toNat, (start + 1).toNat) = 0 := by
        rw [hole, Nat.card_Ioo, toNat_next]
        split <;> omega
      rw [Walk.holes_cons_cons, Walk.stalls_cons_cons, hholes, hstalls, hhole, wraps, wraps, toNat_next]
      refine ⟨rfl, ?_⟩
      split
      · rename_i hlast
        rw [if_pos (Nat.zero_le _)]
        omega
      · rw [if_neg (by omega)]
        omega

theorem word_eq_zero_iff (n : Nat) : UInt64.ofNat n = 0 ↔ 2 ^ 64 ∣ n := by
  rw [← UInt64.toNat_inj, UInt64.toNat_ofNat', Nat.dvd_iff_mod_eq_zero]
  rfl

/-- The node's entry is clean exactly when the stream does not wrap, or a multiple of `2 ^ 64` times. -/
theorem entry_clean_iff {cs : List WireFrame} {node : UInt16} {start : UInt32} {len : Nat}
    (hseqs : seqsOf node cs = streamFrom start len) :
    let n := ((Runs.run ZcmAnalyze.observe {} cs).byNode.lookup node).getD {}
    n.gaps = 0 ∧ (n.dups = 0 ↔ 2 ^ 64 ∣ wraps start len) := by
  intro n
  obtain ⟨hgaps, _, hdups, _⟩ := entry_walk cs node
  obtain ⟨hholes, hstalls⟩ := holes_stalls_streamFrom start len
  rw [walkOf, hseqs] at hgaps hdups
  constructor
  · rw [hgaps, hholes]
    rfl
  · rw [hdups, hstalls, word_eq_zero_iff]

end ZcMesh.Core

namespace ZcMesh

open ZcMesh.Core (ZcmAnalyze seqsOf streamFrom wraps verifyFrame)
open Operator (TelemetryPipeline)

/-- The pipeline, fed the stream alone, is clean in the same cases. -/
theorem pipeline_clean_iff {capacity : Nat} {nanoTimes : Nat → Int64} {p₀ : TelemetryPipeline}
    (hmake : TelemetryPipeline.make capacity nanoTimes = .ok p₀) {cs : List Core.WireFrame} {node : UInt16}
    (hcs : ∀ c ∈ cs, verifyFrame c = true ∧ c.nodeId = node) {start : UInt32} {len : Nat}
    (hseqs : seqsOf node cs = streamFrom start len) :
    let p := Runs.run TelemetryPipeline.offer p₀ (cs.map view)
    p.seqGaps = 0 ∧ (p.seqDups = 0 ↔ 2 ^ 64 ∣ wraps start len) := by
  intro p
  have hsim := sim_run (sim_make hmake) cs fun c hc => (hcs c hc).1
  obtain ⟨htotalGaps, htotalDups⟩ := Core.totals_one_node fun c hc => (hcs c hc).2
  obtain ⟨hholes, hstalls⟩ := Core.holes_stalls_streamFrom start len
  rw [Core.walkOf, hseqs] at htotalGaps htotalDups
  constructor
  · rw [← long_inj, hsim.seqs.gaps.trans htotalGaps, hholes]
    rfl
  · rw [← long_inj, hsim.seqs.dups.trans htotalDups, hstalls]
    exact Core.word_eq_zero_iff _

/-- **A stream without loss is reported clean exactly when it does not wrap**, or a multiple of `2 ^ 64` times: by the
analyser, whatever the other nodes send, and by the pipeline, which keeps one counter, on the stream alone. -/
theorem clean_iff {cs : List Core.WireFrame} {node : UInt16} {start : UInt32} {len : Nat}
    (hseqs : seqsOf node cs = streamFrom start len) :
    (let n := ((Runs.run ZcmAnalyze.observe {} cs).byNode.lookup node).getD {}
     n.gaps = 0 ∧ n.dups = 0 ↔ 2 ^ 64 ∣ wraps start len) ∧
    ∀ (capacity : Nat) (nanoTimes : Nat → Int64) (p₀ : TelemetryPipeline) (js : List Operator.WireFrame),
      TelemetryPipeline.make capacity nanoTimes = .ok p₀ → (∀ c ∈ cs, verifyFrame c = true ∧ c.nodeId = node) →
      List.Forall₂ (fun c j => Operator.WireFrame.decode c.bytes = .ok j) cs js →
      let p := Runs.run TelemetryPipeline.offer p₀ js
      p.seqGaps = 0 ∧ p.seqDups = 0 ↔ 2 ^ 64 ∣ wraps start len := by
  obtain ⟨hgaps, hdups⟩ := Core.entry_clean_iff hseqs
  constructor
  · intro n
    rw [← hdups]
    exact and_iff_right hgaps
  · intro capacity nanoTimes p₀ js hmake hcs hdec p
    obtain ⟨hpgaps, hpdups⟩ := pipeline_clean_iff hmake hcs hseqs
    rw [← decoded_eq_map_view hdec] at hpgaps hpdups
    rw [← hpdups]
    exact and_iff_right hpgaps

/-- Three frames around the middle of the range. -/
theorem clean_iff_three :
    (((Runs.run ZcmAnalyze.observe {} (Core.framesWith (streamFrom 5 3))).byNode.lookup 7).getD {}).dups = 0 :=
  ((clean_iff (Core.seqsOf_framesWith (streamFrom 5 3))).1.mpr ⟨0, by decide⟩).2

/-- The two frames around the wrap: both detectors take the second one for a duplicate. -/
theorem wrap_reported :
    let cs := Core.framesWith (streamFrom 0xFFFFFFFF 2)
    (((Runs.run ZcmAnalyze.observe {} cs).byNode.lookup 7).getD {}).dups ≠ 0 ∧
      ∃ p₀, TelemetryPipeline.make 2 (fun _ => 0) = .ok p₀ ∧
        (Runs.run TelemetryPipeline.offer p₀ (cs.map view)).seqDups ≠ 0 := by
  intro cs
  have hseqs := Core.seqsOf_framesWith (streamFrom 0xFFFFFFFF 2)
  have hwraps : ¬2 ^ 64 ∣ wraps 0xFFFFFFFF 2 := by decide
  have hcs : ∀ c ∈ cs, verifyFrame c = true ∧ c.nodeId = 7 := by
    intro c hc
    obtain ⟨seq, _, rfl⟩ := List.mem_map.mp hc
    exact ⟨Core.verifyFrame_packFrameInto _, rfl⟩
  obtain ⟨p₀, hmake⟩ : ∃ p₀, TelemetryPipeline.make 2 (fun _ => 0) = .ok p₀ := ⟨_, rfl⟩
  refine ⟨fun h => hwraps ((Core.entry_clean_iff hseqs).2.mp h), p₀, hmake, ?_⟩
  intro h
  exact hwraps ((pipeline_clean_iff hmake hcs hseqs).2.mp h)

end ZcMesh
