import Mathlib.Order.Interval.Finset.Nat
import ZcMesh.Lib.Run
import ZcMesh.Lib.Walk
import ZcMesh.Stats.Analyze

/-!
# What `ZcmAnalyze` knows about one node

The entry of a node depends on the frames of this node alone (`lookup_run`): it is what `NodeGapStats::observe` makes of
their seqs. These seqs, as numbers, are a walk (`walkOf`), and the entry describes it (`run_observe`): `gaps` adds up
its holes, `gap_events` counts the steps with a hole, `dups` the steps that do not go up, `max_hole` is the largest
hole (`entry_walk`). The 64-bit counters hold these numbers modulo `2 ^ 64`. The totals are sums over the nodes
(`totals_walk`).
-/

namespace ZcMesh.Core

open Walk (hole holes jumps stalls)

/-- The seqs of a node's frames, in order. -/
def seqsOf (node : UInt16) (cs : List WireFrame) : List UInt32 := (cs.filter (·.nodeId = node)).map (·.seq)

/-- The seqs of a node's frames as numbers. -/
def walkOf (node : UInt16) (cs : List WireFrame) : List Nat := (seqsOf node cs).map UInt32.toNat

theorem seqsOf_cons (node : UInt16) (c : WireFrame) (cs : List WireFrame) :
    seqsOf node (c :: cs) = if c.nodeId = node then c.seq :: seqsOf node cs else seqsOf node cs := by
  simp only [seqsOf, List.filter_cons]
  by_cases h : c.nodeId = node
  · simp [h]
  · simp [h]

/-! ## One node among others -/

namespace ZcmAnalyze

/-- `ok` counts the frames, whichever node sent them. -/
theorem ok_run (a : ZcmAnalyze) (cs : List WireFrame) : (Runs.run observe a cs).ok = a.ok + UInt64.ofNat cs.length := by
  induction cs generalizing a with
  | nil => exact (UInt64.add_zero _).symm
  | cons c cs ih =>
    have hone : (a.observe c).ok = a.ok + 1 := rfl
    rw [Runs.run_cons, ih, hone, List.length_cons, Nat.add_comm, UInt64.ofNat_add, UInt64.add_assoc]
    rfl

theorem lookup_observe (a : ZcmAnalyze) (c : WireFrame) (node : UInt16) :
    (a.observe c).byNode.lookup node =
      if c.nodeId = node then some (((a.byNode.lookup node).getD {}).observe c.seq) else a.byNode.lookup node := by
  simp only [observe]
  by_cases h : c.nodeId = node
  · rw [if_pos h, ← h, AList.lookup_insert]
  · rw [if_neg h, AList.lookup_insert_ne (Ne.symm h)]

/-- **The entry of a node is made by its own frames.** -/
theorem lookup_run (a : ZcmAnalyze) (cs : List WireFrame) (node : UInt16) :
    (Runs.run observe a cs).byNode.lookup node =
      if seqsOf node cs = [] then a.byNode.lookup node
      else some (Runs.run NodeGapStats.observe ((a.byNode.lookup node).getD {}) (seqsOf node cs)) := by
  induction cs generalizing a with
  | nil => rfl
  | cons c cs ih =>
    rw [Runs.run_cons, ih, lookup_observe, seqsOf_cons]
    by_cases h : c.nodeId = node
    · rw [if_pos h, if_pos h, if_neg (List.cons_ne_nil _ _), Runs.run_cons, Option.getD_some]
      split
      · rename_i hnil
        rw [hnil, Runs.run_nil]
      · rfl
    · rw [if_neg h, if_neg h]

/-- The entry of a node, from a fresh analyser; the entry without frames is the default one. -/
theorem entry_run (cs : List WireFrame) (node : UInt16) :
    ((Runs.run observe {} cs).byNode.lookup node).getD {} = Runs.run NodeGapStats.observe {} (seqsOf node cs) := by
  have hempty : ({} : ZcmAnalyze).byNode.lookup node = none := rfl
  rw [lookup_run, hempty]
  split
  · rename_i hnil
    rw [hnil]
    rfl
  · rfl

end ZcmAnalyze

/-! ## The walk of a node -/

/-- A hole between two seqs, as the code computes it. -/
theorem hole_toNat {last seq : UInt32} (h : last < seq) :
    (seq - last - 1).toNat = hole (last.toNat, seq.toNat) := by
  rw [UInt32.lt_iff_toNat_lt] at h
  have hs := seq.toNat_lt
  rw [hole, Nat.card_Ioo, UInt32.toNat_sub, UInt32.toNat_sub]
  simp only [UInt32.reduceToNat]
  omega

theorem hole_lt (last seq : UInt32) : hole (last.toNat, seq.toNat) < 2 ^ 32 := by
  have hs := seq.toNat_lt
  rw [hole, Nat.card_Ioo]
  omega

/-- The code sees a hole exactly when there is one; `last + 1` does not wrap below another seq. -/
theorem next_lt_iff {last seq : UInt32} (h : last < seq) : last + 1 < seq ↔ 0 < hole (last.toNat, seq.toNat) := by
  rw [UInt32.lt_iff_toNat_lt] at h
  have hs := seq.toNat_lt
  have hsum : (last + 1).toNat = last.toNat + 1 := by
    rw [UInt32.toNat_add]
    simp only [UInt32.reduceToNat]
    omega
  rw [UInt32.lt_iff_toNat_lt, hsum, hole, Nat.card_Ioo]
  omega

/-- What the code adds to `gaps`. -/
theorem hole_word {last seq : UInt32} (h : last < seq) :
    (seq - last - 1).toUInt64 = UInt64.ofNat (hole (last.toNat, seq.toNat)) := by
  have hlt := hole_lt last seq
  apply UInt64.toNat_inj.mp
  rw [UInt32.toNat_toUInt64, hole_toNat h, UInt64.toNat_ofNat_of_lt']
  show _ < 18446744073709551616
  omega

/-- What the code keeps as `max_hole`. -/
theorem max_word {last seq : UInt32} (h : last < seq) (m : UInt32) :
    (if seq - last - 1 > m then seq - last - 1 else m) =
      UInt32.ofNat (max m.toNat (hole (last.toNat, seq.toNat))) := by
  rw [← hole_toNat h]
  split
  · rename_i hgt
    rw [Nat.max_eq_right (Nat.le_of_lt (UInt32.lt_iff_toNat_lt.mp hgt)), UInt32.ofNat_toNat]
  · rename_i hle
    rw [Nat.max_eq_left (UInt32.le_iff_toNat_le.mp (UInt32.not_lt.mp hle)), UInt32.ofNat_toNat]

theorem max_zero (m : UInt32) : UInt32.ofNat (max m.toNat 0) = m := by
  rw [Nat.max_eq_left (Nat.zero_le _), UInt32.ofNat_toNat]

/-- `observe`, at a node that has been seen. -/
theorem NodeGapStats.observe_eq {n : NodeGapStats} (hseen : n.seen = true) (seq : UInt32) :
    let k := hole (n.lastSeq.toNat, seq.toNat)
    n.observe seq =
      { seen := true
        lastSeq := seq
        frames := n.frames + 1
        gaps := n.gaps + UInt64.ofNat k
        gapEvents := n.gapEvents + UInt64.ofNat (if 0 < k then 1 else 0)
        dups := n.dups + UInt64.ofNat (if seq.toNat ≤ n.lastSeq.toNat then 1 else 0)
        maxHole := UInt32.ofNat (max n.maxHole.toNat k) } := by
  intro k
  simp only [NodeGapStats.observe, hseen, Bool.not_true, Bool.false_eq_true, if_false]
  by_cases hdup : seq ≤ n.lastSeq
  · have hk : k = 0 := Walk.hole_of_le (UInt32.le_iff_toNat_le.mp hdup)
    rw [if_pos hdup, if_pos (UInt32.le_iff_toNat_le.mp hdup), hk, max_zero]
    simp
  · have hlt : n.lastSeq < seq := UInt32.not_le.mp hdup
    rw [if_neg hdup, if_neg fun hle => hdup (UInt32.le_iff_toNat_le.mpr hle)]
    by_cases hgap : seq > n.lastSeq + 1
    · have hpos : 0 < k := (next_lt_iff hlt).mp hgap
      rw [if_pos hgap, if_pos hpos, hole_word hlt, max_word hlt]
      simp [k]
    · have hzero : k = 0 := Nat.eq_zero_of_not_pos fun hpos => hgap ((next_lt_iff hlt).mpr hpos)
      rw [if_neg hgap, hzero, max_zero]
      simp

/-- From a node that has been seen, each further seq makes one more step of the walk. -/
theorem NodeGapStats.run_observe_seen (rest : List UInt32) {n : NodeGapStats} (hn : n.seen = true) :
    let w := (n.lastSeq :: rest).map UInt32.toNat
    Runs.run NodeGapStats.observe n rest =
      { seen := true
        lastSeq := (n.lastSeq :: rest).getLast (List.cons_ne_nil _ _)
        frames := n.frames + UInt64.ofNat rest.length
        gaps := n.gaps + UInt64.ofNat (holes w)
        gapEvents := n.gapEvents + UInt64.ofNat (jumps w)
        dups := n.dups + UInt64.ofNat (stalls w)
        maxHole := UInt32.ofNat (max n.maxHole.toNat (Walk.maxHole w)) } := by
  intro w
  induction rest generalizing n with
  | nil => simp [w, holes, jumps, stalls, Walk.maxHole, ← hn]
  | cons seq rest ih =>
    have hmax : (UInt32.ofNat (max n.maxHole.toNat (hole (n.lastSeq.toNat, seq.toNat)))).toNat =
        max n.maxHole.toNat (hole (n.lastSeq.toNat, seq.toNat)) := by
      apply UInt32.toNat_ofNat_of_lt'
      have h1 := n.maxHole.toNat_lt
      have h2 := hole_lt n.lastSeq seq
      show _ < 4294967296
      omega
    rw [Runs.run_cons, observe_eq hn, ih rfl, hmax]
    simp only [w, List.map_cons, Walk.holes_cons_cons, Walk.jumps_cons_cons, Walk.stalls_cons_cons,
      Walk.maxHole_cons_cons, UInt64.ofNat_add, UInt64.add_assoc, Nat.max_assoc, List.getLast_cons_cons,
      List.length_cons, Nat.add_comm rest.length 1]
    rfl

/-- **The entry of a node describes the walk of its seqs.** -/
theorem NodeGapStats.run_observe (first : UInt32) (rest : List UInt32) :
    let w := (first :: rest).map UInt32.toNat
    Runs.run NodeGapStats.observe {} (first :: rest) =
      { seen := true
        lastSeq := (first :: rest).getLast (List.cons_ne_nil _ _)
        frames := UInt64.ofNat w.length
        gaps := UInt64.ofNat (holes w)
        gapEvents := UInt64.ofNat (jumps w)
        dups := UInt64.ofNat (stalls w)
        maxHole := UInt32.ofNat (Walk.maxHole w) } := by
  intro w
  have hfirst : ({} : NodeGapStats).observe first = { seen := true, lastSeq := first, frames := 1 } := rfl
  rw [Runs.run_cons, hfirst, run_observe_seen rest rfl]
  simp [w, UInt64.ofNat_add, UInt64.add_comm]

/-- The four statistics of a node, from the walk of its seqs. -/
theorem entry_walk (cs : List WireFrame) (node : UInt16) :
    let n := ((Runs.run ZcmAnalyze.observe {} cs).byNode.lookup node).getD {}
    let w := walkOf node cs
    n.gaps = UInt64.ofNat (holes w) ∧ n.gapEvents = UInt64.ofNat (jumps w) ∧ n.dups = UInt64.ofNat (stalls w) ∧
      n.maxHole = UInt32.ofNat (Walk.maxHole w) := by
  intro n w
  have hn : n = Runs.run NodeGapStats.observe {} (seqsOf node cs) := ZcmAnalyze.entry_run cs node
  rw [hn]
  cases hseqs : seqsOf node cs with
  | nil =>
    have hw : w = [] := by simp only [w, walkOf, hseqs, List.map_nil]
    rw [hw]
    exact ⟨rfl, rfl, rfl, rfl⟩
  | cons first rest =>
    have hw : w = (first :: rest).map UInt32.toNat := by simp only [w, walkOf, hseqs]
    rw [hw, NodeGapStats.run_observe]
    exact ⟨rfl, rfl, rfl, rfl⟩

/-! ## All nodes -/

/-- The nodes that sent frames. -/
def nodesOf (cs : List WireFrame) : Finset UInt16 := (cs.map (·.nodeId)).toFinset

theorem seqsOf_eq_nil {cs : List WireFrame} {node : UInt16} : seqsOf node cs = [] ↔ node ∉ nodesOf cs := by
  rw [seqsOf, List.map_eq_nil_iff, List.filter_eq_nil_iff, nodesOf, List.mem_toFinset, List.mem_map]
  simp only [decide_eq_true_eq, not_exists, not_and]

/-- A sum over the entries is a sum over the nodes, when the entries of the nodes without frames add nothing. -/
theorem total_run {f : NodeGapStats → UInt64} (hf : f {} = 0) (cs : List WireFrame) :
    AssocSum.total (fun _ n => f n) (Runs.run ZcmAnalyze.observe {} cs).byNode =
      ∑ node ∈ nodesOf cs, f (((Runs.run ZcmAnalyze.observe {} cs).byNode.lookup node).getD {}) := by
  rw [AssocSum.total_eq_sum_keys (s := nodesOf cs)]
  · apply Finset.sum_congr rfl
    intro node _
    cases (Runs.run ZcmAnalyze.observe {} cs).byNode.lookup node with
    | none => exact hf.symm
    | some n => rfl
  · intro node hnode
    by_contra hno
    have hlookup := ZcmAnalyze.lookup_run {} cs node
    rw [if_pos (seqsOf_eq_nil.mpr hno)] at hlookup
    exact AList.lookup_eq_none.mp hlookup hnode

/-- **The totals, from the walks of the nodes.** -/
theorem totals_walk (cs : List WireFrame) :
    (Runs.run ZcmAnalyze.observe {} cs).totalGaps = ∑ node ∈ nodesOf cs, UInt64.ofNat (holes (walkOf node cs)) ∧
      (Runs.run ZcmAnalyze.observe {} cs).totalDups = ∑ node ∈ nodesOf cs, UInt64.ofNat (stalls (walkOf node cs)) := by
  constructor
  · rw [ZcmAnalyze.totalGaps, total_run (f := NodeGapStats.gaps) rfl]
    exact Finset.sum_congr rfl fun node _ => (entry_walk cs node).1
  · rw [ZcmAnalyze.totalDups, total_run (f := NodeGapStats.dups) rfl]
    exact Finset.sum_congr rfl fun node _ => (entry_walk cs node).2.2.1

/-- With one node there is one walk. -/
theorem totals_one_node {cs : List WireFrame} {node : UInt16} (h : ∀ c ∈ cs, c.nodeId = node) :
    (Runs.run ZcmAnalyze.observe {} cs).totalGaps = UInt64.ofNat (holes (walkOf node cs)) ∧
      (Runs.run ZcmAnalyze.observe {} cs).totalDups = UInt64.ofNat (stalls (walkOf node cs)) := by
  have hsub : nodesOf cs ⊆ {node} := by
    intro other hother
    obtain ⟨c, hc, rfl⟩ := List.mem_map.mp (List.mem_toFinset.mp hother)
    exact Finset.mem_singleton.mpr (h c hc)
  have hnone : ∀ other, other ∉ nodesOf cs → walkOf other cs = [] := by
    intro other hother
    rw [walkOf, seqsOf_eq_nil.mpr hother, List.map_nil]
  obtain ⟨hgaps, hdups⟩ := totals_walk cs
  constructor
  · rw [hgaps, Finset.sum_subset hsub (fun other _ hother => by rw [hnone other hother]; rfl), Finset.sum_singleton]
  · rw [hdups, Finset.sum_subset hsub (fun other _ hother => by rw [hnone other hother]; rfl), Finset.sum_singleton]

end ZcMesh.Core
