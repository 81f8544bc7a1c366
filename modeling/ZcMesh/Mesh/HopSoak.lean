import ZcMesh.Mesh.LossRate
import ZcMesh.Mesh.LossReport
import ZcMesh.Zcm.Expectations
import ZcMesh.Zcm.Recording

/-!
# The soak tests of the hops

`scripts/demo-serial-hop.sh` and `scripts/soak-loss.sh` send the samples of an edge through hops to a capture and ask
`zcmesh_inspect` for gaps, for the hop index and for the share of frames with `LAST_HOP`. What leaves a chain are frames
that came in, in their order, with the stamp of every hop (`relay_stamps`). So each expectation says what it should: the
gaps are the samples missing between the first and the last one that arrived, the index is the length of the chain up to
15, and all frames have `LAST_HOP` or none, as the last hop has `--final` (`hop_soak`).
-/

namespace ZcMesh

open Core (WireFrame verifyFrame Stamped EdgeRun Meets delivered walkOf seqsOf gapsOf flagLastHop)
open Walk (holes missed)

/-- What belongs to a part. -/
theorem forall₂_part {α β : Type*} {R : α → β → Prop} {as : List α} {bs part : List β} (h : List.Forall₂ R as bs)
    (hpart : part.Sublist bs) : ∃ as' : List α, as'.Sublist as ∧ List.Forall₂ R as' part := by
  induction h generalizing part with
  | nil =>
    rw [List.sublist_nil.mp hpart]
    exact ⟨[], List.Sublist.refl _, .nil⟩
  | @cons a b as bs hone _ ih =>
    rcases List.sublist_cons_iff.mp hpart with hpart | ⟨rest, rfl, hrest⟩
    · obtain ⟨as', has', hall⟩ := ih hpart
      exact ⟨as', has'.cons a, hall⟩
    · obtain ⟨as', has', hall⟩ := ih hrest
      exact ⟨a :: as', has'.cons_cons a, .cons hone hall⟩

/-! ## Frames with a stamp -/

section Stamps

variable {k : Nat} {final : Bool} {fs gs : List WireFrame}

/-- Stamped frames of an edge have gone through as many hops. -/
theorem reserved_of_stamped (h : List.Forall₂ (Stamped k final) fs gs) (hfs : ∀ f ∈ fs, f.reserved = 0) :
    ∀ g ∈ gs, min g.reserved.toNat 15 = min k 15 := by
  induction h with
  | nil => exact nofun
  | @cons f g fs gs hone _ ih =>
    obtain ⟨hf, hfs⟩ := List.forall_mem_cons.mp hfs
    refine List.forall_mem_cons.mpr ⟨?_, ih hfs⟩
    have hreserved := hone.reserved
    rw [hf] at hreserved
    simp only [UInt8.reduceToNat] at hreserved
    omega

/-- All of them have `LAST_HOP`, or none. -/
theorem countP_of_stamped (h : List.Forall₂ (Stamped k final) fs gs) :
    (gs.countP fun g => g.flags &&& flagLastHop ≠ 0) = if final then gs.length else 0 := by
  induction h with
  | nil => simp
  | @cons f g fs gs hone _ ih =>
    have hlast := hone.lastHop
    rw [List.countP_cons, ih]
    cases final <;> simp_all

end Stamps

/-! ## The gaps -/

/-- With seqs that go up the gaps are the samples missing in between. -/
theorem gapsOf_increasing {cs : List WireFrame} {node : UInt16} (hnode : ∀ c ∈ cs, c.nodeId = node)
    (hup : (cs.map (·.seq.toNat)).Pairwise (· < ·)) :
    (gapsOf cs).toInt64.toInt = (missed (cs.map (·.seq.toNat))).card := by
  have hwalk : walkOf node cs = cs.map (·.seq.toNat) := by
    rw [walkOf, seqsOf, List.filter_eq_self.mpr fun c hc => decide_eq_true (hnode c hc), List.map_map]
    rfl
  have hseqs : ∀ v ∈ cs.map (·.seq.toNat), v < 2 ^ 32 := by
    intro v hv
    obtain ⟨c, _, rfl⟩ := List.mem_map.mp hv
    exact c.seq.toNat_lt
  have hcard : (missed (cs.map (·.seq.toNat))).card < 2 ^ 63 := (Core.card_missed_lt hseqs).trans (by decide)
  rw [gapsOf, (Core.totals_one_node hnode).1, hwalk, ← Walk.card_missed_of_increasing hup, UInt64.toInt64_ofNat',
    Int64.toInt_ofNat_of_lt hcard]

section Arrived

variable {r : EdgeRun} (htransport : r.cfg.transport ≠ .tcp) {sent : List (List UInt8)}
  (hsent : sent.Sublist (delivered r.edge.link.udp.sent)) (p : Core.Hop) (hops : List Core.Hop)
include htransport hsent

/-- What is left of the frames of an edge behind a chain of hops. -/
theorem relay_edge {arrived : List (List UInt8)} (harrived : arrived.Sublist (Core.Hop.relay (p :: hops) sent)) :
    ∃ fs gs : List WireFrame, fs.Sublist r.edge.pushed ∧ arrived = gs.map WireFrame.bytes ∧
      (∀ g ∈ gs, verifyFrame g = true) ∧
      List.Forall₂ (Stamped (hops.length + 1) ((p :: hops).getLast (List.cons_ne_nil p hops)).finalHop) fs gs := by
  obtain ⟨fs, gs, hfs, hrelay, hgs, hstamped⟩ := Core.Hop.relay_stamps p hops sent
  have hpushed : fs.Sublist r.edge.pushed := by
    obtain ⟨all, hall, rfl⟩ := List.sublist_map_iff.mp (hsent.trans (delivered_sublist htransport))
    refine hfs.trans ?_
    have hfronts : ((all.map WireFrame.bytes).filter Core.Hop.valid).map Core.Hop.front = all := by
      rw [List.filter_eq_self.mpr, List.map_map]
      · refine (List.map_congr_left fun f hf => ?_).trans (List.map_id all)
        exact (Core.Hop.valid_bytes (EdgeRun.verify_pushed (hall.subset hf))).2
      · intro d hd
        obtain ⟨f, hf, rfl⟩ := List.mem_map.mp hd
        exact (Core.Hop.valid_bytes (EdgeRun.verify_pushed (hall.subset hf))).1
    rwa [hfronts]
  rw [hrelay] at harrived
  obtain ⟨gs', hgs', rfl⟩ := List.sublist_map_iff.mp harrived
  obtain ⟨fs', hfs', hstamped'⟩ := forall₂_part hstamped hgs'
  exact ⟨fs', gs', hfs'.trans hpushed, rfl, fun g hg => hgs g (hgs'.subset hg), hstamped'⟩

/-- What a capture behind the chain has of them. -/
theorem arrived_edge {mode : Core.Mode} {turns : List Core.Ready}
    (harrived : (Core.arrivals mode turns).datagrams.Sublist (Core.Hop.relay (p :: hops) sent))
    (hconnections : (Core.arrivals mode turns).connections = []) : ∃ fs : List WireFrame, fs.Sublist r.edge.pushed ∧
      List.Forall₂ (Stamped (hops.length + 1) ((p :: hops).getLast (List.cons_ne_nil p hops)).finalHop) fs
        (Core.arrivedFrames mode turns) := by
  obtain ⟨fs, gs, hfs, hgs, hverify, hstamped⟩ := relay_edge htransport hsent p hops harrived
  have hgood : ∀ d ∈ (Core.arrivals mode turns).datagrams,
      d.length = Core.wireFrameSize ∧ verifyFrame (.ofBytes d) = true := by
    rw [hgs]
    intro d hd
    obtain ⟨g, hg, rfl⟩ := List.mem_map.mp hd
    rw [WireFrame.ofBytes_bytes]
    exact ⟨WireFrame.length_bytes g, hverify g hg⟩
  have hframes : Core.arrivedFrames mode turns = gs := by
    rw [Core.arrivedFrames_of_datagrams hconnections hgood, hgs, List.map_map]
    exact (List.map_congr_left fun g _ => WireFrame.ofBytes_bytes g).trans (List.map_id gs)
  rw [hframes]
  exact ⟨fs, hfs, hstamped⟩

end Arrived

/-- What the options come to for frames of an edge behind `k` hops. -/
theorem meets_stamped {cfg : Core.Config} {k : Nat} {final : Bool} {fs cs : List WireFrame}
    (h : List.Forall₂ (Stamped k final) fs cs) (hpacked : ∀ f ∈ fs, Core.Edge.Packed cfg f)
    (hup : (fs.map (·.seq.toNat)).Pairwise (· < ·)) (opts : Core.InspectOptions) :
    let lost := (missed (cs.map (·.seq.toNat))).card
    Meets opts cs ↔
      ((0 ≤ opts.expectGapsMin → opts.expectGapsMin.toInt ≤ lost) ∧
        (0 ≤ opts.expectGapsMax → lost ≤ opts.expectGapsMax.toInt)) ∧
      (0 ≤ opts.expectHopIdx → cs ≠ [] ∧ opts.expectHopIdx.toInt = (min k 15 : Nat)) ∧
      opts.lastHopUnmet (UInt64.ofNat (if final then cs.length else 0)) (UInt64.ofNat cs.length) = none ∧
      (0 ≤ opts.expectFramesMin → opts.expectFramesMin.toInt ≤ cs.length) ∧
      opts.expectRaws <+: cs.map (·.rawValue) := by
  intro lost
  have hreadings := Stamped.readings h
  have hnode := Core.nodeId_of_readings hreadings.symm fun f hf => (hpacked f hf).nodeId
  have hsame : fs.map (·.seq.toNat) = cs.map (·.seq.toNat) := Core.map_readings hreadings (·.2.1.toNat)
  have hgaps := gapsOf_increasing hnode (hsame ▸ hup)
  have hreserved := reserved_of_stamped h fun f hf => (hpacked f hf).reserved
  have hlast := countP_of_stamped h
  have hmin : opts.expectGapsMin ≤ (gapsOf cs).toInt64 ↔ opts.expectGapsMin.toInt ≤ lost := by
    rw [Int64.le_iff_toInt_le, hgaps]
  have hmax : (gapsOf cs).toInt64 ≤ opts.expectGapsMax ↔ lost ≤ opts.expectGapsMax.toInt := by
    rw [Int64.le_iff_toInt_le, hgaps]
  have hindex : (cs ≠ [] ∧ ∀ c ∈ cs, ((min c.reserved.toNat 15 : Nat) : Int) = opts.expectHopIdx.toInt) ↔
      cs ≠ [] ∧ opts.expectHopIdx.toInt = (min k 15 : Nat) := by
    refine and_congr_right fun hne => ⟨fun hall => ?_, fun heq c hc => by rw [hreserved c hc, heq]⟩
    obtain ⟨c, hc⟩ := List.exists_mem_of_ne_nil cs hne
    rw [← hall c hc, hreserved c hc]
  constructor
  · intro h
    refine ⟨⟨fun h0 => hmin.mp (h.gapsMin h0), fun h0 => hmax.mp (h.gapsMax h0)⟩, fun h0 => hindex.mp (h.hopIdx h0), ?_,
      h.framesMin, h.raws⟩
    rw [← hlast]
    exact h.lastHop
  · rintro ⟨⟨hgapsMin, hgapsMax⟩, hhopIdx, hlastHop, hframesMin, hraws⟩
    rw [← hlast] at hlastHop
    exact
      { gapsMin := fun h0 => hmin.mpr (hgapsMin h0)
        gapsMax := fun h0 => hmax.mpr (hgapsMax h0)
        hopIdx := fun h0 => hindex.mpr (hhopIdx h0)
        lastHop := hlastHop
        framesMin := hframesMin
        raws := hraws }

/-- **What the soak tests of the hops find out.** The samples of an edge go through a chain of hops to a capture; some
are lost on the way, on purpose or not. With any expectations `zcmesh_inspect` ends well if and only if these hold of
what has arrived: the gaps are the samples missing between the first and the last one, the hop index is the length of
the chain, and the frames have `LAST_HOP` as the last hop has `--final`. -/
theorem hop_soak (r : EdgeRun) (htransport : r.cfg.transport ≠ .tcp) (hfew : r.ticks.length ≤ 2 ^ 32)
    {sent : List (List UInt8)} (hsent : sent.Sublist (delivered r.edge.link.udp.sent)) (p : Core.Hop)
    (hops : List Core.Hop) (mode : Core.Mode) (outPath : String) (turns : List Core.Ready) {mem : Core.Memory}
    (hmem : mem.allocates (4 * (Core.arrivals mode turns).frames.length) = true) (opts : Core.InspectOptions) :
    let cs := Core.arrivedFrames mode turns
    let final := ((p :: hops).getLast (List.cons_ne_nil p hops)).finalHop
    let lost := (missed (cs.map (·.seq.toNat))).card
    (Core.arrivals mode turns).datagrams.Sublist (Core.Hop.relay (p :: hops) sent) →
      (Core.arrivals mode turns).connections = [] →
        ((Core.inspect mem opts (Core.captureMain { mode, outPath } turns).file).ending = .exit 0 "" ↔
          ((0 ≤ opts.expectGapsMin → opts.expectGapsMin.toInt ≤ lost) ∧
            (0 ≤ opts.expectGapsMax → lost ≤ opts.expectGapsMax.toInt)) ∧
          (0 ≤ opts.expectHopIdx → cs ≠ [] ∧ opts.expectHopIdx.toInt = (min (hops.length + 1) 15 : Nat)) ∧
          opts.lastHopUnmet (UInt64.ofNat (if final then cs.length else 0)) (UInt64.ofNat cs.length) = none ∧
          (0 ≤ opts.expectFramesMin → opts.expectFramesMin.toInt ≤ cs.length) ∧
          opts.expectRaws <+: cs.map (·.rawValue)) := by
  intro cs final lost harrived hconnections
  obtain ⟨fs, hfs, hstamped⟩ := arrived_edge htransport hsent p hops harrived hconnections
  obtain ⟨hzcm, hv⟩ := Core.captureMain_zcmFile mode outPath turns
  have hlen : cs.length = (Core.arrivals mode turns).frames.length := List.length_map _
  rw [← hlen] at hmem
  -- the seqs and the ids are those of the frames pushed
  have hpacked : ∀ f ∈ fs, Core.Edge.Packed r.cfg f := fun f hf => EdgeRun.packed (hfs.subset hf)
  obtain ⟨_, _, _, _, hup⟩ := Core.Edge.numbered_run r.cfg r.connects r.sends r.outcomes r.clock r.ticks hfew
  rw [hzcm, Core.inspect_iff hv hmem]
  exact meets_stamped hstamped hpacked (hup.sublist (hfs.map _)) opts

/-- One sample through two hops, the second one final. -/
theorem hop_soak_serial :
    let r : EdgeRun := ⟨.small .mesh 1, [], [], [true], fun _ => 0, [{ raw := some 5 }]⟩
    let hop (final : Bool) : Core.Hop :=
      { forward := ⟨"127.0.0.1", 9940⟩, lossPct := 0, finalHop := final, out := ⟨[true], []⟩ }
    let arrived := Core.Hop.relay [hop false, hop true] (delivered r.edge.link.udp.sent)
    let turns : List Core.Ready := arrived.map fun d => { datagram := some (.bytes d) }
    let opts : Core.InspectOptions :=
      { expectGapsMax := 0, expectHopIdx := 2
        lastHopUnmet := fun last ok => if last = ok then none else some "expect-last-hop-min-pct" }
    (Core.inspect ⟨fun n => decide (n < 2 ^ 63), by simp⟩ opts (Core.captureMain { mode := .udp } turns).file).ending =
      .exit 0 "" := by
  intro r hop arrived turns opts
  have hone : (Core.arrivals .udp turns).datagrams = arrived ∧ (Core.arrivals .udp turns).connections = [] := by
    decide +kernel
  have hmem : Core.Memory.allocates ⟨fun n => decide (n < 2 ^ 63), by simp⟩
      (4 * (Core.arrivals .udp turns).frames.length) = true := by decide +kernel
  refine (hop_soak r (by decide) (by decide) (List.Sublist.refl _) (hop false) [hop true] .udp "" turns hmem opts
    (hone.1 ▸ List.Sublist.refl _) hone.2).mpr ?_
  decide +kernel

end ZcMesh
