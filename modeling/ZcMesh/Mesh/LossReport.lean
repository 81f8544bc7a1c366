import ZcMesh.Mesh.Network
import ZcMesh.Stats.Loss

/-!
# The loss that the operator reports

When the datagrams of each edge arrive in the order in which it sent them, with any losses and interleaved with those of
the others in any way (`ArrivesInOrder`), the seqs of each node only go up. Then the operator sees no duplicate, and its
gaps are the samples that did not arrive between the first and the last one of each node that did (`gaps_exact`).
-/

namespace ZcMesh

open Core (EdgeRun WireFrame wireFrameSize verifyFrame delivered walkOf nodesOf seqsOf)
open Operator (FrameReceiver TelemetryPipeline Path)
open Operator.FrameReceiver (Received received_run)
open Runs (run)
open Walk (holes stalls missed)

/-- The datagrams of each edge arrive in order, and nothing arrives on a connection. -/
structure ArrivesInOrder (runs : List EdgeRun) (s : FrameReceiver) : Prop where
  streams : ∀ bytes ∈ s.streams, bytes = []
  datagrams : ∃ log : List (Nat × List UInt8),
    (∀ e ∈ log, e.1 < runs.length) ∧
    (∀ i r, runs[i]? = some r → (Merge.stream i log).Sublist (delivered r.edge.link.udp.sent)) ∧
    List.Forall₂ Arrives (log.map (·.2)) s.datagrams

/-- The frames received. -/
def received (s : FrameReceiver) : List WireFrame := s.datagrams.map .ofBytes

/-- The datagrams that went out carry frames in the order in which they were pushed. -/
theorem delivered_sublist {r : EdgeRun} (htransport : r.cfg.transport ≠ .tcp) :
    (delivered r.edge.link.udp.sent).Sublist (r.edge.pushed.map WireFrame.bytes) := by
  obtain ⟨log, h⟩ := r.carried htransport
  refine h.udp.part.trans (List.Sublist.map _ ?_)
  rw [← h.pushed]
  exact (List.filter_sublist.map _).trans (List.sublist_append_left _ _)

/-- Whatever of them arrives in order has seqs that go up. -/
theorem numbers_increasing {r : EdgeRun} (htransport : r.cfg.transport ≠ .tcp) (hfew : r.ticks.length ≤ 2 ^ 32)
    {sent : List (List UInt8)} (hsub : sent.Sublist (delivered r.edge.link.udp.sent)) :
    (sent.map fun w => (WireFrame.ofBytes w).seq.toNat).Pairwise (· < ·) := by
  have hpushed := (hsub.trans (delivered_sublist htransport)).map fun w => (WireFrame.ofBytes w).seq.toNat
  simp only [List.map_map, Function.comp_def, WireFrame.ofBytes_bytes] at hpushed
  obtain ⟨_, _, _, _, hup⟩ := Core.Edge.numbered_run r.cfg r.connects r.sends r.outcomes r.clock r.ticks hfew
  exact hup.sublist hpushed

section ArrivesInOrder

variable {runs : List EdgeRun} {s : FrameReceiver} (hruns : ∀ r ∈ runs, r.cfg.transport ≠ .tcp)
  (hnet : ArrivesInOrder runs s)
include hruns hnet

/-- **The seqs of each node go up.** -/
theorem ArrivesInOrder.increasing (hids : (runs.map (·.cfg.nodeId)).Nodup)
    (hfew : ∀ r ∈ runs, r.ticks.length ≤ 2 ^ 32) :
    (∀ d ∈ s.datagrams, d.length = wireFrameSize ∧ verifyFrame (.ofBytes d) = true) ∧
      ∀ node, (walkOf node (received s)).Pairwise (· < ·) := by
  obtain ⟨log, hlog, hsub, harrives⟩ := hnet.datagrams
  have hdelivered : ∀ i data, (i, data) ∈ log → ∃ r, runs[i]? = some r ∧ ∃ f ∈ r.edge.pushed, data = f.bytes := by
    intro i data hmem
    have hi := hlog _ hmem
    refine ⟨runs[i], List.getElem?_eq_getElem hi, ?_⟩
    have hsent := (hsub i _ (List.getElem?_eq_getElem hi)).subset (Merge.mem_stream.mpr hmem)
    exact EdgeRun.mem_delivered (hruns _ (List.getElem_mem hi)) hsent
  obtain ⟨hgood, hsame⟩ := forall₂_arrives harrives fun data hdata => by
    obtain ⟨⟨i, data⟩, hmem, rfl⟩ := List.mem_map.mp hdata
    obtain ⟨r, _, f, hf, rfl⟩ := hdelivered i data hmem
    exact ⟨f, EdgeRun.verify_pushed hf, rfl⟩
  refine ⟨hgood, ?_⟩
  intro node
  -- the walk of a node, from what was sent
  have hwalk : walkOf node (received s) =
      ((log.map (·.2)).filter fun w => (WireFrame.ofBytes w).nodeId = node).map
        fun w => (WireFrame.ofBytes w).seq.toNat := by
    have hreadings := congrArg (fun l : List (UInt16 × UInt32 × UInt32 × UInt8 × Int32) =>
      (l.filter (·.1 = node)).map (·.2.1.toNat)) hsame
    simp only [walkOf, seqsOf, received, List.filter_map, List.map_map] at hreadings ⊢
    exact hreadings
  have hpacked : ∀ r : EdgeRun, ∀ f ∈ r.edge.pushed, f.nodeId = r.cfg.nodeId := fun _ _ hf =>
    (EdgeRun.packed hf).nodeId
  rw [hwalk]
  by_cases hnode : ∃ r ∈ runs, r.cfg.nodeId = node
  · obtain ⟨r, hr, hid⟩ := hnode
    obtain ⟨i, hi, rfl⟩ := List.getElem_of_mem hr
    have honly : ∀ e ∈ log, decide ((WireFrame.ofBytes e.2).nodeId = node) = true → e.1 = i := by
      rintro ⟨j, data⟩ hmem hsel
      obtain ⟨r', hr', f, hf, rfl⟩ := hdelivered j data hmem
      obtain ⟨hj, rfl⟩ := List.getElem?_eq_some_iff.mp hr'
      rw [WireFrame.ofBytes_bytes, decide_eq_true_eq, hpacked _ f hf, ← hid] at hsel
      have hinj := List.nodup_iff_injective_get.mp hids
      have hfin : (⟨j, by simpa using hj⟩ : Fin (runs.map (·.cfg.nodeId)).length) = ⟨i, by simpa using hi⟩ := by
        apply hinj
        simpa using hsel
      exact congrArg Fin.val hfin
    rw [Merge.filter_stream honly]
    exact numbers_increasing (hruns _ hr) (hfew _ hr)
      (List.filter_sublist.trans (hsub i _ (List.getElem?_eq_getElem hi)))
  · have hnone : (log.map (·.2)).filter (fun w => (WireFrame.ofBytes w).nodeId = node) = [] := by
      rw [List.filter_eq_nil_iff]
      intro w hw hsel
      obtain ⟨⟨j, data⟩, hmem, rfl⟩ := List.mem_map.mp hw
      obtain ⟨r', hr', f, hf, rfl⟩ := hdelivered j data hmem
      rw [WireFrame.ofBytes_bytes, decide_eq_true_eq, hpacked _ f hf] at hsel
      exact hnode ⟨r', List.mem_of_getElem? hr', hsel⟩
    rw [hnone]
    exact .nil

end ArrivesInOrder

/-- Without bytes on the connections, what is offered are the datagrams. -/
theorem verified_datagrams {p₀ : TelemetryPipeline} {s : FrameReceiver} {log : List (Path × List UInt8)} {lost : Nat}
    (h : Received p₀ s log lost) (hstreams : ∀ bytes ∈ s.streams, bytes = [])
    (hgood : ∀ d ∈ s.datagrams, d.length = wireFrameSize ∧ verifyFrame (.ofBytes d) = true) :
    Operator.FrameReceiver.verified log = received s := by
  have hblocks : s.datagrams.flatMap (fun d => Blocks.cut 24 (d.take 65536)) = s.datagrams := by
    conv_rhs => rw [← List.flatMap_singleton' s.datagrams]
    apply List.flatMap_congr
    intro d hd
    have hlen : d.length = 24 := (hgood d hd).1
    rw [List.take_of_length_le (by omega), Blocks.cut_self (by decide) hlen]
  have hudp : ∀ e ∈ log, e.1 = Path.udp := by
    rintro ⟨path, w⟩ he
    cases path with
    | udp => rfl
    | tcp i =>
      have hmem := Merge.mem_stream.mpr he
      have hnone : s.streams.getD i [] = [] := by
        rw [List.getD_eq_getElem?_getD]
        cases hi : s.streams[i]? with
        | none => rfl
        | some bytes => exact hstreams bytes (List.mem_of_getElem? hi)
      rw [h.tcp, hnone, Operator.FrameReceiver.scan_nil] at hmem
      cases hmem
  have hall : log.map (·.2) = s.datagrams := by
    have hfilter := Merge.filter_stream (p := fun _ => true) fun e he _ => hudp e he
    rw [List.filter_true, List.filter_true, h.udp, hblocks] at hfilter
    exact hfilter
  rw [Operator.FrameReceiver.verified, hall, received, List.filter_eq_self]
  intro f hf
  obtain ⟨d, hd, rfl⟩ := List.mem_map.mp hf
  exact (hgood d hd).2

/-- **The operator's gaps are the samples lost on the way, and nothing is taken for a duplicate**, when the datagrams of
each edge arrive in order: between the first and the last frame of each node, the seqs that did not arrive. -/
theorem gaps_exact {n : Nat} {nanoTimes : Nat → Int64} {p₀ : TelemetryPipeline}
    (hmake : TelemetryPipeline.make n nanoTimes = .ok p₀) {runs : List EdgeRun}
    (hruns : ∀ r ∈ runs, r.cfg.transport ≠ .tcp) (hids : (runs.map (·.cfg.nodeId)).Nodup)
    (hfew : ∀ r ∈ runs, r.ticks.length ≤ 2 ^ 32) (tcpEnabled : Bool) (keys : List Operator.ReadyKey) :
    let s := run FrameReceiver.handle (.start p₀ tcpEnabled) keys
    ArrivesInOrder runs s →
      s.pipeline.framesOk.toUInt64 = UInt64.ofNat (received s).length ∧ s.pipeline.seqDups = 0 ∧
      s.pipeline.seqGaps.toUInt64 =
        ∑ node ∈ nodesOf (received s), UInt64.ofNat (missed (walkOf node (received s))).card := by
  intro s hnet
  obtain ⟨_, log, lost, h⟩ := received_run p₀ tcpEnabled keys
  obtain ⟨hgood, hup⟩ := hnet.increasing hruns hids hfew
  have hv : ∀ f ∈ received s, verifyFrame f = true := by
    intro f hf
    obtain ⟨d, hd, rfl⟩ := List.mem_map.mp hf
    exact (hgood d hd).2
  have hstat := h.statistics
  rw [verified_datagrams h hnet.streams hgood] at hstat
  have hsim := sim_run (sim_make hmake) (received s) hv
  obtain ⟨hgaps, hdups⟩ := Core.totals_walk (received s)
  refine ⟨?_, ?_, ?_⟩
  · rw [show s.pipeline.framesOk = _ from congrArg (·.framesOk) hstat]
    exact hsim.ok.trans ((Core.ZcmAnalyze.ok_run {} (received s)).trans (UInt64.zero_add _))
  · apply long_inj.mp
    rw [show s.pipeline.seqDups = _ from congrArg (·.seqDups) hstat]
    refine (hsim.seqs.dups.trans hdups).trans (Finset.sum_eq_zero fun node _ => ?_)
    rw [Walk.stalls_of_increasing (hup node)]
    rfl
  · rw [show s.pipeline.seqGaps = _ from congrArg (·.seqGaps) hstat]
    refine (hsim.seqs.gaps.trans hgaps).trans (Finset.sum_congr rfl fun node _ => ?_)
    rw [Walk.card_missed_of_increasing (hup node)]

/-- Three samples of one edge; the datagram in the middle is lost. -/
theorem gaps_exact_one :
    let r : EdgeRun :=
      ⟨.small .udp 1, [], [], [true, true, true], fun _ => 0, [{ raw := some 5 }, { raw := some 6 }, { raw := some 7 }]⟩
    let frame (seq : UInt32) (raw : Int32) : WireFrame :=
      Core.packFrameInto ⟨seq, 0, 1, Core.sensorVoltage, Core.flagLastHop, 0, raw⟩
    ∃ p₀, TelemetryPipeline.make 2 (fun _ => 0) = .ok p₀ ∧
      delivered r.edge.link.udp.sent = [(frame 0 5).bytes, (frame 1 6).bytes, (frame 2 7).bytes] ∧
      (run FrameReceiver.handle (.start p₀ false)
        [.udp (.ok (some (frame 0 5).bytes)), .udp (.ok (some (frame 2 7).bytes))]).pipeline.seqGaps = 1 := by
  intro r frame
  obtain ⟨p₀, hmake⟩ : ∃ p₀, TelemetryPipeline.make 2 (fun _ => 0) = .ok p₀ := ⟨_, rfl⟩
  have hsent : delivered r.edge.link.udp.sent = [(frame 0 5).bytes, (frame 1 6).bytes, (frame 2 7).bytes] := by
    decide +kernel
  refine ⟨p₀, hmake, hsent, ?_⟩
  generalize hkeys : [Operator.ReadyKey.udp (.ok (some (frame 0 5).bytes)), .udp (.ok (some (frame 2 7).bytes))] = keys
  have hfirst := ((Received.start p₀ false).datagram (frame 0 5).bytes).1
  have hs : (run FrameReceiver.handle (.start p₀ false) keys).streams = [] ∧
      (run FrameReceiver.handle (.start p₀ false) keys).datagrams = [(frame 0 5).bytes, (frame 2 7).bytes] := by
    rw [← hkeys, Runs.run_cons, Runs.run_cons, Runs.run_nil,
      Operator.FrameReceiver.handle_datagram (s := .start p₀ false) rfl, Operator.FrameReceiver.handle_datagram hfirst]
    exact ⟨rfl, rfl⟩
  have hnet : ArrivesInOrder [r] (run FrameReceiver.handle (.start p₀ false) keys) := by
    refine ⟨by rw [hs.1]; nofun, [(0, (frame 0 5).bytes), (0, (frame 2 7).bytes)], by simp, ?_, ?_⟩
    · intro i r' hr'
      obtain ⟨hi, rfl⟩ := List.getElem?_eq_some_iff.mp hr'
      obtain rfl : i = 0 := by simpa using hi
      rw [List.getElem_cons_zero, hsent]
      exact (List.Sublist.refl _).cons _ |>.cons_cons _
    · rw [hs.2]
      exact .cons ⟨[], rfl⟩ (.cons ⟨[], rfl⟩ .nil)
  have hruns : ∀ r' ∈ [r], r'.cfg.transport ≠ .tcp := by
    intro r' hr'
    rw [List.mem_singleton.mp hr']
    decide
  have hfew : ∀ r' ∈ [r], r'.ticks.length ≤ 2 ^ 32 := by
    intro r' hr'
    rw [List.mem_singleton.mp hr']
    decide
  obtain ⟨_, _, hgaps⟩ := gaps_exact hmake hruns (List.nodup_singleton _) hfew false keys hnet
  have hreceived : received (run FrameReceiver.handle (.start p₀ false) keys) = [frame 0 5, frame 2 7] := by
    simp [received, hs.2, WireFrame.ofBytes_bytes]
  rw [hreceived] at hgaps
  exact long_inj.mp (hgaps.trans (by decide +kernel))

end ZcMesh
