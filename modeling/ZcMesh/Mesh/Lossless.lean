import ZcMesh.Edge.Served
import ZcMesh.Mesh.Network

/-!
# Delivery without loss

The counterpart of `end_to_end`. When no call of `send_to` fails, some hop is left, and the network brings what was
sent, in any order (`Lossless`), every sample pushed waits in the batch of its edge or is offered, once, as it was
(`exactly_once`): what the paths and the batches carry is then all that was pushed (`carried_perm`), so a part of it of
the same length is all of it.
-/

namespace ZcMesh

open Blocks (cut)
open Runs (run)
open Core (EdgeRun WireFrame wireFrameSize verifyFrame delivered Spared)
open Operator (FrameReceiver TelemetryPipeline)
open Operator.FrameReceiver (received_run)

/-- The network has brought all that was sent: the connections, and the datagrams in any order. -/
structure Lossless (runs : List EdgeRun) (s : FrameReceiver) : Prop where
  streams : s.streams.Perm (runs.flatMap (·.edge.link.tcp.streams))
  datagrams : ∃ sent, sent.Perm (runs.flatMap fun r => delivered r.edge.link.udp.sent) ∧
    List.Forall₂ Arrives sent s.datagrams

theorem Lossless.network {runs : List EdgeRun} {s : FrameReceiver} (h : Lossless runs s) : Network runs s where
  streams := ⟨s.streams, h.streams.subperm, List.forall₂_same.mpr fun _ _ => List.prefix_rfl⟩
  datagrams := by
    obtain ⟨sent, hsent, harrives⟩ := h.datagrams
    exact ⟨sent, hsent.subperm, harrives⟩

/-- Some hop is left in the run, and no call of `send_to` has failed. -/
structure Core.EdgeRun.Unhindered (r : EdgeRun) : Prop where
  transport : r.cfg.transport ≠ .tcp
  spared : r.cfg.transport ≠ .udp → Spared r.cfg r.ticks
  sent : ∀ d ∈ r.edge.link.udp.sent, d.ok = true

/-- The paths and the batch of an edge carry all that was pushed. -/
theorem Core.EdgeRun.Unhindered.carried_perm {r : EdgeRun} (h : r.Unhindered) :
    (r.edge.link.tcp.streams.flatMap (cut wireFrameSize) ++ delivered r.edge.link.udp.sent ++
      r.edge.link.batch.frames.map WireFrame.bytes).Perm (r.edge.pushed.map WireFrame.bytes) := by
  obtain ⟨log, hlog⟩ : ∃ log, r.edge.Carried r.cfg True log :=
    Core.Edge.carried_served r.cfg h.transport r.connects r.sends r.outcomes r.clock r.ticks h.spared
  have hpushed := (EdgeRun.perm_pushed hlog).map WireFrame.bytes
  rw [List.map_append, List.map_append] at hpushed
  rw [hlog.tcp, hlog.udp.all trivial h.sent]
  exact hpushed

section Network

variable {runs : List EdgeRun} {s : FrameReceiver}

/-- How many samples were pushed. -/
theorem length_pushed (hruns : ∀ r ∈ runs, r.Unhindered) (hnet : Lossless runs s) :
    (pushed runs).length =
      (s.streams.map fun bytes => bytes.length / wireFrameSize).sum + s.datagrams.length + (waiting runs).length := by
  obtain ⟨sent, hsent, harrives⟩ := hnet.datagrams
  have hstreams := (hnet.streams.map fun bytes => bytes.length / wireFrameSize).sum_eq
  rw [← harrives.length_eq, hsent.length_eq, hstreams, pushed, waiting]
  clear hsent hstreams harrives hnet
  induction runs with
  | nil => rfl
  | cons r runs ih =>
    have hone := (hruns r List.mem_cons_self).carried_perm.length_eq
    simp only [List.length_append, List.length_map, List.length_flatMap, Blocks.length_cut] at hone
    have hrest := ih fun r' hr' => hruns r' (List.mem_cons_of_mem _ hr')
    simp only [List.flatMap_cons, List.length_append, List.map_append, List.sum_append]
    omega

end Network

/-- **Every sample is offered exactly once, as it was**, when the edges are not hindered and the network loses nothing:
the samples offered and those that still wait in a batch are those pushed. In an edge that has ended none waits. -/
theorem exactly_once {n : Nat} {nanoTimes : Nat → Int64} {p₀ : TelemetryPipeline}
    (hmake : TelemetryPipeline.make n nanoTimes = .ok p₀) {runs : List EdgeRun} (hruns : ∀ r ∈ runs, r.Unhindered)
    (tcpEnabled : Bool) (keys : List Operator.ReadyKey) :
    let s := run FrameReceiver.handle (.start p₀ tcpEnabled) keys
    Lossless runs s → ∃ arrived : List WireFrame,
      s.offered.map (·.2) = arrived.map view ∧
      (arrived.map (·.reading) ++ (waiting runs).map (·.reading)).Perm ((pushed runs).map (·.reading)) ∧
      (∀ r ∈ runs, r.edge.done = true → r.edge.link.batch.frames = []) ∧
      s.pipeline.framesOk.toUInt64 = UInt64.ofNat arrived.length ∧ s.pipeline.framesCrcFail = 0 ∧
      s.pipeline.tcpResync = 0 := by
  intro s hnet
  obtain ⟨_, log, lost, h⟩ := received_run p₀ tcpEnabled keys
  have htransport : ∀ r ∈ runs, r.cfg.transport ≠ .tcp := fun r hr => (hruns r hr).transport
  obtain ⟨hv, hpart, hlength, hrejected, hskipped⟩ := hnet.network.offered htransport h
  have hbad := h.told.nothing_bad hmake hrejected (by rw [hskipped, Nat.zero_sub]) hv
  refine ⟨(log.map (·.2)).map .ofBytes, ?_, ?_, ?_, ?_, hbad.1, hbad.2⟩
  · rw [h.offered, List.map_map, List.map_map, List.map_map]
    rfl
  · -- a part as long as the whole
    rw [List.map_map]
    refine hpart.perm_of_length_le ?_
    have hpushed := length_pushed hruns hnet
    simp only [List.length_append, List.length_map]
    omega
  · exact fun r hr => Core.Edge.ended_run r.cfg (htransport r hr) r.connects r.sends r.outcomes r.clock r.ticks
  · rw [h.framesOk hmake hv, List.length_map, List.length_map]

/-- One sample over the mesh. -/
theorem exactly_once_mesh :
    let r : EdgeRun := ⟨.small .mesh 1, [], [], [true], fun _ => 0, [{ raw := some 5 }]⟩
    ∃ p₀ d, TelemetryPipeline.make 2 (fun _ => 0) = .ok p₀ ∧ delivered r.edge.link.udp.sent = [d] ∧
      (run FrameReceiver.handle (.start p₀ false) [.udp (.ok (some d))]).pipeline.framesOk = 1 := by
  intro r
  obtain ⟨p₀, hmake⟩ : ∃ p₀, TelemetryPipeline.make 2 (fun _ => 0) = .ok p₀ := ⟨_, rfl⟩
  obtain ⟨d, hd⟩ : ∃ d, delivered r.edge.link.udp.sent = [d] :=
    ⟨[67, 90, 1, 0, 0, 0, 0, 0, 0, 0, 0, 0, 1, 0, 0, 0, 5, 0, 0, 0, 74, 252, 253, 162], by decide +kernel⟩
  refine ⟨p₀, d, hmake, hd, ?_⟩
  have hrun : r.Unhindered :=
    { transport := by decide
      spared := fun _ => ⟨by decide, by decide, by simp [r], nofun⟩
      sent := by decide +kernel }
  have hruns : ∀ r' ∈ [r], r'.Unhindered := by
    intro r' hr'
    rw [List.mem_singleton.mp hr']
    exact hrun
  have hs : (run FrameReceiver.handle (.start p₀ false) [.udp (.ok (some d))]).streams = [] ∧
      (run FrameReceiver.handle (.start p₀ false) [.udp (.ok (some d))]).datagrams = [d] := by
    rw [Runs.run_cons, Runs.run_nil, Operator.FrameReceiver.handle_datagram rfl]
    exact ⟨rfl, rfl⟩
  have hnet : Lossless [r] (run FrameReceiver.handle (.start p₀ false) [.udp (.ok (some d))]) := by
    refine ⟨?_, ⟨[d], ?_, by rw [hs.2]; exact .cons ⟨[], rfl⟩ .nil⟩⟩
    · have hnone : r.edge.link.tcp.streams = [] := by decide +kernel
      rw [hs.1, List.flatMap_singleton, hnone]
    · rw [List.flatMap_singleton, hd]
  obtain ⟨arrived, _, hperm, _, hok, _⟩ := exactly_once hmake hruns false [.udp (.ok (some d))] hnet
  have hlength := hperm.length_eq
  have hwaiting : (waiting [r]).length = 0 := by decide +kernel
  have hpushed : (pushed [r]).length = 1 := by decide +kernel
  rw [List.length_append, List.length_map, List.length_map, List.length_map, hwaiting, hpushed] at hlength
  rw [show arrived.length = 1 by omega] at hok
  exact long_inj.mp hok

end ZcMesh
