import ZcMesh.Stream.DualPath

/-!
# The order of the keys

`select` hands out the ready keys in any order. Two receivers that get the same bytes on each path are offered two
merges of the same streams, so as long as every node keeps to one path the order does not show (`order_irrelevant`).
-/

namespace ZcMesh.Operator.FrameReceiver

open Runs (run)

variable {p₀ : TelemetryPipeline} {s : FrameReceiver} {log : List (Path × List UInt8)} {lost : Nat}

/-- The accepted frames of a log, as the edges packed them. -/
def verified (log : List (Path × List UInt8)) : List Core.WireFrame :=
  ((log.map (·.2)).map Core.WireFrame.ofBytes).filter Core.verifyFrame

theorem accepted_log (log : List (Path × List UInt8)) :
    accepted (log.map fun e => frameOf e.2) = (verified log).map view := by
  rw [accepted, verified, List.map_map, List.filter_map, List.filter_map, List.map_map]
  rfl

theorem verifyFrame_of_mem {c : Core.WireFrame} (h : c ∈ verified log) : Core.verifyFrame c = true :=
  (List.mem_filter.mp h).2

/-- Every node keeps to one path. -/
def OnePath (s : FrameReceiver) : Prop :=
  ∀ nodeId, ∃ path, ∀ e ∈ s.offered, e.2.crcOk = true → e.2.nodeId = nodeId → e.1 = path

/-- Every node keeps to one path, in a log. -/
def KeepsPaths (log : List (Path × List UInt8)) : Prop :=
  ∀ nodeId, ∃ path, ∀ e ∈ log, (frameOf e.2).crcOk = true → (frameOf e.2).nodeId = nodeId → e.1 = path

theorem Received.keepsPaths (h : Received p₀ s log lost) (hone : OnePath s) : KeepsPaths log := by
  intro nodeId
  obtain ⟨path, hpath⟩ := hone nodeId
  refine ⟨path, fun e he => hpath (e.1, frameOf e.2) ?_⟩
  rw [h.offered]
  exact List.mem_map_of_mem he

section Same

variable {log' : List (Path × List UInt8)} (hstreams : ∀ path, Merge.stream path log = Merge.stream path log')
  (hone : KeepsPaths log)
include hstreams hone

/-- Logs with the same streams have the good frames of a node in the same order. -/
theorem KeepsPaths.sameOrder (nodeId : Int32) {p : List UInt8 → Bool}
    (hp : ∀ w, p w = true → (frameOf w).crcOk = true ∧ (frameOf w).nodeId = nodeId) :
    (log.map (·.2)).filter p = (log'.map (·.2)).filter p := by
  obtain ⟨path, hpath⟩ := hone nodeId
  exact Merge.filter_of_stream hstreams fun e he hsel => hpath e he (hp _ hsel).1 (hp _ hsel).2

theorem KeepsPaths.sameNodes : Core.SameNodes (verified log) (verified log') := by
  intro node
  have hselect : ∀ l : List (Path × List UInt8), (verified l).filter (·.nodeId = node) =
      ((l.map (·.2)).filter fun w => Core.verifyFrame (.ofBytes w) && (Core.WireFrame.ofBytes w).nodeId = node).map
        .ofBytes := by
    intro l
    rw [verified, List.filter_map, List.filter_map, List.filter_filter]
    congr 1
    apply List.filter_congr
    intro w _
    exact Bool.and_comm _ _
  rw [hselect, hselect, hone.sameOrder hstreams (shortToUnsignedInt node.toInt16)]
  intro w hw
  simp only [Bool.and_eq_true, decide_eq_true_eq] at hw
  exact ⟨hw.1, congrArg (fun id => shortToUnsignedInt (UInt16.toInt16 id)) hw.2⟩

theorem KeepsPaths.sameLast (nodeId : Int32) :
    lastOf nodeId ((verified log).map view) = lastOf nodeId ((verified log').map view) := by
  have hselect : ∀ l : List (Path × List UInt8), ((verified l).map view).filter (·.nodeId = nodeId) =
      ((l.map (·.2)).filter fun w => (frameOf w).crcOk && (frameOf w).nodeId = nodeId).map frameOf := by
    intro l
    rw [verified, List.filter_map, List.filter_map, List.filter_map, List.map_map, List.filter_filter]
    congr 2
    funext w
    exact Bool.and_comm _ _
  rw [lastOf, lastOf, hselect, hselect, hone.sameOrder hstreams nodeId]
  intro w hw
  simpa using hw

end Same

/-- Receivers that got the same bytes have logs with the same streams. -/
theorem Received.sameStreams {q₀ : TelemetryPipeline} {t : FrameReceiver} {log' : List (Path × List UInt8)}
    {lost' : Nat} (h : Received p₀ s log lost) (h' : Received q₀ t log' lost') (hstreams : s.streams = t.streams)
    (hdatagrams : s.datagrams = t.datagrams) (path : Path) : Merge.stream path log = Merge.stream path log' := by
  cases path with
  | tcp i => rw [h.tcp, h'.tcp, hstreams]
  | udp => rw [h.udp, h'.udp, hdatagrams]

/-- What the pipeline of a receiver shows, from its accepted frames. -/
theorem Received.statistics (h : Received p₀ s log lost) :
    s.pipeline.statistics = (run TelemetryPipeline.offer p₀ ((verified log).map view)).statistics := by
  rw [h.told.statistics, statistics_accepted, ← accepted_log, List.map_map]
  rfl

/-- With what is not reported, the bytes skipped are those that the scans pass. -/
theorem Received.resync (h : Received p₀ s log lost) :
    s.pipeline.tcpResync.toUInt64 + UInt64.ofNat s.unreported =
      p₀.tcpResync.toUInt64 + UInt64.ofNat (tally (·.skipped) s.streams) := by
  rw [h.told.resync, ← h.lost_eq, UInt64.add_assoc, ← UInt64.ofNat_add, Nat.sub_add_cancel h.lost_le]

/-- **The order in which the selector hands out the keys does not show**, when every node keeps to one path: with the
same bytes on each path, two receivers report the same counters, and the same latest state of each node but for its
time. The bytes skipped differ by those not reported. -/
theorem order_irrelevant {m n : Nat} {times times' : Nat → Int64} {p₀ q₀ : TelemetryPipeline}
    (hp : TelemetryPipeline.make m times = .ok p₀) (hq : TelemetryPipeline.make n times' = .ok q₀) (tcp tcp' : Bool)
    (keys keys' : List ReadyKey) :
    let s := run FrameReceiver.handle (.start p₀ tcp) keys
    let t := run FrameReceiver.handle (.start q₀ tcp') keys'
    s.streams = t.streams → s.datagrams = t.datagrams → OnePath s →
      SameCounters s.pipeline t.pipeline ∧ s.pipeline.bytesIn = t.pipeline.bytesIn ∧
        s.pipeline.framesCrcFail = t.pipeline.framesCrcFail ∧
        s.pipeline.tcpResync.toUInt64 + UInt64.ofNat s.unreported =
          t.pipeline.tcpResync.toUInt64 + UInt64.ofNat t.unreported ∧
        ∀ nodeId, ∃ f now now', s.pipeline.latestNode nodeId = Option.map (NodeState.ofFrame · now) f ∧
          t.pipeline.latestNode nodeId = f.map (NodeState.ofFrame · now') := by
  intro s t hstreams hdatagrams hone
  obtain ⟨_, log, lost, h⟩ := received_run p₀ tcp keys
  obtain ⟨_, log', lost', h'⟩ := received_run q₀ tcp' keys'
  have hs := h.statistics
  have ht := h'.statistics
  have hsame := h.sameStreams h' hstreams hdatagrams
  have hkeeps := h.keepsPaths hone
  have hreport := (hkeeps.sameNodes hsame).sameReport
  have hv : ∀ {l : List (Path × List UInt8)}, ∀ c ∈ verified l, Core.verifyFrame c = true :=
    fun _ => verifyFrame_of_mem
  have hcounters := SameCounters.of_sim (sim_run (sim_make hp) _ hv) (sim_run (sim_make hq) _ hv) hreport
  have hperm := Merge.perm_of_stream hsame
  refine ⟨?_, ?_, ?_, ?_, ?_⟩
  · exact (sameCounters_of_statistics hs).trans (hcounters.trans (sameCounters_of_statistics ht).symm)
  · apply long_inj.mp
    rw [h.told.bytesIn, h'.told.bytesIn, (make_reports hp).1, (make_reports hq).1, List.length_map,
      List.length_map, hperm.length_eq]
  · apply long_inj.mp
    rw [h.told.crcFail, h'.told.crcFail, (make_reports hp).2.1, (make_reports hq).2.1, hstreams,
      (hperm.map _).countP_eq]
  · rw [h.resync, h'.resync, (make_reports hp).2.2, (make_reports hq).2.2, hstreams]
  · intro nodeId
    obtain ⟨now, hnow⟩ := latestNode_run hp hv nodeId
    obtain ⟨now', hnow'⟩ := latestNode_run hq hv nodeId
    rw [← hkeeps.sameLast hsame nodeId] at hnow'
    exact ⟨_, now, now', (congrArg (·.latestNode nodeId) hs).trans hnow,
      (congrArg (·.latestNode nodeId) ht).trans hnow'⟩

/-- Whatever came in, a receiver that has read no byte from a connection offers datagrams only. -/
theorem Received.onePath (h : Received p₀ s log lost) (hempty : ∀ bytes ∈ s.streams, bytes = []) : OnePath s := by
  refine fun _ => ⟨.udp, ?_⟩
  intro e he _ _
  rw [h.offered] at he
  obtain ⟨⟨path, w⟩, hw, rfl⟩ := List.mem_map.mp he
  cases path with
  | udp => rfl
  | tcp i =>
    have hmem := Merge.mem_stream.mpr hw
    have hnone : s.streams.getD i [] = [] := by
      rw [List.getD_eq_getElem?_getD]
      cases hi : s.streams[i]? with
      | none => rfl
      | some bytes => exact hempty bytes (List.mem_of_getElem? hi)
    rw [h.tcp, hnone, scan_nil] at hmem
    cases hmem

theorem handle_datagram (hrun : s.threw = none) (d : List UInt8) :
    s.handle (.udp (.ok (some d))) = s.readUdp (.ok (some d)) := by
  simp [FrameReceiver.handle, hrun]

/-- A datagram does nothing to the connections. -/
theorem readUdp_conns (s : FrameReceiver) (d : List UInt8) :
    (s.readUdp (.ok (some d))).conns = s.conns ∧ (s.readUdp (.ok (some d))).tcpEnabled = s.tcpEnabled ∧
      (s.readUdp (.ok (some d))).datagrams = s.datagrams ++ [d] := ⟨rfl, rfl, rfl⟩

/-- A datagram and a new connection, in both orders. -/
theorem order_irrelevant_two :
    ∃ p₀, TelemetryPipeline.make 2 (fun _ => 0) = .ok p₀ ∧
      let client := ReadyKey.server (.ok true)
      let golden := ReadyKey.udp (.ok (some goldenFrame))
      SameCounters (run FrameReceiver.handle (.start p₀ true) [client, golden]).pipeline
        (run FrameReceiver.handle (.start p₀ true) [golden, client]).pipeline := by
  obtain ⟨p₀, hmake⟩ : ∃ p₀, TelemetryPipeline.make 2 (fun _ => 0) = .ok p₀ := ⟨_, rfl⟩
  refine ⟨p₀, hmake, ?_⟩
  intro client golden
  obtain ⟨_, _, _, h⟩ := received_run p₀ true [client, golden]
  obtain ⟨hthrew, -⟩ := (Received.start p₀ true).datagram goldenFrame
  have hfirst : (run FrameReceiver.handle (.start p₀ true) [client, golden]).streams = [[]] ∧
      (run FrameReceiver.handle (.start p₀ true) [client, golden]).datagrams = [goldenFrame] := by
    simp only [Runs.run_cons, Runs.run_nil, client, golden]
    rw [handle_client rfl rfl, handle_datagram rfl]
    exact ⟨rfl, rfl⟩
  have hlast : (run FrameReceiver.handle (.start p₀ true) [golden, client]).streams = [[]] ∧
      (run FrameReceiver.handle (.start p₀ true) [golden, client]).datagrams = [goldenFrame] := by
    obtain ⟨hconns, hon, hdatagrams⟩ := readUdp_conns (.start p₀ true) goldenFrame
    rw [Runs.run_cons, Runs.run_cons, Runs.run_nil, handle_datagram rfl, handle_client hthrew hon, streams, hconns]
    exact ⟨rfl, hdatagrams⟩
  have hempty : ∀ bytes ∈ (run FrameReceiver.handle (.start p₀ true) [client, golden]).streams, bytes = [] := by
    rw [hfirst.1]
    exact fun bytes hbytes => List.mem_singleton.mp hbytes
  exact (order_irrelevant hmake hmake true true [client, golden] [golden, client] (hfirst.1.trans hlast.1.symm)
    (hfirst.2.trans hlast.2.symm) (h.onePath hempty)).1

end ZcMesh.Operator.FrameReceiver
