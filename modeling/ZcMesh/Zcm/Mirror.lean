import ZcMesh.Zcm.Playback

/-!
# An operator and a capture of the same traffic

The Java operator and the C++ tools `zcmesh_capture` and `zcmesh_inspect`, on the same connections and datagrams. From a
datagram the operator takes all blocks of 24 bytes, the capture only the first; up to that both logs have the same good
frames on each path (`sameStreams`). So when every node keeps to one path the operator shows what `zcmesh_inspect` says
of the file, in whatever order either of them came to its sockets: `live_eq_captured`.
-/

namespace ZcMesh

open Core (ZcmAnalyze WireFrame verifyFrame captureMain arrivals arrivedFrames inspect captureMain_spec
  captureMain_zcmFile inspect_zcmFile wireFrameSize SameReport SameNodes)
open Operator (TelemetryPipeline FrameReceiver Path frameOf)
open Operator.FrameReceiver (Received verified received_run tally KeepsPaths OnePath)
open Runs (run)
open WindowScan (scan)

/-- The path of a source. -/
def Source.path : Source → Path
  | .udp => .udp
  | .tcp i => .tcp i

theorem Source.path_injective : Source.path.Injective := by
  intro a b h
  cases a <;> cases b <;> simp_all [Source.path]

/-- Reports that agree show the same. -/
theorem Shows.congr {p : TelemetryPipeline} {a b : ZcmAnalyze} (h : Shows p a) (hsame : SameReport a b) :
    Shows p b where
  ok := h.ok.trans hsame.ok
  gaps := h.gaps.trans hsame.totalGaps
  dups := h.dups.trans hsame.totalDups
  nodes := by
    have hlen : a.byNode.entries.length = b.byNode.entries.length := by
      rw [AssocSum.length_entries, AssocSum.length_entries, AssocSum.total_congr hsame.byNode]
    rw [h.nodes, hlen]
  lastHop := h.lastHop.trans hsame.lastHop
  hopIdx0 := by rw [h.hopIdx0, hsame.hopHist]
  hopIdx1 := by rw [h.hopIdx1, hsame.hopHist]
  hopIdx2Plus := by rw [h.hopIdx2Plus, hsame.hopHist]
  voltage := by rw [h.voltage, hsame.bySensor]
  current := by rw [h.current, hsame.bySensor]
  temp := by rw [h.temp, hsame.bySensor]
  other := h.other.trans (AssocSum.total_congr hsame.bySensor)

/-! ## Datagrams with one frame -/

/-- The blocks of a datagram with no room for two frames. -/
theorem blocks_of_short {d : List UInt8} (h : d.length < 48) :
    Blocks.cut 24 (d.take 65536) = if 24 ≤ d.length then [d.take 24] else [] := by
  rw [List.take_of_length_le (by omega)]
  split
  · rename_i hle
    rw [Blocks.cut_of_le (by decide) hle, Blocks.cut_of_lt (by rw [List.length_drop]; omega)]
  · rename_i hlt
    exact Blocks.cut_of_lt (Nat.not_le.mp hlt)

/-- The good blocks are the beginnings that the capture takes. -/
theorem good_blocks {ds : List (List UInt8)} (hshort : ∀ d ∈ ds, d.length < 48) :
    (ds.flatMap fun d => Blocks.cut 24 (d.take 65536)).filter (fun w => verifyFrame (.ofBytes w)) =
      (ds.filter beginsWithFrame).map (List.take wireFrameSize) := by
  induction ds with
  | nil => rfl
  | cons d ds ih =>
    rw [List.flatMap_cons, List.filter_append, ih fun d' hd' => hshort d' (List.mem_cons_of_mem _ hd'),
      blocks_of_short (hshort d List.mem_cons_self), List.filter_cons, beginsWithFrame]
    by_cases hle : 24 ≤ d.length
    · by_cases hv : verifyFrame (.ofBytes (d.take 24)) = true <;> simp [hle, hv, wireFrameSize]
    · simp [hle, wireFrameSize]

/-- The others are the datagrams that the capture counts, if no datagram is too short for a frame. -/
theorem bad_blocks {ds : List (List UInt8)} (hone : ∀ d ∈ ds, wireFrameSize ≤ d.length ∧ d.length < 48) :
    (ds.flatMap fun d => Blocks.cut 24 (d.take 65536)).countP (fun w => !(frameOf w).crcOk) =
      ds.countP fun d => decide (0 < d.length) && !beginsWithFrame d := by
  induction ds with
  | nil => rfl
  | cons d ds ih =>
    obtain ⟨hle, hlt⟩ := hone d List.mem_cons_self
    have hle' : 24 ≤ d.length := hle
    have hpos : 0 < d.length := by omega
    have hcrc : (frameOf (d.take 24)).crcOk = verifyFrame (.ofBytes (d.take 24)) := rfl
    rw [List.flatMap_cons, List.countP_append, ih fun d' hd' => hone d' (List.mem_cons_of_mem _ hd'),
      blocks_of_short hlt, if_pos hle', List.countP_singleton, List.countP_cons, beginsWithFrame, hcrc, Nat.add_comm]
    simp [hle', hpos, wireFrameSize]

/-! ## The logs -/

section Logs

variable {p₀ : TelemetryPipeline} {s : FrameReceiver} {log : List (Path × List UInt8)} {lost : Nat} {a : Arrivals}

/-- The log of a capture, under the paths of the operator. -/
def Arrivals.pathLog (a : Arrivals) : List (Path × List UInt8) := a.log.map fun e => (e.1.path, e.2)

/-- **Both have the same good frames on each path.** -/
theorem Arrivals.Logged.sameStreams (ha : a.Logged) (h : Received p₀ s log lost)
    (hstreams : s.streams = a.connections) (hdatagrams : s.datagrams = a.datagrams)
    (hshort : ∀ d ∈ s.datagrams, d.length < 48) (path : Path) :
    Merge.stream path (log.filter fun e => verifyFrame (.ofBytes e.2)) = Merge.stream path a.pathLog := by
  rw [Merge.stream_filter (fun w => verifyFrame (.ofBytes w))]
  cases path with
  | tcp i =>
    have hframes : Merge.stream (Source.path (.tcp i)) a.pathLog = a.framesFrom (.tcp i) :=
      Merge.stream_rename Source.path_injective (.tcp i) a.log
    rw [show Path.tcp i = Source.path (.tcp i) from rfl, hframes, ha.tcp,
      show Source.path (.tcp i) = Path.tcp i from rfl, h.tcp, hstreams, List.filter_eq_self]
    intro w hw
    obtain ⟨_, hacc⟩ := WindowScan.scan_frames_accept _ w hw
    simp only [frameSpec, Bool.and_eq_true] at hacc
    exact hacc.2
  | udp =>
    have hframes : Merge.stream (Source.path .udp) a.pathLog = a.framesFrom .udp :=
      Merge.stream_rename Source.path_injective .udp a.log
    rw [h.udp, good_blocks hshort, hdatagrams, ← ha.udp]
    exact hframes.symm

/-- **So the good frames of each node come in the same order.** -/
theorem Arrivals.Logged.sameNodes (ha : a.Logged) (h : Received p₀ s log lost) (hstreams : s.streams = a.connections)
    (hdatagrams : s.datagrams = a.datagrams) (hshort : ∀ d ∈ s.datagrams, d.length < 48) (hone : OnePath s) :
    SameNodes (verified log) (a.frames.map WireFrame.ofBytes) := by
  have hkeeps : KeepsPaths (log.filter fun e => verifyFrame (.ofBytes e.2)) := by
    intro nodeId
    obtain ⟨path, hpath⟩ := h.keepsPaths hone nodeId
    exact ⟨path, fun e he => hpath e (List.mem_of_mem_filter he)⟩
  have hsame := hkeeps.sameNodes (ha.sameStreams h hstreams hdatagrams hshort)
  have hlive : verified (log.filter fun e => verifyFrame (.ofBytes e.2)) = verified log := by
    simp [verified, List.filter_map, List.filter_filter, Function.comp_def]
  have hcaptured : verified a.pathLog = a.frames.map WireFrame.ofBytes := by
    have hwindows : a.pathLog.map (·.2) = a.frames := by
      simp [Arrivals.pathLog, Arrivals.frames, Function.comp_def]
    rw [verified, hwindows, List.filter_eq_self]
    intro f hf
    obtain ⟨w, hw, rfl⟩ := List.mem_map.mp hf
    obtain ⟨⟨source, w⟩, hmem, rfl⟩ := List.mem_map.mp hw
    exact (ha.mem hmem).2.1
  rwa [hlive, hcaptured] at hsame

end Logs

/-- **The live operator shows what the tools say of a capture of the same traffic**, when every node keeps to one path
and no datagram has room for two frames. If none is too short for a frame either, both have rejected as much. -/
theorem live_eq_captured (mode : Core.Mode) (outPath : String) (turns : List Core.Ready) {mem : Core.Memory}
    (hmem : mem.allocates (4 * (arrivals mode turns).frames.length) = true) (opts : Core.InspectOptions) {n : Nat}
    {nanoTimes : Nat → Int64} {p₀ : TelemetryPipeline} (hmake : TelemetryPipeline.make n nanoTimes = .ok p₀)
    (tcpEnabled : Bool) (keys : List Operator.ReadyKey) :
    let c := captureMain { mode, outPath } turns
    let s := run FrameReceiver.handle (.start p₀ tcpEnabled) keys
    s.streams = (arrivals mode turns).connections → s.datagrams = (arrivals mode turns).datagrams →
      (∀ d ∈ s.datagrams, d.length < 48) → OnePath s →
        Shows s.pipeline (inspect mem opts c.file).stats ∧
          ((∀ d ∈ s.datagrams, wireFrameSize ≤ d.length) → s.pipeline.framesCrcFail.toUInt64 = c.drop) := by
  intro c s hstreams hdatagrams hshort hone
  obtain ⟨hzcm, hcs⟩ := captureMain_zcmFile mode outPath turns
  have hlogged : (arrivals mode turns).Logged := Arrivals.log_spec _
  obtain ⟨_, log, lost, h⟩ := received_run p₀ tcpEnabled keys
  constructor
  · have hlen : (arrivedFrames mode turns).length = (arrivals mode turns).frames.length := List.length_map _
    rw [← hlen] at hmem
    have hstats : (inspect mem opts c.file).stats = run ZcmAnalyze.observe {} (arrivedFrames mode turns) := by
      rw [show c.file = _ from hzcm, inspect_zcmFile opts hcs hmem]
    have hv : ∀ f ∈ verified log, verifyFrame f = true := fun _ => Operator.FrameReceiver.verifyFrame_of_mem
    have hsame := (hlogged.sameNodes h hstreams hdatagrams hshort hone).sameReport
    rw [hstats]
    exact (Shows.of_sim (sim_run (sim_make hmake) _ hv) h.statistics).congr hsame
  · intro hlong
    have hbad := bad_blocks fun d hd => ⟨hlong d hd, hshort d hd⟩
    rw [show c.drop = _ from (captureMain_spec mode outPath turns).2.2.1, h.told.crcFail, h.countP_bad, hbad,
      (Operator.make_reports hmake).2.1, hstreams, hdatagrams]
    exact UInt64.zero_add _

/-- One datagram, for both. -/
theorem live_eq_captured_golden :
    ∃ p₀, TelemetryPipeline.make 2 (fun _ => 0) = .ok p₀ ∧
      (run FrameReceiver.handle (.start p₀ false) [.udp (.ok (some goldenFrame))]).pipeline.framesOk = 1 := by
  obtain ⟨p₀, hmake⟩ : ∃ p₀, TelemetryPipeline.make 2 (fun _ => 0) = .ok p₀ := ⟨_, rfl⟩
  refine ⟨p₀, hmake, ?_⟩
  let turns : List Core.Ready := [{ datagram := some (.bytes goldenFrame) }]
  let mem : Core.Memory := ⟨fun n => decide (n < 2 ^ 63), by simp⟩
  have hframes : (arrivals .udp turns).frames.length = 1 := by decide +kernel
  have hmem : mem.allocates (4 * (arrivals .udp turns).frames.length) = true := by rw [hframes]; rfl
  have hread : (run FrameReceiver.handle (.start p₀ false) [.udp (.ok (some goldenFrame))]).streams = [] ∧
      (run FrameReceiver.handle (.start p₀ false) [.udp (.ok (some goldenFrame))]).datagrams = [goldenFrame] := by
    rw [Runs.run_cons, Runs.run_nil, Operator.FrameReceiver.handle_datagram rfl]
    exact ⟨rfl, rfl⟩
  have harrived : (arrivals .udp turns).connections = [] ∧ (arrivals .udp turns).datagrams = [goldenFrame] := by
    decide +kernel
  obtain ⟨_, log, lost, h⟩ := received_run p₀ false [.udp (.ok (some goldenFrame))]
  have hone : OnePath (run FrameReceiver.handle (.start p₀ false) [.udp (.ok (some goldenFrame))]) :=
    h.onePath (by rw [hread.1]; nofun)
  have hshort : ∀ d ∈ (run FrameReceiver.handle (.start p₀ false) [.udp (.ok (some goldenFrame))]).datagrams,
      d.length < 48 := by
    rw [hread.2]
    decide
  obtain ⟨hshows, _⟩ := live_eq_captured .udp "" turns hmem {} hmake false [.udp (.ok (some goldenFrame))]
    (hread.1.trans harrived.1.symm) (hread.2.trans harrived.2.symm) hshort hone
  have hok : (inspect mem {} (captureMain { mode := .udp } turns).file).stats.ok = 1 := by decide +kernel
  exact long_inj.mp (hshows.ok.trans hok)

end ZcMesh
