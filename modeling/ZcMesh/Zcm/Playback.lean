import ZcMesh.Lib.Walk
import ZcMesh.Stream.KeyOrder
import ZcMesh.Zcm.Recapture

/-!
# Playing back a recording

* With `--pace capture` the replay sleeps between two frames as long as they were apart, over any wraps of the 32 bits
  of time that a frame carries, as long as no two neighbours are more than a second apart: `replay_pace`.
* An operator that reads what is played back over TCP shows what `zcmesh_inspect` says of the file: `playback`.
-/

namespace ZcMesh.Core

open Walk (steps)

/-! ## The pauses -/

theorem deltaNs_le (prevLo nextLo : UInt32) : (deltaNs prevLo nextLo).toNat ≤ 1000000000 := by
  simp only [deltaNs]
  split
  · exact Nat.zero_le _
  · split
    · exact Nat.le_refl _
    · rename_i hle
      rw [UInt32.toNat_toUInt64]
      exact UInt32.le_iff_toNat_le.mp (UInt32.not_lt.mp hle)

/-- Two readings of a clock that are no second apart, from their low 32 bits. -/
theorem deltaNs_ofNat {a b : Nat} (hle : a ≤ b) (hsecond : b ≤ a + 1000000000) :
    (deltaNs (UInt32.ofNat a) (UInt32.ofNat b)).toNat = b - a := by
  have hdiff : (UInt32.ofNat b - UInt32.ofNat a).toNat = b - a := by
    rw [UInt32.toNat_sub, UInt32.toNat_ofNat', UInt32.toNat_ofNat']
    omega
  simp only [deltaNs]
  split
  · rename_i hzero
    rw [← hdiff, hzero]
    rfl
  · rw [if_neg, UInt32.toNat_toUInt64, hdiff]
    rw [gt_iff_lt, UInt32.lt_iff_toNat_lt, hdiff]
    simp only [UInt32.reduceToNat]
    omega

/-- The pauses between frames; there is none behind a frame that does not verify. -/
def pausesOf (cs : List WireFrame) : List UInt64 :=
  (((steps cs).filter fun p => verifyFrame p.1).map fun p => deltaNs p.1.timestampLo p.2.timestampLo).filter (0 < ·)

theorem pausesOf_le {cs : List WireFrame} : ∀ d ∈ pausesOf cs, d.toNat ≤ 1000000000 := by
  intro d hd
  obtain ⟨p, _, rfl⟩ := List.mem_map.mp (List.mem_of_mem_filter hd)
  exact deltaNs_le _ _

theorem pausesOf_cons (c d : WireFrame) (cs : List WireFrame) : pausesOf (c :: d :: cs) =
    (if verifyFrame c = true ∧ 0 < deltaNs c.timestampLo d.timestampLo then [deltaNs c.timestampLo d.timestampLo]
      else []) ++ pausesOf (d :: cs) := by
  rw [pausesOf, Walk.steps_cons_cons, List.filter_cons]
  by_cases hv : verifyFrame c = true
  · by_cases hpos : 0 < deltaNs c.timestampLo d.timestampLo <;> simp [hv, hpos, pausesOf]
  · simp [hv, pausesOf]

/-- The pauses that are left out are those of no length. -/
theorem sum_pausesOf {cs : List WireFrame} (hcs : ∀ c ∈ cs, verifyFrame c = true) :
    ((pausesOf cs).map UInt64.toNat).sum =
      ((steps cs).map fun p => (deltaNs p.1.timestampLo p.2.timestampLo).toNat).sum := by
  have hall : (steps cs).filter (fun p => verifyFrame p.1) = steps cs :=
    List.filter_eq_self.mpr fun p hp => hcs _ (Walk.mem_of_mem_steps hp).1
  rw [pausesOf, hall]
  generalize steps cs = ps
  induction ps with
  | nil => rfl
  | cons p ps ih =>
    rw [List.map_cons, List.map_cons, List.sum_cons, ← ih, List.filter_cons]
    split
    · rw [List.map_cons, List.sum_cons]
    · rename_i hzero
      have hlen : (deltaNs p.1.timestampLo p.2.timestampLo).toNat = 0 := by
        rw [decide_eq_true_eq, UInt64.lt_iff_toNat_lt] at hzero
        exact Nat.eq_zero_of_not_pos hzero
      rw [hlen, Nat.zero_add]

/-! ## The loop -/

section Loop

variable {opts : ReplayOptions} {cs : List WireFrame} (ep : Endpoint)

theorem send_keeps (s : Replay) (opts : ReplayOptions) (frame : List UInt8) :
    ∃ tcp udp, (s.send opts ep frame).2 = { s with tcp, udp } := by
  unfold Replay.send
  split
  · exact ⟨_, s.udp, rfl⟩
  · exact ⟨s.tcp, _, rfl⟩

/-- Frames handled so far. -/
def Replay.handled (s : Replay) : Nat := s.sent + s.fail

theorem handled_count (s : Replay) (ok : Bool) : (s.count ok).handled = s.handled + 1 := by
  cases ok <;> simp [Replay.count, Replay.handled] <;> omega

theorem pauses_count (s : Replay) (ok : Bool) : (s.count ok).pauses = s.pauses := by
  cases ok <;> rfl

/-- **A turn pauses as the two frames say**; one that does not get through pauses and counts nothing. -/
theorem turn_pauses (hpace : opts.paceCapture = true) (hlt : wireFrameSize * cs.length < 2 ^ 64) {i : Nat}
    {c : WireFrame} {rest : List WireFrame} (hi : cs.drop i = c :: rest) (s : Replay) :
    (∃ s', s.turn opts ep (Blocks.bytesOf WireFrame.bytes cs) cs.length i = .ok s' ∧ s'.handled = s.handled + 1 ∧
      s.pauses ++ pausesOf (c :: rest) = s'.pauses ++ pausesOf rest) ∨
    ∃ ending s', s.turn opts ep (Blocks.bytesOf WireFrame.bytes cs) cs.length i = .error (ending, s') ∧
      s'.handled = s.handled ∧ s'.pauses = s.pauses := by
  have hlen := congrArg List.length hi
  rw [List.length_drop, List.length_cons] at hlen
  have hframe : frameAt (Blocks.bytesOf WireFrame.bytes cs) i = some c.bytes := by
    have hget : cs[i]? = some c := by rw [← List.head?_drop, hi]; rfl
    obtain ⟨hlt', rfl⟩ := List.getElem?_eq_some_iff.mp hget
    exact frameAt_bytesOf hlt hlt'
  simp only [Replay.turn, hframe, WireFrame.ofBytes_bytes]
  by_cases hv : verifyFrame c = true
  · obtain ⟨tcp, udp, hsend⟩ := send_keeps ep s opts c.bytes
    simp only [hv, Bool.not_true, Bool.false_eq_true, if_false]
    generalize s.send opts ep c.bytes = r at hsend
    obtain ⟨ok, s₁⟩ := r
    obtain rfl : s₁ = { s with tcp, udp } := hsend
    cases ok with
    | none => exact Or.inr ⟨.waiting, _, rfl, rfl, rfl⟩
    | some ok =>
      left
      have hcount : (Replay.count { s with tcp, udp } ok).handled = s.handled + 1 := handled_count _ _
      have hpauses : (Replay.count { s with tcp, udp } ok).pauses = s.pauses := pauses_count _ _
      cases rest with
      | nil =>
        refine ⟨_, if_pos (Or.inl (by rw [List.length_nil] at hlen; omega)), hcount, ?_⟩
        rw [hpauses]
        rfl
      | cons d rest =>
        have hnext : frameAt (Blocks.bytesOf WireFrame.bytes cs) (i + 1) = some d.bytes := by
          have hget : cs[i + 1]? = some d := by
            rw [← List.head?_drop, ← List.drop_drop, hi]
            rfl
          obtain ⟨hlt', rfl⟩ := List.getElem?_eq_some_iff.mp hget
          exact frameAt_bytesOf hlt hlt'
        rw [List.length_cons] at hlen
        have hmore : ¬(i + 1 ≥ cs.length ∨ (!opts.paceCapture) = true) := by
          rw [hpace, Bool.not_true, or_iff_left Bool.false_ne_true]
          omega
        simp only [if_neg hmore, hnext, WireFrame.ofBytes_bytes]
        rw [pausesOf_cons, ← List.append_assoc]
        by_cases hpos : 0 < deltaNs c.timestampLo d.timestampLo
        · rw [if_pos (And.intro hv hpos)]
          exact ⟨_, congrArg Except.ok (if_pos hpos), hcount, by rw [hpauses]⟩
        · have hnone : ¬(verifyFrame c = true ∧ 0 < deltaNs c.timestampLo d.timestampLo) := fun h => hpos h.2
          rw [if_neg hnone, List.append_nil]
          exact ⟨_, congrArg Except.ok (if_neg hpos), hcount, by rw [hpauses]⟩
  · refine Or.inl ⟨s.count false, by simp [hv], handled_count s false, ?_⟩
    rw [pauses_count]
    cases rest with
    | nil => rfl
    | cons d rest =>
      have hnone : ¬(verifyFrame c = true ∧ 0 < deltaNs c.timestampLo d.timestampLo) := fun h => hv h.1
      rw [pausesOf_cons, if_neg hnone, List.nil_append]

/-- **The loop pauses as the frames say**, as far as it gets. -/
theorem replayLoop_pauses (hpace : opts.paceCapture = true) (hlt : wireFrameSize * cs.length < 2 ^ 64) {k i : Nat}
    (hk : i + k = cs.length) (s : Replay) :
    (∃ s', replayLoop opts ep (Blocks.bytesOf WireFrame.bytes cs) cs.length k i s = .ok s' ∧
      s'.handled = s.handled + k ∧ s'.pauses = s.pauses ++ pausesOf (cs.drop i)) ∨
    ∃ ending s', replayLoop opts ep (Blocks.bytesOf WireFrame.bytes cs) cs.length k i s = .error (ending, s') ∧
      s'.handled < s.handled + k ∧ s'.pauses <+: s.pauses ++ pausesOf (cs.drop i) := by
  induction k generalizing i s with
  | zero =>
    refine Or.inl ⟨s, rfl, rfl, ?_⟩
    rw [List.drop_of_length_le (by omega)]
    exact (List.append_nil _).symm
  | succ k ih =>
    have hi : i < cs.length := by omega
    have hdrop := List.drop_eq_getElem_cons hi
    rcases turn_pauses ep hpace hlt hdrop s with ⟨s₁, hturn, hcount, hpauses⟩ | ⟨ending, s₁, hturn, hcount, hpauses⟩
    · simp only [replayLoop, hturn]
      rw [hdrop, hpauses]
      rcases ih (show i + 1 + k = cs.length by omega) s₁ with ⟨s', hs, hrest, heq⟩ | ⟨ending, s', hs, hrest, hpre⟩
      · exact Or.inl ⟨s', hs, by omega, heq⟩
      · exact Or.inr ⟨ending, s', hs, by omega, hpre⟩
    · refine Or.inr ⟨ending, s₁, by simp only [replayLoop, hturn], by omega, ?_⟩
      rw [hpauses]
      exact List.prefix_append _ _

end Loop

/-! ## A replay -/

/-- The steps of a replay: all pauses, when all frames have been handled, or some from the front. -/
theorem replay_pauses {mem : Memory} {opts : ReplayOptions} (net : ReplayNet) {cs : List WireFrame}
    (hpace : opts.paceCapture = true) (hmem : mem.allocates (wireFrameSize * cs.length) = true) :
    let r := (replay mem opts net (zcmFile cs)).2
    r.pauses <+: pausesOf cs ∧ (r.handled = cs.length → r.pauses = pausesOf cs) := by
  intro r
  have hlt := Memory.lt_of_allocates hmem
  simp only [wireFrameSize] at hlt
  have hcount : (UInt64.ofNat cs.length).toNat = cs.length :=
    UInt64.toNat_ofNat_of_lt' (by simp only [UInt64.size]; omega)
  -- an end in front of the loop
  have hearly : ∀ s : Replay, s.handled = 0 → s.pauses = [] →
      s.pauses <+: pausesOf cs ∧ (s.handled = cs.length → s.pauses = pausesOf cs) := by
    intro s hzero hnone
    rw [hnone, hzero]
    refine ⟨List.nil_prefix, fun hlen => ?_⟩
    rw [List.length_eq_zero_iff.mp hlen.symm]
    rfl
  have hr : r = (replay mem opts net (zcmFile cs)).2 := rfl
  simp only [replay, loadBlob_zcmFile hmem, hcount] at hr
  generalize (if opts.useTcp = true then net.tcp.connect else (net.udpOpen, net.tcp)) = up at hr
  split at hr
  · exact hr ▸ hearly _ rfl rfl
  · split at hr
    · exact hr ▸ hearly _ rfl rfl
    · rename_i ep _
      split at hr
      · exact hr ▸ hearly _ rfl rfl
      · rcases replayLoop_pauses ep hpace (by simp only [wireFrameSize]; omega) (Nat.zero_add cs.length)
          { tcp := up.2, udp := net.udp } with ⟨s', hs, _, hpauses⟩ | ⟨ending, s', hs, hhandled, hpauses⟩
        · rw [hs] at hr
          obtain rfl : r = s' := hr
          rw [List.drop_zero] at hpauses
          exact ⟨hpauses ▸ List.prefix_rfl, fun _ => hpauses⟩
        · rw [hs] at hr
          obtain rfl : r = s' := hr
          rw [List.drop_zero] at hpauses
          have hnot : r.handled < 0 + cs.length := hhandled
          exact ⟨hpauses, fun hall => by omega⟩

/-- **The replay keeps the pace of the capture.** No pause is longer than a second. And when the frames carry the low
32 bits of the times `times`, no two neighbours of which are more than a second apart, a replay that gets through sleeps
as long as the recording took. -/
theorem replay_pace {mem : Memory} {opts : ReplayOptions} (net : ReplayNet) {cs : List WireFrame}
    (hpace : opts.paceCapture = true) (hmem : mem.allocates (wireFrameSize * cs.length) = true)
    (hcs : ∀ c ∈ cs, verifyFrame c = true) :
    let r := (replay mem opts net (zcmFile cs)).2
    (∀ d ∈ r.pauses, d.toNat ≤ 1000000000) ∧
    ∀ times : List Nat, cs.map (·.timestampLo) = times.map UInt32.ofNat →
      (∀ p ∈ steps times, p.1 ≤ p.2 ∧ p.2 ≤ p.1 + 1000000000) → r.sent + r.fail = cs.length → ∀ hne : times ≠ [],
        times.head hne + (r.pauses.map UInt64.toNat).sum = times.getLast hne := by
  intro r
  obtain ⟨hfront, hall⟩ := replay_pauses net hpace hmem
  refine ⟨fun d hd => pausesOf_le d (hfront.subset hd), ?_⟩
  intro times htimes hsteps hhandled hne
  have hsum : ((steps cs).map fun p => (deltaNs p.1.timestampLo p.2.timestampLo).toNat) =
      (steps times).map fun p => p.2 - p.1 := by
    have hlo : (steps cs).map (fun p => (deltaNs p.1.timestampLo p.2.timestampLo).toNat) =
        (steps (cs.map (·.timestampLo))).map fun p => (deltaNs p.1 p.2).toNat := by
      rw [Walk.steps_map, List.map_map]
      rfl
    rw [hlo, htimes, Walk.steps_map, List.map_map]
    apply List.map_congr_left
    intro p hp
    exact deltaNs_ofNat (hsteps p hp).1 (hsteps p hp).2
  rw [show r.pauses = pausesOf cs from hall hhandled, sum_pausesOf hcs, hsum]
  exact Walk.sum_steps (fun p hp => (hsteps p hp).1) hne

/-- A frame taken at the given time. -/
def frameTakenAt (timestampNs : UInt64) : WireFrame := packFrameInto { goldenSample with timestampNs }

/-- Two frames, 100 ns apart, over a wrap. -/
theorem replay_pace_wrap :
    let net : ReplayNet := { endpoint := some ⟨"127.0.0.1", 9981⟩, udp := { outcomes := [true, true] } }
    ((replay ⟨fun n => decide (n < 2 ^ 63), by simp⟩ { useTcp := false } net
      (zcmFile [frameTakenAt 4294967291, frameTakenAt 4294967391])).2.pauses.map UInt64.toNat).sum = 100 := by
  intro net
  have hcs : ∀ c ∈ [frameTakenAt 4294967291, frameTakenAt 4294967391], verifyFrame c = true := by
    simp [frameTakenAt, verifyFrame_packFrameInto]
  have hmem : Memory.allocates ⟨fun n => decide (n < 2 ^ 63), by simp⟩
      (wireFrameSize * [frameTakenAt 4294967291, frameTakenAt 4294967391].length) = true := rfl
  have hpace : ReplayOptions.paceCapture { useTcp := false } = true := rfl
  obtain ⟨_, htimes⟩ := replay_pace net hpace hmem hcs
  have hsum := htimes [4294967291, 4294967391] (by decide +kernel) (by simp) (by decide +kernel) nofun
  exact @Nat.add_left_cancel 4294967291 _ _ hsum

end ZcMesh.Core

namespace ZcMesh

open Core (ZcmAnalyze WireFrame verifyFrame captureMain arrivals arrivedFrames replay inspect captureMain_zcmFile
  replay_zcmFile inspect_zcmFile wireFrameSize)
open Operator (TelemetryPipeline FrameReceiver)
open Operator.FrameReceiver (Received verified received_run tally)
open Runs (run)
open WindowScan (scan)

/-! ## The operator -/

/-- The pipeline shows the statistics of `zcmesh_inspect`. -/
structure Shows (p : TelemetryPipeline) (a : ZcmAnalyze) : Prop where
  ok : p.framesOk.toUInt64 = a.ok
  gaps : p.seqGaps.toUInt64 = a.totalGaps
  dups : p.seqDups.toUInt64 = a.totalDups
  nodes : p.uniqueNodes.toUInt64 = UInt64.ofNat a.byNode.entries.length
  lastHop : p.framesLastHop.toUInt64 = a.hop.lastHop
  hopIdx0 : p.hopIdx0.toUInt64 = a.hop.hopHist 0
  hopIdx1 : p.hopIdx1.toUInt64 = a.hop.hopHist 1
  hopIdx2Plus : p.hopIdx2Plus.toUInt64 = ∑ i ∈ Finset.Icc 2 15, a.hop.hopHist i
  voltage : p.sensorVoltage.toUInt64 = (a.bySensor.lookup 0).getD 0
  current : p.sensorCurrent.toUInt64 = (a.bySensor.lookup 1).getD 0
  temp : p.sensorTemp.toUInt64 = (a.bySensor.lookup 2).getD 0
  other : p.sensorOther.toUInt64 = AssocSum.total (fun k n => if k = 0 ∨ k = 1 ∨ k = 2 then 0 else n) a.bySensor

theorem Shows.of_sim {p q : TelemetryPipeline} {a : ZcmAnalyze} (h : Sim q a) (hpq : p.statistics = q.statistics) :
    Shows p a := by
  have hsame := Operator.sameCounters_of_statistics hpq
  have hsensors := hsame.sensors
  have hhops := hsame.hops
  exact
    { ok := by rw [hsame.framesOk]; exact h.ok
      gaps := by rw [hsame.seqGaps]; exact h.seqs.gaps
      dups := by rw [hsame.seqDups]; exact h.seqs.dups
      nodes := by rw [hsame.uniqueNodes]; exact h.seqs.nodes
      lastHop := by rw [hhops]; exact h.hops.lastHop
      hopIdx0 := by rw [hhops]; exact h.hops.idx0
      hopIdx1 := by rw [hhops]; exact h.hops.idx1
      hopIdx2Plus := by rw [hhops]; exact h.hops.idx2Plus
      voltage := by rw [hsensors]; exact h.sensors.voltage
      current := by rw [hsensors]; exact h.sensors.current
      temp := by rw [hsensors]; exact h.sensors.temp
      other := by rw [hsensors]; exact h.sensors.other }

/-- With one connection and no datagram the log is the scan of the connection. -/
theorem log_of_one {p₀ : TelemetryPipeline} {s : FrameReceiver} {log : List (Operator.Path × List UInt8)} {lost : Nat}
    (h : Received p₀ s log lost) {bytes : List UInt8} (hstreams : s.streams = [bytes]) (hdatagrams : s.datagrams = []) :
    log.map (·.2) = (scan frameSpec bytes).frames := by
  have hone : ∀ e ∈ log, true = true → e.1 = .tcp 0 := by
    rintro ⟨path, w⟩ he _
    have hmem := Merge.mem_stream.mpr he
    cases path with
    | udp =>
      rw [h.udp, hdatagrams] at hmem
      cases hmem
    | tcp i =>
      rw [h.tcp, hstreams] at hmem
      cases i with
      | zero => rfl
      | succ i =>
        rw [List.getD_cons_succ, List.getD_nil, Operator.FrameReceiver.scan_nil] at hmem
        cases hmem
  have hall := Merge.filter_stream (p := fun _ => true) hone
  rw [List.filter_true, List.filter_true, h.tcp, hstreams] at hall
  exact hall

/-- **The operator shows what `zcmesh_inspect` says of the recording.** Whatever was captured, a receiver that has read
all that a replay over TCP sent, in any chunks, shows the statistics of the file, and has seen nothing bad. -/
theorem playback (mode : Core.Mode) (outPath : String) (turns : List Core.Ready) {mem mem' : Core.Memory}
    {opts : Core.ReplayOptions} {net : Core.ReplayNet} (htcp : opts.useTcp = true) (hinit : net.netInit = true)
    {ep : Core.Endpoint} (hep : net.endpoint = some ep) (hconnect : net.tcp.connects.headD false = true)
    (hsoft : .hardError ∉ net.tcp.sends)
    (hmem : mem.allocates (wireFrameSize * (arrivals mode turns).frames.length) = true)
    (hmem' : mem'.allocates (4 * (arrivals mode turns).frames.length) = true) {n : Nat} {nanoTimes : Nat → Int64}
    {p₀ : TelemetryPipeline} (hmake : TelemetryPipeline.make n nanoTimes = .ok p₀) (iopts : Core.InspectOptions)
    (tcpEnabled : Bool) (keys : List Operator.ReadyKey) :
    let file := (captureMain { mode, outPath } turns).file
    let r := replay mem opts net file
    let s := run FrameReceiver.handle (.start p₀ tcpEnabled) keys
    r.1 ≠ .waiting → s.streams = r.2.tcp.stream.toList → s.datagrams = [] →
      Shows s.pipeline (inspect mem' iopts file).stats ∧ s.pipeline.framesCrcFail = 0 ∧ s.pipeline.tcpResync = 0 := by
  intro file r s hdone hstreams hdatagrams
  obtain ⟨hzcm, hcs⟩ := captureMain_zcmFile mode outPath turns
  have hlen : (arrivedFrames mode turns).length = (arrivals mode turns).frames.length := List.length_map _
  rw [← hlen] at hmem hmem'
  have hreplay := replay_zcmFile htcp hinit hep hconnect hsoft hcs hmem
  rw [← hzcm] at hreplay
  obtain ⟨hwaiting, _⟩ | ⟨_, _, _, hstream⟩ := hreplay
  · exact absurd hwaiting hdone
  rw [show r.2.tcp.stream = _ from hstream, Option.toList_some] at hstreams
  have hstats : (inspect mem' iopts file).stats = run ZcmAnalyze.observe {} (arrivedFrames mode turns) := by
    rw [show file = _ from hzcm, inspect_zcmFile iopts hcs hmem']
  obtain ⟨_, log, lost, h⟩ := received_run p₀ tcpEnabled keys
  -- the scan finds the frames of the file
  obtain ⟨hframes, hrejected, hskipped⟩ := scan_framed hcs ⟨_, [], (List.append_nil _).symm, fun _ hc => hc, Or.inl rfl⟩
  rw [Blocks.cut_bytesOf WireFrame.length_bytes (by decide)] at hframes
  have hlog : log.map (·.2) = (arrivedFrames mode turns).map WireFrame.bytes :=
    (log_of_one h hstreams hdatagrams).trans hframes
  have hwindows : (log.map (·.2)).map WireFrame.ofBytes = arrivedFrames mode turns := by
    rw [hlog, List.map_map]
    simp [Function.comp_def, WireFrame.ofBytes_bytes]
  have hv : ∀ w ∈ log.map (·.2), verifyFrame (.ofBytes w) = true := by
    intro w hw
    apply hcs
    rw [← hwindows]
    exact List.mem_map_of_mem hw
  have hstat := h.statistics
  rw [verified, hwindows, List.filter_eq_self.mpr hcs] at hstat
  rw [hstats]
  refine ⟨.of_sim (sim_run (sim_make hmake) _ hcs) hstat, h.told.nothing_bad hmake ?_ ?_ hv⟩
  · rw [tally, hstreams]
    simp [hrejected]
  · rw [tally, hstreams]
    simp [hskipped]

/-- One frame, sent byte by byte and read at once. -/
theorem playback_golden :
    ∃ p₀, TelemetryPipeline.make 2 (fun _ => 0) = .ok p₀ ∧
      (run FrameReceiver.handle (.start p₀ true)
        [.server (.ok true), .tcp 0 (.ok (some goldenFrame))]).pipeline.framesOk = 1 := by
  obtain ⟨p₀, hmake⟩ : ∃ p₀, TelemetryPipeline.make 2 (fun _ => 0) = .ok p₀ := ⟨_, rfl⟩
  refine ⟨p₀, hmake, ?_⟩
  let turns : List Core.Ready := [{ datagram := some (.bytes goldenFrame) }]
  let net : Core.ReplayNet :=
    { endpoint := some ⟨"127.0.0.1", 9981⟩
      tcp := { connects := [true], sends := .wouldBlock :: List.replicate 24 (.accepted 1) } }
  let mem : Core.Memory := ⟨fun n => decide (n < 2 ^ 63), by simp⟩
  let client := Operator.ReadyKey.server (.ok true)
  let bytes := Operator.ReadyKey.tcp 0 (.ok (some goldenFrame))
  have hframes : (arrivals .udp turns).frames.length = 1 := by decide +kernel
  have htcp : ({} : Core.ReplayOptions).useTcp = true := rfl
  have hinit : net.netInit = true := rfl
  have hsoft : Core.SendOutcome.hardError ∉ net.tcp.sends := by decide
  have hmem : mem.allocates (wireFrameSize * (arrivals .udp turns).frames.length) = true := by rw [hframes]; rfl
  have hmem' : mem.allocates (4 * (arrivals .udp turns).frames.length) = true := by rw [hframes]; rfl
  have hstream : (replay mem {} net (captureMain { mode := .udp } turns).file).2.tcp.stream.toList = [goldenFrame] := by
    decide +kernel
  have hdone : (replay mem {} net (captureMain { mode := .udp } turns).file).1 ≠ .waiting := by decide +kernel
  have hread : (run FrameReceiver.handle (.start p₀ true) [client, bytes]).streams = [goldenFrame] ∧
      (run FrameReceiver.handle (.start p₀ true) [client, bytes]).datagrams = [] := by
    have hall : goldenFrame.take (Operator.ByteBuffer.allocateDirect (256 * 1024)).remaining = goldenFrame :=
      List.take_of_length_le (show 24 ≤ 262144 by decide)
    rw [Runs.run_cons, Runs.run_cons, Runs.run_nil, Operator.FrameReceiver.handle_client rfl rfl,
      Operator.FrameReceiver.handle_bytes rfl rfl rfl, Operator.FrameReceiver.streams_readTcp, hall]
    exact ⟨rfl, rfl⟩
  obtain ⟨hshows, _⟩ := playback .udp "" turns htcp hinit rfl rfl hsoft hmem hmem' hmake {} true [client, bytes] hdone
    (hread.1.trans hstream.symm) hread.2
  have hok : (inspect mem {} (captureMain { mode := .udp } turns).file).stats.ok = 1 := by decide +kernel
  exact long_inj.mp (hshows.ok.trans hok)

end ZcMesh
