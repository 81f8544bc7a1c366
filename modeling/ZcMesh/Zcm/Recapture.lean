import ZcMesh.Zcm.Recording

/-!
# Capture, replay, recapture

A recording that `zcmesh_replay` sends over TCP goes out as the bytes of its frames, however `send_nb` cuts them
(`replay_zcmFile`). A capture that receives these bytes on one connection, in any chunks, finds the same frames: nothing
between two accepted windows can be taken for a frame, because there is nothing between them
(`WindowScan.scan_flatten`). So the second file is the first one (`recapture_identity`).
-/

namespace ZcMesh.Core

open WindowScan (scan)

/-! ## Replaying a recording -/

section Replaying

variable {mem : Memory} {opts : ReplayOptions} {net : ReplayNet} {cs : List WireFrame}

/-- **Replaying over TCP without hard errors** sends all frames and reports it, or waits for the socket. -/
theorem replay_zcmFile (htcp : opts.useTcp = true) (hinit : net.netInit = true) {ep : Endpoint}
    (hep : net.endpoint = some ep) (hconnect : net.tcp.connects.headD false = true) (hsoft : .hardError ∉ net.tcp.sends)
    (hcs : ∀ c ∈ cs, verifyFrame c = true) (hmem : mem.allocates (wireFrameSize * cs.length) = true) :
    let r := replay mem opts net (zcmFile cs)
    (r.1 = .waiting ∧ net.tcp.sends.countP SendOutcome.takes < wireFrameSize * cs.length) ∨
      (r.1 = .exit 0 s!"replay done sent={cs.length} fail={0}" ∧ r.2.sent = cs.length ∧ r.2.fail = 0 ∧
        r.2.tcp.stream = some (Blocks.bytesOf WireFrame.bytes cs)) := by
  intro r
  have hlt := Memory.lt_of_allocates hmem
  simp only [wireFrameSize] at hlt
  have hcount : (UInt64.ofNat cs.length).toNat = cs.length :=
    UInt64.toNat_ofNat_of_lt' (by simp only [UInt64.size]; omega)
  have hup : net.tcp.connect.1 = true := hconnect
  have hstart : SentUpTo net.tcp.connect.2 [] cs 0 { tcp := net.tcp.connect.2, udp := net.udp } :=
    { stream := TcpClient.stream_connect hconnect
      sends := List.suffix_rfl
      takes := Nat.le_refl _
      sent := rfl
      fail := rfl }
  have hsoft' : SendOutcome.hardError ∉ net.tcp.connect.2.sends := hsoft
  have hloop := replayLoop_tcp htcp ep (by simp only [wireFrameSize]; omega) hcs hsoft' (Nat.zero_add cs.length) hstart
  simp only [r, replay, loadBlob_zcmFile hmem, hinit, hep, htcp, hup, hcount, Bool.not_true, Bool.false_eq_true,
    if_false, if_true]
  rcases hloop with ⟨s, hs, hsent⟩ | ⟨s, hs, hshort⟩
  · right
    have hstream := hsent.stream
    rw [List.take_length, List.nil_append] at hstream
    rw [hs]
    refine ⟨?_, hsent.sent, hsent.fail, hstream⟩
    simp only [hsent.sent, hsent.fail, if_true]
  · left
    rw [hs]
    exact ⟨rfl, hshort.takes⟩

end Replaying

/-! ## Recapturing -/

/-- The events of a capture without a UDP socket hold no datagram. -/
theorem no_datagram (turns : List Ready) (data : List UInt8) : .datagram data ∉ turns.flatMap (Ready.events .tcp) := by
  intro h
  obtain ⟨r, _, hr⟩ := List.mem_flatMap.mp h
  have hclient : ∀ recv, Event.datagram data ∉ clientEvents recv := by
    intro recv
    cases recv with
    | wouldBlock => exact List.not_mem_nil
    | error => simp [clientEvents]
    | bytes bs =>
      simp only [clientEvents]
      split <;> simp
  simp only [Ready.events, Mode.udpOpen, Bool.false_eq_true, if_false, List.append_nil, List.mem_append,
    List.mem_flatMap] at hr
  rcases hr with hr | ⟨recv, _, hr⟩
  · split at hr <;> simp at hr
  · exact hclient recv hr

/-- **A capture that receives the frames of a recording on one connection writes this recording.** -/
theorem capture_of_frames {cs : List WireFrame} (hcs : ∀ c ∈ cs, verifyFrame c = true) (outPath : String)
    {turns : List Ready} (hconn : (arrivals .tcp turns).connections = [Blocks.bytesOf WireFrame.bytes cs]) :
    let e := captureMain { mode := .tcp, outPath } turns
    e.file = zcmFile cs ∧ e.drop = 0 ∧ e.resync = 0 := by
  intro e
  have hwindows : ∀ w ∈ cs.map WireFrame.bytes, w.length = frameSpec.width ∧ frameSpec.accept w = true := by
    intro w hw
    obtain ⟨c, hc, rfl⟩ := List.mem_map.mp hw
    refine ⟨WireFrame.length_bytes c, ?_⟩
    simp [frameSpec, WireFrame.ofBytes_bytes, hcs c hc]
  have hscan : scan frameSpec (Blocks.bytesOf WireFrame.bytes cs) = ⟨cs.map WireFrame.bytes, 0, 0, []⟩ := by
    rw [Blocks.bytesOf, List.flatMap_def]
    exact WindowScan.scan_flatten hwindows
  have hdatagrams : (arrivals .tcp turns).datagrams = [] := Arrivals.datagrams_run (no_datagram turns) {}
  have hframes : (arrivals .tcp turns).frames = cs.map WireFrame.bytes := by
    have hlogged : (arrivals .tcp turns).Logged := Arrivals.log_spec _
    rw [hlogged.frames_of_one hconn hdatagrams, hscan]
  obtain ⟨hfile, hok, hdrop, hresync⟩ := captureMain_spec .tcp outPath turns
  refine ⟨?_, ?_, ?_⟩
  · show e.file = _
    rw [show e.file = _ from hfile, hok, hframes, List.length_map, zcmFile, Blocks.bytesOf, List.flatMap_def]
  · rw [show e.drop = _ from hdrop, Arrivals.rejected, Arrivals.total, hconn, hdatagrams]
    simp [hscan]
  · rw [show e.resync = _ from hresync, Arrivals.skipped, Arrivals.total, hconn]
    simp [hscan]

/-- **Capture, replay, recapture is the identity.** Replaying the file of a capture over TCP, whatever `send_nb` takes
or puts off as long as it does not fail, either waits for a socket that has not taken everything yet, or reports all
frames as sent; and a capture that receives what was sent, on one connection, writes the same file. -/
theorem recapture_identity (mode : Mode) (outPath : String) (turns : List Ready) {mem : Memory} {opts : ReplayOptions}
    {net : ReplayNet} (htcp : opts.useTcp = true) (hinit : net.netInit = true) {ep : Endpoint}
    (hep : net.endpoint = some ep) (hconnect : net.tcp.connects.headD false = true) (hsoft : .hardError ∉ net.tcp.sends)
    (hmem : mem.allocates (wireFrameSize * (arrivals mode turns).frames.length) = true) :
    let first := captureMain { mode, outPath } turns
    let r := replay mem opts net first.file
    (wireFrameSize * first.ok.toNat ≤ net.tcp.sends.countP SendOutcome.takes → r.1 ≠ .waiting) ∧
    (r.1 ≠ .waiting →
      r.1 = .exit 0 s!"replay done sent={first.ok.toNat} fail={0}" ∧ r.2.sent = first.ok.toNat ∧ r.2.fail = 0 ∧
        ∀ (outPath' : String) (turns' : List Ready), (arrivals .tcp turns').connections = r.2.tcp.stream.toList →
          let second := captureMain { mode := .tcp, outPath := outPath' } turns'
          second.file = first.file ∧ second.drop = 0 ∧ second.resync = 0) := by
  intro first r
  obtain ⟨hzcm, hcs⟩ := captureMain_zcmFile mode outPath turns
  have hlen : (arrivedFrames mode turns).length = (arrivals mode turns).frames.length := List.length_map _
  rw [← hlen] at hmem
  have hlt := Memory.lt_of_allocates hmem
  simp only [wireFrameSize] at hlt
  have hok : first.ok.toNat = (arrivedFrames mode turns).length := by
    rw [show first.ok = _ from (captureMain_spec mode outPath turns).2.1, ← hlen]
    exact UInt64.toNat_ofNat_of_lt' (by simp only [UInt64.size]; omega)
  have hreplay := replay_zcmFile htcp hinit hep hconnect hsoft hcs hmem
  rw [← hzcm] at hreplay
  rw [hok]
  rcases hreplay with ⟨hwaiting, hfew⟩ | ⟨hending, hsent, hfail, hstream⟩
  · exact ⟨fun hmany => absurd hfew (Nat.not_lt.mpr hmany), fun hdone => absurd hwaiting hdone⟩
  · constructor
    · intro _ hwaiting
      have hends : Ending.waiting = .exit 0 _ := hwaiting.symm.trans hending
      cases hends
    · intro _
      refine ⟨hending, hsent, hfail, ?_⟩
      intro outPath' turns' hconn
      rw [show r.2.tcp.stream = _ from hstream, Option.toList_some] at hconn
      obtain ⟨hfile, hdrop, hresync⟩ := capture_of_frames hcs outPath' hconn
      exact ⟨hfile.trans hzcm.symm, hdrop, hresync⟩

/-- One frame, sent byte by byte and received in two pieces: it is captured again. -/
theorem recapture_identity_golden :
    let turns : List Ready := [{ datagram := some (.bytes goldenFrame) }]
    let net : ReplayNet :=
      { endpoint := some ⟨"127.0.0.1", 9981⟩
        tcp := { connects := [true], sends := .wouldBlock :: List.replicate 24 (.accepted 1) } }
    let turns' : List Ready :=
      [{ listener := some true }, { client := some (.bytes (goldenFrame.take 9)) },
        { client := some (.bytes (goldenFrame.drop 9)) }]
    (replay ⟨fun n => decide (n < 2 ^ 63), by simp⟩ {} net (captureMain { mode := .udp } turns).file).2.sent = 1 ∧
      (captureMain { mode := .tcp } turns').file = (captureMain { mode := .udp } turns).file := by
  intro turns net turns'
  have hframes : (arrivals .udp turns).frames.length = 1 := by decide +kernel
  have hok : (captureMain { mode := .udp } turns).ok.toNat = 1 := by
    rw [(captureMain_spec .udp "" turns).2.1, hframes]
    rfl
  have htcp : ({} : ReplayOptions).useTcp = true := rfl
  have hinit : net.netInit = true := rfl
  have hmem : Memory.allocates ⟨fun n => decide (n < 2 ^ 63), by simp⟩
      (wireFrameSize * (arrivals .udp turns).frames.length) = true := by
    rw [hframes]
    decide
  have hsoft : SendOutcome.hardError ∉ net.tcp.sends := by decide
  have hmany :
      wireFrameSize * (captureMain { mode := .udp } turns).ok.toNat ≤ net.tcp.sends.countP SendOutcome.takes := by
    rw [hok]
    decide
  obtain ⟨hends, hdone⟩ := recapture_identity .udp "" turns htcp hinit rfl rfl hsoft hmem
  obtain ⟨-, hsent, -, hagain⟩ := hdone (hends hmany)
  have hconn : (arrivals .tcp turns').connections = [goldenFrame] := by decide +kernel
  have hstream : (replay ⟨fun n => decide (n < 2 ^ 63), by simp⟩ {} net
      (captureMain { mode := .udp } turns).file).2.tcp.stream = some goldenFrame := by decide +kernel
  refine ⟨hsent.trans hok, (hagain "" turns' ?_).1⟩
  rw [hconn, hstream]
  rfl

end ZcMesh.Core
