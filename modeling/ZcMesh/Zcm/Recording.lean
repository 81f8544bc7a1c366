import ZcMesh.Wire.Codec
import ZcMesh.Zcm.CaptureMain
import ZcMesh.Zcm.Inspect
import ZcMesh.Zcm.Replay

/-!
# A recording and its readers

The file that `zcmesh_capture` leaves is a `.zcm` file of verified frames (`captureMain_zcmFile`). So it is exactly what
arrived, `zcmesh_inspect` is content with it, and `zcmesh_replay` loads it (`recording_exact`).
-/

namespace ZcMesh.Core

open WindowScan (scan)

/-- The frames that arrived. -/
def arrivedFrames (mode : Mode) (turns : List Ready) : List WireFrame :=
  (arrivals mode turns).frames.map WireFrame.ofBytes

/-- **The file of a capture is a recording of verified frames.** -/
theorem captureMain_zcmFile (mode : Mode) (outPath : String) (turns : List Ready) :
    (captureMain { mode, outPath } turns).file = zcmFile (arrivedFrames mode turns) ∧
      ∀ c ∈ arrivedFrames mode turns, verifyFrame c = true := by
  obtain ⟨hfile, hok, _⟩ := captureMain_spec mode outPath turns
  have hlogged : (arrivals mode turns).Logged := Arrivals.log_spec _
  have hmem : ∀ w ∈ (arrivals mode turns).frames, w.length = wireFrameSize ∧ verifyFrame (.ofBytes w) = true := by
    intro w hw
    obtain ⟨⟨source, w⟩, hlog, rfl⟩ := List.mem_map.mp hw
    obtain ⟨hlen, hv, _⟩ := hlogged.mem hlog
    exact ⟨hlen, hv⟩
  constructor
  · rw [hfile, hok, zcmFile, arrivedFrames, List.length_map, frames_ofBytes fun w hw => (hmem w hw).1]
  · intro c hc
    obtain ⟨w, hw, rfl⟩ := List.mem_map.mp hc
    exact (hmem w hw).2

/-- Without connections the frames are those of the datagrams, if each of them is a frame. -/
theorem arrivedFrames_of_datagrams {mode : Mode} {turns : List Ready} (hc : (arrivals mode turns).connections = [])
    (hgood : ∀ d ∈ (arrivals mode turns).datagrams, d.length = wireFrameSize ∧ verifyFrame (.ofBytes d) = true) :
    arrivedFrames mode turns = (arrivals mode turns).datagrams.map WireFrame.ofBytes := by
  have hlogged : (arrivals mode turns).Logged := Arrivals.log_spec _
  rw [arrivedFrames, hlogged.frames_of_datagrams hc hgood]

/-! ## The readers -/

section Readers

variable {mem : Memory} {cs : List WireFrame}

/-- `zcmesh_inspect` without expectations is content with verified frames. -/
theorem inspect_accepts (hcs : ∀ c ∈ cs, verifyFrame c = true) (hmem : mem.allocates (4 * cs.length) = true) :
    let r := inspect mem {} (zcmFile cs)
    r.ending = .exit 0 "" ∧ r.stats.ok = UInt64.ofNat cs.length ∧ r.stats.crcFail = 0 := by
  intro r
  have hr : r = _ := inspect_zcmFile {} hcs hmem
  rw [hr, unmet_none]
  refine ⟨rfl, ?_, crcFail_run {} cs⟩
  rw [ZcmAnalyze.ok_run]
  exact UInt64.zero_add _

/-- `zcmesh_replay` loads verified frames and finds them valid. -/
theorem replay_accepts (hcs : ∀ c ∈ cs, verifyFrame c = true)
    (hmem : mem.allocates (wireFrameSize * cs.length) = true) :
    ∃ blob, loadBlob mem (zcmFile cs) = .ok (UInt64.ofNat cs.length, blob) ∧
      ∀ i < cs.length, ∃ frame, frameAt blob i = some frame ∧ verifyFrame (.ofBytes frame) = true := by
  have hlt := Memory.lt_of_allocates hmem
  refine ⟨_, loadBlob_zcmFile hmem, ?_⟩
  intro i hi
  refine ⟨_, frameAt_bytesOf (by omega) hi, ?_⟩
  rw [WireFrame.ofBytes_bytes]
  exact hcs _ (List.getElem_mem hi)

end Readers

/-- **A capture file is exactly what arrived, and every reader accepts it.** The file is the header and the frames of
the log. These are, source by source, the beginnings of the datagrams that verify and the frames that the scan finds in
the bytes of each connection; each of them stands in one piece in the bytes of its connection. A reader that has the
memory for its vector accepts the file. -/
theorem recording_exact (mode : Mode) (outPath : String) (turns : List Ready) :
    let e := captureMain { mode, outPath } turns
    let a := arrivals mode turns
    let n := a.frames.length
    (e.file = (zcmHeader e.ok).bytes ++ a.frames.flatten ∧ (∀ w ∈ a.frames, w.length = wireFrameSize) ∧
      e.ok = UInt64.ofNat n ∧ (n < 2 ^ 64 → e.ok.toNat = n)) ∧
    (a.framesFrom .udp = (a.datagrams.filter beginsWithFrame).map (List.take wireFrameSize) ∧
      ∀ i, a.framesFrom (.tcp i) = (scan frameSpec (a.connections.getD i [])).frames ∧
        ∀ w ∈ a.framesFrom (.tcp i), w <:+: a.connections.getD i []) ∧
    ∀ mem : Memory,
      (mem.allocates (4 * n) = true →
        let r := inspect mem {} e.file
        r.ending = .exit 0 "" ∧ r.stats.ok = e.ok ∧ r.stats.crcFail = 0) ∧
      (mem.allocates (wireFrameSize * n) = true →
        ∃ blob, loadBlob mem e.file = .ok (e.ok, blob) ∧
          ∀ i < n, ∃ frame, frameAt blob i = some frame ∧ verifyFrame (.ofBytes frame) = true) := by
  intro e a n
  obtain ⟨hfile, hok, _⟩ := captureMain_spec mode outPath turns
  obtain ⟨hzcm, hcs⟩ := captureMain_zcmFile mode outPath turns
  have hlogged : a.Logged := Arrivals.log_spec _
  have hlen : (arrivedFrames mode turns).length = n := List.length_map _
  have hsame : e.file = zcmFile (arrivedFrames mode turns) := hzcm
  have hcount : e.ok = UInt64.ofNat n := hok
  refine ⟨⟨hfile, ?_, hok, ?_⟩, ⟨hlogged.udp, ?_⟩, ?_⟩
  · intro w hw
    obtain ⟨⟨source, w⟩, hlog, rfl⟩ := List.mem_map.mp hw
    exact (hlogged.mem hlog).1
  · intro hlt
    rw [hcount, UInt64.toNat_ofNat_of_lt' hlt]
  · intro i
    refine ⟨hlogged.tcp i, ?_⟩
    intro w hw
    rw [hlogged.tcp i] at hw
    exact WindowScan.scan_frames_infix _ w hw
  · intro mem
    rw [hsame, hcount, ← hlen]
    exact ⟨fun hmem => inspect_accepts hcs hmem, fun hmem => replay_accepts hcs hmem⟩

/-- A frame in a datagram, and one over a connection that a second one replaces in the middle of a frame. -/
theorem recording_exact_replaced :
    let turns : List Ready :=
      [{ listener := some true, datagram := some (.bytes goldenFrame) },
        { client := some (.bytes (goldenFrame ++ goldenFrame.take 5)) },
        { listener := some true }, { client := some (.bytes (goldenFrame.drop 5)) }]
    let e := captureMain { mode := .both } turns
    e.ok = 2 ∧ (inspect ⟨fun n => decide (n < 2 ^ 63), by simp⟩ {} e.file).ending = .exit 0 "" := by
  intro turns e
  have hframes : (arrivals .both turns).frames.length = 2 := by decide +kernel
  obtain ⟨⟨_, _, hok, _⟩, _, hreaders⟩ := recording_exact .both "" turns
  have hinspect := (hreaders ⟨fun n => decide (n < 2 ^ 63), by simp⟩).1
  rw [hframes] at hok hinspect
  exact ⟨hok, (hinspect (by decide)).1⟩

end ZcMesh.Core
