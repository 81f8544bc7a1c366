import ZcMesh.Stream.Capture
import ZcMesh.Zcm.Arrivals
import ZcMesh.Zcm.Format

/-!
# The main loop of `zcmesh_capture`

`core-engine/src/capture.cpp`: `main` behind the parsing of the options and the opening of the sockets. One turn of the
loop handles what `select` reports; what the calls on the sockets give is an input.

Every turn does to the capture what its events do to the arrivals (`tick_tracks`): the file grows by the frames of the
log, the counters count, and the stream is what the scan of the open connection leaves. So the file at exit is the
header and the frames of the log (`captureMain_spec`).
-/

namespace ZcMesh.Core

open Runs (run)
open WindowScan (scan)

/-! ## The code -/

/-- `Mode`. -/
inductive Mode
  | udp
  | tcp
  | both
  deriving DecidableEq, Repr

/-- `udp_fd` is a socket. -/
def Mode.udpOpen : Mode → Bool
  | .tcp => false
  | _ => true

/-- `tcp_fd` is a socket. -/
def Mode.tcpOpen : Mode → Bool
  | .udp => false
  | _ => true

/-- `sizeof(buf)`. -/
def bufSize : Nat := 65536

/-- What `recv` and `recvfrom` come to: bytes for the buffer (none of them at the end of a connection), or an error. -/
inductive Recv
  | bytes (data : List UInt8)
  | wouldBlock
  | error
  deriving DecidableEq, Repr

/-- What `select` reports in one turn, with the results of the calls that follow: whether `accept` gives a socket, and
what the client and the UDP socket give. Nothing is reported after a timeout or an error of `select`. A client that has
just been accepted is not in the set of `select`, but its bytes in the same turn do no harm. -/
structure Ready where
  listener : Option Bool := none
  client : Option Recv := none
  datagram : Option Recv := none
  deriving DecidableEq, Repr

/-- The variables of the main loop; `clientFd` tells whether `client_fd` is a socket. -/
structure CaptureLoop extends Capture where
  clientFd : Bool := false

namespace CaptureLoop

variable (s : CaptureLoop)

/-- A new client takes the place of the old one. -/
def onAccept : CaptureLoop :=
  let s := if s.clientFd then { s with stream := [] } else s
  { s with clientFd := true }

/-- `close_fd(client_fd)` and what goes with it. -/
def dropClient : CaptureLoop := { s with clientFd := false, stream := [] }

/-- The client is readable. -/
def onClient : Recv → CaptureLoop
  | .bytes data =>
    let buf := data.take bufSize
    if buf.length = 0 then s.dropClient else { s with toCapture := receive s.toCapture buf }
  | .wouldBlock => s
  | .error => s.dropClient

/-- The UDP socket is readable. -/
def onDatagram : Recv → CaptureLoop
  | .bytes data =>
    let buf := data.take bufSize
    if buf.length < wireFrameSize then if 0 < buf.length then { s with drop := s.drop + 1 } else s
    else
      let frame := WireFrame.ofBytes (buf.take wireFrameSize)
      if !verifyFrame frame then { s with drop := s.drop + 1 }
      else
        let (out, ok) := appendFrame s.out frame s.ok
        { s with out := out, ok := ok }
  | _ => s

/-- One turn of the main loop. -/
def tick (mode : Mode) (r : Ready) : CaptureLoop :=
  let s := if mode.tcpOpen ∧ r.listener = some true then s.onAccept else s
  let s :=
    match r.client with
    | some recv => if s.clientFd then s.onClient recv else s
    | none => s
  match r.datagram with
  | some recv => if mode.udpOpen then s.onDatagram recv else s
  | none => s

end CaptureLoop

/-- What a run of `zcmesh_capture` depends on beside what arrives: the mode, the name of the file, what `fopen` gives
for it, and whether it can be positioned at the two calls of `rewrite_header`. -/
structure CaptureSetup where
  mode : Mode
  outPath : String := ""
  out : File := {}
  firstSeek : Bool := true
  lastSeek : Bool := true

/-- How `zcmesh_capture` ends: the file and the counters. -/
structure CaptureEnd where
  ending : Ending
  file : List UInt8
  ok : UInt64 := 0
  drop : UInt64 := 0
  resync : UInt64 := 0

/-- `main`, with the turns of its loop until the deadline. -/
def captureMain (setup : CaptureSetup) (turns : List Ready) : CaptureEnd :=
  let (begun, out) := rewriteHeader setup.out setup.firstSeek 0
  if !begun then { ending := .exit 1 "header write failed", file := out.fclose }
  else
    let s := run (fun s => CaptureLoop.tick s setup.mode) { Capture.fresh out with } turns
    let (done, out) := rewriteHeader s.out setup.lastSeek s.ok
    let ending : Ending :=
      if !done then .exit 1 "final header rewrite failed"
      else
        .exit (if s.ok > 0 then 0 else 1)
          s!"captured ok={s.ok} drop={s.drop} resync={s.resync} bytes={s.ok * 24} -> {setup.outPath}"
    { ending := ending, file := out.fclose, ok := s.ok, drop := s.drop, resync := s.resync }

/-! ## The events of a turn -/

/-- What a readable client brings. -/
def clientEvents : Recv → List Event
  | .bytes data => if (data.take bufSize).length = 0 then [.closed] else [.received (data.take bufSize)]
  | .wouldBlock => []
  | .error => [.closed]

/-- What a readable UDP socket brings. -/
def datagramEvents : Recv → List Event
  | .bytes data => [.datagram (data.take bufSize)]
  | _ => []

/-- The events of one turn, in order. -/
def Ready.events (mode : Mode) (r : Ready) : List Event :=
  (if mode.tcpOpen ∧ r.listener = some true then [.accepted] else []) ++ r.client.toList.flatMap clientEvents ++
    if mode.udpOpen then r.datagram.toList.flatMap datagramEvents else []

/-- What arrives in the turns of a run. -/
def arrivals (mode : Mode) (turns : List Ready) : Arrivals :=
  run Arrivals.step {} (turns.flatMap (Ready.events mode))

/-! ## The capture tracks what arrives -/

/-- The capture, whose file was `out` at the start, is where the arrivals are. -/
structure Tracks (out : File) (s : CaptureLoop) (a : Arrivals) : Prop where
  out : s.out = out.append a.frames
  ok : s.ok = UInt64.ofNat a.log.length
  drop : s.drop = UInt64.ofNat a.rejected
  resync : s.resync = UInt64.ofNat a.skipped
  client : s.clientFd = a.current.isSome
  stream : s.stream = a.current.elim [] fun c => (scan frameSpec c).rest

section Tracks

variable {out : File} {s : CaptureLoop} {a : Arrivals}

theorem Tracks.fresh (out : File) : Tracks out { Capture.fresh out with } {} where
  out := rfl
  ok := rfl
  drop := rfl
  resync := rfl
  client := rfl
  stream := rfl

theorem Tracks.onAccept (h : Tracks out s a) : Tracks out s.onAccept (a.step .accepted) := by
  have hstart : s.onAccept = { s with stream := [], clientFd := true } := by
    have hs := h.stream
    have hclient := h.client
    cases hc : a.current with
    | none =>
      rw [hc] at hs hclient
      have hempty : s.stream = [] := hs
      simp only [CaptureLoop.onAccept, hclient, Option.isSome_none, Bool.false_eq_true, if_false, ← hempty]
    | some c =>
      rw [hc] at hclient
      simp only [CaptureLoop.onAccept, hclient, Option.isSome_some, if_true]
  obtain ⟨hrejected, hskipped⟩ := Arrivals.counts_accepted a
  rw [hstart]
  exact
    { out := h.out
      ok := h.ok
      drop := by rw [hrejected]; exact h.drop
      resync := by rw [hskipped]; exact h.resync
      client := rfl
      stream := by
        show [] = (scan frameSpec []).rest
        rw [scan_nil]
        rfl }

theorem Tracks.dropClient (h : Tracks out s a) : Tracks out s.dropClient (a.step .closed) where
  out := h.out
  ok := h.ok
  drop := by rw [(Arrivals.counts_closed a).1]; exact h.drop
  resync := by rw [(Arrivals.counts_closed a).2]; exact h.resync
  client := rfl
  stream := rfl

/-- Bytes from the client: the stream is what the scan of the connection has left, so the decoder finds what the scan
of all its bytes finds in addition. -/
theorem Tracks.received (hout : out.AtEnd) (h : Tracks out s a) (hclient : s.clientFd = true) {chunk : List UInt8}
    (hchunk : chunk.length ≤ bufSize) :
    Tracks out { s with toCapture := receive s.toCapture chunk } (a.step (.received chunk)) := by
  obtain ⟨before, hc⟩ : ∃ before, a.current = some before := by
    have := h.client
    rw [hclient] at this
    exact Option.isSome_iff_exists.mp this.symm
  have hstream : s.stream = (scan frameSpec before).rest := by
    have := h.stream
    rwa [hc] at this
  have hrest := WindowScan.scan_rest_lt (S := frameSpec) before
  rw [frameSpec_width] at hrest
  have hfits : Fits s.toCapture chunk := by
    show s.stream.length + chunk.length < 2147483648
    rw [hstream]
    simp only [bufSize] at hchunk
    omega
  have hend : s.out.AtEnd := by
    rw [h.out]
    exact (hout.append _).1
  have hscan := WindowScan.scan_append (S := frameSpec) before chunk
  obtain ⟨hrejected, hskipped⟩ := Arrivals.counts_received hc chunk
  rw [receive_spec hfits hend, hstream]
  generalize hq : scan frameSpec ((scan frameSpec before).rest ++ chunk) = q at hscan hrejected hskipped
  have hnew : newFrames before chunk = q.frames := by rw [newFrames_eq, hq]
  have hlog : (a.step (.received chunk)).log = a.log ++ q.frames.map (Source.tcp a.past.length, ·) := by
    simp only [Arrivals.step, hc, hnew]
  have hcurrent : (a.step (.received chunk)).current = some (before ++ chunk) := by simp only [Arrivals.step, hc]
  have hframes : (a.step (.received chunk)).frames = a.frames ++ q.frames := by
    rw [Arrivals.frames, hlog, List.map_append, List.map_map]
    exact congrArg (a.frames ++ ·) (List.map_id _)
  exact
    { out := by
        rw [hframes, ← File.append_append, ← h.out]
        rfl
      ok := by
        rw [hlog, List.length_append, List.length_map, UInt64.ofNat_add, ← h.ok]
        rfl
      drop := by
        rw [hrejected, UInt64.ofNat_add, ← h.drop]
        rfl
      resync := by
        rw [hskipped, UInt64.ofNat_add, ← h.resync]
        rfl
      client := by rw [hcurrent]; exact hclient
      stream := by
        rw [hcurrent]
        show q.rest = (scan frameSpec (before ++ chunk)).rest
        rw [hscan]
        rfl }

/-- A datagram that does not begin with a frame. -/
theorem Tracks.badDatagram (h : Tracks out s a) {data : List UInt8} (hbad : beginsWithFrame data = false) :
    Tracks out (if 0 < data.length then { s with drop := s.drop + 1 } else s) (a.step (.datagram data)) := by
  have hlog : (a.step (.datagram data)).log = a.log := by simp [Arrivals.step, hbad]
  have hframes : (a.step (.datagram data)).frames = a.frames := by rw [Arrivals.frames, hlog, Arrivals.frames]
  have hrejected := Arrivals.rejected_datagram a data
  rw [hbad] at hrejected
  split
  · rename_i hlen
    simp only [hlen, decide_true, Bool.not_false, Bool.and_self, if_true] at hrejected
    exact
      { out := by rw [hframes]; exact h.out
        ok := by rw [hlog]; exact h.ok
        drop := by
          rw [hrejected, UInt64.ofNat_add, ← h.drop]
          rfl
        resync := h.resync
        client := h.client
        stream := h.stream }
  · rename_i hlen
    simp only [hlen, decide_false, Bool.false_and, Bool.false_eq_true, if_false, Nat.add_zero] at hrejected
    exact
      { out := by rw [hframes]; exact h.out
        ok := by rw [hlog]; exact h.ok
        drop := by rw [hrejected]; exact h.drop
        resync := h.resync
        client := h.client
        stream := h.stream }

/-- A datagram that begins with a frame: its first 24 bytes are written. -/
theorem Tracks.goodDatagram (h : Tracks out s a) {data : List UInt8}
    (hgood : beginsWithFrame data = true) :
    Tracks out { s with out := s.out.append [data.take wireFrameSize], ok := s.ok + 1 } (a.step (.datagram data)) := by
  have hlog : (a.step (.datagram data)).log = a.log ++ [(.udp, data.take wireFrameSize)] := by
    simp [Arrivals.step, hgood]
  have hframes : (a.step (.datagram data)).frames = a.frames ++ [data.take wireFrameSize] := by
    rw [Arrivals.frames, hlog, List.map_append]
    rfl
  have hrejected := Arrivals.rejected_datagram a data
  simp only [hgood, Bool.not_true, Bool.and_false, Bool.false_eq_true, if_false, Nat.add_zero] at hrejected
  exact
    { out := by rw [hframes, ← File.append_append, ← h.out]
      ok := by
        rw [hlog, List.length_append, UInt64.ofNat_add, ← h.ok]
        rfl
      drop := by rw [hrejected]; exact h.drop
      resync := h.resync
      client := h.client
      stream := h.stream }

theorem Tracks.onDatagram (hout : out.AtEnd) (h : Tracks out s a) (r : Recv) :
    Tracks out (s.onDatagram r) (run Arrivals.step a (datagramEvents r)) := by
  cases r with
  | wouldBlock => exact h
  | error => exact h
  | bytes data =>
    simp only [datagramEvents, Runs.run_cons, Runs.run_nil, CaptureLoop.onDatagram]
    generalize data.take bufSize = buf
    by_cases hshort : buf.length < wireFrameSize
    · have hbad : beginsWithFrame buf = false := by
        rw [beginsWithFrame, decide_eq_false (by omega), Bool.false_and]
      rw [if_pos hshort]
      exact h.badDatagram hbad
    · rw [if_neg hshort]
      have hbegins : beginsWithFrame buf = verifyFrame (.ofBytes (buf.take wireFrameSize)) := by
        rw [beginsWithFrame, decide_eq_true (by omega), Bool.true_and]
      by_cases hv : verifyFrame (.ofBytes (buf.take wireFrameSize)) = true
      · have hwindow : (buf.take wireFrameSize).length = wireFrameSize := List.length_take_of_le (by omega)
        have hend : s.out.AtEnd := by
          rw [h.out]
          exact (hout.append _).1
        simp only [hv, Bool.not_true, Bool.false_eq_true, if_false, appendFrame, hend.fwrite_eq,
          WireFrame.bytes_ofBytes hwindow, hwindow, ne_eq, not_true]
        exact h.goodDatagram (hbegins.trans hv)
      · simp only [hv, Bool.not_false, if_true]
        have hbad := h.badDatagram (hbegins.trans (by simpa using hv))
        rwa [if_pos (by simp only [wireFrameSize] at hshort; omega)] at hbad

theorem Tracks.onClient (hout : out.AtEnd) (h : Tracks out s a) (hclient : s.clientFd = true) (r : Recv) :
    Tracks out (s.onClient r) (run Arrivals.step a (clientEvents r)) := by
  cases r with
  | wouldBlock => exact h
  | error => exact h.dropClient
  | bytes data =>
    simp only [clientEvents, CaptureLoop.onClient]
    split
    · exact h.dropClient
    · exact h.received hout hclient (List.length_take_le _ _)

/-- What the client does to a capture without one: nothing. -/
theorem Tracks.noClient (h : Tracks out s a) (hclient : s.clientFd = false) (r : Recv) :
    Tracks out s (run Arrivals.step a (clientEvents r)) := by
  have hc : a.current = none := by
    have := h.client
    rw [hclient] at this
    simpa using this.symm
  have hclosed : Tracks out s (a.step .closed) := by
    have hdrop := h.dropClient
    have hstream : s.stream = [] := by
      have := h.stream
      rwa [hc] at this
    have hsame : s.dropClient = s := by
      rw [CaptureLoop.dropClient, ← hstream, ← hclient]
    rwa [hsame] at hdrop
  have hreceived : ∀ bytes, a.step (.received bytes) = a := by
    intro bytes
    simp only [Arrivals.step, hc]
  cases r with
  | wouldBlock => exact h
  | error => exact hclosed
  | bytes data =>
    simp only [clientEvents]
    split
    · exact hclosed
    · rw [Runs.run_cons, hreceived]
      exact h

/-- **One turn of the loop** does to the capture what its events do to the arrivals. -/
theorem tick_tracks (hout : out.AtEnd) (h : Tracks out s a) (mode : Mode) (r : Ready) :
    Tracks out (s.tick mode r) (run Arrivals.step a (r.events mode)) := by
  simp only [CaptureLoop.tick, Ready.events, Runs.run_append]
  have hlistener : Tracks out (if mode.tcpOpen ∧ r.listener = some true then s.onAccept else s)
      (run Arrivals.step a (if mode.tcpOpen ∧ r.listener = some true then [.accepted] else [])) := by
    split
    · exact h.onAccept
    · exact h
  generalize (if mode.tcpOpen ∧ r.listener = some true then s.onAccept else s) = s₁ at hlistener ⊢
  generalize run Arrivals.step a (if mode.tcpOpen ∧ r.listener = some true then [.accepted] else []) = a₁ at hlistener ⊢
  have hclient :
      Tracks out (match r.client with | some recv => if s₁.clientFd then s₁.onClient recv else s₁ | none => s₁)
      (run Arrivals.step a₁ (r.client.toList.flatMap clientEvents)) := by
    cases r.client with
    | none => exact hlistener
    | some recv =>
      simp only [Option.toList_some, List.flatMap_singleton]
      split
      · rename_i hopen
        exact hlistener.onClient hout hopen recv
      · rename_i hopen
        exact hlistener.noClient (by simpa using hopen) recv
  generalize (match r.client with | some recv => if s₁.clientFd then s₁.onClient recv else s₁ | none => s₁) = s₂
    at hclient ⊢
  generalize run Arrivals.step a₁ (r.client.toList.flatMap clientEvents) = a₂ at hclient ⊢
  cases r.datagram with
  | none =>
    have hnone : (if mode.udpOpen then ((none : Option Recv).toList.flatMap datagramEvents) else []) = [] := by
      split <;> rfl
    rw [hnone]
    exact hclient
  | some recv =>
    simp only [Option.toList_some, List.flatMap_singleton]
    split
    · exact hclient.onDatagram hout recv
    · exact hclient

/-- So does every run. -/
theorem run_tracks (hout : out.AtEnd) (mode : Mode) (turns : List Ready) (h : Tracks out s a) :
    Tracks out (run (fun s => CaptureLoop.tick s mode) s turns)
      (run Arrivals.step a (turns.flatMap (Ready.events mode))) := by
  induction turns generalizing s a with
  | nil => exact h
  | cons r turns ih =>
    rw [List.flatMap_cons, Runs.run_append, Runs.run_cons]
    exact ih (tick_tracks hout h mode r)

end Tracks

/-! ## The file at exit -/

/-- **The file at exit is the header and the frames that arrived**, when all writes and the seeks succeed. -/
theorem captureMain_spec (mode : Mode) (outPath : String) (turns : List Ready) :
    let e := captureMain { mode, outPath } turns
    let a := arrivals mode turns
    e.file = (zcmHeader e.ok).bytes ++ a.frames.flatten ∧ e.ok = UInt64.ofNat a.frames.length ∧
      e.drop = UInt64.ofNat a.rejected ∧ e.resync = UInt64.ofNat a.skipped := by
  intro e a
  let out : File := { buffer := (zcmHeader 0).bytes }
  have hout : out.AtEnd := by decide
  have hbegin : rewriteHeader {} true 0 = (true, out) := rewriteHeader_eq rfl 0
  have htracks : Tracks out _ a := run_tracks hout mode turns (Tracks.fresh out)
  simp only [e, captureMain, hbegin, Bool.not_true, Bool.false_eq_true, if_false]
  generalize run (fun s => CaptureLoop.tick s mode) { Capture.fresh out with } turns = s at htracks ⊢
  obtain ⟨hend, hcontents⟩ := hout.append a.frames
  rw [← htracks.out] at hend hcontents
  have hheader : out.contents = (zcmHeader 0).bytes := hout.contents_eq
  have hframes : s.out.contents.drop zcmHeaderSize = a.frames.flatten := by
    rw [hcontents, hheader, ← ZcmHeader.length_bytes (zcmHeader 0), List.drop_left]
  obtain ⟨-, hflushes, hfile⟩ := rewriteHeader_complete hend.2 s.ok
  rw [File.fclose_complete hflushes, hfile, hframes]
  have hok : s.ok = UInt64.ofNat a.frames.length := by
    rw [Arrivals.frames, List.length_map]
    exact htracks.ok
  exact ⟨rfl, hok, htracks.drop, htracks.resync⟩

end ZcMesh.Core
