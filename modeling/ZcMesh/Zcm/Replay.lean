import ZcMesh.Edge.Net
import ZcMesh.Lib.Run
import ZcMesh.Zcm.Format

/-!
# `zcmesh_replay`

`core-engine/src/replay.cpp` behind the parsing of the options: loading the frames, and the loop that sends them. The
sleeps are histories at most; the period of `--pace fixed` is not modelled.

* `loadBlob_zcmFile`, `frameAt_bytesOf`: a file as capture writes it is loaded, and the loop finds its frames.
* Without hard errors the frames go out whole and in order, however the socket cuts them: the loop ends with all of them
  sent, or waits for the socket (`replayLoop_tcp`).
-/

namespace ZcMesh.Core

open LittleEndian (slice)
open Runs (whileLoop)

/-! ## Loading -/

/-- Read the header and the frames: `frame_count` and `blob`. The size of `blob` is a `size_t` product. -/
def loadBlob (mem : Memory) (file : List UInt8) : Except Ending (UInt64 × List UInt8) :=
  let (bytes, rest) := fread file zcmHeaderSize
  let hdr := ZcmHeader.ofBytes bytes
  if bytes.length ≠ zcmHeaderSize ∨ ¬hdr.Valid then .error (.exit 1 "bad .zcm header")
  else
    let want := (hdr.frameCount * UInt64.ofNat wireFrameSize).toNat
    if !mem.allocates want then .error .uncaught
    else if hdr.frameCount > 0 then
      let blob := (fread rest want).1
      if blob.length ≠ want then .error (.exit 1 "truncated .zcm") else .ok (hdr.frameCount, blob)
    else .ok (hdr.frameCount, [])

/-- The offset of frame `i` in `blob`, as the code computes it in 64 bits. -/
def frameOffset (i : Nat) : Nat := i * wireFrameSize % 2 ^ 64

/-- The 24 bytes of frame `i`; `none` when they are not all inside `blob`. -/
def frameAt (blob : List UInt8) (i : Nat) : Option (List UInt8) :=
  if frameOffset i + wireFrameSize ≤ blob.length then some (slice blob (frameOffset i) wireFrameSize) else none

/-! ## Sending -/

/-- `delta_ns`. -/
def deltaNs (prevLo nextLo : UInt32) : UInt64 :=
  let d := nextLo - prevLo
  if d = 0 then 0 else if d > 1000000000 then 1000000000 else d.toUInt64

/-- The options of `zcmesh_replay`: `--transport tcp`, and `--pace capture`. -/
structure ReplayOptions where
  useTcp : Bool := true
  paceCapture : Bool := true

/-- What the calls to the network come to: `net_init`, `parse_endpoint`, `UdpSocket::open`, and the sockets. -/
structure ReplayNet where
  netInit : Bool := true
  endpoint : Option Endpoint
  udpOpen : Bool := true
  tcp : TcpClient := {}
  udp : UdpSocket := {}

/-- The variables of the loop over the frames; `pauses` are the sleeps between them. The counters count turns. -/
structure Replay where
  tcp : TcpClient
  udp : UdpSocket
  pauses : List UInt64 := []
  sent : Nat := 0
  fail : Nat := 0

/-- The variables of the loop over `send_nb`; `broke` records the `break`. -/
structure SendLoop where
  tcp : TcpClient
  off : Nat := 0
  broke : Bool := false

/-- One turn of the loop over `send_nb`; `none` when it is left, or waits because no outcome is there yet. -/
def sendStep (frame : List UInt8) (l : SendLoop) : Option SendLoop :=
  if l.broke ∨ wireFrameSize ≤ l.off then none
  else if l.tcp.connected ∧ l.tcp.sends = [] then none
  else
    let (n, tcp) := l.tcp.sendNb (frame.drop l.off)
    if n < 0 then some { l with tcp := tcp, broke := true } else some { l with tcp := tcp, off := l.off + n.toNat }

/-- The loop over `send_nb`. -/
def sendTcp (tcp : TcpClient) (frame : List UInt8) : SendLoop :=
  whileLoop (sendStep frame) (tcp.sends.length + 1) { tcp := tcp }

/-- Send one frame: whether it went out, `none` while it waits. -/
def Replay.send (s : Replay) (opts : ReplayOptions) (ep : Endpoint) (frame : List UInt8) : Option Bool × Replay :=
  if opts.useTcp then
    let l := sendTcp s.tcp frame
    let ok := if l.off = wireFrameSize then some true else if l.broke then some false else none
    (ok, { s with tcp := l.tcp })
  else
    let (ok, udp) := s.udp.sendTo ep frame
    (some ok, { s with udp := udp })

/-- One frame more, sent or not. -/
def Replay.count (s : Replay) (ok : Bool) : Replay :=
  if ok then { s with sent := s.sent + 1 } else { s with fail := s.fail + 1 }

/-- One turn of the loop over the frames; an early end is an error. -/
def Replay.turn (s : Replay) (opts : ReplayOptions) (ep : Endpoint) (blob : List UInt8) (frameCount i : Nat) :
    Except (Ending × Replay) Replay :=
  match frameAt blob i with
  | none => .error (.outOfBounds, s)
  | some frame =>
    let check := WireFrame.ofBytes frame
    if !verifyFrame check then .ok (s.count false)
    else
      match s.send opts ep frame with
      | (none, s) => .error (.waiting, s)
      | (some ok, s) =>
        let s := s.count ok
        if i + 1 ≥ frameCount ∨ !opts.paceCapture then .ok s
        else
          match frameAt blob (i + 1) with
          | none => .error (.outOfBounds, s)
          | some next =>
            let dns := deltaNs check.timestampLo (WireFrame.ofBytes next).timestampLo
            .ok (if dns > 0 then { s with pauses := s.pauses ++ [dns] } else s)

/-- `k` more turns of the loop over the frames, from the index `i` on. -/
def replayLoop (opts : ReplayOptions) (ep : Endpoint) (blob : List UInt8) (frameCount : Nat) :
    Nat → Nat → Replay → Except (Ending × Replay) Replay
  | 0, _, s => .ok s
  | k + 1, i, s =>
    match s.turn opts ep blob frameCount i with
    | .error e => .error e
    | .ok s => replayLoop opts ep blob frameCount k (i + 1) s

/-- `main`, on the bytes of the file: how it ends, and what was sent until then. -/
def replay (mem : Memory) (opts : ReplayOptions) (net : ReplayNet) (file : List UInt8) : Ending × Replay :=
  let s : Replay := { tcp := net.tcp, udp := net.udp }
  match loadBlob mem file with
  | .error ending => (ending, s)
  | .ok (frameCount, blob) =>
    if !net.netInit then (.exit 1 "", s)
    else
      match net.endpoint with
      | none => (.exit 1 "", s)
      | some ep =>
        let (up, tcp) := if opts.useTcp then s.tcp.connect else (net.udpOpen, s.tcp)
        let s := { s with tcp := tcp }
        if !up then (.exit 1 (if opts.useTcp then "tcp connect failed" else ""), s)
        else
          match replayLoop opts ep blob frameCount.toNat frameCount.toNat 0 s with
          | .error e => e
          | .ok s => (.exit (if s.fail = 0 then 0 else 1) s!"replay done sent={s.sent} fail={s.fail}", s)

/-! ## Frames in `blob` -/

/-- The frames of a blob below `2 ^ 64` bytes are found where they are. -/
theorem frameAt_bytesOf {cs : List WireFrame} (hlt : wireFrameSize * cs.length < 2 ^ 64) {i : Nat}
    (hi : i < cs.length) :
    frameAt (Blocks.bytesOf WireFrame.bytes cs) i = some cs[i].bytes := by
  have hlen := length_frames cs
  simp only [wireFrameSize] at hlt hlen
  have hoff : frameOffset i = 24 * i := by
    rw [frameOffset, wireFrameSize, Nat.mod_eq_of_lt (by omega)]
    omega
  have hcut := Blocks.take_bytesOf WireFrame.length_bytes cs hi (Nat.le_refl wireFrameSize)
  have hwhole := Blocks.take_bytesOf_whole WireFrame.length_bytes cs i
  have hbytes : cs[i].bytes.take wireFrameSize = cs[i].bytes := List.take_of_length_le (Nat.le_refl 24)
  rw [hbytes, ← hwhole, List.take_add] at hcut
  have hslice : slice (Blocks.bytesOf WireFrame.bytes cs) (24 * i) 24 = cs[i].bytes := List.append_cancel_left hcut
  rw [frameAt, hoff, wireFrameSize, hslice, hlen, if_pos (by omega)]

/-- **A file as capture writes it is loaded.** -/
theorem loadBlob_zcmFile {mem : Memory} {cs : List WireFrame}
    (hmem : mem.allocates (wireFrameSize * cs.length) = true) :
    loadBlob mem (zcmFile cs) = .ok (UInt64.ofNat cs.length, Blocks.bytesOf WireFrame.bytes cs) := by
  have hlt := Memory.lt_of_allocates hmem
  have hlen := length_frames cs
  have hwant : (UInt64.ofNat cs.length * UInt64.ofNat wireFrameSize).toNat = wireFrameSize * cs.length := by
    have hsize : cs.length * wireFrameSize < UInt64.size := by simp only [UInt64.size, wireFrameSize] at *; omega
    rw [← UInt64.ofNat_mul, UInt64.toNat_ofNat_of_lt' hsize, Nat.mul_comm]
  have hblob : (fread (Blocks.bytesOf WireFrame.bytes cs) (wireFrameSize * cs.length)).1 =
      Blocks.bytesOf WireFrame.bytes cs := List.take_of_length_le (Nat.le_of_eq hlen)
  simp only [loadBlob, fread_zcmFile, ZcmHeader.length_bytes, ZcmHeader.ofBytes_bytes, zcmHeader_valid,
    frameCount_zcmHeader, hwant, hmem, hblob, hlen, ne_eq, not_true, if_false, or_self, Bool.not_true,
    Bool.false_eq_true]
  split
  · rfl
  · rename_i hzero
    have hnil : cs = [] := by
      by_contra hne
      have hpos := List.length_pos_iff.mpr hne
      apply hzero
      have hsize : cs.length < UInt64.size := by simp only [UInt64.size, wireFrameSize] at *; omega
      rw [gt_iff_lt, UInt64.lt_iff_toNat_lt, UInt64.toNat_ofNat_of_lt' hsize]
      exact hpos
    rw [hnil]
    rfl

/-! ## Sending over TCP -/

/-- The kernel takes something. -/
def SendOutcome.takes : SendOutcome → Bool
  | .accepted _ => true
  | _ => false

/-- Inside the loop over `send_nb` without hard errors: the connection, which had accepted `out`, has accepted the frame
up to `off`, and every outcome that takes something has moved `off`. -/
structure Sending (tcp : TcpClient) (out frame : List UInt8) (l : SendLoop) : Prop where
  stream : l.tcp.stream = some (out ++ frame.take l.off)
  sends : l.tcp.sends <:+ tcp.sends
  takes : tcp.sends.countP SendOutcome.takes ≤ l.tcp.sends.countP SendOutcome.takes + l.off
  off_le : l.off ≤ wireFrameSize
  unbroken : l.broke = false

section Tcp

variable {tcp : TcpClient} {out frame : List UInt8}

theorem Sending.start (h : tcp.stream = some out) : Sending tcp out frame { tcp := tcp } where
  stream := by simpa using h
  sends := List.suffix_rfl
  takes := Nat.le_refl _
  off_le := Nat.zero_le _
  unbroken := rfl

/-- What a turn does on a connection that is up: the next outcome fails for good, takes nothing, or takes some bytes. -/
theorem sendStep_cases (hframe : frame.length = wireFrameSize) {l l' : SendLoop} (hup : l.tcp.connected = true)
    (hs : sendStep frame l = some l') : ∃ o rest, l.tcp.sends = o :: rest ∧
      (o = .hardError ∨ (o = .wouldBlock ∧ l' = { l with tcp := l.tcp.sending }) ∨
        ∃ n m, o = .accepted n ∧ 1 ≤ m ∧ l.off + m ≤ wireFrameSize ∧
          l' = { l with tcp := l.tcp.sending.accept ((frame.drop l.off).take m), off := l.off + m }) := by
  unfold sendStep at hs
  split at hs
  · cases hs
  rename_i hopen
  simp only [not_or, Nat.not_le] at hopen
  split at hs
  · cases hs
  rename_i hwait
  have hlen : (frame.drop l.off).length = wireFrameSize - l.off := by rw [List.length_drop, hframe]
  have hne : ((frame.drop l.off).length == 0) = false := by
    rw [hlen, beq_eq_false_iff_ne]
    omega
  simp only [TcpClient.sendNb, hup, hne, Bool.not_true, Bool.or_self, Bool.false_eq_true, if_false] at hs
  cases hcase : l.tcp.sends with
  | nil => exact absurd ⟨hup, hcase⟩ hwait
  | cons o rest =>
    refine ⟨o, rest, rfl, ?_⟩
    rw [hcase, List.headD_cons] at hs
    cases o with
    | hardError =>
      left
      rfl
    | wouldBlock =>
      cases hs
      right
      left
      exact ⟨rfl, rfl⟩
    | accepted n =>
      have hpos : ¬((min (max n 1) (frame.drop l.off).length : Nat) : Int) < 0 := by omega
      simp only [hpos, if_false, Int.toNat_natCast, Option.some.injEq] at hs
      right
      right
      refine ⟨n, min (max n 1) (frame.drop l.off).length, rfl, ?_, ?_, hs.symm⟩
      · omega
      · omega

/-- **One turn of the loop over `send_nb`** uses up an outcome and keeps the account. -/
theorem Sending.step (hframe : frame.length = wireFrameSize) (hsoft : .hardError ∉ tcp.sends) {l l' : SendLoop}
    (hl : Sending tcp out frame l) (hs : sendStep frame l = some l') :
    Sending tcp out frame l' ∧ l'.tcp.sends.length < l.tcp.sends.length := by
  have hup : l.tcp.connected = true := TcpClient.connected_iff.mpr ⟨_, hl.stream⟩
  obtain ⟨o, rest, hcase, h⟩ := sendStep_cases hframe hup hs
  have hsends := hl.sends
  have htakes := hl.takes
  rw [hcase] at hsends htakes
  have htail : l.tcp.sending.sends = rest := by
    unfold TcpClient.sending
    rw [hcase, List.tail_cons]
  have hrest : l.tcp.sending.sends <:+ tcp.sends := by
    rw [htail]
    exact (List.suffix_cons o rest).trans hsends
  have hless : l.tcp.sending.sends.length < l.tcp.sends.length := by
    rw [htail, hcase, List.length_cons]
    omega
  rcases h with rfl | ⟨rfl, rfl⟩ | ⟨n, m, rfl, hpos, hle, rfl⟩
  · exact absurd (hsends.subset List.mem_cons_self) hsoft
  · refine ⟨?_, hless⟩
    exact
      { stream := hl.stream
        sends := hrest
        takes := by simpa [htail, SendOutcome.takes] using htakes
        off_le := hl.off_le
        unbroken := hl.unbroken }
  · refine ⟨?_, hless⟩
    exact
      { stream := by
          have hstream : l.tcp.sending.stream = some (out ++ frame.take l.off) := hl.stream
          unfold TcpClient.accept
          simp only [hstream, Option.map_some, List.append_assoc, List.take_add]
        sends := hrest
        takes := by
          show _ ≤ l.tcp.sending.sends.countP _ + (l.off + m)
          simp only [List.countP_cons, SendOutcome.takes, if_true] at htakes
          rw [htail]
          omega
        off_le := hle
        unbroken := hl.unbroken }

/-- The loop is left with the frame put out, or waits with the outcomes used up. -/
theorem Sending.left {l : SendLoop} (hl : Sending tcp out frame l) (hs : sendStep frame l = none) :
    l.off = wireFrameSize ∨ l.tcp.sends = [] := by
  have hoff := hl.off_le
  unfold sendStep at hs
  split at hs
  · rename_i hleft
    rw [hl.unbroken] at hleft
    simp only [Bool.false_eq_true, false_or] at hleft
    exact Or.inl (Nat.le_antisymm hoff hleft)
  · split at hs
    · rename_i hwait
      exact Or.inr hwait.2
    · simp only at hs
      split at hs <;> cases hs

/-- **The loop over `send_nb`** puts out the frame, or waits with the outcomes used up. -/
theorem sendTcp_spec (h : tcp.stream = some out) (hframe : frame.length = wireFrameSize)
    (hsoft : .hardError ∉ tcp.sends) :
    Sending tcp out frame (sendTcp tcp frame) ∧
      ((sendTcp tcp frame).off = wireFrameSize ∨ (sendTcp tcp frame).tcp.sends = []) := by
  have hstep : ∀ l l', Sending tcp out frame l → sendStep frame l = some l' →
      Sending tcp out frame l' ∧ l'.tcp.sends.length < l.tcp.sends.length :=
    fun l l' hl hs => hl.step hframe hsoft hs
  have hstart : Sending tcp out frame { tcp := tcp } := Sending.start h
  obtain ⟨hl, hend⟩ := Runs.whileLoop_ends hstep (tcp.sends.length + 1) _ hstart (Nat.le_succ _)
  exact ⟨hl, hl.left hend⟩

end Tcp

/-! ## The loop over the frames -/

/-- Before frame `i`: the frames in front of it have gone out on the connection, behind what it had accepted before. -/
structure SentUpTo (tcp : TcpClient) (out : List UInt8) (cs : List WireFrame) (i : Nat) (s : Replay) : Prop where
  stream : s.tcp.stream = some (out ++ Blocks.bytesOf WireFrame.bytes (cs.take i))
  sends : s.tcp.sends <:+ tcp.sends
  takes : tcp.sends.countP SendOutcome.takes ≤ s.tcp.sends.countP SendOutcome.takes + wireFrameSize * i
  sent : s.sent = i
  fail : s.fail = 0

/-- Waiting for the socket: a part of the frames has gone out, and no outcome that takes something was left over. -/
structure StoppedShort (tcp : TcpClient) (out : List UInt8) (cs : List WireFrame) (s : Replay) : Prop where
  stream : ∃ part, s.tcp.stream = some (out ++ part) ∧ part <+: Blocks.bytesOf WireFrame.bytes cs
  takes : tcp.sends.countP SendOutcome.takes < wireFrameSize * cs.length

section Loop

variable {tcp : TcpClient} {out : List UInt8} {cs : List WireFrame}

/-- A frame more goes out behind the frames in front of it. -/
theorem bytesOf_take_succ {i : Nat} (hi : i < cs.length) :
    Blocks.bytesOf WireFrame.bytes (cs.take (i + 1)) = Blocks.bytesOf WireFrame.bytes (cs.take i) ++ cs[i].bytes := by
  rw [List.take_succ_eq_append_getElem hi, Blocks.bytesOf_append, Blocks.bytesOf_cons, Blocks.bytesOf_nil,
    List.append_nil]

/-- The frame has gone out; the pauses are all that the pacing changes. -/
theorem SentUpTo.next {i : Nat} (hi : i < cs.length) {s : Replay} (hs : SentUpTo tcp out cs i s) {l : SendLoop}
    (hl : Sending s.tcp (out ++ Blocks.bytesOf WireFrame.bytes (cs.take i)) cs[i].bytes l)
    (hwhole : l.off = wireFrameSize) (pauses : List UInt64) :
    SentUpTo tcp out cs (i + 1)
      { tcp := l.tcp, udp := s.udp, pauses := pauses, sent := s.sent + 1, fail := s.fail } where
  stream := by
    have hbytes : cs[i].bytes.take wireFrameSize = cs[i].bytes := List.take_of_length_le (Nat.le_refl 24)
    show l.tcp.stream = _
    rw [hl.stream, hwhole, hbytes, bytesOf_take_succ hi, List.append_assoc]
  sends := hl.sends.trans hs.sends
  takes := by
    have hbefore := hs.takes
    have htakes := hl.takes
    show _ ≤ l.tcp.sends.countP _ + _
    rw [Nat.mul_succ]
    omega
  sent := congrArg (· + 1) hs.sent
  fail := hs.fail

/-- The outcomes are used up in the middle of the frame. -/
theorem SentUpTo.stop {i : Nat} (hi : i < cs.length) {s : Replay} (hs : SentUpTo tcp out cs i s) {l : SendLoop}
    (hl : Sending s.tcp (out ++ Blocks.bytesOf WireFrame.bytes (cs.take i)) cs[i].bytes l)
    (hpart : l.off ≠ wireFrameSize) (hempty : l.tcp.sends = []) :
    StoppedShort tcp out cs { s with tcp := l.tcp } where
  stream := by
    refine ⟨Blocks.bytesOf WireFrame.bytes (cs.take i) ++ cs[i].bytes.take l.off, ?_, ?_⟩
    · show l.tcp.stream = _
      rw [hl.stream, List.append_assoc]
    · have hpre : Blocks.bytesOf WireFrame.bytes (cs.take (i + 1)) <+: Blocks.bytesOf WireFrame.bytes cs := by
        conv_rhs => rw [← List.take_append_drop (i + 1) cs, Blocks.bytesOf_append]
        exact List.prefix_append _ _
      refine List.IsPrefix.trans ?_ hpre
      rw [bytesOf_take_succ hi]
      exact (List.prefix_append_right_inj _).mpr (List.take_prefix _ _)
  takes := by
    have hbefore := hs.takes
    have htakes := hl.takes
    have hoff := hl.off_le
    have hmul : wireFrameSize * (i + 1) ≤ wireFrameSize * cs.length := Nat.mul_le_mul_left _ hi
    rw [hempty, List.countP_nil, Nat.zero_add] at htakes
    rw [Nat.mul_succ] at hmul
    omega

/-- **One turn over TCP** sends the frame, or waits for the socket. -/
theorem SentUpTo.turn {opts : ReplayOptions} (htcp : opts.useTcp = true) (ep : Endpoint)
    (hlt : wireFrameSize * cs.length < 2 ^ 64) (hcs : ∀ c ∈ cs, verifyFrame c = true) (hsoft : .hardError ∉ tcp.sends)
    {i : Nat} (hi : i < cs.length) {s : Replay} (hs : SentUpTo tcp out cs i s) :
    let r := s.turn opts ep (Blocks.bytesOf WireFrame.bytes cs) cs.length i
    (∃ s', r = .ok s' ∧ SentUpTo tcp out cs (i + 1) s') ∨
      ∃ s', r = .error (.waiting, s') ∧ StoppedShort tcp out cs s' := by
  intro r
  have hv : verifyFrame cs[i] = true := hcs _ (List.getElem_mem hi)
  have hsoft' : SendOutcome.hardError ∉ s.tcp.sends := fun h => hsoft (hs.sends.subset h)
  obtain ⟨hl, hend⟩ := sendTcp_spec hs.stream (WireFrame.length_bytes cs[i]) hsoft'
  have hr : r = s.turn opts ep (Blocks.bytesOf WireFrame.bytes cs) cs.length i := rfl
  simp only [Replay.turn, frameAt_bytesOf hlt hi, WireFrame.ofBytes_bytes, hv, Bool.not_true, Bool.false_eq_true,
    if_false, Replay.send, htcp, if_true] at hr
  generalize sendTcp s.tcp cs[i].bytes = l at hl hend hr
  by_cases hwhole : l.off = wireFrameSize
  · left
    simp only [hwhole, if_true, Replay.count] at hr
    split at hr
    · exact ⟨_, hr, hs.next hi hl hwhole s.pauses⟩
    · rename_i hmore
      simp only [ge_iff_le, not_or, Nat.not_le] at hmore
      simp only [frameAt_bytesOf hlt hmore.1] at hr
      split at hr
      · exact ⟨_, hr, hs.next hi hl hwhole _⟩
      · exact ⟨_, hr, hs.next hi hl hwhole s.pauses⟩
  · right
    simp only [hwhole, if_false, hl.unbroken, Bool.false_eq_true] at hr
    exact ⟨_, hr, hs.stop hi hl hwhole (hend.resolve_left hwhole)⟩

/-- **The loop over TCP** sends all frames, or waits for the socket. -/
theorem replayLoop_tcp {opts : ReplayOptions} (htcp : opts.useTcp = true) (ep : Endpoint)
    (hlt : wireFrameSize * cs.length < 2 ^ 64) (hcs : ∀ c ∈ cs, verifyFrame c = true) (hsoft : .hardError ∉ tcp.sends)
    {k i : Nat} (hk : i + k = cs.length) {s : Replay} (hs : SentUpTo tcp out cs i s) :
    let r := replayLoop opts ep (Blocks.bytesOf WireFrame.bytes cs) cs.length k i s
    (∃ s', r = .ok s' ∧ SentUpTo tcp out cs cs.length s') ∨
      ∃ s', r = .error (.waiting, s') ∧ StoppedShort tcp out cs s' := by
  induction k generalizing i s with
  | zero =>
    rw [Nat.add_zero] at hk
    exact Or.inl ⟨s, rfl, hk ▸ hs⟩
  | succ k ih =>
    intro r
    rcases hs.turn htcp ep hlt hcs hsoft (by omega) with ⟨s', hturn, hs'⟩ | ⟨s', hturn, hs'⟩
    · have hrest := ih (by omega) hs'
      simp only [r, replayLoop, hturn]
      exact hrest
    · right
      exact ⟨s', by simp only [r, replayLoop, hturn], hs'⟩

end Loop

end ZcMesh.Core
