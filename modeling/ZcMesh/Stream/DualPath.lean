import Mathlib.Data.UInt
import ZcMesh.Lib.Blocks
import ZcMesh.Lib.Merge
import ZcMesh.Stats.Offers
import ZcMesh.Stream.Receiver

/-!
# The receiver with all its connections

`operator-node/.../net/FrameReceiver.java`: `run`, `accept`, `readTcp` and `readUdp`. The loop of `run` handles the keys
that `select` finds ready: the server socket, the TCP connections, each with the buffer attached to its key, and the
datagram channel. What the channels give is the input.

* One key adds to one path only: a connection goes on with the scan of its own bytes, a datagram falls into its whole
  blocks (`Received.tcp`, `Received.udp`).
* So the pipeline gets a merge of the reference scans of the connections and of the blocks of the datagrams, whatever
  the order of the keys (`dual_path`). Of the bytes that the scans pass, it is not told of those behind the last magic
  of a read (`unreported`).
-/

namespace ZcMesh.Operator

open WindowScan (scan unmarkedTail unmarkedTails)
open Runs (whileLoop run)

/-! ## The code -/

/-- The path of a frame; connections are numbered in the order of `accept`. -/
inductive Path
  | tcp (conn : Nat)
  | udp
  deriving DecidableEq, Repr

/-- A registered connection: the buffer attached to its key, whether the key is valid, and, as a history, what its reads
gave. -/
structure Connection where
  buf : ByteBuffer := .allocateDirect (256 * 1024)
  valid : Bool := true
  reads : List (List UInt8) := []

/-- The bytes read from it. -/
def Connection.received (c : Connection) : List UInt8 := c.reads.flatten

/-- `FrameReceiver`, with the keys of its selector. An exception ends the thread. The histories: the frames offered,
with their paths, and the datagrams received. -/
structure FrameReceiver where
  tcpEnabled : Bool
  pipeline : TelemetryPipeline
  udpBuf : ByteBuffer := .allocateDirect (64 * 1024)
  conns : List Connection := []
  threw : Option String := none
  offered : List (Path × WireFrame) := []
  datagrams : List (List UInt8) := []

/-- A ready key and what its channel gives, if it does not throw: a client or `null`; the bytes read, or `-1` at the
end of the stream; a datagram or `null`. -/
inductive ReadyKey
  | server (client : Except String Bool)
  | tcp (conn : Nat) (read : Except String (Option (List UInt8)))
  | udp (received : Except String (Option (List UInt8)))

/-- One turn of the loop of `readUdp`. -/
def udpStep (r : Receiver) : Option Receiver :=
  if h : r.threw = none ∧ r.buf.position + WireFrame.SIZE ≤ r.buf.limit then
    match WireFrame.decode (r.buf.slice.take WireFrame.SIZE) with
    | .error msg => some { r with threw := some msg }
    | .ok frame =>
      some
        { r with
          pipeline := r.pipeline.offer frame
          offered := r.offered ++ [frame]
          buf := r.buf.setPosition (r.buf.position + WireFrame.SIZE) h.2 }
  else none

/-- `readUdp`, when `datagram` has come in. -/
def readUdp (r : Receiver) (datagram : List UInt8) : Receiver :=
  whileLoop udpStep r.buf.capacity { r with buf := (r.buf.clear.read datagram).flip }

namespace FrameReceiver

/-- `accept`. -/
def accept (s : FrameReceiver) : Except String Bool → FrameReceiver
  | .error msg => { s with threw := some msg }
  | .ok false => s
  | .ok true => { s with conns := s.conns ++ [{}] }

/-- `readTcp`, on the key of the connection `c`. -/
def readTcp (s : FrameReceiver) (conn : Nat) (c : Connection) : Except String (Option (List UInt8)) → FrameReceiver
  | .error msg => { s with threw := some msg }
  | .ok none => { s with conns := s.conns.set conn { c with valid := false } }
  | .ok (some data) =>
    let r := Operator.readTcp { buf := c.buf, pipeline := s.pipeline } data
    { s with
      pipeline := r.pipeline
      conns := s.conns.set conn { c with buf := r.buf, reads := c.reads ++ [data.take c.buf.remaining] }
      threw := r.threw
      offered := s.offered ++ r.offered.map (Path.tcp conn, ·) }

/-- `readUdp`. -/
def readUdp (s : FrameReceiver) : Except String (Option (List UInt8)) → FrameReceiver
  | .error msg => { s with threw := some msg }
  | .ok none => { s with udpBuf := s.udpBuf.clear }
  | .ok (some datagram) =>
    let r := Operator.readUdp { buf := s.udpBuf, pipeline := s.pipeline } datagram
    { s with
      pipeline := r.pipeline
      udpBuf := r.buf
      threw := r.threw
      offered := s.offered ++ r.offered.map (Path.udp, ·)
      datagrams := s.datagrams ++ [datagram] }

/-- One ready key in the loop of `run`. -/
def handle (s : FrameReceiver) (key : ReadyKey) : FrameReceiver :=
  if s.threw.isSome then s
  else
    match key with
    | .server client => if s.tcpEnabled then s.accept client else s
    | .tcp conn read =>
      match s.conns[conn]? with
      | some c => if c.valid then s.readTcp conn c read else s
      | none => s
    | .udp received => s.readUdp received

/-- `run`, in front of its loop. -/
def start (pipeline : TelemetryPipeline) (tcpEnabled : Bool) : FrameReceiver := { tcpEnabled, pipeline }

/-- The bytes read from each connection. -/
def streams (s : FrameReceiver) : List (List UInt8) := s.conns.map (·.received)

end FrameReceiver

/-! ## A datagram -/

/-- The loop of `readUdp` has offered the first blocks `ws` of `data`. -/
structure UdpProgress (p : TelemetryPipeline) (capacity : Nat) (data : List UInt8) (ws : List (List UInt8))
    (r : Receiver) : Prop where
  threw : r.threw = none
  told : Told p ws 0 0 r.pipeline
  offered : r.offered = ws.map frameOf
  done : ws ++ Blocks.cut 24 r.buf.slice = Blocks.cut 24 data
  capacity : r.buf.capacity = capacity

theorem UdpProgress.step {p : TelemetryPipeline} {capacity : Nat} {data : List UInt8} {ws : List (List UInt8)}
    {r r' : Receiver} (h : UdpProgress p capacity data ws r) (hstep : udpStep r = some r') :
    (∃ ws', UdpProgress p capacity data ws' r') ∧ r'.buf.remaining < r.buf.remaining := by
  unfold udpStep at hstep
  split at hstep
  · rename_i hfull
    have hwidth : 24 ≤ r.buf.slice.length := by
      have := hfull.2
      rw [ByteBuffer.length_slice, ByteBuffer.remaining]
      simp only [WireFrame.SIZE] at this
      omega
    have hdecode : WireFrame.decode (r.buf.slice.take WireFrame.SIZE) = .ok (frameOf (r.buf.slice.take 24)) :=
      decode_eq_view (List.length_take_of_le hwidth)
    rw [hdecode] at hstep
    obtain rfl := Option.some.inj hstep
    refine ⟨⟨ws ++ [r.buf.slice.take 24], h.threw, h.told.trans (.offer r.pipeline _), ?_, ?_, h.capacity⟩, ?_⟩
    · simp [h.offered]
    · rw [← h.done, Blocks.cut_of_le (by decide) hwidth, List.append_assoc, List.singleton_append,
        ByteBuffer.slice_setPosition]
      rfl
    · have := hfull.2
      simp only [WireFrame.SIZE] at this
      simp only [ByteBuffer.remaining, ByteBuffer.setPosition, WireFrame.SIZE]
      omega
  · cases hstep

/-- **A datagram falls into its whole blocks**, as far as the buffer takes it. -/
theorem readUdp_spec (b : ByteBuffer) (p : TelemetryPipeline) (datagram : List UInt8) :
    let r := readUdp { buf := b, pipeline := p } datagram
    let ws := Blocks.cut 24 (datagram.take b.capacity)
    r.threw = none ∧ Told p ws 0 0 r.pipeline ∧ r.offered = ws.map frameOf ∧ r.buf.capacity = b.capacity := by
  intro r ws
  have hstart : UdpProgress p (b.clear.read datagram).flip.capacity (datagram.take b.capacity) []
      { buf := (b.clear.read datagram).flip, pipeline := p } :=
    ⟨rfl, .refl p, rfl, by rw [List.nil_append, ByteBuffer.slice_receive], rfl⟩
  have hcap : (b.clear.read datagram).flip.capacity = b.capacity := ByteBuffer.capacity_read _ _
  rw [hcap] at hstart
  have hstep : ∀ r r' : Receiver, (∃ ws, UdpProgress p b.capacity (datagram.take b.capacity) ws r) →
      udpStep r = some r' → (∃ ws, UdpProgress p b.capacity (datagram.take b.capacity) ws r') ∧
        r'.buf.remaining < r.buf.remaining := by
    rintro r r' ⟨ws, h⟩ hs
    exact h.step hs
  obtain ⟨⟨done, h⟩, hend⟩ := Runs.whileLoop_ends (μ := fun r : Receiver => r.buf.remaining) hstep b.capacity _
    ⟨_, hstart⟩ (by
    rw [← ByteBuffer.length_slice, ByteBuffer.slice_receive, List.length_take]
    exact Nat.min_le_left _ _)
  have h : UdpProgress p b.capacity (datagram.take b.capacity) done r := h
  have hend : udpStep r = none := hend
  have hshort : r.buf.slice.length < 24 := by
    by_contra hc
    rw [ByteBuffer.length_slice, ByteBuffer.remaining] at hc
    unfold udpStep at hend
    rw [dif_pos ⟨h.threw, by simp only [WireFrame.SIZE]; omega⟩] at hend
    split at hend <;> cases hend
  have hdone : done = ws := by
    have := h.done
    rw [Blocks.cut_of_lt hshort, List.append_nil] at this
    exact this
  exact ⟨h.threw, hdone ▸ h.told, hdone ▸ h.offered, h.capacity⟩

/-! ## A read of a connection -/

/-- What `decodeStream` offers decides about everything but its reports. -/
theorem decodeStream_statistics (r : Receiver) : ∃ fs, (decodeStream r).offered = r.offered ++ fs ∧
    (decodeStream r).pipeline.statistics = (run TelemetryPipeline.offer r.pipeline fs).statistics ∧
    (decodeStream r).pipeline.bytesIn.toUInt64 = r.pipeline.bytesIn.toUInt64 + 24 * UInt64.ofNat fs.length := by
  let P (l : DecodeLoop) : Prop := ∃ fs, l.offered = r.offered ++ fs ∧
    l.pipeline.statistics = (run TelemetryPipeline.offer r.pipeline fs).statistics ∧
    l.pipeline.bytesIn.toUInt64 = r.pipeline.bytesIn.toUInt64 + 24 * UInt64.ofNat fs.length
  have hstep : ∀ l l' : DecodeLoop, P l → decodeStep l = some l' → P l' := by
    rintro l l' ⟨fs, hoffered, hstat, hbytes⟩ hs
    unfold decodeStep at hs
    split at hs
    · split at hs
      · split at hs
        · cases hs
          exact ⟨fs, hoffered, hstat, hbytes⟩
        · cases hs
          refine ⟨fs, hoffered, (statistics_noteTcpResync _ _).trans hstat, ?_⟩
          rw [← hbytes, DecodeLoop.toMagic, TelemetryPipeline.noteTcpResync]
          split <;> rfl
      · cases hs
        unfold DecodeLoop.tryFrame
        split
        · exact ⟨fs, hoffered, hstat, hbytes⟩
        · rename_i frame _
          split
          · exact ⟨fs, hoffered, (statistics_noteTcpResync _ _).trans hstat, hbytes⟩
          · rename_i hcrc
            refine ⟨fs ++ [frame], by rw [← List.append_assoc, ← hoffered], ?_, ?_⟩
            · rw [Runs.run_snoc]
              exact statistics_offer hstat frame
            · have hone : (l.pipeline.offer frame).bytesIn = l.pipeline.bytesIn + 24 := by
                simp only [TelemetryPipeline.offer, hcrc]
                rfl
              rw [List.length_append, UInt64.ofNat_add, UInt64.mul_add, ← UInt64.add_assoc, ← hbytes]
              exact (congrArg Int64.toUInt64 hone).trans (Int64.toUInt64_add _ _)
    · cases hs
  have hloop : P (whileLoop decodeStep (r.buf.position + 1) { r with buf := r.buf.flip, broke := false }) :=
    Runs.whileLoop_inv hstep _ _ ⟨[], (List.append_nil _).symm, rfl, (UInt64.add_zero _).symm⟩
  unfold decodeStream
  generalize whileLoop decodeStep (r.buf.position + 1) { r with buf := r.buf.flip, broke := false } = l at hloop
  dsimp only
  split <;> exact hloop

/-- A read takes no more than there is room for. -/
theorem readTcp_take (r : Receiver) (data : List UInt8) : readTcp r (data.take r.buf.remaining) = readTcp r data := by
  have hread : r.buf.read (data.take r.buf.remaining) = r.buf.read data := by
    simp [ByteBuffer.read, List.take_take]
  rw [readTcp, readTcp, hread]

/-- **A read goes on with the scan of the connection.** -/
theorem readTcp_told {r : Receiver} (hr : Ready r) (data : List UInt8) :
    let r' := readTcp r data
    let q := scan frameSpec (r.buf.pending ++ data.take r.buf.remaining)
    Ready r' ∧ r'.buf.pending = q.rest ∧ r'.buf.capacity = r.buf.capacity ∧
      r'.offered = r.offered ++ q.frames.map frameOf ∧
      let lost := unmarkedTail frameSpec (r.buf.pending ++ data.take r.buf.remaining)
      lost ≤ q.skipped ∧ Told r.pipeline q.frames q.rejected (q.skipped - lost) r'.pipeline := by
  intro r' q
  have hfit : Fits r (data.take r.buf.remaining) := List.length_take_le _ _
  have h := readTcp_spec hr hfit
  rw [readTcp_take] at h
  obtain ⟨fs, hoffered, hstat, hbytes⟩ := decodeStream_statistics { r with buf := r.buf.read data }
  have hread : r' = decodeStream { r with buf := r.buf.read data } := by
    show readTcp r data = _
    rw [readTcp, hr.threw]
  have hfs : fs = q.frames.map frameOf := by
    have hsame := h.counted.offered
    rw [show readTcp r data = decodeStream { r with buf := r.buf.read data } from hread, hoffered] at hsame
    exact List.append_cancel_left hsame
  have hgood : (q.frames.countP fun w => !(frameOf w).crcOk) = 0 := by
    rw [List.countP_eq_zero]
    intro w hw
    have hacc := (WindowScan.scan_frames_accept _ w hw).2
    have hv : (frameOf w).crcOk = true := by
      simp only [frameSpec, Bool.and_eq_true] at hacc
      exact hacc.2
    simp [hv]
  refine ⟨h.ready, h.rest, h.capacity, h.counted.offered, h.counted.lost_le, ?_⟩
  exact
    { statistics := by rw [hread, hstat, hfs]
      bytesIn := by rw [hread, hbytes, hfs, List.length_map]
      crcFail := by rw [hgood]; exact h.counted.crcFail
      resync := h.counted.resync }

/-! ## All paths -/

/-- The exception of a channel. -/
def ReadyKey.failure : ReadyKey → Option String
  | .server (.error msg) | .tcp _ (.error msg) | .udp (.error msg) => some msg
  | _ => none

/-- A connection between two of its reads. -/
structure Connection.Sound (c : Connection) : Prop where
  limit : c.buf.limit = c.buf.capacity
  capacity : c.buf.capacity = 262144
  pending : c.buf.pending = (scan frameSpec c.received).rest

namespace FrameReceiver

/-- A count of the reference scans, over the connections. -/
def tally (f : WindowScan.Result UInt8 → Nat) (streams : List (List UInt8)) : Nat :=
  (streams.map fun bytes => f (scan frameSpec bytes)).sum

/-- The bytes that the reads of the connections pass behind their last magics: `decodeStream` leaves its loop there
without `noteTcpResync`. -/
def unreported (s : FrameReceiver) : Nat := (s.conns.map fun c => unmarkedTails frameSpec [] c.reads).sum

/-- The receiver has offered the windows of `log`, in this order; `lost` of the bytes passed on the connections are not
reported. -/
structure Received (p₀ : TelemetryPipeline) (s : FrameReceiver) (log : List (Path × List UInt8)) (lost : Nat) :
    Prop where
  offered : s.offered = log.map fun e => (e.1, frameOf e.2)
  tcp : ∀ i, Merge.stream (.tcp i) log = (scan frameSpec (s.streams.getD i [])).frames
  udp : Merge.stream .udp log = s.datagrams.flatMap fun d => Blocks.cut 24 (d.take 65536)
  conns : ∀ c ∈ s.conns, c.Sound
  udpBuf : s.udpBuf.capacity = 65536
  lost_eq : lost = s.unreported
  lost_le : lost ≤ tally (·.skipped) s.streams
  told : Told p₀ (log.map (·.2)) (tally (·.rejected) s.streams) (tally (·.skipped) s.streams - lost) s.pipeline

variable {p₀ : TelemetryPipeline} {s : FrameReceiver} {log : List (Path × List UInt8)} {lost : Nat}

theorem scan_nil : scan frameSpec [] = .start [] := WindowScan.scan_short (by decide)

theorem Received.start (p₀ : TelemetryPipeline) (tcpEnabled : Bool) : Received p₀ (.start p₀ tcpEnabled) [] 0 where
  offered := rfl
  tcp i := by
    show [] = (scan frameSpec []).frames
    rw [scan_nil]
    rfl
  udp := rfl
  conns := nofun
  udpBuf := List.length_replicate
  lost_eq := rfl
  lost_le := Nat.le_refl 0
  told := .refl p₀

/-- A new connection has read nothing. -/
theorem Received.accept (h : Received p₀ s log lost) : Received p₀ { s with conns := s.conns ++ [{}] } log lost := by
  have hstreams : streams { s with conns := s.conns ++ [{}] } = s.streams ++ [[]] := by
    simp [streams, Connection.received]
  have htally : ∀ f : WindowScan.Result UInt8 → Nat, f (.start []) = 0 →
      tally f (s.streams ++ [[]]) = tally f s.streams := by
    intro f hf
    simp [tally, scan_nil, hf]
  have hby : ∀ i, (s.streams ++ [[]]).getD i [] = s.streams.getD i [] := by
    intro i
    simp only [List.getD_eq_getElem?_getD, List.getElem?_append, List.getElem?_singleton]
    split
    · rfl
    · rename_i hi
      rw [List.getElem?_eq_none (Nat.not_lt.mp hi)]
      split <;> rfl
  exact
    { offered := h.offered
      tcp := fun i => by rw [hstreams, hby, h.tcp]
      udp := h.udp
      conns := by
        intro c hc
        rcases List.mem_append.mp hc with hc | hc
        · exact h.conns c hc
        · rw [List.mem_singleton.mp hc]
          refine ⟨List.length_replicate.symm, List.length_replicate, ?_⟩
          show _ = (scan frameSpec []).rest
          rw [scan_nil]
          rfl
      udpBuf := h.udpBuf
      lost_eq := by simp [h.lost_eq, unreported, unmarkedTails]
      lost_le := by rw [hstreams, htally _ rfl]; exact h.lost_le
      told := by rw [hstreams, htally _ rfl, htally _ rfl]; exact h.told }

/-- The end of a stream. -/
theorem Received.close (h : Received p₀ s log lost) {i : Nat} {c : Connection} (hc : s.conns[i]? = some c) :
    Received p₀ { s with conns := s.conns.set i { c with valid := false } } log lost := by
  have hreads : ∀ {β : Type} (f : List (List UInt8) → β),
      (s.conns.set i { c with valid := false }).map (fun d => f d.reads) = s.conns.map fun d => f d.reads := by
    intro β f
    obtain ⟨hi, rfl⟩ := List.getElem?_eq_some_iff.mp hc
    rw [List.map_set]
    apply List.ext_getElem (by simp)
    intro j h1 h2
    rw [List.getElem_set]
    split
    · rename_i hij
      subst hij
      simp
    · rfl
  have hstreams : streams { s with conns := s.conns.set i { c with valid := false } } = s.streams := hreads _
  exact
    { offered := h.offered
      tcp := by rw [hstreams]; exact h.tcp
      udp := h.udp
      conns := by
        intro d hd
        rcases List.mem_or_eq_of_mem_set hd with hd | rfl
        · exact h.conns d hd
        · obtain ⟨h1, h2, h3⟩ := h.conns c (List.mem_of_getElem? hc)
          exact ⟨h1, h2, h3⟩
      udpBuf := h.udpBuf
      lost_eq := h.lost_eq.trans (congrArg List.sum (hreads _).symm)
      lost_le := by rw [hstreams]; exact h.lost_le
      told := by rw [hstreams]; exact h.told }

theorem streams_readTcp (s : FrameReceiver) (i : Nat) (c : Connection) (data : List UInt8) :
    (s.readTcp i c (.ok (some data))).streams = s.streams.set i (c.received ++ data.take c.buf.remaining) := by
  simp only [readTcp, streams, List.map_set, Connection.received, List.flatten_append, List.flatten_singleton]

/-- More bytes of a connection: its scan goes on, the others stand still. -/
theorem Received.read (h : Received p₀ s log lost) {i : Nat} {c : Connection} (hc : s.conns[i]? = some c)
    (data : List UInt8) : (s.readTcp i c (.ok (some data))).threw = none ∧
      ∃ log' lost', Received p₀ (s.readTcp i c (.ok (some data))) log' lost' := by
  have hsound := h.conns c (List.mem_of_getElem? hc)
  have hready : Ready { buf := c.buf, pipeline := s.pipeline } := ⟨rfl, hsound.limit⟩
  obtain ⟨hr, hrest, hcap, hoffered, hmore, htold⟩ := readTcp_told hready data
  generalize hgot : data.take c.buf.remaining = got at hrest hoffered hmore htold
  have hscan := WindowScan.scan_append (S := frameSpec) c.received got
  have htails : unmarkedTails frameSpec [] (c.reads ++ [got]) =
      unmarkedTails frameSpec [] c.reads + unmarkedTail frameSpec (c.buf.pending ++ got) := by
    rw [WindowScan.unmarkedTails_snoc, List.nil_append, hsound.pending]
    rfl
  rw [← hsound.pending] at hscan
  generalize unmarkedTail frameSpec (c.buf.pending ++ got) = more at hmore htold htails
  generalize scan frameSpec (c.buf.pending ++ got) = q at hscan hrest hoffered hmore htold
  have hby : s.streams[i]? = some c.received := by simp [streams, hc]
  have hstreams : streams (s.readTcp i c (.ok (some data))) = s.streams.set i (c.received ++ got) := by
    rw [streams_readTcp, hgot]
  have htally : ∀ f : WindowScan.Result UInt8 → Nat, (∀ a b, f (a.andThen b) = f a + f b) →
      tally f (s.streams.set i (c.received ++ got)) = tally f s.streams + f q := by
    intro f hf
    have hset := Merge.sum_map_set (fun bytes => f (scan frameSpec bytes)) (c := c.received ++ got) hby
    rw [hscan, hf] at hset
    simp only [tally]
    omega
  have hlog : (log ++ q.frames.map (Path.tcp i, ·)).map (·.2) = log.map (·.2) ++ q.frames := by
    simp [Function.comp_def]
  have hlost := h.lost_le
  have hunreported : unreported (s.readTcp i c (.ok (some data))) = s.unreported + more := by
    have hset := Merge.sum_map_set (fun d : Connection => unmarkedTails frameSpec [] d.reads)
      (c := { c with buf := (Operator.readTcp { buf := c.buf, pipeline := s.pipeline } data).buf
                     reads := c.reads ++ [got] }) hc
    simp only [unreported, readTcp, hgot]
    simp only [htails] at hset
    omega
  refine ⟨hr.threw, log ++ q.frames.map (Path.tcp i, ·), lost + more, ?_⟩
  exact
    { offered := by
        show s.offered ++ _ = _
        rw [hoffered, h.offered]
        simp [Function.comp_def]
      tcp := by
        intro j
        rw [hstreams, Merge.stream_append, Merge.stream_tag, h.tcp]
        by_cases hij : i = j
        · subst hij
          have hlt := (List.getElem?_eq_some_iff.mp hby).1
          have hold : s.streams.getD i [] = c.received := by rw [List.getD_eq_getElem?_getD, hby]; rfl
          have hnew : (s.streams.set i (c.received ++ got)).getD i [] = c.received ++ got := by
            rw [List.getD_eq_getElem?_getD, List.getElem?_set_self hlt]
            rfl
          rw [if_pos rfl, hold, hnew, hscan]
          rfl
        · simp [List.getD_eq_getElem?_getD, hij]
      udp := by
        rw [Merge.stream_append, Merge.stream_tag, h.udp]
        simp [readTcp]
      conns := by
        intro d hd
        rcases List.mem_or_eq_of_mem_set hd with hd | rfl
        · exact h.conns d hd
        · refine ⟨hr.limit, hcap.trans hsound.capacity, ?_⟩
          have hreceived : (c.reads ++ [got]).flatten = c.received ++ got := by simp [Connection.received]
          show _ = (scan frameSpec (c.reads ++ [data.take c.buf.remaining]).flatten).rest
          rw [hrest, hgot, hreceived, hscan]
          rfl
      udpBuf := h.udpBuf
      lost_eq := by rw [hunreported, h.lost_eq]
      lost_le := by
        rw [hstreams, htally _ fun _ _ => rfl]
        exact Nat.add_le_add hlost hmore
      told := by
        have hskip : tally (·.skipped) s.streams + q.skipped - (lost + more) =
            tally (·.skipped) s.streams - lost + (q.skipped - more) := by omega
        rw [hstreams, htally _ fun _ _ => rfl, htally _ fun _ _ => rfl, hskip, hlog]
        exact h.told.trans htold }

/-- One more datagram. -/
theorem Received.datagram (h : Received p₀ s log lost) (d : List UInt8) :
    (s.readUdp (.ok (some d))).threw = none ∧ ∃ log', Received p₀ (s.readUdp (.ok (some d))) log' lost := by
  obtain ⟨hthrew, htold, hoffered, hcap⟩ := readUdp_spec s.udpBuf s.pipeline d
  rw [h.udpBuf] at htold hoffered
  have hlog : (log ++ (Blocks.cut 24 (d.take 65536)).map (Path.udp, ·)).map (·.2) =
      log.map (·.2) ++ Blocks.cut 24 (d.take 65536) := by
    simp [Function.comp_def]
  refine ⟨hthrew, log ++ (Blocks.cut 24 (d.take 65536)).map (Path.udp, ·), ?_⟩
  exact
    { offered := by
        show s.offered ++ _ = _
        rw [hoffered, h.offered]
        simp [Function.comp_def]
      tcp := by
        intro j
        rw [Merge.stream_append, Merge.stream_tag, h.tcp]
        simp [readUdp, streams]
      udp := by
        rw [Merge.stream_append, Merge.stream_tag, h.udp]
        simp [readUdp]
      conns := h.conns
      udpBuf := hcap.trans h.udpBuf
      lost_eq := h.lost_eq
      lost_le := h.lost_le
      told := by
        rw [hlog]
        exact h.told.trans htold }

/-- **One key.** Only an exception of a channel ends the thread. -/
theorem Received.handle (h : Received p₀ s log lost) (hrun : s.threw = none) (key : ReadyKey) :
    ((s.handle key).threw = none ∨ ((s.handle key).threw = key.failure ∧ key.failure ≠ none)) ∧
      ∃ log' lost', Received p₀ (s.handle key) log' lost' := by
  have hsame : Received p₀ s log lost → ∀ threw, Received p₀ { s with threw := threw } log lost :=
    fun h _ => ⟨h.offered, h.tcp, h.udp, h.conns, h.udpBuf, h.lost_eq, h.lost_le, h.told⟩
  have hgo : s.threw.isSome = false := by rw [hrun]; rfl
  cases key with
  | server client =>
    simp only [FrameReceiver.handle, hgo, Bool.false_eq_true, if_false]
    by_cases htcp : s.tcpEnabled = true
    · rw [if_pos htcp]
      match client with
      | .error msg => exact ⟨Or.inr ⟨rfl, nofun⟩, _, _, hsame h _⟩
      | .ok false => exact ⟨Or.inl hrun, _, _, h⟩
      | .ok true => exact ⟨Or.inl hrun, _, _, h.accept⟩
    · rw [if_neg htcp]
      exact ⟨Or.inl hrun, _, _, h⟩
  | tcp i read =>
    simp only [FrameReceiver.handle, hgo, Bool.false_eq_true, if_false]
    cases hc : s.conns[i]? with
    | none => exact ⟨Or.inl hrun, _, _, h⟩
    | some c =>
      by_cases hvalid : c.valid = true
      · simp only [hvalid, if_true]
        match read with
        | .error msg => exact ⟨Or.inr ⟨rfl, nofun⟩, _, _, hsame h _⟩
        | .ok none => exact ⟨Or.inl hrun, _, _, h.close hc⟩
        | .ok (some data) =>
          obtain ⟨hthrew, hread⟩ := h.read hc data
          exact ⟨Or.inl hthrew, hread⟩
      · simp only [hvalid, Bool.false_eq_true, if_false]
        exact ⟨Or.inl hrun, _, _, h⟩
  | udp received =>
    simp only [FrameReceiver.handle, hgo, Bool.false_eq_true, if_false]
    match received with
    | .error msg => exact ⟨Or.inr ⟨rfl, nofun⟩, _, _, hsame h _⟩
    | .ok none => exact ⟨Or.inl hrun, _, _, ⟨h.offered, h.tcp, h.udp, h.conns, h.udpBuf, h.lost_eq, h.lost_le, h.told⟩⟩
    | .ok (some d) =>
      obtain ⟨hthrew, log', hread⟩ := h.datagram d
      exact ⟨Or.inl hthrew, _, _, hread⟩

/-- Any keys. -/
theorem received_run (p₀ : TelemetryPipeline) (tcpEnabled : Bool) (keys : List ReadyKey) :
    let s := run FrameReceiver.handle (.start p₀ tcpEnabled) keys
    (s.threw = none ∨ ∃ key ∈ keys, s.threw = key.failure) ∧ ∃ log lost, Received p₀ s log lost := by
  intro s
  induction keys using List.reverseRecOn with
  | nil => exact ⟨Or.inl rfl, _, _, .start p₀ tcpEnabled⟩
  | append_singleton keys key ih =>
    obtain ⟨hthrew, log, lost, h⟩ := ih
    have hs : s = (run FrameReceiver.handle (.start p₀ tcpEnabled) keys).handle key := Runs.run_snoc _ _ _
    generalize run FrameReceiver.handle (.start p₀ tcpEnabled) keys = s₀ at hs hthrew h
    rw [hs]
    cases hrun : s₀.threw with
    | none =>
      obtain ⟨hnext, hreceived⟩ := h.handle hrun key
      exact ⟨hnext.imp_right fun hc => ⟨key, by simp, hc.1⟩, hreceived⟩
    | some msg =>
      have hstop : s₀.handle key = s₀ := by simp [FrameReceiver.handle, hrun]
      rw [hstop]
      exact ⟨hthrew.imp_right fun ⟨k, hk, hc⟩ => ⟨k, by simp [hk], hc⟩, _, _, h⟩

/-- Every window has 24 bytes; those of a connection verify. -/
theorem Received.window (h : Received p₀ s log lost) {e : Path × List UInt8} (he : e ∈ log) :
    e.2.length = 24 ∧ (e.1 ≠ .udp → (frameOf e.2).crcOk = true) := by
  obtain ⟨path, w⟩ := e
  have hmem := Merge.mem_stream.mpr he
  cases path with
  | tcp i =>
    rw [h.tcp] at hmem
    obtain ⟨hlen, hacc⟩ := WindowScan.scan_frames_accept _ w hmem
    simp only [frameSpec, Bool.and_eq_true] at hacc
    exact ⟨hlen, fun _ => hacc.2⟩
  | udp =>
    rw [h.udp] at hmem
    obtain ⟨d, _, hd⟩ := List.mem_flatMap.mp hmem
    exact ⟨Blocks.length_of_mem_cut hd, fun hc => absurd rfl hc⟩

/-- Only windows of datagrams can fail to verify. -/
theorem Received.countP_bad (h : Received p₀ s log lost) : (log.map (·.2)).countP (fun w => !(frameOf w).crcOk) =
    (s.datagrams.flatMap fun d => Blocks.cut 24 (d.take 65536)).countP fun w => !(frameOf w).crcOk := by
  rw [List.countP_eq_length_filter, Merge.filter_stream (k := Path.udp), h.udp, ← List.countP_eq_length_filter]
  intro e he hbad
  by_contra hpath
  rw [(h.window he).2 hpath] at hbad
  cases hbad

theorem handle_client (hrun : s.threw = none) (hon : s.tcpEnabled = true) :
    s.handle (.server (.ok true)) = { s with conns := s.conns ++ [{}] } := by
  simp [FrameReceiver.handle, FrameReceiver.accept, hrun, hon]

theorem handle_bytes (hrun : s.threw = none) {i : Nat} {c : Connection} (hc : s.conns[i]? = some c)
    (hvalid : c.valid = true) (data : List UInt8) :
    s.handle (.tcp i (.ok (some data))) = s.readTcp i c (.ok (some data)) := by
  simp [FrameReceiver.handle, hrun, hc, hvalid]

/-- The only connection reads what there is, if its buffer has room for so much. -/
theorem Received.reads (h : Received p₀ s log lost) (hrun : s.threw = none) {c : Connection} (hc : s.conns = [c])
    (hvalid : c.valid = true) {data : List UInt8} (hlen : data.length ≤ 262121) :
    (s.handle (.tcp 0 (.ok (some data)))).threw = none ∧
      ∃ buf, (s.handle (.tcp 0 (.ok (some data)))).conns = [{ c with buf := buf, reads := c.reads ++ [data] }] := by
  have hfirst : s.conns[0]? = some c := by rw [hc]; rfl
  have hsound := h.conns c (List.mem_of_getElem? hfirst)
  have hroom : data.take c.buf.remaining = data := by
    have hlimit := hsound.limit
    have hcapacity := hsound.capacity
    have hrest := WindowScan.scan_rest_lt (S := frameSpec) c.received
    rw [← hsound.pending, ByteBuffer.length_pending, frameSpec_width] at hrest
    apply List.take_of_length_le
    simp only [ByteBuffer.remaining]
    omega
  rw [handle_bytes hrun hfirst hvalid]
  refine ⟨(h.read hfirst data).1, (Operator.readTcp { buf := c.buf, pipeline := s.pipeline } data).buf, ?_⟩
  simp only [FrameReceiver.readTcp, hc, List.set_cons_zero, hroom]

/-- There is no magic in zeros. -/
theorem magicAt_zeros {k j : Nat} (h : j < k) (data : List UInt8) : magicAt (List.replicate k 0 ++ data) j = false := by
  have hzero : (List.replicate k 0 ++ data).getD j (0 : UInt8) = 0 := by
    simp [List.getD_eq_getElem?_getD, List.getElem?_append, h]
  rw [magicAt, hzero]
  rfl

/-- The scan of zeros in front of a frame. -/
theorem scan_zeros_frame (k : Nat) {w : List UInt8} (hlength : w.length = 24) (haccept : frameSpec.accept w = true) :
    scan frameSpec (List.replicate k 0 ++ w) = ⟨[w], 0, k, []⟩ := by
  have hframe : scan frameSpec w = ⟨[w], 0, 0, []⟩ := by
    have hall : ∀ v ∈ [w], v.length = frameSpec.width ∧ frameSpec.accept v = true := by
      simpa using ⟨hlength, haccept⟩
    simpa using WindowScan.scan_flatten hall
  have hskip := @scan_drop_to (List.replicate k 0 ++ w) 0 k (Nat.zero_le k) (by simp [hlength])
    fun j _ hj => magicAt_zeros hj w
  rw [List.drop_zero, List.drop_left' List.length_replicate, hframe] at hskip
  exact hskip

/-- A read that ends with a frame has no tail. -/
theorem unmarkedTail_zeros_frame (k : Nat) {w : List UInt8} (hlength : w.length = 24)
    (haccept : frameSpec.accept w = true) : unmarkedTail frameSpec (List.replicate k 0 ++ w) = 0 := by
  have hwhole : w.take 24 = w := List.take_of_length_le (Nat.le_of_eq hlength)
  have hmagic : magicAt (List.replicate k 0 ++ w) k = true := by
    rw [← mark_window (by simp [hlength]), window, List.drop_left' List.length_replicate, Core.wireFrameSize, hwhole]
    exact frameSpec.mark_of_accept w haccept
  have hdrop := @unmarkedTail_drop_to (List.replicate k 0 ++ w) 0 k (Nat.zero_le k) (by simp [hlength])
    (fun j _ hj => magicAt_zeros hj w) hmagic
  rw [List.drop_zero, List.drop_left' List.length_replicate] at hdrop
  rw [hdrop, WindowScan.unmarkedTail_accept (Nat.le_of_eq hlength.symm) (by rwa [frameSpec_width, hwhole])]
  exact WindowScan.unmarkedTail_short (by simp [hlength, frameSpec_width])

/-- Of 24 zeros, one is passed, and 23 are kept. -/
theorem zeros_pass :
    unmarkedTail frameSpec (List.replicate 24 0) = 1 ∧
      (scan frameSpec (List.replicate 24 0)).rest = List.replicate 23 0 := by
  have hno : ∀ j < 24, magicAt (List.replicate 24 0) j = false := fun j hj => by
    simpa only [List.append_nil] using magicAt_zeros hj []
  constructor
  · exact @unmarkedTail_drop (List.replicate 24 0) 0 fun j _ hj => hno j <| by
      rw [List.length_replicate] at hj
      omega
  · have hskip := @scan_drop_to (List.replicate 24 0) 0 1 (by omega) (by simp) fun j _ hj => hno j (by omega)
    rw [List.drop_zero] at hskip
    rw [hskip, WindowScan.scan_short (by decide)]
    rfl

end FrameReceiver

end ZcMesh.Operator
