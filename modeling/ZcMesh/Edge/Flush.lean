import ZcMesh.Edge.Batch
import ZcMesh.Edge.Router

/-!
# Flushing the batch

`core-engine/src/main.cpp`: the reconnect gate and `flush_batch` with its four transports. The readings of
`monotonic_ns` are an input; the frames handed to `forward_udp` are kept as a history.

* `try_connect` leaves the connection, finds none, or opens one (`tryConnect_spec`).
* The TCP part of a flush then drains the batch or stalls on what is connected (`attempt_spec`).
* A failover hands the frames that TCP has not taken whole to the mesh, and closes a connection that is inside a frame
  (`failover_spec`).
-/

namespace ZcMesh.Core

/-- `Transport`. -/
inductive Transport
  | auto
  | tcp
  | udp
  | mesh
  deriving DecidableEq, Repr

/-- `ReconnectGate`. -/
structure ReconnectGate where
  nextNs : UInt64 := 0
  backoffMs : Nat := 50
  deriving DecidableEq, Repr

/-- A connect at `now` has failed. -/
def ReconnectGate.delay (gate : ReconnectGate) (now : UInt64) : ReconnectGate :=
  { nextNs := now + UInt64.ofNat gate.backoffMs * 1000000, backoffMs := min 2000 (gate.backoffMs * 2) }

/-- `FlushStats`. -/
structure FlushStats where
  meshFailover : UInt64 := 0
  tcpPartialAbort : UInt64 := 0
  meshRescueFrames : UInt64 := 0
  deriving DecidableEq, Repr

def FlushStats.failover (stats : FlushStats) (rescue : Nat) : FlushStats :=
  { stats with
    meshFailover := stats.meshFailover + 1
    meshRescueFrames := stats.meshRescueFrames + UInt64.ofNat rescue }

def FlushStats.partialAbort (stats : FlushStats) : FlushStats :=
  { stats with tcpPartialAbort := stats.tcpPartialAbort + 1 }

/-- What `flush_batch` works on; `clock` are the coming readings of `monotonic_ns`, `forwards` what `forward_udp` was
called with so far. -/
structure Link where
  batch : FrameBatch
  tcp : TcpClient
  udp : UdpSocket
  router : MeshRouter
  gate : ReconnectGate
  stats : FlushStats
  clock : Nat → UInt64
  forwards : List (List UInt8)

namespace Link

/-! ## The code -/

/-- `monotonic_ns`. -/
def monotonicNs (l : Link) : UInt64 × Link := (l.clock 0, { l with clock := fun i => l.clock (i + 1) })

/-- `ReconnectGate::try_connect`. -/
def tryConnect (l : Link) : Bool × Link :=
  if l.tcp.connected then (true, l)
  else
    let (now, l) := l.monotonicNs
    if now < l.gate.nextNs then (false, l)
    else
      let (ok, tcp) := l.tcp.connect
      if ok then (true, { l with tcp, gate := {} }) else (false, { l with tcp, gate := l.gate.delay now })

/-- Send the frames one by one, and count those that went out. -/
def countSent {σ : Type} (send : WireFrame → σ → Bool × σ) : List WireFrame → σ → Nat × σ
  | [], s => (0, s)
  | frame :: frames, s =>
    let (ok, s) := send frame s
    let (forwarded, s) := countSent send frames s
    (if ok then forwarded + 1 else forwarded, s)

/-- The loop of `flush_udp_direct`. -/
def sendFrames (ep : Endpoint) : List WireFrame → UdpSocket → Nat × UdpSocket :=
  countSent fun frame udp => udp.sendTo ep frame.bytes

/-- `flush_udp_direct`. -/
def flushUdpDirect (ep : Endpoint) (l : Link) : Bool × Link :=
  let batch := l.batch.discardFullySent
  let n := batch.unsentCount
  let (forwarded, udp) := sendFrames ep batch.unsentFrames l.udp
  (forwarded == n, { l with udp, batch := batch.clear })

/-- `forward_udp`, with the history. -/
def forward (nodeId : UInt16) (now : UInt64) (frame : WireFrame) (l : Link) : Bool × Link :=
  let (ok, router, udp) := l.router.forwardUdp l.udp nodeId frame.bytes now
  (ok, { l with router, udp, forwards := l.forwards ++ [frame.bytes] })

/-- The loop of `flush_udp_mesh`. -/
def forwardFrames (nodeId : UInt16) (now : UInt64) : List WireFrame → Link → Nat × Link :=
  countSent (forward nodeId now)

/-- `flush_udp_mesh`. -/
def flushUdpMesh (nodeId : UInt16) (l : Link) : Bool × Link :=
  let batch := l.batch.discardFullySent
  let n := batch.unsentCount
  let (now, l) := l.monotonicNs
  let (forwarded, l) := forwardFrames nodeId now batch.unsentFrames l
  (forwarded == n, { l with batch := batch.clear })

/-- `tcp.connected() && batch.flush_tcp_retry(tcp, attempts)`. -/
def flushConnected (attempts : Nat) (l : Link) : Bool × Link :=
  if l.tcp.connected then
    let (ok, batch, tcp) := l.batch.flushTcpRetry l.tcp attempts
    (ok, { l with batch, tcp })
  else (false, l)

/-- `try_connect` and the flush over TCP. -/
def attempt (attempts : Nat) (l : Link) : Bool × Link := l.tryConnect.2.flushConnected attempts

/-- `batch.adapt(ok, monotonic_ns() - t0)`. -/
def adapt (ok : Bool) (t0 : UInt64) (l : Link) : Link :=
  let (now, l) := l.monotonicNs
  { l with batch := l.batch.adapt ok (now - t0) }

/-- What `flush_batch` does in transport `auto` when TCP has failed. -/
def failover (nodeId : UInt16) (l : Link) : Bool × Link :=
  let hadPartial := l.batch.hasPartialSend
  let rescue := l.batch.unsentCount
  let (ok, l) := { l with stats := l.stats.failover rescue }.flushUdpMesh nodeId
  (ok, if hadPartial && l.tcp.connected then { l with tcp := l.tcp.close, stats := l.stats.partialAbort } else l)

/-- `flush_batch`. -/
def flushBatch (transport : Transport) (op : Endpoint) (nodeId : UInt16) (l : Link) : Bool × Link :=
  let (t0, l) := l.monotonicNs
  match transport with
  | .udp => l.flushUdpDirect op
  | .mesh => l.flushUdpMesh nodeId
  | .tcp =>
    let (ok, l) := l.attempt 128
    (ok, l.adapt ok t0)
  | .auto =>
    let (ok, l) := l.attempt 64
    if ok then (true, l.adapt true t0) else (l.adapt false t0).failover nodeId

/-! ## Connecting and flushing over TCP -/

/-- The gate lets a connect through, at the next reading of the clock, and it succeeds. -/
def Opens (l : Link) : Prop :=
  l.tcp.connected = false ∧ l.gate.nextNs ≤ l.clock 0 ∧ l.tcp.connects.headD false = true

instance (l : Link) : Decidable l.Opens := inferInstanceAs (Decidable (_ ∧ _ ∧ _))

/-- A flush can use a connection that has accepted `s`, while those before it accepted `older`: the open one, or a new
one, given `opens`. -/
def Reaches (opens : Prop) (tcp : TcpClient) (older : List (List UInt8)) (s : List UInt8) : Prop :=
  tcp.stream = some s ∧ older = tcp.lost ∨ opens ∧ s = [] ∧ older = tcp.streams

/-- What `try_connect` does: without a connection afterwards, the streams are the old ones. -/
theorem tryConnect_spec (l : Link) : ∃ tcp gate clock, l.tryConnect.2 = { l with tcp, gate, clock } ∧
    ((tcp.connected = false ∧ tcp.streams = l.tcp.streams) ∨
      ∃ s, tcp.stream = some s ∧ Reaches l.Opens l.tcp tcp.lost s) := by
  unfold tryConnect
  cases hup : l.tcp.connected with
  | true =>
    obtain ⟨s, hs⟩ := TcpClient.connected_iff.mp hup
    exact ⟨l.tcp, l.gate, l.clock, rfl, Or.inr ⟨s, hs, Or.inl ⟨hs, rfl⟩⟩⟩
  | false =>
    simp only [Bool.false_eq_true, if_false]
    by_cases hgate : l.monotonicNs.1 < l.monotonicNs.2.gate.nextNs
    · rw [if_pos hgate]
      exact ⟨_, _, _, rfl, Or.inl ⟨hup, rfl⟩⟩
    · rw [if_neg hgate]
      cases hok : l.tcp.connects.headD false with
      | false =>
        refine ⟨l.tcp.connect.2, l.gate.delay (l.clock 0), fun i => l.clock (i + 1), ?_, Or.inl ⟨?_, ?_⟩⟩
        · have hfail : l.monotonicNs.2.tcp.connect.1 = false := hok
          rw [if_neg (by simp [hfail])]
          rfl
        · rw [TcpClient.connected_connect, hok]
        · rw [TcpClient.streams_connect, hok]
          simp
      | true =>
        refine ⟨l.tcp.connect.2, {}, fun i => l.clock (i + 1), ?_, Or.inr ⟨[], ?_, Or.inr ⟨?_, rfl, rfl⟩⟩⟩
        · have hopen : l.monotonicNs.2.tcp.connect.1 = true := hok
          rw [if_pos hopen]
          rfl
        · exact TcpClient.stream_connect hok
        · exact ⟨hup, UInt64.not_lt.mp hgate, hok⟩

/-- What a flush of `b` over TCP ends with: no connection; an empty batch; or a batch that stalled behind `got`. -/
inductive Attempted (opens : Prop) (b : FrameBatch) (tcp : TcpClient) : Bool → FrameBatch → TcpClient → Prop
  | down {tcp' : TcpClient} (hdown : tcp'.connected = false) (hstreams : tcp'.streams = tcp.streams) :
      Attempted opens b tcp false b tcp'
  | drained {tcp' : TcpClient} (older : List (List UInt8)) (s : List UInt8) (hreach : Reaches opens tcp older s)
      (hup : tcp'.connected = true) (hstreams : tcp'.streams = older ++ [s ++ b.bytes.drop b.sendOffset]) :
      Attempted opens b tcp true b.clear tcp'
  | stalled {tcp' : TcpClient} (older : List (List UInt8)) (s got : List UInt8) (hreach : Reaches opens tcp older s)
      (hgot : got <+: b.bytes.drop b.sendOffset) (hbehind : b.sendOffset + got.length < b.bytes.length)
      (hstreams : tcp'.streams = older ++ [s ++ got]) : Attempted opens b tcp false (b.advance got.length) tcp'

/-- **The TCP part of a flush.** -/
theorem attempt_spec (attempts : Nat) {l : Link} (hb : l.batch.sendOffset < l.batch.bytes.length) :
    ∃ batch tcp gate clock, (l.attempt attempts).2 = { l with batch, tcp, gate, clock } ∧
      Attempted l.Opens l.batch l.tcp (l.attempt attempts).1 batch tcp := by
  obtain ⟨tcp, gate, clock, heq, hcase⟩ := tryConnect_spec l
  rw [attempt, heq]
  rcases hcase with ⟨hdown, hstreams⟩ | ⟨s, hs, hreach⟩
  · simp only [flushConnected, hdown, Bool.false_eq_true, if_false]
    exact ⟨l.batch, tcp, gate, clock, rfl, .down hdown hstreams⟩
  · simp only [flushConnected, TcpClient.connected_iff.mpr ⟨s, hs⟩, if_true]
    rcases FrameBatch.flushTcpRetry_spec attempts hb hs with ⟨hok, h⟩ | ⟨hok, got, h⟩
    · refine ⟨_, _, gate, clock, rfl, ?_⟩
      rw [hok, h.batch]
      exact .drained _ _ hreach h.connected h.takes.streams
    · have hbehind := h.behind
      rw [h.bytes, h.batch] at hbehind
      refine ⟨_, _, gate, clock, rfl, ?_⟩
      rw [hok, h.batch]
      exact .stalled _ _ _ hreach h.got_prefix hbehind h.takes.streams

section Attempted

variable {opens : Prop} {b batch : FrameBatch} {tcp tcp' : TcpClient}

theorem Attempted.wf {ok : Bool} (h : Attempted opens b tcp ok batch tcp') (hb : b.Wf) : batch.Wf := by
  cases h with
  | down _ _ => exact hb
  | drained _ _ _ _ _ => exact hb.clear
  | stalled _ _ _ _ _ hbehind _ => exact hb.advance hbehind

theorem Attempted.frames {ok : Bool} (h : Attempted opens b tcp ok batch tcp') : ∀ f ∈ batch.frames, f ∈ b.frames := by
  cases h with
  | down _ _ => exact fun _ hf => hf
  | drained _ _ _ _ _ => exact nofun
  | stalled _ _ _ _ _ _ _ => exact fun _ hf => hf

/-- What stalled has something left to send. -/
theorem Attempted.unsent (h : Attempted opens b tcp false batch tcp') (hb : b.sendOffset < b.bytes.length) :
    batch.sendOffset < batch.bytes.length := by
  cases h with
  | down _ _ => exact hb
  | stalled _ _ _ _ _ hbehind _ => exact hbehind

theorem Reaches.accepted {older : List (List UInt8)} {s got : List UInt8} (h : Reaches opens tcp older s)
    (hstreams : tcp'.streams = older ++ [s ++ got]) : tcp'.accepted = tcp.accepted ++ got := by
  rcases h with ⟨hs, rfl⟩ | ⟨_, rfl, rfl⟩
  · simp [TcpClient.accepted, TcpClient.streams_of_open hs, hstreams]
  · simp [TcpClient.accepted, hstreams]

/-- What TCP takes of a batch with the cursor at its start. -/
theorem Attempted.taken {ok : Bool} (h : Attempted opens b tcp ok batch tcp') (h0 : b.sendOffset = 0) :
    ∃ got, tcp'.accepted = tcp.accepted ++ got ∧ got <+: b.bytes ∧
      (ok = true → got = b.bytes) ∧ (ok = false → batch.frames = b.frames ∧ batch.sendOffset = got.length) := by
  cases h with
  | down _ hstreams =>
    refine ⟨[], ?_, List.nil_prefix, by simp, fun _ => ⟨rfl, h0⟩⟩
    rw [List.append_nil, TcpClient.accepted, hstreams]
    rfl
  | drained older s hreach _ hstreams =>
    rw [h0, List.drop_zero] at hstreams
    exact ⟨_, hreach.accepted hstreams, List.prefix_rfl, fun _ => rfl, by simp⟩
  | stalled older s got hreach hgot _ hstreams =>
    rw [h0, List.drop_zero] at hgot
    refine ⟨_, hreach.accepted hstreams, hgot, by simp, fun _ => ⟨rfl, ?_⟩⟩
    rw [FrameBatch.advance, h0, Nat.zero_add]

end Attempted

/-! ## Flushing over UDP -/

theorem flushUdpDirect_spec (ep : Endpoint) (l : Link) :
    ∃ udp, (l.flushUdpDirect ep).2 = { l with udp, batch := l.batch.clear } :=
  ⟨_, by rw [flushUdpDirect, FrameBatch.clear_discard]⟩

theorem forwardFrames_spec (nodeId : UInt16) (now : UInt64) (frames : List WireFrame) (l : Link) :
    ∃ router udp, (forwardFrames nodeId now frames l).2 =
      { l with router, udp, forwards := l.forwards ++ frames.map WireFrame.bytes } := by
  induction frames generalizing l with
  | nil => exact ⟨l.router, l.udp, by rw [List.map_nil, List.append_nil]; rfl⟩
  | cons frame frames ih =>
    obtain ⟨router, udp, h⟩ := ih (l.forward nodeId now frame).2
    refine ⟨router, udp, ?_⟩
    show (forwardFrames nodeId now frames (l.forward nodeId now frame).2).2 = _
    rw [h]
    simp [forward]

theorem flushUdpMesh_spec (nodeId : UInt16) {l : Link} (hb : l.batch.sendOffset < l.batch.bytes.length) :
    ∃ router udp clock, (l.flushUdpMesh nodeId).2 =
      { l with
        router, udp, clock, batch := l.batch.clear
        forwards := l.forwards ++ l.batch.unsentFrames.map WireFrame.bytes } := by
  obtain ⟨router, udp, h⟩ :=
    forwardFrames_spec nodeId (l.clock 0) l.batch.discardFullySent.unsentFrames l.monotonicNs.2
  refine ⟨router, udp, fun i => l.clock (i + 1), ?_⟩
  rw [← FrameBatch.unsentFrames_discard hb, ← FrameBatch.clear_discard]
  simp only [flushUdpMesh]
  exact congrArg (fun l' : Link => { l' with batch := l.batch.discardFullySent.clear }) h

/-- **What a failover does.** -/
theorem failover_spec (nodeId : UInt16) {l : Link} (hb : l.batch.sendOffset < l.batch.bytes.length) :
    ∃ router udp clock stats, (l.failover nodeId).2 =
      { l with
        router, udp, clock, stats, batch := l.batch.clear
        tcp := if l.batch.hasPartialSend && l.tcp.connected then l.tcp.close else l.tcp
        forwards := l.forwards ++ l.batch.unsentFrames.map WireFrame.bytes } ∧
      stats.meshRescueFrames = l.stats.meshRescueFrames + UInt64.ofNat l.batch.unsentFrames.length := by
  obtain ⟨router, udp, clock, h⟩ :=
    flushUdpMesh_spec nodeId (l := { l with stats := l.stats.failover l.batch.unsentCount }) hb
  simp only [failover, h]
  refine ⟨router, udp, clock, ?_⟩
  split
  · exact ⟨_, rfl, by rw [← FrameBatch.unsentCount_eq]; rfl⟩
  · exact ⟨_, rfl, by rw [← FrameBatch.unsentCount_eq]; rfl⟩

/-! ## `flush_batch` -/

/-- `flush_batch` over TCP. -/
theorem flushBatch_tcp (op : Endpoint) (nodeId : UInt16) {l : Link} (hb : l.batch.sendOffset < l.batch.bytes.length) :
    ∃ batch tcp gate clock ns, (l.flushBatch .tcp op nodeId).2 =
        { l with tcp, gate, clock, batch := batch.adapt (l.flushBatch .tcp op nodeId).1 ns } ∧
      Attempted l.monotonicNs.2.Opens l.batch l.tcp (l.flushBatch .tcp op nodeId).1 batch tcp := by
  obtain ⟨batch, tcp, gate, clock, heq, h⟩ := attempt_spec 128 (l := l.monotonicNs.2) hb
  refine ⟨batch, tcp, gate, fun i => clock (i + 1), clock 0 - l.clock 0, ?_, h⟩
  simp only [flushBatch, heq]
  rfl

/-- `flush_batch` in transport `auto`: TCP takes the batch, or the failover does. -/
theorem flushBatch_auto (op : Endpoint) (nodeId : UInt16) {l : Link} (hb : l.batch.sendOffset < l.batch.bytes.length) :
    ∃ ok batch tcp gate clock ns, Attempted l.monotonicNs.2.Opens l.batch l.tcp ok batch tcp ∧
      l.flushBatch .auto op nodeId =
        if ok then (true, { l with tcp, gate, clock, batch := batch.adapt true ns })
        else { l with tcp, gate, clock, batch := batch.adapt false ns }.failover nodeId := by
  obtain ⟨batch, tcp, gate, clock, heq, h⟩ := attempt_spec 64 (l := l.monotonicNs.2) hb
  refine ⟨_, batch, tcp, gate, fun i => clock (i + 1), clock 0 - l.clock 0, h, ?_⟩
  simp only [flushBatch, heq]
  split <;> rfl

/-- In transport `auto` TCP takes the batch, or the frames that it has not taken whole go through the mesh. -/
theorem flushBatch_auto_cases (op : Endpoint) (nodeId : UInt16) {l : Link}
    (hb : l.batch.sendOffset < l.batch.bytes.length) :
    (∃ batch tcp gate clock ns, Attempted l.monotonicNs.2.Opens l.batch l.tcp true batch tcp ∧
      l.flushBatch .auto op nodeId = (true, { l with tcp, gate, clock, batch := batch.adapt true ns })) ∨
    ∃ batch tcp gate router udp clock stats ns, Attempted l.monotonicNs.2.Opens l.batch l.tcp false batch tcp ∧
      (l.flushBatch .auto op nodeId).2 =
        { l with
          gate, router, udp, clock, stats, batch := (batch.adapt false ns).clear
          tcp := if batch.hasPartialSend && tcp.connected then tcp.close else tcp
          forwards := l.forwards ++ batch.unsentFrames.map WireFrame.bytes } ∧
      stats.meshRescueFrames = l.stats.meshRescueFrames + UInt64.ofNat batch.unsentFrames.length := by
  obtain ⟨ok, batch, tcp, gate, clock, ns, hattempt, heq⟩ := flushBatch_auto op nodeId hb
  rw [heq]
  cases ok with
  | true => exact Or.inl ⟨batch, tcp, gate, clock, ns, hattempt, rfl⟩
  | false =>
    obtain ⟨router, udp, clock', stats, hfail, hrescue⟩ := failover_spec nodeId
      (l := { l with tcp, gate, clock, batch := batch.adapt false ns }) (by simpa using hattempt.unsent hb)
    simp only [FrameBatch.unsentFrames_adapt, FrameBatch.hasPartialSend_adapt] at hfail hrescue
    exact Or.inr ⟨batch, tcp, gate, router, udp, clock', stats, ns, hattempt, hfail, hrescue⟩

/-! ## What every flush keeps -/

theorem wf_forwardFrames (nodeId : UInt16) (now : UInt64) (frames : List WireFrame) {l : Link} (h : l.router.Wf) :
    (forwardFrames nodeId now frames l).2.router.Wf := by
  induction frames generalizing l with
  | nil => exact h
  | cons frame frames ih => exact ih (h.forwardUdp l.udp nodeId frame.bytes now)

theorem wf_flushUdpMesh (nodeId : UInt16) {l : Link} (h : l.router.Wf) : (l.flushUdpMesh nodeId).2.router.Wf :=
  wf_forwardFrames nodeId (l.clock 0) _ (l := l.monotonicNs.2) h

theorem wf_failover (nodeId : UInt16) {l : Link} (h : l.router.Wf) : (l.failover nodeId).2.router.Wf := by
  have hmesh := wf_flushUdpMesh nodeId (l := { l with stats := l.stats.failover l.batch.unsentCount }) h
  simp only [failover]
  split <;> exact hmesh

/-- TCP leaves the router and the UDP socket alone. -/
theorem attempt_frame (attempts : Nat) (l : Link) :
    (l.attempt attempts).2.router = l.router ∧ (l.attempt attempts).2.udp = l.udp := by
  obtain ⟨tcp, gate, clock, heq, _⟩ := l.tryConnect_spec
  rw [attempt, heq, flushConnected]
  split <;> exact ⟨rfl, rfl⟩

section Kept

variable {P : MeshRouter → UdpSocket → Prop} {nodeId : UInt16} {l : Link}
  (hforward : ∀ r udp data now, P r udp →
    P (r.forwardUdp udp nodeId data now).2.1 (r.forwardUdp udp nodeId data now).2.2)
include hforward

theorem kept_forwardFrames (now : UInt64) (frames : List WireFrame) (h : P l.router l.udp) :
    P (forwardFrames nodeId now frames l).2.router (forwardFrames nodeId now frames l).2.udp := by
  induction frames generalizing l with
  | nil => exact h
  | cons frame frames ih => exact ih (l := (l.forward nodeId now frame).2) (hforward _ _ _ _ h)

theorem kept_flushUdpMesh (h : P l.router l.udp) :
    P (l.flushUdpMesh nodeId).2.router (l.flushUdpMesh nodeId).2.udp :=
  kept_forwardFrames hforward (l.clock 0) _ (l := l.monotonicNs.2) h

theorem kept_failover (h : P l.router l.udp) : P (l.failover nodeId).2.router (l.failover nodeId).2.udp := by
  have hmesh := kept_flushUdpMesh hforward (l := { l with stats := l.stats.failover l.batch.unsentCount }) h
  simp only [failover]
  split <;> exact hmesh

/-- **The rule for a flush**: outside transport `udp` it does to the router and the UDP socket what calls of
`forward_udp` do. -/
theorem kept_flushBatch {transport : Transport} (hpath : transport ≠ .udp) (op : Endpoint) (h : P l.router l.udp) :
    P (l.flushBatch transport op nodeId).2.router (l.flushBatch transport op nodeId).2.udp := by
  have htcp : ∀ attempts, P (l.monotonicNs.2.attempt attempts).2.router (l.monotonicNs.2.attempt attempts).2.udp := by
    intro attempts
    obtain ⟨hrouter, hudp⟩ := attempt_frame attempts l.monotonicNs.2
    rw [hrouter, hudp]
    exact h
  cases transport with
  | udp => exact absurd rfl hpath
  | mesh => exact kept_flushUdpMesh hforward (l := l.monotonicNs.2) h
  | tcp => exact htcp 128
  | auto =>
    simp only [flushBatch]
    split
    · exact htcp 64
    · exact kept_failover hforward (l := Link.adapt false _ _) (htcp 64)

end Kept

/-- A flush keeps the batch well formed. -/
theorem batch_wf_flushBatch (transport : Transport) (op : Endpoint) (nodeId : UInt16) {l : Link} (hb : l.batch.Wf)
    (hne : l.batch.frames ≠ []) : (l.flushBatch transport op nodeId).2.batch.Wf := by
  have hunsent := hb.unsent hne
  cases transport with
  | udp =>
    obtain ⟨udp, h⟩ := flushUdpDirect_spec op l.monotonicNs.2
    simp only [flushBatch, h]
    exact hb.clear
  | mesh =>
    obtain ⟨router, udp, clock, h⟩ := flushUdpMesh_spec nodeId (l := l.monotonicNs.2) hunsent
    simp only [flushBatch, h]
    exact hb.clear
  | tcp =>
    obtain ⟨batch, tcp, gate, clock, ns, h, hattempt⟩ := flushBatch_tcp op nodeId hunsent
    rw [h]
    exact (hattempt.wf hb).adapt _ _
  | auto =>
    rcases flushBatch_auto_cases op nodeId hunsent with
      ⟨_, _, _, _, ns, hattempt, h⟩ | ⟨_, _, _, _, _, _, _, ns, hattempt, h, _⟩
    · rw [h]
      exact (hattempt.wf hb).adapt true ns
    · rw [h]
      exact ((hattempt.wf hb).adapt false ns).clear

/-- A flush keeps the router well formed. -/
theorem router_wf_flushBatch (transport : Transport) (op : Endpoint) (nodeId : UInt16) {l : Link} (hb : l.batch.Wf)
    (hr : l.router.Wf) (hne : l.batch.frames ≠ []) : (l.flushBatch transport op nodeId).2.router.Wf := by
  have hunsent := hb.unsent hne
  cases transport with
  | udp =>
    obtain ⟨udp, h⟩ := flushUdpDirect_spec op l.monotonicNs.2
    simp only [flushBatch, h]
    exact hr
  | mesh => exact wf_flushUdpMesh nodeId (l := l.monotonicNs.2) hr
  | tcp =>
    obtain ⟨batch, tcp, gate, clock, ns, h, _⟩ := flushBatch_tcp op nodeId hunsent
    rw [h]
    exact hr
  | auto =>
    obtain ⟨ok, batch, tcp, gate, clock, ns, _, h⟩ := flushBatch_auto op nodeId hunsent
    rw [h]
    cases ok with
    | true => exact hr
    | false => exact wf_failover nodeId (l := { l with tcp, gate, clock, batch := batch.adapt false ns }) hr

/-- A flush that succeeds leaves nothing in the batch; without TCP on its own, a flush that fails does neither. -/
theorem flushBatch_cleared (transport : Transport) (op : Endpoint) (nodeId : UInt16) {l : Link} (hb : l.batch.Wf)
    (hne : l.batch.frames ≠ []) (h : (l.flushBatch transport op nodeId).1 = true ∨ transport ≠ .tcp) :
    (l.flushBatch transport op nodeId).2.batch.frames = [] := by
  have hunsent := hb.unsent hne
  cases transport with
  | udp =>
    obtain ⟨udp, heq⟩ := flushUdpDirect_spec op l.monotonicNs.2
    simp only [flushBatch, heq]
    rfl
  | mesh =>
    obtain ⟨router, udp, clock, heq⟩ := flushUdpMesh_spec nodeId (l := l.monotonicNs.2) hunsent
    simp only [flushBatch, heq]
    rfl
  | tcp =>
    obtain ⟨batch, tcp, gate, clock, ns, heq, hattempt⟩ := flushBatch_tcp op nodeId hunsent
    have hok : (l.flushBatch .tcp op nodeId).1 = true := h.resolve_right (fun hne => hne rfl)
    rw [hok] at hattempt
    rw [heq]
    cases hattempt with
    | drained _ _ _ _ _ => exact FrameBatch.frames_adapt _ _ _
  | auto =>
    rcases flushBatch_auto_cases op nodeId hunsent with
      ⟨_, _, _, _, ns, hattempt, heq⟩ | ⟨_, _, _, _, _, _, _, ns, _, heq, _⟩
    · rw [heq]
      cases hattempt with
      | drained _ _ _ _ _ => exact FrameBatch.frames_adapt _ _ _
    · rw [heq]
      rfl

end Link

end ZcMesh.Core
