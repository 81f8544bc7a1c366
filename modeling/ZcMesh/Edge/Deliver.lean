import ZcMesh.Edge.Router
import ZcMesh.Lib.Blocks
import ZcMesh.Wire.Frame

/-!
# One frame over TCP or the mesh

`core-engine/src/router.cpp`: `deliver` sends a frame over the connection when it is preferred and open, and through
the mesh when the connection does not take it whole.

* The loop of `deliver` gives the connection the data from its first byte, until a `send_nb` takes nothing
  (`sendAll_spec`).
* A call that returns `true` has delivered one whole copy, and no other call has (`deliver_spec`).
* A connection that would block inside a frame stays open there. Each stream is whole frames and at most one piece of
  a frame, behind which nothing is sent, as long as no later call finds that connection ready for more bytes
  (`deliver_framed_iff`); a call that does puts its frame behind the piece (`deliver_torn`).
-/

namespace ZcMesh.Core

open Blocks (Framed Whole)

/-! ## The code -/

/-- The loop of `deliver`; `stopped` after a `break`. -/
structure Delivering where
  tcp : TcpClient
  sent : Nat
  stopped : Bool

/-- One turn of the loop of `deliver`. -/
def Delivering.step (data : List UInt8) (d : Delivering) : Option Delivering :=
  if d.stopped || decide (d.sent ≥ data.length) then none
  else
    let (n, tcp) := d.tcp.sendNb (data.drop d.sent)
    if n < 0 then some { d with tcp, stopped := true }
    else if n = 0 then some { d with tcp, stopped := true }
    else some { d with tcp, sent := d.sent + n.toNat }

/-- The loop of `deliver`. Every turn sends a byte or is the last one. -/
def TcpClient.sendAll (tcp : TcpClient) (data : List UInt8) : Nat × TcpClient :=
  let d := Runs.whileLoop (Delivering.step data) (data.length + 1) ⟨tcp, 0, false⟩
  (d.sent, d.tcp)

/-- What `deliver` works on: the router, the UDP socket and the TCP client. -/
structure MeshUplink where
  router : MeshRouter
  udp : UdpSocket
  tcp : TcpClient

namespace MeshUplink

/-- `forward_udp`, with the socket of the uplink. -/
def forwardUdp (u : MeshUplink) (nodeId : UInt16) (data : List UInt8) (nowNs : UInt64) : Bool × MeshUplink :=
  let (ok, router, udp) := u.router.forwardUdp u.udp nodeId data nowNs
  (ok, { u with router, udp })

/-- `deliver`. -/
def deliver (u : MeshUplink) (nodeId : UInt16) (data : List UInt8) (preferTcp : Bool) (nowNs : UInt64) :
    Bool × MeshUplink :=
  if preferTcp && u.tcp.connected then
    let (sent, tcp) := u.tcp.sendAll data
    if sent == data.length then (true, { u with tcp }) else { u with tcp }.forwardUdp nodeId data nowNs
  else u.forwardUdp nodeId data nowNs

end MeshUplink

/-- The calls on an uplink; those on its router come from elsewhere, with sockets of their own. -/
inductive UplinkCall
  | deliver (nodeId : UInt16) (frame : WireFrame) (preferTcp : Bool) (nowNs : UInt64)
  | connect
  | close
  | router (call : RouterCall)

/-- The frame to deliver. -/
def UplinkCall.frame : UplinkCall → Option WireFrame
  | .deliver _ frame _ _ => some frame
  | _ => none

/-- The frames to deliver, in order. -/
def UplinkCall.frames (calls : List UplinkCall) : List WireFrame := calls.filterMap UplinkCall.frame

namespace MeshUplink

def step (u : MeshUplink) : UplinkCall → MeshUplink
  | .deliver nodeId frame preferTcp nowNs => (u.deliver nodeId frame.bytes preferTcp nowNs).2
  | .connect => { u with tcp := u.tcp.connect.2 }
  | .close => { u with tcp := u.tcp.close }
  | .router call => { u with router := u.router.step call }

/-- A new router, and no connection; the lists are what the network will do. -/
def start (maxRoutes : Nat) (connects : List Bool) (sends : List SendOutcome) (outcomes : List Bool) : MeshUplink :=
  { router := .make maxRoutes, udp := { outcomes }, tcp := { connects, sends } }

end MeshUplink

/-! ## The loop -/

section Loop

variable {data s : List UInt8} {tcp : TcpClient}

/-- The coming `send_nb` takes bytes. -/
def TcpClient.ready (tcp : TcpClient) : Bool :=
  match tcp.sends.headD .wouldBlock with
  | .accepted _ => true
  | _ => false

theorem TcpClient.sendNb_pos_iff (h : tcp.stream = some s) (hdata : data ≠ []) :
    0 < (tcp.sendNb data).1 ↔ tcp.ready = true := by
  have hup : tcp.connected = true := connected_iff.mpr ⟨s, h⟩
  have hpos := List.length_pos_iff.mpr hdata
  simp only [sendNb, ready, hup, Bool.not_true, Bool.false_or, beq_iff_eq, Nat.ne_of_gt hpos, if_false]
  cases tcp.sends.headD .wouldBlock with
  | hardError => simp
  | wouldBlock => simp
  | accepted n =>
    simp only [iff_true]
    omega

/-- The loop ends behind a `break`, or with everything sent. -/
theorem Delivering.step_eq_none {d : Delivering} (h : d.step data = none) :
    d.stopped = true ∨ data.length ≤ d.sent := by
  by_contra hruns
  rw [not_or, not_le] at hruns
  rw [Delivering.step, if_neg (by simpa using hruns)] at h
  simp only at h
  split at h
  · cases h
  · split at h <;> cases h

/-- **What a turn of the loop does**: `send_nb` takes bytes, or the loop stops. -/
theorem Delivering.step_cases {d d' : Delivering} (h : d.step data = some d') :
    (d.stopped = false ∧ d.sent < data.length) ∧
      ((0 < (d.tcp.sendNb (data.drop d.sent)).1 ∧
          d' = ⟨(d.tcp.sendNb (data.drop d.sent)).2, d.sent + (d.tcp.sendNb (data.drop d.sent)).1.toNat, false⟩) ∨
        ((d.tcp.sendNb (data.drop d.sent)).1 ≤ 0 ∧ d' = ⟨(d.tcp.sendNb (data.drop d.sent)).2, d.sent, true⟩)) := by
  obtain ⟨tcp, sent, stopped⟩ := d
  by_cases hend : (stopped || decide (sent ≥ data.length)) = true
  · rw [Delivering.step, if_pos hend] at h
    cases h
  · obtain ⟨rfl, hlt⟩ : stopped = false ∧ sent < data.length := by simpa using hend
    rw [Delivering.step, if_neg hend] at h
    refine ⟨⟨rfl, hlt⟩, ?_⟩
    simp only at h
    split at h
    · next hneg => exact Or.inr ⟨hneg.le, (Option.some_inj.mp h).symm⟩
    · split at h
      · next hzero => exact Or.inr ⟨hzero.le, (Option.some_inj.mp h).symm⟩
      · next hneg hzero => exact Or.inl ⟨by simp only; omega, (Option.some_inj.mp h).symm⟩

/-- What holds in the loop of `deliver`. -/
structure Delivering.Inv (data : List UInt8) (tcp : TcpClient) (s : List UInt8) (d : Delivering) : Prop where
  takes : tcp.Takes s (data.take d.sent) d.tcp
  sent_le : d.sent ≤ data.length
  up : d.stopped = false → d.tcp.connected = true
  began : d.sent = 0 → d.stopped = false → d.tcp = tcp
  refused : d.sent = 0 → d.stopped = true → tcp.ready = false
  ready : 0 < d.sent → tcp.ready = true

/-- The turns that are left, at most. -/
def Delivering.left (data : List UInt8) (d : Delivering) : Nat := if d.stopped then 0 else data.length - d.sent + 1

/-- `send_nb` takes bytes. -/
theorem Delivering.Inv.send {d : Delivering} (h : Inv data tcp s d) (hrun : d.stopped = false)
    (hlt : d.sent < data.length) (hn : 0 < (d.tcp.sendNb (data.drop d.sent)).1) :
    Inv data tcp s
      ⟨(d.tcp.sendNb (data.drop d.sent)).2, d.sent + (d.tcp.sendNb (data.drop d.sent)).1.toNat, false⟩ := by
  have hopen := (h.takes.still (h.up hrun)).1
  have hdrop : data.drop d.sent ≠ [] := by simpa using hlt
  obtain ⟨more, htakes, hpre, -, hpos⟩ := TcpClient.sendNb_takes hopen hdrop
  obtain ⟨hlen, hup⟩ := hpos hn
  have hmore : data.take (d.sent + (d.tcp.sendNb (data.drop d.sent)).1.toNat) = data.take d.sent ++ more := by
    rw [hlen, Int.toNat_natCast, List.take_add, ← List.prefix_iff_eq_take.mp hpre]
  have hle := hpre.length_le
  rw [List.length_drop] at hle
  exact
    { takes := by
        rw [hmore]
        exact h.takes.trans (h.up hrun) htakes
      sent_le := by
        simp only
        omega
      up := fun _ => hup
      began := by
        simp only
        omega
      refused := nofun
      ready := fun _ => by
        rcases Nat.eq_zero_or_pos d.sent with h0 | hsent
        · rw [← h.began h0 hrun]
          exact (TcpClient.sendNb_pos_iff hopen hdrop).mp hn
        · exact h.ready hsent }

/-- `send_nb` takes nothing. -/
theorem Delivering.Inv.stop {d : Delivering} (h : Inv data tcp s d) (hrun : d.stopped = false)
    (hlt : d.sent < data.length) (hn : (d.tcp.sendNb (data.drop d.sent)).1 ≤ 0) :
    Inv data tcp s ⟨(d.tcp.sendNb (data.drop d.sent)).2, d.sent, true⟩ := by
  have hopen := (h.takes.still (h.up hrun)).1
  have hdrop : data.drop d.sent ≠ [] := by simpa using hlt
  obtain ⟨more, htakes, -, hzero, -⟩ := TcpClient.sendNb_takes hopen hdrop
  have hsame := h.takes.trans (h.up hrun) htakes
  rw [hzero hn, List.append_nil] at hsame
  refine ⟨hsame, h.sent_le, nofun, nofun, fun h0 _ => ?_, h.ready⟩
  rw [← h.began h0 hrun]
  exact Bool.eq_false_iff.mpr fun hready => absurd ((TcpClient.sendNb_pos_iff hopen hdrop).mpr hready) hn.not_gt

/-- One turn of the loop sends a byte or stops. -/
theorem Delivering.Inv.step {d d' : Delivering} (h : Inv data tcp s d) (hst : d.step data = some d') :
    Inv data tcp s d' ∧ d'.left data < d.left data := by
  obtain ⟨⟨hrun, hlt⟩, ⟨hn, rfl⟩ | ⟨hn, rfl⟩⟩ := Delivering.step_cases hst
  · refine ⟨h.send hrun hlt hn, ?_⟩
    simp only [left, hrun, Bool.false_eq_true, if_false]
    omega
  · exact ⟨h.stop hrun hlt hn, by simp [left, hrun]⟩

/-- **The loop of `deliver`**: the connection takes the data up to where the loop ends; something, if it is ready. -/
theorem TcpClient.sendAll_spec (h : tcp.stream = some s) (hdata : data ≠ []) :
    (tcp.sendAll data).1 ≤ data.length ∧ tcp.Takes s (data.take (tcp.sendAll data).1) (tcp.sendAll data).2 ∧
      (0 < (tcp.sendAll data).1 ↔ tcp.ready = true) := by
  have hstart : Delivering.Inv data tcp s ⟨tcp, 0, false⟩ :=
    ⟨.refl h, Nat.zero_le _, fun _ => connected_iff.mpr ⟨s, h⟩, fun _ _ => rfl, nofun, nofun⟩
  obtain ⟨hinv, hend⟩ := Runs.whileLoop_ends (fun _ _ (hinv : Delivering.Inv data tcp s _) => hinv.step)
    (data.length + 1) ⟨tcp, 0, false⟩ hstart (Nat.le_refl _)
  refine ⟨hinv.sent_le, hinv.takes, hinv.ready, fun hready => Nat.pos_of_ne_zero fun h0 => ?_⟩
  rcases Delivering.step_eq_none hend with hstopped | hall
  · have hnot := hinv.refused h0 hstopped
    rw [hready] at hnot
    cases hnot
  · exact absurd (h0 ▸ hall) (Nat.not_le.mpr (List.length_pos_iff.mpr hdata))

end Loop

/-! ## One call -/

namespace MeshRouter

variable {r : MeshRouter}

/-- What a call hands to the hops: copies of the data, of which one is taken, if any. -/
theorem forwardUdp_copies (hr : r.Wf) (udp : UdpSocket) (nodeId : UInt16) (data : List UInt8) (nowNs : UInt64) :
    ∃ more, (r.forwardUdp udp nodeId data nowNs).2.2.sent = udp.sent ++ more ∧ (∀ d ∈ more, d.data = data) ∧
      more.countP (·.ok) = (r.forwardUdp udp nodeId data nowNs).1.toNat := by
  cases hfind : r.find nodeId with
  | none =>
    rw [forwardUdp_unknown hfind]
    exact ⟨[], (List.append_nil _).symm, nofun, rfl⟩
  | some i =>
    have hi := find_lt hfind
    rw [forwardUdp_eq hfind (List.getElem?_eq_getElem hi)]
    obtain ⟨h, hf⟩ := RouteEntry.forward_spec (hr _ (List.getElem_mem hi)) udp data nowNs
    refine ⟨_, hf.sends.sent, ?_, ?_⟩
    · intro d hd
      obtain ⟨t, _, rfl⟩ := List.mem_map.mp hd
      rfl
    · rw [List.countP_map]
      show h.log.countP (·.2) = _
      rw [h.countP_log, hf.ok]
      cases h.won <;> rfl

end MeshRouter

namespace MeshUplink

variable {u u' : MeshUplink} {data got : List UInt8} {more : List Datagram} {ok : Bool}

/-- The connection has taken everything. -/
theorem deliver_taken {preferTcp : Bool} (huse : (preferTcp && u.tcp.connected) = true)
    (hall : (u.tcp.sendAll data).1 = data.length) (nodeId : UInt16) (nowNs : UInt64) :
    u.deliver nodeId data preferTcp nowNs = (true, { u with tcp := (u.tcp.sendAll data).2 }) := by
  simp [deliver, huse, hall]

/-- The connection has stopped too early. -/
theorem deliver_short {preferTcp : Bool} (huse : (preferTcp && u.tcp.connected) = true)
    (hshort : (u.tcp.sendAll data).1 ≠ data.length) (nodeId : UInt16) (nowNs : UInt64) :
    u.deliver nodeId data preferTcp nowNs =
      { u with tcp := (u.tcp.sendAll data).2 }.forwardUdp nodeId data nowNs := by
  simp [deliver, huse, hshort]

/-- No connection is used. -/
theorem deliver_mesh {preferTcp : Bool} (huse : ¬(preferTcp && u.tcp.connected) = true) (nodeId : UInt16)
    (nowNs : UInt64) : u.deliver nodeId data preferTcp nowNs = u.forwardUdp nodeId data nowNs := by
  rw [deliver, if_neg huse]

/-- From `u` to `u'` a call has given `got` to the connection and `more` to the hops; it returns `true` if one of them
has taken the data whole. -/
structure Delivered (u u' : MeshUplink) (data : List UInt8) (ok : Bool) (got : List UInt8) (more : List Datagram) :
    Prop where
  taken : u'.tcp.accepted = u.tcp.accepted ++ got
  part : got <+: data
  sent : u'.udp.sent = u.udp.sent ++ more
  copies : ∀ d ∈ more, d.data = data
  whole : ok = true ↔ got = data ∨ more.countP (·.ok) = 1
  once : got = data → more = []

/-- What `forward_udp` does behind the connection. -/
theorem forwardUdp_delivered (hr : u.router.Wf) {tcp : TcpClient} (htaken : tcp.accepted = u.tcp.accepted ++ got)
    (hpart : got <+: data) (hshort : got ≠ data) (nodeId : UInt16) (nowNs : UInt64) :
    ∃ more, Delivered u ({ u with tcp }.forwardUdp nodeId data nowNs).2 data
      ({ u with tcp }.forwardUdp nodeId data nowNs).1 got more := by
  obtain ⟨more, hsent, hcopies, hcount⟩ := MeshRouter.forwardUdp_copies hr u.udp nodeId data nowNs
  refine ⟨more, htaken, hpart, hsent, hcopies, ?_, fun hall => absurd hall hshort⟩
  show (u.router.forwardUdp u.udp nodeId data nowNs).1 = true ↔ _
  rw [hcount]
  cases (u.router.forwardUdp u.udp nodeId data nowNs).1 <;> simp [hshort]

/-- **What `deliver` does**; an open connection takes bytes when it is preferred and ready. -/
theorem deliver_spec (hr : u.router.Wf) (nodeId : UInt16) (hdata : data ≠ []) (preferTcp : Bool) (nowNs : UInt64) :
    ∃ got more, Delivered u (u.deliver nodeId data preferTcp nowNs).2 data (u.deliver nodeId data preferTcp nowNs).1
        got more ∧
      (u.tcp.stream = none → (u.deliver nodeId data preferTcp nowNs).2.tcp = u.tcp) ∧
      ∀ s, u.tcp.stream = some s → u.tcp.Takes s got (u.deliver nodeId data preferTcp nowNs).2.tcp ∧
        (got ≠ [] ↔ preferTcp = true ∧ u.tcp.ready = true) := by
  by_cases huse : (preferTcp && u.tcp.connected) = true
  · obtain ⟨hprefer, hup⟩ := Bool.and_eq_true_iff.mp huse
    obtain ⟨s, hs⟩ := TcpClient.connected_iff.mp hup
    obtain ⟨hle, htakes, hready⟩ := TcpClient.sendAll_spec hs hdata
    have hgot : data.take (u.tcp.sendAll data).1 ≠ [] ↔ preferTcp = true ∧ u.tcp.ready = true := by
      rw [← hready]
      simp [hdata, hprefer, Nat.pos_iff_ne_zero]
    have hsome : u.tcp.stream ≠ none := by simp [hs]
    by_cases hall : (u.tcp.sendAll data).1 = data.length
    · rw [deliver_taken huse hall]
      rw [hall, List.take_length] at htakes hgot
      refine ⟨data, [], ⟨htakes.accepted, List.prefix_rfl, (List.append_nil _).symm, nofun, by simp, fun _ => rfl⟩,
        fun hnone => absurd hnone hsome, fun s' hs' => ?_⟩
      cases hs.symm.trans hs'
      exact ⟨htakes, hgot⟩
    · rw [deliver_short huse hall]
      have hshort : data.take (u.tcp.sendAll data).1 ≠ data := by
        intro heq
        have hlen := congrArg List.length heq
        rw [List.length_take] at hlen
        omega
      obtain ⟨more, hdelivered⟩ := forwardUdp_delivered hr htakes.accepted (List.take_prefix _ _) hshort nodeId nowNs
      refine ⟨_, more, hdelivered, fun hnone => absurd hnone hsome, fun s' hs' => ?_⟩
      cases hs.symm.trans hs'
      exact ⟨htakes, hgot⟩
  · rw [deliver_mesh huse]
    obtain ⟨more, hdelivered⟩ := forwardUdp_delivered hr (List.append_nil u.tcp.accepted).symm List.nil_prefix
      (Ne.symm hdata) nodeId nowNs
    refine ⟨[], more, hdelivered, fun _ => rfl, fun s hs => ⟨.refl hs, ?_⟩⟩
    have hup : u.tcp.connected = true := TcpClient.connected_iff.mpr ⟨s, hs⟩
    rw [hup, Bool.and_true] at huse
    simp [huse]

theorem wf_deliver (hr : u.router.Wf) (nodeId : UInt16) (data : List UInt8) (preferTcp : Bool) (nowNs : UInt64) :
    (u.deliver nodeId data preferTcp nowNs).2.router.Wf := by
  have hforward := hr.forwardUdp u.udp nodeId data nowNs
  by_cases huse : (preferTcp && u.tcp.connected) = true
  · by_cases hall : (u.tcp.sendAll data).1 = data.length
    · rw [deliver_taken huse hall]
      exact hr
    · rw [deliver_short huse hall]
      exact hforward
  · rw [deliver_mesh huse]
    exact hforward

/-! ## Runs -/

/-- The connection is open, and its stream ends inside a frame. -/
def torn (u : MeshUplink) : Bool := u.tcp.stream.any fun s => s.length % wireFrameSize != 0

/-- The defect: a frame goes to a connection that has stopped inside another one, and is ready for more bytes. -/
def appends (u : MeshUplink) : UplinkCall → Bool
  | .deliver _ _ preferTcp _ => preferTcp && u.torn && u.tcp.ready
  | _ => false

/-- **What `deliver` promises** about a run of calls: each stream is whole frames and at most one piece of a frame,
behind which nothing is sent, and a call returns `true` if it has delivered one whole copy. -/
structure KeepsFramed (u : MeshUplink) (calls : List UplinkCall) : Prop where
  framed : ∀ before, before <+: calls → ∀ s ∈ (Runs.run step u before).tcp.streams,
    Framed WireFrame.bytes (UplinkCall.frames before) s
  stops : ∀ before later, before ++ later <+: calls → ∀ (k : Nat) (s : List UInt8),
    (Runs.run step u before).tcp.streams[k]? = some s → s.length % wireFrameSize ≠ 0 →
      (Runs.run step u (before ++ later)).tcp.streams[k]? = some s
  copy : ∀ before nodeId frame preferTcp nowNs, before ++ [.deliver nodeId frame preferTcp nowNs] <+: calls →
    let u' := Runs.run step u before
    let out := u'.deliver nodeId frame.bytes preferTcp nowNs
    ∃ got more, Delivered u' out.2 frame.bytes out.1 got more

theorem wf_step (hr : u.router.Wf) (c : UplinkCall) : (u.step c).router.Wf := by
  cases c with
  | deliver nodeId frame preferTcp nowNs => exact wf_deliver hr nodeId frame.bytes preferTcp nowNs
  | connect => exact hr
  | close => exact hr
  | router call => exact hr.step call

theorem wf_run (hr : u.router.Wf) (calls : List UplinkCall) : (Runs.run step u calls).router.Wf :=
  Runs.run_inv (P := fun u => u.router.Wf) (fun _ c hr => wf_step hr c) calls u hr

/-- **What a call does to the streams**: nothing, or it opens a new one, or it sends a piece of its frame on the last
one. -/
theorem streams_step (hr : u.router.Wf) (c : UplinkCall) :
    (u.step c).tcp.streams = u.tcp.streams ∨ (u.step c).tcp.streams = u.tcp.streams ++ [[]] ∨
      ∃ nodeId frame preferTcp nowNs s got, c = .deliver nodeId frame preferTcp nowNs ∧ u.tcp.stream = some s ∧
        got <+: frame.bytes ∧ (got ≠ [] ↔ preferTcp = true ∧ u.tcp.ready = true) ∧
        (u.step c).tcp.streams = u.tcp.lost ++ [s ++ got] := by
  cases c with
  | deliver nodeId frame preferTcp nowNs =>
    obtain ⟨got, more, hdelivered, hdown, hopen⟩ := deliver_spec hr nodeId frame.bytes_ne_nil preferTcp nowNs
    cases hs : u.tcp.stream with
    | none => exact Or.inl (congrArg TcpClient.streams (hdown hs))
    | some s =>
      obtain ⟨htakes, hgot⟩ := hopen s hs
      exact Or.inr (Or.inr ⟨nodeId, frame, preferTcp, nowNs, s, got, rfl, rfl, hdelivered.part, hgot, htakes.streams⟩)
  | connect =>
    have hstreams := TcpClient.streams_connect u.tcp
    cases hok : u.tcp.connects.headD false with
    | false =>
      rw [hok, if_neg Bool.false_ne_true, List.append_nil] at hstreams
      exact Or.inl hstreams
    | true =>
      rw [hok, if_pos rfl] at hstreams
      exact Or.inr (Or.inl hstreams)
  | close => exact Or.inl (TcpClient.streams_close u.tcp)
  | router call => exact Or.inl rfl

theorem appends_iff {c : UplinkCall} : u.appends c = true ↔
    ∃ nodeId frame nowNs s, c = .deliver nodeId frame true nowNs ∧ u.tcp.stream = some s ∧
      s.length % wireFrameSize ≠ 0 ∧ u.tcp.ready = true := by
  cases c with
  | deliver nodeId frame preferTcp nowNs => cases hs : u.tcp.stream <;> simp [appends, torn, hs, and_assoc]
  | _ => simp [appends]

/-- Without the defect a connection that takes bytes stands at a frame boundary. -/
theorem boundary_of_not_appends {nodeId : UInt16} {frame : WireFrame} {preferTcp : Bool} {nowNs : UInt64}
    {s : List UInt8} (hok : u.appends (.deliver nodeId frame preferTcp nowNs) = false) (hs : u.tcp.stream = some s)
    (hready : preferTcp = true ∧ u.tcp.ready = true) : s.length % wireFrameSize = 0 := by
  simpa [appends, torn, hs, hready.1, hready.2] using hok

/-- Without the defect a piece stays where a stream ends. -/
theorem stops_step (hr : u.router.Wf) {c : UplinkCall} (hok : u.appends c = false) {k : Nat} {s : List UInt8}
    (hs : u.tcp.streams[k]? = some s) (hinside : s.length % wireFrameSize ≠ 0) :
    (u.step c).tcp.streams[k]? = some s := by
  have hk := (List.getElem?_eq_some_iff.mp hs).1
  rcases streams_step hr c with h | h | ⟨nodeId, frame, preferTcp, nowNs, last, got, rfl, hopen, _, hgot, h⟩
  · rw [h, hs]
  · rw [h, List.getElem?_append_left hk, hs]
  · rw [TcpClient.streams_of_open hopen] at hs hk
    by_cases hnil : got = []
    · rw [h, hnil, List.append_nil, hs]
    · have hboundary := boundary_of_not_appends hok hopen (hgot.mp hnil)
      have hlt : k < u.tcp.lost.length := by
        by_contra hge
        rw [List.length_append, List.length_singleton] at hk
        have hlast : k = u.tcp.lost.length := by omega
        rw [hlast, List.getElem?_concat_length] at hs
        rw [← Option.some_inj.mp hs] at hinside
        exact hinside hboundary
      rw [List.getElem?_append_left hlt] at hs
      rw [h, List.getElem?_append_left hlt, hs]

/-- Without the defect the streams stay framed. -/
theorem framed_step (hr : u.router.Wf) {c : UplinkCall} (hok : u.appends c = false) {src : List WireFrame}
    (h : ∀ s ∈ u.tcp.streams, Framed WireFrame.bytes src s) :
    ∀ s ∈ (u.step c).tcp.streams, Framed WireFrame.bytes (src ++ c.frame.toList) s := by
  have hold : ∀ s ∈ u.tcp.streams, Framed WireFrame.bytes (src ++ c.frame.toList) s :=
    fun s hs => (h s hs).mono fun f hf => List.mem_append_left _ hf
  intro s hs
  rcases streams_step hr c with
    hsame | hnew | ⟨nodeId, frame, preferTcp, nowNs, last, got, rfl, hopen, hpart, hgot, hsent⟩
  · rw [hsame] at hs
    exact hold s hs
  · rw [hnew] at hs
    rcases List.mem_append.mp hs with hs | hs
    · exact hold s hs
    · rw [List.mem_singleton.mp hs]
      exact (Blocks.whole_nil _).framed
  · rw [TcpClient.streams_of_open hopen] at hold
    rw [hsent] at hs
    rcases List.mem_append.mp hs with hs | hs
    · exact hold s (List.mem_append_left _ hs)
    · rw [List.mem_singleton.mp hs]
      have hlast := hold last (List.mem_append_right _ (List.mem_singleton.mpr rfl))
      by_cases hnil : got = []
      · rwa [hnil, List.append_nil]
      · have hboundary := boundary_of_not_appends hok hopen (hgot.mp hnil)
        have hprefix : got <+: Blocks.bytesOf WireFrame.bytes [frame] := by simpa using hpart
        have hpiece := (Blocks.framed_of_prefix WireFrame.length_bytes (by decide) hprefix).mono
          fun f hf => List.mem_append_right src (show f ∈ [frame] from hf)
        exact hpiece.whole_append (hlast.whole_of_boundary WireFrame.length_bytes hboundary)

theorem framed_run (hr : u.router.Wf) {src : List WireFrame} (h : ∀ s ∈ u.tcp.streams, Framed WireFrame.bytes src s)
    (calls : List UplinkCall) (hok : Runs.AllSteps step (fun u c => u.appends c = false) u calls) :
    ∀ s ∈ (Runs.run step u calls).tcp.streams, Framed WireFrame.bytes (src ++ UplinkCall.frames calls) s := by
  induction calls generalizing u src with
  | nil => simpa [UplinkCall.frames] using h
  | cons c calls ih =>
    have hframes : src ++ UplinkCall.frames (c :: calls) = src ++ c.frame.toList ++ UplinkCall.frames calls := by
      rw [List.append_assoc, UplinkCall.frames, UplinkCall.frames]
      cases hc : c.frame <;> simp [hc]
    rw [hframes]
    exact ih (wf_step hr c) (framed_step hr hok.1 h) hok.2

theorem stops_run (hr : u.router.Wf) {k : Nat} {s : List UInt8} (hs : u.tcp.streams[k]? = some s)
    (hinside : s.length % wireFrameSize ≠ 0) (calls : List UplinkCall)
    (hok : Runs.AllSteps step (fun u c => u.appends c = false) u calls) :
    (Runs.run step u calls).tcp.streams[k]? = some s := by
  induction calls generalizing u with
  | nil => exact hs
  | cons c calls ih => exact ih (wf_step hr c) (stops_step hr hok.1 hs hinside) hok.2

/-- **A run keeps the promise if and only if no call puts its frame behind a piece.** -/
theorem deliver_framed_iff (maxRoutes : Nat) (connects : List Bool) (sends : List SendOutcome) (outcomes : List Bool)
    (calls : List UplinkCall) :
    KeepsFramed (start maxRoutes connects sends outcomes) calls ↔
      Runs.AllSteps step (fun u c => u.appends c = false) (start maxRoutes connects sends outcomes) calls := by
  have hwf := fun before => wf_run (u := start maxRoutes connects sends outcomes) (MeshRouter.wf_make maxRoutes) before
  constructor
  · intro h
    refine Runs.allSteps_of_prefix fun before c hbefore _ => Bool.eq_false_iff.mpr fun happends => ?_
    -- the call would change the stream that ends inside a frame
    obtain ⟨nodeId, frame, nowNs, s, rfl, hs, hinside, hready⟩ := appends_iff.mp happends
    obtain ⟨got, more, _, _, hopen⟩ := deliver_spec (hwf before) nodeId frame.bytes_ne_nil true nowNs
    obtain ⟨htakes, hgot⟩ := hopen s hs
    have hstays := h.stops before [.deliver nodeId frame true nowNs] hbefore
      (Runs.run step (start maxRoutes connects sends outcomes) before).tcp.lost.length s
      (by rw [TcpClient.streams_of_open hs, List.getElem?_concat_length]) hinside
    rw [Runs.run_snoc, step, htakes.streams, List.getElem?_concat_length, Option.some_inj,
      List.append_right_eq_self] at hstays
    exact hgot.mpr ⟨rfl, hready⟩ hstays
  · intro hok
    refine ⟨?_, ?_, fun before nodeId frame preferTcp nowNs _ => ?_⟩
    · rintro before ⟨rest, rfl⟩
      have hnone : ∀ s ∈ (start maxRoutes connects sends outcomes).tcp.streams, Framed WireFrame.bytes [] s := nofun
      exact framed_run (hwf []) hnone before (Runs.allSteps_append.mp hok).1
    · rintro before later ⟨rest, rfl⟩ k s hs hinside
      rw [Runs.run_append]
      have hbetween := (Runs.allSteps_append.mp (Runs.allSteps_append.mp hok).1).2
      exact stops_run (hwf before) hs hinside later hbetween
    · obtain ⟨got, more, hdelivered, _⟩ := deliver_spec (hwf before) nodeId frame.bytes_ne_nil preferTcp nowNs
      exact ⟨got, more, hdelivered⟩

/-- The same frame twice: the connection takes ten bytes and would block, so a hop gets the first copy; the second one
follows on the connection, behind the ten bytes. -/
theorem deliver_torn :
    let frame := packFrameInto
      { seq := 1, timestampNs := 0, nodeId := 7, sensorType := 0, flags := 0, reserved := 0, rawValue := 5 }
    let calls := [.router (.addRoute 7 (some [⟨"10.0.0.1", 9000⟩]) 1), .connect, .deliver 7 frame true 0,
      UplinkCall.deliver 7 frame true 0]
    let u := start 4 [true] [.accepted 10, .wouldBlock, .accepted 24] [true]
    (Runs.run step u calls).tcp.streams = [frame.bytes.take 10 ++ frame.bytes] ∧ ¬ KeepsFramed u calls := by
  intro frame calls u
  have hstreams : (Runs.run step u calls).tcp.streams = [frame.bytes.take 10 ++ frame.bytes] := by decide +kernel
  refine ⟨hstreams, ?_⟩
  intro h
  have hframed := h.framed calls List.prefix_rfl (frame.bytes.take 10 ++ frame.bytes)
    (by rw [hstreams]; exact List.mem_singleton.mpr rfl)
  obtain ⟨f, hf, hfirst⟩ := hframed.take_block WireFrame.length_bytes (by decide) (by simp [wireFrameSize])
  have hsame : frame = f := by simpa [calls, UplinkCall.frames, UplinkCall.frame] using hf
  have hother : (frame.bytes.take 10 ++ frame.bytes).take wireFrameSize ≠ frame.bytes := by decide +kernel
  exact hother (by rw [hfirst, ← hsame])

end MeshUplink

end ZcMesh.Core
