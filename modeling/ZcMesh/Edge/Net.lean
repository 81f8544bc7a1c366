import Mathlib.Data.List.Basic

/-!
# Sockets of the edge

`core-engine/include/net.hpp`: `UdpSocket::send_to`, and `TcpClient` with `connect`, `send_nb` and `close`. What the
network does is an input: each socket carries the outcomes of its coming calls, and a history of what went out.
-/

namespace ZcMesh.Core

/-- `Endpoint`. -/
structure Endpoint where
  host : String
  port : UInt16
  deriving DecidableEq, Repr, Inhabited

/-! ## UDP -/

/-- One call of `send_to`: where to, what, and whether it returned `true`. -/
structure Datagram where
  ep : Endpoint
  data : List UInt8
  ok : Bool
  deriving DecidableEq, Repr

/-- An open `UdpSocket`: the results of the coming `send_to` calls (`false` once they are used up), and the calls so
far, in order. -/
structure UdpSocket where
  outcomes : List Bool := []
  sent : List Datagram := []
  deriving DecidableEq, Repr

/-- `send_to`. -/
def UdpSocket.sendTo (udp : UdpSocket) (ep : Endpoint) (data : List UInt8) : Bool × UdpSocket :=
  let ok := udp.outcomes.headD false
  (ok, { outcomes := udp.outcomes.tail, sent := udp.sent ++ [⟨ep, data, ok⟩] })

theorem UdpSocket.sent_sendTo (udp : UdpSocket) (ep : Endpoint) (data : List UInt8) :
    (udp.sendTo ep data).2.sent = udp.sent ++ [⟨ep, data, (udp.sendTo ep data).1⟩] := rfl

/-! ## TCP -/

/-- What the kernel does with a `send`: refuse it for good, take nothing for now, or take some bytes. -/
inductive SendOutcome
  | hardError
  | wouldBlock
  | accepted (n : Nat)
  deriving DecidableEq, Repr

/-- `TcpClient`: the outcomes of the coming `connect` and `send_nb` calls (a call without one fails or would block), the
bytes that the open connection has accepted, and those that the connections now gone had accepted, in order. -/
structure TcpClient where
  connects : List Bool := []
  sends : List SendOutcome := []
  stream : Option (List UInt8) := none
  lost : List (List UInt8) := []
  deriving DecidableEq, Repr

namespace TcpClient

def connected (tcp : TcpClient) : Bool := tcp.stream.isSome

/-- `close`. A connection that is marked down is not used again either. -/
def close (tcp : TcpClient) : TcpClient := { tcp with stream := none, lost := tcp.lost ++ tcp.stream.toList }

/-- `connect`: it closes the old connection first. -/
def connect (tcp : TcpClient) : Bool × TcpClient :=
  let ok := tcp.connects.headD false
  (ok, { tcp.close with connects := tcp.connects.tail, stream := if ok then some [] else none })

/-- The open connection accepts `data`. -/
def accept (tcp : TcpClient) (data : List UInt8) : TcpClient := { tcp with stream := tcp.stream.map (· ++ data) }

/-- The next outcome of `send_nb` is used up. -/
def sending (tcp : TcpClient) : TcpClient := { tcp with sends := tcp.sends.tail }

/-- `send_nb`: `-1` with the connection marked down, `0`, or the number of bytes taken, between 1 and all. -/
def sendNb (tcp : TcpClient) (data : List UInt8) : Int × TcpClient :=
  if !tcp.connected || data.length == 0 then (-1, tcp)
  else
    match tcp.sends.headD .wouldBlock with
    | .hardError => (-1, tcp.sending.close)
    | .wouldBlock => (0, tcp.sending)
    | .accepted n =>
      let n := min (max n 1) data.length
      (n, tcp.sending.accept (data.take n))

/-! ## What the connections accept -/

/-- The bytes accepted on every connection so far, the oldest first. -/
def streams (tcp : TcpClient) : List (List UInt8) := tcp.lost ++ tcp.stream.toList

/-- The bytes accepted so far, over all connections. -/
def accepted (tcp : TcpClient) : List UInt8 := tcp.streams.flatten

variable {tcp tcp₁ tcp₂ : TcpClient} {s got more : List UInt8}

theorem connected_iff : tcp.connected = true ↔ ∃ s, tcp.stream = some s := Option.isSome_iff_exists

theorem streams_of_open (h : tcp.stream = some s) : tcp.streams = tcp.lost ++ [s] := by rw [streams, h]; rfl

theorem streams_of_down (h : tcp.connected = false) : tcp.streams = tcp.lost := by
  have hs : tcp.stream = none := by simpa [connected] using h
  rw [streams, hs]
  exact List.append_nil _

@[simp] theorem streams_close (tcp : TcpClient) : tcp.close.streams = tcp.streams := List.append_nil _

/-- Closing a connection takes nothing back, whether it happens or not. -/
theorem accepted_close_if (c : Bool) (tcp : TcpClient) : (if c then tcp.close else tcp).accepted = tcp.accepted := by
  split
  · rw [accepted, streams_close, accepted]
  · rfl

theorem streams_connect (tcp : TcpClient) :
    tcp.connect.2.streams = tcp.streams ++ if tcp.connects.headD false then [[]] else [] := by
  simp only [connect, streams, close]
  split <;> rfl

theorem stream_connect (h : tcp.connects.headD false = true) : tcp.connect.2.stream = some [] := by
  simp only [connect, h, if_true]

theorem connected_connect (tcp : TcpClient) : tcp.connect.2.connected = tcp.connects.headD false := by
  simp only [connect, connected]
  split <;> simp_all

/-- From `tcp` to `tcp'` the open connection, which had accepted `s`, has accepted `got`; it may have been lost
behind that. -/
structure Takes (tcp : TcpClient) (s got : List UInt8) (tcp' : TcpClient) : Prop where
  opened : tcp.stream = some s
  connects : tcp'.connects = tcp.connects
  streams : tcp'.streams = tcp.lost ++ [s ++ got]

theorem Takes.refl (h : tcp.stream = some s) : Takes tcp s [] tcp :=
  ⟨h, rfl, by rw [List.append_nil]; exact streams_of_open h⟩

/-- While the connection is up, it is still the same one. -/
theorem Takes.still (h : tcp.Takes s got tcp₁) (hup : tcp₁.connected = true) :
    tcp₁.stream = some (s ++ got) ∧ tcp₁.lost = tcp.lost := by
  obtain ⟨s₁, hs₁⟩ := connected_iff.mp hup
  have heq := h.streams
  rw [streams_of_open hs₁] at heq
  obtain ⟨hl, hcons⟩ := List.append_inj' heq rfl
  rw [hs₁, List.singleton_inj.mp hcons]
  exact ⟨rfl, hl⟩

theorem Takes.trans (h₁ : tcp.Takes s got tcp₁) (hup : tcp₁.connected = true)
    (h₂ : tcp₁.Takes (s ++ got) more tcp₂) : tcp.Takes s (got ++ more) tcp₂ :=
  ⟨h₁.opened, h₂.connects.trans h₁.connects, by rw [h₂.streams, (h₁.still hup).2, List.append_assoc]⟩

theorem Takes.accepted (h : tcp.Takes s got tcp₁) : tcp₁.accepted = tcp.accepted ++ got := by
  rw [TcpClient.accepted, h.streams, TcpClient.accepted, streams_of_open h.opened]
  simp

/-- **What `send_nb` does**: the connection takes a piece of the data; nothing, unless the result is the length. -/
theorem sendNb_takes (h : tcp.stream = some s) {data : List UInt8} (hdata : data ≠ []) :
    ∃ got, tcp.Takes s got (tcp.sendNb data).2 ∧ got <+: data ∧
      ((tcp.sendNb data).1 ≤ 0 → got = []) ∧
      (0 < (tcp.sendNb data).1 → (tcp.sendNb data).1 = got.length ∧ (tcp.sendNb data).2.connected = true) := by
  have hup : tcp.connected = true := connected_iff.mpr ⟨s, h⟩
  have hne : (data.length == 0) = false := by simpa using hdata
  simp only [sendNb, hup, Bool.not_true, Bool.false_or, hne, Bool.false_eq_true, if_false]
  cases tcp.sends.headD .wouldBlock with
  | hardError =>
    exact ⟨[], ⟨h, rfl, by rw [streams_close, List.append_nil]; exact streams_of_open h⟩, List.nil_prefix,
      fun _ => rfl, nofun⟩
  | wouldBlock => exact ⟨[], ⟨h, rfl, (Takes.refl h).streams⟩, List.nil_prefix, fun _ => rfl, nofun⟩
  | accepted n =>
    have hpos : 0 < min (max n 1) data.length := by
      have := List.length_pos_iff.mpr hdata
      omega
    refine ⟨data.take (min (max n 1) data.length), ⟨h, rfl, ?_⟩, List.take_prefix _ _, ?_, fun _ => ⟨?_, ?_⟩⟩
    · simp [sending, accept, TcpClient.streams, h]
    · intro hle
      exact absurd hle (by simp only; omega)
    · simp
    · simp [accept, sending, connected, h]

end TcpClient

end ZcMesh.Core
