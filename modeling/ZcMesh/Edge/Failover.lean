import ZcMesh.Edge.Main

/-!
# Failover in transport `auto`

* At the head of the loop the open connection stands at a frame boundary, and a connection that is gone carries whole
  frames and at most one piece at its end (`Aligned`). A flush keeps that, because the failover closes a connection that
  it leaves inside a frame.
* A flush hands every frame of the batch to exactly one path (`HandsOver`).
* What a connection that is gone has accepted never changes again (`lost_flushBatch`).
* Together, for every run: `failover_exact`.
-/

namespace ZcMesh.Core

open Blocks (Framed Whole)

/-- The open connection has accepted whole frames, those gone are framed. -/
structure TcpClient.Aligned (src : List WireFrame) (tcp : TcpClient) : Prop where
  stream : ∀ s, tcp.stream = some s → Whole WireFrame.bytes src s
  lost : ∀ s ∈ tcp.lost, Framed WireFrame.bytes src s

namespace TcpClient.Aligned

variable {src src' : List WireFrame} {tcp : TcpClient}

theorem mono (h : tcp.Aligned src) (hsrc : ∀ f ∈ src, f ∈ src') : tcp.Aligned src' where
  stream := fun s hs => (h.stream s hs).mono hsrc
  lost := fun s hs => (h.lost s hs).mono hsrc

theorem streams (h : tcp.Aligned src) : ∀ s ∈ tcp.streams, Framed WireFrame.bytes src s := by
  intro s hs
  rcases List.mem_append.mp hs with hs | hs
  · exact h.lost s hs
  · exact (h.stream s (Option.mem_toList.mp hs)).framed

theorem of_down (hdown : tcp.connected = false) (h : ∀ s ∈ tcp.streams, Framed WireFrame.bytes src s) :
    tcp.Aligned src where
  stream := fun s hs => by simp [connected, hs] at hdown
  lost := by rwa [streams_of_down hdown] at h

theorem of_streams {older : List (List UInt8)} {last : List UInt8} (h : tcp.streams = older ++ [last])
    (hlast : Whole WireFrame.bytes src last) (holder : ∀ s ∈ older, Framed WireFrame.bytes src s) :
    tcp.Aligned src := by
  cases hs : tcp.stream with
  | none =>
    refine of_down (by simp [connected, hs]) ?_
    intro s hmem
    rw [h] at hmem
    rcases List.mem_append.mp hmem with hmem | hmem
    · exact holder s hmem
    · rw [List.mem_singleton.mp hmem]
      exact hlast.framed
  | some s =>
    rw [streams_of_open hs] at h
    obtain ⟨hl, hsingle⟩ := List.append_inj' h rfl
    refine ⟨?_, by rwa [hl]⟩
    intro s' hs'
    rw [hs, Option.some.injEq] at hs'
    rw [← hs', List.singleton_inj.mp hsingle]
    exact hlast

end TcpClient.Aligned

namespace Link

/-! ## One flush -/

section Flush

variable {opens : Prop} {src : List WireFrame} {older : List (List UInt8)} {s : List UInt8} {b batch : FrameBatch}
  {tcp tcp' : TcpClient}

theorem Reaches.aligned (h : Reaches opens tcp older s) (htcp : tcp.Aligned src) :
    Whole WireFrame.bytes src s ∧ ∀ x ∈ older, Framed WireFrame.bytes src x := by
  rcases h with ⟨hs, rfl⟩ | ⟨_, rfl, rfl⟩
  · exact ⟨htcp.stream s hs, htcp.lost⟩
  · exact ⟨Blocks.whole_nil src, htcp.streams⟩

/-- A batch that TCP takes whole leaves the connections aligned. -/
theorem Attempted.aligned (h : Attempted opens b tcp true batch tcp') (h0 : b.sendOffset = 0)
    (hsrc : ∀ f ∈ b.frames, f ∈ src) (htcp : tcp.Aligned src) : tcp'.Aligned src := by
  cases h with
  | drained older s hreach _ hstreams =>
    obtain ⟨hs, holder⟩ := hreach.aligned htcp
    rw [h0, List.drop_zero] at hstreams
    exact .of_streams hstreams (hs.append ⟨b.frames, rfl, hsrc⟩) holder

/-- A batch that stalls leaves the connections aligned once a connection inside a frame is closed. -/
theorem Attempted.aligned_abort (h : Attempted opens b tcp false batch tcp') (h0 : b.sendOffset = 0)
    (hsrc : ∀ f ∈ b.frames, f ∈ src) (htcp : tcp.Aligned src) :
    (if batch.hasPartialSend && tcp'.connected then tcp'.close else tcp').Aligned src := by
  have hframed : ∀ s ∈ tcp'.streams, Framed WireFrame.bytes src s := by
    cases h with
    | down _ hstreams => rw [hstreams]; exact htcp.streams
    | stalled older s got hreach hgot _ hstreams =>
      obtain ⟨hs, holder⟩ := hreach.aligned htcp
      rw [h0, List.drop_zero] at hgot
      have hpiece := (Blocks.framed_of_prefix WireFrame.length_bytes (by decide) hgot).mono hsrc
      intro x hx
      rw [hstreams] at hx
      rcases List.mem_append.mp hx with hx | hx
      · exact holder x hx
      · rw [List.mem_singleton.mp hx]
        exact hpiece.whole_append hs
  cases hup : tcp'.connected with
  | false =>
    rw [Bool.and_false, if_neg Bool.false_ne_true]
    exact .of_down hup hframed
  | true =>
    cases hpart : batch.hasPartialSend with
    | true => exact .of_down rfl (by rw [Bool.and_true, if_pos rfl, TcpClient.streams_close]; exact hframed)
    | false =>
      rw [Bool.false_and, if_neg Bool.false_ne_true]
      cases h with
      | down hdown _ => rw [hup] at hdown; cases hdown
      | stalled older s got hreach _ _ hstreams =>
        obtain ⟨hs, holder⟩ := hreach.aligned htcp
        have hzero : ¬ 0 < b.sendOffset + got.length := of_decide_eq_false hpart
        have hnil : got = [] := List.length_eq_zero_iff.mp (by omega)
        rw [hnil, List.append_nil] at hstreams
        exact .of_streams hstreams hs holder

end Flush

/-- From `l` to `l'` each frame of the batch went out on one path: `got` over TCP, and the frames that are not whole in
`got` through the mesh. -/
def HandsOver (l l' : Link) : Prop :=
  ∃ got, l'.tcp.accepted = l.tcp.accepted ++ got ∧ got <+: l.batch.bytes ∧
    l'.forwards = l.forwards ++ (l.batch.frames.drop (got.length / wireFrameSize)).map WireFrame.bytes ∧
    l'.stats.meshRescueFrames =
      l.stats.meshRescueFrames + UInt64.ofNat (l.batch.count - got.length / wireFrameSize) ∧
    l'.batch.frames = []

/-- **A flush in transport `auto`**, with the cursor at the start of the batch. -/
theorem handsOver_flushBatch {l : Link} {src : List WireFrame} (op : Endpoint) (nodeId : UInt16) (hb : l.batch.Wf)
    (h0 : l.batch.sendOffset = 0) (hne : l.batch.frames ≠ []) (hsrc : ∀ f ∈ l.batch.frames, f ∈ src)
    (htcp : l.tcp.Aligned src) :
    HandsOver l (l.flushBatch .auto op nodeId).2 ∧ (l.flushBatch .auto op nodeId).2.tcp.Aligned src := by
  have hempty := flushBatch_cleared .auto op nodeId hb hne (Or.inr nofun)
  rcases flushBatch_auto_cases op nodeId (hb.unsent hne) with
    ⟨batch, tcp, _, _, _, hattempt, heq⟩ | ⟨batch, tcp, _, _, _, _, _, _, hattempt, heq, hrescue⟩
  · obtain ⟨got, haccepted, hgot, hwhole, _⟩ := hattempt.taken h0
    have hlen : got.length / wireFrameSize = l.batch.count := by
      rw [hwhole rfl, FrameBatch.length_bytes, Nat.mul_div_cancel_left _ (by decide)]
    rw [heq] at hempty ⊢
    refine ⟨⟨got, haccepted, hgot, ?_, ?_, hempty⟩, hattempt.aligned h0 hsrc htcp⟩
    · rw [hlen, FrameBatch.count, List.drop_length, List.map_nil, List.append_nil]
    · rw [hlen, Nat.sub_self]
      exact (UInt64.add_zero _).symm
  · obtain ⟨got, haccepted, hgot, _, hstall⟩ := hattempt.taken h0
    obtain ⟨hframes, hoffset⟩ := hstall rfl
    have hrest : batch.unsentFrames = l.batch.frames.drop (got.length / wireFrameSize) := by
      rw [FrameBatch.unsentFrames, FrameBatch.unsentFrameIndex, hframes, hoffset]
    rw [heq] at hempty ⊢
    rw [hrest] at hrescue ⊢
    refine ⟨⟨got, ?_, hgot, rfl, ?_, hempty⟩, hattempt.aligned_abort h0 hsrc htcp⟩
    · rw [← haccepted]
      exact TcpClient.accepted_close_if _ tcp
    · rw [hrescue, List.length_drop]
      rfl

/-! ## Connections that are gone -/

section Lost

variable {opens : Prop} {older : List (List UInt8)} {s : List UInt8} {b batch : FrameBatch} {tcp tcp' : TcpClient}

theorem Reaches.lost (h : Reaches opens tcp older s) : tcp.lost <+: older := by
  rcases h with ⟨_, rfl⟩ | ⟨_, _, rfl⟩
  · exact List.prefix_rfl
  · exact List.prefix_append _ _

theorem Attempted.lost {ok : Bool} (h : Attempted opens b tcp ok batch tcp') : tcp.lost <+: tcp'.lost := by
  have hlast : ∀ {older : List (List UInt8)} {x : List UInt8}, tcp'.streams = older ++ [x] → older <+: tcp'.lost := by
    intro older x hx
    cases hs : tcp'.stream with
    | none =>
      rw [← TcpClient.streams_of_down (by simp [TcpClient.connected, hs]), hx]
      exact List.prefix_append _ _
    | some y =>
      rw [TcpClient.streams_of_open hs] at hx
      rw [(List.append_inj' hx rfl).1]
  cases h with
  | down hdown hstreams =>
    rw [← TcpClient.streams_of_down hdown, hstreams]
    exact List.prefix_append _ _
  | drained older s hreach _ hstreams => exact hreach.lost.trans (hlast hstreams)
  | stalled older s got hreach _ _ hstreams => exact hreach.lost.trans (hlast hstreams)

/-- Whatever the transport, a flush adds nothing to a connection that is gone. -/
theorem lost_flushBatch (transport : Transport) (op : Endpoint) (nodeId : UInt16) {l : Link} (hb : l.batch.Wf)
    (hne : l.batch.frames ≠ []) : l.tcp.lost <+: (l.flushBatch transport op nodeId).2.tcp.lost := by
  have hunsent := hb.unsent hne
  cases transport with
  | udp =>
    obtain ⟨udp, h⟩ := flushUdpDirect_spec op l.monotonicNs.2
    simp only [flushBatch, h]
    exact List.prefix_rfl
  | mesh =>
    obtain ⟨router, udp, clock, h⟩ := flushUdpMesh_spec nodeId (l := l.monotonicNs.2) hunsent
    simp only [flushBatch, h]
    exact List.prefix_rfl
  | tcp =>
    obtain ⟨batch, tcp, gate, clock, ns, h, hattempt⟩ := flushBatch_tcp op nodeId hunsent
    rw [h]
    exact hattempt.lost
  | auto =>
    rcases flushBatch_auto_cases op nodeId hunsent with
      ⟨_, _, _, _, _, hattempt, h⟩ | ⟨_, _, _, _, _, _, _, _, hattempt, h, _⟩
    · rw [h]
      exact hattempt.lost
    · rw [h]
      show _ <+: TcpClient.lost (if _ then _ else _)
      split
      · exact hattempt.lost.trans (List.prefix_append _ _)
      · exact hattempt.lost

end Lost

end Link

/-! ## The runs -/

namespace Edge

open Link (HandsOver)

variable {cfg : Config} {e : Edge}

/-- What holds at the head of the loop in transport `auto`. -/
structure OnePath (e : Edge) : Prop where
  sound : e.Sound
  offset : e.link.batch.sendOffset = 0
  waiting : ∀ f ∈ e.link.batch.frames, f ∈ e.pushed
  aligned : e.link.tcp.Aligned e.pushed
  flushes : ∀ call ∈ e.flushes, HandsOver call.1 call.2

theorem OnePath.poll (h : e.OnePath) (cfg : Config) (t : Tick) : (e.poll cfg t).OnePath where
  sound := h.sound.poll cfg t
  offset := h.offset
  waiting := h.waiting
  aligned := h.aligned
  flushes := h.flushes

theorem OnePath.flush (h : e.OnePath) (hauto : cfg.transport = .auto) (hne : e.link.batch.frames ≠ []) :
    (e.flush cfg).2.OnePath := by
  have htcp : cfg.transport ≠ .tcp := by rw [hauto]; nofun
  have hempty := Link.flushBatch_cleared cfg.transport cfg.op cfg.nodeId h.sound.batch hne (Or.inr htcp)
  have hsound := h.sound.flush cfg hne
  obtain ⟨hhands, haligned⟩ :=
    Link.handsOver_flushBatch cfg.op cfg.nodeId h.sound.batch h.offset hne h.waiting h.aligned
  rw [← hauto] at hhands haligned
  refine ⟨hsound, hsound.batch.offset_of_empty hempty, ?_, haligned, ?_⟩
  · intro f hf
    rw [show (e.flush cfg).2.link.batch.frames = [] from hempty] at hf
    cases hf
  · intro call hcall
    rcases List.mem_append.mp hcall with hcall | hcall
    · exact h.flushes call hcall
    · rw [List.mem_singleton.mp hcall]
      exact hhands

theorem OnePath.push (h : e.OnePath) (cfg : Config) (sensor : UInt8) (raw : Int32)
    (hroom : e.link.batch.count < e.link.batch.capacity) : (e.push cfg sensor raw).2.OnePath := by
  have hsound := h.sound.push cfg sensor raw
  have hwaiting := waiting_push cfg sensor raw hroom h.waiting
  rw [push_of_room cfg sensor raw hroom] at hsound hwaiting ⊢
  exact ⟨hsound, h.offset, hwaiting, h.aligned.mono fun f hf => List.mem_append_left _ hf, h.flushes⟩

theorem OnePath.step (h : e.OnePath) (hauto : cfg.transport = .auto) (t : Tick) : (e.step cfg t).OnePath :=
  step_inv (fun _ h => h.sound.batch) (fun h => h.poll cfg t) (fun _ h hne _ => h.flush hauto hne)
    (fun _ sensor raw h hroom => h.push cfg sensor raw hroom)
    (fun _ _ _ _ _ _ _ h => ⟨⟨h.sound.batch, h.sound.router⟩, h.offset, h.waiting, h.aligned, h.flushes⟩) h

theorem onePath_start (cfg : Config) (connects : List Bool) (sends : List SendOutcome) (outcomes : List Bool)
    (clock : Nat → UInt64) : (start cfg connects sends outcomes clock).OnePath := by
  have hsound := sound_start cfg connects sends outcomes clock
  obtain ⟨tcp, gate, clock', heq, hnil⟩ := start_spec cfg connects sends outcomes clock
  rw [heq] at hsound ⊢
  refine ⟨hsound, rfl, nofun, ⟨?_, ?_⟩, nofun⟩
  · intro s hs
    rw [hnil s (List.mem_append_right _ (Option.mem_toList.mpr hs))]
    exact Blocks.whole_nil _
  · intro s hs
    rw [hnil s (List.mem_append_left _ hs)]
    exact (Blocks.whole_nil _).framed

/-- What a connection that is gone has accepted stays as it is. -/
theorem lost_run (cfg : Config) (hsound : e.Sound) (ticks : List Tick) :
    e.link.tcp.lost <+: (Runs.run (step cfg) e ticks).link.tcp.lost := by
  have hstep : ∀ (e' : Edge) (t : Tick), (e'.Sound ∧ e.link.tcp.lost <+: e'.link.tcp.lost) →
      (e'.step cfg t).Sound ∧ e.link.tcp.lost <+: (e'.step cfg t).link.tcp.lost := by
    intro e' t
    refine step_inv (P := fun e' => e'.Sound ∧ e.link.tcp.lost <+: e'.link.tcp.lost) (fun _ h => h.1.batch)
      (fun h => ⟨h.1.poll cfg t, h.2⟩) (fun e₁ h hne _ => ?_) (fun e₁ sensor raw h hroom => ?_)
      (fun _ _ _ _ _ _ _ h => ⟨⟨h.1.batch, h.1.router⟩, h.2⟩)
    · exact ⟨h.1.flush cfg hne, h.2.trans (Link.lost_flushBatch _ _ _ h.1.batch hne)⟩
    · refine ⟨h.1.push cfg sensor raw, ?_⟩
      rw [push_of_room cfg sensor raw hroom]
      exact h.2
  exact (Runs.run_inv hstep ticks e ⟨hsound, List.prefix_rfl⟩).2

/-- **Failover hands every frame to exactly one path and never splices the TCP framing.** In every run with transport
`auto`: each flush takes `got` from the front of the batch over TCP, and forwards through the mesh exactly the frames
that are not whole in `got`; every connection carries whole frames and at most one piece of a frame, its last bytes;
and a connection that carries a piece stays as it is for ever. -/
theorem failover_exact (cfg : Config) (hauto : cfg.transport = .auto) (connects : List Bool) (sends : List SendOutcome)
    (outcomes : List Bool) (clock : Nat → UInt64) (ticks more : List Tick) :
    let e := Runs.run (step cfg) (start cfg connects sends outcomes clock) ticks
    (∀ before after, (before, after) ∈ e.flushes → ∃ got,
      after.tcp.accepted = before.tcp.accepted ++ got ∧ got <+: frameBytes before.batch.frames ∧
      let k := got.length / wireFrameSize
      after.forwards = before.forwards ++ (before.batch.frames.drop k).map WireFrame.bytes ∧
      after.stats.meshRescueFrames = before.stats.meshRescueFrames + UInt64.ofNat (before.batch.frames.length - k) ∧
      after.batch.frames = []) ∧
    (∀ s ∈ e.link.tcp.streams, Framed WireFrame.bytes e.pushed s) ∧
    ∀ (i : Nat) (s : List UInt8), e.link.tcp.streams[i]? = some s → (∀ frames, s ≠ frameBytes frames) →
      (Runs.run (step cfg) e more).link.tcp.streams[i]? = some s := by
  intro e
  have hpath : e.OnePath :=
    Runs.run_inv (fun _ t h => h.step hauto t) ticks _ (onePath_start cfg connects sends outcomes clock)
  refine ⟨fun before after hcall => hpath.flushes _ hcall, hpath.aligned.streams, ?_⟩
  intro i s hi hpiece
  -- a connection that carries a piece is not the open one
  have hlost : e.link.tcp.lost[i]? = some s := by
    rw [TcpClient.streams, List.getElem?_append] at hi
    split at hi
    · exact hi
    · obtain ⟨frames, heq, _⟩ := hpath.aligned.stream s (Option.mem_toList.mp (List.mem_of_getElem? hi))
      exact absurd heq (hpiece frames)
  obtain ⟨rest, hrest⟩ := lost_run cfg hpath.sound more
  have hlt := (List.getElem?_eq_some_iff.mp hlost).1
  rw [TcpClient.streams, ← hrest, List.append_assoc, List.getElem?_append_left hlt]
  exact hlost

/-- Two frames, of which TCP takes 30 bytes: the second one is forwarded. -/
theorem failover_exact_short_write :
    let e := Runs.run (step (.small .auto 2)) (start (.small .auto 2) [true] [.accepted 30] [true] fun _ => 0)
      [{ raw := some 5 }, { raw := some 6 }]
    (∀ before after, (before, after) ∈ e.flushes → ∃ got,
      after.forwards = before.forwards ++ (before.batch.frames.drop (got.length / 24)).map WireFrame.bytes ∧
        after.tcp.accepted = before.tcp.accepted ++ got) ∧
    e.flushes.length = 1 ∧ e.link.tcp.lost.map List.length = [30] ∧ e.link.forwards.length = 1 := by
  intro e
  refine ⟨?_, by decide, by decide, by decide⟩
  intro before after hcall
  obtain ⟨got, haccepted, _, hforwards, _⟩ := (failover_exact (.small .auto 2) rfl [true] [.accepted 30] [true]
    (fun _ => 0) [{ raw := some 5 }, { raw := some 6 }] []).1 before after hcall
  exact ⟨got, hforwards, haccepted⟩

end Edge

end ZcMesh.Core
