import Mathlib.Data.UInt
import ZcMesh.Edge.Main

/-!
# The counters of the edge

* `HandedOver credited accepted sent`: each credited frame has 24 accepted bytes, or a successful datagram, of its own.
* Without TCP on its own, a flush always empties the batch; at the head of the loop the cursor is at the start and the
  batch is below its target, so the drain path is never taken (`Swept`).
* Over TCP a flush that fails keeps the batch, and the bytes accepted so far are those of the credited frames and those
  in front of the cursor (`Retained`).
* Either way every sample is dropped, credited, failed or in the batch: `accounts_run`.
-/

namespace ZcMesh.Core

/-! ## What it means to have handed over a frame -/

/-- The credited frames were handed over: each one took 24 accepted bytes, or a datagram whose `send_to` returned
`true`, that no other one took. Further bytes and datagrams may have gone out. -/
inductive HandedOver : List WireFrame → List UInt8 → List Datagram → Prop
  | start : HandedOver [] [] []
  | tcp {credited accepted sent} (h : HandedOver credited accepted sent) (frame : WireFrame) :
      HandedOver (credited ++ [frame]) (accepted ++ frame.bytes) sent
  | udp {credited accepted sent} (h : HandedOver credited accepted sent) (frame : WireFrame) (ep : Endpoint) :
      HandedOver (credited ++ [frame]) accepted (sent ++ [⟨ep, frame.bytes, true⟩])
  | moreBytes {credited accepted sent} (h : HandedOver credited accepted sent) (more : List UInt8) :
      HandedOver credited (accepted ++ more) sent
  | moreDatagrams {credited accepted sent} (h : HandedOver credited accepted sent) (more : List Datagram) :
      HandedOver credited accepted (sent ++ more)

theorem HandedOver.overTcp {credited : List WireFrame} {accepted : List UInt8} {sent : List Datagram}
    (h : HandedOver credited accepted sent) (frames : List WireFrame) :
    HandedOver (credited ++ frames) (accepted ++ frameBytes frames) sent := by
  induction frames generalizing credited accepted with
  | nil => simpa using h
  | cons frame frames ih => simpa [frameBytes] using ih (h.tcp frame)

/-! ## One flush -/

namespace Link

section CountSent

variable {σ : Type} {send : WireFrame → σ → Bool × σ}

/-- The rule for `countSent`: `P` says that the credited frames were handed over, and a frame that goes out can be
credited too. -/
theorem countSent_rule {P : List WireFrame → σ → Prop}
    (hsend : ∀ credited frame s, P credited s → P credited (send frame s).2 ∧
      ((send frame s).1 = true → P (credited ++ [frame]) (send frame s).2))
    (frames : List WireFrame) (credited : List WireFrame) (s : σ) (h : P credited s) :
    P credited (countSent send frames s).2 ∧ (countSent send frames s).1 ≤ frames.length ∧
      ((countSent send frames s).1 = frames.length → P (credited ++ frames) (countSent send frames s).2) := by
  induction frames generalizing credited s with
  | nil => exact ⟨h, Nat.le_refl _, fun _ => by rwa [List.append_nil]⟩
  | cons frame frames ih =>
    obtain ⟨hkeep, hok⟩ := hsend credited frame s h
    obtain ⟨hrest, hle, _⟩ := ih credited _ hkeep
    simp only [countSent, List.length_cons]
    cases hsent : (send frame s).1 with
    | false =>
      simp only [Bool.false_eq_true, if_false]
      exact ⟨hrest, by omega, fun hall => by omega⟩
    | true =>
      obtain ⟨_, _, hall⟩ := ih (credited ++ [frame]) _ (hok hsent)
      refine ⟨hrest, by simpa using hle, ?_⟩
      intro heq
      have := hall (by simpa using heq)
      rwa [List.append_assoc] at this

end CountSent

section Flush

variable {credited : List WireFrame} {accepted : List UInt8}

theorem handed_sendFrames (ep : Endpoint) (frames : List WireFrame) {udp : UdpSocket}
    (h : HandedOver credited accepted udp.sent) :
    HandedOver credited accepted (sendFrames ep frames udp).2.sent ∧
      ((sendFrames ep frames udp).1 = frames.length →
        HandedOver (credited ++ frames) accepted (sendFrames ep frames udp).2.sent) := by
  have hsend : ∀ credited frame (udp : UdpSocket), HandedOver credited accepted udp.sent →
      HandedOver credited accepted (udp.sendTo ep frame.bytes).2.sent ∧
        ((udp.sendTo ep frame.bytes).1 = true →
          HandedOver (credited ++ [frame]) accepted (udp.sendTo ep frame.bytes).2.sent) := by
    intro credited frame udp h
    rw [UdpSocket.sent_sendTo]
    exact ⟨h.moreDatagrams _, fun hok => by rw [hok]; exact h.udp frame ep⟩
  obtain ⟨hkeep, _, hall⟩ := countSent_rule hsend frames credited udp h
  exact ⟨hkeep, hall⟩

theorem handed_forwardFrames (nodeId : UInt16) (now : UInt64) (frames : List WireFrame) {l : Link} (hr : l.router.Wf)
    (h : HandedOver credited accepted l.udp.sent) :
    HandedOver credited accepted (forwardFrames nodeId now frames l).2.udp.sent ∧
      ((forwardFrames nodeId now frames l).1 = frames.length →
        HandedOver (credited ++ frames) accepted (forwardFrames nodeId now frames l).2.udp.sent) := by
  have hsend : ∀ credited frame (l : Link), HandedOver credited accepted l.udp.sent ∧ l.router.Wf →
      (HandedOver credited accepted (l.forward nodeId now frame).2.udp.sent ∧
        (l.forward nodeId now frame).2.router.Wf) ∧
      ((l.forward nodeId now frame).1 = true →
        HandedOver (credited ++ [frame]) accepted (l.forward nodeId now frame).2.udp.sent ∧
          (l.forward nodeId now frame).2.router.Wf) := by
    intro credited frame l ⟨h, hr⟩
    have hr' : (l.forward nodeId now frame).2.router.Wf := hr.forwardUdp l.udp nodeId frame.bytes now
    obtain ⟨more, hsent, hlast⟩ := MeshRouter.sent_forwardUdp hr l.udp nodeId frame.bytes now
    rw [show (l.forward nodeId now frame).2.udp.sent = l.udp.sent ++ more from hsent]
    refine ⟨⟨h.moreDatagrams more, hr'⟩, fun hok => ⟨?_, hr'⟩⟩
    obtain ⟨front, ep, rfl⟩ := hlast hok
    rw [← List.append_assoc]
    exact (h.moreDatagrams front).udp frame ep
  obtain ⟨⟨hkeep, _⟩, _, hall⟩ := countSent_rule hsend frames credited l ⟨h, hr⟩
  exact ⟨hkeep, fun hcount => (hall hcount).1⟩

theorem handed_flushUdpMesh (nodeId : UInt16) {l : Link} (hr : l.router.Wf)
    (hb : l.batch.sendOffset < l.batch.bytes.length) (h : HandedOver credited accepted l.udp.sent) :
    HandedOver credited accepted (l.flushUdpMesh nodeId).2.udp.sent ∧
      ((l.flushUdpMesh nodeId).1 = true →
        HandedOver (credited ++ l.batch.unsentFrames) accepted (l.flushUdpMesh nodeId).2.udp.sent) := by
  obtain ⟨hkeep, hall⟩ := handed_forwardFrames nodeId (l.clock 0) l.batch.discardFullySent.unsentFrames
    (l := l.monotonicNs.2) hr h
  refine ⟨hkeep, ?_⟩
  intro hok
  rw [← FrameBatch.unsentFrames_discard hb]
  apply hall
  rw [← FrameBatch.unsentCount_eq]
  exact beq_iff_eq.mp hok

theorem handed_failover (nodeId : UInt16) {l : Link} (hr : l.router.Wf)
    (hb : l.batch.sendOffset < l.batch.bytes.length) (h : HandedOver credited l.tcp.accepted l.udp.sent) :
    HandedOver credited (l.failover nodeId).2.tcp.accepted (l.failover nodeId).2.udp.sent ∧
      ((l.failover nodeId).1 = true →
        HandedOver (credited ++ l.batch.unsentFrames) (l.failover nodeId).2.tcp.accepted
          (l.failover nodeId).2.udp.sent) := by
  have hudp : (l.failover nodeId).2.udp =
      ({ l with stats := l.stats.failover l.batch.unsentCount }.flushUdpMesh nodeId).2.udp := by
    simp only [failover]
    split <;> rfl
  have haccepted : (l.failover nodeId).2.tcp.accepted = l.tcp.accepted := by
    obtain ⟨_, _, _, _, heq, _⟩ := failover_spec nodeId hb
    rw [heq]
    exact TcpClient.accepted_close_if _ l.tcp
  rw [hudp, haccepted]
  exact handed_flushUdpMesh nodeId (l := { l with stats := l.stats.failover l.batch.unsentCount }) hr hb h

/-- Transport `auto`: TCP takes the whole batch, or the mesh gets the frames behind those that TCP has taken. -/
theorem handed_flushBatch_auto (op : Endpoint) (nodeId : UInt16) {l : Link}
    (hunsent : l.batch.sendOffset < l.batch.bytes.length) (h0 : l.batch.sendOffset = 0) (hr : l.router.Wf)
    (h : HandedOver credited l.tcp.accepted l.udp.sent) :
    HandedOver credited (l.flushBatch .auto op nodeId).2.tcp.accepted (l.flushBatch .auto op nodeId).2.udp.sent ∧
      ((l.flushBatch .auto op nodeId).1 = true →
        HandedOver (credited ++ l.batch.frames) (l.flushBatch .auto op nodeId).2.tcp.accepted
          (l.flushBatch .auto op nodeId).2.udp.sent) := by
  obtain ⟨ok, batch, tcp, gate, clock, ns, hattempt, heq⟩ := flushBatch_auto op nodeId hunsent
  obtain ⟨got, haccepted, hgot, htaken, hstall⟩ := hattempt.taken h0
  rw [heq]
  cases ok with
  | true =>
    have hbytes : tcp.accepted = l.tcp.accepted ++ frameBytes l.batch.frames := by rw [haccepted, htaken rfl]; rfl
    simp only [if_true, hbytes]
    exact ⟨h.moreBytes _, fun _ => h.overTcp _⟩
  | false =>
    obtain ⟨hframes, hoffset⟩ := hstall rfl
    have hbatch := hattempt.unsent hunsent
    have hrest : batch.unsentFrames = l.batch.frames.drop (got.length / wireFrameSize) := by
      rw [FrameBatch.unsentFrames, FrameBatch.unsentFrameIndex, hframes, hoffset]
    -- TCP took whole frames and a piece, and the mesh gets the other frames
    have hcut : got = frameBytes (l.batch.frames.take (got.length / wireFrameSize)) ++
        Blocks.piece WireFrame.bytes wireFrameSize l.batch.frames got.length :=
      (List.prefix_iff_eq_take.mp hgot).trans (Blocks.take_eq_piece WireFrame.length_bytes _ _)
    have htcp : HandedOver credited tcp.accepted l.udp.sent := by
      rw [haccepted]
      exact h.moreBytes got
    have htcp' :
        HandedOver (credited ++ l.batch.frames.take (got.length / wireFrameSize)) tcp.accepted l.udp.sent := by
      have := (h.overTcp (l.batch.frames.take (got.length / wireFrameSize))).moreBytes
        (Blocks.piece WireFrame.bytes wireFrameSize l.batch.frames got.length)
      rwa [List.append_assoc, ← hcut, ← haccepted] at this
    have hfail {credited : List WireFrame} (h : HandedOver credited tcp.accepted l.udp.sent) := handed_failover nodeId
      (l := { l with tcp, gate, clock, batch := batch.adapt false ns }) hr (by simpa using hbatch) h
    simp only [Bool.false_eq_true, if_false]
    refine ⟨(hfail htcp).1, ?_⟩
    intro hok
    have := (hfail htcp').2 hok
    rwa [FrameBatch.unsentFrames_adapt, hrest, List.append_assoc, List.take_append_drop] at this

/-- A flush that is not over TCP alone: what was handed over stays so, and when it succeeds so is the batch. -/
theorem handed_flushBatch {transport : Transport} (op : Endpoint) (nodeId : UInt16) {l : Link}
    (htransport : transport ≠ .tcp) (hb : l.batch.Wf) (h0 : l.batch.sendOffset = 0) (hne : l.batch.frames ≠ [])
    (hr : l.router.Wf) (h : HandedOver credited l.tcp.accepted l.udp.sent) :
    HandedOver credited (l.flushBatch transport op nodeId).2.tcp.accepted
        (l.flushBatch transport op nodeId).2.udp.sent ∧
      ((l.flushBatch transport op nodeId).1 = true →
        HandedOver (credited ++ l.batch.frames) (l.flushBatch transport op nodeId).2.tcp.accepted
          (l.flushBatch transport op nodeId).2.udp.sent) := by
  have hunsent := hb.unsent hne
  have hwhole : l.batch.unsentFrames = l.batch.frames := by
    rw [FrameBatch.unsentFrames, FrameBatch.unsentFrameIndex, h0]
    rfl
  cases transport with
  | tcp => exact absurd rfl htransport
  | udp =>
    obtain ⟨hkeep, hall⟩ := handed_sendFrames op l.batch.discardFullySent.unsentFrames h
    refine ⟨hkeep, ?_⟩
    intro hok
    rw [← hwhole, ← FrameBatch.unsentFrames_discard hunsent]
    apply hall
    rw [← FrameBatch.unsentCount_eq]
    exact beq_iff_eq.mp hok
  | mesh =>
    obtain ⟨hkeep, hall⟩ := handed_flushUdpMesh nodeId (l := l.monotonicNs.2) hr hunsent h
    obtain ⟨_, _, _, heq⟩ := flushUdpMesh_spec nodeId (l := l.monotonicNs.2) hunsent
    have htcp : (l.flushBatch .mesh op nodeId).2.tcp = l.tcp := by
      simp only [flushBatch, heq]
      rfl
    rw [htcp, ← hwhole]
    exact ⟨hkeep, hall⟩
  | auto => exact handed_flushBatch_auto op nodeId hunsent h0 hr h

end Flush

/-- A flush over TCP: everything behind the cursor is accepted, or the batch stays, with the cursor behind what was
accepted. -/
theorem accepted_flushBatch (op : Endpoint) (nodeId : UInt16) {l : Link} (hb : l.batch.Wf)
    (hne : l.batch.frames ≠ []) :
    ((l.flushBatch .tcp op nodeId).1 = true ∧ (l.flushBatch .tcp op nodeId).2.batch.frames = [] ∧
      (l.flushBatch .tcp op nodeId).2.tcp.accepted = l.tcp.accepted ++ l.batch.bytes.drop l.batch.sendOffset) ∨
    ((l.flushBatch .tcp op nodeId).1 = false ∧ (l.flushBatch .tcp op nodeId).2.batch.frames = l.batch.frames ∧
      ∃ got, got <+: l.batch.bytes.drop l.batch.sendOffset ∧
        (l.flushBatch .tcp op nodeId).2.batch.sendOffset = l.batch.sendOffset + got.length ∧
        (l.flushBatch .tcp op nodeId).2.tcp.accepted = l.tcp.accepted ++ got) := by
  obtain ⟨batch, tcp, gate, clock, ns, heq, hattempt⟩ := flushBatch_tcp op nodeId (hb.unsent hne)
  rw [heq]
  simp only [FrameBatch.frames_adapt, FrameBatch.sendOffset_adapt]
  generalize (l.flushBatch .tcp op nodeId).1 = ok at hattempt
  cases hattempt with
  | down _ hstreams =>
    refine Or.inr ⟨rfl, rfl, [], List.nil_prefix, rfl, ?_⟩
    rw [TcpClient.accepted, hstreams, List.append_nil]
    rfl
  | drained older s hreach _ hstreams => exact Or.inl ⟨rfl, rfl, hreach.accepted hstreams⟩
  | stalled older s got hreach hgot _ hstreams =>
    exact Or.inr ⟨rfl, rfl, got, hgot, rfl, hreach.accepted hstreams⟩

end Link

/-! ## The counters -/

namespace Edge

variable {cfg : Config} {e : Edge}

/-- `sent_fail` counts samples, unless a failed flush keeps them. -/
def failed (cfg : Config) (e : Edge) : UInt64 := if cfg.transport = .tcp then 0 else e.sentFail

/-- Every sample is accounted for, modulo 2^32, and `sent_ok` counts the credited frames. -/
structure Balanced (cfg : Config) (e : Edge) : Prop where
  seq : e.seq = (e.sentOk + e.failed cfg + e.dropped).toUInt32 + UInt32.ofNat e.link.batch.count
  sentOk : e.sentOk = UInt64.ofNat e.credited.length

/-- `sent_ok` counts frames that were handed over. -/
structure Credited (e : Edge) : Prop where
  sentOk : e.sentOk = UInt64.ofNat e.credited.length
  handed : HandedOver e.credited e.link.tcp.accepted e.link.udp.sent

/-- The head of the loop, when a flush always empties the batch. -/
structure Swept (cfg : Config) (e : Edge) : Prop where
  sound : e.Sound
  balanced : e.Balanced cfg
  offset : e.link.batch.sendOffset = 0
  below : e.link.batch.count < e.link.batch.flushAt
  room : e.link.batch.count < e.link.batch.capacity
  handed : HandedOver e.credited e.link.tcp.accepted e.link.udp.sent

/-- The head of the loop over TCP. -/
structure Retained (cfg : Config) (e : Edge) : Prop where
  sound : e.Sound
  balanced : e.Balanced cfg
  accepted : e.link.tcp.accepted = frameBytes e.credited ++ e.link.batch.bytes.take e.link.batch.sendOffset

/-! ### What keeps the balance -/

theorem Balanced.poll (h : e.Balanced cfg) (t : Tick) : (e.poll cfg t).Balanced cfg := ⟨h.seq, h.sentOk⟩

theorem Balanced.drop (h : e.Balanced cfg) : e.drop.Balanced cfg where
  seq := by
    show e.seq + 1 = (e.sentOk + e.failed cfg + (e.dropped + 1)).toUInt32 + UInt32.ofNat e.link.batch.count
    have hone : (1 : UInt64).toUInt32 = 1 := rfl
    simp only [h.seq, UInt64.toUInt32_add, hone]
    ac_rfl
  sentOk := h.sentOk

theorem Balanced.push (h : e.Balanced cfg) (sensor : UInt8) (raw : Int32)
    (hroom : e.link.batch.count < e.link.batch.capacity) : (e.push cfg sensor raw).2.Balanced cfg := by
  rw [push_of_room cfg sensor raw hroom]
  refine ⟨?_, h.sentOk⟩
  show e.seq + 1 = (e.sentOk + e.failed cfg + e.dropped).toUInt32 + UInt32.ofNat (e.link.batch.frames ++ [_]).length
  rw [h.seq, List.length_append, UInt32.ofNat_add, UInt32.add_assoc]
  rfl

/-- The batch is gone, and counts as sent. -/
theorem Balanced.credit (h : e.Balanced cfg) (hempty : (e.flush cfg).2.link.batch.frames = []) :
    ((e.flush cfg).2.credit e.link.batch.frames).Balanced cfg where
  seq := by
    show e.seq = (e.sentOk + UInt64.ofNat e.link.batch.count + e.failed cfg + e.dropped).toUInt32 +
      UInt32.ofNat (e.flush cfg).2.link.batch.frames.length
    have hzero : UInt32.ofNat ([] : List WireFrame).length = 0 := rfl
    simp only [hempty, hzero, h.seq, UInt64.toUInt32_add, UInt64.toUInt32_ofNat', UInt32.add_zero]
    ac_rfl
  sentOk := by
    show e.sentOk + UInt64.ofNat e.link.batch.frames.length = UInt64.ofNat (e.credited ++ e.link.batch.frames).length
    rw [h.sentOk, List.length_append, UInt64.ofNat_add]

/-- The batch is gone, and counts as failed. -/
theorem Balanced.fail (h : e.Balanced cfg) (htransport : cfg.transport ≠ .tcp)
    (hempty : (e.flush cfg).2.link.batch.frames = []) :
    ((e.flush cfg).2.fail e.link.batch.frames.length).Balanced cfg where
  seq := by
    have hseq := h.seq
    simp only [failed, htransport, if_false] at hseq ⊢
    show e.seq = (e.sentOk + (e.sentFail + UInt64.ofNat e.link.batch.count) + e.dropped).toUInt32 +
      UInt32.ofNat (e.flush cfg).2.link.batch.frames.length
    have hzero : UInt32.ofNat ([] : List WireFrame).length = 0 := rfl
    simp only [hempty, hzero, hseq, UInt64.toUInt32_add, UInt64.toUInt32_ofNat', UInt32.add_zero]
    ac_rfl
  sentOk := h.sentOk

/-- The batch stays. -/
theorem Balanced.keep (h : e.Balanced cfg) (hsame : (e.flush cfg).2.link.batch.frames = e.link.batch.frames) :
    (e.flush cfg).2.Balanced cfg where
  seq := by
    show e.seq = (e.sentOk + e.failed cfg + e.dropped).toUInt32 +
      UInt32.ofNat (e.flush cfg).2.link.batch.frames.length
    rw [hsame]
    exact h.seq
  sentOk := h.sentOk

/-! ### One iteration, when a flush empties the batch -/

/-- Behind a flush that empties the batch, it is below its target again. -/
theorem Sound.below (h : e.Sound) (hempty : e.link.batch.frames = []) :
    e.link.batch.sendOffset = 0 ∧ e.link.batch.count < e.link.batch.flushAt ∧
      e.link.batch.count < e.link.batch.capacity := by
  refine ⟨h.batch.offset_of_empty hempty, ?_, h.batch.room_of_empty hempty⟩
  rw [FrameBatch.count, hempty]
  exact h.batch.target_pos

theorem Swept.push (h : e.Swept cfg) (htransport : cfg.transport ≠ .tcp) (sensor : UInt8) (raw : Int32) :
    ((e.push cfg sensor raw).2.flushFull cfg).Swept cfg := by
  have hsound := h.sound.push cfg sensor raw
  have hbal := h.balanced.push sensor raw h.room
  have hpush := push_of_room cfg sensor raw h.room
  generalize hp : (e.push cfg sensor raw).2 = p at hsound hbal
  have h0 : p.link.batch.sendOffset = 0 := by rw [← hp, hpush]; exact h.offset
  have hhanded : HandedOver p.credited p.link.tcp.accepted p.link.udp.sent := by rw [← hp, hpush]; exact h.handed
  rcases flushFull_cases cfg hsound.batch with ⟨hbelow, hroom, heq⟩ | ⟨hne, hok, heq⟩ | ⟨hne, _, hkeep, _⟩ |
    ⟨hne, _, hempty, heq⟩
  · rw [heq]
    exact ⟨hsound, hbal, h0, hbelow, hroom, hhanded⟩
  · have hempty := Link.flushBatch_cleared cfg.transport cfg.op cfg.nodeId hsound.batch hne (Or.inl hok)
    have hsound' := hsound.flush cfg hne
    obtain ⟨h0', hbelow, hroom⟩ := hsound'.below hempty
    rw [heq]
    exact ⟨⟨hsound'.batch, hsound'.router⟩, hbal.credit hempty, h0', hbelow, hroom,
      (Link.handed_flushBatch cfg.op cfg.nodeId htransport hsound.batch h0 hne hsound.router hhanded).2 hok⟩
  · exact absurd (Link.flushBatch_cleared cfg.transport cfg.op cfg.nodeId hsound.batch hne (Or.inr htransport)) hkeep
  · have hsound' := hsound.flush cfg hne
    obtain ⟨h0', hbelow, hroom⟩ := hsound'.below hempty
    rw [heq]
    exact ⟨⟨hsound'.batch, hsound'.router⟩, hbal.fail htransport hempty, h0', hbelow, hroom,
      (Link.handed_flushBatch cfg.op cfg.nodeId htransport hsound.batch h0 hne hsound.router hhanded).1⟩

theorem Swept.finish (h : e.Swept cfg) (htransport : cfg.transport ≠ .tcp) : (e.finish cfg).Credited := by
  unfold Edge.finish
  split
  · rename_i hne
    exact ⟨h.balanced.sentOk, (Link.handed_flushBatch cfg.op cfg.nodeId htransport h.sound.batch h.offset
      (FrameBatch.ne_nil_of_not_empty hne) h.sound.router h.handed).1⟩
  · exact ⟨h.balanced.sentOk, h.handed⟩

/-- The drain path is never taken. -/
theorem Swept.step (h : e.Swept cfg) (htransport : cfg.transport ≠ .tcp) (t : Tick) :
    ((e.step cfg t).done = true ∧ (e.step cfg t).Credited) ∨ (e.step cfg t).Swept cfg := by
  have hp : (e.poll cfg t).Swept cfg :=
    ⟨h.sound.poll cfg t, h.balanced.poll t, h.offset, h.below, h.room, h.handed⟩
  have hdrain := drain_idle cfg hp.offset hp.below hp.room
  rcases step_cases cfg e t with ⟨hdone, heq⟩ | heq | ⟨hgo, _⟩ | ⟨_, heq | heq | ⟨sensor, raw, heq⟩⟩
  · rw [heq]
    exact Or.inr h
  · rw [heq]
    exact Or.inl ⟨rfl, hp.finish htransport⟩
  · rw [hdrain] at hgo
    cases hgo
  · rw [heq, hdrain]
    exact Or.inl ⟨rfl, hp.finish htransport⟩
  · rw [heq, hdrain]
    exact Or.inr ⟨⟨hp.sound.batch, hp.sound.router⟩, hp.balanced.drop, hp.offset, hp.below, hp.room, hp.handed⟩
  · have hpush := hp.push htransport sensor raw
    rw [heq, hdrain]
    rw [push_of_room cfg sensor raw hp.room] at hpush ⊢
    exact Or.inr hpush

/-! ### One iteration over TCP -/

/-- A flush that succeeds: the frames of the batch are accepted. -/
theorem Retained.credit (h : e.Retained cfg) (htcp : cfg.transport = .tcp) (hne : e.link.batch.frames ≠ [])
    (hempty : (e.flush cfg).2.link.batch.frames = []) : ((e.flush cfg).2.credit e.link.batch.frames).Retained cfg := by
  have hsound := h.sound.flush cfg hne
  have hflush := Link.accepted_flushBatch cfg.op cfg.nodeId h.sound.batch hne
  rw [← htcp] at hflush
  rcases hflush with ⟨_, _, haccepted⟩ | ⟨_, hsame, _⟩
  · refine ⟨⟨hsound.batch, hsound.router⟩, h.balanced.credit hempty, ?_⟩
    show (e.link.flushBatch cfg.transport cfg.op cfg.nodeId).2.tcp.accepted =
      frameBytes (e.credited ++ e.link.batch.frames) ++ (frameBytes (e.flush cfg).2.link.batch.frames).take _
    rw [haccepted, h.accepted, hempty, List.append_assoc, List.take_append_drop]
    simp [FrameBatch.bytes, frameBytes]
  · exact absurd (hsame.symm.trans hempty) hne

/-- A flush that fails: the batch stays, behind what was accepted. -/
theorem Retained.stall (h : e.Retained cfg) (htcp : cfg.transport = .tcp) (hne : e.link.batch.frames ≠ [])
    (hok : (e.flush cfg).1 = false) : (e.flush cfg).2.link.batch.frames ≠ [] ∧ (e.flush cfg).2.Retained cfg := by
  have hsound := h.sound.flush cfg hne
  have hflush := Link.accepted_flushBatch cfg.op cfg.nodeId h.sound.batch hne
  rw [← htcp] at hflush
  rcases hflush with ⟨hok', _⟩ | ⟨_, hsame, got, hgot, hoffset, haccepted⟩
  · exact absurd (hok.symm.trans hok') Bool.false_ne_true
  · have hframes : (e.flush cfg).2.link.batch.frames = e.link.batch.frames := hsame
    refine ⟨by rw [hframes]; exact hne, hsound, h.balanced.keep hframes, ?_⟩
    show (e.link.flushBatch cfg.transport cfg.op cfg.nodeId).2.tcp.accepted =
      frameBytes e.credited ++ (frameBytes (e.flush cfg).2.link.batch.frames).take
        (e.link.flushBatch cfg.transport cfg.op cfg.nodeId).2.batch.sendOffset
    have hnext := List.prefix_iff_eq_take.mp hgot
    rw [haccepted, h.accepted, hoffset, hframes, List.append_assoc,
      show frameBytes e.link.batch.frames = e.link.batch.bytes from rfl, List.take_add, ← hnext]

theorem Retained.drain (h : e.Retained cfg) (htcp : cfg.transport = .tcp) :
    (e.drain cfg).2.Retained cfg ∧ ((e.drain cfg).1 = true →
      (e.drain cfg).2.link.batch.count < (e.drain cfg).2.link.batch.capacity) := by
  rcases drain_cases cfg h.sound.batch with ⟨_, _, hroom, heq⟩ | ⟨hne, hempty, heq⟩ | ⟨hne, hok, hkeep, heq⟩
  · rw [heq]
    exact ⟨h, fun _ => hroom⟩
  · have h' := h.credit htcp hne hempty
    rw [heq]
    exact ⟨h', fun _ => h'.sound.batch.room_of_empty hempty⟩
  · have h' := (h.stall htcp hne hok).2
    rw [heq]
    refine ⟨⟨⟨h'.sound.batch, h'.sound.router⟩, ⟨?_, h'.balanced.sentOk⟩, h'.accepted⟩, nofun⟩
    have hseq := h'.balanced.seq
    simp only [failed, htcp, if_true] at hseq ⊢
    exact hseq

theorem Retained.push (h : e.Retained cfg) (htcp : cfg.transport = .tcp)
    (hroom : e.link.batch.count < e.link.batch.capacity) (sensor : UInt8) (raw : Int32) :
    ((e.push cfg sensor raw).2.flushFull cfg).Retained cfg := by
  have hp : (e.push cfg sensor raw).2.Retained cfg := by
    refine ⟨h.sound.push cfg sensor raw, h.balanced.push sensor raw hroom, ?_⟩
    have hbytes : frameBytes (e.link.batch.frames ++ [e.nextFrame cfg sensor raw]) =
        e.link.batch.bytes ++ frameBytes [e.nextFrame cfg sensor raw] := Blocks.bytesOf_append _ _
    rw [push_of_room cfg sensor raw hroom]
    show e.link.tcp.accepted = frameBytes e.credited ++
      (frameBytes (e.link.batch.frames ++ [_])).take e.link.batch.sendOffset
    rw [h.accepted, hbytes, List.take_append_of_le_length h.sound.batch.offset_le]
  rcases flushFull_cases cfg hp.sound.batch with ⟨_, _, heq⟩ | ⟨hne, hok, heq⟩ | ⟨hne, hok, _, heq⟩ |
    ⟨hne, hok, hempty, _⟩
  · rw [heq]
    exact hp
  · rw [heq]
    exact hp.credit htcp hne
      (Link.flushBatch_cleared cfg.transport cfg.op cfg.nodeId hp.sound.batch hne (Or.inl hok))
  · rw [heq]
    exact (hp.stall htcp hne hok).2
  · exact absurd hempty (hp.stall htcp hne hok).1

/-- What was accepted beyond the credited frames does no harm. -/
theorem Retained.handed (h : e.Retained cfg) (more : List UInt8) (sent : List Datagram) :
    HandedOver e.credited (e.link.tcp.accepted ++ more) sent := by
  have hall := ((HandedOver.start.overTcp e.credited).moreBytes
    (e.link.batch.bytes.take e.link.batch.sendOffset ++ more)).moreDatagrams sent
  rw [h.accepted, List.append_assoc]
  exact hall

theorem Retained.finish (h : e.Retained cfg) (htcp : cfg.transport = .tcp) : (e.finish cfg).Credited := by
  unfold Edge.finish
  split
  · rename_i hne
    have hflush := Link.accepted_flushBatch cfg.op cfg.nodeId h.sound.batch (FrameBatch.ne_nil_of_not_empty hne)
    rw [← htcp] at hflush
    refine ⟨h.balanced.sentOk, ?_⟩
    show HandedOver e.credited (e.link.flushBatch cfg.transport cfg.op cfg.nodeId).2.tcp.accepted _
    rcases hflush with ⟨_, _, haccepted⟩ | ⟨_, _, got, _, _, haccepted⟩
    · rw [haccepted]
      exact h.handed _ _
    · rw [haccepted]
      exact h.handed _ _
  · refine ⟨h.balanced.sentOk, ?_⟩
    have := h.handed [] e.link.udp.sent
    rwa [List.append_nil] at this

theorem Retained.step (h : e.Retained cfg) (htcp : cfg.transport = .tcp) (t : Tick) :
    ((e.step cfg t).done = true ∧ (e.step cfg t).Credited) ∨ (e.step cfg t).Retained cfg := by
  have hp : (e.poll cfg t).Retained cfg := ⟨h.sound.poll cfg t, h.balanced.poll t, h.accepted⟩
  obtain ⟨hd, hroom⟩ := hp.drain htcp
  rcases step_cases cfg e t with ⟨_, heq⟩ | heq | ⟨_, heq⟩ | ⟨hgo, heq | heq | ⟨sensor, raw, heq⟩⟩
  · rw [heq]
    exact Or.inr h
  · rw [heq]
    exact Or.inl ⟨rfl, hp.finish htcp⟩
  · rw [heq]
    exact Or.inr hd
  · rw [heq]
    exact Or.inl ⟨rfl, hd.finish htcp⟩
  · rw [heq]
    exact Or.inr ⟨⟨hd.sound.batch, hd.sound.router⟩, hd.balanced.drop, hd.accepted⟩
  · have hpush := hd.push htcp (hroom hgo) sensor raw
    rw [heq]
    rw [push_of_room cfg sensor raw (hroom hgo)] at hpush ⊢
    exact Or.inr hpush

/-! ## The runs -/

/-- Once the loop is over nothing changes. -/
theorem step_of_done (cfg : Config) (h : e.done = true) (t : Tick) : e.step cfg t = e := by rw [Edge.step, if_pos h]

/-- What the head of the loop keeps until the loop is over, and then holds for ever. -/
theorem run_or_done {P Q : Edge → Prop}
    (hstep : ∀ e t, P e → ((e.step cfg t).done = true ∧ Q (e.step cfg t)) ∨ P (e.step cfg t)) (ticks : List Tick)
    (h : P e) :
    ((Runs.run (step cfg) e ticks).done = true ∧ Q (Runs.run (step cfg) e ticks)) ∨
      P (Runs.run (step cfg) e ticks) := by
  refine Runs.run_inv (P := fun e => (e.done = true ∧ Q e) ∨ P e) ?_ ticks e (Or.inr h)
  intro e t he
  rcases he with ⟨hdone, hq⟩ | hp
  · rw [step_of_done cfg hdone t]
    exact Or.inl ⟨hdone, hq⟩
  · exact hstep e t hp

/-- No push ever fails. -/
theorem refused_run (cfg : Config) (ticks : List Tick) (hsound : e.Sound) (h : e.refused = 0) :
    (Runs.run (step cfg) e ticks).refused = 0 := by
  have hstep : ∀ (e : Edge) (t : Tick), e.Sound ∧ e.refused = 0 →
      (e.step cfg t).Sound ∧ (e.step cfg t).refused = 0 := by
    intro e t
    refine step_inv (P := fun e => e.Sound ∧ e.refused = 0) (fun _ h => h.1.batch) (fun h => ⟨h.1.poll cfg t, h.2⟩)
      (fun e₁ h hne _ => ⟨h.1.flush cfg hne, h.2⟩) (fun e₁ sensor raw h hroom => ?_)
      (fun _ _ _ _ _ _ _ h => ⟨⟨h.1.batch, h.1.router⟩, h.2⟩)
    refine ⟨h.1.push cfg sensor raw, ?_⟩
    rw [push_of_room cfg sensor raw hroom]
    exact h.2
  exact (Runs.run_inv hstep ticks e ⟨hsound, h⟩).2

theorem swept_start (cfg : Config) (connects : List Bool) (sends : List SendOutcome) (outcomes : List Bool)
    (clock : Nat → UInt64) : (start cfg connects sends outcomes clock).Swept cfg := by
  have hsound := sound_start cfg connects sends outcomes clock
  obtain ⟨tcp, gate, clock', heq, _⟩ := start_spec cfg connects sends outcomes clock
  rw [heq] at hsound ⊢
  obtain ⟨h0, hbelow, hroom⟩ := hsound.below rfl
  refine ⟨hsound, ⟨?_, rfl⟩, h0, hbelow, hroom, HandedOver.start.moreBytes tcp.accepted⟩
  simp only [failed]
  split <;> rfl

theorem retained_start (cfg : Config) (connects : List Bool) (sends : List SendOutcome) (outcomes : List Bool)
    (clock : Nat → UInt64) : (start cfg connects sends outcomes clock).Retained cfg := by
  have hswept := swept_start cfg connects sends outcomes clock
  obtain ⟨tcp, gate, clock', heq, hnil⟩ := start_spec cfg connects sends outcomes clock
  rw [heq] at hswept ⊢
  exact ⟨hswept.sound, hswept.balanced, List.flatten_eq_nil_iff.mpr hnil⟩

/-- **The edge accounts for every sample.** In every run, whatever the options and the outside: at the head of the loop
every sequence number is credited, failed, dropped or waiting in the batch, where `sent_fail` counts under every
transport but `tcp`; no push has failed; and the frames that `sent_ok` counts were handed over. -/
theorem accounts_run (cfg : Config) (connects : List Bool) (sends : List SendOutcome) (outcomes : List Bool)
    (clock : Nat → UInt64) (ticks : List Tick) :
    let e := Runs.run (step cfg) (start cfg connects sends outcomes clock) ticks
    (e.done = false → cfg.transport ≠ .tcp →
      e.seq = (e.sentOk + e.sentFail + e.dropped).toUInt32 + UInt32.ofNat e.link.batch.count) ∧
    (e.done = false → cfg.transport = .tcp →
      e.seq = (e.sentOk + e.dropped).toUInt32 + UInt32.ofNat e.link.batch.count) ∧
    e.refused = 0 ∧ e.sentOk = UInt64.ofNat e.credited.length ∧
    HandedOver e.credited e.link.tcp.accepted e.link.udp.sent := by
  intro e
  have hsound := sound_start cfg connects sends outcomes clock
  have hrefused : e.refused = 0 := by
    refine refused_run cfg ticks hsound ?_
    obtain ⟨_, _, _, heq, _⟩ := start_spec cfg connects sends outcomes clock
    rw [heq]
  by_cases htcp : cfg.transport = .tcp
  · have hrun : (e.done = true ∧ e.Credited) ∨ e.Retained cfg :=
      run_or_done (fun _ t h => h.step htcp t) ticks (retained_start cfg connects sends outcomes clock)
    rcases hrun with ⟨hdone, hcredited⟩ | h
    · refine ⟨fun hhead => ?_, fun hhead => ?_, hrefused, hcredited.sentOk, hcredited.handed⟩
      all_goals
        rw [hdone] at hhead
        cases hhead
    · refine ⟨fun _ hne => absurd htcp hne, ?_, hrefused, h.balanced.sentOk, ?_⟩
      · intro _ _
        have := h.balanced.seq
        rwa [failed, if_pos htcp, UInt64.add_zero] at this
      · have := h.handed [] e.link.udp.sent
        rwa [List.append_nil] at this
  · have hrun : (e.done = true ∧ e.Credited) ∨ e.Swept cfg :=
      run_or_done (fun _ t h => h.step htcp t) ticks (swept_start cfg connects sends outcomes clock)
    rcases hrun with ⟨hdone, hcredited⟩ | h
    · refine ⟨fun hhead => ?_, fun hhead => ?_, hrefused, hcredited.sentOk, hcredited.handed⟩
      all_goals
        rw [hdone] at hhead
        cases hhead
    · refine ⟨?_, fun _ hne => absurd hne htcp, hrefused, h.balanced.sentOk, h.handed⟩
      intro _ _
      have := h.balanced.seq
      rwa [failed, if_neg htcp] at this

/-- Two frames; TCP takes the first one, and the mesh is silent. -/
theorem accounts_run_failed :
    let e := Runs.run (step (.small .auto 2)) (start (.small .auto 2) [true] [.accepted 24] [] fun _ => 0)
      [{ raw := some 5 }, { raw := some 6 }]
    e.seq = (e.sentOk + e.sentFail + e.dropped).toUInt32 + UInt32.ofNat e.link.batch.count ∧ e.sentFail = 2 := by
  intro e
  have h := accounts_run (.small .auto 2) [true] [.accepted 24] [] (fun _ => 0) [{ raw := some 5 }, { raw := some 6 }]
  exact ⟨h.1 (by decide) (by decide), by decide⟩

end Edge

end ZcMesh.Core
