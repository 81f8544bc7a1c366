import ZcMesh.Edge.Deliver
import ZcMesh.Edge.Failover
import ZcMesh.Lib.Merge

/-!
# What the edge puts on its paths

Without TCP on its own, a flush splits the batch: the frames in front went out whole on the connections, the others were
handed to datagrams, of which at most one per frame succeeds (`Carries`), and one does where the router serves the node
and no call fails (`Delivers`). Over a run, what is whole on the connections and the datagrams that succeeded are parts
of one split of the frames pushed (`Carried`): no frame is on two paths, and each path has its frames in order.
-/

namespace ZcMesh.Core

open Blocks (Whole cut)

/-- What the successful datagrams carry. -/
def delivered (ds : List Datagram) : List (List UInt8) := (ds.filter (·.ok)).map (·.data)

@[simp] theorem delivered_append (ds more : List Datagram) :
    delivered (ds ++ more) = delivered ds ++ delivered more := by
  simp [delivered]

/-- The datagrams carry the frames in order, each at most once; given `served`, and if no call failed, all of them. -/
structure Delivers (served : Prop) (ds : List Datagram) (frames : List WireFrame) : Prop where
  part : (delivered ds).Sublist (frames.map WireFrame.bytes)
  all : served → (∀ d ∈ ds, d.ok = true) → delivered ds = frames.map WireFrame.bytes

section Delivers

variable {served : Prop} {ds more : List Datagram} {frames frames' : List WireFrame}

theorem Delivers.nil : Delivers served [] [] := ⟨.slnil, fun _ _ => rfl⟩

theorem Delivers.append (h : Delivers served ds frames) (h' : Delivers served more frames') :
    Delivers served (ds ++ more) (frames ++ frames') where
  part := by
    rw [delivered_append, List.map_append]
    exact h.part.append h'.part
  all := by
    intro hs hok
    rw [delivered_append, List.map_append, h.all hs fun d hd => hok d (List.mem_append_left _ hd),
      h'.all hs fun d hd => hok d (List.mem_append_right _ hd)]

end Delivers

/-- The path of a frame: the connections, or datagrams. -/
inductive Way
  | tcp
  | udp
  deriving DecidableEq

/-! ## One call -/

namespace MeshRouter

/-- There is a route for the node, with an allowed hop. -/
def Serves (r : MeshRouter) (nodeId : UInt16) : Prop :=
  ∃ i route j, r.find nodeId = some i ∧ r.routes[i]? = some route ∧ route.hopAllowed j = true

variable {r : MeshRouter} {nodeId : UInt16}

theorem Serves.forwardUdp (h : r.Serves nodeId) (hr : r.Wf) (udp : UdpSocket) (data : List UInt8) (nowNs : UInt64) :
    (r.forwardUdp udp nodeId data nowNs).2.1.Serves nodeId := by
  obtain ⟨i, route, j, hfind, hroute, hallowed⟩ := h
  obtain ⟨_, hf⟩ := RouteEntry.forward_spec (hr route (List.mem_of_getElem? hroute)) udp data nowNs
  obtain ⟨hi, hnode, hbefore⟩ := List.findIdx?_eq_some_iff_getElem.mp hfind
  obtain ⟨_, rfl⟩ := List.getElem?_eq_some_iff.mp hroute
  rw [forwardUdp_eq hfind hroute]
  refine ⟨i, _, j, ?_, List.getElem?_set_self hi, (hf.same.allowed j).trans hallowed⟩
  refine List.findIdx?_eq_some_iff_getElem.mpr ⟨by simpa using hi, ?_, ?_⟩
  · rw [List.getElem_set_self, hf.same.nodeId]
    exact hnode
  · intro k hk
    rw [List.getElem_set_ne (Nat.ne_of_gt hk)]
    exact hbefore k hk

/-- **A call hands its data to at most one hop**, and to one if it has some hop and no call of `send_to` fails. -/
theorem delivers_forwardUdp {served : Prop} (hr : r.Wf) (hserves : served → r.Serves nodeId) (udp : UdpSocket)
    (frame : WireFrame) (nowNs : UInt64) :
    ∃ more, (r.forwardUdp udp nodeId frame.bytes nowNs).2.2.sent = udp.sent ++ more ∧
      Delivers served more [frame] := by
  obtain ⟨more, hsent, hcopies, hcount⟩ := forwardUdp_copies hr udp nodeId frame.bytes nowNs
  have hdata : delivered more = List.replicate (more.countP (·.ok)) frame.bytes := by
    rw [delivered, List.eq_replicate_iff, List.length_map, List.countP_eq_length_filter]
    refine ⟨rfl, ?_⟩
    intro data hdata
    obtain ⟨d, hd, rfl⟩ := List.mem_map.mp hdata
    exact hcopies d (List.mem_of_mem_filter hd)
  refine ⟨more, hsent, ?_, ?_⟩
  · rw [hdata, hcount]
    exact List.replicate_sublist_iff.mpr (by simpa using Bool.toNat_le _)
  · intro hs hok
    obtain ⟨i, route, j, hfind, hroute, hallowed⟩ := hserves hs
    obtain ⟨hist, hf⟩ := RouteEntry.forward_spec (hr route (List.mem_of_getElem? hroute)) udp frame.bytes nowNs
    rw [forwardUdp_eq hfind hroute] at hsent hcount
    have hlog := List.append_cancel_left (hsent.symm.trans hf.sends.sent)
    have hwon : hist.won ≠ none := by
      intro hnone
      -- a hop that was tried and refused leaves a datagram that failed
      have hrefused := hf.complete hnone j hallowed
      have hfailed : (⟨route.hops j, frame.bytes, false⟩ : Datagram) ∈ more := by
        rw [hlog]
        refine List.mem_map.mpr ⟨(j, false), ?_, rfl⟩
        exact List.mem_append_left _ (List.mem_map_of_mem hrefused)
      cases hok _ hfailed
    have htaken : (route.forward udp frame.bytes nowNs).1 = true := by
      rw [hf.ok]
      exact Option.isSome_iff_ne_none.mpr hwon
    rw [hdata, hcount, htaken]
    rfl

end MeshRouter

namespace Link

/-! ## One flush -/

section CountSent

variable {σ : Type} {send : WireFrame → σ → Bool × σ} {served : Prop}

/-- What holds of each call holds of all calls together. -/
theorem countSent_delivers {P : σ → Prop} (sent : σ → List Datagram)
    (hsend : ∀ frame s, P s → P (send frame s).2 ∧ ∃ more, sent (send frame s).2 = sent s ++ more ∧
      Delivers served more [frame]) (frames : List WireFrame) {s : σ} (h : P s) :
    ∃ more, sent (countSent send frames s).2 = sent s ++ more ∧ Delivers served more frames := by
  induction frames generalizing s with
  | nil => exact ⟨[], (List.append_nil _).symm, .nil⟩
  | cons frame frames ih =>
    obtain ⟨hnext, first, hfirst, hone⟩ := hsend frame s h
    obtain ⟨more, hmore, hrest⟩ := ih hnext
    refine ⟨first ++ more, ?_, hone.append hrest⟩
    rw [← List.append_assoc, ← hfirst, ← hmore]
    rfl

end CountSent

variable {served : Prop}

theorem sendFrames_delivers (ep : Endpoint) (frames : List WireFrame) (udp : UdpSocket) :
    ∃ more, (sendFrames ep frames udp).2.sent = udp.sent ++ more ∧ Delivers served more frames := by
  refine countSent_delivers (P := fun _ => True) UdpSocket.sent ?_ frames trivial
  intro frame udp _
  refine ⟨trivial, _, UdpSocket.sent_sendTo _ _ _, ?_, ?_⟩
  · cases hok : (udp.sendTo ep frame.bytes).1 <;> simp [delivered]
  · intro _ hok
    have htaken : (udp.sendTo ep frame.bytes).1 = true := hok _ (List.mem_singleton_self _)
    simp [delivered, htaken]

theorem forwardFrames_delivers (nodeId : UInt16) (now : UInt64) (frames : List WireFrame) {l : Link} (hr : l.router.Wf)
    (hserves : served → l.router.Serves nodeId) :
    ∃ more, (forwardFrames nodeId now frames l).2.udp.sent = l.udp.sent ++ more ∧ Delivers served more frames := by
  refine countSent_delivers (P := fun l : Link => l.router.Wf ∧ (served → l.router.Serves nodeId)) (·.udp.sent) ?_
    frames ⟨hr, hserves⟩
  rintro frame l ⟨hr, hserves⟩
  refine ⟨⟨hr.forwardUdp l.udp nodeId frame.bytes now, ?_⟩, MeshRouter.delivers_forwardUdp hr hserves l.udp frame now⟩
  exact fun hs => (hserves hs).forwardUdp hr l.udp frame.bytes now

theorem flushUdpMesh_delivers (nodeId : UInt16) {l : Link} (hr : l.router.Wf)
    (hserves : served → l.router.Serves nodeId) (hb : l.batch.sendOffset < l.batch.bytes.length) :
    ∃ more, (l.flushUdpMesh nodeId).2.udp.sent = l.udp.sent ++ more ∧ Delivers served more l.batch.unsentFrames := by
  rw [← FrameBatch.unsentFrames_discard hb]
  exact forwardFrames_delivers nodeId (l.clock 0) _ (l := l.monotonicNs.2) hr hserves

theorem failover_delivers (nodeId : UInt16) {l : Link} (hr : l.router.Wf)
    (hserves : served → l.router.Serves nodeId) (hb : l.batch.sendOffset < l.batch.bytes.length) :
    ∃ more, (l.failover nodeId).2.udp.sent = l.udp.sent ++ more ∧ Delivers served more l.batch.unsentFrames := by
  have hudp : (l.failover nodeId).2.udp =
      ({ l with stats := l.stats.failover l.batch.unsentCount }.flushUdpMesh nodeId).2.udp := by
    simp only [failover]
    split <;> rfl
  rw [hudp]
  exact flushUdpMesh_delivers nodeId (l := { l with stats := l.stats.failover l.batch.unsentCount }) hr hserves hb

section Attempted

variable {opens : Prop} {src : List WireFrame} {older : List (List UInt8)} {s got : List UInt8} {b batch : FrameBatch}
  {tcp tcp' : TcpClient}

/-- What a connection at a frame boundary takes adds its whole frames. -/
theorem Reaches.cut (h : Reaches opens tcp older s) (htcp : tcp.Aligned src)
    (hstreams : tcp'.streams = older ++ [s ++ got]) :
    tcp'.streams.flatMap (cut wireFrameSize) = tcp.streams.flatMap (cut wireFrameSize) ++ cut wireFrameSize got := by
  obtain ⟨⟨frames, hs, _⟩, _⟩ := h.aligned htcp
  have hold : tcp.streams.flatMap (Blocks.cut wireFrameSize) =
      older.flatMap (Blocks.cut wireFrameSize) ++ Blocks.cut wireFrameSize s := by
    rcases h with ⟨hopen, rfl⟩ | ⟨_, rfl, rfl⟩
    · rw [TcpClient.streams_of_open hopen, List.flatMap_append, List.flatMap_singleton]
    · rw [Blocks.cut_of_lt (by decide), List.append_nil]
  rw [hstreams, hold, List.flatMap_append, List.flatMap_singleton, List.append_assoc, hs,
    Blocks.cut_bytesOf_append WireFrame.length_bytes (by decide), Blocks.cut_bytesOf WireFrame.length_bytes (by decide)]

/-- The frames of the batch that a flush over TCP gets out whole are those in front; the others are left. -/
theorem Attempted.splits {ok : Bool} (h : Attempted opens b tcp ok batch tcp') (h0 : b.sendOffset = 0)
    (htcp : tcp.Aligned src) : ∃ k, tcp'.streams.flatMap (cut wireFrameSize) =
        tcp.streams.flatMap (cut wireFrameSize) ++ (b.frames.take k).map WireFrame.bytes ∧
      (ok = true → b.frames.drop k = []) ∧ (ok = false → batch.unsentFrames = b.frames.drop k) := by
  have hcut : ∀ got, got <+: b.bytes → Blocks.cut wireFrameSize got =
      (b.frames.take (got.length / wireFrameSize)).map WireFrame.bytes :=
    fun got => Blocks.cut_of_prefix WireFrame.length_bytes (by decide)
  have hall : b.bytes.length / wireFrameSize = b.frames.length := by
    rw [FrameBatch.length_bytes, FrameBatch.count, Nat.mul_div_cancel_left _ (by decide)]
  cases h with
  | down _ hstreams =>
    refine ⟨0, by rw [hstreams, List.take_zero, List.map_nil, List.append_nil], by simp, fun _ => ?_⟩
    rw [FrameBatch.unsentFrames, FrameBatch.unsentFrameIndex, h0, Nat.zero_div]
  | drained older s hreach _ hstreams =>
    rw [h0, List.drop_zero] at hstreams
    refine ⟨b.bytes.length / wireFrameSize, ?_, fun _ => ?_, by simp⟩
    · rw [hreach.cut htcp hstreams, hcut _ List.prefix_rfl]
    · rw [hall, List.drop_length]
  | stalled older s got hreach hgot _ hstreams =>
    rw [h0, List.drop_zero] at hgot
    refine ⟨got.length / wireFrameSize, ?_, by simp, fun _ => ?_⟩
    · rw [hreach.cut htcp hstreams, hcut _ hgot]
    · rw [FrameBatch.unsentFrames, FrameBatch.unsentFrameIndex, FrameBatch.advance, h0, Nat.zero_add]

end Attempted

/-- From `l` to `l'` the batch went out: the frames `whole` on the connections, the others in datagrams. -/
structure Carries (served : Prop) (l l' : Link) (whole rest : List WireFrame) : Prop where
  frames : whole ++ rest = l.batch.frames
  streams : l'.tcp.streams.flatMap (cut wireFrameSize) =
    l.tcp.streams.flatMap (cut wireFrameSize) ++ whole.map WireFrame.bytes
  sent : ∃ more, l'.udp.sent = l.udp.sent ++ more ∧ Delivers served more rest

theorem unsentFrames_start {b : FrameBatch} (h0 : b.sendOffset = 0) : b.unsentFrames = b.frames := by
  rw [FrameBatch.unsentFrames, FrameBatch.unsentFrameIndex, h0, Nat.zero_div, List.drop_zero]

/-- **A flush puts every frame on one path**, unless TCP is on its own. -/
theorem carries_flushBatch {transport : Transport} (op : Endpoint) (nodeId : UInt16) {l : Link} {src : List WireFrame}
    (htransport : transport ≠ .tcp) (hb : l.batch.Wf) (hr : l.router.Wf)
    (hserves : served → transport ≠ .udp → l.router.Serves nodeId) (h0 : l.batch.sendOffset = 0)
    (hne : l.batch.frames ≠ []) (hsrc : ∀ f ∈ l.batch.frames, f ∈ src) (htcp : l.tcp.Aligned src) :
    (∃ whole rest, Carries served l (l.flushBatch transport op nodeId).2 whole rest) ∧
      (l.flushBatch transport op nodeId).2.tcp.Aligned src := by
  have hunsent := hb.unsent hne
  have hstart := unsentFrames_start h0
  cases transport with
  | tcp => exact absurd rfl htransport
  | udp =>
    refine ⟨⟨[], l.batch.frames, rfl, (List.append_nil _).symm, ?_⟩, htcp⟩
    rw [← hstart, ← FrameBatch.unsentFrames_discard hunsent]
    exact sendFrames_delivers op _ l.udp
  | mesh =>
    obtain ⟨router, udp, clock, heq⟩ := flushUdpMesh_spec nodeId (l := l.monotonicNs.2) hunsent
    have htcp' : (l.flushBatch .mesh op nodeId).2.tcp = l.tcp := by
      simp only [flushBatch, heq]
      rfl
    rw [htcp']
    refine ⟨⟨[], l.batch.frames, rfl, ?_, ?_⟩, htcp⟩
    · rw [htcp', List.map_nil, List.append_nil]
    · rw [← hstart]
      exact flushUdpMesh_delivers nodeId (l := l.monotonicNs.2) hr (fun hs => hserves hs (by simp)) hunsent
  | auto =>
    refine ⟨?_, (handsOver_flushBatch op nodeId hb h0 hne hsrc htcp).2⟩
    obtain ⟨ok, batch, tcp, gate, clock, ns, hattempt, heq⟩ := flushBatch_auto op nodeId hunsent
    obtain ⟨k, hstreams, hall, hrest⟩ := hattempt.splits h0 htcp
    rw [heq]
    refine ⟨l.batch.frames.take k, l.batch.frames.drop k, List.take_append_drop _ _, ?_, ?_⟩
    · cases ok with
      | true => exact hstreams
      | false =>
        have hleft : (batch.adapt false ns).sendOffset < (batch.adapt false ns).bytes.length := by
          simpa using hattempt.unsent hunsent
        obtain ⟨_, _, _, _, hfail, _⟩ :=
          failover_spec nodeId (l := { l with tcp, gate, clock, batch := batch.adapt false ns }) hleft
        rw [if_neg Bool.false_ne_true, hfail, ← hstreams]
        congr 1
        show TcpClient.streams (if _ then _ else _) = _
        split
        · exact TcpClient.streams_close tcp
        · rfl
    · cases ok with
      | true => exact ⟨[], (List.append_nil _).symm, by rw [hall rfl]; exact .nil⟩
      | false =>
        have hleft : (batch.adapt false ns).sendOffset < (batch.adapt false ns).bytes.length := by
          simpa using hattempt.unsent hunsent
        have hfail := failover_delivers nodeId (l := { l with tcp, gate, clock, batch := batch.adapt false ns }) hr
          (fun hs => hserves hs (by simp)) hleft
        rw [FrameBatch.unsentFrames_adapt, hrest rfl] at hfail
        exact hfail

end Link

/-! ## The runs -/

namespace Edge

variable {cfg : Config} {served : Prop} {e : Edge} {log : List (Way × WireFrame)}

/-- What holds at the head of the loop, without TCP on its own: `log` are the frames that have left the batch, with
their paths. Given `served`, the router serves the node. -/
structure Carried (cfg : Config) (served : Prop) (e : Edge) (log : List (Way × WireFrame)) : Prop where
  sound : e.Sound
  offset : e.link.batch.sendOffset = 0
  aligned : e.link.tcp.Aligned e.pushed
  pushed : log.map (·.2) ++ e.link.batch.frames = e.pushed
  tcp : e.link.tcp.streams.flatMap (cut wireFrameSize) = (Merge.stream .tcp log).map WireFrame.bytes
  udp : Delivers served e.link.udp.sent (Merge.stream .udp log)
  serves : served → cfg.transport ≠ .udp → e.link.router.Serves cfg.nodeId

theorem Carried.flush (h : e.Carried cfg served log) (htransport : cfg.transport ≠ .tcp)
    (hne : e.link.batch.frames ≠ []) : ∃ log', (e.flush cfg).2.Carried cfg served log' := by
  have hempty := Link.flushBatch_cleared cfg.transport cfg.op cfg.nodeId h.sound.batch hne (Or.inr htransport)
  have hsound := h.sound.flush cfg hne
  have hwaiting : ∀ f ∈ e.link.batch.frames, f ∈ e.pushed := by
    intro f hf
    rw [← h.pushed]
    exact List.mem_append_right _ hf
  obtain ⟨⟨whole, rest, hframes, hstreams, more, hsent, hmore⟩, haligned⟩ := Link.carries_flushBatch cfg.op cfg.nodeId
    htransport h.sound.batch h.sound.router h.serves h.offset hne hwaiting h.aligned
  refine ⟨log ++ (whole.map (Way.tcp, ·) ++ rest.map (Way.udp, ·)), hsound, hsound.batch.offset_of_empty hempty,
    haligned, ?_, ?_, ?_, ?_⟩
  · show _ ++ (e.link.flushBatch cfg.transport cfg.op cfg.nodeId).2.batch.frames = e.pushed
    rw [hempty, ← h.pushed, ← hframes]
    simp [Function.comp_def]
  · show (e.link.flushBatch cfg.transport cfg.op cfg.nodeId).2.tcp.streams.flatMap _ = _
    rw [hstreams, h.tcp]
    simp [Merge.stream_tag]
  · show Delivers served (e.link.flushBatch cfg.transport cfg.op cfg.nodeId).2.udp.sent _
    rw [hsent]
    simpa [Merge.stream_tag] using h.udp.append hmore
  · intro hs hpath
    have hkept := Link.kept_flushBatch (P := fun r _ => r.Wf ∧ r.Serves cfg.nodeId)
      (fun _ udp data now hr => ⟨hr.1.forwardUdp udp cfg.nodeId data now, hr.2.forwardUdp hr.1 udp data now⟩) hpath
      cfg.op ⟨h.sound.router, h.serves hs hpath⟩
    exact hkept.2

theorem Carried.push (h : e.Carried cfg served log) (sensor : UInt8) (raw : Int32)
    (hroom : e.link.batch.count < e.link.batch.capacity) : (e.push cfg sensor raw).2.Carried cfg served log := by
  have hsound := h.sound.push cfg sensor raw
  rw [push_of_room cfg sensor raw hroom] at hsound ⊢
  refine ⟨hsound, h.offset, h.aligned.mono fun f hf => List.mem_append_left _ hf, ?_, h.tcp, h.udp, h.serves⟩
  rw [← h.pushed, List.append_assoc]

theorem Carried.step (h : e.Carried cfg served log) (htransport : cfg.transport ≠ .tcp) {t : Tick}
    (hserves : served → cfg.transport ≠ .udp → (e.poll cfg t).link.router.Serves cfg.nodeId) :
    ∃ log', (e.step cfg t).Carried cfg served log' := by
  have hpoll : (e.poll cfg t).Carried cfg served log :=
    ⟨h.sound.poll cfg t, h.offset, h.aligned, h.pushed, h.tcp, h.udp, hserves⟩
  exact step_inv (P := fun e => ∃ log, e.Carried cfg served log) (fun _ ⟨_, h⟩ => h.sound.batch)
    (fun _ => ⟨log, hpoll⟩) (fun _ ⟨_, h⟩ hne _ => h.flush htransport hne)
    (fun _ sensor raw ⟨log, h⟩ hroom => ⟨log, h.push sensor raw hroom⟩)
    (fun _ _ _ _ _ _ _ ⟨log, h⟩ =>
      ⟨log, ⟨h.sound.batch, h.sound.router⟩, h.offset, h.aligned, h.pushed, h.tcp, h.udp, h.serves⟩) ⟨log, h⟩

theorem carried_start (cfg : Config) (connects : List Bool) (sends : List SendOutcome) (outcomes : List Bool)
    (clock : Nat → UInt64)
    (hserves : served → cfg.transport ≠ .udp →
      (start cfg connects sends outcomes clock).link.router.Serves cfg.nodeId) :
    (start cfg connects sends outcomes clock).Carried cfg served [] := by
  have h := onePath_start cfg connects sends outcomes clock
  obtain ⟨tcp, gate, clock', heq, hnil⟩ := start_spec cfg connects sends outcomes clock
  rw [heq] at h hserves ⊢
  refine ⟨h.sound, rfl, h.aligned, rfl, ?_, .nil, hserves⟩
  rw [Merge.stream_nil, List.map_nil, List.flatMap_eq_nil_iff]
  intro s hs
  rw [hnil s hs]
  rfl

/-- **No frame is on two paths, and each path has its frames in order**, in every run without TCP on its own. -/
theorem carried_run (cfg : Config) (htransport : cfg.transport ≠ .tcp) (connects : List Bool) (sends : List SendOutcome)
    (outcomes : List Bool) (clock : Nat → UInt64) (ticks : List Tick) :
    ∃ log, (Runs.run (step cfg) (start cfg connects sends outcomes clock) ticks).Carried cfg False log :=
  Runs.run_inv (P := fun e : Edge => ∃ log, e.Carried cfg False log) (fun _ _ ⟨_, h⟩ => h.step htransport nofun) ticks _
    ⟨[], carried_start cfg connects sends outcomes clock nofun⟩

/-! ## The numbers of the samples -/

/-- The number of the next sample, and the frames pushed. -/
def numbered (e : Edge) : UInt32 × List WireFrame := (e.seq, e.pushed)

theorem numbered_drain (cfg : Config) (e : Edge) : (e.drain cfg).2.numbered = e.numbered := by
  unfold drain
  split
  · simp only
    repeat' split
    all_goals rfl
  · rfl

theorem numbered_flushFull (cfg : Config) (e : Edge) : (e.flushFull cfg).numbered = e.numbered := by
  unfold flushFull
  split
  · simp only
    repeat' split
    all_goals rfl
  · rfl

theorem numbered_finish (cfg : Config) (e : Edge) : (e.finish cfg).numbered = e.numbered := by
  unfold finish
  split <;> rfl

/-- A sample gets the number of the edge, whether it fits or not. -/
theorem numbered_push (cfg : Config) (e : Edge) (sensor : UInt8) (raw : Int32) :
    ∃ more, (e.push cfg sensor raw).2.numbered = (e.seq + 1, e.pushed ++ more) ∧
      (more = [] ∨ more = [e.nextFrame cfg sensor raw]) := by
  cases hok : (e.push cfg sensor raw).1 with
  | false =>
    refine ⟨[], ?_, Or.inl rfl⟩
    simp only [push] at hok ⊢
    simp [numbered, hok]
  | true =>
    refine ⟨_, ?_, Or.inr rfl⟩
    simp only [push] at hok ⊢
    simp only [numbered, hok, if_true]
    rfl

/-- A frame as an edge builds it. -/
structure Packed (cfg : Config) (f : WireFrame) : Prop where
  nodeId : f.nodeId = cfg.nodeId
  reserved : f.reserved = 0
  verify : verifyFrame f = true

/-- **What an iteration numbers**: nothing, or one sample, which is pushed or not. -/
theorem step_numbered (cfg : Config) (e : Edge) (t : Tick) :
    ((e.step cfg t).seq = e.seq ∧ (e.step cfg t).pushed = e.pushed) ∨
    ∃ more, (e.step cfg t).seq = e.seq + 1 ∧ (e.step cfg t).pushed = e.pushed ++ more ∧
      ∀ f ∈ more, more = [f] ∧ f.seq = e.seq ∧ Packed cfg f := by
  have hpoll : (e.poll cfg t).numbered = e.numbered := rfl
  have hdrain := (numbered_drain cfg (e.poll cfg t)).trans hpoll
  obtain ⟨hseq, hpushed⟩ := Prod.mk.inj hdrain
  rcases step_cases cfg e t with ⟨_, heq⟩ | heq | ⟨_, heq⟩ | ⟨_, heq | heq | ⟨sensor, raw, heq⟩⟩
  · exact Or.inl (by rw [heq]; exact ⟨rfl, rfl⟩)
  · rw [heq]
    exact Or.inl (Prod.mk.inj ((numbered_finish cfg _).trans hpoll))
  · rw [heq]
    exact Or.inl ⟨hseq, hpushed⟩
  · rw [heq]
    exact Or.inl (Prod.mk.inj ((numbered_finish cfg _).trans hdrain))
  · rw [heq]
    exact Or.inr ⟨[], congrArg (· + 1) hseq, by rw [List.append_nil]; exact hpushed, nofun⟩
  · obtain ⟨more, hpush, hmore⟩ := numbered_push cfg ((e.poll cfg t).drain cfg).2 sensor raw
    have hsame : (e.step cfg t).numbered = (e.seq + 1, e.pushed ++ more) := by
      rw [heq, ← hseq, ← hpushed, ← hpush]
      split
      · exact numbered_flushFull _ _
      · rfl
    obtain ⟨hseq', hpushed'⟩ := Prod.mk.inj hsame
    refine Or.inr ⟨more, hseq', hpushed', ?_⟩
    intro f hf
    rcases hmore with rfl | rfl
    · cases hf
    · rw [List.mem_singleton.mp hf]
      exact ⟨rfl, hseq, rfl, rfl, verifyFrame_packFrameInto _⟩

/-- Every frame pushed was built by the edge. -/
theorem packed_run (cfg : Config) (connects : List Bool) (sends : List SendOutcome) (outcomes : List Bool)
    (clock : Nat → UInt64) (ticks : List Tick) :
    ∀ f ∈ (Runs.run (step cfg) (start cfg connects sends outcomes clock) ticks).pushed, Packed cfg f := by
  obtain ⟨tcp, gate, clock', heq, _⟩ := start_spec cfg connects sends outcomes clock
  refine Runs.run_inv (P := fun e : Edge => ∀ f ∈ e.pushed, Packed cfg f) ?_ ticks _ (by rw [heq]; nofun)
  intro e t h f hf
  rcases step_numbered cfg e t with ⟨_, hsame⟩ | ⟨more, _, hnew, hmore⟩
  · exact h f (by rwa [← hsame])
  · rw [hnew] at hf
    rcases List.mem_append.mp hf with hf | hf
    · exact h f hf
    · exact (hmore f hf).2.2

/-- A sample that is selected for loss is not pushed. -/
theorem step_dropped (cfg : Config) (e : Edge) (t : Tick) (h : shouldDrop e.seq cfg.dropPct = true) :
    (e.step cfg t).pushed = e.pushed := by
  have hpoll : (e.poll cfg t).numbered = e.numbered := rfl
  have hdrain := (numbered_drain cfg (e.poll cfg t)).trans hpoll
  have hpushed : ∀ {e' : Edge}, e'.numbered = e.numbered → e'.pushed = e.pushed := fun h => (Prod.mk.inj h).2
  simp only [step]
  split
  · rfl
  · split
    · exact hpushed ((numbered_finish cfg _).trans hpoll)
    · generalize (e.poll cfg t).drain cfg = d at hdrain
      split
      · simp only [take]
        split
        · exact hpushed ((numbered_finish cfg _).trans hdrain)
        · rw [(Prod.mk.inj hdrain).1, if_pos h]
          exact (Prod.mk.inj hdrain).2
      · exact hpushed hdrain

/-- No frame pushed is selected for loss. -/
theorem spared_run (cfg : Config) (connects : List Bool) (sends : List SendOutcome) (outcomes : List Bool)
    (clock : Nat → UInt64) (ticks : List Tick) :
    ∀ f ∈ (Runs.run (step cfg) (start cfg connects sends outcomes clock) ticks).pushed,
      shouldDrop f.seq cfg.dropPct = false := by
  obtain ⟨tcp, gate, clock', heq, _⟩ := start_spec cfg connects sends outcomes clock
  refine Runs.run_inv (P := fun e : Edge => ∀ f ∈ e.pushed, shouldDrop f.seq cfg.dropPct = false) ?_ ticks _
    (by rw [heq]; nofun)
  intro e t h f hf
  by_cases hd : shouldDrop e.seq cfg.dropPct = true
  · exact h f (by rwa [← step_dropped cfg e t hd])
  · rcases step_numbered cfg e t with ⟨_, hsame⟩ | ⟨more, _, hnew, hmore⟩
    · exact h f (by rwa [← hsame])
    · rw [hnew] at hf
      rcases List.mem_append.mp hf with hf | hf
      · exact h f hf
      · rw [(hmore f hf).2.1]
        exact Bool.eq_false_iff.mpr hd

/-- The samples of the first `2 ^ 32` iterations have different numbers, and the frames pushed are in their order. -/
theorem numbered_run (cfg : Config) (connects : List Bool) (sends : List SendOutcome) (outcomes : List Bool)
    (clock : Nat → UInt64) (ticks : List Tick) (hfew : ticks.length ≤ 2 ^ 32) :
    let e := Runs.run (step cfg) (start cfg connects sends outcomes clock) ticks
    ∃ k ≤ ticks.length, e.seq = UInt32.ofNat k ∧ (∀ f ∈ e.pushed, f.seq.toNat < k) ∧
      (e.pushed.map fun f => f.seq.toNat).Pairwise (· < ·) := by
  intro e
  induction ticks using List.reverseRecOn with
  | nil =>
    obtain ⟨tcp, gate, clock', heq, _⟩ := start_spec cfg connects sends outcomes clock
    refine ⟨0, Nat.zero_le _, ?_⟩
    rw [show e = start cfg connects sends outcomes clock from rfl, heq]
    exact ⟨rfl, nofun, .nil⟩
  | append_singleton ticks t ih =>
    rw [List.length_append, List.length_singleton] at hfew ⊢
    obtain ⟨k, hk, hseq, hbelow, hup⟩ := ih (by omega)
    have he : e = (Runs.run (step cfg) (start cfg connects sends outcomes clock) ticks).step cfg t :=
      Runs.run_snoc _ _ _
    generalize Runs.run (step cfg) (start cfg connects sends outcomes clock) ticks = e₀ at he hseq hbelow hup
    rcases step_numbered cfg e₀ t with ⟨hsame, hsame'⟩ | ⟨more, hnext, hnew, hmore⟩
    · refine ⟨k, by omega, ?_⟩
      rw [he, hsame, hsame']
      exact ⟨hseq, hbelow, hup⟩
    · have hlast : ∀ f ∈ more, f.seq.toNat = k := by
        intro f hf
        rw [(hmore f hf).2.1, hseq, UInt32.toNat_ofNat_of_lt' (by simp only [UInt32.size]; omega)]
      refine ⟨k + 1, by omega, ?_⟩
      rw [he, hnext, hnew]
      refine ⟨by rw [hseq, UInt32.ofNat_add]; rfl, ?_, ?_⟩
      · intro f hf
        rcases List.mem_append.mp hf with hf | hf
        · exact Nat.lt_succ_of_lt (hbelow f hf)
        · rw [hlast f hf]
          exact Nat.lt_succ_self k
      · rw [List.map_append]
        refine List.pairwise_append.mpr ⟨hup, ?_, ?_⟩
        · cases more with
          | nil => exact .nil
          | cons f rest =>
            rw [(hmore f List.mem_cons_self).1]
            exact List.pairwise_singleton _ _
        · intro m hm n hn
          obtain ⟨f, hf, rfl⟩ := List.mem_map.mp hm
          obtain ⟨g, hg, rfl⟩ := List.mem_map.mp hn
          rw [hlast g hg]
          exact hbelow f hf

end Edge

end ZcMesh.Core
