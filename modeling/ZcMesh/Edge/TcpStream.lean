import Mathlib.Data.List.Chain
import ZcMesh.Edge.Failover

/-!
# The streams of transport `tcp`

The retained batch and its cursor outlive the connection. When the connection breaks inside a frame and the gate then
opens a new one, the new stream starts in the middle of that frame (`tcp_misframed`): nothing puts the cursor back to
the start of the frame, and nothing keeps the gate from connecting. In runs without such a reconnect every connection is
well framed (`tcp_wellFramed`), because the last stream always ends with the piece of the frame that stands before the
cursor (`Resumes`).
-/

namespace ZcMesh.Core

open Blocks (Framed Whole piece)

/-- `t` starts over with the frame that `s` broke off in, if it did. -/
def Restarts (src : List WireFrame) (s t : List UInt8) : Prop :=
  ∃ frames p, s = frameBytes frames ++ p ∧ (∀ f ∈ frames, f ∈ src) ∧
    (p = [] ∨ ∃ f ∈ src, p <+: f.bytes ∧ p.length < f.bytes.length ∧ (f.bytes <+: t ∨ t <+: f.bytes))

/-- Each stream is framed, and what it broke off in is sent again from its first byte on the next stream that carries
anything. -/
structure WellFramed (src : List WireFrame) (streams : List (List UInt8)) : Prop where
  framed : ∀ s ∈ streams, Framed WireFrame.bytes src s
  restarts : (streams.filter (· ≠ [])).IsChain (Restarts src)

theorem Restarts.of_whole {src : List WireFrame} {s : List UInt8} (h : Whole WireFrame.bytes src s) (t : List UInt8) :
    Restarts src s t := by
  obtain ⟨frames, rfl, hframes⟩ := h
  exact ⟨frames, [], (List.append_nil _).symm, hframes, Or.inl rfl⟩

/-- When only the last stream can be broken off, all is well. -/
theorem WellFramed.of_last {src : List WireFrame} {older : List (List UInt8)} {last : List UInt8}
    (holder : ∀ s ∈ older, Whole WireFrame.bytes src s) (hlast : Framed WireFrame.bytes src last) :
    WellFramed src (older ++ [last]) where
  framed := by
    intro s hs
    rcases List.mem_append.mp hs with hs | hs
    · exact (holder s hs).framed
    · rw [List.mem_singleton.mp hs]
      exact hlast
  restarts := by
    induction older with
    | nil =>
      rw [List.nil_append, List.filter_cons]
      split
      · exact .singleton _
      · exact .nil
    | cons s older ih =>
      have hrest := ih fun x hx => holder x (List.mem_cons_of_mem _ hx)
      rw [List.cons_append, List.filter_cons]
      split
      · exact hrest.cons fun t _ => .of_whole (holder s List.mem_cons_self) t
      · exact hrest

/-! ## The cursor and the last stream -/

/-- The bytes of the frame that the cursor is in, up to the cursor. -/
def FrameBatch.started (b : FrameBatch) : List UInt8 := piece WireFrame.bytes wireFrameSize b.frames b.sendOffset

theorem FrameBatch.started_framed {b : FrameBatch} {src : List WireFrame} (hb : b.Wf)
    (hsrc : ∀ f ∈ b.frames, f ∈ src) : Framed WireFrame.bytes src b.started := by
  refine ⟨[], b.started, rfl, nofun, ?_⟩
  rcases hb.offset_lt with h0 | hlt
  · exact Or.inl (Blocks.piece_of_boundary (by rw [h0, Nat.zero_mod]))
  · rw [FrameBatch.length_bytes] at hlt
    obtain ⟨f, hf, hpre, hlen⟩ := Blocks.piece_prefix WireFrame.length_bytes (by decide) hlt
    exact Or.inr ⟨f, hsrc f hf, hpre, hlen⟩

/-- All streams carry whole frames, and the cursor is at a frame boundary; or the last one ends with the piece of the
frame that the cursor is in. -/
def Resumes (src : List WireFrame) (b : FrameBatch) (streams : List (List UInt8)) : Prop :=
  (b.sendOffset % wireFrameSize = 0 ∧ ∀ s ∈ streams, Whole WireFrame.bytes src s) ∨
    ∃ older s, streams = older ++ [s ++ b.started] ∧ Whole WireFrame.bytes src s ∧
      ∀ x ∈ older, Whole WireFrame.bytes src x

namespace Resumes

variable {opens : Prop} {src src' : List WireFrame} {b b' : FrameBatch} {tcp tcp' : TcpClient}
  {streams older : List (List UInt8)} {s : List UInt8}

theorem mono (h : Resumes src b streams) (hsrc : ∀ f ∈ src, f ∈ src') (hoffset : b'.sendOffset = b.sendOffset)
    (hstarted : b'.started = b.started) : Resumes src' b' streams := by
  rcases h with ⟨h0, hall⟩ | ⟨older, s, hstreams, hs, holder⟩
  · exact Or.inl ⟨by rw [hoffset, h0], fun x hx => (hall x hx).mono hsrc⟩
  · exact Or.inr ⟨older, s, by rw [hstarted, hstreams], hs.mono hsrc, fun x hx => (holder x hx).mono hsrc⟩

theorem wellFramed (h : Resumes src b streams) (hb : b.Wf) (hsrc : ∀ f ∈ b.frames, f ∈ src) :
    WellFramed src streams := by
  rcases h with ⟨_, hall⟩ | ⟨older, s, rfl, hs, holder⟩
  · rcases List.eq_nil_or_concat streams with rfl | ⟨older, last, rfl⟩
    · exact ⟨nofun, .nil⟩
    · rw [List.concat_eq_append] at hall ⊢
      exact .of_last (fun s hs => hall s (List.mem_append_left _ hs))
        (hall last (List.mem_append_right _ (List.mem_singleton.mpr rfl))).framed
  · exact .of_last holder ((b.started_framed hb hsrc).whole_append hs)

/-- The connection that a flush uses ends with the piece of the frame that the cursor is in. -/
theorem reaches (h : Resumes src b tcp.streams) (hreach : Link.Reaches opens tcp older s)
    (hopens : opens → b.sendOffset % wireFrameSize = 0) :
    (∃ s₀, s = s₀ ++ b.started ∧ Whole WireFrame.bytes src s₀) ∧ ∀ x ∈ older, Whole WireFrame.bytes src x := by
  rcases hreach with ⟨hs, rfl⟩ | ⟨hopen, rfl, rfl⟩
  · rw [TcpClient.streams_of_open hs] at h
    rcases h with ⟨h0, hall⟩ | ⟨older, s₀, hstreams, hs₀, holder⟩
    · refine ⟨⟨s, ?_, hall s (List.mem_append_right _ (List.mem_singleton.mpr rfl))⟩,
        fun x hx => hall x (List.mem_append_left _ hx)⟩
      rw [FrameBatch.started, Blocks.piece_of_boundary h0, List.append_nil]
    · obtain ⟨hl, hlast⟩ := List.append_inj' hstreams rfl
      exact ⟨⟨s₀, List.singleton_inj.mp hlast, hs₀⟩, by rwa [hl]⟩
  · have hnil : b.started = [] := Blocks.piece_of_boundary (hopens hopen)
    refine ⟨⟨[], by rw [hnil]; rfl, Blocks.whole_nil src⟩, ?_⟩
    intro x hx
    rcases h with ⟨_, hall⟩ | ⟨older, s₀, hstreams, hs₀, holder⟩
    · exact hall x hx
    · rw [hstreams, hnil, List.append_nil] at hx
      rcases List.mem_append.mp hx with hx | hx
      · exact holder x hx
      · rw [List.mem_singleton.mp hx]
        exact hs₀

/-- A flush that opens no connection with the cursor inside a frame. -/
theorem attempted {ok : Bool} (h : Resumes src b tcp.streams) (hattempt : Link.Attempted opens b tcp ok b' tcp')
    (hb : b.sendOffset < b.bytes.length) (hsrc : ∀ f ∈ b.frames, f ∈ src)
    (hopens : opens → b.sendOffset % wireFrameSize = 0) : Resumes src b' tcp'.streams := by
  -- what is sent next completes the frame of the cursor
  have hnext : ∀ got, got <+: b.bytes.drop b.sendOffset → ∃ w, b.started ++ got =
      w ++ piece WireFrame.bytes wireFrameSize b.frames (b.sendOffset + got.length) ∧ Whole WireFrame.bytes src w :=
    fun got hgot => ⟨_, Blocks.piece_append WireFrame.length_bytes hgot, _, rfl,
      fun f hf => hsrc f (List.mem_of_mem_take (List.mem_of_mem_drop hf))⟩
  cases hattempt with
  | down _ hstreams => rwa [hstreams]
  | drained older s hreach _ hstreams =>
    obtain ⟨⟨s₀, rfl, hs₀⟩, holder⟩ := h.reaches hreach hopens
    obtain ⟨w, hw, hwhole⟩ := hnext _ List.prefix_rfl
    have hend : (b.sendOffset + (b.bytes.drop b.sendOffset).length) % wireFrameSize = 0 := by
      rw [List.length_drop, Nat.add_sub_cancel' (Nat.le_of_lt hb), FrameBatch.length_bytes, Nat.mul_mod_right]
    rw [Blocks.piece_of_boundary hend, List.append_nil] at hw
    refine Or.inl ⟨rfl, ?_⟩
    intro x hx
    rw [hstreams, List.append_assoc, hw] at hx
    rcases List.mem_append.mp hx with hx | hx
    · exact holder x hx
    · rw [List.mem_singleton.mp hx]
      exact hs₀.append hwhole
  | stalled older s got hreach hgot _ hstreams =>
    obtain ⟨⟨s₀, rfl, hs₀⟩, holder⟩ := h.reaches hreach hopens
    obtain ⟨w, hw, hwhole⟩ := hnext got hgot
    refine Or.inr ⟨older, s₀ ++ w, ?_, hs₀.append hwhole, holder⟩
    rw [hstreams, List.append_assoc, hw, List.append_assoc]
    rfl

end Resumes

/-! ## The runs -/

namespace Edge

variable {cfg : Config} {e : Edge}

/-- The defect: the loop goes on with the cursor inside a frame and no connection, and the flush to come lets a connect
through that succeeds. -/
def StaleReconnect (e : Edge) : Prop :=
  e.done = false ∧ e.link.batch.sendOffset % wireFrameSize ≠ 0 ∧ e.link.tcp.connected = false ∧
    e.link.gate.nextNs ≤ e.link.clock 1 ∧ e.link.tcp.connects.headD false = true

instance (e : Edge) : Decidable e.StaleReconnect := inferInstanceAs (Decidable (_ ∧ _ ∧ _ ∧ _ ∧ _))

/-- What holds at the head of the loop in transport `tcp`, without the defect. -/
structure Resumable (e : Edge) : Prop where
  sound : e.Sound
  waiting : ∀ f ∈ e.link.batch.frames, f ∈ e.pushed
  resumes : Resumes e.pushed e.link.batch e.link.tcp.streams

theorem Resumable.flush (h : e.Resumable) (htcp : cfg.transport = .tcp) (hne : e.link.batch.frames ≠ [])
    (hopens : e.link.monotonicNs.2.Opens → e.link.batch.sendOffset % wireFrameSize = 0) :
    (e.flush cfg).2.Resumable := by
  have hsound := h.sound.flush cfg hne
  have hunsent := h.sound.batch.unsent hne
  obtain ⟨batch, tcp, gate, clock, ns, heq, hattempt⟩ := Link.flushBatch_tcp cfg.op cfg.nodeId hunsent
  have hresumes := h.resumes.attempted hattempt hunsent h.waiting hopens
  have hlink : (e.flush cfg).2.link =
      { e.link with tcp, gate, clock, batch := batch.adapt (e.link.flushBatch .tcp cfg.op cfg.nodeId).1 ns } := by
    rw [← heq, ← htcp]
    rfl
  refine ⟨hsound, ?_, ?_⟩
  · rw [hlink, FrameBatch.frames_adapt]
    exact fun f hf => h.waiting f (hattempt.frames f hf)
  · rw [hlink]
    refine hresumes.mono (fun _ hf => hf) (FrameBatch.sendOffset_adapt _ _ _) ?_
    rw [FrameBatch.started, FrameBatch.frames_adapt, FrameBatch.sendOffset_adapt]
    rfl

theorem Resumable.push (h : e.Resumable) (cfg : Config) (sensor : UInt8) (raw : Int32)
    (hroom : e.link.batch.count < e.link.batch.capacity) : (e.push cfg sensor raw).2.Resumable := by
  have hsound := h.sound.push cfg sensor raw
  have hwaiting := waiting_push cfg sensor raw hroom h.waiting
  rw [push_of_room cfg sensor raw hroom] at hsound hwaiting ⊢
  refine ⟨hsound, hwaiting, h.resumes.mono (fun f hf => List.mem_append_left _ hf) rfl ?_⟩
  exact Blocks.piece_extend _ h.sound.batch.offset_le

theorem Resumable.step (h : e.Resumable) (htcp : cfg.transport = .tcp) (t : Tick) (hstale : ¬ e.StaleReconnect) :
    (e.step cfg t).Resumable := by
  by_cases hdone : e.done = true
  · rw [Edge.step, if_pos hdone]
    exact h
  · refine step_inv (fun _ h => h.sound.batch) (fun h => ⟨h.sound.poll cfg t, h.waiting, h.resumes⟩)
      (fun e' h hne hcase => h.flush htcp hne fun hopens => ?_)
      (fun _ sensor raw h hroom => h.push cfg sensor raw hroom)
      (fun _ _ _ _ _ _ _ h => ⟨⟨h.sound.batch, h.sound.router⟩, h.waiting, h.resumes⟩) h
    rcases hcase with rfl | h0
    · by_contra hinside
      exact hstale ⟨by simpa using hdone, hinside, hopens⟩
    · rw [h0, Nat.zero_mod]

theorem resumable_start (cfg : Config) (connects : List Bool) (sends : List SendOutcome) (outcomes : List Bool)
    (clock : Nat → UInt64) : (start cfg connects sends outcomes clock).Resumable := by
  have hsound := sound_start cfg connects sends outcomes clock
  obtain ⟨tcp, gate, clock', heq, hnil⟩ := start_spec cfg connects sends outcomes clock
  rw [heq] at hsound ⊢
  refine ⟨hsound, nofun, Or.inl ⟨rfl, ?_⟩⟩
  intro s hs
  rw [hnil s hs]
  exact Blocks.whole_nil _

/-- **Without a stale reconnect the streams of transport `tcp` are well framed**, in every state of every run. -/
theorem tcp_wellFramed (cfg : Config) (htcp : cfg.transport = .tcp) (connects : List Bool) (sends : List SendOutcome)
    (outcomes : List Bool) (clock : Nat → UInt64) (ticks : List Tick)
    (hsteps : Runs.AllSteps (step cfg) (fun e _ => ¬ e.StaleReconnect) (start cfg connects sends outcomes clock)
      ticks) :
    let e := Runs.run (step cfg) (start cfg connects sends outcomes clock) ticks
    WellFramed e.pushed e.link.tcp.streams := by
  intro e
  have h : e.Resumable := Runs.run_inv_of_steps (fun _ t h hstale => h.step htcp t hstale) ticks _ hsteps
    (resumable_start cfg connects sends outcomes clock)
  exact h.resumes.wellFramed h.sound.batch h.waiting

/-- Two frames; the connection breaks between them. -/
theorem tcp_wellFramed_boundary :
    let e := Runs.run (step (.small .tcp 2))
      (start (.small .tcp 2) [true, true] [.accepted 24, .hardError, .accepted 24] [] fun _ => 0)
      [{ raw := some 5 }, { raw := some 6 }, {}]
    WellFramed e.pushed e.link.tcp.streams ∧ e.link.tcp.streams.map List.length = [24, 24] := by
  intro e
  have h := tcp_wellFramed (.small .tcp 2) rfl [true, true] [.accepted 24, .hardError, .accepted 24] [] (fun _ => 0)
    [{ raw := some 5 }, { raw := some 6 }, {}] (by decide)
  exact ⟨h, by decide⟩

/-- One frame; the connection breaks behind its tenth byte, and the new one gets the other fourteen. -/
theorem tcp_misframed :
    let e := Runs.run (step (.small .tcp 1))
      (start (.small .tcp 1) [true, true] [.accepted 10, .hardError, .accepted 14] [] fun _ => 0)
      [{ raw := some 5 }, {}]
    e.link.tcp.streams.map List.length = [10, 14] ∧ ¬ WellFramed e.pushed e.link.tcp.streams := by
  intro e
  refine ⟨by decide, ?_⟩
  intro h
  have hsecond : ∃ s ∈ e.link.tcp.streams, s ≠ [] ∧ s.head? = some 0 := by decide
  obtain ⟨s, hs, hne, hhead⟩ := hsecond
  obtain ⟨f, hf, heq⟩ := (h.framed s hs).head hne WireFrame.bytes_ne_nil
  have hmagic : ∀ f ∈ e.pushed, f.bytes.head? = some 0x43 := by decide
  rw [hhead, hmagic f hf] at heq
  cases heq

end Edge

end ZcMesh.Core
