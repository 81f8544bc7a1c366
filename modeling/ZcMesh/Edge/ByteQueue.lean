import ZcMesh.Edge.Batch

/-!
# The batch as a byte queue

The calls of `FrameBatch` in any order, on a connection that is open at the start: pushes go in at one end, what
`send_nb` accepts comes out at the other.

* What the connection has accepted and what is behind the cursor are together the frames pushed (`Queued`, kept by
  every call), also between two `send_nb` calls of a flush: `faithful_run`.
* `discard_fully_sent` keeps the frames that are owed; it puts the cursor at the start, unless the cursor is inside the
  first frame: `discard_iff`.
-/

namespace ZcMesh.Core

/-- A sample with the number `seq`. -/
def SensorSample.numbered (seq : UInt32) : SensorSample where
  seq := seq
  timestampNs := 0
  nodeId := 1
  sensorType := 0
  flags := 0
  reserved := 0
  rawValue := 42

/-- A batch, its connection, and the history of the frames that were pushed. -/
structure Uplink where
  batch : FrameBatch
  tcp : TcpClient
  pushed : List WireFrame := []

/-- The calls; `attempts` is an `int`. -/
inductive QueueCall
  | push (sample : SensorSample)
  | flushTcp
  | flushTcpRetry (attempts : Int32)
  | adapt (fullySent : Bool) (flushNs : UInt64)

namespace Uplink

/-- A new batch on a new connection, with what the network is going to do. -/
def start (capacity : Nat) (sends : List SendOutcome) : Uplink :=
  { batch := .make capacity, tcp := { sends, stream := some [] } }

def step (u : Uplink) : QueueCall → Uplink
  | .push sample =>
    let (ok, batch) := u.batch.push sample
    { u with batch, pushed := if ok then u.pushed ++ [packFrameInto sample] else u.pushed }
  | .flushTcp =>
    let (_, batch, tcp) := u.batch.flushTcp u.tcp
    { u with batch, tcp }
  | .flushTcpRetry attempts =>
    let (_, batch, tcp) := u.batch.flushTcpRetry u.tcp attempts.toInt.toNat
    { u with batch, tcp }
  | .adapt fullySent flushNs => { u with batch := u.batch.adapt fullySent flushNs }

/-- A call of `flush_tcp`, after `turns` turns of its loop. -/
def inFlush (u : Uplink) (turns : Nat) : Uplink :=
  let s := Runs.whileLoop FrameBatch.Sending.step turns ⟨u.batch, u.tcp, false⟩
  { u with batch := s.batch, tcp := s.tcp }

/-- What a byte queue promises. -/
structure Faithful (capacity : Nat) (u : Uplink) : Prop where
  count_le : u.batch.count ≤ capacity
  offset_le : u.batch.sendOffset ≤ wireFrameSize * u.batch.count
  target_pos : 1 ≤ u.batch.flushAt
  target_le : u.batch.flushAt ≤ capacity
  full_due : u.batch.full = true → u.batch.shouldFlush = true
  unsent : u.batch.unsentFrameIndex + u.batch.unsentCount = u.batch.count
  conserved : u.tcp.accepted ++ u.batch.bytes.drop u.batch.sendOffset = frameBytes u.pushed

end Uplink

/-! ## What a flush moves -/

namespace FrameBatch

variable {b b' : FrameBatch} {tcp tcp' : TcpClient} {s got : List UInt8}

/-- What leaves the batch is what the connection accepts. -/
theorem Sent.conserved (h : Sent b tcp s got b' tcp') :
    tcp'.accepted ++ b'.bytes.drop b'.sendOffset = tcp.accepted ++ b.bytes.drop b.sendOffset := by
  rw [h.unsent, h.takes.accepted, List.append_assoc]

theorem Drained.conserved (h : Drained b tcp s b' tcp') :
    tcp'.accepted ++ b'.bytes.drop b'.sendOffset = tcp.accepted ++ b.bytes.drop b.sendOffset := by
  rw [h.takes.accepted, h.batch]
  exact List.append_nil _

/-- Without frames or without a connection a flush does nothing. -/
theorem flushTcp_idle (h : b.frames = [] ∨ tcp.connected = false) : b.flushTcp tcp = (false, b, tcp) := by
  unfold flushTcp
  rw [if_pos]
  rcases h with hempty | hdown
  · rw [empty_iff.mpr hempty, Bool.true_or]
  · rw [hdown, Bool.not_false, Bool.or_true]

theorem flushTcpRetry_idle (h : b.frames = [] ∨ tcp.connected = false) (attempts : Nat) :
    (b.flushTcpRetry tcp attempts).2 = (b, tcp) := by
  cases attempts with
  | zero => rfl
  | succ attempts =>
    unfold flushTcpRetry
    simp only [flushTcp_idle h, Bool.false_eq_true, if_false]
    rcases h with hempty | hdown
    · rw [empty_iff.mpr hempty]
      split <;> rfl
    · rw [hdown]
      rfl

/-- What every flush keeps. -/
structure Flushed (b : FrameBatch) (tcp : TcpClient) (b' : FrameBatch) (tcp' : TcpClient) : Prop where
  wf : b'.Wf
  capacity : b'.capacity = b.capacity
  conserved : tcp'.accepted ++ b'.bytes.drop b'.sendOffset = tcp.accepted ++ b.bytes.drop b.sendOffset

theorem Drained.flushed (h : Drained b tcp s b' tcp') (hb : b.Wf) : Flushed b tcp b' tcp' where
  wf := by rw [h.batch]; exact hb.clear
  capacity := by rw [h.batch]; rfl
  conserved := h.conserved

theorem Stalled.flushed (h : Stalled b tcp s got b' tcp') (hb : b.Wf) : Flushed b tcp b' tcp' where
  wf := by
    have hbehind := h.behind
    rw [h.bytes, h.batch] at hbehind
    rw [h.batch]
    exact hb.advance hbehind
  capacity := by rw [h.batch]; rfl
  conserved := h.conserved

/-- A flush has nothing to do, or frames to send on an open connection. -/
theorem idle_or_open (b : FrameBatch) (tcp : TcpClient) :
    (b.frames = [] ∨ tcp.connected = false) ∨ b.frames ≠ [] ∧ ∃ s, tcp.stream = some s := by
  by_cases hempty : b.frames = []
  · exact Or.inl (Or.inl hempty)
  · cases hup : tcp.connected with
    | false => exact Or.inl (Or.inr rfl)
    | true => exact Or.inr ⟨hempty, TcpClient.connected_iff.mp hup⟩

theorem flushed_flushTcp (hb : b.Wf) (tcp : TcpClient) :
    Flushed b tcp (b.flushTcp tcp).2.1 (b.flushTcp tcp).2.2 := by
  rcases idle_or_open b tcp with hidle | ⟨hne, s, hs⟩
  · rw [flushTcp_idle hidle]
    exact ⟨hb, rfl, rfl⟩
  · rcases flushTcp_spec (hb.unsent hne) hs with ⟨_, h⟩ | ⟨_, got, h⟩
    · exact h.flushed hb
    · exact h.flushed hb

theorem flushed_flushTcpRetry (hb : b.Wf) (tcp : TcpClient) (attempts : Nat) :
    Flushed b tcp (b.flushTcpRetry tcp attempts).2.1 (b.flushTcpRetry tcp attempts).2.2 := by
  rcases idle_or_open b tcp with hidle | ⟨hne, s, hs⟩
  · rw [flushTcpRetry_idle hidle]
    exact ⟨hb, rfl, rfl⟩
  · rcases flushTcpRetry_spec attempts (hb.unsent hne) hs with ⟨_, h⟩ | ⟨_, got, h⟩
    · exact h.flushed hb
    · exact h.flushed hb

/-- `flush_tcp` returns `true` when it drains a batch that was not empty, and only then. -/
theorem flushTcp_true_iff (hb : b.Wf) (tcp : TcpClient) :
    (b.flushTcp tcp).1 = true ↔ b.frames ≠ [] ∧ (b.flushTcp tcp).2.1.frames = [] := by
  rcases idle_or_open b tcp with hidle | ⟨hne, s, hs⟩
  · rw [flushTcp_idle hidle]
    exact ⟨nofun, fun h => absurd h.2 h.1⟩
  · rcases flushTcp_spec (hb.unsent hne) hs with ⟨hok, h⟩ | ⟨hok, got, h⟩
    · refine ⟨fun _ => ⟨hne, ?_⟩, fun _ => hok⟩
      rw [h.batch]
      rfl
    · rw [hok, h.frames]
      exact ⟨nofun, fun hdrained => absurd hdrained.2 hne⟩

end FrameBatch

/-! ## Runs -/

namespace Uplink

variable {capacity : Nat} {u : Uplink}

/-- Between two calls. -/
structure Queued (capacity : Nat) (u : Uplink) : Prop where
  wf : u.batch.Wf
  capacity_eq : u.batch.capacity = capacity
  conserved : u.tcp.accepted ++ u.batch.bytes.drop u.batch.sendOffset = frameBytes u.pushed

theorem queued_start (hcapacity : 0 < capacity) (sends : List SendOutcome) : (start capacity sends).Queued capacity :=
  ⟨FrameBatch.wf_make hcapacity, rfl, rfl⟩

theorem Queued.flushed (h : u.Queued capacity) {batch : FrameBatch} {tcp : TcpClient}
    (hflush : FrameBatch.Flushed u.batch u.tcp batch tcp) : Queued capacity { u with batch, tcp } :=
  ⟨hflush.wf, hflush.capacity.trans h.capacity_eq, hflush.conserved.trans h.conserved⟩

theorem Queued.push (h : u.Queued capacity) (sample : SensorSample) : (u.step (.push sample)).Queued capacity := by
  by_cases hroom : u.batch.count < u.batch.capacity
  · have hwf := h.wf.push sample
    simp only [step, FrameBatch.push_of_room hroom, if_true] at hwf ⊢
    refine ⟨hwf, h.capacity_eq, ?_⟩
    -- the new frame comes in behind the cursor
    have hbytes : frameBytes (u.batch.frames ++ [packFrameInto sample]) =
        u.batch.bytes ++ frameBytes [packFrameInto sample] := Blocks.bytesOf_append _ _
    show u.tcp.accepted ++ (frameBytes (u.batch.frames ++ [packFrameInto sample])).drop u.batch.sendOffset =
      frameBytes (u.pushed ++ [packFrameInto sample])
    rw [hbytes, List.drop_append_of_le_length h.wf.offset_le, ← List.append_assoc, h.conserved]
    exact (Blocks.bytesOf_append _ _).symm
  · have hfull : u.batch.full = true := by simpa [FrameBatch.full] using hroom
    have hsame : u.step (.push sample) = u := by simp [step, FrameBatch.push, hfull]
    rw [hsame]
    exact h

theorem Queued.step (h : u.Queued capacity) (call : QueueCall) : (u.step call).Queued capacity := by
  cases call with
  | push sample => exact h.push sample
  | flushTcp => exact h.flushed (FrameBatch.flushed_flushTcp h.wf u.tcp)
  | flushTcpRetry attempts => exact h.flushed (FrameBatch.flushed_flushTcpRetry h.wf u.tcp _)
  | adapt fullySent flushNs =>
    refine ⟨h.wf.adapt fullySent flushNs, ?_, ?_⟩
    · show (u.batch.adapt fullySent flushNs).capacity = capacity
      rw [FrameBatch.capacity_adapt, h.capacity_eq]
    · change u.tcp.accepted ++
        (u.batch.adapt fullySent flushNs).bytes.drop (u.batch.adapt fullySent flushNs).sendOffset = _
      rw [FrameBatch.bytes_adapt, FrameBatch.sendOffset_adapt]
      exact h.conserved

/-- A cursor inside the batch or at its end is all that the counts need. -/
theorem unsent_add {b : FrameBatch} (h : b.sendOffset ≤ wireFrameSize * b.count) :
    b.unsentFrameIndex + b.unsentCount = b.count := by
  have hidx : b.sendOffset / wireFrameSize ≤ b.count := Nat.div_le_of_le_mul h
  rw [FrameBatch.unsentCount_eq, FrameBatch.unsentFrames, List.length_drop]
  exact Nat.add_sub_cancel' hidx

theorem Queued.faithful (h : u.Queued capacity) : u.Faithful capacity := by
  have hoffset : u.batch.sendOffset ≤ wireFrameSize * u.batch.count := by
    rw [← FrameBatch.length_bytes]
    exact h.wf.offset_le
  have htarget : u.batch.flushAt ≤ u.batch.capacity := h.wf.target_le
  exact
    { count_le := by rw [← h.capacity_eq]; exact h.wf.count_le
      offset_le := hoffset
      target_pos := h.wf.target_pos
      target_le := by rw [← h.capacity_eq]; exact htarget
      full_due := by
        intro hfull
        simp only [FrameBatch.full, FrameBatch.shouldFlush, decide_eq_true_eq] at hfull ⊢
        omega
      unsent := unsent_add hoffset
      conserved := h.conserved }

/-- Inside a flush the cursor may come to the end of the batch; the rest is as before. -/
theorem Queued.inFlush (h : u.Queued capacity) (hup : u.tcp.connected = true) (turns : Nat) :
    (u.inFlush turns).Faithful capacity := by
  obtain ⟨s, hs⟩ := TcpClient.connected_iff.mp hup
  have hstart : FrameBatch.Sending.Inv u.batch u.tcp s ⟨u.batch, u.tcp, false⟩ :=
    ⟨⟨[], .refl hs⟩, fun _ => hup, nofun⟩
  have hinv := Runs.whileLoop_inv (fun _ _ hinv hst => (FrameBatch.Sending.step_inv hinv hst).1) turns _ hstart
  obtain ⟨got, hsent⟩ := hinv.sent
  have hbefore := h.faithful
  have hconserved := hsent.conserved.trans h.conserved
  have hoffset : (u.inFlush turns).batch.sendOffset ≤ wireFrameSize * (u.inFlush turns).batch.count := by
    have hlen := hsent.got_prefix.length_le
    have hle := h.wf.offset_le
    rw [List.length_drop] at hlen
    simp only [Uplink.inFlush, hsent.batch, FrameBatch.advance, FrameBatch.count]
    rw [FrameBatch.length_bytes, FrameBatch.count] at hlen hle
    omega
  refine
    { count_le := ?_, offset_le := hoffset, target_pos := ?_, target_le := ?_, full_due := ?_
      unsent := unsent_add hoffset, conserved := hconserved }
  all_goals
    simp only [Uplink.inFlush, hsent.batch]
  · exact hbefore.count_le
  · exact hbefore.target_pos
  · exact hbefore.target_le
  · exact hbefore.full_due

theorem queued_run (hcapacity : 0 < capacity) (sends : List SendOutcome) (calls : List QueueCall) :
    (Runs.run step (start capacity sends) calls).Queued capacity :=
  Runs.run_inv (fun _ call h => h.step call) calls _ (queued_start hcapacity sends)

/-- **The batch is a faithful byte queue**: after every sequence of calls, whatever `send_nb` returns, and between any
two `send_nb` calls of a flush. -/
theorem faithful_run (capacity : Nat) (hcapacity : 1 ≤ capacity) (sends : List SendOutcome) (calls : List QueueCall) :
    let u := Runs.run step (start capacity sends) calls
    u.Faithful capacity ∧
    (u.tcp.connected = true → ∀ turns, (u.inFlush turns).Faithful capacity) ∧
    ((u.batch.flushTcp u.tcp).1 = true ↔ u.batch.frames ≠ [] ∧ (u.batch.flushTcp u.tcp).2.1.frames = []) := by
  intro u
  have h : u.Queued capacity := queued_run hcapacity sends calls
  exact ⟨h.faithful, h.inFlush, FrameBatch.flushTcp_true_iff h.wf u.tcp⟩

/-- Two frames, the first of them half sent, and then a third one. -/
theorem faithful_run_short_write :
    let u := Runs.run step (start 4 [.accepted 12])
      [.push (.numbered 0), .push (.numbered 1), .flushTcp, .push (.numbered 2), .adapt false 0]
    u.Faithful 4 ∧ u.batch.sendOffset = 12 ∧ u.batch.count = 3 ∧ u.tcp.accepted.length = 12 :=
  ⟨(faithful_run 4 (by decide) _ _).1, by decide, by decide, by decide⟩

end Uplink

/-! ## `discard_fully_sent` -/

namespace FrameBatch

variable {b : FrameBatch}

/-- The frames that have not been sent whole: those that end behind the cursor. -/
def owed (b : FrameBatch) : List WireFrame :=
  (b.frames.zipIdx.filter fun p => decide (b.sendOffset < wireFrameSize * (p.2 + 1))).map Prod.fst

/-- What `discard_fully_sent` promises: the owed frames at the front, the cursor at the start, all of them unsent, and
nothing to do for a second call. -/
structure KeepsOwed (b : FrameBatch) : Prop where
  frames : b.discardFullySent.frames = b.owed
  offset : b.discardFullySent.sendOffset = 0
  unsent : b.discardFullySent.unsentCount = b.discardFullySent.count
  again : b.discardFullySent.discardFullySent = b.discardFullySent

/-- The cursor is not inside the first frame. -/
def FirstWhole (b : FrameBatch) : Prop := b.sendOffset = 0 ∨ wireFrameSize ≤ b.sendOffset

instance (b : FrameBatch) : Decidable b.FirstWhole := inferInstanceAs (Decidable (_ ∨ _))

theorem filter_behind {α : Type} (l : List α) {w : Nat} (hw : 0 < w) (n k : Nat) :
    ((l.zipIdx k).filter fun p => decide (n < w * (p.2 + 1))).map Prod.fst = l.drop (n / w - k) := by
  induction l generalizing k with
  | nil => simp
  | cons a l ih =>
    rw [List.zipIdx_cons]
    by_cases hlt : n < w * (k + 1)
    · have hdiv : n / w < k + 1 := Nat.div_lt_of_lt_mul hlt
      rw [List.filter_cons_of_pos (by simpa using hlt), List.map_cons, ih (k + 1),
        show n / w - (k + 1) = 0 by omega, show n / w - k = 0 by omega]
      rfl
    · have hdiv : k + 1 ≤ n / w := (Nat.le_div_iff_mul_le hw).mpr (by rw [Nat.mul_comm]; omega)
      rw [List.filter_cons_of_neg (by simpa using hlt), ih (k + 1),
        show n / w - k = n / w - (k + 1) + 1 by omega]
      rfl

theorem owed_eq (b : FrameBatch) : b.owed = b.unsentFrames := filter_behind b.frames (by decide) b.sendOffset 0

/-- The four regions of the cursor. -/
theorem discard_cases (b : FrameBatch) :
    (b.sendOffset < wireFrameSize ∧ b.discardFullySent = b) ∨
    (wireFrameSize ≤ b.sendOffset ∧ b.count ≤ b.unsentFrameIndex ∧ b.discardFullySent = b.clear) ∨
    (wireFrameSize ≤ b.sendOffset ∧ b.unsentFrameIndex < b.count ∧
      b.discardFullySent = { b with frames := b.unsentFrames, sendOffset := 0 }) := by
  have hfull : b.sendOffset / wireFrameSize = 0 ↔ b.sendOffset < wireFrameSize := Nat.div_eq_zero_iff_lt (by decide)
  unfold discardFullySent
  by_cases hzero : b.sendOffset / wireFrameSize = 0
  · exact Or.inl ⟨hfull.mp hzero, by simp [hzero]⟩
  · have hge : wireFrameSize ≤ b.sendOffset := Nat.not_lt.mp (hzero ∘ hfull.mpr)
    rcases Nat.lt_or_ge b.unsentFrameIndex b.count with hlt | hall
    · have hsome : ¬ b.sendOffset / wireFrameSize ≥ b.count := Nat.not_le.mpr hlt
      exact Or.inr (Or.inr ⟨hge, hlt, by simp [hzero, hsome, unsentFrames, unsentFrameIndex]⟩)
    · have hnone : b.sendOffset / wireFrameSize ≥ b.count := hall
      exact Or.inr (Or.inl ⟨hge, hall, by simp [hzero, hnone]⟩)

/-- The frames are the owed ones whatever the cursor. -/
theorem frames_discard (b : FrameBatch) : b.discardFullySent.frames = b.owed := by
  rw [owed_eq]
  rcases discard_cases b with ⟨hlt, heq⟩ | ⟨_, hall, heq⟩ | ⟨_, _, heq⟩
  · rw [heq, unsentFrames, unsentFrameIndex, Nat.div_eq_of_lt hlt]
    rfl
  · rw [heq, unsentFrames, List.drop_eq_nil_of_le hall]
    rfl
  · rw [heq]

theorem sendOffset_discard (b : FrameBatch) : b.discardFullySent.sendOffset = 0 ↔ b.FirstWhole := by
  unfold FirstWhole
  rcases discard_cases b with ⟨hlt, heq⟩ | ⟨hge, _, heq⟩ | ⟨hge, _, heq⟩
  · rw [heq]
    omega
  · rw [heq]
    exact ⟨fun _ => Or.inr hge, fun _ => rfl⟩
  · rw [heq]
    exact ⟨fun _ => Or.inr hge, fun _ => rfl⟩

/-- Behind the call the cursor is in front of the end of the first frame. -/
theorem offset_discard_lt (b : FrameBatch) : b.discardFullySent.sendOffset < wireFrameSize := by
  rcases discard_cases b with ⟨hlt, heq⟩ | ⟨_, _, heq⟩ | ⟨_, _, heq⟩
  · rw [heq]
    exact hlt
  all_goals
    rw [heq]
    exact Nat.zero_lt_succ _

theorem unsentCount_of_lt (h : b.sendOffset < wireFrameSize) : b.unsentCount = b.count := by
  rw [unsentCount_eq, unsentFrames, unsentFrameIndex, Nat.div_eq_of_lt h]
  rfl

theorem discard_discard (b : FrameBatch) : b.discardFullySent.discardFullySent = b.discardFullySent := by
  have hlt := offset_discard_lt b
  rcases discard_cases b.discardFullySent with ⟨_, heq⟩ | ⟨hge, _⟩ | ⟨hge, _⟩
  · exact heq
  all_goals exact absurd hge (Nat.not_le.mpr hlt)

theorem keepsOwed_iff (b : FrameBatch) : b.KeepsOwed ↔ b.FirstWhole := by
  rw [← sendOffset_discard]
  exact ⟨fun h => h.offset, fun h =>
    ⟨frames_discard b, h, unsentCount_of_lt (offset_discard_lt b), discard_discard b⟩⟩

end FrameBatch

namespace Uplink

/-- The calls that move the cursor. -/
inductive CursorCall
  | queue (call : QueueCall)
  | noteSent (n : UInt64)
  | discardFullySent

def cursorStep (u : Uplink) : CursorCall → Uplink
  | .queue call => u.step call
  | .noteSent n => { u with batch := u.batch.noteSent n }
  | .discardFullySent => { u with batch := u.batch.discardFullySent }

/-- **When `discard_fully_sent` keeps its promise**: in every reachable state it does so if and only if the cursor is
not inside the first frame; along a run, every call does so if and only if the cursor never is at one. The frames, their
number and a second call are as promised in any case. -/
theorem discard_iff (capacity : Nat) (sends : List SendOutcome) (calls : List CursorCall) :
    let b := (Runs.run cursorStep (start capacity sends) calls).batch
    (b.KeepsOwed ↔ b.FirstWhole) ∧
    (Runs.AllSteps cursorStep (fun u call => call = .discardFullySent → u.batch.KeepsOwed) (start capacity sends)
        calls ↔
      Runs.AllSteps cursorStep (fun u call => call = .discardFullySent → u.batch.FirstWhole) (start capacity sends)
        calls) ∧
    b.discardFullySent.frames = b.owed ∧ b.discardFullySent.unsentCount = b.discardFullySent.count ∧
    b.discardFullySent.discardFullySent = b.discardFullySent := by
  intro b
  refine ⟨FrameBatch.keepsOwed_iff b, ?_, FrameBatch.frames_discard b,
    FrameBatch.unsentCount_of_lt (FrameBatch.offset_discard_lt b), FrameBatch.discard_discard b⟩
  exact Runs.allSteps_iff (P := fun _ => True) (fun _ _ _ _ => trivial)
    (fun u call _ => imp_congr_right fun _ => FrameBatch.keepsOwed_iff u.batch) trivial

/-- One frame, half of it sent: the cursor stays inside it. -/
theorem discard_inside :
    let b := (Runs.run cursorStep (start 4 []) [.queue (.push (.numbered 0)), .noteSent 12]).batch
    b.discardFullySent.sendOffset = 12 ∧ ¬ b.KeepsOwed := by
  intro b
  have hoffset : b.discardFullySent.sendOffset = 12 := by decide
  refine ⟨hoffset, ?_⟩
  intro h
  rw [h.offset] at hoffset
  cases hoffset

end Uplink

end ZcMesh.Core
