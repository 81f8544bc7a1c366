import ZcMesh.Edge.Net
import ZcMesh.Lib.Blocks
import ZcMesh.Lib.Run
import ZcMesh.Wire.Frame

/-!
# The frame batch

`core-engine/src/batch.cpp`: the frames that wait, the send cursor, which is a byte offset and may stop inside a frame,
and the adaptive flush target.

* The cursor stays in the batch and the target between one and the capacity (`Wf`, kept by `push`, `clear` and the
  others but `noteSent`, which may put the cursor at the end).
* A flush over TCP sends the bytes behind the cursor in order, on the connection that was open: all of them, and the
  batch is empty, or a proper piece, and the cursor stands behind it (`flushTcpRetry_spec`).
-/

namespace ZcMesh.Core

/-- The bytes of the frames. -/
abbrev frameBytes (frames : List WireFrame) : List UInt8 := Blocks.bytesOf WireFrame.bytes frames

/-- `FrameBatch`; `frames` are the `count_` frames in use. -/
structure FrameBatch where
  frames : List WireFrame
  capacity : Nat
  sendOffset : Nat
  flushAt : Nat
  deriving DecidableEq, Repr

namespace FrameBatch

/-! ## The code -/

/-- The constructor. -/
def make (capacityFrames : Nat) : FrameBatch :=
  { frames := [], capacity := capacityFrames, sendOffset := 0, flushAt := capacityFrames }

variable (b : FrameBatch)

def count : Nat := b.frames.length

def empty : Bool := b.count == 0

def full : Bool := decide (b.count ≥ b.capacity)

def shouldFlush : Bool := decide (b.count ≥ b.flushAt)

/-- The memory behind `data`, as far as it is in use. -/
def bytes : List UInt8 := frameBytes b.frames

/-- `push`: `false` for a null pointer. -/
def push (sample : SensorSample) : Bool × FrameBatch :=
  if b.full then (false, b) else (true, { b with frames := b.frames ++ [packFrameInto sample] })

def clear : FrameBatch := { b with frames := [], sendOffset := 0 }

def hasPartialSend : Bool := decide (b.sendOffset > 0)

def unsentFrameIndex : Nat := b.sendOffset / wireFrameSize

def unsentCount : Nat :=
  let idx := b.unsentFrameIndex
  if idx ≥ b.count then 0 else b.count - idx

def unsentFrames : List WireFrame := b.frames.drop b.unsentFrameIndex

/-- TCP has accepted `n` more bytes. -/
def advance (n : Nat) : FrameBatch := { b with sendOffset := b.sendOffset + n }

/-- `note_sent`; the sum is a `size_t`. -/
def noteSent (n : UInt64) : FrameBatch :=
  let total := b.bytes.length
  if b.sendOffset ≥ total then b else { b with sendOffset := min total ((b.sendOffset + n.toNat) % 2 ^ 64) }

/-- `discard_fully_sent`: a cursor inside the first frame stays. -/
def discardFullySent : FrameBatch :=
  let fully := b.sendOffset / wireFrameSize
  if fully == 0 then b
  else if fully ≥ b.count then b.clear
  else { b with frames := b.frames.drop fully, sendOffset := 0 }

/-- `flush_tcp` in its loop; `failed` after the early return. -/
structure Sending where
  batch : FrameBatch
  tcp : TcpClient
  failed : Bool

/-- One turn of the loop of `flush_tcp`. -/
def Sending.step (s : Sending) : Option Sending :=
  if s.failed || decide (s.batch.sendOffset ≥ s.batch.bytes.length) then none
  else
    let (n, tcp) := s.tcp.sendNb (s.batch.bytes.drop s.batch.sendOffset)
    if n ≤ 0 then some { s with tcp, failed := true } else some { s with tcp, batch := s.batch.advance n.toNat }

/-- `flush_tcp`. Every turn of the loop sends a byte or is the last one. -/
def flushTcp (tcp : TcpClient) : Bool × FrameBatch × TcpClient :=
  if b.empty || !tcp.connected then (false, b, tcp)
  else
    let s := Runs.whileLoop Sending.step (b.bytes.length - b.sendOffset + 1) ⟨b, tcp, false⟩
    if s.failed then (false, s.batch, s.tcp) else (true, s.batch.clear, s.tcp)

/-- `flush_tcp_retry`. -/
def flushTcpRetry (b : FrameBatch) (tcp : TcpClient) : Nat → Bool × FrameBatch × TcpClient
  | 0 => (b.empty, b, tcp)
  | attempts + 1 =>
    let (ok, b, tcp) := b.flushTcp tcp
    if ok then (true, b, tcp)
    else if !tcp.connected then (false, b, tcp)
    else if b.empty then (true, b, tcp)
    else flushTcpRetry b tcp attempts

/-- `adapt`. -/
def adapt (fullySent : Bool) (flushNs : UInt64) : FrameBatch :=
  if !fullySent || decide (flushNs > 2000000) then { b with flushAt := max 1 (b.flushAt / 2) }
  else if flushNs < 200000 ∧ b.flushAt < b.capacity then { b with flushAt := min b.capacity (b.flushAt + 1) }
  else b

/-! ## The invariant -/

/-- The frames fit, the cursor is at the start or in front of the last byte, and the flush target can be met. -/
structure Wf (b : FrameBatch) : Prop where
  count_le : b.count ≤ b.capacity
  offset_lt : b.sendOffset = 0 ∨ b.sendOffset < b.bytes.length
  target_pos : 0 < b.flushAt
  target_le : b.flushAt ≤ b.capacity

variable {b}

theorem length_bytes (b : FrameBatch) : b.bytes.length = wireFrameSize * b.count :=
  Blocks.length_bytesOf WireFrame.length_bytes b.frames

theorem wf_make {capacityFrames : Nat} (h : 0 < capacityFrames) : (make capacityFrames).Wf :=
  ⟨Nat.zero_le _, Or.inl rfl, h, Nat.le_refl _⟩

theorem Wf.capacity_pos (h : b.Wf) : 0 < b.capacity := Nat.lt_of_lt_of_le h.target_pos h.target_le

theorem Wf.clear (h : b.Wf) : b.clear.Wf := ⟨Nat.zero_le _, Or.inl rfl, h.target_pos, h.target_le⟩

theorem Wf.adapt (h : b.Wf) (fullySent : Bool) (flushNs : UInt64) : (b.adapt fullySent flushNs).Wf := by
  have hpos := h.target_pos
  have hle := h.target_le
  have hcap := h.capacity_pos
  unfold FrameBatch.adapt
  split
  · exact ⟨h.count_le, h.offset_lt, Nat.le_max_left _ _, Nat.max_le.mpr ⟨hcap, Nat.le_trans (Nat.div_le_self _ 2) hle⟩⟩
  · split
    · exact ⟨h.count_le, h.offset_lt, by show 0 < min _ _; omega, Nat.min_le_left _ _⟩
    · exact h

theorem Wf.advance (h : b.Wf) {n : Nat} (hn : b.sendOffset + n < b.bytes.length) : (b.advance n).Wf :=
  ⟨h.count_le, Or.inr hn, h.target_pos, h.target_le⟩

theorem empty_iff : b.empty = true ↔ b.frames = [] := by rw [empty, beq_iff_eq, count, List.length_eq_zero_iff]

theorem ne_nil_of_not_empty (h : (!b.empty) = true) : b.frames ≠ [] := by
  intro hnil
  rw [empty_iff.mpr hnil] at h
  cases h

theorem Wf.offset_le (h : b.Wf) : b.sendOffset ≤ b.bytes.length := by
  rcases h.offset_lt with h0 | hlt
  · rw [h0]
    exact Nat.zero_le _
  · exact Nat.le_of_lt hlt

theorem Wf.offset_of_empty (h : b.Wf) (hempty : b.frames = []) : b.sendOffset = 0 := by
  rcases h.offset_lt with h0 | hlt
  · exact h0
  · rw [length_bytes, count, hempty] at hlt
    cases hlt

theorem Wf.room_of_empty (h : b.Wf) (hempty : b.frames = []) : b.count < b.capacity := by
  rw [count, hempty]
  exact h.capacity_pos

/-- A batch that is due is not empty. -/
theorem Wf.due (h : b.Wf) (hdue : (b.shouldFlush || b.hasPartialSend || b.full) = true) : b.frames ≠ [] := by
  intro hempty
  have hcount : b.count = 0 := by rw [count, hempty]; rfl
  have hoffset := h.offset_of_empty hempty
  have := h.target_pos
  have := h.capacity_pos
  simp only [shouldFlush, hasPartialSend, full, hcount, hoffset, Bool.or_eq_true, decide_eq_true_eq] at hdue
  omega

/-- There is something to send. -/
theorem Wf.unsent (h : b.Wf) (hne : b.frames ≠ []) : b.sendOffset < b.bytes.length := by
  rcases h.offset_lt with h0 | hlt
  · rw [h0, length_bytes]
    exact Nat.mul_pos (by decide) (List.length_pos_iff.mpr hne)
  · exact hlt

theorem push_of_room (h : b.count < b.capacity) (sample : SensorSample) :
    b.push sample = (true, { b with frames := b.frames ++ [packFrameInto sample] }) := by
  have hfull : b.full = false := by simpa [full] using h
  rw [push, hfull]
  rfl

theorem Wf.push (h : b.Wf) (sample : SensorSample) : (b.push sample).2.Wf := by
  unfold FrameBatch.push
  split
  · exact h
  · rename_i hfull
    have hroom : b.count < b.capacity := by simpa [full] using hfull
    refine ⟨?_, h.offset_lt.imp id ?_, h.target_pos, h.target_le⟩
    · show (b.frames ++ [_]).length ≤ b.capacity
      rw [List.length_append]
      exact hroom
    · intro hlt
      show b.sendOffset < (frameBytes (b.frames ++ [_])).length
      rw [frameBytes, Blocks.bytesOf_append, List.length_append]
      exact Nat.lt_add_right _ hlt

@[simp] theorem frames_adapt (b : FrameBatch) (fullySent : Bool) (flushNs : UInt64) :
    (b.adapt fullySent flushNs).frames = b.frames := by
  unfold adapt
  repeat' split
  all_goals rfl

@[simp] theorem sendOffset_adapt (b : FrameBatch) (fullySent : Bool) (flushNs : UInt64) :
    (b.adapt fullySent flushNs).sendOffset = b.sendOffset := by
  unfold adapt
  repeat' split
  all_goals rfl

@[simp] theorem capacity_adapt (b : FrameBatch) (fullySent : Bool) (flushNs : UInt64) :
    (b.adapt fullySent flushNs).capacity = b.capacity := by
  unfold adapt
  repeat' split
  all_goals rfl

@[simp] theorem bytes_adapt (b : FrameBatch) (fullySent : Bool) (flushNs : UInt64) :
    (b.adapt fullySent flushNs).bytes = b.bytes := by
  rw [bytes, frames_adapt]
  rfl

@[simp] theorem unsentFrames_adapt (b : FrameBatch) (fullySent : Bool) (flushNs : UInt64) :
    (b.adapt fullySent flushNs).unsentFrames = b.unsentFrames := by
  rw [unsentFrames, unsentFrameIndex, frames_adapt, sendOffset_adapt]
  rfl

@[simp] theorem hasPartialSend_adapt (b : FrameBatch) (fullySent : Bool) (flushNs : UInt64) :
    (b.adapt fullySent flushNs).hasPartialSend = b.hasPartialSend := by
  rw [hasPartialSend, sendOffset_adapt]
  rfl

theorem empty_of_unsent (h : b.sendOffset < b.bytes.length) : b.empty = false := by
  rw [length_bytes] at h
  simp only [empty, beq_eq_false_iff_ne]
  intro h0
  simp [h0] at h

theorem unsentCount_eq (b : FrameBatch) : b.unsentCount = b.unsentFrames.length := by
  simp only [unsentCount, unsentFrames, count, List.length_drop, ge_iff_le, ite_eq_right_iff]
  omega

/-- Whatever has been sent whole is discarded, and what is left is the unsent frames, from the first byte on. -/
theorem unsentFrames_discard (h : b.sendOffset < b.bytes.length) :
    b.discardFullySent.unsentFrames = b.unsentFrames := by
  have hidx : b.sendOffset / wireFrameSize < b.count := by
    rw [length_bytes] at h
    exact Nat.div_lt_of_lt_mul h
  unfold discardFullySent
  simp only [beq_iff_eq]
  split
  · rfl
  · rw [if_neg (by omega)]
    simp [unsentFrames, unsentFrameIndex]

@[simp] theorem clear_discard (b : FrameBatch) : b.discardFullySent.clear = b.clear := by
  unfold discardFullySent
  simp only [beq_iff_eq]
  repeat' split
  all_goals rfl

/-! ## The flush over TCP -/

/-- From `(b, tcp)` on the open connection, which had accepted `s`, took `got`: the next bytes behind the cursor. -/
structure Sent (b : FrameBatch) (tcp : TcpClient) (s got : List UInt8) (b' : FrameBatch) (tcp' : TcpClient) : Prop where
  takes : tcp.Takes s got tcp'
  batch : b' = b.advance got.length
  got_prefix : got <+: b.bytes.drop b.sendOffset

/-- Not all the bytes behind the cursor went out. -/
structure Stalled (b : FrameBatch) (tcp : TcpClient) (s got : List UInt8) (b' : FrameBatch) (tcp' : TcpClient) : Prop
    extends Sent b tcp s got b' tcp' where
  behind : b'.sendOffset < b'.bytes.length

/-- All the bytes behind the cursor went out, and the batch is empty. -/
structure Drained (b : FrameBatch) (tcp : TcpClient) (s : List UInt8) (b' : FrameBatch) (tcp' : TcpClient) : Prop where
  takes : tcp.Takes s (b.bytes.drop b.sendOffset) tcp'
  connected : tcp'.connected = true
  batch : b' = b.clear

variable {tcp tcp₁ tcp₂ : TcpClient} {s got more : List UInt8} {b₁ b₂ : FrameBatch}

theorem Sent.refl (h : tcp.stream = some s) : Sent b tcp s [] b tcp := ⟨.refl h, rfl, List.nil_prefix⟩

theorem Sent.frames (h : Sent b tcp s got b₁ tcp₁) : b₁.frames = b.frames := by rw [h.batch]; rfl

theorem Sent.bytes (h : Sent b tcp s got b₁ tcp₁) : b₁.bytes = b.bytes := by rw [FrameBatch.bytes, h.frames]; rfl

theorem Sent.unsent (h : Sent b tcp s got b₁ tcp₁) :
    b.bytes.drop b.sendOffset = got ++ b₁.bytes.drop b₁.sendOffset := by
  obtain ⟨rest, hrest⟩ := h.got_prefix
  rw [h.bytes, h.batch]
  show _ = got ++ b.bytes.drop (b.sendOffset + got.length)
  rw [← List.drop_drop, ← hrest, List.drop_left]

theorem Sent.trans (h₁ : Sent b tcp s got b₁ tcp₁) (hup : tcp₁.connected = true)
    (h₂ : Sent b₁ tcp₁ (s ++ got) more b₂ tcp₂) : Sent b tcp s (got ++ more) b₂ tcp₂ where
  takes := h₁.takes.trans hup h₂.takes
  batch := by rw [h₂.batch, h₁.batch]; simp [advance, Nat.add_assoc]
  got_prefix := by
    rw [h₁.unsent]
    exact (List.prefix_append_right_inj got).mpr h₂.got_prefix

theorem Sent.drained (h₁ : Sent b tcp s got b₁ tcp₁) (hup : tcp₁.connected = true)
    (h₂ : Drained b₁ tcp₁ (s ++ got) b₂ tcp₂) : Drained b tcp s b₂ tcp₂ where
  takes := by rw [h₁.unsent]; exact h₁.takes.trans hup h₂.takes
  connected := h₂.connected
  batch := by rw [h₂.batch, h₁.batch]; rfl

/-- What holds in the loop of `flush_tcp`. -/
structure Sending.Inv (b : FrameBatch) (tcp : TcpClient) (s : List UInt8) (st : Sending) : Prop where
  sent : ∃ got, Sent b tcp s got st.batch st.tcp
  up : st.failed = false → st.tcp.connected = true
  behind : st.failed = true → st.batch.sendOffset < st.batch.bytes.length

/-- The turns that are left, at most. -/
def Sending.left (st : Sending) : Nat := if st.failed then 0 else st.batch.bytes.length - st.batch.sendOffset + 1

/-- One turn of the loop sends a byte or gives up. -/
theorem Sending.step_inv {st st' : Sending} (h : Inv b tcp s st) (hst : st.step = some st') :
    Inv b tcp s st' ∧ st'.left < st.left := by
  obtain ⟨b₁, tcp₁, failed⟩ := st
  obtain ⟨⟨got, hsent⟩, hup, -⟩ := h
  cases failed with
  | true => simp [Sending.step] at hst
  | false =>
    rcases Nat.lt_or_ge b₁.sendOffset b₁.bytes.length with hlt | hge
    · have hdata : b₁.bytes.drop b₁.sendOffset ≠ [] := by simpa using hlt
      obtain ⟨more, htakes, hpre, hzero, hpos⟩ := TcpClient.sendNb_takes (hsent.takes.still (hup rfl)).1 hdata
      rw [Sending.step, if_neg (by simpa using hlt)] at hst
      simp only at hst
      split at hst
      · rename_i hn
        cases hst
        refine ⟨⟨⟨got, ?_⟩, nofun, fun _ => hlt⟩, by simp [Sending.left]⟩
        have hstill : Sent b₁ tcp₁ (s ++ got) more b₁ _ := ⟨htakes, by rw [hzero hn]; rfl, hpre⟩
        have htrans := hsent.trans (hup rfl) hstill
        rwa [hzero hn, List.append_nil] at htrans
      · rename_i hn
        obtain ⟨hlen, hup'⟩ := hpos (Int.not_le.mp hn)
        cases hst
        refine ⟨⟨⟨got ++ more, hsent.trans (hup rfl) ⟨htakes, ?_, hpre⟩⟩, fun _ => hup', nofun⟩, ?_⟩
        · show b₁.advance (Int.toNat _) = _
          rw [hlen, Int.toNat_natCast]
        · show b₁.bytes.length - (b₁.sendOffset + Int.toNat _) + 1 < b₁.bytes.length - b₁.sendOffset + 1
          omega
    · rw [Sending.step, if_pos (by simpa using hge)] at hst
      cases hst

/-- One flush: the connection takes everything, or it stalls. -/
theorem flushTcp_spec (hb : b.sendOffset < b.bytes.length) (h : tcp.stream = some s) :
    ((b.flushTcp tcp).1 = true ∧ Drained b tcp s (b.flushTcp tcp).2.1 (b.flushTcp tcp).2.2) ∨
    ((b.flushTcp tcp).1 = false ∧ ∃ got, Stalled b tcp s got (b.flushTcp tcp).2.1 (b.flushTcp tcp).2.2) := by
  have hup : tcp.connected = true := TcpClient.connected_iff.mpr ⟨s, h⟩
  have hne := empty_of_unsent hb
  obtain ⟨hinv, hend⟩ := Runs.whileLoop_ends (fun _ _ (hinv : Sending.Inv b tcp s _) => Sending.step_inv hinv)
    (b.bytes.length - b.sendOffset + 1) ⟨b, tcp, false⟩ ⟨⟨[], .refl h⟩, fun _ => hup, nofun⟩ (Nat.le_refl _)
  simp only [flushTcp, hne, hup, Bool.not_true, Bool.or_self, Bool.false_eq_true, if_false]
  generalize Runs.whileLoop Sending.step (b.bytes.length - b.sendOffset + 1) ⟨b, tcp, false⟩ = st at hinv hend
  obtain ⟨b₁, tcp₁, failed⟩ := st
  obtain ⟨⟨got, hsent⟩, hup₁, hbehind⟩ := hinv
  cases failed with
  | true => exact Or.inr ⟨rfl, got, hsent, hbehind rfl⟩
  | false =>
    have hall : b₁.bytes.length ≤ b₁.sendOffset := by
      by_contra hlt
      rw [Sending.step, if_neg (by simpa using hlt)] at hend
      simp only at hend
      split at hend <;> cases hend
    have hgot : got = b.bytes.drop b.sendOffset := by
      rw [hsent.unsent, List.drop_eq_nil_of_le hall, List.append_nil]
    exact Or.inl ⟨rfl, by rw [← hgot]; exact hsent.takes, hup₁ rfl, by rw [hsent.batch]; rfl⟩

/-- **The flush with retries**: the connection takes everything, or it stalls. -/
theorem flushTcpRetry_spec (attempts : Nat) (hb : b.sendOffset < b.bytes.length) (h : tcp.stream = some s) :
    ((b.flushTcpRetry tcp attempts).1 = true ∧
      Drained b tcp s (b.flushTcpRetry tcp attempts).2.1 (b.flushTcpRetry tcp attempts).2.2) ∨
    ((b.flushTcpRetry tcp attempts).1 = false ∧
      ∃ got, Stalled b tcp s got (b.flushTcpRetry tcp attempts).2.1 (b.flushTcpRetry tcp attempts).2.2) := by
  induction attempts generalizing b tcp s with
  | zero => exact Or.inr ⟨empty_of_unsent hb, [], .refl h, hb⟩
  | succ attempts ih =>
    rcases flushTcp_spec hb h with ⟨hok, hdrained⟩ | ⟨hok, got, hstalled⟩
    · exact Or.inl (by simpa only [flushTcpRetry, hok, if_true, true_and] using hdrained)
    · simp only [flushTcpRetry, hok, Bool.false_eq_true, if_false]
      cases hup : (b.flushTcp tcp).2.2.connected with
      | false => exact Or.inr ⟨rfl, got, hstalled⟩
      | true =>
        simp only [Bool.not_true, Bool.false_eq_true, if_false, empty_of_unsent hstalled.behind]
        rcases ih hstalled.behind (hstalled.takes.still hup).1 with ⟨hok', hdrained⟩ | ⟨hok', more, hstalled'⟩
        · exact Or.inl ⟨hok', hstalled.drained hup hdrained⟩
        · exact Or.inr ⟨hok', got ++ more, hstalled.trans hup hstalled'.toSent, hstalled'.behind⟩

end FrameBatch

end ZcMesh.Core
