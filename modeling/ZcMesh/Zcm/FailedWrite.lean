import ZcMesh.Lib.Run
import ZcMesh.Lib.TornLog
import ZcMesh.Zcm.FailedFlush
import ZcMesh.Zcm.Writer

/-!
# Failed writes

A recording of the operator while writes fail: frames are appended by `ZcmWriter.write`, with the caller going on behind
an exception, as `OperatorApp.tick` does. There is no buffer. A write that fails with a part of its frame written leaves
the part, and the position behind it, while the counter stays.

* Behind the header there is the log of the writes, and the counter is the number of those that succeeded (`Logged`,
  `logged_run`).
* So the recording is intact, whatever the frames are, if and only if no write succeeds behind a part. With what
  `FailedFlush.lean` says of `zcmesh_capture`, that is `failed_write_iff`.
-/

namespace ZcMesh

open Blocks (bytesOf)
open TornLog

/-- An image holds the bytes of the frame that it was decoded from. -/
theorem image_view (c : Core.WireFrame) : (view c).image = c.bytes := by
  rw [← encode_view c (b := List.replicate 24 0) List.length_replicate]
  exact (Operator.WireFrame.encode_eq _ List.length_replicate).symm

namespace Operator

/-- A frame with a good checksum; there are no others in the ring. -/
abbrev CheckedFrame := { f : WireFrame // f.crcOk = true }

/-- A `ZcmWriter`, and the history of the frames whose `write` returned. -/
structure Recorder where
  writer : ZcmWriter
  accepted : List CheckedFrame := []

namespace Recorder

def start : Recorder := { writer := { channel := (FileChannel.write {} (ZcmWriter.header 0)).2 } }

/-- It is what the constructor makes. -/
theorem make_eq_start : ZcmWriter.make [] = .ok start.writer := rfl

/-- `write`, with the outcomes of its calls of `channel.write`. -/
def step (s : Recorder) (x : CheckedFrame × List WriteOutcome) : Recorder :=
  let (result, writer) := { s.writer with channel := { s.writer.channel with writes := x.2 } }.write x.1
  match result with
  | .ok () => { writer, accepted := s.accepted ++ [x.1] }
  | .error _ => { s with writer }

/-- The file behind `close`. -/
def file (s : Recorder) : List UInt8 :=
  { s.writer with channel := { s.writer.channel with writes := [] } }.close.2.channel.contents

end Recorder

end Operator

/-! ## The log behind the header -/

section Log

variable {β : Type} {enc : β → List UInt8} {ws : List (β × Outcome Core.wireFrameSize)} {contents : List UInt8}
  {pos : Nat} {count : UInt64} {acc : List β}

/-- Behind the header there is the log of the writes, the position is the end of the file, and the counter and the
history are those of the writes that succeeded. -/
structure Logged (enc : β → List UInt8) (ws : List (β × Outcome Core.wireFrameSize)) (contents : List UInt8) (pos : Nat)
    (count : UInt64) (acc : List β) : Prop where
  log : contents = (Core.zcmHeader 0).bytes ++ content enc ws
  atEnd : pos = contents.length
  counter : count = UInt64.ofNat (accepted ws).length
  history : acc = accepted ws

/-- One more write. -/
theorem Logged.write (h : Logged enc ws contents pos count acc) (henc : ∀ b, (enc b).length = Core.wireFrameSize)
    (b : β) (o : Outcome Core.wireFrameSize) :
    Logged enc (ws ++ [(b, o)]) (contents ++ (enc b).take o.written) (pos + o.written)
      (if o.ok then count + 1 else count) (if o.ok then acc ++ [b] else acc) where
  log := by rw [h.log, content_snoc, List.append_assoc]
  atEnd := by rw [List.length_append, List.length_take, henc, h.atEnd, Nat.min_eq_left o.le]
  counter := by
    rw [accepted_snoc, h.counter]
    cases o.ok with
    | true =>
      rw [if_pos rfl, if_pos rfl, List.length_append, UInt64.ofNat_add]
      rfl
    | false => rw [if_neg Bool.false_ne_true, if_neg Bool.false_ne_true, List.append_nil]
  history := by
    rw [accepted_snoc, h.history]
    cases o.ok with
    | true => rfl
    | false => exact (List.append_nil _).symm

end Log

namespace Operator

/-! ## The loop around `channel.write` -/

/-- What the loop comes to for `n` bytes. -/
def written : List WriteOutcome → (n : Nat) → Outcome n
  | [], n => ⟨n, true, Nat.le_refl n⟩
  | o :: os, n =>
    if n = 0 then ⟨n, true, Nat.le_refl n⟩
    else if o.fails then ⟨min o.written n, false, Nat.min_le_right _ _⟩
    else
      let rest := written os (n - min o.written n)
      { written := min o.written n + rest.written
        ok := rest.ok
        le := by
          have := rest.le
          omega }

/-- The loop ends by itself when all has been written. -/
theorem not_lost_written (os : List WriteOutcome) (n : Nat) : ¬(written os n).Lost := by
  induction os generalizing n with
  | nil => exact fun h => h.2 rfl
  | cons o os ih =>
    rw [written]
    split
    · exact fun h => h.2 rfl
    · split
      · exact fun h => Bool.false_ne_true h.1
      · rintro ⟨hok, hne⟩
        refine ih (n - min o.written n) ⟨hok, fun hall => hne ?_⟩
        show min o.written n + (written os (n - min o.written n)).written = n
        omega

theorem writeFully_nil (k : Nat) (c : FileChannel) : c.writeFully k [] = (.ok (), c) := by
  cases k <;> rfl

theorem put_atEnd {c : FileChannel} (hend : c.position = c.contents.length) (data : List UInt8) :
    c.put data = { c with contents := c.contents ++ data, position := c.position + data.length } := by
  simp [FileChannel.put, hend]

/-- At the end of the file, the bytes that the loop writes are appended. -/
theorem writeFully_spec {k : Nat} {c : FileChannel} (hend : c.position = c.contents.length)
    (hk : c.writes.length < k) (data : List UInt8) :
    ∃ writes, c.writeFully k data =
      (if (written c.writes data.length).ok then .ok () else .error "IOException",
        { contents := c.contents ++ data.take (written c.writes data.length).written
          position := c.position + (written c.writes data.length).written
          writes }) := by
  induction k generalizing c data with
  | zero => exact absurd hk (Nat.not_lt_zero _)
  | succ k ih =>
    by_cases hnil : data = []
    · subst hnil
      have hwritten : written c.writes ([] : List UInt8).length = ⟨0, true, Nat.le_refl 0⟩ := by
        cases c.writes <;> rfl
      rw [writeFully_nil, hwritten]
      exact ⟨c.writes, by simp⟩
    · have hne : data.length ≠ 0 := fun h0 => hnil (List.length_eq_zero_iff.mp h0)
      rw [FileChannel.writeFully, if_neg hnil]
      cases hw : c.writes with
      | nil =>
        simp only [FileChannel.write, hw, List.drop_length, writeFully_nil, put_atEnd hend, written, if_true,
          List.take_length]
        exact ⟨[], rfl⟩
      | cons o os =>
        have hmin : (data.take (min o.written data.length)).length = min o.written data.length := by
          rw [List.length_take, Nat.min_assoc, Nat.min_self]
        cases hfails : o.fails with
        | true =>
          simp only [FileChannel.write, hw, hfails, if_true, written, hne, if_false, Bool.false_eq_true]
          rw [put_atEnd (c := { c with writes := os }) hend, hmin]
          exact ⟨os, rfl⟩
        | false =>
          simp only [FileChannel.write, hw, hfails, Bool.false_eq_true, if_false, written, hne]
          rw [put_atEnd (c := { c with writes := os }) hend, hmin]
          obtain ⟨writes, heq⟩ := ih (c :=
            { contents := c.contents ++ data.take (min o.written data.length)
              position := c.position + min o.written data.length
              writes := os }) (by rw [List.length_append, hmin, hend])
            (by rw [hw, List.length_cons] at hk; exact Nat.lt_of_succ_lt_succ hk)
            (data.drop (min o.written data.length))
          refine ⟨writes, ?_⟩
          rw [heq, List.length_drop]
          simp only [List.append_assoc, Nat.add_assoc, ← List.take_add]

namespace Recorder

def image (f : CheckedFrame) : List UInt8 := f.1.image

theorem length_image (f : CheckedFrame) : (image f).length = Core.wireFrameSize := WireFrame.length_image f.1

/-- The two writers have one header. -/
theorem header_eq (frameCount : Int64) :
    ZcmWriter.header frameCount = (Core.zcmHeader frameCount.toUInt64).bytes := by
  have hmagic : ZcmWriter.MAGIC.toUInt32 = Core.zcmMagic := by decide
  have hversion : ZcmWriter.VERSION.toInt16.toUInt16 = Core.zcmVersion := by decide
  rw [ZcmWriter.header, hmagic, hversion]
  rfl

/-- What `write` comes to. -/
def outcome (os : List WriteOutcome) : Outcome Core.wireFrameSize := written os Core.wireFrameSize

/-- One write at the end of the file. -/
theorem step_eq {s : Recorder} (hopen : s.writer.closed = false)
    (hend : s.writer.channel.position = s.writer.channel.contents.length) (frame : CheckedFrame)
    (os : List WriteOutcome) : ∃ writes, s.step (frame, os) =
      { writer :=
          { channel :=
              { contents := s.writer.channel.contents ++ (image frame).take (outcome os).written
                position := s.writer.channel.position + (outcome os).written
                writes }
            frameCount := if (outcome os).ok then s.writer.frameCount + 1 else s.writer.frameCount
            closed := false }
        accepted := if (outcome os).ok then s.accepted ++ [frame] else s.accepted } := by
  have hbuf : frame.1.encode (List.replicate WireFrame.SIZE 0) = image frame :=
    frame.1.encode_eq List.length_replicate
  obtain ⟨writes, hwrite⟩ : ∃ writes,
      FileChannel.writeFully (os.length + 1)
          { contents := s.writer.channel.contents, position := s.writer.channel.position, writes := os }
          (image frame) =
        (if (outcome os).ok then .ok () else .error "IOException",
          { contents := s.writer.channel.contents ++ (image frame).take (outcome os).written
            position := s.writer.channel.position + (outcome os).written
            writes }) := by
    have hspec := writeFully_spec (c := { s.writer.channel with writes := os }) hend (Nat.lt_succ_self os.length)
      (image frame)
    rw [length_image frame] at hspec
    exact hspec
  refine ⟨writes, ?_⟩
  simp only [Recorder.step, ZcmWriter.write, hopen, frame.2, hbuf, Bool.not_true, Bool.false_eq_true, if_false]
  cases hok : (outcome os).ok with
  | true =>
    rw [if_pos hok] at hwrite
    simp only [hwrite, if_true]
  | false =>
    rw [if_neg (by rw [hok]; exact Bool.false_ne_true)] at hwrite
    simp only [hwrite, Bool.false_eq_true, if_false]

/-- The writes of a run. -/
def writes (xs : List (CheckedFrame × List WriteOutcome)) : List (CheckedFrame × Outcome Core.wireFrameSize) :=
  xs.map fun x => (x.1, outcome x.2)

/-- What the run leaves is the log of its writes, and the writer is open. -/
theorem logged_run (xs : List (CheckedFrame × List WriteOutcome)) :
    (Runs.run step start xs).writer.closed = false ∧
      Logged image (writes xs) (Runs.run step start xs).writer.channel.contents
        (Runs.run step start xs).writer.channel.position (Runs.run step start xs).writer.frameCount.toUInt64
        (Runs.run step start xs).accepted := by
  induction xs using List.reverseRecOn with
  | nil =>
    have hcontents : start.writer.channel.contents = (Core.zcmHeader 0).bytes := by
      simp only [start, FileChannel.write, FileChannel.put, header_eq, List.take_nil, List.drop_nil, List.nil_append,
        List.append_nil]
      rfl
    exact ⟨rfl, by rw [Runs.run_nil, hcontents]; exact (List.append_nil _).symm, rfl, rfl, rfl⟩
  | append_singleton xs x ih =>
    obtain ⟨hopen, hlogged⟩ := ih
    obtain ⟨rest, hstep⟩ := step_eq hopen hlogged.atEnd x.1 x.2
    have hnext := hlogged.write length_image x.1 (outcome x.2)
    rw [Runs.run_snoc, writes, List.map_append, hstep]
    refine ⟨rfl, hnext.log, hnext.atEnd, Eq.trans ?_ hnext.counter, hnext.history⟩
    cases (outcome x.2).ok <;> rfl

/-- `close` leaves the log. -/
theorem file_run (xs : List (CheckedFrame × List WriteOutcome)) :
    (Runs.run step start xs).file =
      (Core.zcmHeader (Runs.run step start xs).writer.frameCount.toUInt64).bytes ++ content image (writes xs) := by
  obtain ⟨hopen, hlogged⟩ := logged_run xs
  generalize Runs.run step start xs = s at hopen hlogged ⊢
  have hfile : s.file = ZcmWriter.header s.writer.frameCount ++
      s.writer.channel.contents.drop (ZcmWriter.header s.writer.frameCount).length := by
    simp only [Recorder.file, ZcmWriter.close, hopen, Bool.false_eq_true, if_false, FileChannel.write,
      FileChannel.put, List.take_zero, List.nil_append, Nat.zero_add]
  rw [hfile, ZcmWriter.length_header, hlogged.log, header_eq]
  exact congrArg _ (List.drop_left' (Core.ZcmHeader.length_bytes _))

/-- The recording of a run is intact when the counter has not wrapped and the accepted frames stand in front. -/
theorem intact_run (xs : List (CheckedFrame × List WriteOutcome)) :
    Intact (Runs.run step start xs).file ((Runs.run step start xs).accepted.map image) ↔
      (TornLog.accepted (writes xs)).length < 2 ^ 64 ∧
        bytesOf image (TornLog.accepted (writes xs)) <+: content image (writes xs) := by
  obtain ⟨_, hlogged⟩ := logged_run xs
  rw [file_run, hlogged.history]
  exact intact_iff_prefix length_image hlogged.counter

/-- **When a recording survives failed writes**: for all outcomes of the writes, the file at the end is intact, whatever
the frames are, if and only if no write succeeds behind one that failed with a part of its frame written (and the
counter of 64 bits does not wrap). -/
theorem intact_iff (os : List (List WriteOutcome)) :
    (∀ xs : List (CheckedFrame × List WriteOutcome), xs.map Prod.snd = os →
      Intact (Runs.run step start xs).file ((Runs.run step start xs).accepted.map image)) ↔
      InOrder (os.map outcome) ∧ (os.map outcome).countP (·.ok) < 2 ^ 64 := by
  have hlater : (view (Core.packFrameInto laterSample)).crcOk = true := by decide +kernel
  have hgolden : (view (Core.packFrameInto goldenSample)).crcOk = true := by decide +kernel
  have hkept : Kept (os.map outcome) := by
    rintro o ho
    obtain ⟨w, -, rfl⟩ := List.mem_map.mp ho
    exact not_lost_written w Core.wireFrameSize
  have hlen : (os.map outcome).length = os.length := List.length_map _
  have hwrites (xs : List (CheckedFrame × List WriteOutcome)) :
      writes xs = (xs.map Prod.fst).zip ((xs.map Prod.snd).map outcome) := by
    rw [List.map_map, List.zip_map']
    rfl
  have hiff := @whatever_iff _ _ length_image ⟨view (Core.packFrameInto laterSample), hlater⟩
    ⟨view (Core.packFrameInto goldenSample), hgolden⟩ (image_view _) (image_view _) (os.map outcome) 0
    fun h => absurd rfl h
  rw [show Kept (os.map outcome) ∧ InOrder (os.map outcome) ↔ InOrder (os.map outcome) from and_iff_right hkept,
    hlen] at hiff
  simp only [List.drop_zero] at hiff
  rw [← hiff]
  constructor
  · intro h bs hbs
    have hfst : (bs.zip os).map Prod.fst = bs := List.map_fst_zip (Nat.le_of_eq hbs)
    have hsnd : (bs.zip os).map Prod.snd = os := List.map_snd_zip (Nat.le_of_eq hbs.symm)
    have hone := (intact_run _).mp (h _ hsnd)
    rwa [hwrites, hfst, hsnd] at hone
  · rintro h xs rfl
    rw [intact_run, hwrites]
    exact h _ (by rw [List.length_map, List.length_map])

end Recorder

end Operator

/-! ## When recordings survive failures -/

/-- **When recordings survive failures**: for every size of the buffer and all flushes in `zcmesh_capture`, and for all
outcomes of the writes in the operator, the file at the end is intact, whatever the frames are, exactly in these
cases. -/
theorem failed_write_iff (size : Core.BufferSize) (ns : List Nat) (os : List (List Operator.WriteOutcome)) :
    ((∀ xs : List (Core.WireFrame × Nat), xs.map Prod.snd = ns →
        Intact (Runs.run Core.Recorder.step (.start size) xs).file
          ((Runs.run Core.Recorder.step (.start size) xs).accepted.map Core.WireFrame.bytes)) ↔
      Core.CleanFlushes size.1 Core.zcmHeaderSize ns ∧
        (Core.outcomes size.1 Core.zcmHeaderSize 0 ns).countP (·.ok) < 2 ^ 64) ∧
    ((∀ xs : List (Operator.CheckedFrame × List Operator.WriteOutcome), xs.map Prod.snd = os →
        Intact (Runs.run Operator.Recorder.step .start xs).file
          ((Runs.run Operator.Recorder.step .start xs).accepted.map Operator.Recorder.image)) ↔
      InOrder (os.map Operator.Recorder.outcome) ∧ (os.map Operator.Recorder.outcome).countP (·.ok) < 2 ^ 64) :=
  ⟨Core.Recorder.intact_iff size ns, Operator.Recorder.intact_iff os⟩

/-- In `zcmesh_capture`, 170 frames fill a buffer of 4096 bytes, and the flush for the next one takes nothing:
`frame_count` is 170, and there is no frame in the file. In the operator, a write fails behind 5 bytes and the next one
is complete: `frameCount` is 1, and the first 24 bytes are no frame. -/
theorem failed_write_corrupts : ∃ golden : Operator.CheckedFrame,
    let s := Runs.run Core.Recorder.step (.start .block)
      (List.replicate 170 (Core.packFrameInto goldenSample, 0) ++ [(Core.packFrameInto goldenSample, 0)])
    let t := Runs.run Operator.Recorder.step .start [(golden, [⟨5, true⟩]), (golden, [⟨24, false⟩])]
    s.ok = 170 ∧ s.accepted = List.replicate 170 (Core.packFrameInto goldenSample) ∧ s.file.length = 16 ∧
      ¬ Intact s.file (s.accepted.map Core.WireFrame.bytes) ∧
    t.writer.frameCount = 1 ∧ t.accepted = [golden] ∧
      ¬ Intact t.file (t.accepted.map Operator.Recorder.image) := by
  have hlen : (List.replicate 170 (Core.packFrameInto goldenSample, 0)).length = 170 := List.length_replicate
  obtain ⟨hacc, hok, hfile⟩ := @Core.Recorder.file_dropped .block
    (List.replicate 170 (Core.packFrameInto goldenSample, 0)) (by rw [hlen]; decide) (by rw [hlen]; decide)
    (Core.packFrameInto goldenSample)
  rw [List.map_replicate] at hacc
  rw [hlen] at hok hfile
  refine ⟨⟨view (Core.packFrameInto goldenSample), by decide +kernel⟩, hok, hacc, ?_, ?_, ?_⟩
  · rw [hfile]
    rfl
  · rw [hfile, hacc, ← List.append_nil (Core.ZcmHeader.bytes _),
      intact_iff_prefix Core.WireFrame.length_bytes (by rw [List.length_replicate])]
    rintro ⟨-, hprefix⟩
    have hle := hprefix.length_le
    rw [Core.length_frames, List.length_replicate] at hle
    exact absurd hle (by decide)
  · decide +kernel

end ZcMesh
