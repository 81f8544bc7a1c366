import Mathlib.Data.List.Basic

/-!
# C streams

A `FILE*` that `fopen` has opened for writing, with its buffer, as the GNU C library keeps it. `fwrite` puts bytes into
the buffer, and when they do not fit it fills the buffer and has it written to the file. Behind that the buffer is
empty, also when `write` has failed with a part of it: what `write` has not taken is gone, although most of it was
reported as written by earlier calls.

While every flush is complete, the bytes in the file and in the buffer together are what was written
(`AtEnd.contents_append`).
-/

namespace ZcMesh.Core

/-- The size of a stream's buffer. `fopen` takes the block size of the file system; `BUFSIZ` is at least 256. -/
abbrev BufferSize := { n : Nat // 256 ≤ n }

/-- The usual one. -/
def BufferSize.block : BufferSize := ⟨4096, by decide⟩

/-- An open file: its bytes, the offset of the file descriptor, and what stands in the buffer for this place. The
flushes to come find in `flushes` how many bytes the calls of `write` take before one fails; once these are used up,
every flush is complete. -/
structure File where
  size : BufferSize := .block
  stored : List UInt8 := []
  offset : Nat := 0
  buffer : List UInt8 := []
  flushes : List Nat := []
  deriving DecidableEq, Repr

namespace File

/-- Write the buffer to the file; whether all of it was written. -/
def flush (f : File) : Bool × File :=
  if f.buffer = [] then (true, f)
  else
    let n := match f.flushes with
      | [] => f.buffer.length
      | m :: _ => min m f.buffer.length
    (n == f.buffer.length,
      { f with
        stored := f.stored.take f.offset ++ f.buffer.take n ++ f.stored.drop (f.offset + n)
        offset := f.offset + n
        buffer := []
        flushes := f.flushes.tail })

/-- `fwrite(data, 1, len, f)`, for fewer bytes than the buffer has: the number of bytes written and the file after
it. -/
def fwrite (f : File) (data : List UInt8) : Nat × File :=
  let room := f.size.1 - f.buffer.length
  if data.length ≤ room then (data.length, { f with buffer := f.buffer ++ data })
  else
    match { f with buffer := f.buffer ++ data.take room }.flush with
    | (false, f) => (room, f)
    | (true, f) => (data.length, { f with buffer := data.drop room })

/-- `fseek(f, 0, SEEK_SET)`, which writes the buffer first; `seekOk` tells whether the file can be positioned. -/
def fseek (f : File) (seekOk : Bool) : Bool × File :=
  match f.flush with
  | (false, f) => (false, f)
  | (true, f) => if !seekOk then (false, f) else (true, { f with offset := 0 })

/-- The bytes of the file behind `fclose`. -/
def fclose (f : File) : List UInt8 := f.flush.2.stored

/-- The bytes of the file and of the buffer. -/
def contents (f : File) : List UInt8 :=
  f.stored.take f.offset ++ f.buffer ++ f.stored.drop (f.offset + f.buffer.length)

/-- What is written goes to the end of the file, and every flush will be complete. -/
def AtEnd (f : File) : Prop := f.offset = f.stored.length ∧ f.flushes = []

instance (f : File) : Decidable f.AtEnd := inferInstanceAs (Decidable (_ ∧ _))

/-- The file behind the writes of `blocks`. -/
def append (f : File) (blocks : List (List UInt8)) : File := blocks.foldl (fun f data => (f.fwrite data).2) f

@[simp] theorem append_nil (f : File) : f.append [] = f := rfl

theorem append_append (f : File) (as bs : List (List UInt8)) : (f.append as).append bs = f.append (as ++ bs) :=
  List.foldl_append.symm

/-! ## One write -/

section Write

variable {f : File} {data : List UInt8}

/-- Bytes for which there is room. -/
theorem fwrite_fits (h : f.buffer.length + data.length ≤ f.size.1) :
    f.fwrite data = (data.length, { f with buffer := f.buffer ++ data }) :=
  if_pos (Nat.le_sub_of_add_le' h)

/-- A flush at the end of the file. -/
theorem flush_atEnd (hend : f.offset = f.stored.length) (hne : f.buffer ≠ []) {m : Nat} {ms : List Nat}
    (hflushes : f.flushes = m :: ms) :
    f.flush = (decide (f.buffer.length ≤ m),
      { f with
        stored := f.stored ++ f.buffer.take m
        offset := f.offset + min m f.buffer.length
        buffer := []
        flushes := ms }) := by
  have hall : (min m f.buffer.length == f.buffer.length) = decide (f.buffer.length ≤ m) := by
    rw [Bool.eq_iff_iff, beq_iff_eq, decide_eq_true_iff]
    omega
  have htake : f.buffer.take (min m f.buffer.length) = f.buffer.take m := by
    rw [← List.take_take, List.take_length]
  rw [flush, if_neg hne]
  simp only [hflushes, hall, htake, hend, List.take_length, List.tail_cons]
  rw [List.drop_of_length_le (Nat.le_add_right _ _), List.append_nil]

variable (hend : f.offset = f.stored.length) (hbuffer : f.buffer.length ≤ f.size.1)
  (hfull : f.size.1 < f.buffer.length + data.length) {m : Nat} {ms : List Nat} (hflushes : f.flushes = m :: ms)
include hend hbuffer hfull hflushes

/-- Bytes for which there is no room have the buffer, filled, written. -/
theorem fwrite_full :
    f.fwrite data =
      if f.size.1 ≤ m then
        (data.length,
          { f with
            stored := f.stored ++ (f.buffer ++ data.take (f.size.1 - f.buffer.length))
            offset := f.offset + f.size.1
            buffer := data.drop (f.size.1 - f.buffer.length)
            flushes := ms })
      else
        (f.size.1 - f.buffer.length,
          { f with
            stored := f.stored ++ (f.buffer ++ data.take (f.size.1 - f.buffer.length)).take m
            offset := f.offset + m
            buffer := []
            flushes := ms }) := by
  have hnot : ¬data.length ≤ f.size.1 - f.buffer.length := by omega
  generalize hfilled : f.buffer ++ data.take (f.size.1 - f.buffer.length) = filled
  have hlen : filled.length = f.size.1 := by
    rw [← hfilled, List.length_append, List.length_take]
    omega
  have hne : filled ≠ [] := List.ne_nil_of_length_pos (by rw [hlen]; exact Nat.lt_of_lt_of_le (by decide) f.size.2)
  have hflush := @flush_atEnd { f with buffer := filled } hend hne m ms hflushes
  rw [fwrite, if_neg hnot, hfilled, hflush, hlen]
  by_cases hm : f.size.1 ≤ m
  · rw [if_pos hm, decide_eq_true hm, List.take_of_length_le (by rw [hlen]; exact hm), Nat.min_eq_right hm]
  · rw [if_neg hm, decide_eq_false hm, Nat.min_eq_left (by omega)]

end Write

/-! ## Complete flushes -/

/-- Without failures a flush stores the contents. -/
theorem flush_complete {f : File} (h : f.flushes = []) :
    f.flush = (true, { f with stored := f.contents, offset := f.offset + f.buffer.length, buffer := [] }) := by
  obtain ⟨size, stored, offset, buffer, flushes⟩ := f
  obtain rfl : flushes = [] := h
  rw [flush]
  split
  · rename_i hempty
    obtain rfl : buffer = [] := hempty
    simp [contents]
  · simp [contents]

theorem fclose_complete {f : File} (h : f.flushes = []) : f.fclose = f.contents := by
  rw [fclose, flush_complete h]

theorem fseek_complete {f : File} (h : f.flushes = []) :
    f.fseek true = (true, { f with stored := f.contents, offset := 0, buffer := [] }) := by
  rw [fseek, flush_complete h]
  rfl

namespace AtEnd

variable {f : File} (h : f.AtEnd)
include h

theorem contents_eq : f.contents = f.stored ++ f.buffer := by
  rw [contents, h.1, List.take_length, List.drop_of_length_le (Nat.le_add_right _ _), List.append_nil]

/-- A write is complete, and its bytes come behind the contents. -/
theorem fwrite (data : List UInt8) :
    (f.fwrite data).1 = data.length ∧ (f.fwrite data).2.AtEnd ∧
      (f.fwrite data).2.contents = f.contents ++ data := by
  have hcontents := h.contents_eq
  simp only [File.fwrite]
  split
  · have hnext : { f with buffer := f.buffer ++ data }.AtEnd := h
    refine ⟨rfl, hnext, ?_⟩
    rw [hnext.contents_eq, hcontents, List.append_assoc]
  · -- the buffer is filled and stored, and the rest of the bytes comes into an empty one
    have hfull : { f with buffer := f.buffer ++ data.take (f.size.1 - f.buffer.length) }.AtEnd := h
    rw [flush_complete hfull.2, hfull.contents_eq]
    have hnext : { f with
        stored := f.stored ++ (f.buffer ++ data.take (f.size.1 - f.buffer.length))
        offset := f.offset + (f.buffer ++ data.take (f.size.1 - f.buffer.length)).length
        buffer := data.drop (f.size.1 - f.buffer.length) }.AtEnd :=
      ⟨by simp only [List.length_append, h.1], h.2⟩
    refine ⟨rfl, hnext, ?_⟩
    rw [hnext.contents_eq, hcontents]
    simp only [List.append_assoc, List.take_append_drop]

theorem append (blocks : List (List UInt8)) :
    (f.append blocks).AtEnd ∧ (f.append blocks).contents = f.contents ++ blocks.flatten := by
  induction blocks generalizing f with
  | nil => exact ⟨h, (List.append_nil _).symm⟩
  | cons data blocks ih =>
    obtain ⟨-, hend, hcontents⟩ := h.fwrite data
    obtain ⟨hend', hcontents'⟩ := ih hend
    refine ⟨hend', hcontents'.trans ?_⟩
    rw [hcontents, List.append_assoc, List.flatten_cons]

/-- **Complete writes fill the file**, in the file and in the buffer. -/
theorem contents_append (blocks : List (List UInt8)) : (f.append blocks).contents = f.contents ++ blocks.flatten :=
  (h.append blocks).2

theorem fwrite_eq (data : List UInt8) : f.fwrite data = (data.length, f.append [data]) :=
  Prod.ext (h.fwrite data).1 rfl

end AtEnd

end File

end ZcMesh.Core
