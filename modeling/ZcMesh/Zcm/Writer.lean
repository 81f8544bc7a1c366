import ZcMesh.Wire.JavaFrame

/-!
# The `.zcm` writer of the operator

`operator-node/.../wire/ZcmWriter.java`: the constructor, `write` and `close`, over a file channel whose writes may be
cut short or fail.

While nothing is cut short, the file is the header without frames and the images of the frames written
(`Recorded.write`); `close` puts their number into the header (`Recorded.close`).
-/

namespace ZcMesh.Operator

open LittleEndian (le)

/-! ## The code -/

/-- What a `FileChannel.write` comes to: how many bytes it writes, and whether it throws behind them. -/
structure WriteOutcome where
  written : Nat
  fails : Bool := false
  deriving DecidableEq, Repr

/-- An open `FileChannel`. The calls of `write` take their outcomes from `writes`; once these are used up, every write
is complete. -/
structure FileChannel where
  contents : List UInt8 := []
  position : Nat := 0
  writes : List WriteOutcome := []
  deriving DecidableEq, Repr

namespace FileChannel

/-- Bytes at the position. -/
def put (c : FileChannel) (data : List UInt8) : FileChannel :=
  { c with
    contents := c.contents.take c.position ++ data ++ c.contents.drop (c.position + data.length)
    position := c.position + data.length }

/-- `write(buf)` with `data` remaining: the number of bytes written, or the exception. -/
def write (c : FileChannel) (data : List UInt8) : Except String Nat × FileChannel :=
  match c.writes with
  | [] => (.ok data.length, c.put data)
  | w :: writes =>
    let n := min w.written data.length
    (if w.fails then .error "IOException" else .ok n, { c with writes := writes }.put (data.take n))

/-- `while (buf.hasRemaining()) channel.write(buf)`, in at most `k` turns; no more are needed than there are outcomes,
and one. -/
def writeFully : Nat → FileChannel → List UInt8 → Except String Unit × FileChannel
  | 0, c, _ => (.ok (), c)
  | k + 1, c, data =>
    if data = [] then (.ok (), c)
    else
      match c.write data with
      | (.error e, c) => (.error e, c)
      | (.ok n, c) => writeFully k c (data.drop n)

end FileChannel

/-- `ZcmWriter`. -/
structure ZcmWriter where
  channel : FileChannel
  frameCount : Int64 := 0
  closed : Bool := false
  deriving DecidableEq, Repr

namespace ZcmWriter

/-- `ZcmWriter.MAGIC`. -/
def MAGIC : Int32 := 0x314D435A
/-- `ZcmWriter.VERSION`. -/
def VERSION : Int32 := 1

/-- The 16 bytes that the constructor and `close` put into `hdr`. -/
def header (frameCount : Int64) : List UInt8 :=
  le 4 MAGIC.toUInt32.toNat ++ (le 2 VERSION.toInt16.toUInt16.toNat ++
    (le 2 (0 : Int16).toUInt16.toNat ++ le 8 frameCount.toUInt64.toNat))

/-- `new ZcmWriter(path)`, on an emptied file whose writes come to `writes`. -/
def make (writes : List WriteOutcome) : Except String ZcmWriter :=
  match FileChannel.write { writes := writes } (header 0) with
  | (.error e, _) => .error e
  | (.ok _, channel) => .ok { channel := channel }

/-- `write`: the exception, if there is one, and the writer behind it. -/
def write (w : ZcmWriter) (frame : WireFrame) : Except String Unit × ZcmWriter :=
  if w.closed then (.error "writer closed", w)
  else if !frame.crcOk then (.ok (), w)
  else
    let buf := frame.encode (List.replicate WireFrame.SIZE 0)
    match w.channel.writeFully (w.channel.writes.length + 1) buf with
    | (.error e, channel) => (.error e, { w with channel := channel })
    | (.ok (), channel) => (.ok (), { w with channel := channel, frameCount := w.frameCount + 1 })

/-- `close`. -/
def close (w : ZcmWriter) : Except String Unit × ZcmWriter :=
  if w.closed then (.ok (), w)
  else
    match { w.channel with position := 0 }.write (header w.frameCount) with
    | (.error e, channel) => (.error e, { w with channel := channel })
    | (.ok _, channel) => (.ok (), { w with channel := channel, closed := true })

end ZcmWriter

/-! ## Complete writes -/

@[simp] theorem WireFrame.length_image (f : WireFrame) : f.image.length = WireFrame.SIZE := rfl

theorem ZcmWriter.length_header (frameCount : Int64) : (header frameCount).length = 16 := rfl

/-- The images of frames, one after the other. -/
def images (frames : List WireFrame) : List UInt8 := frames.flatMap WireFrame.image

/-- A complete write at the end of the file. -/
theorem FileChannel.writeFully_complete {c : FileChannel} (hend : c.position = c.contents.length) (hw : c.writes = [])
    {data : List UInt8} (hne : data ≠ []) :
    c.writeFully 1 data =
      (.ok (), { c with contents := c.contents ++ data, position := c.position + data.length }) := by
  have hput : c.put data = { c with contents := c.contents ++ data, position := c.position + data.length } := by
    simp [put, hend]
  simp only [writeFully, hne, if_false, write, hw, hput]

namespace ZcmWriter

/-- The writer is open and has recorded `frames`. -/
structure Recorded (w : ZcmWriter) (frames : List WireFrame) : Prop where
  opened : w.closed = false
  contents : w.channel.contents = header 0 ++ images frames
  position : w.channel.position = w.channel.contents.length
  writes : w.channel.writes = []
  frameCount : w.frameCount = Int64.ofNat frames.length

variable {w : ZcmWriter} {frames : List WireFrame}

theorem recorded_make (h : make [] = .ok w) : Recorded w [] := by
  cases h
  exact ⟨rfl, rfl, rfl, rfl, rfl⟩

/-- **A frame with a good checksum is recorded.** -/
theorem Recorded.write (h : Recorded w frames) {frame : WireFrame} (hcrc : frame.crcOk = true) :
    (w.write frame).1 = .ok () ∧ Recorded (w.write frame).2 (frames ++ [frame]) := by
  have hbuf : frame.encode (List.replicate WireFrame.SIZE 0) = frame.image :=
    frame.encode_eq List.length_replicate
  have hne : frame.image ≠ [] := List.ne_nil_of_length_pos (by rw [WireFrame.length_image]; decide)
  have hwrite := FileChannel.writeFully_complete h.position h.writes hne
  have hresult : w.write frame =
      (.ok (),
        { w with
          channel :=
            { w.channel with
              contents := w.channel.contents ++ frame.image
              position := w.channel.position + frame.image.length }
          frameCount := w.frameCount + 1 }) := by
    simp only [ZcmWriter.write, h.opened, hcrc, hbuf, h.writes, List.length_nil, Nat.zero_add, hwrite, Bool.not_true,
      Bool.false_eq_true, if_false]
  rw [hresult]
  refine ⟨rfl, ?_⟩
  exact
    { opened := h.opened
      contents := by
        show w.channel.contents ++ frame.image = _
        rw [h.contents, images, images, List.flatMap_append, List.flatMap_singleton, List.append_assoc]
      position := by
        show w.channel.position + frame.image.length = (w.channel.contents ++ frame.image).length
        rw [List.length_append, h.position]
      writes := h.writes
      frameCount := by
        show w.frameCount + 1 = _
        rw [h.frameCount, List.length_append, Int64.ofNat_add]
        rfl }

/-- **`close` puts the number of frames into the header.** -/
theorem Recorded.close (h : Recorded w frames) :
    w.close.1 = .ok () ∧ w.close.2.closed = true ∧
      w.close.2.channel.contents = header (Int64.ofNat frames.length) ++ images frames ∧
      w.close.2.frameCount = Int64.ofNat frames.length := by
  have hdrop : w.channel.contents.drop (header (Int64.ofNat frames.length)).length = images frames := by
    rw [h.contents, length_header, ← length_header 0, List.drop_left]
  simp only [ZcmWriter.close, h.opened, Bool.false_eq_true, if_false, FileChannel.write, h.writes, FileChannel.put,
    List.take_zero, List.nil_append, Nat.zero_add, h.frameCount, hdrop, and_self]

end ZcmWriter

end ZcMesh.Operator
