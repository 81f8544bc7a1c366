import Mathlib.Data.List.Basic

/-!
# Byte buffers of the operator

What the receiver and the stats server use of `java.nio.ByteBuffer`: `allocateDirect`, `wrap`, a read from a channel
into the buffer, `clear`, `flip`, `slice`, a move of the position, and `compact`. The order of the two indices is a
field of `ByteBuffer`.

While bytes come in, what has been read and not decoded are the bytes in front of the position (`pending`); between
`flip` and `compact` they are those from the position to the limit (`slice`). `pending_compact` leads back.
-/

namespace ZcMesh.Operator

/-- `ByteBuffer`; the capacity is the length of `hb`. -/
structure ByteBuffer where
  hb : List UInt8
  position : Nat
  limit : Nat
  position_le : position ≤ limit
  limit_le : limit ≤ hb.length

namespace ByteBuffer

/-- `ByteBuffer.allocateDirect`. -/
def allocateDirect (capacity : Nat) : ByteBuffer where
  hb := List.replicate capacity 0
  position := 0
  limit := capacity
  position_le := Nat.zero_le _
  limit_le := Nat.le_of_eq List.length_replicate.symm

/-- `ByteBuffer.wrap`. -/
def wrap (bytes : List UInt8) : ByteBuffer where
  hb := bytes
  position := 0
  limit := bytes.length
  position_le := Nat.zero_le _
  limit_le := Nat.le_refl _

variable (b : ByteBuffer)

def capacity : Nat := b.hb.length

def remaining : Nat := b.limit - b.position

/-- `flip`. -/
def flip : ByteBuffer where
  hb := b.hb
  position := 0
  limit := b.position
  position_le := Nat.zero_le _
  limit_le := Nat.le_trans b.position_le b.limit_le

/-- `clear`. -/
def clear : ByteBuffer where
  hb := b.hb
  position := 0
  limit := b.capacity
  position_le := Nat.zero_le _
  limit_le := Nat.le_refl _

/-- `position(int)`, within the limit. -/
def setPosition (p : Nat) (hp : p ≤ b.limit) : ByteBuffer := { b with position := p, position_le := hp }

/-- The bytes that `slice` shows: from the position to the limit. -/
def slice : List UInt8 := (b.hb.take b.limit).drop b.position

/-- `compact`. -/
def compact : ByteBuffer where
  hb := b.slice ++ b.hb.drop b.remaining
  position := b.remaining
  limit := b.capacity
  position_le := by
    have := b.limit_le
    simp only [remaining, capacity]
    omega
  limit_le := by
    have := b.limit_le
    simp only [capacity, slice, remaining, List.length_append, List.length_drop, List.length_take]
    omega

/-- `SocketChannel.read(buf)`, when `data` has come in: as much of it as there is room for. -/
def read (data : List UInt8) : ByteBuffer where
  hb := b.hb.take b.position ++ data.take b.remaining ++ b.hb.drop (b.position + min b.remaining data.length)
  position := b.position + min b.remaining data.length
  limit := b.limit
  position_le := by
    have := b.position_le
    simp only [remaining]
    omega
  limit_le := by
    have h1 := b.position_le
    have h2 := b.limit_le
    simp only [remaining, List.length_append, List.length_take, List.length_drop]
    omega

/-- The bytes in front of the position. -/
def pending : List UInt8 := b.hb.take b.position

theorem length_pending : b.pending.length = b.position := by
  have h1 := b.position_le
  have h2 := b.limit_le
  simp only [pending, List.length_take]
  omega

theorem length_slice : b.slice.length = b.remaining := by
  have := b.limit_le
  simp only [slice, remaining, List.length_drop, List.length_take]
  omega

theorem slice_wrap (bytes : List UInt8) : (wrap bytes).slice = bytes := by
  simp [wrap, slice]

theorem slice_setPosition {n : Nat} (h : b.position + n ≤ b.limit) :
    (b.setPosition (b.position + n) h).slice = b.slice.drop n := by
  rw [slice, slice, List.drop_drop]
  rfl

@[simp] theorem position_flip : b.flip.position = 0 := rfl

theorem pending_compact : b.compact.pending = b.slice := by
  have hlen := b.length_slice
  simp only [compact, pending]
  rw [← hlen, List.take_left]

@[simp] theorem capacity_compact : b.compact.capacity = b.capacity := by
  have := b.limit_le
  simp only [capacity, compact, slice, remaining, List.length_append, List.length_drop, List.length_take]
  omega

@[simp] theorem limit_compact : b.compact.limit = b.capacity := rfl

@[simp] theorem capacity_read (data : List UInt8) : (b.read data).capacity = b.capacity := by
  have h1 := b.position_le
  have h2 := b.limit_le
  simp only [capacity, read, remaining, List.length_append, List.length_drop, List.length_take]
  omega

/-- A datagram that does not fit loses its end. -/
theorem slice_receive (datagram : List UInt8) :
    (b.clear.read datagram).flip.slice = datagram.take b.capacity := by
  have hpending : (b.clear.read datagram).pending = datagram.take b.capacity := by
    have hlen : (datagram.take b.capacity).length = min b.capacity datagram.length := List.length_take
    simp only [pending, read, clear, remaining, List.take_zero, List.nil_append, Nat.sub_zero, Nat.zero_add]
    rw [← hlen, List.take_left]
  rw [← hpending, slice, pending]
  rfl

/-- Bytes that fit are all read. -/
theorem pending_read {data : List UInt8} (h : data.length ≤ b.remaining) :
    (b.read data).pending = b.pending ++ data := by
  have hpos : b.position + min b.remaining data.length = (b.hb.take b.position ++ data).length := by
    have := b.length_pending
    simp only [pending] at this
    rw [List.length_append, this, Nat.min_eq_right h]
  simp only [read, pending]
  rw [List.take_of_length_le h, hpos, List.take_left]

end ByteBuffer

end ZcMesh.Operator
