import ZcMesh.Lib.Blocks
import ZcMesh.Stream.File
import ZcMesh.Wire.Frame

/-!
# The `.zcm` file

`shared/zcm_file.h`, `rewrite_header` of `core-engine/src/capture.cpp`, and what the programs that read such a file
need of the system: `fread` on the bytes that are left, and the memory that `operator new` gives.

* The header and its 16 bytes determine each other (`ZcmHeader.ofBytes_bytes`).
* `zcmFile cs` is the header for the frames `cs` and the frames behind it.
* `rewrite_header` replaces the first 16 bytes (`rewriteHeader_complete`).
-/

namespace ZcMesh.Core

open LittleEndian

/-! ## The header -/

/-- `ZCMESH_ZCM_MAGIC`. -/
def zcmMagic : UInt32 := 0x314D435A
/-- `ZCMESH_ZCM_VERSION`. -/
def zcmVersion : UInt16 := 1
/-- `sizeof(zcmesh_zcm_header)`. -/
def zcmHeaderSize : Nat := 16

/-- `zcmesh_zcm_header`. -/
structure ZcmHeader where
  magic : UInt32
  version : UInt16
  reserved : UInt16
  frameCount : UInt64
  deriving DecidableEq, Repr

namespace ZcmHeader

/-- The bytes of the packed header, on a little-endian host. -/
def bytes (hdr : ZcmHeader) : List UInt8 :=
  le 4 hdr.magic.toNat ++ (le 2 hdr.version.toNat ++ (le 2 hdr.reserved.toNat ++ le 8 hdr.frameCount.toNat))

/-- The header that reading 16 bytes gives. -/
def ofBytes (bs : List UInt8) : ZcmHeader where
  magic := UInt32.ofNat (ofLe (slice bs 0 4))
  version := UInt16.ofNat (ofLe (slice bs 4 2))
  reserved := UInt16.ofNat (ofLe (slice bs 6 2))
  frameCount := UInt64.ofNat (ofLe (slice bs 8 8))

@[simp] theorem length_bytes (hdr : ZcmHeader) : hdr.bytes.length = zcmHeaderSize := rfl

theorem ofBytes_bytes (hdr : ZcmHeader) : ofBytes hdr.bytes = hdr := by
  have hcount : UInt64.ofNat (ofLe (le 8 hdr.frameCount.toNat)) = hdr.frameCount := by
    rw [ofLe_le, Nat.mod_eq_of_lt (by simpa using hdr.frameCount.toNat_lt), UInt64.ofNat_toNat]
  have hfields : ofBytes hdr.bytes =
      { magic := UInt32.ofNat (ofLe (le 4 hdr.magic.toNat))
        version := UInt16.ofNat (ofLe (le 2 hdr.version.toNat))
        reserved := UInt16.ofNat (ofLe (le 2 hdr.reserved.toNat))
        frameCount := UInt64.ofNat (ofLe (le 8 hdr.frameCount.toNat)) } := rfl
  rw [hfields, hcount]
  simp only [ofNat16_ofLe, ofNat32_ofLe]

/-- The test of both readers on the magic and the version. -/
def Valid (hdr : ZcmHeader) : Prop := hdr.magic = zcmMagic ∧ hdr.version = zcmVersion

instance (hdr : ZcmHeader) : Decidable hdr.Valid := inferInstanceAs (Decidable (_ ∧ _))

end ZcmHeader

/-- The header of a recording of `frameCount` frames. -/
def zcmHeader (frameCount : UInt64) : ZcmHeader where
  magic := zcmMagic
  version := zcmVersion
  reserved := 0
  frameCount := frameCount

@[simp] theorem frameCount_zcmHeader (frameCount : UInt64) : (zcmHeader frameCount).frameCount = frameCount := rfl

theorem zcmHeader_valid (frameCount : UInt64) : (zcmHeader frameCount).Valid := ⟨rfl, rfl⟩

/-- The file of the frames `cs`. -/
def zcmFile (cs : List WireFrame) : List UInt8 :=
  (zcmHeader (UInt64.ofNat cs.length)).bytes ++ Blocks.bytesOf WireFrame.bytes cs

theorem length_frames (cs : List WireFrame) :
    (Blocks.bytesOf WireFrame.bytes cs).length = wireFrameSize * cs.length :=
  Blocks.length_bytesOf WireFrame.length_bytes cs

/-- Windows of 24 bytes are the bytes of the frames at them. -/
theorem frames_ofBytes {ws : List (List UInt8)} (h : ∀ w ∈ ws, w.length = wireFrameSize) :
    Blocks.bytesOf WireFrame.bytes (ws.map WireFrame.ofBytes) = ws.flatten := by
  induction ws with
  | nil => rfl
  | cons w ws ih =>
    rw [List.map_cons, Blocks.bytesOf_cons, WireFrame.bytes_ofBytes (h w List.mem_cons_self),
      ih fun v hv => h v (List.mem_cons_of_mem w hv), List.flatten_cons]

/-! ## Writing the header -/

/-- `rewrite_header`; `seekOk` tells whether the file can be positioned. -/
def rewriteHeader (f : File) (seekOk : Bool) (frameCount : UInt64) : Bool × File :=
  match f.fseek seekOk with
  | (false, f) => (false, f)
  | (true, f) =>
    let (n, f) := f.fwrite (zcmHeader frameCount).bytes
    (n == zcmHeaderSize, f)

/-- With a complete flush the header stands in the buffer, in front of what was written. -/
theorem rewriteHeader_eq {f : File} (hw : f.flushes = []) (frameCount : UInt64) :
    rewriteHeader f true frameCount =
      (true, { f with stored := f.contents, offset := 0, buffer := (zcmHeader frameCount).bytes }) := by
  have hseek := File.fseek_complete hw
  generalize hheader : (zcmHeader frameCount).bytes = header
  have hlen : header.length = zcmHeaderSize := by rw [← hheader, ZcmHeader.length_bytes]
  have hroom : zcmHeaderSize ≤ f.size.1 := Nat.le_trans (by decide) f.size.2
  have hwrite := @File.fwrite_fits { f with stored := f.contents, offset := 0, buffer := [] } header (by
    rw [hlen, List.length_nil, Nat.zero_add]
    exact hroom)
  rw [rewriteHeader, hseek]
  dsimp only
  rw [hheader, hwrite, hlen, beq_self_eq_true, List.nil_append]

/-- **A complete rewrite replaces the first 16 bytes.** -/
theorem rewriteHeader_complete {f : File} (hw : f.flushes = []) (frameCount : UInt64) :
    (rewriteHeader f true frameCount).1 = true ∧ (rewriteHeader f true frameCount).2.flushes = [] ∧
      (rewriteHeader f true frameCount).2.contents =
        (zcmHeader frameCount).bytes ++ f.contents.drop zcmHeaderSize := by
  rw [rewriteHeader_eq hw]
  refine ⟨rfl, hw, ?_⟩
  rw [File.contents, List.take_zero, List.nil_append, Nat.zero_add, ZcmHeader.length_bytes]

/-! ## Reading -/

/-- `fread(…, 1, n, f)` with the bytes `rest` left in the file: what is read, and what is left then. -/
def fread (rest : List UInt8) (n : Nat) : List UInt8 × List UInt8 := (rest.take n, rest.drop n)

/-- The header comes first, and the frames are left. -/
theorem fread_zcmFile (cs : List WireFrame) : fread (zcmFile cs) zcmHeaderSize =
    ((zcmHeader (UInt64.ofNat cs.length)).bytes, Blocks.bytesOf WireFrame.bytes cs) := by
  rw [fread, zcmFile, ← ZcmHeader.length_bytes (zcmHeader (UInt64.ofNat cs.length)), List.take_left, List.drop_left]

/-- The memory a process can get: the sizes in bytes that `operator new` can give. No object is larger than
`PTRDIFF_MAX`. -/
structure Memory where
  has : Nat → Bool
  has_lt : ∀ n, has n = true → n < 2 ^ 63

/-- A vector of `n` bytes can be built: one without elements takes no memory. Otherwise the constructor (or `reserve`)
throws `std::length_error` or `std::bad_alloc`. -/
def Memory.allocates (mem : Memory) (n : Nat) : Bool := n == 0 || mem.has n

theorem Memory.lt_of_allocates {mem : Memory} {n : Nat} (h : mem.allocates n = true) : n < 2 ^ 63 := by
  rcases Bool.or_eq_true_iff.mp h with h | h
  · rw [beq_iff_eq.mp h]
    exact Nat.two_pow_pos 63
  · exact mem.has_lt n h

/-- How a program ends: with an exit status and its last line on `stderr`, on an exception that nobody catches, on an
access outside of an object; or it goes on waiting for a socket. -/
inductive Ending
  | exit (status : Nat) (message : String)
  | uncaught
  | outOfBounds
  | waiting
  deriving DecidableEq, Repr

end ZcMesh.Core
