import ZcMesh.Lib.Run
import ZcMesh.Lib.Search
import ZcMesh.Stream.File
import ZcMesh.Stream.Reference
import ZcMesh.Wire.Codec

/-!
# The TCP decoder of `zcmesh_capture`

`core-engine/src/capture.cpp`: `find_magic`, `append_frame` and `decode_tcp_stream`, and the receive step that appends
a chunk to the stream and decodes it.

* One call does what the reference scan says (`decodeTcpStream_spec`), for a stream that an `int` can measure.
* So do any calls on any chunks (`run_receive`), and cutting the stream does not matter
  (`decodeTcpStream_chunks`). From 2 GiB on `static_cast<int>(stream.size())` is negative and nothing is decoded
  (`decodeTcpStream_huge`).
-/

namespace ZcMesh.Core

open WindowScan (scan)
open Runs (whileLoop run)

/-! ## The code -/

/-- `static_cast<int>` of a size. -/
def toInt (n : Nat) : Int :=
  let w := n % 4294967296
  if w < 2147483648 then w else (w : Int) - 4294967296

/-- `find_magic`; `none` for `-1`. The loop runs from `start` to `len - 24`. -/
def findMagic (data : List UInt8) (len start : Nat) : Option Nat :=
  IndexSearch.firstIndex (fun i => data.getD i 0 == magicLo && data.getD (i + 1) 0 == magicHi) start
    (len + 1 - wireFrameSize - start)

/-- `append_frame`: a short write is not counted. -/
def appendFrame (out : File) (frame : WireFrame) (ok : UInt64) : File × UInt64 :=
  let (n, out) := out.fwrite frame.bytes
  if n ≠ wireFrameSize then (out, ok) else (out, ok + 1)

/-- The TCP side of `zcmesh_capture`: the bytes not decoded yet, the output file and the counters. -/
structure Capture where
  stream : List UInt8
  out : File
  ok : UInt64
  drop : UInt64
  resync : UInt64
  deriving DecidableEq, Repr

/-- The variables of the loop of `decode_tcp_stream`; `broke` records the `break`. -/
structure DecodeLoop where
  pos : Nat
  broke : Bool
  out : File
  ok : UInt64
  drop : UInt64
  resync : UInt64

/-- No magic: keep the last 23 bytes and `break`. -/
def DecodeLoop.noMagic (n : Nat) (l : DecodeLoop) : DecodeLoop :=
  let keep := wireFrameSize - 1
  if keep < n - l.pos then
    { l with resync := l.resync + UInt64.ofNat (n - l.pos - keep), pos := n - keep, broke := true }
  else { l with broke := true }

/-- Pass the bytes in front of the magic. -/
def DecodeLoop.toMagic (magic : Nat) (l : DecodeLoop) : DecodeLoop :=
  if l.pos < magic then { l with resync := l.resync + UInt64.ofNat (magic - l.pos), pos := magic } else l

/-- The window at `pos`: record it, or pass one byte. -/
def DecodeLoop.tryFrame (data : List UInt8) (l : DecodeLoop) : DecodeLoop :=
  let frame := WireFrame.ofBytes (window data l.pos)
  if verifyFrame frame then
    let (out, ok) := appendFrame l.out frame l.ok
    { l with out := out, ok := ok, pos := l.pos + wireFrameSize }
  else { l with drop := l.drop + 1, resync := l.resync + 1, pos := l.pos + 1 }

/-- One turn of the loop of `decode_tcp_stream` over the first `n` bytes; `none` when it is left. -/
def decodeStep (data : List UInt8) (n : Nat) (l : DecodeLoop) : Option DecodeLoop :=
  if l.broke ∨ n < l.pos + wireFrameSize then none
  else
    match findMagic data n l.pos with
    | none => some (l.noMagic n)
    | some magic => some ((l.toMagic magic).tryFrame data)

/-- `decode_tcp_stream`. A negative `n` never enters the loop, so it may as well be `0`. -/
def decodeTcpStream (s : Capture) : Capture :=
  let n := (toInt s.stream.length).toNat
  let l := whileLoop (decodeStep s.stream n) (n + 1)
    { pos := 0, broke := false, out := s.out, ok := s.ok, drop := s.drop, resync := s.resync }
  { stream := s.stream.drop l.pos, out := l.out, ok := l.ok, drop := l.drop, resync := l.resync }

/-- `main`, on `n > 0` bytes from the client: append them to the stream and decode. -/
def receive (s : Capture) (chunk : List UInt8) : Capture := decodeTcpStream { s with stream := s.stream ++ chunk }

/-- Before the first byte. -/
def Capture.fresh (out : File) : Capture := { stream := [], out := out, ok := 0, drop := 0, resync := 0 }

/-! ## The loop and the reference scan -/

theorem toInt_of_lt {n : Nat} (h : n < 2147483648) : toInt n = n := by
  rw [toInt, Nat.mod_eq_of_lt (by omega), if_pos h]

/-- From 2 GiB on the cast is negative. -/
theorem toInt_of_ge {n : Nat} (h : 2147483648 ≤ n) (h' : n < 4294967296) : toInt n < 0 := by
  rw [toInt, Nat.mod_eq_of_lt h', if_neg (by omega)]
  omega

section Loop

variable {data : List UInt8} {out : File} {ok drop resync : UInt64}

/-- The loop has done the part `r` of the reference scan: what is left gives the rest of it. -/
structure Progress (data : List UInt8) (out : File) (ok drop resync : UInt64) (r : WindowScan.Result UInt8)
    (l : DecodeLoop) : Prop where
  pos_le : l.pos ≤ data.length
  done : r.andThen (scan frameSpec (data.drop l.pos)) = scan frameSpec data
  out_eq : l.out = out.append r.frames
  ok_eq : l.ok = ok + UInt64.ofNat r.frames.length
  drop_eq : l.drop = drop + UInt64.ofNat r.rejected
  resync_eq : l.resync = resync + UInt64.ofNat r.skipped
  broke_short : l.broke = true → data.length < l.pos + 24

theorem findMagic_some {n pos magic : Nat} (h : findMagic data n pos = some magic) :
    pos ≤ magic ∧ magic + 24 ≤ n ∧ magicAt data magic = true ∧
      ∀ j, pos ≤ j → j < magic → magicAt data j = false := by
  obtain ⟨hp, h1, h2, hbefore⟩ := IndexSearch.firstIndex_eq_some h
  simp only [wireFrameSize] at h2
  exact ⟨h1, by omega, hp, hbefore⟩

theorem findMagic_none {n pos : Nat} (h : findMagic data n pos = none) (j : Nat) (h1 : pos ≤ j) (h2 : j + 24 ≤ n) :
    magicAt data j = false :=
  IndexSearch.firstIndex_eq_none h j h1 (by simp only [wireFrameSize]; omega)

/-- What a turn adds to the loop is what the scan finds in the bytes it passes. -/
theorem Progress.advance {r : WindowScan.Result UInt8} {l l' : DecodeLoop} (hp : Progress data out ok drop resync r l)
    {q : WindowScan.Result UInt8} (hpos : l'.pos ≤ data.length)
    (hscan : scan frameSpec (data.drop l.pos) = q.andThen (scan frameSpec (data.drop l'.pos)))
    (hout : l'.out = l.out.append q.frames) (hok : l'.ok = l.ok + UInt64.ofNat q.frames.length)
    (hdrop : l'.drop = l.drop + UInt64.ofNat q.rejected) (hresync : l'.resync = l.resync + UInt64.ofNat q.skipped)
    (hbroke : l'.broke = true → data.length < l'.pos + 24) : Progress data out ok drop resync (r.andThen q) l' where
  pos_le := hpos
  done := by
    rw [WindowScan.Result.andThen_assoc, ← hscan]
    exact hp.done
  out_eq := by simp only [WindowScan.Result.andThen, hout, hp.out_eq, File.append_append]
  ok_eq := by
    simp only [WindowScan.Result.andThen, hok, hp.ok_eq, List.length_append, UInt64.ofNat_add, UInt64.add_assoc]
  drop_eq := by simp only [WindowScan.Result.andThen, hdrop, hp.drop_eq, UInt64.ofNat_add, UInt64.add_assoc]
  resync_eq := by simp only [WindowScan.Result.andThen, hresync, hp.resync_eq, UInt64.ofNat_add, UInt64.add_assoc]
  broke_short := hbroke

/-- The last turn of the loop without a magic, over all of `data`. -/
theorem noMagic_eq {l : DecodeLoop} (hfull : l.pos + 24 ≤ data.length) :
    l.noMagic data.length =
      { l with resync := l.resync + UInt64.ofNat (data.length - l.pos - 23), pos := data.length - 23, broke := true } :=
  if_pos (show 23 < data.length - l.pos by omega)

theorem Progress.noMagic {r : WindowScan.Result UInt8} {l : DecodeLoop} (hp : Progress data out ok drop resync r l)
    (hfull : l.pos + 24 ≤ data.length) (hnone : findMagic data data.length l.pos = none) :
    Progress data out ok drop resync (r.andThen ⟨[], 0, data.length - l.pos - 23, []⟩) (l.noMagic data.length) := by
  have hno := findMagic_none hnone
  have hle : l.pos ≤ data.length - 23 := by omega
  have hskip := scan_drop_to hle (by omega) (fun j h1 h2 => hno j h1 (by omega))
  rw [show data.length - 23 - l.pos = data.length - l.pos - 23 by omega] at hskip
  rw [noMagic_eq hfull]
  exact hp.advance (Nat.sub_le _ _) hskip (File.append_nil _).symm (UInt64.add_zero _).symm (UInt64.add_zero _).symm rfl
    fun _ => show data.length < data.length - 23 + 24 by omega

theorem Progress.toMagic {r : WindowScan.Result UInt8} {l : DecodeLoop} (hp : Progress data out ok drop resync r l)
    (hbroke : l.broke = false) {magic : Nat} (hmagic : findMagic data data.length l.pos = some magic) :
    (l.toMagic magic).pos = magic ∧ (l.toMagic magic).broke = false ∧
      Progress data out ok drop resync (r.andThen ⟨[], 0, magic - l.pos, []⟩) (l.toMagic magic) := by
  obtain ⟨h1, h2, _, hbefore⟩ := findMagic_some hmagic
  have hl : l.toMagic magic = { l with resync := l.resync + UInt64.ofNat (magic - l.pos), pos := magic } := by
    unfold DecodeLoop.toMagic
    split
    · rfl
    · have hm : magic = l.pos := by omega
      subst hm
      simp
  rw [hl]
  refine ⟨rfl, hbroke, ?_⟩
  have hpos : magic ≤ data.length := by omega
  exact hp.advance hpos (scan_drop_to h1 (by omega) hbefore) (File.append_nil _).symm (UInt64.add_zero _).symm
    (UInt64.add_zero _).symm rfl fun h => by rw [hbroke] at h; cases h

/-- A window that does not verify: the position moves on by one. -/
theorem Progress.reject {r : WindowScan.Result UInt8} {l : DecodeLoop} (hp : Progress data out ok drop resync r l)
    (hbroke : l.broke = false) (hfull : l.pos + 24 ≤ data.length) (hmark : magicAt data l.pos = true)
    (hv : verifyFrame (.ofBytes (window data l.pos)) = false) :
    Progress data out ok drop resync (r.andThen ⟨[], 1, 1, []⟩) (l.tryFrame data) ∧
      l.pos < (l.tryFrame data).pos := by
  have hwidth : frameSpec.width ≤ (data.drop l.pos).length := by
    simp only [frameSpec_width, List.length_drop]
    omega
  have hmark' : frameSpec.mark ((data.drop l.pos).take frameSpec.width) = true := (mark_window hfull).trans hmark
  have hscan := WindowScan.scan_pass hwidth ((accept_window hfull).trans hv)
  rw [List.drop_drop, hmark', if_pos rfl] at hscan
  have hl : l.tryFrame data = { l with drop := l.drop + 1, resync := l.resync + 1, pos := l.pos + 1 } := by
    simp [DecodeLoop.tryFrame, hv]
  rw [hl]
  have hpos : l.pos + 1 ≤ data.length := by omega
  refine ⟨hp.advance hpos hscan (File.append_nil _).symm (UInt64.add_zero _).symm rfl rfl ?_, Nat.lt_succ_self _⟩
  intro h
  rw [show l.broke = true from h] at hbroke
  cases hbroke

/-- A window that verifies is written: the position moves behind it. -/
theorem Progress.accept (hout : out.AtEnd) {r : WindowScan.Result UInt8} {l : DecodeLoop}
    (hp : Progress data out ok drop resync r l) (hbroke : l.broke = false) (hfull : l.pos + 24 ≤ data.length)
    (hv : verifyFrame (.ofBytes (window data l.pos)) = true) :
    Progress data out ok drop resync (r.andThen ⟨[window data l.pos], 0, 0, []⟩) (l.tryFrame data) ∧
      l.pos < (l.tryFrame data).pos := by
  have hwidth : frameSpec.width ≤ (data.drop l.pos).length := by
    simp only [frameSpec_width, List.length_drop]
    omega
  have hscan := WindowScan.scan_accept hwidth ((accept_window hfull).trans hv)
  rw [List.drop_drop] at hscan
  have hbytes : (WireFrame.ofBytes (window data l.pos)).bytes = window data l.pos :=
    WireFrame.bytes_ofBytes (length_window hfull)
  have hwrite : l.out.fwrite (window data l.pos) = (24, l.out.append [window data l.pos]) := by
    have hend : l.out.AtEnd := by rw [hp.out_eq]; exact (hout.append _).1
    rw [hend.fwrite_eq, length_window hfull]
    rfl
  have hl : l.tryFrame data =
      { l with out := l.out.append [window data l.pos], ok := l.ok + 1, pos := l.pos + 24 } := by
    simp [DecodeLoop.tryFrame, hv, appendFrame, hbytes, hwrite, wireFrameSize]
  rw [hl]
  refine ⟨hp.advance hfull hscan rfl rfl (UInt64.add_zero _).symm (UInt64.add_zero _).symm ?_,
    Nat.lt_add_of_pos_right (by decide)⟩
  intro h
  rw [show l.broke = true from h] at hbroke
  cases hbroke

theorem Progress.tryFrame (hout : out.AtEnd) {r : WindowScan.Result UInt8} {l : DecodeLoop}
    (hp : Progress data out ok drop resync r l) (hbroke : l.broke = false) (hfull : l.pos + 24 ≤ data.length)
    (hmark : magicAt data l.pos = true) :
    (∃ r', Progress data out ok drop resync r' (l.tryFrame data)) ∧ l.pos < (l.tryFrame data).pos := by
  cases hv : verifyFrame (WireFrame.ofBytes (window data l.pos)) with
  | false =>
    obtain ⟨hp', hlt⟩ := hp.reject hbroke hfull hmark hv
    exact ⟨⟨_, hp'⟩, hlt⟩
  | true =>
    obtain ⟨hp', hlt⟩ := hp.accept hout hbroke hfull hv
    exact ⟨⟨_, hp'⟩, hlt⟩

/-- **One turn of the loop makes progress along the reference scan.** -/
theorem decodeStep_progress (hout : out.AtEnd) {r : WindowScan.Result UInt8} {l l' : DecodeLoop}
    (hp : Progress data out ok drop resync r l) (hs : decodeStep data data.length l = some l') :
    (∃ r', Progress data out ok drop resync r' l') ∧ l.pos < l'.pos := by
  unfold decodeStep at hs
  split at hs
  · cases hs
  rename_i hguard
  simp only [not_or, Bool.not_eq_true, wireFrameSize] at hguard
  have hfull : l.pos + 24 ≤ data.length := by omega
  split at hs
  · rename_i hnone
    cases hs
    refine ⟨⟨_, hp.noMagic hfull hnone⟩, ?_⟩
    rw [noMagic_eq hfull]
    show l.pos < data.length - 23
    omega
  · rename_i magic hmagic
    cases hs
    obtain ⟨hpos, hbroke, hp'⟩ := hp.toMagic hguard.1 hmagic
    obtain ⟨h1, h2, hmark, _⟩ := findMagic_some hmagic
    obtain ⟨hr, hlt⟩ := hp'.tryFrame hout hbroke (by omega) (by rw [hpos]; exact hmark)
    exact ⟨hr, by omega⟩

/-- **The loop is the reference scan.** -/
theorem decodeLoop_scan (hout : out.AtEnd) :
    let l := whileLoop (decodeStep data data.length) (data.length + 1) ⟨0, false, out, ok, drop, resync⟩
    let r := scan frameSpec data
    data.drop l.pos = r.rest ∧ l.out = out.append r.frames ∧ l.ok = ok + UInt64.ofNat r.frames.length ∧
      l.drop = drop + UInt64.ofNat r.rejected ∧ l.resync = resync + UInt64.ofNat r.skipped := by
  intro l r
  have hstart : Progress data out ok drop resync (.start []) ⟨0, false, out, ok, drop, resync⟩ :=
    { pos_le := Nat.zero_le _
      done := by simp
      out_eq := by simp [WindowScan.Result.start]
      ok_eq := by simp [WindowScan.Result.start]
      drop_eq := by simp [WindowScan.Result.start]
      resync_eq := by simp [WindowScan.Result.start]
      broke_short := fun h => by cases h }
  -- the position grows with every turn and stays within the stream, so the loop ends by itself
  have hstep : ∀ l₁ l₂, (∃ r₁, Progress data out ok drop resync r₁ l₁) → decodeStep data data.length l₁ = some l₂ →
      (∃ r₂, Progress data out ok drop resync r₂ l₂) ∧ data.length - l₂.pos < data.length - l₁.pos := by
    rintro l₁ l₂ ⟨r₁, hp⟩ hs
    obtain ⟨⟨r₂, hp₂⟩, hlt⟩ := decodeStep_progress hout hp hs
    have := hp₂.pos_le
    exact ⟨⟨r₂, hp₂⟩, by omega⟩
  obtain ⟨⟨r₁, hp⟩, hnone⟩ : (∃ r₁, Progress data out ok drop resync r₁ l) ∧ decodeStep data data.length l = none :=
    Runs.whileLoop_ends hstep (data.length + 1) _ ⟨_, hstart⟩ (by simp only; omega)
  have hshort : (data.drop l.pos).length < frameSpec.width := by
    rw [List.length_drop, frameSpec_width]
    by_contra hc
    have hbroke : l.broke = false := by
      by_contra hb
      have := hp.broke_short (by simpa using hb)
      omega
    unfold decodeStep at hnone
    rw [if_neg (by simp only [wireFrameSize, hbroke, Bool.false_eq_true, false_or]; omega)] at hnone
    split at hnone <;> cases hnone
  have hr : r = { r₁ with rest := data.drop l.pos } := by
    rw [← WindowScan.Result.andThen_start, ← WindowScan.scan_short hshort]
    exact hp.done.symm
  rw [hr]
  exact ⟨rfl, hp.out_eq, hp.ok_eq, hp.drop_eq, hp.resync_eq⟩

end Loop

/-! ## One call -/

/-- The capture after a stretch of the stream with scan result `r`. -/
def Capture.advance (s : Capture) (r : WindowScan.Result UInt8) : Capture where
  stream := r.rest
  out := s.out.append r.frames
  ok := s.ok + UInt64.ofNat r.frames.length
  drop := s.drop + UInt64.ofNat r.rejected
  resync := s.resync + UInt64.ofNat r.skipped

theorem Capture.advance_andThen (s : Capture) (r q : WindowScan.Result UInt8) :
    (s.advance r).advance q = s.advance (r.andThen q) := by
  simp [Capture.advance, WindowScan.Result.andThen, File.append_append, UInt64.add_assoc]

/-- **`decode_tcp_stream` is the reference scan**, on a stream whose size an `int` holds. -/
theorem decodeTcpStream_spec {s : Capture} (hlen : s.stream.length < 2147483648) (hout : s.out.AtEnd) :
    decodeTcpStream s = s.advance (scan frameSpec s.stream) := by
  have hn : (toInt s.stream.length).toNat = s.stream.length := by rw [toInt_of_lt hlen, Int.toNat_natCast]
  obtain ⟨hrest, ho, hok, hdrop, hresync⟩ :=
    @decodeLoop_scan s.stream s.out s.ok s.drop s.resync hout
  simp only [decodeTcpStream, hn, Capture.advance, hrest, ho, hok, hdrop, hresync]

/-- A stream whose size the cast makes negative is not touched. -/
theorem decodeTcpStream_of_ge {s : Capture} (hlen : 2147483648 ≤ s.stream.length)
    (hlen' : s.stream.length < 4294967296) :
    decodeTcpStream s = s := by
  have hn : (toInt s.stream.length).toNat = 0 := Int.toNat_eq_zero.mpr (toInt_of_ge hlen hlen').le
  simp [decodeTcpStream, hn, whileLoop, decodeStep, wireFrameSize]

/-! ## Any number of calls -/

/-- The cast of the stream's size is exact in the next call. -/
def Fits (s : Capture) (chunk : List UInt8) : Prop := s.stream.length + chunk.length < 2147483648

theorem receive_spec {s : Capture} {chunk : List UInt8} (hfit : Fits s chunk) (hout : s.out.AtEnd) :
    receive s chunk = s.advance (scan frameSpec (s.stream ++ chunk)) :=
  decodeTcpStream_spec (by rw [List.length_append]; exact hfit) hout

/-- **Calls in a row are one scan.** -/
theorem run_receive {out : File} (hout : out.AtEnd) {chunks : List (List UInt8)} :
    Runs.AllSteps receive Fits (.fresh out) chunks →
      run receive (.fresh out) chunks = (Capture.fresh out).advance (scan frameSpec chunks.flatten) := by
  induction chunks using List.reverseRecOn with
  | nil =>
    intro _
    simp [WindowScan.scan_short (S := frameSpec) (s := []) (by decide), WindowScan.Result.start, Capture.advance,
      Capture.fresh]
  | append_singleton chunks chunk ih =>
    intro hfit
    obtain ⟨hbefore, hlast, _⟩ := Runs.allSteps_append.mp hfit
    rw [ih hbefore] at hlast
    rw [Runs.run_snoc, ih hbefore, receive_spec hlast (hout.append _).1, Capture.advance_andThen, List.flatten_append,
      List.flatten_singleton, WindowScan.scan_append chunks.flatten chunk]
    rfl

/-- Chunks that leave room for 23 more bytes fit. -/
theorem allSteps_fits_of_chunks {out : File} (hout : out.AtEnd) {chunks : List (List UInt8)}
    (h : ∀ c ∈ chunks, c.length + 23 < 2147483648) : Runs.AllSteps receive Fits (.fresh out) chunks := by
  apply Runs.allSteps_of_prefix
  intro fed chunk hfed hbefore
  have hlast := h chunk (hfed.subset (by simp))
  have hrest := WindowScan.scan_rest_lt (S := frameSpec) fed.flatten
  rw [frameSpec_width] at hrest
  rw [run_receive hout hbefore]
  show (scan frameSpec fed.flatten).rest.length + chunk.length < 2147483648
  omega

/-- So do the chunks of a short stream. -/
theorem allSteps_fits_of_flatten {out : File} (hout : out.AtEnd) {chunks : List (List UInt8)}
    (h : chunks.flatten.length < 2147483648) : Runs.AllSteps receive Fits (.fresh out) chunks := by
  apply Runs.allSteps_of_prefix
  intro fed chunk hfed hbefore
  obtain ⟨later, rfl⟩ := hfed
  simp only [List.flatten_append, List.length_append, List.flatten_singleton] at h
  have hbalance := WindowScan.scan_balance (S := frameSpec) fed.flatten
  rw [run_receive hout hbefore]
  show (scan frameSpec fed.flatten).rest.length + chunk.length < 2147483648
  omega

/-- What was fed is 24 bytes for each frame, the bytes passed and the leftover: as 64-bit words, and as numbers while
the counters hold them. -/
def LosesNothing (out : File) (fed : List (List UInt8)) : Prop :=
  let s := run receive (.fresh out) fed
  s.stream.length ≤ 23 ∧
    UInt64.ofNat fed.flatten.length = 24 * s.ok + s.resync + UInt64.ofNat s.stream.length ∧
    (fed.flatten.length < 18446744073709551616 →
      fed.flatten.length = 24 * s.ok.toNat + s.resync.toNat + s.stream.length)

theorem losesNothing_of_fits {out : File} (hout : out.AtEnd) {fed : List (List UInt8)}
    (hfit : Runs.AllSteps receive Fits (.fresh out) fed) : LosesNothing out fed := by
  have hbalance := WindowScan.scan_balance (S := frameSpec) fed.flatten
  have hrest := WindowScan.scan_rest_lt (S := frameSpec) fed.flatten
  rw [frameSpec_width] at hbalance hrest
  unfold LosesNothing
  rw [run_receive hout hfit]
  simp only [Capture.advance, Capture.fresh, UInt64.zero_add]
  refine ⟨by omega, ?_, ?_⟩
  · rw [hbalance]
    simp only [UInt64.ofNat_add, UInt64.ofNat_mul]
    rfl
  · intro hsmall
    rw [UInt64.toNat_ofNat_of_lt' (by show _ < 18446744073709551616; omega),
      UInt64.toNat_ofNat_of_lt' (by show _ < 18446744073709551616; omega)]
    exact hbalance

/-- The file grows by the windows of the reference scan, in order, and `ok` counts them. -/
def EmitsScan (out : File) (chunks : List (List UInt8)) : Prop :=
  let s := run receive (.fresh out) chunks
  let frames := (scan frameSpec chunks.flatten).frames
  s.out.contents = out.contents ++ frames.flatten ∧ s.ok = UInt64.ofNat frames.length

/-- The chunks do not matter: the windows of the reference scan come out, the state is that of one call on everything,
and no byte is lost after any call. -/
def ChunkIndependent (out : File) (chunks : List (List UInt8)) : Prop :=
  EmitsScan out chunks ∧ run receive (.fresh out) chunks = receive (.fresh out) chunks.flatten ∧
    ∀ fed, fed <+: chunks → LosesNothing out fed

/-- **The decoder is independent of chunking** while the casts are exact: in the calls on the chunks, and for the
comparison in the one call on everything. -/
theorem decodeTcpStream_chunks {out : File} (hout : out.AtEnd) {chunks : List (List UInt8)}
    (hfit : Runs.AllSteps receive Fits (.fresh out) chunks) :
    EmitsScan out chunks ∧
      (Fits (.fresh out) chunks.flatten → run receive (.fresh out) chunks = receive (.fresh out) chunks.flatten) ∧
      ∀ fed, fed <+: chunks → LosesNothing out fed := by
  refine ⟨?_, ?_, ?_⟩
  · rw [EmitsScan, run_receive hout hfit]
    exact ⟨hout.contents_append _, UInt64.zero_add _⟩
  · intro hone
    rw [run_receive hout hfit, receive_spec hone hout]
    rfl
  · rintro fed ⟨later, rfl⟩
    exact losesNothing_of_fits hout (Runs.allSteps_append.mp hfit).1

/-- One frame in two pieces, with garbage in front. -/
theorem decodeTcpStream_chunks_golden :
    ChunkIndependent {} [0x43 :: goldenFrame.take 9, goldenFrame.drop 9] := by
  have hout : ({} : File).AtEnd := by decide
  have hfit : Runs.AllSteps receive Fits (.fresh {}) [0x43 :: goldenFrame.take 9, goldenFrame.drop 9] :=
    allSteps_fits_of_flatten hout (by decide +kernel)
  obtain ⟨hemits, hone, hfed⟩ := decodeTcpStream_chunks hout hfit
  exact ⟨hemits, hone (by unfold Fits; decide +kernel), hfed⟩

/-- From 2 GiB on in one call it is not: nothing is decoded. -/
theorem decodeTcpStream_huge : ¬ChunkIndependent {} [List.replicate 2147483648 0] := by
  rintro ⟨-, -, hfed⟩
  have hlen : (List.replicate 2147483648 (0 : UInt8)).length = 2147483648 := List.length_replicate
  generalize List.replicate 2147483648 (0 : UInt8) = chunk at hfed hlen
  have hrun : run receive (.fresh {}) [chunk] = { Capture.fresh {} with stream := chunk } :=
    decodeTcpStream_of_ge (s := { Capture.fresh {} with stream := chunk }) (by rw [hlen])
      (by rw [hlen]; decide)
  have hshort := (hfed [chunk] (List.prefix_refl _)).1
  rw [hrun] at hshort
  simp only [hlen] at hshort
  omega

end ZcMesh.Core
