import Mathlib.Data.UInt
import ZcMesh.Lib.Run
import ZcMesh.Lib.Search
import ZcMesh.Stats.Pipeline
import ZcMesh.Stream.ByteBuffer
import ZcMesh.Stream.Reference
import ZcMesh.Wire.Codec

/-!
# The TCP decoder of the operator

`operator-node/.../net/FrameReceiver.java`: `findMagic`, `decodeStream` and `readTcp` over one TCP buffer.

* One call offers the frames of the reference scan, counts its rejections and keeps its rest, but of the bytes passed
  it leaves out those behind the last magic (`decodeStream_spec`); there are some exactly when the scan ends on an
  unmarked window. The step lemma is `decodeStep_progress`.
* Any reads are one scan (`run_readTcp`).
* The bytes balance after every read exactly when no read ends on an unmarked window (`balanced_iff`).
-/

namespace ZcMesh.Operator

open WindowScan (scan EndsUnmarked unmarkedTail)
open Runs (whileLoop run)

/-! ## The code -/

/-- `findMagic`; `none` for `-1`. The loop runs from `start` to `limit - 24`. -/
def findMagic (buf : ByteBuffer) (start : Nat) : Option Nat :=
  let lo := (WireFrame.MAGIC &&& 0xFF).toInt8
  let hi := ((WireFrame.MAGIC >>> 8) &&& 0xFF).toInt8
  IndexSearch.firstIndex (fun i => get buf.hb i == lo && get buf.hb (i + 1) == hi) start
    (buf.limit + 1 - WireFrame.SIZE - start)

/-- What is found lies within the buffer. -/
theorem findMagic_le {buf : ByteBuffer} {start k : Nat} (h : findMagic buf start = some k) : k ≤ buf.limit := by
  obtain ⟨_, h1, h2, _⟩ := IndexSearch.firstIndex_eq_some h
  simp only [WireFrame.SIZE] at h2
  omega

/-- One TCP connection of the receiver: its buffer, the pipeline, the frames offered so far (in order), and an
exception that has ended the thread. -/
structure Receiver where
  buf : ByteBuffer
  pipeline : TelemetryPipeline
  offered : List WireFrame := []
  threw : Option String := none

/-- The receiver in the loop of `decodeStream`; `broke` records the `break`. -/
structure DecodeLoop extends Receiver where
  broke : Bool

/-- No magic: keep at most 23 bytes and `break`. -/
def DecodeLoop.noMagic (l : DecodeLoop) : DecodeLoop :=
  let keep := min l.buf.remaining (WireFrame.SIZE - 1)
  { l with buf := l.buf.setPosition (l.buf.limit - keep) (Nat.sub_le _ _), broke := true }

/-- Go on at the magic. -/
def DecodeLoop.toMagic (l : DecodeLoop) (found : Nat) (h : found ≤ l.buf.limit) : DecodeLoop :=
  { l with
    pipeline := l.pipeline.noteTcpResync (found - l.buf.position)
    buf := l.buf.setPosition found h }

/-- The window at the position, behind a magic: offer it, or pass one byte. -/
def DecodeLoop.tryFrame (l : DecodeLoop) (h : l.buf.position + WireFrame.SIZE ≤ l.buf.limit) : DecodeLoop :=
  match WireFrame.decode (l.buf.slice.take WireFrame.SIZE) with
  | .error msg => { l with threw := some msg }
  | .ok frame =>
    if !frame.crcOk then
      { l with
        pipeline := l.pipeline.noteCrcFail.noteTcpResync 1
        buf := l.buf.setPosition (l.buf.position + 1) (by simp only [WireFrame.SIZE] at h; omega) }
    else
      { l with
        pipeline := l.pipeline.offer frame
        offered := l.offered ++ [frame]
        buf := l.buf.setPosition (l.buf.position + WireFrame.SIZE) h }

/-- One turn of the loop of `decodeStream`; `none` when it is left. -/
def decodeStep (l : DecodeLoop) : Option DecodeLoop :=
  if h : l.broke = false ∧ l.threw = none ∧ l.buf.position + WireFrame.SIZE ≤ l.buf.limit then
    if shortToUnsignedInt (getShort l.buf.hb l.buf.position) ≠ WireFrame.MAGIC then
      match hf : findMagic l.buf l.buf.position with
      | none => some l.noMagic
      | some found => some (l.toMagic found (findMagic_le hf))
    else some (l.tryFrame h.2.2)
  else none

/-- `decodeStream`. -/
def decodeStream (r : Receiver) : Receiver :=
  let l := whileLoop decodeStep (r.buf.position + 1) { r with buf := r.buf.flip, broke := false }
  match l.threw with
  | some _ => l.toReceiver
  | none => { l.toReceiver with buf := l.buf.compact }

/-- `readTcp`, when `data` has come in. -/
def readTcp (r : Receiver) (data : List UInt8) : Receiver :=
  match r.threw with
  | some _ => r
  | none => decodeStream { r with buf := r.buf.read data }

/-- `accept`: a connection with an empty buffer of 256 KiB. -/
def accept (pipeline : TelemetryPipeline) : Receiver :=
  { buf := ByteBuffer.allocateDirect (256 * 1024), pipeline := pipeline }

/-! ## What the comparisons see -/

theorem get_eq {b : List UInt8} {i : Nat} (h : i < b.length) : get b i = (b.getD i 0).toInt8 := by
  have hslice : LittleEndian.slice b i 1 = [b[i]] := by
    rw [LittleEndian.slice, ← List.getElem_cons_drop h]
    rfl
  have hg : b.getD i 0 = b[i] := by simp [h]
  rw [get, hslice, hg]
  simp [LittleEndian.ofLe]

theorem toInt8_inj {x y : UInt8} : x.toInt8 = y.toInt8 ↔ x = y := by
  constructor
  · intro h
    have := congrArg Int8.toUInt8 h
    simpa using this
  · exact congrArg _

/-- The byte test of `findMagic`. -/
theorem magicAt_bytes {b : List UInt8} {i : Nat} (h : i + 1 < b.length) :
    (get b i == (WireFrame.MAGIC &&& 0xFF).toInt8 && get b (i + 1) == ((WireFrame.MAGIC >>> 8) &&& 0xFF).toInt8) =
      magicAt b i := by
  have hlo : (WireFrame.MAGIC &&& 0xFF).toInt8 = magicLo.toInt8 := by decide
  have hhi : ((WireFrame.MAGIC >>> 8) &&& 0xFF).toInt8 = magicHi.toInt8 := by decide
  rw [hlo, hhi, get_eq (by omega), get_eq h, magicAt, Bool.eq_iff_iff]
  simp only [Bool.and_eq_true, beq_iff_eq, toInt8_inj]

/-- The short test of `decodeStream`. -/
theorem magicAt_short {b : List UInt8} {i : Nat} (h : i + 1 < b.length) :
    shortToUnsignedInt (getShort b i) = WireFrame.MAGIC ↔ magicAt b i = true := by
  have hslice : LittleEndian.slice b i 2 = [b[i], b[i + 1]] := by
    rw [LittleEndian.slice, ← List.getElem_cons_drop (show i < b.length by omega), ← List.getElem_cons_drop h]
    rfl
  have h0 : b.getD i 0 = b[i] := by simp [show i < b.length by omega]
  have h1 : b.getD (i + 1) 0 = b[i + 1] := by simp [h]
  rw [getShort, hslice, magic_iff, magicAt, h0, h1]
  simp only [Bool.and_eq_true, beq_iff_eq, ← UInt16.toNat_inj, ← UInt8.toNat_inj, UInt16.toNat_ofNat',
    LittleEndian.ofLe, Core.wireMagic, magicLo, magicHi]
  have hx := b[i].toNat_lt
  have hy := b[i + 1].toNat_lt
  simp only [UInt16.reduceToNat, UInt8.reduceToNat]
  omega

theorem magicAt_take {b : List UInt8} {i n : Nat} (h : i + 1 < n) : magicAt (b.take n) i = magicAt b i := by
  have h0 : (b.take n).getD i 0 = b.getD i 0 := by simp [show i < n by omega]
  have h1 : (b.take n).getD (i + 1) 0 = b.getD (i + 1) 0 := by simp [h]
  rw [magicAt, magicAt, h0, h1]

/-! ## What the receiver tells the pipeline -/

theorem noteTcpResync_counts (p : TelemetryPipeline) (n : Nat) :
    (p.noteTcpResync n).tcpResync.toUInt64 = p.tcpResync.toUInt64 + UInt64.ofNat n ∧
      (p.noteTcpResync n).framesCrcFail = p.framesCrcFail ∧ (p.noteTcpResync n).framesOk = p.framesOk := by
  unfold TelemetryPipeline.noteTcpResync
  split
  · exact ⟨Int64.toUInt64_add _ _, rfl, rfl⟩
  · have hn : n = 0 := by omega
    subst hn
    exact ⟨(UInt64.add_zero _).symm, rfl, rfl⟩

theorem offer_counts (p : TelemetryPipeline) {f : WireFrame} (h : f.crcOk = true) :
    (p.offer f).tcpResync = p.tcpResync ∧ (p.offer f).framesCrcFail = p.framesCrcFail ∧
      (p.offer f).framesOk = p.framesOk + 1 := by
  simp [TelemetryPipeline.offer, TelemetryPipeline.nanoTime, h]

/-- The pipeline has been told of the scan result `q`, but for `lost` of the bytes passed. -/
structure Counted (r₀ : Receiver) (q : WindowScan.Result UInt8) (lost : Nat) (r : Receiver) : Prop where
  lost_le : lost ≤ q.skipped
  offered : r.offered = r₀.offered ++ q.frames.map fun f => view (Core.WireFrame.ofBytes f)
  framesOk : r.pipeline.framesOk.toUInt64 = r₀.pipeline.framesOk.toUInt64 + UInt64.ofNat q.frames.length
  crcFail : r.pipeline.framesCrcFail.toUInt64 = r₀.pipeline.framesCrcFail.toUInt64 + UInt64.ofNat q.rejected
  resync : r.pipeline.tcpResync.toUInt64 = r₀.pipeline.tcpResync.toUInt64 + UInt64.ofNat (q.skipped - lost)

theorem Counted.start (r : Receiver) (s : List UInt8) : Counted r (.start s) 0 r where
  lost_le := Nat.le_refl 0
  offered := (List.append_nil _).symm
  framesOk := (UInt64.add_zero _).symm
  crcFail := (UInt64.add_zero _).symm
  resync := (UInt64.add_zero _).symm

/-- What one receiver state after another tells adds up. -/
theorem Counted.trans {r₀ r₁ r₂ : Receiver} {q q' : WindowScan.Result UInt8} {lost lost' : Nat}
    (h : Counted r₀ q lost r₁) (h' : Counted r₁ q' lost' r₂) : Counted r₀ (q.andThen q') (lost + lost') r₂ where
  lost_le := Nat.add_le_add h.lost_le h'.lost_le
  offered := by simp [WindowScan.Result.andThen, h'.offered, h.offered]
  framesOk := by simp [WindowScan.Result.andThen, h'.framesOk, h.framesOk, UInt64.add_assoc]
  crcFail := by simp [WindowScan.Result.andThen, h'.crcFail, h.crcFail, UInt64.add_assoc]
  resync := by
    have h1 := h.lost_le
    have h2 := h'.lost_le
    have hsum : q.skipped + q'.skipped - (lost + lost') = (q.skipped - lost) + (q'.skipped - lost') := by omega
    simp only [WindowScan.Result.andThen, h'.resync, h.resync, hsum, UInt64.ofNat_add, UInt64.add_assoc]

/-! ## The loop and the reference scan -/

section Loop

variable {r₀ : Receiver}

/-- The loop has done the part `q` of the reference scan. -/
structure Progress (r₀ : Receiver) (q : WindowScan.Result UInt8) (lost : Nat) (l : DecodeLoop) : Prop where
  hb_eq : l.buf.hb = r₀.buf.hb
  limit_eq : l.buf.limit = r₀.buf.position
  threw : l.threw = none
  done : q.andThen (scan frameSpec (r₀.buf.pending.drop l.buf.position)) = scan frameSpec r₀.buf.pending
  counted : Counted r₀ q lost l.toReceiver
  running : l.broke = false →
    lost = 0 ∧ unmarkedTail frameSpec r₀.buf.pending = unmarkedTail frameSpec (r₀.buf.pending.drop l.buf.position)
  broken : l.broke = true → lost = unmarkedTail frameSpec r₀.buf.pending ∧ l.buf.limit < l.buf.position + 24

variable {q : WindowScan.Result UInt8} {lost : Nat} {l : DecodeLoop}

theorem Progress.slice_eq (hp : Progress r₀ q lost l) : l.buf.slice = r₀.buf.pending.drop l.buf.position := by
  rw [ByteBuffer.slice, hp.hb_eq, hp.limit_eq]
  rfl

/-- The byte test of `findMagic`, on the bytes that are decoded. -/
theorem Progress.magicAt_eq (hp : Progress r₀ q lost l) {j : Nat} (h : j + 1 < l.buf.limit) :
    (get l.buf.hb j == (WireFrame.MAGIC &&& 0xFF).toInt8 &&
      get l.buf.hb (j + 1) == ((WireFrame.MAGIC >>> 8) &&& 0xFF).toInt8) = magicAt r₀.buf.pending j := by
  have hlim := l.buf.limit_le
  rw [magicAt_bytes (by omega), hp.hb_eq, ByteBuffer.pending, ← hp.limit_eq, magicAt_take h]

theorem Progress.findMagic_some (hp : Progress r₀ q lost l) {found : Nat}
    (h : findMagic l.buf l.buf.position = some found) :
    l.buf.position ≤ found ∧ found + 24 ≤ l.buf.limit ∧ magicAt r₀.buf.pending found = true ∧
      ∀ j, l.buf.position ≤ j → j < found → magicAt r₀.buf.pending j = false := by
  obtain ⟨hat, h1, h2, hbefore⟩ := IndexSearch.firstIndex_eq_some h
  simp only [WireFrame.SIZE] at h2
  refine ⟨h1, by omega, ?_, ?_⟩
  · rw [← hp.magicAt_eq (by omega)]
    exact hat
  · intro j hj1 hj2
    rw [← hp.magicAt_eq (by omega)]
    exact hbefore j hj1 hj2

theorem Progress.findMagic_none (hp : Progress r₀ q lost l) (h : findMagic l.buf l.buf.position = none) {j : Nat}
    (h1 : l.buf.position ≤ j) (h2 : j + 24 ≤ l.buf.limit) : magicAt r₀.buf.pending j = false := by
  rw [← hp.magicAt_eq (by omega)]
  exact IndexSearch.firstIndex_eq_none h j h1 (by simp only [WireFrame.SIZE]; omega)

theorem Progress.noMagic (hp : Progress r₀ q lost l) (hrun : l.broke = false)
    (hfull : l.buf.position + 24 ≤ l.buf.limit) (hnone : findMagic l.buf l.buf.position = none) :
    ∃ q', Progress r₀ q' (lost + (l.buf.limit - l.buf.position - 23)) l.noMagic := by
  have hlen : r₀.buf.pending.length = l.buf.limit := by rw [ByteBuffer.length_pending, hp.limit_eq]
  have hkeep : l.buf.limit - min l.buf.remaining (WireFrame.SIZE - 1) = l.buf.limit - 23 := by
    simp only [ByteBuffer.remaining, WireFrame.SIZE]
    omega
  have hno : ∀ j, l.buf.position ≤ j → j + 24 ≤ r₀.buf.pending.length → magicAt r₀.buf.pending j = false :=
    fun j h1 h2 => hp.findMagic_none hnone h1 (by omega)
  have hle : l.buf.position ≤ l.buf.limit - 23 := by omega
  have hskip := scan_drop_to hle (by omega) (fun j h1 h2 => hno j h1 (by omega))
  have htail := unmarkedTail_drop hno
  have hpos : l.noMagic.buf.position = l.buf.limit - 23 := hkeep
  have hstep : Counted l.toReceiver ⟨[], 0, l.buf.limit - 23 - l.buf.position, []⟩ (l.buf.limit - l.buf.position - 23)
      l.noMagic.toReceiver :=
    { lost_le := by show _ ≤ l.buf.limit - 23 - l.buf.position; omega
      offered := (List.append_nil _).symm
      framesOk := (UInt64.add_zero _).symm
      crcFail := (UInt64.add_zero _).symm
      resync := by
        rw [show l.buf.limit - 23 - l.buf.position - (l.buf.limit - l.buf.position - 23) = 0 by omega]
        exact (UInt64.add_zero _).symm }
  refine ⟨q.andThen ⟨[], 0, l.buf.limit - 23 - l.buf.position, []⟩, ?_⟩
  exact
    { hb_eq := hp.hb_eq
      limit_eq := hp.limit_eq
      threw := hp.threw
      done := by
        rw [hpos, WindowScan.Result.andThen_assoc, ← hskip]
        exact hp.done
      counted := hp.counted.trans hstep
      running := fun h => by cases h
      broken := by
        obtain ⟨hzero, hsame⟩ := hp.running hrun
        refine fun _ => ⟨by rw [hsame, htail]; omega, ?_⟩
        rw [hpos]
        show l.buf.limit < l.buf.limit - 23 + 24
        omega }

theorem Progress.toMagic (hp : Progress r₀ q lost l) (hrun : l.broke = false) {found : Nat} (hle : found ≤ l.buf.limit)
    (hfound : findMagic l.buf l.buf.position = some found) :
    ∃ q', Progress r₀ q' lost (l.toMagic found hle) := by
  have hlen : r₀.buf.pending.length = l.buf.limit := by rw [ByteBuffer.length_pending, hp.limit_eq]
  obtain ⟨h1, h2, hat, hbefore⟩ := hp.findMagic_some hfound
  have hskip := scan_drop_to h1 (by omega) hbefore
  have htail := unmarkedTail_drop_to h1 (by omega) hbefore hat
  have hcast : (found : Int) - l.buf.position = ((found - l.buf.position : Nat) : Int) := by omega
  obtain ⟨hres, hcrc, hok⟩ := noteTcpResync_counts l.pipeline (found - l.buf.position)
  have hstep : Counted l.toReceiver ⟨[], 0, found - l.buf.position, []⟩ 0 (l.toMagic found hle).toReceiver :=
    { lost_le := Nat.zero_le _
      offered := (List.append_nil _).symm
      framesOk := by
        simp only [DecodeLoop.toMagic, hcast, hok]
        exact (UInt64.add_zero _).symm
      crcFail := by
        simp only [DecodeLoop.toMagic, hcast, hcrc]
        exact (UInt64.add_zero _).symm
      resync := by
        simp only [DecodeLoop.toMagic, hcast]
        exact hres }
  refine ⟨q.andThen ⟨[], 0, found - l.buf.position, []⟩, ?_⟩
  exact
    { hb_eq := hp.hb_eq
      limit_eq := hp.limit_eq
      threw := hp.threw
      done := by
        rw [show (l.toMagic found hle).buf.position = found from rfl, WindowScan.Result.andThen_assoc, ← hskip]
        exact hp.done
      counted := hp.counted.trans hstep
      running := fun _ => ⟨(hp.running hrun).1, (hp.running hrun).2.trans htail⟩
      broken := by
        intro h
        rw [show (l.toMagic found hle).broke = l.broke from rfl, hrun] at h
        cases h }

/-- The window at the position: the decoder reads it, and the scan accepts it when it verifies. -/
theorem Progress.front (hp : Progress r₀ q lost l) (hfull : l.buf.position + 24 ≤ l.buf.limit) :
    let w := window r₀.buf.pending l.buf.position
    l.buf.slice.take WireFrame.SIZE = w ∧ WireFrame.decode w = .ok (view (.ofBytes w)) ∧
      frameSpec.width ≤ (r₀.buf.pending.drop l.buf.position).length ∧
      frameSpec.accept ((r₀.buf.pending.drop l.buf.position).take frameSpec.width) =
        Core.verifyFrame (.ofBytes w) := by
  intro w
  have hlen : r₀.buf.pending.length = l.buf.limit := by rw [ByteBuffer.length_pending, hp.limit_eq]
  have hfull' : l.buf.position + 24 ≤ r₀.buf.pending.length := by omega
  refine ⟨?_, decode_eq_view (length_window hfull'), ?_, accept_window hfull'⟩
  · rw [hp.slice_eq]
    rfl
  · simp only [frameSpec_width, List.length_drop]
    omega

/-- A window that does not verify: the position moves on by one. -/
theorem Progress.reject (hp : Progress r₀ q lost l) (hrun : l.broke = false)
    (hfull : l.buf.position + 24 ≤ l.buf.limit) (hmark : magicAt r₀.buf.pending l.buf.position = true)
    (hv : Core.verifyFrame (.ofBytes (window r₀.buf.pending l.buf.position)) = false) :
    (∃ q', Progress r₀ q' lost (l.tryFrame hfull)) ∧ l.buf.position < (l.tryFrame hfull).buf.position := by
  obtain ⟨hslice, hdecode, hwidth, hacc⟩ := hp.front hfull
  have hfull' : l.buf.position + 24 ≤ r₀.buf.pending.length := by
    rw [ByteBuffer.length_pending, ← hp.limit_eq]
    exact hfull
  have hl : l.tryFrame hfull =
      { l with
        pipeline := l.pipeline.noteCrcFail.noteTcpResync 1
        buf := l.buf.setPosition (l.buf.position + 1) (by omega) } := by
    have hcrc : (view (Core.WireFrame.ofBytes (window r₀.buf.pending l.buf.position))).crcOk = false := hv
    simp [DecodeLoop.tryFrame, hslice, hdecode, hcrc]
  obtain ⟨hres, hcrc, hok⟩ := noteTcpResync_counts l.pipeline.noteCrcFail 1
  have hmark' : frameSpec.mark ((r₀.buf.pending.drop l.buf.position).take frameSpec.width) = true :=
    (mark_window hfull').trans hmark
  have htail := WindowScan.unmarkedTail_pass (WindowScan.not_unmarked hwidth hmark') (hacc.trans hv)
  have hdone := hp.done
  rw [WindowScan.scan_pass hwidth (hacc.trans hv), ← WindowScan.Result.andThen_assoc, List.drop_drop, hmark',
    if_pos rfl] at hdone
  have hstep : Counted l.toReceiver ⟨[], 1, 1, []⟩ 0 (l.tryFrame hfull).toReceiver := by
    rw [hl]
    exact
      { lost_le := Nat.zero_le _
        offered := (List.append_nil _).symm
        framesOk := (congrArg Int64.toUInt64 hok).trans (UInt64.add_zero _).symm
        crcFail := (congrArg Int64.toUInt64 hcrc).trans (Int64.toUInt64_add _ _)
        resync := hres }
  refine ⟨⟨q.andThen ⟨[], 1, 1, []⟩, ?_⟩, by rw [hl]; exact Nat.lt_succ_self _⟩
  have hcounted := hp.counted.trans hstep
  rw [hl] at hcounted ⊢
  refine ⟨hp.hb_eq, hp.limit_eq, hp.threw, hdone, hcounted, fun _ => ⟨(hp.running hrun).1, ?_⟩, ?_⟩
  · rw [List.drop_drop] at htail
    exact (hp.running hrun).2.trans htail
  · intro h
    rw [show l.broke = true from h] at hrun
    cases hrun

/-- A window that verifies is a frame: the position moves behind it. -/
theorem Progress.accept (hp : Progress r₀ q lost l) (hrun : l.broke = false)
    (hfull : l.buf.position + 24 ≤ l.buf.limit)
    (hv : Core.verifyFrame (.ofBytes (window r₀.buf.pending l.buf.position)) = true) :
    (∃ q', Progress r₀ q' lost (l.tryFrame hfull)) ∧ l.buf.position < (l.tryFrame hfull).buf.position := by
  obtain ⟨hslice, hdecode, hwidth, hacc⟩ := hp.front hfull
  have hcrc : (view (Core.WireFrame.ofBytes (window r₀.buf.pending l.buf.position))).crcOk = true := hv
  have hl : l.tryFrame hfull =
      { l with
        pipeline := l.pipeline.offer (view (Core.WireFrame.ofBytes (window r₀.buf.pending l.buf.position)))
        offered := l.offered ++ [view (Core.WireFrame.ofBytes (window r₀.buf.pending l.buf.position))]
        buf := l.buf.setPosition (l.buf.position + WireFrame.SIZE) hfull } := by
    simp [DecodeLoop.tryFrame, hslice, hdecode, hcrc]
  obtain ⟨hres, hfail, hok⟩ := offer_counts l.pipeline hcrc
  have htail := WindowScan.unmarkedTail_accept hwidth (hacc.trans hv)
  have hdone := hp.done
  rw [WindowScan.scan_accept hwidth (hacc.trans hv), ← WindowScan.Result.andThen_assoc, List.drop_drop] at hdone
  have hstep : Counted l.toReceiver ⟨[window r₀.buf.pending l.buf.position], 0, 0, []⟩ 0
      (l.tryFrame hfull).toReceiver := by
    rw [hl]
    exact
      { lost_le := Nat.zero_le _
        offered := rfl
        framesOk := (congrArg Int64.toUInt64 hok).trans (Int64.toUInt64_add _ _)
        crcFail := (congrArg Int64.toUInt64 hfail).trans (UInt64.add_zero _).symm
        resync := (congrArg Int64.toUInt64 hres).trans (UInt64.add_zero _).symm }
  refine ⟨⟨q.andThen ⟨[window r₀.buf.pending l.buf.position], 0, 0, []⟩, ?_⟩,
    by rw [hl]; exact Nat.lt_add_of_pos_right (by decide)⟩
  have hcounted := hp.counted.trans hstep
  rw [hl] at hcounted ⊢
  refine ⟨hp.hb_eq, hp.limit_eq, hp.threw, hdone, hcounted, fun _ => ⟨(hp.running hrun).1, ?_⟩, ?_⟩
  · rw [List.drop_drop] at htail
    exact (hp.running hrun).2.trans htail
  · intro h
    rw [show l.broke = true from h] at hrun
    cases hrun

theorem Progress.tryFrame (hp : Progress r₀ q lost l) (hrun : l.broke = false)
    (hfull : l.buf.position + 24 ≤ l.buf.limit) (hmark : magicAt r₀.buf.pending l.buf.position = true) :
    (∃ q', Progress r₀ q' lost (l.tryFrame hfull)) ∧ l.buf.position < (l.tryFrame hfull).buf.position := by
  cases hv : Core.verifyFrame (.ofBytes (window r₀.buf.pending l.buf.position)) with
  | false => exact hp.reject hrun hfull hmark hv
  | true => exact hp.accept hrun hfull hv

/-- **One turn of the loop makes progress along the reference scan**: it moves the position or leaves the loop. -/
theorem decodeStep_progress (hp : Progress r₀ q lost l) {l' : DecodeLoop} (hs : decodeStep l = some l') :
    (∃ q' lost', Progress r₀ q' lost' l') ∧ l.buf.position < l'.buf.position := by
  unfold decodeStep at hs
  split at hs
  · rename_i hguard
    obtain ⟨hrun, _, hfull⟩ := hguard
    simp only [WireFrame.SIZE] at hfull
    have hlim := l.buf.limit_le
    have hmagic : shortToUnsignedInt (getShort l.buf.hb l.buf.position) = WireFrame.MAGIC ↔
        magicAt r₀.buf.pending l.buf.position = true := by
      rw [magicAt_short (by omega), ByteBuffer.pending, ← hp.limit_eq, magicAt_take (by omega), hp.hb_eq]
    split at hs
    · rename_i hno
      split at hs
      · rename_i hf
        cases hs
        obtain ⟨q', hq'⟩ := hp.noMagic hrun hfull hf
        refine ⟨⟨q', _, hq'⟩, ?_⟩
        show l.buf.position < l.buf.limit - min l.buf.remaining (WireFrame.SIZE - 1)
        simp only [ByteBuffer.remaining, WireFrame.SIZE]
        omega
      · rename_i found hf
        cases hs
        obtain ⟨q', hq'⟩ := hp.toMagic hrun (findMagic_le hf) hf
        refine ⟨⟨q', _, hq'⟩, ?_⟩
        -- the magic is not at the position, so it is behind it
        obtain ⟨h1, _, hat, _⟩ := hp.findMagic_some hf
        have hne : l.buf.position ≠ found := fun heq => hno (hmagic.mpr (by rw [heq]; exact hat))
        exact Nat.lt_of_le_of_ne h1 hne
    · rename_i hyes
      cases hs
      obtain ⟨⟨q', hq'⟩, hlt⟩ := hp.tryFrame hrun hfull (hmagic.mp (not_not.mp hyes))
      exact ⟨⟨q', _, hq'⟩, hlt⟩
  · cases hs

end Loop

/-! ## One call -/

/-- Between calls: no exception, and the limit is the capacity. -/
structure Ready (r : Receiver) : Prop where
  threw : r.threw = none
  limit : r.buf.limit = r.buf.capacity

/-- What a call on the bytes `data` leads to; `lost` of the bytes passed are not reported. -/
structure Decoded (r : Receiver) (data : List UInt8) (lost : Nat) (r' : Receiver) : Prop where
  ready : Ready r'
  counted : Counted r (scan frameSpec data) lost r'
  rest : r'.buf.pending = (scan frameSpec data).rest
  capacity : r'.buf.capacity = r.buf.capacity

/-- Only the frames and the counts of the scan matter. -/
theorem Counted.of_rest {r₀ r r' : Receiver} {q : WindowScan.Result UInt8} {lost : Nat} (h : Counted r₀ q lost r)
    (s : List UInt8) (hoffered : r'.offered = r.offered) (hpipeline : r'.pipeline = r.pipeline) :
    Counted r₀ { q with rest := s } lost r' where
  lost_le := h.lost_le
  offered := hoffered.trans h.offered
  framesOk := by rw [hpipeline]; exact h.framesOk
  crcFail := by rw [hpipeline]; exact h.crcFail
  resync := by rw [hpipeline]; exact h.resync

/-- The loop begins at the front of the buffer. -/
theorem Progress.start {r : Receiver} (hr : r.threw = none) :
    Progress r (.start []) 0 { r with buf := r.buf.flip, broke := false } where
  hb_eq := rfl
  limit_eq := rfl
  threw := hr
  done := by simp
  counted := ⟨Nat.le_refl 0, (List.append_nil _).symm, (UInt64.add_zero _).symm, (UInt64.add_zero _).symm,
    (UInt64.add_zero _).symm⟩
  running := fun _ => ⟨rfl, by simp⟩
  broken := fun h => by cases h

/-- Where the loop ends, no frame fits into what remains. -/
theorem Progress.short {r : Receiver} {q : WindowScan.Result UInt8} {lost : Nat} {l : DecodeLoop}
    (hp : Progress r q lost l) (hend : decodeStep l = none) :
    (r.buf.pending.drop l.buf.position).length < frameSpec.width := by
  have hlen : r.buf.pending.length = l.buf.limit := by rw [ByteBuffer.length_pending, hp.limit_eq]
  rw [List.length_drop, frameSpec_width, hlen]
  by_contra hc
  have hrun : l.broke = false := by
    by_contra hb
    have := (hp.broken (by simpa using hb)).2
    omega
  unfold decodeStep at hend
  rw [dif_pos ⟨hrun, hp.threw, by simp only [WireFrame.SIZE]; omega⟩] at hend
  split at hend
  · split at hend <;> cases hend
  · cases hend

/-- **`decodeStream` is the reference scan**, but for the bytes it passes behind the last magic. -/
theorem decodeStream_spec {r : Receiver} (hr : r.threw = none) :
    Decoded r r.buf.pending (unmarkedTail frameSpec r.buf.pending) (decodeStream r) := by
  have hstep : ∀ l₁ l₂, (∃ q lost, Progress r q lost l₁) → decodeStep l₁ = some l₂ →
      (∃ q lost, Progress r q lost l₂) ∧ l₂.buf.limit - l₂.buf.position < l₁.buf.limit - l₁.buf.position := by
    rintro l₁ l₂ ⟨q, lost, hp⟩ hs
    obtain ⟨⟨q', lost', hp'⟩, hlt⟩ := decodeStep_progress hp hs
    have h1 := hp.limit_eq
    have h2 := hp'.limit_eq
    have h3 := l₂.buf.position_le
    exact ⟨⟨q', lost', hp'⟩, by omega⟩
  obtain ⟨⟨q, lost, hp⟩, hnone⟩ := Runs.whileLoop_ends hstep (r.buf.position + 1) _ ⟨_, _, .start hr⟩
    (by show r.buf.position - 0 ≤ r.buf.position + 1; omega)
  generalize hl : whileLoop decodeStep (r.buf.position + 1) { r with buf := r.buf.flip, broke := false } = l at hp hnone
  have hshort := hp.short hnone
  have hq : scan frameSpec r.buf.pending = { q with rest := r.buf.pending.drop l.buf.position } := by
    rw [← hp.done, WindowScan.scan_short hshort, WindowScan.Result.andThen_start]
  have hend : decodeStream r = { l.toReceiver with buf := l.buf.compact } := by
    simp only [decodeStream, hl, hp.threw]
  have hcap : l.buf.capacity = r.buf.capacity := by rw [ByteBuffer.capacity, hp.hb_eq, ByteBuffer.capacity]
  have hlost : unmarkedTail frameSpec r.buf.pending = lost := by
    cases hb : l.broke with
    | true => exact (hp.broken hb).1.symm
    | false =>
      obtain ⟨hzero, htail⟩ := hp.running hb
      rw [htail, hzero, WindowScan.unmarkedTail_short hshort]
  rw [hend, hlost]
  exact
    { ready := ⟨hp.threw, by rw [ByteBuffer.limit_compact, ByteBuffer.capacity_compact]⟩
      counted := by
        rw [hq]
        exact hp.counted.of_rest _ rfl rfl
      rest := by
        rw [hq, ← hp.slice_eq]
        exact ByteBuffer.pending_compact _
      capacity := (ByteBuffer.capacity_compact _).trans hcap }

/-! ## Any number of reads -/

/-- The bytes that came in fit into the buffer. -/
def Fits (r : Receiver) (data : List UInt8) : Prop := data.length ≤ r.buf.remaining

theorem readTcp_spec {r : Receiver} {data : List UInt8} (hr : Ready r) (hfit : Fits r data) :
    Decoded r (r.buf.pending ++ data) (unmarkedTail frameSpec (r.buf.pending ++ data)) (readTcp r data) := by
  have h := decodeStream_spec (r := { r with buf := r.buf.read data }) hr.threw
  have hread : readTcp r data = decodeStream { r with buf := r.buf.read data } := by
    rw [readTcp, hr.threw]
  rw [ByteBuffer.pending_read _ hfit] at h
  rw [hread]
  exact
    ⟨h.ready, ⟨h.counted.lost_le, h.counted.offered, h.counted.framesOk, h.counted.crcFail, h.counted.resync⟩,
      h.rest, h.capacity.trans (ByteBuffer.capacity_read _ _)⟩

theorem decoded_accept (p : TelemetryPipeline) : Decoded (accept p) [] 0 (accept p) where
  ready := ⟨rfl, List.length_replicate.symm⟩
  counted := by
    rw [WindowScan.scan_short (by decide)]
    exact Counted.start _ _
  rest := by
    rw [WindowScan.scan_short (by decide)]
    exact List.take_zero
  capacity := rfl

/-- The capacity bounds what a call can pass without reporting it. -/
theorem Decoded.lost_lt {r r' : Receiver} {data : List UInt8} {lost : Nat} (h : Decoded r data lost r')
    (hlen : data.length ≤ 262144) : lost < 18446744073709551616 := by
  have hle := h.counted.lost_le
  have hbalance := WindowScan.scan_balance (S := frameSpec) data
  omega

/-- One more read. -/
theorem Decoded.read {p : TelemetryPipeline} {fed data : List UInt8} {lost : Nat} {r : Receiver}
    (h : Decoded (accept p) fed lost r) (hfit : Fits r data) :
    ∃ lost', Decoded (accept p) (fed ++ data) (lost + lost') (readTcp r data) ∧ lost' < 18446744073709551616 ∧
      (0 < lost' ↔ EndsUnmarked frameSpec ((scan frameSpec fed).rest ++ data)) := by
  have hnext := readTcp_spec h.ready hfit
  have hlen : (r.buf.pending ++ data).length ≤ 262144 := by
    have hcap : r.buf.capacity = 262144 := h.capacity.trans List.length_replicate
    have hlim := h.ready.limit
    have hpos := r.buf.position_le
    simp only [Fits, ByteBuffer.remaining] at hfit
    rw [List.length_append, ByteBuffer.length_pending]
    omega
  have hlt := hnext.lost_lt hlen
  rw [h.rest] at hnext hlt
  have hsum := h.counted.trans hnext.counted
  rw [← WindowScan.scan_append] at hsum
  refine ⟨_, ⟨hnext.ready, hsum, ?_, hnext.capacity.trans h.capacity⟩, hlt, WindowScan.unmarkedTail_pos _⟩
  rw [WindowScan.scan_append]
  exact hnext.rest

/-- **Reads in a row are one scan.** -/
theorem run_readTcp (p : TelemetryPipeline) {reads : List (List UInt8)} :
    Runs.AllSteps readTcp Fits (accept p) reads →
      ∃ lost, Decoded (accept p) reads.flatten lost (run readTcp (accept p) reads) := by
  induction reads using List.reverseRecOn with
  | nil => exact fun _ => ⟨0, decoded_accept p⟩
  | append_singleton reads data ih =>
    intro hfit
    obtain ⟨hbefore, hlast, _⟩ := Runs.allSteps_append.mp hfit
    obtain ⟨lost, h⟩ := ih hbefore
    obtain ⟨lost', h', _⟩ := h.read hlast
    rw [Runs.run_snoc, List.flatten_append, List.flatten_singleton]
    exact ⟨_, h'⟩

/-- Reads that leave room for 23 more bytes fit. -/
theorem allSteps_fits (p : TelemetryPipeline) {reads : List (List UInt8)} (h : ∀ c ∈ reads, c.length ≤ 262121) :
    Runs.AllSteps readTcp Fits (accept p) reads := by
  apply Runs.allSteps_of_prefix
  intro fed data hfed hbefore
  have hlast := h data (hfed.subset (by simp))
  obtain ⟨_, hd⟩ := run_readTcp p hbefore
  have hcap : (run readTcp (accept p) fed).buf.capacity = 262144 := hd.capacity.trans List.length_replicate
  have hrest := WindowScan.scan_rest_lt (S := frameSpec) fed.flatten
  rw [← hd.rest, ByteBuffer.length_pending, frameSpec_width] at hrest
  have hlim := hd.ready.limit
  show data.length ≤ ByteBuffer.remaining _
  simp only [ByteBuffer.remaining]
  omega

/-! ## The balance of bytes -/

/-- The bytes that came in are 24 for each frame offered, the bytes reported as passed, and those in the buffer. -/
def Balanced (p : TelemetryPipeline) (reads : List (List UInt8)) : Prop :=
  let r := run readTcp (accept p) reads
  UInt64.ofNat reads.flatten.length =
    24 * UInt64.ofNat r.offered.length + (r.pipeline.tcpResync.toUInt64 - p.tcpResync.toUInt64) +
      UInt64.ofNat r.buf.position

/-- The bytes passed without a report are what is missing. -/
theorem balanced_of_decoded {p : TelemetryPipeline} {reads : List (List UInt8)} {lost : Nat}
    (h : Decoded (accept p) reads.flatten lost (run readTcp (accept p) reads)) :
    Balanced p reads ↔ UInt64.ofNat lost = 0 := by
  have hbalance := WindowScan.scan_balance (S := frameSpec) reads.flatten
  have hle := h.counted.lost_le
  have hpos := ByteBuffer.length_pending (run readTcp (accept p) reads).buf
  have hoffered : (run readTcp (accept p) reads).offered.length = (scan frameSpec reads.flatten).frames.length := by
    rw [h.counted.offered]
    exact List.length_map _
  have hresync : (run readTcp (accept p) reads).pipeline.tcpResync.toUInt64 - p.tcpResync.toUInt64 =
      UInt64.ofNat ((scan frameSpec reads.flatten).skipped - lost) := by
    rw [h.counted.resync]
    exact add_sub_cancel_left _ _
  rw [h.rest] at hpos
  unfold Balanced
  simp only [hoffered, hresync, ← hpos]
  generalize scan frameSpec reads.flatten = q at hbalance hle
  have htotal : UInt64.ofNat reads.flatten.length = 24 * UInt64.ofNat q.frames.length +
      UInt64.ofNat (q.skipped - lost) + UInt64.ofNat q.rest.length + UInt64.ofNat lost := by
    rw [show reads.flatten.length = 24 * q.frames.length + (q.skipped - lost) + q.rest.length + lost by
      rw [frameSpec_width] at hbalance; omega]
    simp only [UInt64.ofNat_add, UInt64.ofNat_mul]
    rfl
  rw [htotal]
  exact add_eq_left

/-- What the last read of a run passes without a report. -/
theorem endsUnmarked_read (reads : List (List UInt8)) (data : List UInt8)
    (hbefore : ¬EndsUnmarked frameSpec reads.flatten) :
    EndsUnmarked frameSpec ((scan frameSpec reads.flatten).rest ++ data) ↔
      EndsUnmarked frameSpec (reads ++ [data]).flatten := by
  rw [List.flatten_append, List.flatten_singleton]
  cases data with
  | nil =>
    rw [List.append_nil, List.append_nil]
    exact ⟨fun h => absurd h (WindowScan.endsUnmarked_short (WindowScan.scan_rest_lt _)), fun h => absurd h hbefore⟩
  | cons c data => exact (WindowScan.endsUnmarked_append _ _ (List.cons_ne_nil c data)).symm

/-- While no read ends on an unmarked window everything passed is reported. -/
theorem run_readTcp_lossless (p : TelemetryPipeline) {reads : List (List UInt8)} :
    Runs.AllSteps readTcp Fits (accept p) reads →
      (∀ fed, fed <+: reads → ¬EndsUnmarked frameSpec fed.flatten) →
        Decoded (accept p) reads.flatten 0 (run readTcp (accept p) reads) := by
  induction reads using List.reverseRecOn with
  | nil => exact fun _ _ => decoded_accept p
  | append_singleton reads data ih =>
    intro hfit hends
    obtain ⟨hbefore, hlast, _⟩ := Runs.allSteps_append.mp hfit
    have h := ih hbefore (fun fed hfed => hends fed (hfed.trans (List.prefix_append _ _)))
    obtain ⟨lost, h', _, hiff⟩ := h.read hlast
    have hzero : lost = 0 := by
      by_contra hc
      exact hends _ (List.prefix_refl _) ((endsUnmarked_read reads data
        (hends _ (List.prefix_append _ _))).mp (hiff.mp (Nat.pos_of_ne_zero hc)))
    rw [hzero] at h'
    rw [Runs.run_snoc, List.flatten_append, List.flatten_singleton]
    exact h'

/-- A run that balances after every read has no read that ends on an unmarked window. -/
theorem endsUnmarked_of_balanced (p : TelemetryPipeline) {reads : List (List UInt8)} :
    Runs.AllSteps readTcp Fits (accept p) reads → (∀ fed, fed <+: reads → Balanced p fed) →
      ∀ fed, fed <+: reads → ¬EndsUnmarked frameSpec fed.flatten := by
  induction reads using List.reverseRecOn with
  | nil =>
    intro _ _ fed hfed
    rw [List.prefix_nil.mp hfed]
    exact WindowScan.endsUnmarked_short (by decide)
  | append_singleton reads data ih =>
    intro hfit hbal fed hfed
    obtain ⟨hbefore, hlast, _⟩ := Runs.allSteps_append.mp hfit
    have hearlier := ih hbefore (fun fed' h => hbal fed' (h.trans (List.prefix_append _ _)))
    rcases List.prefix_concat_iff.mp hfed with rfl | hfed
    · obtain ⟨lost, h', hlt, hiff⟩ := (run_readTcp_lossless p hbefore hearlier).read hlast
      rw [Nat.zero_add] at h'
      have hrun : Decoded (accept p) (reads ++ [data]).flatten lost (run readTcp (accept p) (reads ++ [data])) := by
        rw [Runs.run_snoc, List.flatten_append, List.flatten_singleton]
        exact h'
      have hword := (balanced_of_decoded hrun).mp (hbal _ (List.prefix_refl _))
      have hzero : lost = 0 := by
        have := congrArg UInt64.toNat hword
        rwa [UInt64.toNat_ofNat_of_lt' hlt] at this
      intro hends
      rw [← endsUnmarked_read reads data (hearlier _ (List.prefix_refl _)), ← hiff, hzero] at hends
      exact Nat.lt_irrefl 0 hends
    · exact hearlier fed hfed

/-- **The bytes balance after every read exactly when no read ends on an unmarked window**; then the bytes reported
are those that the scan of everything passes. -/
theorem balanced_iff (p : TelemetryPipeline) {reads : List (List UInt8)}
    (hfit : Runs.AllSteps readTcp Fits (accept p) reads) :
    ((∀ fed, fed <+: reads → Balanced p fed) ↔ ∀ fed, fed <+: reads → ¬EndsUnmarked frameSpec fed.flatten) ∧
      ((∀ fed, fed <+: reads → ¬EndsUnmarked frameSpec fed.flatten) →
        (run readTcp (accept p) reads).pipeline.tcpResync.toUInt64 =
          p.tcpResync.toUInt64 + UInt64.ofNat (scan frameSpec reads.flatten).skipped) := by
  refine ⟨⟨endsUnmarked_of_balanced p hfit, ?_⟩, ?_⟩
  · intro hends fed hfed
    obtain ⟨later, rfl⟩ := hfed
    have h := run_readTcp_lossless p (Runs.allSteps_append.mp hfit).1
      (fun fed' h => hends fed' (h.trans (List.prefix_append _ _)))
    exact (balanced_of_decoded h).mpr rfl
  · intro hends
    exact (run_readTcp_lossless p hfit hends).counted.resync

/-- The golden frame in two reads. -/
theorem balanced_iff_golden :
    ∃ p, TelemetryPipeline.make 2 (fun _ => 0) = .ok p ∧
      ((∀ fed, fed <+: [goldenFrame.take 9, goldenFrame.drop 9] → Balanced p fed) ↔
        ∀ fed, fed <+: [goldenFrame.take 9, goldenFrame.drop 9] → ¬EndsUnmarked frameSpec fed.flatten) := by
  obtain ⟨p, hmake⟩ : ∃ p, TelemetryPipeline.make 2 (fun _ => 0) = .ok p := ⟨_, rfl⟩
  exact ⟨p, hmake, (balanced_iff p (allSteps_fits p (by decide))).1⟩

/-- A read of 24 zeros: one of them is dropped and not reported. -/
theorem balanced_zeros :
    ∃ p, TelemetryPipeline.make 2 (fun _ => 0) = .ok p ∧
      ¬∀ fed, fed <+: [List.replicate 24 0] → Balanced p fed := by
  obtain ⟨p, hmake⟩ : ∃ p, TelemetryPipeline.make 2 (fun _ => 0) = .ok p := ⟨_, rfl⟩
  refine ⟨p, hmake, ?_⟩
  intro hbal
  have hno := endsUnmarked_of_balanced p (allSteps_fits p (by decide)) hbal _ (List.prefix_refl _)
  apply hno
  rw [WindowScan.endsUnmarked_pass (by decide) (by decide +kernel)]
  exact Or.inl ⟨by decide, by decide⟩

end ZcMesh.Operator
