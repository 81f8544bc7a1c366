import ZcMesh.Lib.Run
import ZcMesh.Stats.PerNode
import ZcMesh.Zcm.Format

/-!
# `zcmesh_inspect`

`core-engine/src/inspect.cpp` behind the parsing of the options: the header, the loop over the frames, and the
expectations. The report on `stdout` is left out; what it prints is in the statistics.

* On whole frames the loop checks each of them (`inspectLoop_frames`); with fewer bytes than the header promises it
  ends inside (`inspectLoop_truncated`).
* On a recording of verified frames only the expectations are left to decide (`inspect_zcmFile`).
-/

namespace ZcMesh.Core

open Runs (run)

/-! ## The expectations -/

/-- The options of `zcmesh_inspect`. `lastHopUnmet` is the test of `--expect-last-hop-min-pct` on `last_hop` and `ok`,
in floating point: the message when the expectation is not met. -/
structure InspectOptions where
  expectGapsMin : Int64 := -1
  expectGapsMax : Int64 := -1
  expectHopIdx : Int32 := -1
  lastHopUnmet : UInt64 → UInt64 → Option String := fun _ _ => none
  expectFramesMin : Int64 := -1
  expectRaws : List Int32 := []

namespace InspectOptions

variable (opts : InspectOptions) (stats : ZcmAnalyze)

def gapsMinUnmet : Option String :=
  let gaps := stats.totalGaps
  if opts.expectGapsMin ≥ 0 ∧ gaps.toInt64 < opts.expectGapsMin then
    some s!"expect-gaps-min {opts.expectGapsMin} not met (gaps={gaps})"
  else none

def gapsMaxUnmet : Option String :=
  let gaps := stats.totalGaps
  if opts.expectGapsMax ≥ 0 ∧ gaps.toInt64 > opts.expectGapsMax then
    some s!"expect-gaps-max {opts.expectGapsMax} exceeded (gaps={gaps})"
  else none

def hopIdxUnmet : Option String :=
  if opts.expectHopIdx ≥ 0 then
    if opts.expectHopIdx > 15 then some "expect-hop-idx out of range"
    else
      let count := stats.hop.hopHist opts.expectHopIdx.toNatClampNeg
      if count ≠ stats.ok ∨ stats.ok = 0 then
        some s!"expect-hop-idx {opts.expectHopIdx} not exclusive (count={count} ok={stats.ok})"
      else none
  else none

def framesMinUnmet : Option String :=
  if opts.expectFramesMin ≥ 0 ∧ stats.ok.toInt64 < opts.expectFramesMin then
    some s!"expect-frames-min {opts.expectFramesMin} not met (frames={stats.ok})"
  else none

/-- The loop over the expected raw values, from the index `i` on. -/
def rawsDiffer : Nat → List Int32 → List Int32 → Option String
  | i, want :: wants, got :: gots =>
    if got ≠ want then some s!"expect-raws[{i}] want {want} got {got}" else rawsDiffer (i + 1) wants gots
  | _, _, _ => none

def rawsUnmet (seenRaws : List Int32) : Option String :=
  if opts.expectRaws.isEmpty then none
  else if seenRaws.length < opts.expectRaws.length then
    some s!"expect-raws need {opts.expectRaws.length} frames (got {seenRaws.length})"
  else rawsDiffer 0 opts.expectRaws seenRaws

/-- The first expectation that is not met. -/
def unmet (seenRaws : List Int32) : Option String :=
  opts.gapsMinUnmet stats <|> opts.gapsMaxUnmet stats <|> opts.hopIdxUnmet stats <|>
    opts.lastHopUnmet stats.hop.lastHop stats.ok <|> opts.framesMinUnmet stats <|> opts.rawsUnmet seenRaws

end InspectOptions

/-- Without options nothing is expected. -/
theorem unmet_none (stats : ZcmAnalyze) (seenRaws : List Int32) :
    ({} : InspectOptions).unmet stats seenRaws = none := rfl

/-! ## The program -/

/-- `stats` and `seen_raws`. -/
structure Tally where
  stats : ZcmAnalyze := {}
  seenRaws : List Int32 := []

/-- A frame that was read. -/
def Tally.check (t : Tally) (frame : WireFrame) : Tally :=
  if !verifyFrame frame then { t with stats := { t.stats with crcFail := t.stats.crcFail + 1 } }
  else { stats := t.stats.observe frame, seenRaws := t.seenRaws ++ [frame.rawValue] }

/-- `k` more turns of the loop over the frames, from the index `i` on, with `rest` left in the file; the index of the
frame that is cut off, if there is one. -/
def inspectLoop : Nat → Nat → List UInt8 → Tally → Except Nat Tally
  | 0, _, _, t => .ok t
  | k + 1, i, rest, t =>
    let (bytes, rest) := fread rest wireFrameSize
    if bytes.length ≠ wireFrameSize then .error i
    else inspectLoop k (i + 1) rest (t.check (.ofBytes bytes))

/-- How `zcmesh_inspect` ends, with the statistics it prints when it gets that far. -/
structure InspectEnd where
  ending : Ending
  stats : ZcmAnalyze := {}

/-- `main`, on the bytes of the file. -/
def inspect (mem : Memory) (opts : InspectOptions) (file : List UInt8) : InspectEnd :=
  let (bytes, rest) := fread file zcmHeaderSize
  if bytes.length ≠ zcmHeaderSize then { ending := .exit 1 "short header" }
  else
    let hdr := ZcmHeader.ofBytes bytes
    if ¬hdr.Valid then { ending := .exit 1 "bad magic/version" }
    -- `seen_raws.reserve`, four bytes for each frame
    else if !mem.allocates (4 * hdr.frameCount.toNat) then { ending := .uncaught }
    else
      match inspectLoop hdr.frameCount.toNat 0 rest {} with
      | .error i => { ending := .exit 1 s!"truncated at frame {i}" }
      | .ok t =>
        if t.stats.crcFail ≠ 0 ∨ t.stats.ok ≠ hdr.frameCount then { ending := .exit 1 "", stats := t.stats }
        else
          match opts.unmet t.stats t.seenRaws with
          | some message => { ending := .exit 1 message, stats := t.stats }
          | none => { ending := .exit 0 "", stats := t.stats }

/-! ## The loop -/

/-- **On whole frames the loop checks each of them.** -/
theorem inspectLoop_frames (cs : List WireFrame) (i : Nat) (tail : List UInt8) (t : Tally) :
    inspectLoop cs.length i (Blocks.bytesOf WireFrame.bytes cs ++ tail) t = .ok (run Tally.check t cs) := by
  induction cs generalizing i t with
  | nil => rfl
  | cons c cs ih =>
    have hread : fread (Blocks.bytesOf WireFrame.bytes (c :: cs) ++ tail) wireFrameSize =
        (c.bytes, Blocks.bytesOf WireFrame.bytes cs ++ tail) := by
      rw [fread, Blocks.bytesOf_cons, List.append_assoc, ← WireFrame.length_bytes c, List.take_left, List.drop_left]
    simp only [List.length_cons, inspectLoop, hread, WireFrame.length_bytes, ne_eq, not_true, if_false,
      WireFrame.ofBytes_bytes]
    exact ih (i + 1) (t.check c)

/-- **With fewer bytes than frames promised the loop ends inside.** -/
theorem inspectLoop_truncated {k : Nat} (i : Nat) {rest : List UInt8} (t : Tally)
    (hshort : rest.length < wireFrameSize * k) : ∃ j, inspectLoop k i rest t = .error j := by
  induction k generalizing i rest t with
  | zero => exact absurd hshort (Nat.not_lt_zero _)
  | succ k ih =>
    simp only [inspectLoop, fread, List.length_take]
    split
    · exact ⟨i, rfl⟩
    · rename_i hfull
      rw [Nat.mul_succ] at hshort
      apply ih
      rw [List.length_drop]
      omega

/-! ## A file as capture writes it -/

/-- Frames that verify are observed, and nothing else is counted. -/
theorem check_run {cs : List WireFrame} (hcs : ∀ c ∈ cs, verifyFrame c = true) (t : Tally) :
    run Tally.check t cs =
      { stats := run ZcmAnalyze.observe t.stats cs, seenRaws := t.seenRaws ++ cs.map (·.rawValue) } := by
  induction cs generalizing t with
  | nil => simp
  | cons c cs ih =>
    have hc : t.check c = { stats := t.stats.observe c, seenRaws := t.seenRaws ++ [c.rawValue] } := by
      simp [Tally.check, hcs c List.mem_cons_self]
    rw [Runs.run_cons, hc, ih fun d hd => hcs d (List.mem_cons_of_mem c hd)]
    simp

theorem crcFail_run (a : ZcmAnalyze) (cs : List WireFrame) : (run ZcmAnalyze.observe a cs).crcFail = a.crcFail := by
  have hstep : ∀ b c, b.crcFail = a.crcFail → (ZcmAnalyze.observe b c).crcFail = a.crcFail := fun _ _ h => h
  exact Runs.run_inv hstep cs a rfl

/-- **`zcmesh_inspect` on a recording**: it comes to the expectations, with the statistics of the frames. -/
theorem inspect_zcmFile {mem : Memory} (opts : InspectOptions) {cs : List WireFrame}
    (hcs : ∀ c ∈ cs, verifyFrame c = true) (hmem : mem.allocates (4 * cs.length) = true) :
    inspect mem opts (zcmFile cs) =
      { ending := match opts.unmet (run ZcmAnalyze.observe {} cs) (cs.map (·.rawValue)) with
          | some message => .exit 1 message
          | none => .exit 0 ""
        stats := run ZcmAnalyze.observe {} cs } := by
  have hlt := Memory.lt_of_allocates hmem
  have hcount : (UInt64.ofNat cs.length).toNat = cs.length :=
    UInt64.toNat_ofNat_of_lt' (by simp only [UInt64.size]; omega)
  have hloop : inspectLoop cs.length 0 (Blocks.bytesOf WireFrame.bytes cs) {} =
      .ok { stats := run ZcmAnalyze.observe {} cs, seenRaws := cs.map (·.rawValue) } := by
    have hframes := inspectLoop_frames cs 0 [] {}
    rw [List.append_nil, check_run hcs] at hframes
    exact hframes
  have hok : (run ZcmAnalyze.observe {} cs).ok = UInt64.ofNat cs.length := by
    rw [ZcmAnalyze.ok_run]
    exact UInt64.zero_add _
  have hfail : (run ZcmAnalyze.observe {} cs).crcFail = 0 := crcFail_run {} cs
  simp only [inspect, fread_zcmFile, ZcmHeader.length_bytes, ZcmHeader.ofBytes_bytes, zcmHeader_valid,
    frameCount_zcmHeader, hcount, hmem, hloop, hok, hfail, ne_eq, not_true, if_false, Bool.not_true,
    Bool.false_eq_true, or_self]
  cases opts.unmet (run ZcmAnalyze.observe {} cs) (cs.map (·.rawValue)) <;> rfl

end ZcMesh.Core
