import ZcMesh.Lib.KeyValue
import ZcMesh.Stats.Pipeline

/-!
# Metrics as text

`MetricsSampler.snapshot`, `OperatorSnapshot.toPlainText`, and the reader of that text, `StatsClient.parse` and
`longField`. Strings are lists of characters.

* `Long.parseLong` reads what `Long.toString` writes, the least value included (`parseLong_toString`).
* `parse` finds the fields of a snapshot, and nothing else (`entries_parse`); `longField` gives their values
  (`longField_parse`).
-/

namespace ZcMesh.Operator

open KeyValue (InOrder split trim cutAt)

/-! ## Numbers -/

namespace Long

/-- `Long.toString`. -/
def toString (x : Int64) : List Char :=
  if x < 0 then '-' :: Nat.toDigits 10 x.toInt.natAbs else Nat.toDigits 10 x.toInt.natAbs

/-- Whether a minus sign stands in front, and what is behind a sign. -/
def sign : List Char → Bool × List Char
  | '-' :: digits => (true, digits)
  | '+' :: digits => (false, digits)
  | digits => (false, digits)

/-- `Long.parseLong`: a sign or none, and digits, of which there is at least one. -/
def parseLong (s : List Char) : Except String Int64 :=
  let text := String.ofList s
  let (negative, digits) := sign s
  let magnitude : Int := Nat.ofDigitChars 10 digits 0
  let value := if negative then -magnitude else magnitude
  if digits = [] ∨ ¬digits.all Char.isDigit ∨ value < -2 ^ 63 ∨ 2 ^ 63 ≤ value then
    .error s!"For input string: \"{text}\""
  else .ok (Int64.ofInt value)

theorem isDigit_of_mem {n : Nat} {c : Char} (h : c ∈ Nat.toDigits 10 n) : c.isDigit = true :=
  Nat.isDigit_of_mem_toDigits (by decide) (by decide) h

/-- Digits do not start with a sign. -/
theorem sign_toDigits (n : Nat) : sign (Nat.toDigits 10 n) = (false, Nat.toDigits 10 n) := by
  cases h : Nat.toDigits 10 n with
  | nil => rfl
  | cons c rest =>
    have hdigit : c.isDigit = true := isDigit_of_mem (h ▸ List.mem_cons_self)
    unfold sign
    split
    · rename_i heq
      cases heq
      simp at hdigit
    · rename_i heq
      cases heq
      simp at hdigit
    · rfl

theorem sign_toString (x : Int64) : sign (toString x) = (decide (x < 0), Nat.toDigits 10 x.toInt.natAbs) := by
  unfold toString
  split
  · rename_i hneg
    rw [decide_eq_true hneg]
    rfl
  · rename_i hneg
    rw [decide_eq_false hneg, sign_toDigits]

/-- **What `toString` writes is read back.** -/
theorem parseLong_toString (x : Int64) : parseLong (toString x) = .ok x := by
  have hlow := x.le_toInt
  have hhigh := x.toInt_lt
  have hall : (Nat.toDigits 10 x.toInt.natAbs).all Char.isDigit = true := List.all_eq_true.mpr fun _ => isDigit_of_mem
  have hvalue : (if decide (x < 0) = true then -(x.toInt.natAbs : Int) else (x.toInt.natAbs : Int)) = x.toInt := by
    simp only [decide_eq_true_eq, Int64.lt_iff_toInt_lt, Int64.toInt_zero]
    split <;> omega
  simp only [parseLong, sign_toString, Nat.ofDigitChars_ten_toDigits, hvalue, hall]
  rw [if_neg, Int64.ofInt_toInt]
  simp only [Nat.toDigits_ne_nil, not_true, false_or, not_or, not_lt, not_le]
  exact ⟨hlow, hhigh⟩

/-- Digits and a sign only. -/
theorem length_toString_le (x : Int64) : (toString x).length ≤ 20 := by
  have habs : x.toInt.natAbs < 10 ^ 19 := by
    have hlo := Int64.le_toInt x
    have hhi := Int64.toInt_lt x
    omega
  have hdigits := (Nat.length_toDigits_le_iff (b := 10) (by omega) (by omega)).mpr habs
  unfold toString
  split
  · rw [List.length_cons]
    omega
  · omega

theorem mem_toString {x : Int64} {c : Char} (h : c ∈ toString x) : c.isDigit = true ∨ c = '-' := by
  unfold toString at h
  split at h
  · rcases List.mem_cons.mp h with rfl | h
    · exact Or.inr rfl
    · exact Or.inl (isDigit_of_mem h)
  · exact Or.inl (isDigit_of_mem h)

end Long

/-! ## Snapshots -/

/-- `OperatorSnapshot`. -/
structure OperatorSnapshot where
  framesOk : Int64
  crcFail : Int64
  gaps : Int64
  dups : Int64
  nodes : Int64
  bytesIn : Int64
  queued : Int64
  lastSeq : Int64
  iaEwmaNs : Int64
  ringDrops : Int64
  sensorVoltage : Int64
  sensorCurrent : Int64
  sensorTemp : Int64
  sensorOther : Int64
  tcpResyncBytes : Int64
  framesLastHop : Int64
  hopIdx0 : Int64
  hopIdx1 : Int64
  hopIdx2Plus : Int64
  framesPerSec : Float
  bytesPerSec : Float
  capturedAtNs : Int64

/-- `MetricsSampler`, beside its pipeline. -/
structure MetricsSampler where
  prevOk : Int64
  prevBytes : Int64
  prevNs : Int64

/-- `snapshot`, at the time `now`. The counters are read one after the other while the receiver goes on: the `i`-th is
that of `seen i`. -/
def MetricsSampler.snapshot (m : MetricsSampler) (now : Int64) (seen : Nat → TelemetryPipeline) :
    OperatorSnapshot × MetricsSampler :=
  let ok := (seen 0).framesOk
  let bytes := (seen 1).bytesIn
  let dt := (now - m.prevNs).toFloat / 1000000000.0
  let fps := if dt > 0 then (ok - m.prevOk).toFloat / dt else 0
  let bps := if dt > 0 then (bytes - m.prevBytes).toFloat / dt else 0
  ({ framesOk := ok
     crcFail := (seen 2).framesCrcFail
     gaps := (seen 3).seqGaps
     dups := (seen 4).seqDups
     nodes := (seen 5).uniqueNodes
     bytesIn := bytes
     queued := Int64.ofNat (seen 6).queued
     lastSeq := (seen 7).lastSeq
     iaEwmaNs := (seen 8).interArrivalEwmaNs
     ringDrops := Int64.ofNat (seen 9).ringDrops
     sensorVoltage := (seen 10).sensorVoltage
     sensorCurrent := (seen 11).sensorCurrent
     sensorTemp := (seen 12).sensorTemp
     sensorOther := (seen 13).sensorOther
     tcpResyncBytes := (seen 14).tcpResync
     framesLastHop := (seen 15).framesLastHop
     hopIdx0 := (seen 16).hopIdx0
     hopIdx1 := (seen 17).hopIdx1
     hopIdx2Plus := (seen 18).hopIdx2Plus
     framesPerSec := fps
     bytesPerSec := bps
     capturedAtNs := now },
   { prevOk := ok, prevBytes := bytes, prevNs := now })

namespace OperatorSnapshot

variable (s : OperatorSnapshot)

/-- `lastHopPct`. -/
def lastHopPct : Float := if s.framesOk > 0 then 100.0 * s.framesLastHop.toFloat / s.framesOk.toFloat else 0.0

/-- The fields of the text, in order. -/
def fields : List (String × Int64) :=
  [("frames_ok", s.framesOk),
   ("crc_fail", s.crcFail),
   ("gaps", s.gaps),
   ("dups", s.dups),
   ("nodes", s.nodes),
   ("bytes", s.bytesIn),
   ("queued", s.queued),
   ("last_seq", s.lastSeq),
   ("ia_ewma_ns", s.iaEwmaNs),
   ("ring_drops", s.ringDrops),
   ("sensor_voltage", s.sensorVoltage),
   ("sensor_current", s.sensorCurrent),
   ("sensor_temp", s.sensorTemp),
   ("sensor_other", s.sensorOther),
   ("tcp_resync_bytes", s.tcpResyncBytes),
   ("last_hop", s.framesLastHop),
   ("last_hop_pct", s.lastHopPct.toInt64),
   ("hop_idx_0", s.hopIdx0),
   ("hop_idx_1", s.hopIdx1),
   ("hop_idx_2p", s.hopIdx2Plus),
   ("frames_s", s.framesPerSec.toInt64),
   ("bytes_s", s.bytesPerSec.toInt64)]

/-- The line of a field. -/
def line (field : String × Int64) : List Char := field.1.toList ++ '=' :: Long.toString field.2

/-- `toPlainText`. -/
def toPlainText : List Char := "zcmesh_stats 1\n".toList ++ s.fields.flatMap fun field => line field ++ ['\n']

theorem length_line (field : String × Int64) : (line field).length ≤ field.1.toList.length + 21 := by
  have hnumber := Long.length_toString_le field.2
  rw [line, List.length_append, List.length_cons]
  omega

theorem length_lines {fields : List (String × Int64)} (h : ∀ field ∈ fields, field.1.toList.length ≤ 16) :
    (fields.flatMap fun field => line field ++ ['\n']).length ≤ 38 * fields.length := by
  induction fields with
  | nil => exact Nat.le_refl 0
  | cons field fields ih =>
    have hfirst := length_line field
    have hkey := h field List.mem_cons_self
    have hrest := ih fun f hf => h f (List.mem_cons_of_mem field hf)
    rw [List.flatMap_cons, List.length_append, List.length_append, List.length_singleton, List.length_cons]
    omega

/-- The text fits a kilobyte. -/
theorem length_toPlainText_le : s.toPlainText.length ≤ 1024 := by
  have hkeys : (s.fields.map fun field => field.1.toList.length).all (· ≤ 16) = true := by
    simp only [fields, List.map_cons, List.map_nil]
    decide
  have hfields := @length_lines s.fields fun field hfield =>
    of_decide_eq_true (List.all_eq_true.mp hkeys _ (List.mem_map_of_mem hfield))
  have hlength : s.fields.length = 22 := rfl
  have hhead : "zcmesh_stats 1\n".toList.length = 15 := by decide
  have htext := @List.length_append _ "zcmesh_stats 1\n".toList (s.fields.flatMap fun field => line field ++ ['\n'])
  unfold toPlainText
  omega

end OperatorSnapshot

/-! ## Reading the text -/

namespace StatsClient

/-- `String.trim` takes these off. -/
def blank (c : Char) : Bool := decide (c ≤ ' ')

/-- A line of the text. -/
def parseLine (m : InOrder (List Char) (List Char)) (line : List Char) : InOrder (List Char) (List Char) :=
  match cutAt '=' (trim blank line) with
  | some (key, value) => if 0 < key.length then m.put key value else m
  | none => m

/-- `parse`. -/
def parse (plain : List Char) : InOrder (List Char) (List Char) := (split '\n' plain).foldl parseLine {}

/-- `longField`, and `requireLong`. -/
def longField (fields : InOrder (List Char) (List Char)) (key : String) : Except String Int64 :=
  match fields.get? key.toList with
  | none => .error s!"missing {key}"
  | some v => if v.isEmpty then .error s!"missing {key}" else Long.parseLong (trim blank v)

end StatsClient

/-! ## What is read is what was written -/

section RoundTrip

open OperatorSnapshot (line)
open StatsClient (blank parseLine parse longField)

/-- A character of a key. -/
def isKeyChar (c : Char) : Bool := c.isAlphanum || c == '_'

theorem isKeyChar_eq (c : Char) : isKeyChar c = (decide (c.val ≥ 'A'.val ∧ c.val ≤ 'Z'.val) ||
    (c.val ≥ 'a'.val && c.val ≤ 'z'.val) || (c.val ≥ '0'.val && c.val ≤ '9'.val) || c == '_') := rfl

theorem keys_ok (s : OperatorSnapshot) : ∀ f ∈ s.fields, f.1.toList ≠ [] ∧ ∀ c ∈ f.1.toList, isKeyChar c = true := by
  have hall : (s.fields.map (·.1)).all (fun k => !k.toList.isEmpty && k.toList.all isKeyChar) = true := by
    simp only [OperatorSnapshot.fields, List.map_cons, List.map_nil]
    decide +kernel
  intro f hf
  have hk := List.all_eq_true.mp hall _ (List.mem_map_of_mem hf)
  simpa using hk

theorem keys_nodup (s : OperatorSnapshot) : (s.fields.map fun f => f.1.toList).Nodup := by
  have hkeys : (s.fields.map (·.1)).Nodup := by
    simp only [OperatorSnapshot.fields, List.map_cons, List.map_nil]
    decide
  have h := hkeys.map (f := String.toList) (fun a b hab => String.toList_inj.mp hab)
  rwa [List.map_map] at h

/-- A character of a line: ASCII, and no blank. -/
def Visible (c : Char) : Prop := 32 < c.toNat ∧ c.toNat < 128

theorem Visible.blank {c : Char} (h : Visible c) : blank c = false := by
  simp only [StatsClient.blank, decide_eq_false_iff_not, Char.le_def, UInt32.le_iff_toNat_le]
  exact Nat.not_le.mpr h.1

theorem Visible.ne_newline {c : Char} (h : Visible c) : '\n' ≠ c := by
  rintro rfl
  exact absurd h.1 (by decide)

theorem visible_key {c : Char} (h : isKeyChar c = true) : Visible c ∧ '=' ≠ c := by
  simp only [isKeyChar_eq, Bool.or_eq_true, Bool.and_eq_true, decide_eq_true_eq, UInt32.le_iff_toNat_le, ge_iff_le,
    beq_iff_eq, Char.toNat_val, Char.reduceToNat] at h
  rcases h with h | rfl
  · refine ⟨⟨by omega, by omega⟩, ?_⟩
    rintro rfl
    revert h
    decide
  · exact ⟨⟨by decide, by decide⟩, by decide⟩

theorem visible_toString {x : Int64} {c : Char} (h : c ∈ Long.toString x) : Visible c := by
  rcases Long.mem_toString h with h | rfl
  · exact (visible_key (by rw [isKeyChar, Char.isAlphanum, h, Bool.or_true, Bool.true_or])).1
  · exact ⟨by decide, by decide⟩

section Fields

variable {s : OperatorSnapshot} {f : String × Int64} (hf : f ∈ s.fields)
include hf

theorem visible_line {c : Char} (hc : c ∈ line f) : Visible c := by
  rcases List.mem_append.mp hc with hc | hc
  · exact (visible_key ((keys_ok s f hf).2 c hc)).1
  · rcases List.mem_cons.mp hc with rfl | hc
    · exact ⟨by decide, by decide⟩
    · exact visible_toString hc

/-- The line of a field is read as the field. -/
theorem parseLine_line (m : InOrder (List Char) (List Char)) :
    parseLine m (line f) = m.put f.1.toList (Long.toString f.2) := by
  obtain ⟨hne, hkey⟩ := keys_ok s f hf
  have hsep : '=' ∉ f.1.toList := fun hmem => (visible_key (hkey _ hmem)).2 rfl
  rw [parseLine, KeyValue.trim_of_none fun c hc => (visible_line hf hc).blank, line, KeyValue.cutAt_append hsep]
  exact if_pos (List.length_pos_iff.mpr hne)

end Fields

/-- The text is made of lines. -/
theorem toPlainText_lines (s : OperatorSnapshot) :
    s.toPlainText = ("zcmesh_stats 1".toList :: s.fields.map line).flatMap (· ++ ['\n']) := by
  rw [List.flatMap_cons, List.flatMap_map]
  rfl

/-- **`parse` finds the fields of a snapshot, and nothing else.** -/
theorem entries_parse (s : OperatorSnapshot) :
    (parse s.toPlainText).entries = s.fields.map fun f => (f.1.toList, Long.toString f.2) := by
  have hsplit : split '\n' s.toPlainText = "zcmesh_stats 1".toList :: s.fields.map line := by
    rw [toPlainText_lines]
    apply KeyValue.split_lines (List.cons_ne_nil _ _)
    · intro l hl
      rcases List.mem_cons.mp hl with rfl | hl
      · decide
      · obtain ⟨f, hf, rfl⟩ := List.mem_map.mp hl
        exact fun hmem => (visible_line hf hmem).ne_newline rfl
    · intro l hl
      rcases List.mem_cons.mp hl with rfl | hl
      · decide
      · obtain ⟨f, _, rfl⟩ := List.mem_map.mp hl
        simp [line]
  have hbanner : parseLine {} "zcmesh_stats 1".toList = {} := by
    have hnone : cutAt '=' (trim blank "zcmesh_stats 1".toList) = none := by decide
    rw [parseLine, hnone]
  have hfold : ∀ (fs : List (String × Int64)) (m : InOrder (List Char) (List Char)), (∀ f ∈ fs, f ∈ s.fields) →
      (fs.map line).foldl parseLine m = m.putAll (fs.map fun f => (f.1.toList, Long.toString f.2)) := by
    intro fs
    induction fs with
    | nil => exact fun _ _ => rfl
    | cons f fs ih =>
      intro m hfs
      rw [List.map_cons, List.foldl_cons, parseLine_line (hfs f List.mem_cons_self)]
      exact ih _ fun g hg => hfs g (List.mem_cons_of_mem f hg)
  rw [parse, hsplit, List.foldl_cons, hbanner, hfold _ _ fun _ hf => hf]
  rw [InOrder.entries_putAll, List.nil_append]
  rw [List.nil_append, List.map_map]
  exact keys_nodup s

/-- **`longField` gives the values.** -/
theorem longField_parse {s : OperatorSnapshot} {key : String} {value : Int64} (h : (key, value) ∈ s.fields) :
    longField (parse s.toPlainText) key = .ok value := by
  have hmem : (key.toList, Long.toString value) ∈ (parse s.toPlainText).entries := by
    rw [entries_parse]
    exact List.mem_map.mpr ⟨_, h, rfl⟩
  have hne : (Long.toString value).isEmpty = false := by
    rw [List.isEmpty_eq_false_iff]
    unfold Long.toString
    split
    · exact List.cons_ne_nil _ _
    · exact Nat.toDigits_ne_nil
  rw [longField, InOrder.get?_of_mem hmem]
  simp only [hne, Bool.false_eq_true, if_false]
  rw [KeyValue.trim_of_none fun c hc => (visible_toString hc).blank, Long.parseLong_toString]

/-- Other keys are missing. -/
theorem longField_missing {s : OperatorSnapshot} {key : String} (h : key ∉ s.fields.map (·.1)) :
    longField (parse s.toPlainText) key = .error s!"missing {key}" := by
  have hnone : key.toList ∉ (parse s.toPlainText).entries.map (·.1) := by
    rw [entries_parse, List.map_map]
    intro hmem
    obtain ⟨f, hf, hkey⟩ := List.mem_map.mp hmem
    exact h (List.mem_map.mpr ⟨f, hf, String.toList_inj.mp hkey⟩)
  rw [longField, InOrder.get?_of_notMem hnone]

end RoundTrip

end ZcMesh.Operator
