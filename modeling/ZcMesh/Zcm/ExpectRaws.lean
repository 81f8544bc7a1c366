import ZcMesh.Lib.CText
import ZcMesh.Wire.Codec
import ZcMesh.Zcm.Inspect

/-!
# The raw values that `zcmesh_inspect` expects

`parse_raws` of `core-engine/src/inspect.cpp` reads the argument of `--expect-raws`. It takes the texts of the grammar
`RawsText`, and nothing else (`parseRaws_iff`); a comma may stand at the end. The check on a recording then compares the
numbers with the first raw values (`expectRaws_iff`).
-/

namespace ZcMesh.Core

open CText
open Runs (run)

/-! ## The code -/

/-- `n` more turns of the loop of `parse_raws`, with `p` to go; `end == p` when as much is left as there was. -/
def parseRawsLoop : Nat → List UInt8 → List Int32 → Option (List Int32)
  | _, [], out => some out
  | 0, _, _ => none
  | n + 1, p, out =>
    let (v, rest) := strtol p
    if rest.length = p.length then none
    else
      match rest with
      | [] => parseRawsLoop n [] (out ++ [v.toInt32])
      | c :: rest => if c = 44 then parseRawsLoop n rest (out ++ [v.toInt32]) else none

/-- `parse_raws`. -/
def parseRaws (s : List UInt8) : Option (List Int32) :=
  if s.isEmpty then none
  else (parseRawsLoop s.length s []).bind fun out => if out.isEmpty then none else some out

/-! ## The texts -/

/-- What a number comes to, perhaps behind white space: cut to 64 bits, then to 32. -/
def rawOf (word : List UInt8) : Option Int32 :=
  (integer? (word.dropWhile isSpace)).map fun v => (Int64.ofIntClamp v).toInt32

/-- Numbers with commas between them, and perhaps one at the end. -/
inductive RawsText : List UInt8 → List Int32 → Prop
  | last {word : List UInt8} {v : Int32} (h : rawOf word = some v) : RawsText word [v]
  | comma {word : List UInt8} {v : Int32} (h : rawOf word = some v) : RawsText (word ++ [44]) [v]
  | cons {word text : List UInt8} {v : Int32} {raws : List Int32} (h : rawOf word = some v)
    (hmore : RawsText text raws) : RawsText (word ++ 44 :: text) (v :: raws)

theorem ne_nil_of_rawOf {word : List UInt8} {v : Int32} (h : rawOf word = some v) : word ≠ [] := by
  rintro rfl
  cases h

theorem strtol_of_rawOf {word : List UInt8} {v : Int32} (h : rawOf word = some v) {tail : List UInt8}
    (htail : ∀ c ∈ tail.head?, isDigit c = false) :
    (strtol (word ++ tail)).1.toInt32 = v ∧ (strtol (word ++ tail)).2 = tail := by
  obtain ⟨n, hn, rfl⟩ := Option.map_eq_some_iff.mp h
  rw [strtol_append hn htail]
  exact ⟨rfl, rfl⟩

theorem RawsText.ne_nil {text : List UInt8} {raws : List Int32} (h : RawsText text raws) : text ≠ [] ∧ raws ≠ [] := by
  cases h with
  | last h => exact ⟨ne_nil_of_rawOf h, List.cons_ne_nil _ _⟩
  | comma h => exact ⟨by simp, List.cons_ne_nil _ _⟩
  | cons h hmore => exact ⟨by simp, List.cons_ne_nil _ _⟩

/-- A turn of the loop in front of a number. -/
theorem parseRawsLoop_word {n : Nat} {word tail : List UInt8} {v : Int32} (h : rawOf word = some v)
    (out : List Int32) : (∀ c ∈ tail.head?, isDigit c = false) →
    parseRawsLoop (n + 1) (word ++ tail) out =
      match tail with
      | [] => parseRawsLoop n [] (out ++ [v])
      | c :: rest => if c = 44 then parseRawsLoop n rest (out ++ [v]) else none := by
  intro htail
  have hne := ne_nil_of_rawOf h
  have hpos := List.length_pos_iff.mpr hne
  obtain ⟨hv, hrest⟩ := strtol_of_rawOf h htail
  obtain ⟨c, more, hcons⟩ := List.exists_cons_of_ne_nil (List.append_ne_nil_of_left_ne_nil hne tail)
  have hlength : tail.length ≠ (word ++ tail).length := by
    rw [List.length_append]
    omega
  rw [hcons] at hv hrest hlength ⊢
  simp only [parseRawsLoop, hv, hrest, hlength, if_false]

/-- **The texts of the grammar are taken.** -/
theorem RawsText.parsed {p : List UInt8} {raws : List Int32} (h : RawsText p raws) {n : Nat} (hn : p.length ≤ n)
    (out : List Int32) : parseRawsLoop n p out = some (out ++ raws) := by
  induction h generalizing n out with
  | @last word v h =>
    have hpos := List.length_pos_iff.mpr (ne_nil_of_rawOf h)
    obtain ⟨n, rfl⟩ : ∃ m, n = m + 1 := ⟨n - 1, by omega⟩
    have hturn : parseRawsLoop (n + 1) (word ++ []) out = parseRawsLoop n [] (out ++ [v]) :=
      parseRawsLoop_word h out nofun
    rw [List.append_nil] at hturn
    rw [hturn]
    cases n <;> rfl
  | @comma word v h =>
    rw [List.length_append, List.length_singleton] at hn
    obtain ⟨n, rfl⟩ : ∃ m, n = m + 1 := ⟨n - 1, by omega⟩
    rw [parseRawsLoop_word h out (by simp [isDigit])]
    cases n <;> rfl
  | @cons word text v raws h hmore ih =>
    rw [List.length_append, List.length_cons] at hn
    obtain ⟨n, rfl⟩ : ∃ m, n = m + 1 := ⟨n - 1, by omega⟩
    have hcomma : ∀ c ∈ (44 :: text).head?, isDigit c = false := by
      intro c hc
      cases hc
      rfl
    rw [parseRawsLoop_word h out hcomma]
    simp only [if_true]
    rw [ih (by omega), List.append_assoc, List.singleton_append]

/-- **Nothing else is.** -/
theorem text_of_parsed {n : Nat} {p : List UInt8} (hne : p ≠ []) {out raws : List Int32}
    (h : parseRawsLoop n p out = some raws) : ∃ more, RawsText p more ∧ raws = out ++ more := by
  induction n generalizing p out with
  | zero =>
    obtain ⟨c, p, rfl⟩ := List.exists_cons_of_ne_nil hne
    cases h
  | succ n ih =>
    obtain ⟨c, p, rfl⟩ := List.exists_cons_of_ne_nil hne
    simp only [parseRawsLoop] at h
    split at h
    · cases h
    · rename_i hmoved
      obtain ⟨word, v, hsplit, hword, hv⟩ := strtol_split hmoved
      have hraw : rawOf word = some (strtol (c :: p)).1.toInt32 := by rw [rawOf, hword, hv]; rfl
      split at h
      · rename_i hrest
        rw [hrest, List.append_nil] at hsplit
        cases h
        refine ⟨[(strtol (c :: p)).1.toInt32], ?_, rfl⟩
        rw [← hsplit] at hraw
        exact .last hraw
      · rename_i c' rest hrest
        rw [hrest] at hsplit
        split at h
        · rename_i hcomma
          subst hcomma
          cases rest with
          | nil =>
            have hend : parseRawsLoop n [] (out ++ [(strtol (c :: p)).1.toInt32]) =
                some (out ++ [(strtol (c :: p)).1.toInt32]) := by cases n <;> rfl
            cases hend.symm.trans h
            refine ⟨[(strtol (c :: p)).1.toInt32], ?_, rfl⟩
            generalize (strtol (c :: p)).1.toInt32 = v' at hraw ⊢
            exact hsplit ▸ .comma hraw
          | cons c'' rest =>
            obtain ⟨more, hmore, rfl⟩ := ih (List.cons_ne_nil _ _) h
            refine ⟨(strtol (c :: p)).1.toInt32 :: more, ?_, by rw [List.append_assoc, List.singleton_append]⟩
            generalize (strtol (c :: p)).1.toInt32 = v' at hraw ⊢
            exact hsplit ▸ .cons hraw hmore
        · cases h

/-- **`parse_raws` takes the texts of the grammar**, with their numbers, and no others. -/
theorem parseRaws_iff {s : List UInt8} {raws : List Int32} : parseRaws s = some raws ↔ RawsText s raws := by
  constructor
  · intro h
    unfold parseRaws at h
    split at h
    · cases h
    · rename_i hne
      obtain ⟨out, hloop, hout⟩ := Option.bind_eq_some_iff.mp h
      split at hout
      · cases hout
      · cases hout
        obtain ⟨more, hmore, rfl⟩ := text_of_parsed (by simpa using hne) hloop
        exact hmore
  · intro h
    obtain ⟨hne, hraws⟩ := h.ne_nil
    have hs : s.isEmpty = false := List.isEmpty_eq_false_iff.mpr hne
    have hr : raws.isEmpty = false := List.isEmpty_eq_false_iff.mpr hraws
    rw [parseRaws, hs, if_neg Bool.false_ne_true, h.parsed (Nat.le_refl _), List.nil_append, Option.bind_some, hr]
    rfl

/-! ## The check -/

/-- The loop over the expected values, on as many values at least. -/
theorem rawsDiffer_eq_none {i : Nat} {wants gots : List Int32} (h : wants.length ≤ gots.length) :
    InspectOptions.rawsDiffer i wants gots = none ↔ wants <+: gots := by
  induction wants generalizing i gots with
  | nil => simp [InspectOptions.rawsDiffer]
  | cons want wants ih =>
    obtain ⟨got, gots, rfl⟩ := List.exists_cons_of_ne_nil (List.ne_nil_of_length_pos (l := gots) (by
      rw [List.length_cons] at h
      omega))
    simp only [InspectOptions.rawsDiffer, List.cons_prefix_cons]
    by_cases heq : got = want
    · simp [heq, ih (Nat.le_of_succ_le_succ h)]
    · simp [heq, Ne.symm heq]

/-- **The values have to be the first ones.** -/
theorem rawsUnmet_eq_none {opts : InspectOptions} {seenRaws : List Int32} :
    opts.rawsUnmet seenRaws = none ↔ opts.expectRaws <+: seenRaws := by
  unfold InspectOptions.rawsUnmet
  split
  · rename_i hempty
    simp [List.isEmpty_iff.mp hempty]
  · split
    · rename_i hshort
      refine ⟨nofun, fun h => ?_⟩
      exact absurd h.length_le (Nat.not_le.mpr hshort)
    · rename_i hlong
      exact rawsDiffer_eq_none (Nat.not_lt.mp hlong)

/-- **`--expect-raws` on a recording**: `zcmesh_inspect` exits with 0 exactly when the argument is a list of numbers, in
the grammar, and these are the first raw values of the recording. -/
theorem expectRaws_iff {mem : Memory} {cs : List WireFrame} (hcs : ∀ c ∈ cs, verifyFrame c = true)
    (hmem : mem.allocates (4 * cs.length) = true) (text : List UInt8) :
    (∃ raws message, parseRaws text = some raws ∧
        (inspect mem { expectRaws := raws } (zcmFile cs)).ending = .exit 0 message) ↔
      ∃ raws, RawsText text raws ∧ raws <+: cs.map (·.rawValue) := by
  have hexit : ∀ raws, (∃ message, (inspect mem { expectRaws := raws } (zcmFile cs)).ending = .exit 0 message) ↔
      raws <+: cs.map (·.rawValue) := by
    intro raws
    have hunmet : ({ expectRaws := raws } : InspectOptions).unmet (run ZcmAnalyze.observe {} cs) (cs.map (·.rawValue)) =
        ({ expectRaws := raws } : InspectOptions).rawsUnmet (cs.map (·.rawValue)) := rfl
    have hnone := @rawsUnmet_eq_none { expectRaws := raws } (cs.map (·.rawValue))
    rw [inspect_zcmFile _ hcs hmem, hunmet, ← hnone]
    cases ({ expectRaws := raws } : InspectOptions).rawsUnmet (cs.map (·.rawValue)) <;> simp
  constructor
  · rintro ⟨raws, message, hparse, hend⟩
    exact ⟨raws, parseRaws_iff.mp hparse, (hexit raws).mp ⟨message, hend⟩⟩
  · rintro ⟨raws, htext, hprefix⟩
    obtain ⟨message, hend⟩ := (hexit raws).mpr hprefix
    exact ⟨raws, message, parseRaws_iff.mpr htext, hend⟩

/-- A recording of one frame with the value -5, and the argument ` -5,`. -/
theorem expectRaws_iff_one :
    ∃ raws message, parseRaws [32, 45, 53, 44] = some raws ∧
      (inspect ⟨fun n => decide (n < 2 ^ 63), by simp⟩ { expectRaws := raws }
        (zcmFile [packFrameInto { goldenSample with rawValue := -5 }])).ending = .exit 0 message := by
  have hverify : ∀ c ∈ [packFrameInto { goldenSample with rawValue := -5 }], verifyFrame c = true := by
    intro c hc
    rw [List.mem_singleton.mp hc]
    exact verifyFrame_packFrameInto _
  have htext : RawsText ([32, 45, 53] ++ [44]) [-5] := .comma (by decide)
  exact (expectRaws_iff hverify (by decide) _).mpr ⟨[-5], htext, List.prefix_rfl⟩

end ZcMesh.Core
