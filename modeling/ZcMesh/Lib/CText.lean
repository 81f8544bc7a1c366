import Mathlib.Data.Int.Order.Basic
import Mathlib.Data.List.TakeWhile

/-!
# Numbers and words in C strings

* `strtol` and `atoi` in base 10, with a `long` of 64 bits, and `strrchr`, on the bytes in front of the terminating NUL.
* `integer?` reads an optional sign and digits and nothing else. `strtol` reads a text without white space in front to
  its end exactly when it is one (`strtol_whole`).
* `nextToken` is what `>>` takes into a `std::string`; taking one after the other gives the words of the text, `tokens`
  (`tokens_eq`).
-/

namespace CText

/-! ## Characters -/

/-- `isspace` in the C locale. -/
def isSpace (c : UInt8) : Bool := c == 32 || (decide (9 ≤ c) && decide (c ≤ 13))

def isDigit (c : UInt8) : Bool := decide (48 ≤ c) && decide (c ≤ 57)

/-- The string in a buffer: the bytes in front of the first NUL. -/
def cstr (buf : List UInt8) : List UInt8 := buf.takeWhile (· != 0)

/-- A NUL-terminated string. -/
abbrev CString := { s : List UInt8 // 0 ∉ s }

theorem cstr_eq_self_iff {s : List UInt8} : cstr s = s ↔ 0 ∉ s := by
  rw [cstr, List.takeWhile_eq_self_iff]
  exact ⟨fun h h0 => absurd (h 0 h0) (by decide), fun h c hc => bne_iff_ne.mpr fun h0 => h (h0 ▸ hc)⟩

/-- What stands behind a NUL is no part of the string. -/
theorem cstr_append_nul (s rest : List UInt8) : cstr (s ++ 0 :: rest) = cstr s := by
  induction s with
  | nil => rfl
  | cons c s ih =>
    simp only [cstr, List.cons_append, List.takeWhile_cons] at ih ⊢
    rw [ih]

theorem cstr_of_nul_free {s : List UInt8} (h : 0 ∉ s) (rest : List UInt8) : cstr (s ++ 0 :: rest) = s := by
  rw [cstr_append_nul, cstr_eq_self_iff.mpr h]

theorem mem_of_mem_cstr {s : List UInt8} {c : UInt8} (h : c ∈ cstr s) : c ∈ s := (List.takeWhile_sublist _).subset h

/-! ## Searching -/

/-- `strrchr`: what stands in front of the last `c`, and what behind it. -/
def strrchr (c : UInt8) : List UInt8 → Option (List UInt8 × List UInt8)
  | [] => none
  | a :: s =>
    match strrchr c s with
    | some (front, back) => some (a :: front, back)
    | none => if a = c then some ([], s) else none

theorem strrchr_eq_none {c : UInt8} {s : List UInt8} : strrchr c s = none ↔ c ∉ s := by
  induction s with
  | nil => simp [strrchr]
  | cons a s ih =>
    rw [strrchr, List.mem_cons, not_or, ← ih]
    cases hs : strrchr c s with
    | none =>
      by_cases ha : a = c
      · simp [ha]
      · simp [ha, Ne.symm ha]
    | some p => simp

theorem strrchr_spec {c : UInt8} {s front back : List UInt8} (h : strrchr c s = some (front, back)) :
    s = front ++ c :: back ∧ c ∉ back := by
  induction s generalizing front with
  | nil => cases h
  | cons a s ih =>
    rw [strrchr] at h
    cases hs : strrchr c s with
    | none =>
      rw [hs] at h
      by_cases ha : a = c
      · rw [if_pos ha] at h
        cases h
        rw [ha]
        exact ⟨rfl, strrchr_eq_none.mp hs⟩
      · rw [if_neg ha] at h
        cases h
    | some p =>
      obtain ⟨front', back'⟩ := p
      rw [hs] at h
      cases h
      obtain ⟨heq, hback⟩ := ih hs
      exact ⟨by rw [heq]; rfl, hback⟩

/-- There is one place only. -/
theorem strrchr_append {c : UInt8} (front : List UInt8) {back : List UInt8} (h : c ∉ back) :
    strrchr c (front ++ c :: back) = some (front, back) := by
  induction front with
  | nil =>
    rw [List.nil_append, strrchr, strrchr_eq_none.mpr h]
    exact if_pos rfl
  | cons a front ih => rw [List.cons_append, strrchr, ih]

/-! ## Numbers -/

/-- The number that the digits denote. -/
def numeral (digits : List UInt8) : Nat := digits.foldl (fun n c => 10 * n + (c.toNat - 48)) 0

/-- An optional sign: whether it is a minus, and what follows. -/
def signed : List UInt8 → Bool × List UInt8
  | 45 :: s => (true, s)
  | 43 :: s => (false, s)
  | s => (false, s)

def value (minus : Bool) (digits : List UInt8) : Int := if minus then -(numeral digits : Int) else numeral digits

/-- `strtol` in base 10: the value, at the end of the range when it is beyond, and what `end` points to. Without digits
that is the text itself. -/
def strtol (s : List UInt8) : Int64 × List UInt8 :=
  let (minus, t) := signed (s.dropWhile isSpace)
  let digits := t.takeWhile isDigit
  if digits.isEmpty then (0, s) else (Int64.ofIntClamp (value minus digits), t.dropWhile isDigit)

/-- `atoi`. -/
def atoi (s : List UInt8) : Int32 := (strtol s).1.toInt32

/-- The number at the front of the text, behind white space; 0 without digits. -/
def leading (s : List UInt8) : Int :=
  let (minus, t) := signed (s.dropWhile isSpace)
  value minus (t.takeWhile isDigit)

/-- A decimal integer: an optional sign and digits. -/
def integer? (s : List UInt8) : Option Int :=
  let (minus, t) := signed s
  if !t.isEmpty && t.all isDigit then some (value minus t) else none

theorem strtol_value (s : List UInt8) : (strtol s).1 = Int64.ofIntClamp (leading s) := by
  unfold strtol leading
  generalize signed (s.dropWhile isSpace) = p
  obtain ⟨minus, t⟩ := p
  simp only
  split
  · rename_i hnone
    rw [List.isEmpty_iff] at hnone
    rw [hnone]
    cases minus <;> rfl
  · rfl

/-- The low 16 bits of `atoi` are all 0 for the multiples of 65536 in the range of a `long`, and for what is below that
range: the least `long` is a multiple, the greatest is not. -/
theorem atoi_low_iff (s : List UInt8) : (atoi s).toInt % 65536 = 0 ↔
    (leading s % 65536 = 0 ∧ leading s < 9223372036854775808) ∨ leading s < -9223372036854775808 := by
  have hmin : Int64.minValue.toInt = -9223372036854775808 := by decide
  have hmax : Int64.maxValue.toInt = 9223372036854775807 := by decide
  have hlow (v : Int64) : v.toInt32.toInt % 65536 = v.toInt % 65536 := by
    have hdvd : (65536 : Int) ∣ ((2 ^ 32 : Nat) : Int) := by decide
    rw [Int64.toInt_toInt32, ← Int.emod_emod_of_dvd _ hdvd, Int.bmod_emod, Int.emod_emod_of_dvd _ hdvd]
  rw [atoi, strtol_value, hlow]
  by_cases hlo : leading s < -9223372036854775808
  · rw [Int64.ofIntClamp, dif_neg (by omega), hmin]
    exact ⟨fun _ => .inr hlo, fun _ => by decide⟩
  · by_cases hhi : leading s < 9223372036854775808
    · rw [Int64.toInt_ofIntClamp (by omega) (by omega)]
      omega
    · rw [Int64.ofIntClamp, dif_pos (by omega), dif_neg (by omega), hmax]
      omega

/-- A text without white space in front. -/
def Unspaced (s : List UInt8) : Prop := ∀ c ∈ s.head?, isSpace c = false

theorem dropWhile_unspaced {s : List UInt8} (h : Unspaced s) : s.dropWhile isSpace = s := by
  cases s with
  | nil => rfl
  | cons c s => rw [List.dropWhile_cons, h c rfl]; rfl

theorem strtol_of_integer {s : List UInt8} {v : Int} (hlead : Unspaced s) (h : integer? s = some v) :
    strtol s = (Int64.ofIntClamp v, []) := by
  unfold integer? at h
  unfold strtol
  rw [dropWhile_unspaced hlead]
  generalize signed s = p at h
  obtain ⟨minus, t⟩ := p
  simp only at h ⊢
  split at h
  · rename_i hdigits
    cases h
    rw [Bool.and_eq_true, List.all_eq_true] at hdigits
    obtain ⟨hne, hall⟩ := hdigits
    rw [List.takeWhile_eq_self_iff.mpr hall, List.dropWhile_eq_nil_iff.mpr hall, if_neg (by simpa using hne)]
  · cases h

theorem integer_of_strtol {s : List UInt8} (hlead : Unspaced s) (hne : s ≠ []) (h : (strtol s).2 = []) :
    ∃ v, integer? s = some v := by
  unfold strtol at h
  unfold integer?
  rw [dropWhile_unspaced hlead] at h
  generalize signed s = p at h
  obtain ⟨minus, t⟩ := p
  simp only at h ⊢
  split at h
  · exact absurd h hne
  · rename_i hdigits
    have hall : ∀ c ∈ t, isDigit c = true := List.dropWhile_eq_nil_iff.mp h
    rw [List.takeWhile_eq_self_iff.mpr hall] at hdigits
    refine ⟨value minus t, if_pos ?_⟩
    rw [Bool.and_eq_true, List.all_eq_true]
    exact ⟨by simpa using hdigits, hall⟩

/-- `strtol` reads to the end of the decimal integers, and of nothing else. -/
theorem strtol_whole {s : List UInt8} (hlead : Unspaced s) :
    (s ≠ [] ∧ (strtol s).2 = []) ↔ ∃ v, integer? s = some v := by
  refine ⟨fun h => integer_of_strtol hlead h.1 h.2, ?_⟩
  rintro ⟨v, hv⟩
  refine ⟨?_, by rw [strtol_of_integer hlead hv]⟩
  intro hnil
  rw [hnil] at hv
  cases hv

/-- There is no NUL in a decimal integer. -/
theorem nul_free_of_integer {s : List UInt8} {v : Int} (h : integer? s = some v) : 0 ∉ s := by
  have hsigned : 0 ∈ s → 0 ∈ (signed s).2 := by
    unfold signed
    intro h0
    split
    · exact (List.mem_cons.mp h0).resolve_left (by decide)
    · exact (List.mem_cons.mp h0).resolve_left (by decide)
    · exact h0
  intro h0
  have hmem := hsigned h0
  unfold integer? at h
  simp only at h
  split at h
  · rename_i hdigits
    rw [Bool.and_eq_true, List.all_eq_true] at hdigits
    exact absurd (hdigits.2 0 hmem) (by decide)
  · cases h

/-- Digits without a sign. -/
theorem integer_of_digits {s : List UInt8} (hne : s ≠ []) (hall : ∀ c ∈ s, isDigit c = true) :
    integer? s = some (numeral s) := by
  obtain ⟨c, t, rfl⟩ := List.exists_cons_of_ne_nil hne
  have hc := hall c List.mem_cons_self
  have hsigned : signed (c :: t) = (false, c :: t) := by
    unfold signed
    split
    · rename_i heq
      cases heq
      exact absurd hc (by decide)
    · rename_i heq
      cases heq
      exact absurd hc (by decide)
    · rfl
  unfold integer?
  rw [hsigned]
  exact if_pos (by rw [Bool.and_eq_true, List.all_eq_true]; exact ⟨rfl, hall⟩)

theorem isSpace_of_isDigit {c : UInt8} (h : isDigit c = true) : isSpace c = false := by
  simp only [isDigit, Bool.and_eq_true, decide_eq_true_eq, UInt8.le_iff_toNat_le] at h
  have h48 : (48 : UInt8).toNat = 48 := rfl
  have h57 : (57 : UInt8).toNat = 57 := rfl
  have hne : c ≠ 32 := by
    rintro rfl
    exact absurd h.1 (by decide)
  have hle : ¬ c ≤ 13 := by
    rw [UInt8.le_iff_toNat_le]
    have h13 : (13 : UInt8).toNat = 13 := rfl
    omega
  simp [isSpace, hne, hle]

theorem unspaced_of_digits {s : List UInt8} (hall : ∀ c ∈ s, isDigit c = true) : Unspaced s :=
  fun c hc => isSpace_of_isDigit (hall c (List.mem_of_head? hc))

/-- Nothing but a sign or a digit is in front of a decimal integer. -/
theorem unspaced_of_integer {s : List UInt8} {v : Int} (h : integer? s = some v) : Unspaced s := by
  intro c hc
  obtain ⟨t, rfl⟩ : ∃ t, s = c :: t := by
    cases s with
    | nil => cases hc
    | cons d t =>
      cases hc
      exact ⟨t, rfl⟩
  by_cases hminus : c = 45
  · rw [hminus]
    rfl
  · by_cases hplus : c = 43
    · rw [hplus]
      rfl
    · have hsigned : signed (c :: t) = (false, c :: t) := by
        unfold signed
        split <;> simp_all
      simp only [integer?, hsigned] at h
      split at h
      · rename_i hdigits
        rw [Bool.and_eq_true, List.all_eq_true] at hdigits
        exact isSpace_of_isDigit (hdigits.2 c List.mem_cons_self)
      · cases h

/-! ### Numbers in front of something else -/

theorem signed_append {s t : List UInt8} {minus : Bool} (h : signed s = (minus, t)) (hne : t ≠ []) (tail : List UInt8) :
    signed (s ++ tail) = (minus, t ++ tail) := by
  unfold signed at h
  split at h
  · cases h
    rfl
  · cases h
    rfl
  · rename_i hminus hplus
    cases h
    obtain ⟨c, s, rfl⟩ := List.exists_cons_of_ne_nil hne
    unfold signed
    split
    · rename_i heq
      cases heq
      exact absurd rfl (hminus s)
    · rename_i heq
      cases heq
      exact absurd rfl (hplus s)
    · rfl

/-- A sign, if there is one, can be taken off any digits. -/
theorem signed_split {s t : List UInt8} {minus : Bool} (h : signed s = (minus, t)) :
    ∃ sign, s = sign ++ t ∧ (∀ c ∈ sign, isSpace c = false) ∧
      ∀ digits, digits ≠ [] → (∀ c ∈ digits, isDigit c = true) → signed (sign ++ digits) = (minus, digits) := by
  unfold signed at h
  split at h
  · cases h
    exact ⟨[45], rfl, by simp [isSpace], fun _ _ _ => rfl⟩
  · cases h
    exact ⟨[43], rfl, by simp [isSpace], fun _ _ _ => rfl⟩
  · cases h
    refine ⟨[], rfl, nofun, fun digits hne hall => ?_⟩
    obtain ⟨c, digits, rfl⟩ := List.exists_cons_of_ne_nil hne
    have hc := hall c List.mem_cons_self
    unfold signed
    split
    · rename_i heq
      cases heq
      exact absurd hc (by decide)
    · rename_i heq
      cases heq
      exact absurd hc (by decide)
    · rfl

/-- **`strtol` stops behind a number**, when no digit follows. -/
theorem strtol_append {word : List UInt8} {v : Int} (h : integer? (word.dropWhile isSpace) = some v)
    {tail : List UInt8} (htail : ∀ c ∈ tail.head?, isDigit c = false) :
    strtol (word ++ tail) = (Int64.ofIntClamp v, tail) := by
  unfold integer? at h
  generalize hsigned : signed (word.dropWhile isSpace) = p at h
  obtain ⟨minus, t⟩ := p
  simp only at h
  split at h
  · rename_i hdigits
    cases h
    rw [Bool.and_eq_true, List.all_eq_true] at hdigits
    obtain ⟨hne, hall⟩ := hdigits
    have hne' : t ≠ [] := by simpa using hne
    have hword : (word.dropWhile isSpace).isEmpty = false := by
      rw [List.isEmpty_eq_false_iff]
      intro hnil
      rw [hnil] at hsigned
      cases hsigned
      exact hne' rfl
    have hstop : tail.takeWhile isDigit = [] ∧ tail.dropWhile isDigit = tail := by
      cases tail with
      | nil => exact ⟨rfl, rfl⟩
      | cons c tail => simp [htail c rfl]
    have htake : (t ++ tail).takeWhile isDigit = t := by
      rw [List.takeWhile_append_of_pos hall, hstop.1, List.append_nil]
    have hdrop : (t ++ tail).dropWhile isDigit = tail := by
      rw [List.dropWhile_append_of_pos hall, hstop.2]
    unfold strtol
    rw [List.dropWhile_append, hword, if_neg Bool.false_ne_true, signed_append hsigned hne']
    simp only [htake, hdrop]
    rw [if_neg (by simpa using hne')]
  · cases h

/-- **Where it gets on, it has read a number**, perhaps behind white space. -/
theorem strtol_split {s : List UInt8} (h : (strtol s).2.length ≠ s.length) :
    ∃ word v, s = word ++ (strtol s).2 ∧ integer? (word.dropWhile isSpace) = some v ∧
      (strtol s).1 = Int64.ofIntClamp v := by
  unfold strtol at h ⊢
  generalize hsigned : signed (s.dropWhile isSpace) = p at h ⊢
  obtain ⟨minus, t⟩ := p
  simp only at h ⊢
  split at h
  · exact absurd rfl h
  · rename_i hdigits
    rw [if_neg hdigits]
    have hne : t.takeWhile isDigit ≠ [] := by simpa using hdigits
    have hall : ∀ c ∈ t.takeWhile isDigit, isDigit c = true := fun c hc => List.mem_takeWhile_imp hc
    obtain ⟨sign, hsplit, hsign, hdigits'⟩ := signed_split hsigned
    refine ⟨s.takeWhile isSpace ++ (sign ++ t.takeWhile isDigit), value minus (t.takeWhile isDigit), ?_, ?_, rfl⟩
    · rw [List.append_assoc, List.append_assoc, List.takeWhile_append_dropWhile, ← hsplit,
        List.takeWhile_append_dropWhile]
    · have hunspaced : Unspaced (sign ++ t.takeWhile isDigit) := by
        intro c hc
        rcases List.mem_append.mp (List.mem_of_head? hc) with hc | hc
        · exact hsign c hc
        · exact isSpace_of_isDigit (hall c hc)
      rw [List.dropWhile_append_of_pos fun c hc => List.mem_takeWhile_imp hc, dropWhile_unspaced hunspaced, integer?,
        hdigits' _ hne hall]
      exact if_pos (by rw [Bool.and_eq_true, List.all_eq_true]; exact ⟨by simpa using hne, hall⟩)

/-- What an `int` has room for comes through. -/
theorem toInt_narrow {v : Int} (hlo : -2147483648 ≤ v) (hhi : v < 2147483648) :
    (Int64.ofIntClamp v).toInt32.toInt = v := by
  have hmin : Int64.minValue.toInt = -9223372036854775808 := by decide
  have hmax : Int64.maxValue.toInt = 9223372036854775807 := by decide
  rw [Int64.toInt_toInt32, Int64.toInt_ofIntClamp (by omega) (by omega)]
  exact Int.bmod_eq_of_le_mul_two (by omega) (by omega)

/-- What `atoi` makes of digits that an `int` has room for. -/
theorem toInt_atoi {s : List UInt8} (hne : s ≠ []) (hall : ∀ c ∈ s, isDigit c = true)
    (h : numeral s < 2147483648) : (atoi s).toInt = numeral s := by
  rw [atoi, strtol_of_integer (unspaced_of_digits hall) (integer_of_digits hne hall)]
  exact toInt_narrow (by omega) (by omega)

/-- What `atoi` makes of a decimal integer that an `int` has room for. -/
theorem atoi_of_integer {s : List UInt8} {v : Int} (h : integer? s = some v) (hlo : -2147483648 ≤ v)
    (hhi : v < 2147483648) : atoi s = Int32.ofInt v := by
  apply Int32.toInt_inj.mp
  rw [atoi, strtol_of_integer (unspaced_of_integer h) h, toInt_narrow hlo hhi, Int32.toInt_ofInt_of_le hlo hhi]

/-! ## Words -/

/-- `>>` into a `std::string`: the next word, and what is behind it. -/
def nextToken (s : List UInt8) : Option (List UInt8 × List UInt8) :=
  let t := s.dropWhile isSpace
  if t.isEmpty then none else some (t.takeWhile (!isSpace ·), t.dropWhile (!isSpace ·))

/-- The words of a text. -/
def tokens (s : List UInt8) : List (List UInt8) := (s.splitOnP isSpace).filter (!·.isEmpty)

/-- A word: not empty, and without white space. -/
def IsWord (tok : List UInt8) : Prop := tok ≠ [] ∧ ∀ c ∈ tok, isSpace c = false

/-- The string in a word has no white space in front. -/
theorem IsWord.unspaced_cstr {tok : List UInt8} (h : IsWord tok) : Unspaced (cstr tok) :=
  fun c hc => h.2 c (mem_of_mem_cstr (List.mem_of_head? hc))

theorem tokens_space {c : UInt8} (hc : isSpace c = true) (s : List UInt8) : tokens (c :: s) = tokens s := by
  rw [tokens, List.splitOnP_cons_eq_if_modifyHead, if_pos hc]
  rfl

theorem tokens_dropWhile (s : List UInt8) : tokens (s.dropWhile isSpace) = tokens s := by
  induction s with
  | nil => rfl
  | cons c s ih =>
    rw [List.dropWhile_cons]
    split
    · rename_i hc
      rw [ih, tokens_space hc]
    · rfl

/-- A word with nothing but white space behind it is the first one. -/
theorem tokens_word {tok rest : List UInt8} (h : IsWord tok) (hrest : ∀ c ∈ rest.head?, isSpace c = true) :
    tokens (tok ++ rest) = tok :: tokens rest := by
  have hne : (!tok.isEmpty) = true := by simpa using h.1
  cases rest with
  | nil =>
    rw [List.append_nil, tokens, List.splitOnP_eq_singleton h.2, List.filter_cons, if_pos hne]
    rfl
  | cons c rest =>
    have hc := hrest c rfl
    rw [tokens_space hc, tokens, List.splitOnP_append_cons_of_forall_mem h.2 c hc, List.filter_cons, if_pos hne]
    rfl

/-- White space ends a word, so the words in front of it and behind it are all. -/
theorem tokens_append {c : UInt8} (hc : isSpace c = true) (front back : List UInt8) :
    tokens (front ++ c :: back) = tokens front ++ tokens back := by
  rw [tokens, List.splitOnP_append_cons front back hc, List.filter_append]
  rfl

/-- The words of a text are those of its lines. -/
theorem tokens_lines (s : List UInt8) : tokens s = (s.splitOn 10).flatMap tokens := by
  by_cases hline : (10 : UInt8) ∈ s
  · obtain ⟨line, rest, hs, hfirst⟩ := List.eq_append_cons_of_mem hline
    have hlt : rest.length < s.length := by
      rw [hs, List.length_append, List.length_cons]
      omega
    rw [hs, tokens_append (by decide), List.splitOn_append_cons_self_of_not_mem hfirst, List.flatMap_cons,
      tokens_lines rest]
  · rw [List.splitOn_eq_singleton hline, List.flatMap_singleton]
  termination_by s.length

theorem nextToken_spec {s tok rest : List UInt8} (h : nextToken s = some (tok, rest)) :
    IsWord tok ∧ s.dropWhile isSpace = tok ++ rest ∧ ∀ c ∈ rest.head?, isSpace c = true := by
  unfold nextToken at h
  simp only at h
  split at h
  · cases h
  · rename_i hne
    cases h
    refine ⟨⟨?_, ?_⟩, (List.takeWhile_append_dropWhile).symm, ?_⟩
    · -- the first byte is not white space
      obtain ⟨c, t, ht⟩ := List.exists_cons_of_ne_nil (List.isEmpty_eq_false_iff.mp (Bool.not_eq_true _ ▸ hne))
      have hc : isSpace c = false := by
        have hhead := List.head?_dropWhile_not isSpace s
        rw [ht] at hhead
        simpa using hhead
      rw [ht, List.takeWhile_cons, hc]
      exact List.cons_ne_nil _ _
    · intro c hc
      simpa using List.mem_takeWhile_imp hc
    · intro c hc
      have hhead := List.head?_dropWhile_not (!isSpace ·) (s.dropWhile isSpace)
      rw [Option.mem_def.mp hc] at hhead
      simpa using hhead

theorem nextToken_none {s : List UInt8} (h : nextToken s = none) : tokens s = [] := by
  unfold nextToken at h
  simp only at h
  split at h
  · rename_i hempty
    rw [← tokens_dropWhile, List.isEmpty_iff.mp hempty]
    rfl
  · cases h

/-- What is taken is the first word, and the others are behind it. -/
theorem tokens_eq {s tok rest : List UInt8} (h : nextToken s = some (tok, rest)) :
    tokens s = tok :: tokens rest := by
  obtain ⟨hword, heq, hrest⟩ := nextToken_spec h
  rw [← tokens_dropWhile, heq, tokens_word hword hrest]

theorem length_nextToken {s tok rest : List UInt8} (h : nextToken s = some (tok, rest)) : rest.length < s.length := by
  obtain ⟨hword, heq, _⟩ := nextToken_spec h
  have htok := List.length_pos_iff.mpr hword.1
  have hdrop := (List.dropWhile_sublist isSpace (l := s)).length_le
  rw [heq, List.length_append] at hdrop
  omega

theorem isWord_of_mem {s tok : List UInt8} (h : tok ∈ tokens s) : IsWord tok := by
  cases hnext : nextToken s with
  | none =>
    rw [nextToken_none hnext] at h
    cases h
  | some p =>
    obtain ⟨first, rest⟩ := p
    have hlt := length_nextToken hnext
    rw [tokens_eq hnext] at h
    rcases List.mem_cons.mp h with rfl | h
    · exact (nextToken_spec hnext).1
    · exact isWord_of_mem h
  termination_by s.length

end CText
