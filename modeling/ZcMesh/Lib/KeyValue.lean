import Mathlib.Data.List.Basic
import Mathlib.Data.List.Nodup

/-!
# Texts of lines `key=value`

* `split` cuts a text at a separator; of lines that each end in one it gives the lines (`split_lines`).
* `trim` takes blanks off both ends; `cutAt` looks for the first separator inside a line.
* `InOrder` is a map that keeps the order of insertion. Putting in what has distinct keys gives it back
  (`entries_putAll`), and the value of each key is found (`get?_of_mem`).
-/

namespace KeyValue

/-! ## Lines -/

section Lines

variable {α : Type*} [DecidableEq α]

/-- Without the empty parts at the end. -/
def dropTrailing (parts : List (List α)) : List (List α) := (parts.reverse.dropWhile List.isEmpty).reverse

/-- The parts of a text between separators, without the empty ones at its end; a text without a separator is one
part. -/
def split (sep : α) (text : List α) : List (List α) :=
  if sep ∈ text then dropTrailing (text.splitOn sep) else [text]

omit [DecidableEq α] in
/-- Lines with an end each are the same lines, and an empty one, with separators between them. -/
theorem flatMap_lines (sep : α) {lines : List (List α)} (hne : lines ≠ []) :
    lines.flatMap (· ++ [sep]) = [sep].intercalate (lines ++ [[]]) := by
  induction lines with
  | nil => exact absurd rfl hne
  | cons l lines ih =>
    cases lines with
    | nil => simp [List.intercalate]
    | cons m lines =>
      have hrest := ih (List.cons_ne_nil m lines)
      rw [List.flatMap_cons, hrest]
      simp [List.intercalate]

/-- **Splitting lines gives the lines.** -/
theorem split_lines {sep : α} {lines : List (List α)} (hne : lines ≠ []) (hsep : ∀ l ∈ lines, sep ∉ l)
    (hfull : ∀ l ∈ lines, l ≠ []) : split sep (lines.flatMap (· ++ [sep])) = lines := by
  have hmem : sep ∈ lines.flatMap (· ++ [sep]) := by
    obtain ⟨l, hl⟩ := List.exists_mem_of_ne_nil lines hne
    exact List.mem_flatMap.mpr ⟨l, hl, List.mem_append_right l (List.mem_singleton.mpr rfl)⟩
  have hparts : ∀ l ∈ lines ++ [[]], sep ∉ l := by
    intro l hl
    rcases List.mem_append.mp hl with hl | hl
    · exact hsep l hl
    · rw [List.mem_singleton.mp hl]
      exact List.not_mem_nil
  rw [split, if_pos hmem, flatMap_lines sep hne, List.splitOn_intercalate sep hparts (by simp), dropTrailing]
  obtain ⟨front, last, rfl⟩ := (List.eq_nil_or_concat lines).resolve_left hne
  have hlast : last.isEmpty = false := by simpa using hfull last (by simp)
  simp [hlast]

end Lines

/-! ## Blanks and separators -/

section Line

variable {α : Type*}

/-- Without the blanks at both ends. -/
def trim (blank : α → Bool) (text : List α) : List α := ((text.dropWhile blank).reverse.dropWhile blank).reverse

/-- A text without blanks is left as it is. -/
theorem trim_of_none {blank : α → Bool} {text : List α} (h : ∀ c ∈ text, blank c = false) :
    trim blank text = text := by
  have hdrop : ∀ l : List α, (∀ c ∈ l, blank c = false) → l.dropWhile blank = l := by
    intro l hl
    cases l with
    | nil => rfl
    | cons c l => rw [List.dropWhile_cons, hl c List.mem_cons_self, if_neg Bool.false_ne_true]
  rw [trim, hdrop text h, hdrop _ fun c hc => h c (List.mem_reverse.mp hc), List.reverse_reverse]

variable [DecidableEq α]

/-- What stands in front of the first separator, and what behind it. -/
def cutAt (sep : α) (text : List α) : Option (List α × List α) :=
  (text.idxOf? sep).map fun i => (text.take i, text.drop (i + 1))

theorem cutAt_append {sep : α} {key : List α} (h : sep ∉ key) (value : List α) :
    cutAt sep (key ++ sep :: value) = some (key, value) := by
  have hidx : (key ++ sep :: value).idxOf? sep = some key.length := by
    induction key with
    | nil => simp [List.idxOf?_cons]
    | cons c key ih =>
      have hc : (c == sep) = false := by
        rw [beq_eq_false_iff_ne]
        rintro rfl
        exact h List.mem_cons_self
      rw [List.cons_append, List.idxOf?_cons, hc, ih fun hmem => h (List.mem_cons_of_mem c hmem)]
      rfl
  rw [cutAt, hidx]
  simp

end Line

/-! ## Maps in the order of insertion -/

section Maps

variable {κ β : Type*} [DecidableEq κ]

/-- A map that keeps the order in which its keys came in. -/
structure InOrder (κ β : Type*) where
  entries : List (κ × β) := []
  nodup : (entries.map (·.1)).Nodup := by exact List.nodup_nil

namespace InOrder

/-- A value for a key: in the place of the old one, if there is one. -/
def put (m : InOrder κ β) (k : κ) (v : β) : InOrder κ β where
  entries :=
    if k ∈ m.entries.map (·.1) then m.entries.map fun e => if e.1 = k then (k, v) else e else m.entries ++ [(k, v)]
  nodup := by
    have hnodup := m.nodup
    split
    · have hkeys : (m.entries.map fun e => if e.1 = k then (k, v) else e).map (·.1) = m.entries.map (·.1) := by
        rw [List.map_map]
        apply List.map_congr_left
        intro e _
        simp only [Function.comp_apply]
        split
        · rename_i hk
          exact hk.symm
        · rfl
      rw [hkeys]
      exact hnodup
    · rename_i hk
      rw [List.map_append]
      refine List.nodup_append.mpr ⟨hnodup, List.nodup_singleton k, ?_⟩
      intro a ha b hb hab
      obtain rfl : b = k := List.mem_singleton.mp hb
      exact hk (hab ▸ ha)

/-- The value of a key. -/
def get? (m : InOrder κ β) (k : κ) : Option β := (m.entries.find? (·.1 = k)).map (·.2)

/-- All entries of a list, one after the other. -/
def putAll (m : InOrder κ β) (es : List (κ × β)) : InOrder κ β := es.foldl (fun m e => m.put e.1 e.2) m

theorem entries_put {m : InOrder κ β} {k : κ} (h : k ∉ m.entries.map (·.1)) (v : β) :
    (m.put k v).entries = m.entries ++ [(k, v)] := if_neg h

theorem mem_put {m : InOrder κ β} {k : κ} {v : β} {e : κ × β} (h : e ∈ (m.put k v).entries) :
    e = (k, v) ∨ e ∈ m.entries := by
  simp only [put] at h
  split at h
  · obtain ⟨e', he', rfl⟩ := List.mem_map.mp h
    split
    · exact Or.inl rfl
    · exact Or.inr he'
  · rcases List.mem_append.mp h with h | h
    · exact Or.inr h
    · exact Or.inl (List.mem_singleton.mp h)

theorem keys_put (m : InOrder κ β) (k : κ) (v : β) : (m.put k v).entries.map (·.1) =
    if k ∈ m.entries.map (·.1) then m.entries.map (·.1) else m.entries.map (·.1) ++ [k] := by
  by_cases h : k ∈ m.entries.map (·.1)
  · have hentries : (m.put k v).entries = m.entries.map fun e => if e.1 = k then (k, v) else e := if_pos h
    rw [if_pos h, hentries, List.map_map]
    apply List.map_congr_left
    intro e _
    by_cases he : e.1 = k <;> simp [he]
  · rw [if_neg h, entries_put h, List.map_append]
    rfl

/-- **New keys are appended.** -/
theorem entries_putAll {m : InOrder κ β} {es : List (κ × β)} (h : ((m.entries ++ es).map (·.1)).Nodup) :
    (m.putAll es).entries = m.entries ++ es := by
  induction es generalizing m with
  | nil => exact (List.append_nil _).symm
  | cons e es ih =>
    have hnew : e.1 ∉ m.entries.map (·.1) := by
      rw [List.map_append, List.map_cons] at h
      intro hmem
      exact (List.nodup_append.mp h).2.2 _ hmem _ List.mem_cons_self rfl
    have hput := entries_put hnew e.2
    have hsame : m.entries ++ e :: es = (m.put e.1 e.2).entries ++ es := by
      rw [hput, List.append_assoc, List.singleton_append]
    rw [hsame] at h ⊢
    exact ih h

/-- The value of a key is found. -/
theorem get?_of_mem {m : InOrder κ β} {k : κ} {v : β} (h : (k, v) ∈ m.entries) : m.get? k = some v := by
  have hnodup := m.nodup
  rw [get?]
  generalize m.entries = es at h hnodup
  induction es with
  | nil => cases h
  | cons e es ih =>
    rw [List.map_cons, List.nodup_cons] at hnodup
    rcases List.mem_cons.mp h with rfl | h
    · simp
    · have hne : e.1 ≠ k := by
        rintro rfl
        exact hnodup.1 (List.mem_map.mpr ⟨_, h, rfl⟩)
      rw [List.find?_cons_of_neg (by simpa using hne)]
      exact ih h hnodup.2

/-- A key that is not there has no value. -/
theorem get?_of_notMem {m : InOrder κ β} {k : κ} (h : k ∉ m.entries.map (·.1)) : m.get? k = none := by
  rw [get?, Option.map_eq_none_iff, List.find?_eq_none]
  intro e he hk
  rw [decide_eq_true_eq] at hk
  exact h (hk ▸ List.mem_map_of_mem he)

theorem get?_isSome {m : InOrder κ β} {k : κ} : (m.get? k).isSome ↔ k ∈ m.entries.map (·.1) := by
  constructor
  · intro hsome
    by_contra hk
    rw [get?_of_notMem hk] at hsome
    cases hsome
  · intro hk
    obtain ⟨e, he, rfl⟩ := List.mem_map.mp hk
    rw [get?_of_mem he]
    rfl

/-- **What is put for a key is found there**, and nowhere else. -/
theorem get?_put (m : InOrder κ β) (j k : κ) (v : β) : (m.put j v).get? k = if j = k then some v else m.get? k := by
  by_cases hj : j ∈ m.entries.map (·.1)
  · have hentries : (m.put j v).entries = m.entries.map fun e => if e.1 = j then (j, v) else e := if_pos hj
    by_cases h : j = k
    · subst h
      obtain ⟨e, he, hkey⟩ := List.mem_map.mp hj
      rw [if_pos rfl]
      apply get?_of_mem
      rw [hentries]
      exact List.mem_map.mpr ⟨e, he, if_pos hkey⟩
    · rw [if_neg h, get?, get?, hentries, List.find?_map]
      have hsame : ((fun e : κ × β => decide (e.1 = k)) ∘ fun e => if e.1 = j then (j, v) else e) =
          fun e => decide (e.1 = k) := by
        funext e
        by_cases he : e.1 = j <;> simp [he]
      rw [hsame]
      cases hfind : m.entries.find? fun e => decide (e.1 = k) with
      | none => rfl
      | some e =>
        have he := List.find?_some hfind
        rw [decide_eq_true_eq] at he
        have hne : e.1 ≠ j := fun hej => h (hej.symm.trans he)
        simp [hne]
  · rw [get?, get?, entries_put hj, List.find?_append]
    by_cases h : j = k
    · have hnone : (m.entries.find? fun e => decide (e.1 = k)) = none := by
        rw [List.find?_eq_none]
        intro e he hk
        rw [decide_eq_true_eq] at hk
        exact hj (h ▸ hk ▸ List.mem_map_of_mem he)
      simp [hnone, h]
    · simp [h]

end InOrder

end Maps

end KeyValue
