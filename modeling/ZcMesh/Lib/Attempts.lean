import Mathlib.Data.List.Basic

/-!
# Trying candidates until one succeeds

A history of attempts that stops at the first success: the candidates that refused, in order, and the one that took
it, if any. So at most one attempt succeeds, and it is the last (`History.log`, `History.log_of_won`). A history goes on
behind refusals (`History.after`).
-/

namespace Attempts

/-- The candidates that refused, in order, and the one that did not. -/
structure History (ι : Type*) where
  refused : List ι
  won : Option ι

variable {ι : Type*}

namespace History

/-- Nothing tried. -/
def empty : History ι := ⟨[], none⟩

/-- One attempt. -/
def one (i : ι) (ok : Bool) : History ι := if ok then ⟨[], some i⟩ else ⟨[i], none⟩

/-- More attempts after refusals. -/
def after (refused : List ι) (h : History ι) : History ι := ⟨refused ++ h.refused, h.won⟩

/-- The attempts in order, each with its result. -/
def log (h : History ι) : List (ι × Bool) := h.refused.map (·, false) ++ h.won.toList.map (·, true)

/-- The candidates tried, in order. -/
def tried (h : History ι) : List ι := h.refused ++ h.won.toList

@[simp] theorem log_one (i : ι) (ok : Bool) : (one i ok).log = [(i, ok)] := by cases ok <;> rfl

@[simp] theorem tried_one (i : ι) (ok : Bool) : (one i ok).tried = [i] := by cases ok <;> rfl

theorem log_after (refused : List ι) (h : History ι) : (after refused h).log = refused.map (·, false) ++ h.log := by
  simp [log, after]

theorem tried_after (refused : List ι) (h : History ι) : (after refused h).tried = refused ++ h.tried := by
  simp [tried, after]

/-- At most one attempt succeeds. -/
theorem fst_log (h : History ι) : h.log.map (·.1) = h.tried := by
  simp [log, tried, Function.comp_def]

theorem countP_log (h : History ι) : h.log.countP (·.2) = h.won.toList.length := by
  simp [log, List.countP_append, List.countP_map, Function.comp_def]

/-- A history with a winner ends with its success. -/
theorem log_of_won {h : History ι} (hw : h.won.isSome = true) : ∃ front i, h.log = front ++ [(i, true)] := by
  obtain ⟨i, hi⟩ := Option.isSome_iff_exists.mp hw
  exact ⟨h.refused.map (·, false), i, by rw [log, hi]; rfl⟩

end History

end Attempts
