import Mathlib.Algebra.BigOperators.Group.List.Basic
import Mathlib.Algebra.GroupWithZero.Nat
import Mathlib.Data.List.Basic
import Mathlib.Data.List.Flatten
import Mathlib.Data.List.Perm.Subperm

/-!
# Merged streams

A log of tagged entries is a merge of the streams that the tags name: `stream k log` are the entries of the source `k`,
in order. Two logs with the same streams are permutations of each other (`perm_of_stream`), and what a property selects
from one source only stands in the same order in both (`filter_of_stream`).
-/

namespace Merge

variable {κ α : Type*} [DecidableEq κ]

/-- The entries of one source. -/
def stream (k : κ) (log : List (κ × α)) : List α := (log.filter (·.1 = k)).map (·.2)

@[simp] theorem stream_nil (k : κ) : stream k ([] : List (κ × α)) = [] := rfl

@[simp] theorem stream_append (k : κ) (log more : List (κ × α)) :
    stream k (log ++ more) = stream k log ++ stream k more := by
  simp [stream]

/-- Entries of one source, tagged. -/
theorem stream_tag (j k : κ) (xs : List α) : stream k (xs.map (j, ·)) = if j = k then xs else [] := by
  by_cases h : j = k <;> simp [stream, List.filter_map, Function.comp_def, h]

theorem stream_filter (p : α → Bool) (k : κ) (log : List (κ × α)) :
    stream k (log.filter fun e => p e.2) = (stream k log).filter p := by
  simp [stream, List.filter_map, List.filter_filter, Function.comp_def, Bool.and_comm]

/-- Sources under other names. -/
theorem stream_rename {ι : Type*} [DecidableEq ι] {f : κ → ι} (hf : f.Injective) (k : κ) (log : List (κ × α)) :
    stream (f k) (log.map fun e => (f e.1, e.2)) = stream k log := by
  simp [stream, List.filter_map, Function.comp_def, hf.eq_iff]

theorem mem_stream {k : κ} {a : α} {log : List (κ × α)} : a ∈ stream k log ↔ (k, a) ∈ log := by
  simp [stream]

/-- What a property selects from one source only is selected from its stream. -/
theorem filter_stream {log : List (κ × α)} {p : α → Bool} {k : κ} (hlog : ∀ e ∈ log, p e.2 = true → e.1 = k) :
    (log.map (·.2)).filter p = (stream k log).filter p := by
  rw [stream, List.filter_map, List.filter_map, List.filter_filter]
  congr 1
  apply List.filter_congr
  intro e he
  cases hp : p e.2 with
  | false => simp [hp]
  | true => simp [hp, hlog e he hp]

section Same

variable {log log' : List (κ × α)} (h : ∀ k, stream k log = stream k log')
include h

/-- **Merges of the same streams are permutations of each other.** -/
theorem perm_of_stream : log.Perm log' := by
  classical
  have hcount : ∀ (l : List (κ × α)) (e : κ × α), l.count e = (stream e.1 l).count e.2 := by
    intro l e
    induction l with
    | nil => rfl
    | cons d l ih =>
      obtain ⟨k, a⟩ := d
      obtain ⟨j, b⟩ := e
      simp only [stream] at ih ⊢
      by_cases hk : k = j
      · simp [List.count_cons, ih, hk]
      · simp [ih, hk]
  rw [List.perm_iff_count]
  intro e
  rw [hcount log, hcount log', h]

/-- What a property selects from one source only stands in the same order in both. -/
theorem filter_of_stream {p : α → Bool} {k : κ} (hlog : ∀ e ∈ log, p e.2 = true → e.1 = k) :
    (log.map (·.2)).filter p = (log'.map (·.2)).filter p := by
  have hlog' : ∀ e ∈ log', p e.2 = true → e.1 = k := fun e he => hlog e ((perm_of_stream h).mem_iff.mpr he)
  rw [filter_stream hlog, filter_stream hlog', h]

end Same

/-- A log is a permutation of its streams, one after the other. -/
theorem perm_flatMap_stream {log : List (κ × α)} {ks : List κ} (hks : ks.Nodup) (hlog : ∀ e ∈ log, e.1 ∈ ks) :
    log.Perm (ks.flatMap fun k => (stream k log).map (k, ·)) := by
  have hstreams : ∀ (ks : List κ) (j : κ), ks.Nodup →
      stream j (ks.flatMap fun k => (stream k log).map (k, ·)) = if j ∈ ks then stream j log else [] := by
    intro ks j hks
    induction ks with
    | nil => rfl
    | cons k ks ih =>
      obtain ⟨hk, hks⟩ := List.nodup_cons.mp hks
      rw [List.flatMap_cons, stream_append, stream_tag, ih hks]
      by_cases hkj : k = j
      · subst hkj
        simp [hk]
      · simp [hkj, Ne.symm hkj]
  apply perm_of_stream
  intro j
  rw [hstreams ks j hks]
  split
  · rfl
  · rename_i hj
    rw [List.eq_nil_iff_forall_not_mem]
    exact fun a ha => hj (hlog _ (mem_stream.mp ha))

/-! ## Parts of a collection -/

section Subperm

variable {α β : Type*}

theorem subperm_map (f : α → β) {l l' : List α} (h : l.Subperm l') : (l.map f).Subperm (l'.map f) := by
  obtain ⟨k, hperm, hsub⟩ := h
  exact ⟨k.map f, hperm.map f, hsub.map f⟩

theorem subperm_flatMap (f : α → List β) {l l' : List α} (h : l.Subperm l') :
    (l.flatMap f).Subperm (l'.flatMap f) := by
  obtain ⟨k, hperm, hsub⟩ := h
  exact ⟨k.flatMap f, hperm.flatMap_right f, hsub.flatMap f⟩

theorem subperm_flatMap_right {f g : α → List β} {l : List α} (h : ∀ a ∈ l, (f a).Subperm (g a)) :
    (l.flatMap f).Subperm (l.flatMap g) := by
  induction l with
  | nil => exact List.Subperm.refl _
  | cons a l ih =>
    exact (h a List.mem_cons_self).append (ih fun b hb => h b (List.mem_cons_of_mem a hb))

end Subperm

/-! ## Sums over indexed streams -/

/-- A sum after a change of one of its terms. -/
theorem sum_map_set {β : Type*} (f : β → Nat) {l : List β} {i : Nat} {b c : β} (h : l[i]? = some b) :
    ((l.set i c).map f).sum + f b = (l.map f).sum + f c := by
  induction l generalizing i with
  | nil => simp at h
  | cons d l ih =>
    cases i with
    | zero =>
      obtain rfl : d = b := by simpa using h
      simp only [List.set_cons_zero, List.map_cons, List.sum_cons]
      omega
    | succ i =>
      have hrest := ih (by simpa using h)
      simp only [List.set_cons_succ, List.map_cons, List.sum_cons]
      omega

end Merge
