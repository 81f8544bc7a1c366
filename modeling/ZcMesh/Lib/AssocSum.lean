import Mathlib.Algebra.BigOperators.Group.Finset.Basic
import Mathlib.Algebra.BigOperators.Group.List.Basic
import Mathlib.Data.List.AList

/-!
# Sums over association lists

`total f m` adds up `f key value` over the entries of `m`, as a loop over a map does. An insertion changes it by the
contribution of the new entry (`total_insert_none`), or by what the contribution of the old one grows by
(`total_insert_some`). The order of the entries does not matter: the sum goes over the keys (`total_eq_sum_keys`).
-/

namespace AssocSum

variable {κ β M : Type*} [AddCommMonoid M]

/-- The sum of `f` over the entries. -/
def total (f : κ → β → M) (m : AList fun _ : κ => β) : M := m.foldl (fun acc k v => acc + f k v) 0

variable {f : κ → β → M} {m : AList fun _ : κ => β} {k : κ} {v v₀ : β}

theorem total_eq_sum : total f m = (m.entries.map fun e => f e.1 e.2).sum := by
  rw [List.sum_eq_foldl, List.foldl_map]
  rfl

section Insert

variable [DecidableEq κ]

theorem total_insert : total f (m.insert k v) = f k v + total f (m.erase k) := by
  rw [total_eq_sum, AList.entries_insert, List.map_cons, List.sum_cons, total_eq_sum]
  rfl

theorem total_of_lookup (h : m.lookup k = some v₀) : total f m = f k v₀ + total f (m.erase k) := by
  have hmem : k ∈ m.entries.keys := AList.lookup_isSome.mp (by rw [h]; rfl)
  obtain ⟨b, l₁, l₂, _, hsplit, herase⟩ := List.exists_of_kerase hmem
  have hb : (⟨k, b⟩ : Sigma fun _ : κ => β) ∈ m.entries := by rw [hsplit]; simp
  have hbv : some b = some v₀ := by rw [← h]; exact (AList.mem_lookup_iff.mpr hb).symm
  cases hbv
  have he : (m.erase k).entries = l₁ ++ l₂ := herase
  rw [total_eq_sum, total_eq_sum, he, hsplit]
  simp only [List.map_append, List.map_cons, List.sum_append, List.sum_cons]
  exact add_left_comm _ _ _

theorem total_erase_none (h : m.lookup k = none) : total f (m.erase k) = total f m := by
  have hmem : k ∉ m.entries.keys := AList.lookup_eq_none.mp h
  have he : (m.erase k).entries = m.entries := List.kerase_of_notMem_keys hmem
  rw [total_eq_sum, total_eq_sum, he]

/-- A new entry adds its contribution. -/
theorem total_insert_none (h : m.lookup k = none) : total f (m.insert k v) = total f m + f k v := by
  rw [total_insert, total_erase_none h, add_comm]

/-- A replaced entry adds the difference. -/
theorem total_insert_some (h : m.lookup k = some v₀) {d : M} (hd : f k v = f k v₀ + d) :
    total f (m.insert k v) = total f m + d := by
  rw [total_insert, total_of_lookup h, hd, add_right_comm]

end Insert

/-- **The sum over the entries is a sum over the keys**, and over any larger set of keys. -/
theorem total_eq_sum_keys [DecidableEq κ] {s : Finset κ} (hs : ∀ k ∈ m.keys, k ∈ s) :
    total f m = ∑ k ∈ s, (m.lookup k).elim 0 (f k) := by
  have hentries : m.entries.map (fun e => f e.1 e.2) = m.keys.map (fun k => (m.lookup k).elim 0 (f k)) := by
    rw [AList.keys, List.keys, List.map_map]
    apply List.map_congr_left
    intro e he
    rw [Function.comp_apply, AList.mem_lookup_iff.mpr he]
    rfl
  have hsub : m.keys.toFinset ⊆ s := fun k hk => hs k (List.mem_toFinset.mp hk)
  rw [total_eq_sum, hentries, ← List.sum_toFinset _ m.keys_nodup]
  apply Finset.sum_subset hsub
  intro k _ hk
  rw [AList.lookup_eq_none.mpr (fun hmem => hk (List.mem_toFinset.mpr hmem))]
  rfl

/-- Maps with the same look-ups have the same sums. -/
theorem total_congr [DecidableEq κ] {m' : AList fun _ : κ => β} (h : ∀ k, m.lookup k = m'.lookup k) :
    total f m = total f m' := by
  rw [total_eq_sum_keys (s := m.keys.toFinset ∪ m'.keys.toFinset),
    total_eq_sum_keys (m := m') (s := m.keys.toFinset ∪ m'.keys.toFinset)]
  · exact Finset.sum_congr rfl fun k _ => by rw [h k]
  · exact fun k hk => Finset.mem_union_right _ (List.mem_toFinset.mpr hk)
  · exact fun k hk => Finset.mem_union_left _ (List.mem_toFinset.mpr hk)

/-- The number of entries is a sum too. -/
theorem length_entries : m.entries.length = total (fun _ _ => 1) m := by
  simp [total_eq_sum]

/-- A new key is one more entry. -/
theorem length_insert_none [DecidableEq κ] (h : m.lookup k = none) :
    (m.insert k v).entries.length = m.entries.length + 1 := by
  rw [length_entries, length_entries, total_insert_none h]

/-- A known key is none. -/
theorem length_insert_some [DecidableEq κ] (h : m.lookup k = some v₀) :
    (m.insert k v).entries.length = m.entries.length := by
  rw [length_entries, length_entries, total_insert_some (d := 0) h rfl, Nat.add_zero]

end AssocSum
