import Mathlib.Algebra.GroupWithZero.Nat
import Mathlib.Order.Interval.Finset.Basic
import Mathlib.Order.Interval.Set.OrdConnected

/-!
# Walks through a linear order

A list of elements is a walk; `steps` are its pairs of neighbours. What a step jumps over is its *hole*; a step that
does not go up is a *stall*.

* Every element between the start and the top of a walk that the walk does not visit is jumped over at least once, in
  whatever order the walk goes: `card_missed_le`.
* A walk that only goes up jumps over each of them exactly once (`card_missed_of_increasing`), never stalls, and its
  largest hole is the largest run of elements missed (`maxHole_isGreatest`).
* `withPast` gives each element with those before it. Some element coming again means a stall (`stalls_pos`).
-/

namespace Walk

variable {α : Type*}

/-- The pairs of neighbours. -/
def steps (l : List α) : List (α × α) := l.zip l.tail

@[simp] theorem steps_nil : steps ([] : List α) = [] := rfl

@[simp] theorem steps_singleton (a : α) : steps [a] = [] := rfl

@[simp] theorem steps_cons_cons (a b : α) (l : List α) : steps (a :: b :: l) = (a, b) :: steps (b :: l) := rfl

/-- Both ends of a step are visited. -/
theorem mem_of_mem_steps {l : List α} {p : α × α} (h : p ∈ steps l) : p.1 ∈ l ∧ p.2 ∈ l :=
  ⟨(List.of_mem_zip h).1, List.mem_of_mem_tail (List.of_mem_zip h).2⟩

/-- The steps of the images. -/
theorem steps_map {β : Type*} (f : α → β) (l : List α) : steps (l.map f) = (steps l).map (Prod.map f f) := by
  rw [steps, steps, ← List.map_tail, List.zip_map]

/-- The steps of a walk that never goes down add up to its whole way. -/
theorem sum_steps {l : List Nat} (h : ∀ p ∈ steps l, p.1 ≤ p.2) (hne : l ≠ []) :
    l.head hne + ((steps l).map fun p => p.2 - p.1).sum = l.getLast hne := by
  induction l with
  | nil => exact absurd rfl hne
  | cons a l ih =>
    cases l with
    | nil => rfl
    | cons b l =>
      have hab : a ≤ b := h (a, b) List.mem_cons_self
      have hrest := ih (fun p hp => h p (List.mem_cons_of_mem _ hp)) (List.cons_ne_nil b l)
      rw [List.head_cons] at hrest
      rw [List.getLast_cons (List.cons_ne_nil b l), ← hrest, List.head_cons, steps_cons_cons, List.map_cons,
        List.sum_cons]
      omega

section Order

variable [LinearOrder α]

/-- The steps that do not go up. -/
def stalls (l : List α) : Nat := (steps l).countP fun p => p.2 ≤ p.1

theorem stalls_cons_cons (a b : α) (l : List α) :
    stalls (a :: b :: l) = (if b ≤ a then 1 else 0) + stalls (b :: l) := by
  rw [stalls, steps_cons_cons, List.countP_cons, Nat.add_comm]
  simp only [decide_eq_true_eq]
  rfl

theorem stalls_of_increasing {l : List α} (h : l.Pairwise (· < ·)) : stalls l = 0 := by
  induction l with
  | nil => rfl
  | cons a l ih =>
    cases l with
    | nil => rfl
    | cons b l =>
      have hlt : a < b := List.rel_of_pairwise_cons h List.mem_cons_self
      rw [stalls_cons_cons, if_neg (not_le.mpr hlt), ih (List.Pairwise.of_cons h)]

theorem lt_of_mem_steps {l : List α} (h : l.Pairwise (· < ·)) {p : α × α} (hp : p ∈ steps l) : p.1 < p.2 := by
  induction l with
  | nil => exact absurd hp List.not_mem_nil
  | cons a l ih =>
    cases l with
    | nil => exact absurd hp List.not_mem_nil
    | cons b l =>
      rw [steps_cons_cons] at hp
      rcases List.mem_cons.mp hp with rfl | hp
      · exact List.rel_of_pairwise_cons h List.mem_cons_self
      · exact ih (List.Pairwise.of_cons h) hp

/-- Without a stall a walk only goes up. -/
theorem increasing_of_stalls {l : List α} (h : stalls l = 0) : l.Pairwise (· < ·) := by
  induction l with
  | nil => exact List.Pairwise.nil
  | cons a l ih =>
    cases l with
    | nil => exact List.pairwise_singleton _ _
    | cons b l =>
      rw [stalls_cons_cons] at h
      have hlt : a < b := by
        by_contra hc
        rw [if_pos (not_lt.mp hc)] at h
        omega
      have hrest := ih (by omega)
      refine List.pairwise_cons.mpr ⟨?_, hrest⟩
      intro x hx
      rcases List.mem_cons.mp hx with rfl | hx
      · exact hlt
      · exact hlt.trans (List.rel_of_pairwise_cons hrest hx)

/-! ## Elements that come again -/

/-- Each element with the elements before it, the last one first. -/
def withPast : List α → List α → List (List α × α)
  | _, [] => []
  | past, x :: l => (past, x) :: withPast (x :: past) l

/-- `x` was visited before. -/
def again (h : List α × α) : Bool := h.2 ∈ h.1

/-- `x` is not above the element before it. -/
def stalled (h : List α × α) : Bool := h.1.head?.any fun p => decide (h.2 ≤ p)

/-- The elements that came again. -/
def repeats (l : List α) : Nat := (withPast [] l).countP again

theorem countP_stalled (past l : List α) (a : α) : (withPast (a :: past) l).countP stalled = stalls (a :: l) := by
  induction l generalizing past a with
  | nil => rfl
  | cons b l ih =>
    rw [withPast, List.countP_cons, ih, stalls_cons_cons, Nat.add_comm]
    simp [stalled]

theorem stalls_eq_countP (l : List α) : stalls l = (withPast [] l).countP stalled := by
  cases l with
  | nil => rfl
  | cons a l =>
    rw [withPast, List.countP_cons, countP_stalled]
    rfl

theorem repeats_of_increasing {past l : List α} (h : l.Pairwise (· < ·)) (hpast : ∀ x ∈ l, x ∉ past) :
    (withPast past l).countP again = 0 := by
  induction l generalizing past with
  | nil => rfl
  | cons a l ih =>
    have hnew : again (past, a) = false := by simpa [again] using hpast a List.mem_cons_self
    rw [withPast, List.countP_cons, hnew, ih (List.Pairwise.of_cons h)]
    · rfl
    · intro x hx hmem
      rcases List.mem_cons.mp hmem with rfl | hmem
      · exact absurd (List.rel_of_pairwise_cons h hx) (lt_irrefl x)
      · exact hpast x (List.mem_cons_of_mem _ hx) hmem

/-- There are no more stalls than steps. -/
theorem stalls_lt_length {l : List α} (h : l ≠ []) : stalls l < l.length := by
  have hsteps : (steps l).length = l.length - 1 := by
    rw [steps, List.length_zip, List.length_tail]
    omega
  have hle : stalls l ≤ (steps l).length := List.countP_le_length
  have hpos := List.length_pos_iff.mpr h
  omega

/-- The stalls are the elements that come again with a stall and those that come late, for the first time. -/
theorem stalls_split (l : List α) :
    stalls l = (withPast [] l).countP (fun h => again h && stalled h) +
      (withPast [] l).countP fun h => !again h && stalled h := by
  rw [stalls_eq_countP]
  induction withPast [] l with
  | nil => rfl
  | cons h hs ih =>
    simp only [List.countP_cons, ih]
    cases again h <;> cases stalled h <;> simp <;> omega

/-- What comes again does so with a stall, or it overtakes the element before it. -/
theorem repeats_split (l : List α) :
    repeats l = (withPast [] l).countP (fun h => again h && stalled h) +
      (withPast [] l).countP fun h => again h && !stalled h := by
  rw [repeats]
  induction withPast [] l with
  | nil => rfl
  | cons h hs ih =>
    simp only [List.countP_cons, ih]
    cases again h <;> cases stalled h <;> simp <;> omega

/-- **Whatever comes again makes the walk stall somewhere.** -/
theorem stalls_pos {l : List α} (h : 0 < repeats l) : 0 < stalls l := by
  rw [Nat.pos_iff_ne_zero]
  intro hzero
  rw [repeats, repeats_of_increasing (increasing_of_stalls hzero) (fun _ _ => List.not_mem_nil)] at h
  exact absurd h (lt_irrefl 0)

end Order

/-! ## Holes -/

section Holes

variable [LinearOrder α] [LocallyFiniteOrder α]

/-- The elements a step jumps over. -/
def hole (p : α × α) : Nat := (Finset.Ioo p.1 p.2).card

/-- All that the walk jumps over, counted each time. -/
def holes (l : List α) : Nat := ((steps l).map hole).sum

/-- The steps that jump over something. -/
def jumps (l : List α) : Nat := (steps l).countP fun p => 0 < hole p

/-- The largest hole. -/
def maxHole (l : List α) : Nat := ((steps l).map hole).foldr max 0

/-- The elements between the start and the top of the walk that it does not visit. -/
def missed : List α → Finset α
  | [] => ∅
  | a :: l => (Finset.Ioo a (l.foldr max a)).filter (· ∉ l)

theorem holes_cons_cons (a b : α) (l : List α) : holes (a :: b :: l) = hole (a, b) + holes (b :: l) := rfl

theorem maxHole_cons_cons (a b : α) (l : List α) : maxHole (a :: b :: l) = max (hole (a, b)) (maxHole (b :: l)) := rfl

theorem jumps_cons_cons (a b : α) (l : List α) :
    jumps (a :: b :: l) = (if 0 < hole (a, b) then 1 else 0) + jumps (b :: l) := by
  rw [jumps, steps_cons_cons, List.countP_cons, Nat.add_comm]
  simp only [decide_eq_true_eq]
  rfl

/-- A step down jumps over nothing. -/
theorem hole_of_le {a b : α} (h : b ≤ a) : hole (a, b) = 0 := by
  rw [hole, Finset.Ioo_eq_empty (fun hc => absurd hc (not_lt.mpr h)), Finset.card_empty]

omit [LocallyFiniteOrder α] in
theorem lt_foldr_max {a v : α} {l : List α} : v < l.foldr max a ↔ v < a ∨ ∃ x ∈ l, v < x := by
  induction l with
  | nil => simp
  | cons b l ih =>
    rw [List.foldr_cons, lt_max_iff, ih]
    simp only [List.mem_cons, exists_eq_or_imp]
    exact or_left_comm

theorem mem_missed {a v : α} {l : List α} : v ∈ missed (a :: l) ↔ a < v ∧ (∃ x ∈ l, v < x) ∧ v ∉ l := by
  rw [missed, Finset.mem_filter, Finset.mem_Ioo, lt_foldr_max]
  constructor
  · rintro ⟨⟨hlt, hx⟩, hno⟩
    exact ⟨hlt, hx.resolve_left hlt.asymm, hno⟩
  · rintro ⟨hlt, hx, hno⟩
    exact ⟨⟨hlt, Or.inr hx⟩, hno⟩

theorem not_mem_of_missed {l : List α} {v : α} (h : v ∈ missed l) : v ∉ l := by
  cases l with
  | nil => exact List.not_mem_nil
  | cons a l =>
    obtain ⟨hlt, _, hno⟩ := mem_missed.mp h
    intro hmem
    rcases List.mem_cons.mp hmem with rfl | hmem
    · exact lt_irrefl v hlt
    · exact hno hmem

theorem jumps_le_holes (l : List α) : jumps l ≤ holes l := by
  induction l with
  | nil => exact Nat.zero_le _
  | cons a l ih =>
    cases l with
    | nil => exact Nat.zero_le _
    | cons b l =>
      rw [jumps_cons_cons, holes_cons_cons]
      split <;> omega

/-- What is missed is jumped over by the first step or missed by the rest of the walk. -/
theorem missed_subset (a b : α) (l : List α) : missed (a :: b :: l) ⊆ Finset.Ioo a b ∪ missed (b :: l) := by
  intro v hv
  obtain ⟨hlt, ⟨x, hx, hvx⟩, hno⟩ := mem_missed.mp hv
  rw [List.mem_cons, not_or] at hno
  rw [Finset.mem_union, Finset.mem_Ioo, mem_missed]
  rcases lt_or_gt_of_ne hno.1 with hvb | hbv
  · exact Or.inl ⟨hlt, hvb⟩
  · right
    refine ⟨hbv, ⟨x, (List.mem_cons.mp hx).resolve_left ?_, hvx⟩, hno.2⟩
    rintro rfl
    exact hbv.asymm hvx

/-- **No walk jumps over less than it misses.** -/
theorem card_missed_le (l : List α) : (missed l).card ≤ holes l := by
  induction l with
  | nil => exact Nat.zero_le _
  | cons a l ih =>
    cases l with
    | nil => simp [missed]
    | cons b l =>
      calc (missed (a :: b :: l)).card ≤ (Finset.Ioo a b ∪ missed (b :: l)).card :=
            Finset.card_le_card (missed_subset a b l)
        _ ≤ (Finset.Ioo a b).card + (missed (b :: l)).card := Finset.card_union_le _ _
        _ ≤ holes (a :: b :: l) := Nat.add_le_add_left ih _

/-! ### Walks that only go up -/

section Increasing

variable {a b : α} {l : List α}

theorem missed_of_increasing (h : (a :: b :: l).Pairwise (· < ·)) :
    missed (a :: b :: l) = Finset.Ioo a b ∪ missed (b :: l) := by
  apply Finset.Subset.antisymm (missed_subset a b l)
  have hab : a < b := List.rel_of_pairwise_cons h List.mem_cons_self
  intro v hv
  rw [mem_missed]
  rcases Finset.mem_union.mp hv with hv | hv
  · obtain ⟨hav, hvb⟩ := Finset.mem_Ioo.mp hv
    refine ⟨hav, ⟨b, List.mem_cons_self, hvb⟩, ?_⟩
    intro hmem
    rcases List.mem_cons.mp hmem with rfl | hmem
    · exact lt_irrefl v hvb
    · exact hvb.asymm (List.rel_of_pairwise_cons (List.Pairwise.of_cons h) hmem)
  · obtain ⟨hbv, ⟨x, hx, hvx⟩, _⟩ := mem_missed.mp hv
    exact ⟨hab.trans hbv, ⟨x, List.mem_cons_of_mem _ hx, hvx⟩, not_mem_of_missed hv⟩

/-- **A walk that only goes up jumps over what it misses, once.** -/
theorem card_missed_of_increasing {l : List α} (h : l.Pairwise (· < ·)) : (missed l).card = holes l := by
  induction l with
  | nil => rfl
  | cons a l ih =>
    cases l with
    | nil => simp [missed, holes]
    | cons b l =>
      have hdisjoint : Disjoint (Finset.Ioo a b) (missed (b :: l)) := by
        rw [Finset.disjoint_left]
        intro v hv hv'
        exact (Finset.mem_Ioo.mp hv).2.asymm (mem_missed.mp hv').1
      rw [missed_of_increasing h, Finset.card_union_of_disjoint hdisjoint, ih (List.Pairwise.of_cons h)]
      rfl

theorem exists_step_of_missed {l : List α} (h : l.Pairwise (· < ·)) {v : α} :
    v ∈ missed l ↔ ∃ p ∈ steps l, v ∈ Finset.Ioo p.1 p.2 := by
  induction l with
  | nil => simp [missed]
  | cons a l ih =>
    cases l with
    | nil => simp [missed]
    | cons b l =>
      rw [missed_of_increasing h, Finset.mem_union, ih (List.Pairwise.of_cons h), steps_cons_cons]
      simp only [List.mem_cons, exists_eq_or_imp]

end Increasing

theorem hole_le_maxHole {l : List α} {p : α × α} (h : p ∈ steps l) : hole p ≤ maxHole l := by
  rw [maxHole]
  generalize steps l = ps at h ⊢
  induction ps with
  | nil => exact absurd h List.not_mem_nil
  | cons q ps ih =>
    rw [List.map_cons, List.foldr_cons]
    rcases List.mem_cons.mp h with rfl | h
    · exact le_max_left _ _
    · exact (ih h).trans (le_max_right _ _)

theorem exists_maxHole (l : List α) : maxHole l = 0 ∨ ∃ p ∈ steps l, hole p = maxHole l := by
  rw [maxHole]
  induction steps l with
  | nil => exact Or.inl rfl
  | cons q ps ih =>
    rw [List.map_cons, List.foldr_cons]
    rcases le_total (hole q) ((ps.map hole).foldr max 0) with hle | hle
    · rw [max_eq_right hle]
      exact ih.imp id fun ⟨p, hp, heq⟩ => ⟨p, List.mem_cons_of_mem _ hp, heq⟩
    · rw [max_eq_left hle]
      exact Or.inr ⟨q, List.mem_cons_self, rfl⟩

/-- The lengths of the runs in `s`: of its parts without a break. -/
def runLengths (s : Finset α) : Set Nat := {k | ∃ r ⊆ s, (r : Set α).OrdConnected ∧ r.card = k}

/-- **The largest hole of a walk that only goes up is the largest run that it misses.** -/
theorem maxHole_isGreatest {l : List α} (h : l.Pairwise (· < ·)) : IsGreatest (runLengths (missed l)) (maxHole l) := by
  constructor
  · rcases exists_maxHole l with hzero | ⟨p, hp, hmax⟩
    · exact ⟨∅, Finset.empty_subset _, by simpa using Set.ordConnected_empty, by rw [hzero, Finset.card_empty]⟩
    · refine ⟨Finset.Ioo p.1 p.2, ?_, by simpa using Set.ordConnected_Ioo, hmax⟩
      intro v hv
      exact (exists_step_of_missed h).mpr ⟨p, hp, hv⟩
  · rintro k ⟨r, hr, hconn, rfl⟩
    rcases r.eq_empty_or_nonempty with rfl | ⟨v, hv⟩
    · exact Nat.zero_le _
    obtain ⟨p, hp, hvp⟩ := (exists_step_of_missed h).mp (hr hv)
    obtain ⟨hpv, hvp⟩ := Finset.mem_Ioo.mp hvp
    -- the ends of the step are visited, so the run stays between them
    have hinside : r ⊆ Finset.Ioo p.1 p.2 := by
      intro u hu
      rw [Finset.mem_Ioo]
      constructor
      · by_contra hc
        exact not_mem_of_missed (hr (hconn.out hu hv ⟨not_lt.mp hc, hpv.le⟩)) (mem_of_mem_steps hp).1
      · by_contra hc
        exact not_mem_of_missed (hr (hconn.out hv hu ⟨hvp.le, not_lt.mp hc⟩)) (mem_of_mem_steps hp).2
    exact (Finset.card_le_card hinside).trans (hole_le_maxHole hp)

end Holes

end Walk
