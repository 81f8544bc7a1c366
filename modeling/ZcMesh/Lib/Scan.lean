import Mathlib.Data.List.Basic

/-!
# Greedy scans for fixed-width windows

A scan reads a string from the left with a window of `width` symbols. Where the window is accepted it is emitted and
the scan jumps behind it; elsewhere the scan moves on by one symbol. It stops when less than a window is left. A
window may carry a `mark`, a cheap test that every accepted window passes; a marked window that is not accepted is
counted as rejected.

* `scan_append`: scanning `a ++ b` is scanning `a` and then its rest followed by `b`; hence feeding a string in pieces
  and keeping the rest between them is scanning the whole.
* `scan_balance`, `scan_rest_lt`: no symbol is lost and less than a window is left.
* `scan_flatten`: accepted windows, one after the other, are what comes out.
* `scan_skip`: unmarked windows can be skipped in one go, which is what a scanner that searches for the mark does.
* `EndsUnmarked`: the scan gets to the last full window and finds no mark there (`endsUnmarked_append`).
* `unmarkedTail`: how many windows without a mark it passes at the end, behind the last marked one; some exactly when
  it ends unmarked (`unmarkedTail_pos`).
-/

namespace WindowScan

/-- What a scan looks for. -/
structure Spec (α : Type*) where
  width : Nat
  mark : List α → Bool
  accept : List α → Bool
  width_pos : 0 < width
  mark_of_accept : ∀ win, accept win = true → mark win = true

/-- What a scan gives: the accepted windows, the number of rejected windows, the number of symbols passed one by one,
and the symbols left. -/
structure Result (α : Type*) where
  frames : List (List α)
  rejected : Nat
  skipped : Nat
  rest : List α
  deriving DecidableEq, Repr

variable {α : Type*}

/-- A scan that has not moved. -/
def Result.start (s : List α) : Result α := ⟨[], 0, 0, s⟩

/-- What two scans give, the second one going on where the first stopped. -/
def Result.andThen (r q : Result α) : Result α :=
  ⟨r.frames ++ q.frames, r.rejected + q.rejected, r.skipped + q.skipped, q.rest⟩

theorem Result.andThen_assoc (p q r : Result α) : (p.andThen q).andThen r = p.andThen (q.andThen r) := by
  simp [Result.andThen, List.append_assoc, Nat.add_assoc]

@[simp] theorem Result.start_andThen (s : List α) (r : Result α) : (Result.start s).andThen r = r := by
  simp [Result.start, Result.andThen]

/-- Only the counts and the windows of the first scan matter for what follows. -/
theorem Result.andThen_start (r : Result α) (s : List α) : r.andThen (.start s) = { r with rest := s } := by
  simp [Result.start, Result.andThen]

variable (S : Spec α)

/-- **The greedy scan.** -/
def scan (s : List α) : Result α :=
  if s.length < S.width then .start s
  else if S.accept (s.take S.width) then
    (⟨[s.take S.width], 0, 0, []⟩ : Result α).andThen (scan (s.drop S.width))
  else
    (⟨[], if S.mark (s.take S.width) then 1 else 0, 1, []⟩ : Result α).andThen (scan (s.drop 1))
termination_by s.length
decreasing_by
  all_goals
    have := S.width_pos
    simp only [List.length_drop]
    omega

variable {S}

theorem scan_short {s : List α} (h : s.length < S.width) : scan S s = .start s := by
  rw [scan, if_pos h]

theorem scan_accept {s : List α} (h : S.width ≤ s.length) (ha : S.accept (s.take S.width) = true) :
    scan S s = (⟨[s.take S.width], 0, 0, []⟩ : Result α).andThen (scan S (s.drop S.width)) := by
  rw [scan, if_neg (by omega), if_pos ha]

theorem scan_pass {s : List α} (h : S.width ≤ s.length) (ha : S.accept (s.take S.width) = false) :
    scan S s =
      (⟨[], if S.mark (s.take S.width) then 1 else 0, 1, []⟩ : Result α).andThen (scan S (s.drop 1)) := by
  rw [scan, if_neg (by omega), if_neg (by simp [ha])]

/-- Induction along a scan. -/
theorem scan_induct {P : List α → Prop} (short : ∀ s, s.length < S.width → P s)
    (accept : ∀ s, S.width ≤ s.length → S.accept (s.take S.width) = true → P (s.drop S.width) → P s)
    (pass : ∀ s, S.width ≤ s.length → S.accept (s.take S.width) = false → P (s.drop 1) → P s) (s : List α) : P s := by
  induction s using scan.induct S with
  | case1 s h => exact short s h
  | case2 s h ha ih => exact accept s (by omega) ha ih
  | case3 s h ha ih => exact pass s (by omega) (by simpa using ha) ih

/-! ## Nothing is lost -/

theorem scan_rest_lt (s : List α) : (scan S s).rest.length < S.width := by
  induction s using scan_induct (S := S) with
  | short s h => simpa [scan_short h, Result.start] using h
  | accept s h ha ih => simpa [scan_accept h ha, Result.andThen] using ih
  | pass s h ha ih => simpa [scan_pass h ha, Result.andThen] using ih

theorem scan_balance (s : List α) :
    s.length = S.width * (scan S s).frames.length + (scan S s).skipped + (scan S s).rest.length := by
  induction s using scan_induct (S := S) with
  | short s h => simp [scan_short h, Result.start]
  | accept s h ha ih =>
    simp only [List.length_drop] at ih
    simp only [scan_accept h ha, Result.andThen, List.length_append, List.length_singleton, Nat.zero_add,
      Nat.mul_add, Nat.mul_one]
    omega
  | pass s h ha ih =>
    have := S.width_pos
    simp only [List.length_drop] at ih
    simp only [scan_pass h ha, Result.andThen, List.nil_append]
    omega

/-- Every emitted window has the full width and is accepted. -/
theorem scan_frames_accept (s : List α) :
    ∀ f ∈ (scan S s).frames, f.length = S.width ∧ S.accept f = true := by
  induction s using scan_induct (S := S) with
  | short s h => simp [scan_short h, Result.start]
  | accept s h ha ih =>
    intro f hf
    simp only [scan_accept h ha, Result.andThen, List.singleton_append, List.mem_cons] at hf
    rcases hf with rfl | hf
    · exact ⟨by simp only [List.length_take]; omega, ha⟩
    · exact ih f hf
  | pass s h ha ih =>
    intro f hf
    simp only [scan_pass h ha, Result.andThen, List.nil_append] at hf
    exact ih f hf

/-- Every emitted window stands somewhere in the string. -/
theorem scan_frames_infix (s : List α) : ∀ f ∈ (scan S s).frames, f <:+: s := by
  induction s using scan_induct (S := S) with
  | short s h => simp [scan_short h, Result.start]
  | accept s h ha ih =>
    intro f hf
    simp only [scan_accept h ha, Result.andThen, List.singleton_append, List.mem_cons] at hf
    rcases hf with rfl | hf
    · exact (List.take_prefix _ _).isInfix
    · exact (ih f hf).trans (List.drop_suffix _ _).isInfix
  | pass s h ha ih =>
    intro f hf
    simp only [scan_pass h ha, Result.andThen, List.nil_append] at hf
    exact (ih f hf).trans (List.drop_suffix _ _).isInfix

/-- **Accepted windows, one after the other**, are all emitted, and nothing else is there. -/
theorem scan_flatten {ws : List (List α)} (h : ∀ w ∈ ws, w.length = S.width ∧ S.accept w = true) :
    scan S ws.flatten = ⟨ws, 0, 0, []⟩ := by
  induction ws with
  | nil => exact scan_short (by rw [List.flatten_nil]; exact S.width_pos)
  | cons w ws ih =>
    obtain ⟨hlen, hacc⟩ := h w List.mem_cons_self
    have htake : (w :: ws).flatten.take S.width = w := by rw [List.flatten_cons, ← hlen, List.take_left]
    have hdrop : (w :: ws).flatten.drop S.width = ws.flatten := by rw [List.flatten_cons, ← hlen, List.drop_left]
    have hfull : S.width ≤ (w :: ws).flatten.length := by rw [List.flatten_cons, List.length_append]; omega
    rw [scan_accept hfull (by rw [htake]; exact hacc), htake, hdrop, ih fun v hv => h v (List.mem_cons_of_mem w hv)]
    rfl

/-! ## Scanning in pieces -/

/-- **Cutting a scan.** What is left of `a` is scanned again in front of `b`. -/
theorem scan_append (a b : List α) : scan S (a ++ b) = (scan S a).andThen (scan S ((scan S a).rest ++ b)) := by
  induction a using scan_induct (S := S) with
  | short a h => simp [scan_short h, Result.start, Result.andThen]
  | accept a h ha ih =>
    have htake : (a ++ b).take S.width = a.take S.width := List.take_append_of_le_length h
    have hdrop : (a ++ b).drop S.width = a.drop S.width ++ b := List.drop_append_of_le_length h
    have hlen : S.width ≤ (a ++ b).length := by simp only [List.length_append]; omega
    rw [scan_accept hlen (by rw [htake]; exact ha), scan_accept h ha, htake, hdrop, ih, Result.andThen_assoc]
    rfl
  | pass a h ha ih =>
    have hpos := S.width_pos
    have htake : (a ++ b).take S.width = a.take S.width := List.take_append_of_le_length h
    have hdrop : (a ++ b).drop 1 = a.drop 1 ++ b := List.drop_append_of_le_length (by omega)
    have hlen : S.width ≤ (a ++ b).length := by simp only [List.length_append]; omega
    rw [scan_pass hlen (by rw [htake]; exact ha), scan_pass h ha, htake, hdrop, ih, Result.andThen_assoc]
    rfl

/-! ## Skipping unmarked windows -/

/-- A run of full windows without the mark is passed one symbol at a time. -/
theorem scan_skip (k : Nat) (s : List α) (hk : k + S.width ≤ s.length + 1)
    (hm : ∀ i, i < k → S.mark ((s.drop i).take S.width) = false) :
    scan S s = (⟨[], 0, k, []⟩ : Result α).andThen (scan S (s.drop k)) := by
  induction k generalizing s with
  | zero => simp [Result.andThen]
  | succ k ih =>
    have h0 : S.mark (s.take S.width) = false := by simpa using hm 0 (by omega)
    have ha : S.accept (s.take S.width) = false := by
      by_contra hc
      simp [S.mark_of_accept _ (by simpa using hc)] at h0
    have hrest : ∀ i, i < k → S.mark (((s.drop 1).drop i).take S.width) = false := by
      intro i hi
      rw [List.drop_drop, Nat.add_comm]
      exact hm (i + 1) (by omega)
    have hlen : k + S.width ≤ (s.drop 1).length + 1 := by simp only [List.length_drop]; omega
    rw [scan_pass (by omega) ha, ih (s.drop 1) hlen hrest, ← Result.andThen_assoc, List.drop_drop,
      Nat.add_comm 1 k]
    simp [h0, Result.andThen, Nat.add_comm]

/-! ## Scans that end on an unmarked window -/

variable (S) in
/-- The scan gets to the last full window of `s` and finds no mark there. -/
def EndsUnmarked (s : List α) : Prop :=
  if s.length < S.width then False
  else if S.accept (s.take S.width) then EndsUnmarked (s.drop S.width)
  else (s.length = S.width ∧ S.mark s = false) ∨ EndsUnmarked (s.drop 1)
termination_by s.length
decreasing_by
  all_goals
    have := S.width_pos
    simp only [List.length_drop]
    omega

theorem endsUnmarked_short {s : List α} (h : s.length < S.width) : ¬EndsUnmarked S s := by
  rw [EndsUnmarked, if_pos h]
  exact id

theorem endsUnmarked_accept {s : List α} (h : S.width ≤ s.length) (ha : S.accept (s.take S.width) = true) :
    EndsUnmarked S s ↔ EndsUnmarked S (s.drop S.width) := by
  rw [EndsUnmarked, if_neg (by omega), if_pos ha]

theorem endsUnmarked_pass {s : List α} (h : S.width ≤ s.length) (ha : S.accept (s.take S.width) = false) :
    EndsUnmarked S s ↔ (s.length = S.width ∧ S.mark s = false) ∨ EndsUnmarked S (s.drop 1) := by
  rw [EndsUnmarked, if_neg (by omega), if_neg (by simp [ha])]

/-- Only what the scan of `a` leaves matters for what follows it, as soon as a symbol follows. -/
theorem endsUnmarked_append (a b : List α) (hb : b ≠ []) :
    EndsUnmarked S (a ++ b) ↔ EndsUnmarked S ((scan S a).rest ++ b) := by
  have hblen : 0 < b.length := List.length_pos_iff.mpr hb
  induction a using scan_induct (S := S) with
  | short a h => simp [scan_short h, Result.start]
  | accept a h ha ih =>
    have htake : (a ++ b).take S.width = a.take S.width := List.take_append_of_le_length h
    have hdrop : (a ++ b).drop S.width = a.drop S.width ++ b := List.drop_append_of_le_length h
    have hlen : S.width ≤ (a ++ b).length := by simp only [List.length_append]; omega
    rw [endsUnmarked_accept hlen (by rw [htake]; exact ha), hdrop, scan_accept h ha]
    exact ih
  | pass a h ha ih =>
    have hpos := S.width_pos
    have htake : (a ++ b).take S.width = a.take S.width := List.take_append_of_le_length h
    have hdrop : (a ++ b).drop 1 = a.drop 1 ++ b := List.drop_append_of_le_length (by omega)
    have hlen : S.width < (a ++ b).length := by simp only [List.length_append]; omega
    rw [endsUnmarked_pass (by omega) (by rw [htake]; exact ha), hdrop, scan_pass h ha]
    exact ⟨fun h' => ih.mp (h'.resolve_left (fun hc => by omega)), fun h' => Or.inr (ih.mpr h')⟩

/-- Unmarked windows in front do not matter while a full window is behind them. -/
theorem endsUnmarked_skip (k : Nat) (s : List α) (hk : k + S.width ≤ s.length)
    (hm : ∀ i, i < k → S.mark ((s.drop i).take S.width) = false) :
    EndsUnmarked S s ↔ EndsUnmarked S (s.drop k) := by
  induction k generalizing s with
  | zero => simp
  | succ k ih =>
    have h0 : S.mark (s.take S.width) = false := by simpa using hm 0 (by omega)
    have ha : S.accept (s.take S.width) = false := by
      by_contra hc
      simp [S.mark_of_accept _ (by simpa using hc)] at h0
    have hrest : ∀ i, i < k → S.mark (((s.drop 1).drop i).take S.width) = false := by
      intro i hi
      rw [List.drop_drop, Nat.add_comm]
      exact hm (i + 1) (by omega)
    have hlen : k + S.width ≤ (s.drop 1).length := by simp only [List.length_drop]; omega
    have hone : EndsUnmarked S s ↔ EndsUnmarked S (s.drop 1) := by
      rw [endsUnmarked_pass (by omega) ha]
      exact ⟨fun h' => h'.resolve_left (fun hc => by omega), Or.inr⟩
    rw [hone, ih (s.drop 1) hlen hrest, List.drop_drop, Nat.add_comm 1 k]

/-- A string with a full window and no mark ends unmarked. -/
theorem endsUnmarked_of_unmarked {s : List α} (h : S.width ≤ s.length)
    (hm : ∀ i, i + S.width ≤ s.length → S.mark ((s.drop i).take S.width) = false) : EndsUnmarked S s := by
  rw [endsUnmarked_skip (s.length - S.width) s (by omega) (fun i hi => hm i (by omega))]
  have hlen : (s.drop (s.length - S.width)).length = S.width := by simp only [List.length_drop]; omega
  have hwin := hm (s.length - S.width) (by omega)
  have hfull : (s.drop (s.length - S.width)).take S.width = s.drop (s.length - S.width) := by
    exact List.take_of_length_le (by omega)
  have ha : S.accept ((s.drop (s.length - S.width)).take S.width) = false := by
    by_contra hc
    simp [S.mark_of_accept _ (by simpa using hc)] at hwin
  rw [endsUnmarked_pass (by omega) ha]
  exact Or.inl ⟨hlen, by rw [← hfull]; exact hwin⟩

/-! ## Unmarked windows at the end -/

variable (S) in
/-- No full window of `s` is marked. -/
def Unmarked (s : List α) : Prop := ∀ i, i < s.length + 1 - S.width → S.mark ((s.drop i).take S.width) = false

instance (s : List α) : Decidable (Unmarked S s) := Nat.decidableBallLT _ _

variable (S) in
/-- The number of windows that the scan passes behind the last marked one. -/
def unmarkedTail (s : List α) : Nat :=
  if Unmarked S s then s.length + 1 - S.width
  else if S.accept (s.take S.width) then unmarkedTail (s.drop S.width)
  else unmarkedTail (s.drop 1)
termination_by s.length
decreasing_by
  all_goals
    have hpos := S.width_pos
    have hfull : S.width ≤ s.length := by
      by_contra hc
      have hun : Unmarked S s := fun i hi => by omega
      contradiction
    simp only [List.length_drop]
    omega

theorem unmarkedTail_unmarked {s : List α} (h : Unmarked S s) : unmarkedTail S s = s.length + 1 - S.width := by
  rw [unmarkedTail, if_pos h]

theorem unmarkedTail_short {s : List α} (h : s.length < S.width) : unmarkedTail S s = 0 := by
  rw [unmarkedTail_unmarked fun i hi => by omega]
  omega

/-- A string with a mark at its front is not unmarked. -/
theorem not_unmarked {s : List α} (h : S.width ≤ s.length) (hm : S.mark (s.take S.width) = true) : ¬Unmarked S s := by
  intro hc
  have hfront := hc 0 (by omega)
  rw [List.drop_zero, hm] at hfront
  cases hfront

theorem unmarkedTail_accept {s : List α} (h : S.width ≤ s.length) (ha : S.accept (s.take S.width) = true) :
    unmarkedTail S s = unmarkedTail S (s.drop S.width) := by
  rw [unmarkedTail, if_neg (not_unmarked h (S.mark_of_accept _ ha)), if_pos ha]

theorem unmarkedTail_pass {s : List α} (h : ¬Unmarked S s) (ha : S.accept (s.take S.width) = false) :
    unmarkedTail S s = unmarkedTail S (s.drop 1) := by
  rw [unmarkedTail, if_neg h, if_neg (by simp [ha])]

/-- Unmarked windows in front of a marked one do not matter. -/
theorem unmarkedTail_skip (k : Nat) (s : List α) (hk : k + S.width ≤ s.length)
    (hm : ∀ i, i < k → S.mark ((s.drop i).take S.width) = false) (hmark : S.mark ((s.drop k).take S.width) = true) :
    unmarkedTail S s = unmarkedTail S (s.drop k) := by
  induction k generalizing s with
  | zero => rw [List.drop_zero]
  | succ k ih =>
    have h0 : S.mark (s.take S.width) = false := by simpa using hm 0 (by omega)
    have ha : S.accept (s.take S.width) = false := by
      by_contra hc
      simp [S.mark_of_accept _ (by simpa using hc)] at h0
    have hmarked : ¬Unmarked S s := by
      intro hc
      rw [hc (k + 1) (by omega)] at hmark
      cases hmark
    have hrest : ∀ i, i < k → S.mark (((s.drop 1).drop i).take S.width) = false := by
      intro i hi
      rw [List.drop_drop, Nat.add_comm]
      exact hm (i + 1) (by omega)
    have hdrop : (s.drop 1).drop k = s.drop (k + 1) := by rw [List.drop_drop, Nat.add_comm]
    rw [unmarkedTail_pass hmarked ha, ih (s.drop 1) (by simp only [List.length_drop]; omega) hrest
      (by rw [hdrop]; exact hmark), hdrop]

/-- There are some exactly when the scan ends unmarked. -/
theorem unmarkedTail_pos (s : List α) : 0 < unmarkedTail S s ↔ EndsUnmarked S s := by
  induction s using scan_induct (S := S) with
  | short s h =>
    rw [unmarkedTail_short h]
    exact ⟨fun hc => absurd hc (Nat.lt_irrefl 0), fun hc => absurd hc (endsUnmarked_short h)⟩
  | accept s h ha ih => rw [unmarkedTail_accept h ha, endsUnmarked_accept h ha, ih]
  | pass s h ha ih =>
    by_cases hun : Unmarked S s
    · rw [unmarkedTail_unmarked hun]
      exact ⟨fun _ => endsUnmarked_of_unmarked h fun i hi => hun i (by omega), fun _ => by omega⟩
    · rw [unmarkedTail_pass hun ha, endsUnmarked_pass h ha, ih]
      refine ⟨Or.inr, fun hc => hc.resolve_left ?_⟩
      rintro ⟨hlen, hm⟩
      refine hun fun i hi => ?_
      rw [show i = 0 by omega, List.drop_zero, List.take_of_length_le (Nat.le_of_eq hlen)]
      exact hm

variable (S) in
/-- What the scans pass so at the ends of the pieces, when a string comes in pieces behind `fed`. -/
def unmarkedTails (fed : List α) : List (List α) → Nat
  | [] => 0
  | piece :: pieces => unmarkedTail S ((scan S fed).rest ++ piece) + unmarkedTails (fed ++ piece) pieces

theorem unmarkedTails_snoc (fed : List α) (pieces : List (List α)) (piece : List α) :
    unmarkedTails S fed (pieces ++ [piece]) =
      unmarkedTails S fed pieces + unmarkedTail S ((scan S (fed ++ pieces.flatten)).rest ++ piece) := by
  induction pieces generalizing fed with
  | nil => simp [unmarkedTails]
  | cons first pieces ih =>
    rw [List.cons_append, unmarkedTails, unmarkedTails, ih, List.flatten_cons, List.append_assoc, Nat.add_assoc]

end WindowScan
