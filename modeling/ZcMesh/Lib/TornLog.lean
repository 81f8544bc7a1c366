import ZcMesh.Lib.Blocks

/-!
# Logs with torn blocks

Blocks of `w` symbols are appended to a log. An append succeeds or fails, and in either case a part in front of its
block is in the log in the end: a failed append may leave some symbols, and when the log is cut off (`cut`), blocks at
its end lose theirs.

The blocks of the appends that succeeded are in front of the log, whatever is appended, if and only if all of them are
whole and nothing succeeds behind a part of another (`prefix_iff`).
-/

namespace TornLog

open Blocks (bytesOf bytesOf_cons bytesOf_append length_bytesOf)

/-- What becomes of the append of a block of `w` symbols: whether it succeeds, and how many of them are left. -/
structure Outcome (w : Nat) where
  written : Nat
  ok : Bool
  le : written ≤ w

variable {α β : Type*} {w : Nat}

/-- The append of a whole block. -/
def Outcome.whole : Outcome w := ⟨w, true, Nat.le_refl w⟩

/-- At most `n` symbols are left. -/
def Outcome.cut (o : Outcome w) (n : Nat) : Outcome w where
  written := min o.written n
  ok := o.ok
  le := Nat.le_trans (Nat.min_le_left _ _) o.le

/-- The append fails, and a part is left. -/
def Outcome.Torn (o : Outcome w) : Prop := o.ok = false ∧ o.written ≠ 0

/-- The append succeeds, and symbols are gone. -/
def Outcome.Lost (o : Outcome w) : Prop := o.ok = true ∧ o.written ≠ w

/-- No append that succeeds loses symbols. -/
def Kept (os : List (Outcome w)) : Prop := ∀ o ∈ os, ¬o.Lost

/-- Nothing succeeds behind a part. -/
def InOrder (os : List (Outcome w)) : Prop := os.Pairwise fun a b => a.Torn → b.ok = false

/-- The log. -/
def content (enc : β → List α) (ws : List (β × Outcome w)) : List α :=
  ws.flatMap fun x => (enc x.1).take x.2.written

/-- The values whose append succeeded. -/
def accepted (ws : List (β × Outcome w)) : List β := (ws.filter (·.2.ok)).map Prod.fst

/-- A log that is cut off behind `n` symbols. -/
def cut : List (Outcome w) → Nat → List (Outcome w)
  | [], _ => []
  | o :: os, n => o.cut n :: cut os (n - o.written)

section Basic

variable {enc : β → List α} {ws ws' : List (β × Outcome w)} {b : β} {o : Outcome w}

@[simp] theorem content_nil : content (w := w) enc [] = [] := rfl

@[simp] theorem content_cons : content enc ((b, o) :: ws) = (enc b).take o.written ++ content enc ws := by
  simp [content]

theorem content_append : content enc (ws ++ ws') = content enc ws ++ content enc ws' := List.flatMap_append

theorem content_snoc : content enc (ws ++ [(b, o)]) = content enc ws ++ (enc b).take o.written := by
  simp [content]

theorem accepted_append : accepted (ws ++ ws') = accepted ws ++ accepted ws' := by
  simp [accepted]

theorem accepted_ok (h : o.ok = true) : accepted ((b, o) :: ws) = b :: accepted ws := by
  simp [accepted, h]

theorem accepted_failed (h : o.ok = false) : accepted ((b, o) :: ws) = accepted ws := by
  simp [accepted, h]

theorem accepted_snoc : accepted (ws ++ [(b, o)]) = accepted ws ++ if o.ok then [b] else [] := by
  cases h : o.ok <;> simp [accepted, h]

/-- The outcomes alone say how many appends succeeded. -/
theorem length_accepted : (accepted ws).length = (ws.map Prod.snd).countP (·.ok) := by
  rw [accepted, List.length_map, ← List.countP_eq_length_filter, List.countP_map]
  rfl

theorem length_accepted_zip {bs : List β} {os : List (Outcome w)} (h : bs.length = os.length) :
    (accepted (bs.zip os)).length = os.countP (·.ok) := by
  rw [length_accepted, List.map_snd_zip (Nat.le_of_eq h.symm)]

theorem accepted_eq_nil (h : ∀ o ∈ ws.map Prod.snd, o.ok = false) : accepted ws = [] := by
  rw [← List.length_eq_zero_iff, length_accepted, List.countP_eq_zero]
  rintro o ho
  rw [h o ho]
  exact Bool.false_ne_true

theorem Outcome.cut_of_le {n : Nat} (h : o.written ≤ n) : o.cut n = o := by
  obtain ⟨written, ok, le⟩ := o
  simp only [Outcome.cut, Nat.min_eq_left h]

theorem Kept.append {os os' : List (Outcome w)} : Kept (os ++ os') ↔ Kept os ∧ Kept os' := by
  simp [Kept, or_imp, forall_and]

/-- Behind whole blocks, an append that fails may leave a part when no other succeeds. -/
theorem clean_whole_part {part : Outcome w} (hpart : part.ok = false) (c : Nat) (os : List (Outcome w)) :
    Kept (List.replicate c .whole ++ part :: os) ∧ InOrder (List.replicate c .whole ++ part :: os) ↔
      (part.written = 0 ∨ ∀ o ∈ os, o.ok = false) ∧ Kept os ∧ InOrder os := by
  have hfailed : ¬part.Lost := fun h => Bool.false_ne_true (hpart.symm.trans h.1)
  have htorn : (∀ o ∈ os, part.Torn → o.ok = false) ↔ part.written = 0 ∨ ∀ o ∈ os, o.ok = false := by
    by_cases hzero : part.written = 0
    · simp [hzero, Outcome.Torn]
    · simp [hzero, Outcome.Torn, hpart]
  induction c with
  | zero =>
    rw [List.replicate_zero, List.nil_append, InOrder, List.pairwise_cons, htorn, Kept, List.forall_mem_cons]
    simp only [hfailed, not_false_eq_true, true_and]
    exact ⟨fun ⟨hkept, hnone, horder⟩ => ⟨hnone, hkept, horder⟩, fun ⟨hnone, hkept, horder⟩ => ⟨hkept, hnone, horder⟩⟩
  | succ c ih =>
    have hkept : ¬(Outcome.whole : Outcome w).Lost := fun h => h.2 rfl
    have hnot : ∀ o : Outcome w, (Outcome.whole : Outcome w).Torn → o.ok = false := fun _ h => by cases h.1
    refine Iff.trans ?_ ih
    rw [List.replicate_succ, List.cons_append, InOrder, List.pairwise_cons, Kept, List.forall_mem_cons]
    exact ⟨fun ⟨hk, ho⟩ => ⟨hk.2, ho.2⟩, fun ⟨hk, ho⟩ => ⟨⟨hkept, hk⟩, fun o _ => hnot o, ho⟩⟩

theorem clean_whole (c : Nat) :
    Kept (List.replicate c (Outcome.whole : Outcome w)) ∧ InOrder (List.replicate c (Outcome.whole : Outcome w)) := by
  have hall : ∀ o ∈ List.replicate c (Outcome.whole : Outcome w), o = .whole := fun _ => List.eq_of_mem_replicate
  refine ⟨fun o ho h => ?_, List.pairwise_of_forall_mem_list fun o ho _ _ h => ?_⟩
  · rw [hall o ho] at h
    exact h.2 rfl
  · rw [hall o ho] at h
    cases h.1

end Basic

section Whole

variable {enc : β → List α} (henc : ∀ b, (enc b).length = w)

include henc in
/-- Whole blocks are their own log. -/
theorem content_whole {bs : List β} :
    content enc (bs.zip (List.replicate bs.length (Outcome.whole : Outcome w))) = bytesOf enc bs := by
  induction bs with
  | nil => rfl
  | cons b bs ih =>
    have hall : (enc b).take (Outcome.whole : Outcome w).written = enc b :=
      List.take_of_length_le (Nat.le_of_eq (henc b))
    rw [List.length_cons, List.replicate_succ, List.zip_cons_cons, content_cons, hall, ih, bytesOf_cons]

theorem accepted_whole {bs : List β} :
    accepted (bs.zip (List.replicate bs.length (Outcome.whole : Outcome w))) = bs := by
  induction bs with
  | nil => rfl
  | cons b bs ih => rw [List.length_cons, List.replicate_succ, List.zip_cons_cons, accepted_ok rfl, ih]

end Whole

/-! ## Cuts -/

section Cut

variable {os : List (Outcome w)} {n : Nat}

@[simp] theorem length_cut (os : List (Outcome w)) (n : Nat) : (cut os n).length = os.length := by
  induction os generalizing n with
  | nil => rfl
  | cons o os ih => rw [cut, List.length_cons, List.length_cons, ih]

theorem accepted_cut (bs : List β) (os : List (Outcome w)) (n : Nat) :
    accepted (bs.zip (cut os n)) = accepted (bs.zip os) := by
  induction os generalizing bs n with
  | nil => rfl
  | cons o os ih =>
    cases bs with
    | nil => rfl
    | cons b bs =>
      rw [cut, List.zip_cons_cons, List.zip_cons_cons]
      cases hok : o.ok with
      | true => rw [accepted_ok (show (o.cut n).ok = true from hok), accepted_ok hok, ih]
      | false => rw [accepted_failed (show (o.cut n).ok = false from hok), accepted_failed hok, ih]

/-- **A cut leaves the first symbols of the log.** -/
theorem content_cut {enc : β → List α} (henc : ∀ b, (enc b).length = w) (bs : List β) (os : List (Outcome w))
    (n : Nat) : content enc (bs.zip (cut os n)) = (content enc (bs.zip os)).take n := by
  induction os generalizing bs n with
  | nil => simp [cut]
  | cons o os ih =>
    cases bs with
    | nil => simp
    | cons b bs =>
      have hlen : ((enc b).take o.written).length = o.written := by
        rw [List.length_take, henc, Nat.min_eq_left o.le]
      have hcut : (o.cut n).written = min n o.written := Nat.min_comm _ _
      rw [cut, List.zip_cons_cons, List.zip_cons_cons, content_cons, content_cons, List.take_append, hlen, ih,
        List.take_take, hcut]

/-- A cut behind whole blocks leaves them. -/
theorem cut_whole_append {c : Nat} (h : w * c ≤ n) :
    cut (List.replicate c .whole ++ os) n = List.replicate c .whole ++ cut os (n - w * c) := by
  induction c generalizing n with
  | zero => rfl
  | succ c ih =>
    rw [Nat.mul_succ] at h
    have hfirst : (Outcome.whole : Outcome w).cut n = .whole := Outcome.cut_of_le (show w ≤ n by omega)
    have hwhole : (Outcome.whole : Outcome w).written = w := rfl
    have hrest : n - w - w * c = n - w * (c + 1) := by rw [Nat.mul_succ, Nat.sub_sub, Nat.add_comm]
    rw [List.replicate_succ, List.cons_append, cut, hfirst, hwhole, ih (by omega), hrest, List.cons_append]

/-- A cut inside whole blocks makes one of them lose symbols. -/
theorem not_kept_cut {c : Nat} (h : n < w * c) : ¬Kept (cut (List.replicate c .whole ++ os) n) := by
  induction c generalizing n with
  | zero => exact absurd h (Nat.not_lt_zero _)
  | succ c ih =>
    intro hkept
    rw [List.replicate_succ, List.cons_append, cut] at hkept
    by_cases hfirst : n < w
    · refine hkept _ List.mem_cons_self ⟨rfl, ?_⟩
      show min w n ≠ w
      omega
    · refine ih (n := n - w) ?_ fun o ho => hkept o (List.mem_cons_of_mem _ ho)
      rw [Nat.mul_succ] at h
      omega

end Cut

/-! ## When the accepted blocks stand in front -/

section Width

variable {enc : β → List α} (henc : ∀ b, (enc b).length = w)
include henc

theorem take_written (b : β) {o : Outcome w} (hok : o.ok = true) (hkept : ¬o.Lost) :
    (enc b).take o.written = enc b := by
  have hwhole : o.written = w := by
    by_contra hne
    exact hkept ⟨hok, hne⟩
  rw [hwhole, ← henc b]
  exact List.take_length

/-- Behind clean appends the accepted blocks stand in front. -/
theorem prefix_of_clean {ws : List (β × Outcome w)} (hkept : Kept (ws.map Prod.snd)) (h : InOrder (ws.map Prod.snd)) :
    bytesOf enc (accepted ws) <+: content enc ws := by
  induction ws with
  | nil => exact List.prefix_rfl
  | cons x ws ih =>
    obtain ⟨b, o⟩ := x
    obtain ⟨hfirst, hrest⟩ := List.pairwise_cons.mp h
    have hkeptRest : Kept (ws.map Prod.snd) := fun o' ho' => hkept o' (List.mem_cons_of_mem _ ho')
    cases hok : o.ok with
    | true =>
      rw [accepted_ok hok, bytesOf_cons, content_cons, take_written henc b hok (hkept o List.mem_cons_self),
        List.prefix_append_right_inj]
      exact ih hkeptRest hrest
    | false =>
      rw [accepted_failed hok, content_cons]
      by_cases hnone : o.written = 0
      · rw [hnone, List.take_zero, List.nil_append]
        exact ih hkeptRest hrest
      · -- nothing succeeds any more
        rw [accepted_eq_nil fun o' ho' => hfirst o' ho' ⟨hok, hnone⟩]
        exact List.nil_prefix

/-- Where nothing is lost, the log is at least as long as the accepted blocks, and longer when there is a part. -/
theorem length_accepted_le {ws : List (β × Outcome w)} (hkept : Kept (ws.map Prod.snd)) :
    w * (accepted ws).length ≤ (content enc ws).length ∧
      ((∃ o ∈ ws.map Prod.snd, o.Torn) → w * (accepted ws).length < (content enc ws).length) := by
  induction ws with
  | nil => simp [accepted]
  | cons x ws ih =>
    obtain ⟨b, o⟩ := x
    obtain ⟨hle, hlt⟩ := ih fun o' ho' => hkept o' (List.mem_cons_of_mem _ ho')
    cases hok : o.ok with
    | true =>
      have hnot : ¬o.Torn := fun h => by rw [h.1] at hok; cases hok
      rw [accepted_ok hok, content_cons, take_written henc b hok (hkept o List.mem_cons_self), List.length_append, henc,
        List.length_cons, Nat.mul_succ]
      refine ⟨by omega, ?_⟩
      rintro ⟨o', ho', htorn⟩
      rcases List.mem_cons.mp ho' with rfl | ho'
      · exact absurd htorn hnot
      · have := hlt ⟨o', ho', htorn⟩
        omega
    | false =>
      have hlen : ((enc b).take o.written).length = o.written := by rw [List.length_take, henc, Nat.min_eq_left o.le]
      rw [accepted_failed hok, content_cons, List.length_append, hlen]
      refine ⟨by omega, ?_⟩
      rintro ⟨o', ho', htorn⟩
      rcases List.mem_cons.mp ho' with rfl | ho'
      · have := Nat.pos_of_ne_zero htorn.2
        omega
      · have := hlt ⟨o', ho', htorn⟩
        omega

/-! ### Values that show what is missing -/

variable {m : α} {a b : β}

/-- Every block begins with `m`. -/
def Marked (enc : β → List α) (m : α) (b : β) : Prop := ∃ t, enc b = m :: t ∧ m ∉ t

omit henc in
theorem head_content {ws : List (β × Outcome w)} (h : ∀ x ∈ ws, Marked enc m x.1) {rest : List α}
    (hrest : ∀ c ∈ rest.head?, c = m) : ∀ c ∈ (content enc ws ++ rest).head?, c = m := by
  induction ws with
  | nil => exact hrest
  | cons x ws ih =>
    obtain ⟨t, ht, -⟩ := h x List.mem_cons_self
    have hnext := ih fun y hy => h y (List.mem_cons_of_mem _ hy)
    rw [content_cons, ht]
    cases x.2.written with
    | zero => exact hnext
    | succ n =>
      rintro c hc
      cases hc
      rfl

/-- A block does not stand in front of a part of another one and what begins with the mark. -/
theorem not_prefix_part (hb : Marked enc m b) {c : β} {k : Nat} (h0 : k ≠ 0) (hk : k ≤ w)
    (hother : enc c ≠ enc b ∨ k ≠ w) {rest : List α} (hrest : ∀ x ∈ rest.head?, x = m) :
    ¬enc b <+: (enc c).take k ++ rest := by
  intro h
  obtain ⟨t, ht, hm⟩ := hb
  have hlen : ((enc c).take k).length = k := by rw [List.length_take, henc, Nat.min_eq_left hk]
  rcases Nat.lt_or_eq_of_le hk with hlt | rfl
  · cases rest with
    | nil =>
      have hle := h.length_le
      rw [List.append_nil, hlen, henc] at hle
      omega
    | cons x rest =>
      -- the mark comes inside the block
      obtain rfl : x = m := hrest x rfl
      have hin : k < (enc b).length := by rw [henc]; exact hlt
      have hget := h.getElem hin
      rw [List.getElem_append_right (Nat.le_of_eq hlen)] at hget
      simp only [hlen, Nat.sub_self, List.getElem_cons_zero] at hget
      have hmem : (enc b)[k] ∈ t := by
        obtain ⟨n, rfl⟩ := Nat.exists_eq_succ_of_ne_zero h0
        simp only [ht, List.getElem_cons_succ]
        exact List.getElem_mem _
      rw [hget] at hmem
      exact hm hmem
  · -- the part is the whole block
    have hne : enc c ≠ enc b := hother.resolve_right fun hne => hne rfl
    rw [List.take_of_length_le (Nat.le_of_eq (henc c))] at h
    have heq := List.prefix_iff_eq_take.mp h
    rw [henc, List.take_append_of_le_length (Nat.le_of_eq (henc c).symm),
      List.take_of_length_le (Nat.le_of_eq (henc c))] at heq
    exact hne heq.symm

/-- A whole block of `b` begins nowhere among others and parts of its own. -/
theorem not_prefix_drop (hb : Marked enc m b) {ws : List (β × Outcome w)}
    (h : ∀ x ∈ ws, Marked enc m x.1 ∧ (enc x.1 ≠ enc b ∨ x.2.written ≠ w)) {rest : List α}
    (hrest : ∀ c ∈ rest.head?, c = m) {d : Nat} (hd : d < (content enc ws).length) :
    ¬enc b <+: (content enc ws ++ rest).drop d := by
  induction ws generalizing d with
  | nil => exact absurd hd (Nat.not_lt_zero _)
  | cons x ws ih =>
    obtain ⟨c, o⟩ := x
    obtain ⟨⟨t, ht, hm⟩, hother⟩ := h (c, o) List.mem_cons_self
    have hws := fun y hy => h y (List.mem_cons_of_mem _ hy)
    have hlen : ((enc c).take o.written).length = o.written := by rw [List.length_take, henc, Nat.min_eq_left o.le]
    rw [content_cons, List.append_assoc]
    rw [content_cons, List.length_append, hlen] at hd
    by_cases hbehind : o.written ≤ d
    · rw [List.drop_append, List.drop_of_length_le (by rw [hlen]; exact hbehind), List.nil_append, hlen]
      exact ih hws (by omega)
    · cases d with
      | zero => exact not_prefix_part henc hb (by omega) o.le hother (head_content (fun y hy => (hws y hy).1) hrest)
      | succ d =>
        -- inside a block there is no mark
        have hpart : ((enc c).take o.written).drop (d + 1) = (t.drop d).take (o.written - (d + 1)) := by
          rw [ht, List.drop_take, List.drop_succ_cons]
        obtain ⟨y, ys, hys⟩ := List.exists_cons_of_ne_nil (l := (t.drop d).take (o.written - (d + 1))) (by
          rw [← hpart]
          exact List.ne_nil_of_length_pos (by rw [List.length_drop, hlen]; omega))
        obtain ⟨t', ht', -⟩ := hb
        rw [List.drop_append, hpart, hys, ht', List.cons_append, List.cons_prefix_cons]
        rintro ⟨rfl, -⟩
        have hin : m ∈ (t.drop d).take (o.written - (d + 1)) := by
          rw [hys]
          exact List.mem_cons_self
        exact hm (List.mem_of_mem_drop (List.mem_of_mem_take hin))

section Only

variable (ha : Marked enc m a) (hb : Marked enc m b) (hne : enc a ≠ enc b) {os₁ os₂ : List (Outcome w)} {o : Outcome w}

/-- `b` for one append and `a` for all the others. -/
def only (a b : β) (os₁ os₂ : List (Outcome w)) : List β :=
  List.replicate os₁.length a ++ b :: List.replicate os₂.length a

omit henc in
theorem length_only : (only a b os₁ os₂).length = (os₁ ++ o :: os₂).length := by simp [only]

/-- An append that succeeds has its block among the accepted ones, behind those of the earlier appends. -/
theorem prefix_only (hok : o.ok = true) {d : Nat}
    (h : bytesOf enc (accepted ((only a b os₁ os₂).zip (os₁ ++ o :: os₂))) <+:
      (content enc ((only a b os₁ os₂).zip (os₁ ++ o :: os₂))).drop d) :
    enc b <+: (content enc ((List.replicate os₁.length a).zip os₁) ++
      content enc ((b, o) :: (List.replicate os₂.length a).zip os₂)).drop
        (d + w * (accepted ((List.replicate os₁.length a).zip os₁)).length) := by
  rw [only, List.zip_append List.length_replicate, List.zip_cons_cons, accepted_append, accepted_ok hok,
    bytesOf_append, bytesOf_cons, content_append] at h
  rw [← List.drop_drop, ← length_bytesOf henc]
  obtain ⟨rest, hrest⟩ := h
  rw [← hrest, List.append_assoc, List.drop_left, List.append_assoc]
  exact List.prefix_append _ _

include ha hne in
omit henc in
/-- The others. -/
theorem others_marked {n : Nat} {os : List (Outcome w)} {x : β × Outcome w} (hx : x ∈ (List.replicate n a).zip os) :
    Marked enc m x.1 ∧ (enc x.1 ≠ enc b ∨ x.2.written ≠ w) := by
  rw [List.eq_of_mem_replicate (List.of_mem_zip hx).1]
  exact ⟨ha, .inl hne⟩

include ha hb hne

/-- No block is lost, also when the log has lost symbols in front of all blocks. -/
theorem kept_of_prefix {os : List (Outcome w)} {d : Nat}
    (h : ∀ bs : List β, bs.length = os.length →
      bytesOf enc (accepted (bs.zip os)) <+: (content enc (bs.zip os)).drop d) : Kept os := by
  rintro o ho ⟨hok, hlost⟩
  obtain ⟨os₁, os₂, rfl⟩ := List.append_of_mem ho
  have hprefix := prefix_only henc (a := a) (b := b) hok (h (only a b os₁ os₂) length_only)
  generalize d + w * (accepted ((List.replicate os₁.length a).zip os₁)).length = d' at hprefix
  rw [← content_append, ← List.append_nil (content enc _)] at hprefix
  by_cases hin : d' < (content enc ((List.replicate os₁.length a).zip os₁ ++
      (b, o) :: (List.replicate os₂.length a).zip os₂)).length
  · refine not_prefix_drop henc hb (fun x hx => ?_) (by simp) hin hprefix
    rcases List.mem_append.mp hx with hx | hx
    · exact others_marked ha hne hx
    · rcases List.mem_cons.mp hx with rfl | hx
      · exact ⟨hb, .inr hlost⟩
      · exact others_marked ha hne hx
  · rw [List.append_nil, List.drop_of_length_le (Nat.le_of_not_lt hin), List.prefix_nil] at hprefix
    obtain ⟨t, ht, -⟩ := hb
    rw [ht] at hprefix
    cases hprefix

/-- Nothing succeeds behind a part. -/
theorem inOrder_of_prefix {os : List (Outcome w)} (hkept : Kept os)
    (h : ∀ bs : List β, bs.length = os.length → bytesOf enc (accepted (bs.zip os)) <+: content enc (bs.zip os)) :
    InOrder os := by
  rw [InOrder, List.pairwise_iff_getElem]
  intro i j hi hj hij htorn
  by_contra hfailed
  have hok : os[j].ok = true := by simpa using hfailed
  obtain ⟨os₁, os₂, o, hos, ho, hin⟩ : ∃ os₁ os₂ o, os = os₁ ++ o :: os₂ ∧ o.ok = true ∧ os[i] ∈ os₁ :=
    ⟨os.take j, os.drop (j + 1), os[j], by rw [List.getElem_cons_drop, List.take_append_drop], hok,
      List.mem_take_iff_getElem.mpr ⟨i, by omega, rfl⟩⟩
  generalize os[i] = part at htorn hin
  subst hos
  have hprefix := prefix_only henc (a := a) (b := b) (d := 0) ho (h (only a b os₁ os₂) length_only)
  have hkept₁ : Kept (((List.replicate os₁.length a).zip os₁).map Prod.snd) := by
    rw [List.map_snd_zip (Nat.le_of_eq List.length_replicate.symm)]
    exact (Kept.append.mp hkept).1
  have hlt := (length_accepted_le henc hkept₁).2 ⟨part, by
    rw [List.map_snd_zip (Nat.le_of_eq List.length_replicate.symm)]
    exact hin, htorn⟩
  rw [Nat.zero_add] at hprefix
  -- behind the part the block of `b` begins too late
  refine not_prefix_drop henc hb (fun x hx => others_marked ha hne hx) ?_ hlt hprefix
  obtain ⟨t, ht, -⟩ := hb
  rw [content_cons, take_written henc b ho (hkept o (by simp)), ht]
  rintro c hc
  cases hc
  rfl

/-- **When a log keeps its blocks**: the accepted blocks stand in front of the log, whatever is appended, if and only if
none of them has lost symbols and nothing succeeds behind a part. The log may have lost symbols in front of all blocks
when it has lost some of a block. -/
theorem prefix_iff (os : List (Outcome w)) {d : Nat} (hd : d ≠ 0 → ¬Kept os) :
    (∀ bs : List β, bs.length = os.length →
      bytesOf enc (accepted (bs.zip os)) <+: (content enc (bs.zip os)).drop d) ↔ Kept os ∧ InOrder os := by
  have hzero (hkept : Kept os) : d = 0 := by
    by_contra hne
    exact hd hne hkept
  constructor
  · intro h
    have hkept : Kept os := kept_of_prefix henc ha hb hne h
    rw [hzero hkept] at h
    exact ⟨hkept, inOrder_of_prefix henc ha hb hne hkept h⟩
  · rintro ⟨hkept, horder⟩ bs hlen
    rw [hzero hkept, List.drop_zero]
    have hsnd : (bs.zip os).map Prod.snd = os := List.map_snd_zip (Nat.le_of_eq hlen.symm)
    exact prefix_of_clean henc (by rwa [hsnd]) (by rwa [hsnd])

end Only

end Width

end TornLog
