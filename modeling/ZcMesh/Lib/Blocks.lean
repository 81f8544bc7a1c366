import Mathlib.Data.List.Basic
import Mathlib.Data.List.Flatten

/-!
# Streams of blocks of one length

`enc` writes every value as a block of `w` symbols; `bytesOf` writes a list of values one after the other. Positions
in the stream are `w * k + r` with `r < w`: block `k`, symbol `r` (`take_bytesOf`).

A stream is *framed* when it is made of whole blocks and at most one proper piece of a block at its end
(`Framed`). Cutting a stream of blocks anywhere leaves a framed stream (`framed_take`).

`cut w s` are the whole blocks at the front of any string (`cut_bytesOf`).
-/

namespace Blocks

variable {α β : Type*}

/-- The blocks of the values, one after the other. -/
def bytesOf (enc : β → List α) (bs : List β) : List α := bs.flatMap enc

/-- Whole blocks of values of `src`, then nothing or a proper piece of the block of one of them. -/
def Framed (enc : β → List α) (src : List β) (s : List α) : Prop :=
  ∃ bs p, s = bytesOf enc bs ++ p ∧ (∀ b ∈ bs, b ∈ src) ∧
    (p = [] ∨ ∃ b ∈ src, p <+: enc b ∧ p.length < (enc b).length)

/-- Whole blocks of values of `src`. -/
def Whole (enc : β → List α) (src : List β) (s : List α) : Prop := ∃ bs, s = bytesOf enc bs ∧ ∀ b ∈ bs, b ∈ src

section Basic

variable {enc : β → List α}

@[simp] theorem bytesOf_nil : bytesOf enc [] = [] := rfl

@[simp] theorem bytesOf_cons (b : β) (bs : List β) : bytesOf enc (b :: bs) = enc b ++ bytesOf enc bs := by
  simp [bytesOf]

@[simp] theorem bytesOf_append (as bs : List β) : bytesOf enc (as ++ bs) = bytesOf enc as ++ bytesOf enc bs := by
  simp [bytesOf]

theorem Framed.mono {src src' : List β} {s : List α} (h : Framed enc src s) (hsrc : ∀ b ∈ src, b ∈ src') :
    Framed enc src' s := by
  obtain ⟨bs, p, hs, hbs, hp⟩ := h
  refine ⟨bs, p, hs, fun b hb => hsrc b (hbs b hb), hp.imp id ?_⟩
  rintro ⟨b, hb, hpre⟩
  exact ⟨b, hsrc b hb, hpre⟩

theorem Whole.mono {src src' : List β} {s : List α} (h : Whole enc src s) (hsrc : ∀ b ∈ src, b ∈ src') :
    Whole enc src' s := by
  obtain ⟨bs, hs, hbs⟩ := h
  exact ⟨bs, hs, fun b hb => hsrc b (hbs b hb)⟩

theorem whole_nil (src : List β) : Whole enc src [] := ⟨[], rfl, nofun⟩

theorem Whole.append {src : List β} {s t : List α} (hs : Whole enc src s) (ht : Whole enc src t) :
    Whole enc src (s ++ t) := by
  obtain ⟨as, rfl, has⟩ := hs
  obtain ⟨bs, rfl, hbs⟩ := ht
  exact ⟨as ++ bs, (bytesOf_append as bs).symm, fun b hb => (List.mem_append.mp hb).elim (has b) (hbs b)⟩

theorem framed_bytesOf {src bs : List β} (h : ∀ b ∈ bs, b ∈ src) : Framed enc src (bytesOf enc bs) :=
  ⟨bs, [], by simp, h, Or.inl rfl⟩

theorem Whole.framed {src : List β} {s : List α} (h : Whole enc src s) : Framed enc src s := by
  obtain ⟨bs, rfl, hbs⟩ := h
  exact framed_bytesOf hbs

/-- Whole blocks in front of a framed stream. -/
theorem Framed.whole_append {src : List β} {s t : List α} (ht : Framed enc src t) (hs : Whole enc src s) :
    Framed enc src (s ++ t) := by
  obtain ⟨cs, p, rfl, hcs, hp⟩ := ht
  obtain ⟨bs, rfl, hbs⟩ := hs
  refine ⟨bs ++ cs, p, by simp, ?_, hp⟩
  intro b hb
  rcases List.mem_append.mp hb with hb | hb
  · exact hbs b hb
  · exact hcs b hb

/-- A framed stream begins like a block. -/
theorem Framed.head {src : List β} {s : List α} (h : Framed enc src s) (hs : s ≠ []) (henc : ∀ b, enc b ≠ []) :
    ∃ b ∈ src, s.head? = (enc b).head? := by
  obtain ⟨bs, p, rfl, hbs, hp⟩ := h
  cases bs with
  | nil =>
    rcases hp with rfl | ⟨b, hb, ⟨rest, hrest⟩, _⟩
    · exact absurd rfl hs
    · refine ⟨b, hb, ?_⟩
      rw [bytesOf_nil, List.nil_append] at hs ⊢
      rw [← hrest, List.head?_append_of_ne_nil _ hs]
  | cons b bs =>
    refine ⟨b, hbs b List.mem_cons_self, ?_⟩
    rw [bytesOf_cons, List.append_assoc, List.head?_append_of_ne_nil _ (henc b)]

end Basic

section Width

variable {enc : β → List α} {w : Nat} (henc : ∀ b, (enc b).length = w)
include henc

theorem length_bytesOf (bs : List β) : (bytesOf enc bs).length = w * bs.length := by
  induction bs with
  | nil => simp
  | cons b bs ih => simp only [bytesOf_cons, List.length_append, henc, ih, List.length_cons, Nat.mul_add]; omega

/-- Taking whole blocks and a piece of the next. -/
theorem take_bytesOf (bs : List β) {k r : Nat} (hk : k < bs.length) (hr : r ≤ w) :
    (bytesOf enc bs).take (w * k + r) = bytesOf enc (bs.take k) ++ (enc bs[k]).take r := by
  have hsplit : bytesOf enc bs = bytesOf enc (bs.take k) ++ (enc bs[k] ++ bytesOf enc (bs.drop (k + 1))) := by
    rw [← bytesOf_cons, List.getElem_cons_drop hk, ← bytesOf_append, List.take_append_drop]
  have hlen : (bytesOf enc (bs.take k)).length = w * k := by
    rw [length_bytesOf henc, List.length_take, Nat.min_eq_left (by omega)]
  rw [hsplit, ← hlen, List.take_length_add_append, List.take_append_of_le_length (by rw [henc]; exact hr)]

/-- Taking whole blocks. -/
theorem take_bytesOf_whole (bs : List β) (k : Nat) : (bytesOf enc bs).take (w * k) = bytesOf enc (bs.take k) := by
  rcases Nat.lt_or_ge k bs.length with h | h
  · have := take_bytesOf henc bs h (Nat.zero_le w)
    simpa using this
  · have hle : (bytesOf enc bs).length ≤ w * k := by
      rw [length_bytesOf henc]
      exact Nat.mul_le_mul_left w h
    rw [List.take_of_length_le hle, List.take_of_length_le h]

/-- **A stream of blocks, cut anywhere, is framed.** -/
theorem framed_take (bs : List β) (n : Nat) (hw : 0 < w) : Framed enc bs ((bytesOf enc bs).take n) := by
  rcases Nat.lt_or_ge (n / w) bs.length with h | h
  · have hn : n = w * (n / w) + n % w := (Nat.div_add_mod n w).symm
    have hr : n % w < w := Nat.mod_lt n hw
    refine ⟨bs.take (n / w), (enc bs[n / w]).take (n % w), ?_, fun b hb => List.mem_of_mem_take hb, Or.inr ?_⟩
    · conv_lhs => rw [hn]
      exact take_bytesOf henc bs h (Nat.le_of_lt hr)
    · refine ⟨bs[n / w], List.getElem_mem h, List.take_prefix _ _, ?_⟩
      rw [List.length_take, henc]
      omega
  · have hle : (bytesOf enc bs).length ≤ n := by
      rw [length_bytesOf henc]
      calc w * bs.length ≤ w * (n / w) := Nat.mul_le_mul_left w h
        _ ≤ n := Nat.mul_div_le n w
    rw [List.take_of_length_le hle]
    exact framed_bytesOf (fun b hb => hb)

/-- So is every other prefix. -/
theorem framed_of_prefix {bs : List β} {s : List α} (hw : 0 < w) (h : s <+: bytesOf enc bs) : Framed enc bs s := by
  rw [List.prefix_iff_eq_take.mp h]
  exact framed_take henc bs s.length hw

/-- The front of a framed stream is framed. -/
theorem Framed.of_prefix {src : List β} {s t : List α} (hw : 0 < w) (h : Framed enc src t) (hs : s <+: t) :
    Framed enc src s := by
  obtain ⟨bs, p, rfl, hbs, hp⟩ := h
  rcases hp with rfl | ⟨b, hb, hp, _⟩
  · rw [List.append_nil] at hs
    have hsound := framed_of_prefix henc hw hs
    exact hsound.mono hbs
  · have hwhole : s <+: bytesOf enc (bs ++ [b]) := by
      rw [bytesOf_append, bytesOf_cons, bytesOf_nil, List.append_nil]
      exact hs.trans ((List.prefix_append_right_inj _).mpr hp)
    have hsound := framed_of_prefix henc hw hwhole
    refine hsound.mono fun c hc => ?_
    rcases List.mem_append.mp hc with hc | hc
    · exact hbs c hc
    · rwa [List.mem_singleton.mp hc]

/-- A framed stream that is long enough begins with a block. -/
theorem Framed.take_block {src : List β} {s : List α} (hw : 0 < w) (h : Framed enc src s)
    (hs : w ≤ s.length) : ∃ b ∈ src, s.take w = enc b := by
  obtain ⟨bs, p, rfl, hbs, hp⟩ := h
  cases bs with
  | nil =>
    rw [bytesOf_nil, List.nil_append] at hs ⊢
    rcases hp with rfl | ⟨b, _, _, hlt⟩
    · exact absurd hs (Nat.not_le.mpr hw)
    · rw [henc] at hlt
      omega
  | cons b bs =>
    refine ⟨b, hbs b List.mem_cons_self, ?_⟩
    rw [bytesOf_cons, List.append_assoc, ← henc b, List.take_left]

/-- A framed stream that ends at a boundary is whole. -/
theorem Framed.whole_of_boundary {src : List β} {s : List α} (h : Framed enc src s) (hs : s.length % w = 0) :
    Whole enc src s := by
  obtain ⟨bs, p, rfl, hbs, hp⟩ := h
  refine ⟨bs, ?_, hbs⟩
  rcases hp with rfl | ⟨b, _, _, hlt⟩
  · exact List.append_nil _
  · rw [List.length_append, length_bytesOf henc, Nat.mul_add_mod, Nat.mod_eq_of_lt (by rwa [henc] at hlt)] at hs
    rw [List.length_eq_zero_iff.mp hs, List.append_nil]

/-! ### Taking up a stream of blocks inside a block -/

/-- The part of the block at position `n` that stands before the position. -/
def piece (enc : β → List α) (w : Nat) (bs : List β) (n : Nat) : List α := ((bytesOf enc bs).take n).drop (w * (n / w))

omit henc in
theorem piece_of_boundary {bs : List β} {n : Nat} (h : n % w = 0) : piece enc w bs n = [] := by
  have hn : w * (n / w) = n := Nat.mul_div_cancel' (Nat.dvd_of_mod_eq_zero h)
  rw [piece, hn, List.drop_take, Nat.sub_self, List.take_zero]

omit henc in
/-- What comes behind the position does not matter. -/
theorem piece_extend {bs : List β} {n : Nat} (cs : List β) (h : n ≤ (bytesOf enc bs).length) :
    piece enc w (bs ++ cs) n = piece enc w bs n := by
  rw [piece, bytesOf_append, List.take_append_of_le_length h, piece]

/-- Whole blocks and a piece stand before every position. -/
theorem take_eq_piece (bs : List β) (n : Nat) :
    (bytesOf enc bs).take n = bytesOf enc (bs.take (n / w)) ++ piece enc w bs n := by
  have hwhole : ((bytesOf enc bs).take n).take (w * (n / w)) = bytesOf enc (bs.take (n / w)) := by
    rw [List.take_take, Nat.min_eq_left (Nat.mul_div_le n w), take_bytesOf_whole henc]
  rw [piece, ← hwhole, List.take_append_drop]

/-- A position inside the stream stands behind a proper piece of a block. -/
theorem piece_prefix (hw : 0 < w) {bs : List β} {n : Nat} (h : n < w * bs.length) :
    ∃ b ∈ bs, piece enc w bs n <+: enc b ∧ (piece enc w bs n).length < (enc b).length := by
  have hk : n / w < bs.length := Nat.div_lt_of_lt_mul h
  have hr : n % w < w := Nat.mod_lt n hw
  have hlen : (bytesOf enc (bs.take (n / w))).length = w * (n / w) := by
    rw [length_bytesOf henc, List.length_take, Nat.min_eq_left (Nat.le_of_lt hk)]
  have heq : piece enc w bs n = (enc bs[n / w]).take (n % w) := by
    have htake := take_bytesOf henc bs hk (Nat.le_of_lt hr)
    rw [Nat.div_add_mod] at htake
    rw [piece, htake, ← hlen, List.drop_left]
  refine ⟨bs[n / w], List.getElem_mem hk, ?_⟩
  rw [heq, List.length_take, henc]
  exact ⟨List.take_prefix _ _, by omega⟩

/-- Behind a piece come the rest of its block, whole blocks, and the piece at the new position. -/
theorem piece_append {bs : List β} {n : Nat} {got : List α} (hgot : got <+: (bytesOf enc bs).drop n) :
    piece enc w bs n ++ got =
      bytesOf enc ((bs.take ((n + got.length) / w)).drop (n / w)) ++ piece enc w bs (n + got.length) := by
  have hmono : n / w ≤ (n + got.length) / w := Nat.div_le_div_right (Nat.le_add_right _ _)
  have htake : (bytesOf enc bs).take (n + got.length) = (bytesOf enc bs).take n ++ got := by
    rw [List.take_add, ← List.prefix_iff_eq_take.mp hgot]
  have hsplit : bs.take ((n + got.length) / w) = bs.take (n / w) ++ (bs.take ((n + got.length) / w)).drop (n / w) := by
    conv_lhs => rw [← List.take_append_drop (n / w) (bs.take ((n + got.length) / w))]
    rw [List.take_take, Nat.min_eq_left hmono]
  rw [take_eq_piece henc, take_eq_piece henc bs n, hsplit, bytesOf_append, List.append_assoc,
    List.append_assoc] at htake
  exact (List.append_cancel_left htake).symm

end Width

/-! ## Cutting a string into blocks -/

/-- The whole blocks at the front of a string. -/
def cut (w : Nat) (s : List α) : List (List α) := (List.range (s.length / w)).map fun k => (s.drop (w * k)).take w

theorem length_of_mem_cut {w : Nat} {s b : List α} (h : b ∈ cut w s) : b.length = w := by
  obtain ⟨k, hk, rfl⟩ := List.mem_map.mp h
  have hlt : k + 1 ≤ s.length / w := List.mem_range.mp hk
  have hle : w * (k + 1) ≤ s.length := Nat.le_trans (Nat.mul_le_mul_left w hlt) (Nat.mul_div_le _ _)
  rw [Nat.mul_add, Nat.mul_one] at hle
  rw [List.length_take, List.length_drop]
  omega

theorem length_cut (w : Nat) (s : List α) : (cut w s).length = s.length / w := by simp [cut]

/-- Behind the first block the cut goes on. -/
theorem cut_of_le {w : Nat} {s : List α} (hw : 0 < w) (h : w ≤ s.length) :
    cut w s = s.take w :: cut w (s.drop w) := by
  have hdiv : s.length / w = (s.drop w).length / w + 1 := by
    rw [List.length_drop, Nat.div_eq s.length, if_pos ⟨hw, h⟩]
  rw [cut, hdiv, List.range_succ_eq_map, List.map_cons, List.map_map, cut]
  congr 1
  apply List.map_congr_left
  intro k _
  rw [Function.comp_apply, List.drop_drop, Nat.mul_succ, Nat.add_comm]

theorem cut_of_lt {w : Nat} {s : List α} (h : s.length < w) : cut w s = [] := by
  rw [cut, Nat.div_eq_of_lt h]
  rfl

/-- The cut of a string begins like the cut of its front. -/
theorem cut_mono {w : Nat} {s t : List α} (h : s <+: t) : cut w s <+: cut w t := by
  obtain ⟨u, rfl⟩ := h
  have hle : s.length / w ≤ (s ++ u).length / w := Nat.div_le_div_right (by simp)
  obtain ⟨d, hd⟩ := Nat.exists_eq_add_of_le hle
  rw [cut, cut, hd, List.range_add, List.map_append]
  have hfront : ((List.range (s.length / w)).map fun k => ((s ++ u).drop (w * k)).take w) =
      (List.range (s.length / w)).map fun k => (s.drop (w * k)).take w := by
    apply List.map_congr_left
    intro k hk
    have hlt : k + 1 ≤ s.length / w := List.mem_range.mp hk
    have hend : w * (k + 1) ≤ s.length := Nat.le_trans (Nat.mul_le_mul_left w hlt) (Nat.mul_div_le _ _)
    rw [Nat.mul_add, Nat.mul_one] at hend
    rw [List.drop_append_of_le_length (by omega), List.take_append_of_le_length (by rw [List.length_drop]; omega)]
  rw [hfront]
  exact List.prefix_append _ _

/-- One block. -/
theorem cut_self {w : Nat} {s : List α} (hw : 0 < w) (h : s.length = w) : cut w s = [s] := by
  rw [cut_of_le hw (Nat.le_of_eq h.symm), List.take_of_length_le (Nat.le_of_eq h), List.drop_of_length_le
    (Nat.le_of_eq h), cut_of_lt (show [].length < w from hw)]

section CutBlocks

variable {enc : β → List α} {w : Nat} (henc : ∀ b, (enc b).length = w) (hw : 0 < w)
include henc hw

/-- Blocks are cut off in front. -/
theorem cut_bytesOf_append (bs : List β) (t : List α) : cut w (bytesOf enc bs ++ t) = bs.map enc ++ cut w t := by
  induction bs with
  | nil => rfl
  | cons b bs ih =>
    rw [bytesOf_cons, List.append_assoc, cut_of_le hw (by rw [List.length_append, henc]; omega), ← henc b,
      List.take_left, List.drop_left, henc, ih]
    rfl

/-- A stream of blocks falls into its blocks. -/
theorem cut_bytesOf (bs : List β) : cut w (bytesOf enc bs) = bs.map enc := by
  have h := cut_bytesOf_append henc hw bs []
  rwa [List.append_nil, cut_of_lt (show [].length < w from hw), List.append_nil] at h

/-- The front of a stream of blocks falls into the blocks that are whole in it. -/
theorem cut_of_prefix {bs : List β} {s : List α} (h : s <+: bytesOf enc bs) :
    cut w s = (bs.take (s.length / w)).map enc := by
  have hsplit := take_eq_piece henc bs s.length
  rw [← List.prefix_iff_eq_take.mp h] at hsplit
  have hshort : (piece enc w bs s.length).length < w := by
    have hmod := Nat.mod_lt s.length hw
    have hdiv := Nat.div_add_mod s.length w
    have hle := h.length_le
    rw [piece, List.length_drop, List.length_take]
    omega
  conv_lhs => rw [hsplit]
  rw [cut_bytesOf_append henc hw, cut_of_lt hshort, List.append_nil]

end CutBlocks

end Blocks
