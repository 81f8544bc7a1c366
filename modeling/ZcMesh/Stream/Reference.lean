import ZcMesh.Lib.Blocks
import ZcMesh.Lib.Scan
import ZcMesh.Wire.Frame

/-!
# The reference scan of a telemetry stream

What a TCP decoder should find in a byte stream: the greedy leftmost sequence of non-overlapping 24-byte windows that
verify (`WindowScan.scan frameSpec`). The mark of a window is the magic at its front. Both decoders are compared with
this scan; `Capture.lean` and `Receiver.lean` do it for the C++ and the Java one. In a stream of frames that verify it
finds these frames (`scan_framed`).
-/

namespace ZcMesh

open ZcMesh.Core (WireFrame verifyFrame wireFrameSize)

/-- The low byte of the magic comes first. -/
def magicLo : UInt8 := 0x43
def magicHi : UInt8 := 0x5A

/-- The window test of the reference scan: 24 bytes that verify; the mark is the magic. -/
def frameSpec : WindowScan.Spec UInt8 where
  width := wireFrameSize
  mark win := win.take 2 == [magicLo, magicHi]
  accept win := decide (win.length = wireFrameSize) && verifyFrame (WireFrame.ofBytes win)
  width_pos := by decide
  mark_of_accept win h := by
    simp only [Bool.and_eq_true, decide_eq_true_eq] at h
    have hm := Core.verifyFrame_magic h.2
    rw [WireFrame.bytes_ofBytes h.1] at hm
    rw [hm]
    rfl

theorem frameSpec_width : frameSpec.width = 24 := rfl

section Windows

variable {data : List UInt8} {i : Nat}

/-- The window at offset `i`. -/
def window (data : List UInt8) (i : Nat) : List UInt8 := (data.drop i).take wireFrameSize

theorem length_window (h : i + 24 ≤ data.length) : (window data i).length = wireFrameSize := by
  simp only [window, wireFrameSize, List.length_take, List.length_drop]
  omega

theorem accept_window (h : i + 24 ≤ data.length) :
    frameSpec.accept (window data i) = verifyFrame (WireFrame.ofBytes (window data i)) := by
  simp [frameSpec, length_window h]

/-- The two bytes of the magic are at offset `i`. -/
def magicAt (data : List UInt8) (i : Nat) : Bool := data.getD i 0 == magicLo && data.getD (i + 1) 0 == magicHi

/-- The mark of a window is the comparison of two bytes. -/
theorem mark_window (h : i + 24 ≤ data.length) : frameSpec.mark (window data i) = magicAt data i := by
  have h0 : i < data.length := by omega
  have h1 : i + 1 < data.length := by omega
  have htake : (window data i).take 2 = [data[i], data[i + 1]] := by
    have hdrop : data.drop i = data[i] :: data[i + 1] :: data.drop (i + 1 + 1) := by
      rw [← List.getElem_cons_drop h0, ← List.getElem_cons_drop h1]
    rw [window, hdrop]
    rfl
  show ((window data i).take 2 == [magicLo, magicHi]) = _
  have hg0 : data.getD i 0 = data[i] := by simp [h0]
  have hg1 : data.getD (i + 1) 0 = data[i + 1] := by simp [h1]
  rw [htake, magicAt, hg0, hg1]
  simp

theorem mark_drop {pos : Nat} (h : pos + i + 24 ≤ data.length) :
    frameSpec.mark (((data.drop pos).drop i).take frameSpec.width) = magicAt data (pos + i) := by
  rw [List.drop_drop]
  exact mark_window h

end Windows

/-! ## Moving on without a magic -/

section Skip

variable {data : List UInt8} {pos k : Nat}

/-- The scan passes the windows up to `k` when no magic is there. -/
theorem scan_drop_to (hpos : pos ≤ k) (hk : k + 24 ≤ data.length + 1)
    (hno : ∀ j, pos ≤ j → j < k → magicAt data j = false) :
    WindowScan.scan frameSpec (data.drop pos) =
      (⟨[], 0, k - pos, []⟩ : WindowScan.Result UInt8).andThen (WindowScan.scan frameSpec (data.drop k)) := by
  have hskip := WindowScan.scan_skip (S := frameSpec) (k - pos) (data.drop pos)
    (by simp only [List.length_drop, frameSpec_width]; omega)
    (fun i hi => by rw [mark_drop (by omega)]; exact hno (pos + i) (by omega) (by omega))
  rwa [List.drop_drop, Nat.add_sub_cancel' hpos] at hskip

/-- What the scan passes at its end is decided at the last magic. -/
theorem unmarkedTail_drop_to (hpos : pos ≤ k) (hk : k + 24 ≤ data.length)
    (hno : ∀ j, pos ≤ j → j < k → magicAt data j = false) (hat : magicAt data k = true) :
    WindowScan.unmarkedTail frameSpec (data.drop pos) = WindowScan.unmarkedTail frameSpec (data.drop k) := by
  have hskip := WindowScan.unmarkedTail_skip (S := frameSpec) (k - pos) (data.drop pos)
    (by simp only [List.length_drop, frameSpec_width]; omega)
    (fun i hi => by rw [mark_drop (by omega)]; exact hno (pos + i) (by omega) (by omega))
    (by rw [mark_drop (by omega), Nat.add_sub_cancel' hpos]; exact hat)
  rwa [List.drop_drop, Nat.add_sub_cancel' hpos] at hskip

/-- Without a magic these are all windows. -/
theorem unmarkedTail_drop (hno : ∀ j, pos ≤ j → j + 24 ≤ data.length → magicAt data j = false) :
    WindowScan.unmarkedTail frameSpec (data.drop pos) = data.length - pos + 1 - 24 := by
  rw [WindowScan.unmarkedTail_unmarked, List.length_drop, frameSpec_width]
  intro i hi
  rw [List.length_drop, frameSpec_width] at hi
  rw [mark_drop (by omega)]
  exact hno (pos + i) (by omega) (by omega)

end Skip

/-! ## Streams of frames -/

/-- The front of a stream of frames falls into its frames, and nothing is rejected or passed. -/
theorem scan_framed {src : List WireFrame} (hv : ∀ f ∈ src, verifyFrame f = true) {s : List UInt8}
    (h : Blocks.Framed WireFrame.bytes src s) :
    (WindowScan.scan frameSpec s).frames = Blocks.cut wireFrameSize s ∧ (WindowScan.scan frameSpec s).rejected = 0 ∧
      (WindowScan.scan frameSpec s).skipped = 0 := by
  obtain ⟨bs, p, rfl, hbs, hp⟩ := h
  have hshort : p.length < wireFrameSize := by
    rcases hp with rfl | ⟨b, _, _, hlt⟩
    · decide
    · rwa [WireFrame.length_bytes] at hlt
  have hwhole : WindowScan.scan frameSpec (Blocks.bytesOf WireFrame.bytes bs) = ⟨bs.map WireFrame.bytes, 0, 0, []⟩ := by
    rw [Blocks.bytesOf, List.flatMap_def]
    apply WindowScan.scan_flatten
    intro w hw
    obtain ⟨b, hb, rfl⟩ := List.mem_map.mp hw
    refine ⟨WireFrame.length_bytes b, ?_⟩
    simp [frameSpec, WireFrame.ofBytes_bytes, hv b (hbs b hb)]
  rw [WindowScan.scan_append, hwhole, List.nil_append, WindowScan.scan_short (S := frameSpec) hshort,
    Blocks.cut_bytesOf_append WireFrame.length_bytes (by decide), Blocks.cut_of_lt hshort]
  simp [WindowScan.Result.andThen, WindowScan.Result.start]

end ZcMesh
