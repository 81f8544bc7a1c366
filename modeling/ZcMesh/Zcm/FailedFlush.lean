import ZcMesh.Lib.Run
import ZcMesh.Lib.TornLog
import ZcMesh.Stream.Capture
import ZcMesh.Zcm.HostileHeader

/-!
# Failed flushes

A recording of `zcmesh_capture` while flushes of its stream fail: frames are appended by `append_frame` of
`core-engine/src/capture.cpp`, between the two calls of `rewrite_header`. Most calls of `fwrite` only fill the buffer.
One for which there is no room has the buffer written, and when that fails it reports a short write, and what the file
has not taken is gone, with frames whose `fwrite` had succeeded.

* In the end the log of the stream is what the file has kept of the header and of each frame (`run_outcomes`).
* So the recording is intact, whatever the frames are, if and only if each failed flush has taken exactly the bytes in
  front of the frame that did not fit, or was the last and has taken these and a part of the frame (`intact_iff`).
-/

namespace ZcMesh

open Blocks (bytesOf)
open TornLog

/-- The first `frame_count` blocks behind the header are those of `frames`, in order. -/
def Intact (file : List UInt8) (frames : List (List UInt8)) : Prop :=
  (Core.payload file).take (Core.wireFrameSize * Core.promised file) = frames.flatten

instance (file : List UInt8) (frames : List (List UInt8)) : Decidable (Intact file frames) :=
  inferInstanceAs (Decidable (_ = _))

/-! ## What is left in a file -/

section Intact

variable {β : Type} {enc : β → List UInt8} {acc : List β} {log : List UInt8} {k : UInt64}

theorem payload_zcmHeader (k : UInt64) (log : List UInt8) : Core.payload ((Core.zcmHeader k).bytes ++ log) = log := by
  rw [Core.payload, ← Core.ZcmHeader.length_bytes (Core.zcmHeader k), List.drop_left]

theorem promised_zcmHeader (k : UInt64) (log : List UInt8) :
    Core.promised ((Core.zcmHeader k).bytes ++ log) = k.toNat := by
  rw [Core.promised, Core.headerOf, ← Core.ZcmHeader.length_bytes (Core.zcmHeader k), List.take_left,
    Core.ZcmHeader.ofBytes_bytes, Core.frameCount_zcmHeader]

/-- A recording is intact when its counter has not wrapped and the accepted frames stand in front of the log. -/
theorem intact_iff_prefix (henc : ∀ b, (enc b).length = Core.wireFrameSize) (hk : k = UInt64.ofNat acc.length) :
    Intact ((Core.zcmHeader k).bytes ++ log) (acc.map enc) ↔ acc.length < 2 ^ 64 ∧ bytesOf enc acc <+: log := by
  have hflat : (acc.map enc).flatten = bytesOf enc acc := List.flatMap_def.symm
  have hlen : (bytesOf enc acc).length = Core.wireFrameSize * acc.length := Blocks.length_bytesOf henc acc
  have hcount : k.toNat = acc.length % 2 ^ 64 := by rw [hk, UInt64.toNat_ofNat']
  rw [Intact, payload_zcmHeader, promised_zcmHeader, hflat, hcount]
  constructor
  · intro h
    have hfew : acc.length < 2 ^ 64 := by
      have hle := congrArg List.length h
      rw [List.length_take, hlen, show Core.wireFrameSize = 24 from rfl] at hle
      omega
    rw [Nat.mod_eq_of_lt hfew, ← hlen] at h
    exact ⟨hfew, List.prefix_iff_eq_take.mpr h.symm⟩
  · rintro ⟨hfew, hprefix⟩
    rw [Nat.mod_eq_of_lt hfew, ← hlen]
    exact (List.prefix_iff_eq_take.mp hprefix).symm

end Intact

/-- A frame that is not the golden one. -/
def laterSample : Core.SensorSample := { goldenSample with seq := 43 }

/-- The first byte of the two frames is nowhere else in them. -/
theorem marked_frames : Marked Core.WireFrame.bytes 0x43 (Core.packFrameInto laterSample) ∧
    Marked Core.WireFrame.bytes 0x43 (Core.packFrameInto goldenSample) ∧
    (Core.packFrameInto laterSample).bytes ≠ (Core.packFrameInto goldenSample).bytes := by
  refine ⟨⟨(Core.packFrameInto laterSample).bytes.tail, ?_⟩, ⟨(Core.packFrameInto goldenSample).bytes.tail, ?_⟩, ?_⟩
  all_goals decide +kernel

/-- The accepted frames stand in front, whatever is recorded with these outcomes. -/
theorem whatever_iff {β : Type} {enc : β → List UInt8} (henc : ∀ b, (enc b).length = Core.wireFrameSize) {a b : β}
    (ha : enc a = (Core.packFrameInto laterSample).bytes) (hb : enc b = (Core.packFrameInto goldenSample).bytes)
    (os : List (Outcome Core.wireFrameSize)) {d : Nat} (hd : d ≠ 0 → ¬Kept os) :
    (∀ bs : List β, bs.length = os.length →
      (accepted (bs.zip os)).length < 2 ^ 64 ∧
        bytesOf enc (accepted (bs.zip os)) <+: (content enc (bs.zip os)).drop d) ↔
      (Kept os ∧ InOrder os) ∧ os.countP (·.ok) < 2 ^ 64 := by
  obtain ⟨⟨s, hs, hms⟩, ⟨t, ht, hmt⟩, hne⟩ := marked_frames
  have hiff := prefix_iff henc ⟨s, ha.trans hs, hms⟩ ⟨t, hb.trans ht, hmt⟩ (by rw [ha, hb]; exact hne) os hd
  constructor
  · intro h
    refine ⟨hiff.mp fun bs hbs => (h bs hbs).2, ?_⟩
    have hlen : (List.replicate os.length a).length = os.length := List.length_replicate
    rw [← length_accepted_zip hlen]
    exact (h _ hlen).1
  · rintro ⟨hclean, hfew⟩ bs hbs
    exact ⟨by rw [length_accepted_zip hbs]; exact hfew, hiff.mpr hclean bs hbs⟩

namespace Core

/-! ## The code -/

/-- The output of `zcmesh_capture` between the two calls of `rewrite_header`, with the history of the frames that
`append_frame` counted. -/
structure Recorder where
  out : File
  ok : UInt64 := 0
  accepted : List WireFrame := []

namespace Recorder

/-- Behind the first `rewrite_header`. -/
def start (size : BufferSize) : Recorder := { out := (rewriteHeader { size } true 0).2 }

/-- `append_frame`, when a flush takes `n` bytes of the buffer. -/
def step (s : Recorder) (x : WireFrame × Nat) : Recorder :=
  let (out, ok) := appendFrame { s.out with flushes := [x.2] } x.1 s.ok
  { out, ok, accepted := if ok = s.ok then s.accepted else s.accepted ++ [x.1] }

/-- The file behind the final `rewrite_header` and `fclose`, when their flushes are complete. -/
def file (s : Recorder) : List UInt8 := (rewriteHeader { s.out with flushes := [] } true s.ok).2.fclose

end Recorder

/-! ## The frames and the flushes -/

/-- Each flush takes all of the buffer, or exactly the bytes that stood in it before the frame for which there was no
room, or at least these with the last frame of all. There are `held` bytes in the buffer at first. -/
def CleanFlushes (size : Nat) : Nat → List Nat → Prop
  | _, [] => True
  | held, n :: ns =>
    if held + wireFrameSize ≤ size then CleanFlushes size (held + wireFrameSize) ns
    else if size ≤ n then CleanFlushes size (held + wireFrameSize - size) ns
    else (n = held ∨ held ≤ n ∧ ns = []) ∧ CleanFlushes size 0 ns

instance decidableCleanFlushes (size : Nat) : (held : Nat) → (ns : List Nat) → Decidable (CleanFlushes size held ns)
  | _, [] => isTrue trivial
  | held, n :: ns =>
    have := decidableCleanFlushes size (held + wireFrameSize) ns
    have := decidableCleanFlushes size (held + wireFrameSize - size) ns
    have := decidableCleanFlushes size 0 ns
    inferInstanceAs (Decidable (if held + wireFrameSize ≤ size then CleanFlushes size (held + wireFrameSize) ns
      else if size ≤ n then CleanFlushes size (held + wireFrameSize - size) ns
      else (n = held ∨ held ≤ n ∧ ns = []) ∧ CleanFlushes size 0 ns))

/-- A frame for which there was no room. -/
def failed (room : Nat) : Outcome wireFrameSize := ⟨min room wireFrameSize, false, Nat.min_le_right _ _⟩

/-- What becomes of the frames. There are `held` bytes in the buffer at first, and `c` frames have been written since it
was dropped. -/
def outcomes (size : Nat) : Nat → Nat → List Nat → List (Outcome wireFrameSize)
  | _, c, [] => List.replicate c .whole
  | held, c, n :: ns =>
    if held + wireFrameSize ≤ size then outcomes size (held + wireFrameSize) (c + 1) ns
    else if size ≤ n then outcomes size (held + wireFrameSize - size) (c + 1) ns
    else
      cut (List.replicate c .whole ++ [failed (size - held)]) (wireFrameSize * c + n - held) ++ outcomes size 0 0 ns

section Outcomes

variable {size : Nat}

theorem length_outcomes (held c : Nat) (ns : List Nat) : (outcomes size held c ns).length = c + ns.length := by
  induction ns generalizing held c with
  | nil => simp [outcomes]
  | cons n ns ih =>
    rw [outcomes]
    split
    · rw [ih, List.length_cons]
      omega
    · split
      · rw [ih, List.length_cons]
        omega
      · rw [List.length_append, length_cut, ih, List.length_append, List.length_replicate, List.length_singleton,
          List.length_cons]
        omega

/-- Behind a first frame something has succeeded. -/
theorem exists_ok_outcomes (held : Nat) {c : Nat} (hc : 0 < c) (ns : List Nat) :
    ∃ o ∈ outcomes size held c ns, o.ok = true := by
  induction ns generalizing held c with
  | nil => exact ⟨.whole, List.mem_replicate.mpr ⟨by omega, rfl⟩, rfl⟩
  | cons n ns ih =>
    rw [outcomes]
    split
    · exact ih _ (Nat.succ_pos c)
    · split
      · exact ih _ (Nat.succ_pos c)
      · obtain ⟨c, rfl⟩ := Nat.exists_eq_succ_of_ne_zero (Nat.pos_iff_ne_zero.mp hc)
        rw [List.replicate_succ, List.cons_append, cut]
        exact ⟨_, List.mem_append_left _ List.mem_cons_self, rfl⟩

/-- **The outcomes are clean exactly when the flushes are.** -/
theorem clean_outcomes_iff (hsize : 256 ≤ size) {held c : Nat} (hheld : held ≤ wireFrameSize * c + zcmHeaderSize)
    (ns : List Nat) :
    Kept (outcomes size held c ns) ∧ InOrder (outcomes size held c ns) ↔ CleanFlushes size held ns := by
  induction ns generalizing held c with
  | nil => simp only [outcomes, CleanFlushes, clean_whole, and_self]
  | cons n ns ih =>
    have h24 : wireFrameSize = 24 := rfl
    have h16 : zcmHeaderSize = 16 := rfl
    have hmul : wireFrameSize * c = 24 * c := rfl
    have hmul' : wireFrameSize * (c + 1) = 24 * c + 24 := rfl
    rw [outcomes, CleanFlushes]
    by_cases hroom : held + wireFrameSize ≤ size
    · rw [if_pos hroom, if_pos hroom]
      exact ih (by omega)
    rw [if_neg hroom, if_neg hroom]
    by_cases hflush : size ≤ n
    · rw [if_pos hflush, if_pos hflush]
      exact ih (by omega)
    rw [if_neg hflush, if_neg hflush, ← @ih 0 0 (Nat.zero_le _)]
    by_cases hlost : n < held
    · -- a frame that was in the buffer is lost
      have hcut : wireFrameSize * c + n - held < wireFrameSize * c := by omega
      constructor
      · rintro ⟨hkept, -⟩
        exact absurd (Kept.append.mp hkept).1 (not_kept_cut hcut)
      · rintro ⟨hn, -⟩
        omega
    · -- those in the buffer are whole, and the last one is a part
      rw [cut_whole_append (by omega), cut, cut, List.append_assoc, List.singleton_append,
        clean_whole_part (show ((failed (size - held)).cut _).ok = false from rfl)]
      refine and_congr_left fun _ => or_congr ?_ ?_
      · show min (min (size - held) wireFrameSize) (wireFrameSize * c + n - held - wireFrameSize * c) = 0 ↔ n = held
        omega
      · constructor
        · intro hnone
          refine ⟨by omega, ?_⟩
          cases ns with
          | nil => rfl
          | cons n' ns =>
            obtain ⟨o, ho, hok⟩ := @exists_ok_outcomes size (0 + wireFrameSize) 1 Nat.one_pos ns
            have hfits : 0 + wireFrameSize ≤ size := by omega
            rw [outcomes, if_pos hfits] at hnone
            rw [hnone o ho] at hok
            cases hok
        · rintro ⟨-, rfl⟩ o ho
          cases ho

end Outcomes

/-! ## The log of the stream -/

namespace Recorder

/-- The stream has a buffer of `size` bytes and stands at the end of `log`, whose last `held` bytes are in the
buffer. -/
structure Holds (s : Recorder) (size : BufferSize) (log : List UInt8) (held : Nat) : Prop where
  size_eq : s.out.size = size
  atEnd : s.out.offset = s.out.stored.length
  log_eq : s.out.stored ++ s.out.buffer = log
  held_eq : s.out.buffer.length = held
  counter : s.ok = UInt64.ofNat s.accepted.length

section Step

variable {s : Recorder} {size : BufferSize} {log : List UInt8} {held : Nat} (h : s.Holds size log held)
  (frame : WireFrame) {n : Nat}

/-- A frame that `fwrite` took is counted. -/
theorem step_written {out : File}
    (hwrite : { s.out with flushes := [n] }.fwrite frame.bytes = (wireFrameSize, out)) :
    s.step (frame, n) = { out, ok := s.ok + 1, accepted := s.accepted ++ [frame] } := by
  have hnew : s.ok + 1 ≠ s.ok := by simp
  simp only [step, appendFrame, hwrite, ne_eq, not_true, if_false, hnew]

/-- A short write is not. -/
theorem step_short {out : File} {k : Nat} (hk : k ≠ wireFrameSize)
    (hwrite : { s.out with flushes := [n] }.fwrite frame.bytes = (k, out)) : s.step (frame, n) = { s with out } := by
  simp only [step, appendFrame, hwrite, ne_eq, hk, not_false_eq_true, if_true]

include h

theorem Holds.counter_succ : s.ok + 1 = UInt64.ofNat (s.accepted ++ [frame]).length := by
  rw [h.counter, List.length_append, List.length_singleton, UInt64.ofNat_add]
  rfl

/-- What `fwrite` does without room for the frame. -/
theorem Holds.fwrite_full (hheld : held ≤ size.1) (hroom : size.1 < held + wireFrameSize) :
    { s.out with flushes := [n] }.fwrite frame.bytes =
      if size.1 ≤ n then
        (wireFrameSize,
          { size
            stored := log ++ frame.bytes.take (size.1 - held)
            offset := s.out.offset + size.1
            buffer := frame.bytes.drop (size.1 - held) })
      else
        (size.1 - held,
          { size
            stored := (log ++ frame.bytes.take (size.1 - held)).take (log.length + n - held)
            offset := s.out.offset + n }) := by
  have hfull := @File.fwrite_full { s.out with flushes := [n] } frame.bytes h.atEnd
    (by rw [h.held_eq, h.size_eq]; exact hheld) (by rw [h.held_eq, h.size_eq, WireFrame.length_bytes]; exact hroom)
    n [] rfl
  obtain ⟨rfl, -, rfl, rfl, -⟩ := h
  have hkeep : (s.out.stored ++ s.out.buffer).length + n - s.out.buffer.length = s.out.stored.length + n := by
    rw [List.length_append]
    omega
  rw [hfull, WireFrame.length_bytes, hkeep, List.append_assoc, List.take_length_add_append]

/-- There is room for the frame. -/
theorem Holds.fits (hroom : held + wireFrameSize ≤ size.1) :
    (s.step (frame, n)).Holds size (log ++ frame.bytes) (held + wireFrameSize) ∧
      (s.step (frame, n)).accepted = s.accepted ++ [frame] := by
  have hwrite := @File.fwrite_fits { s.out with flushes := [n] } frame.bytes (by
    rw [WireFrame.length_bytes, h.held_eq, h.size_eq]
    exact hroom)
  rw [step_written frame hwrite]
  exact
    ⟨{ size_eq := h.size_eq
       atEnd := h.atEnd
       log_eq := by rw [← h.log_eq, List.append_assoc]
       held_eq := by rw [List.length_append, h.held_eq, WireFrame.length_bytes]
       counter := h.counter_succ frame }, rfl⟩

variable (hheld : held ≤ size.1) (hroom : size.1 < held + wireFrameSize)
include hheld hroom

/-- There is no room, and the buffer is written. -/
theorem Holds.flushes (hn : size.1 ≤ n) :
    (s.step (frame, n)).Holds size (log ++ frame.bytes) (held + wireFrameSize - size.1) ∧
      (s.step (frame, n)).accepted = s.accepted ++ [frame] := by
  have hwrite := h.fwrite_full frame hheld hroom (n := n)
  rw [if_pos hn] at hwrite
  rw [step_written frame hwrite]
  exact
    ⟨{ size_eq := rfl
       atEnd := by
         show s.out.offset + size.1 = (log ++ frame.bytes.take (size.1 - held)).length
         rw [List.length_append, List.length_take, WireFrame.length_bytes, h.atEnd, ← h.log_eq, List.length_append,
           h.held_eq]
         omega
       log_eq := by rw [List.append_assoc, List.take_append_drop]
       held_eq := by
         rw [List.length_drop, WireFrame.length_bytes]
         omega
       counter := h.counter_succ frame }, rfl⟩

/-- There is no room, and the buffer is not written to the end. -/
theorem Holds.fails (hn : n < size.1) :
    (s.step (frame, n)).Holds size ((log ++ frame.bytes.take (size.1 - held)).take (log.length + n - held)) 0 ∧
      (s.step (frame, n)).accepted = s.accepted := by
  have hwrite := h.fwrite_full frame hheld hroom (n := n)
  rw [if_neg (Nat.not_le.mpr hn)] at hwrite
  have hshort : size.1 - held ≠ wireFrameSize := by omega
  rw [step_short frame hshort hwrite]
  exact
    ⟨{ size_eq := rfl
       atEnd := by
         show s.out.offset + n = ((log ++ frame.bytes.take (size.1 - held)).take (log.length + n - held)).length
         rw [List.length_take, List.length_append, List.length_take, WireFrame.length_bytes, h.atEnd, ← h.log_eq,
           List.length_append, h.held_eq]
         omega
       log_eq := List.append_nil _
       held_eq := rfl
       counter := h.counter }, rfl⟩

end Step

/-- What has become of `c` whole frames and one for which there was no room. -/
theorem content_dropped {fs : List WireFrame} (frame : WireFrame) (room n : Nat) :
    content WireFrame.bytes ((fs ++ [frame]).zip (cut (List.replicate fs.length .whole ++ [failed room]) n)) =
      (bytesOf WireFrame.bytes fs ++ frame.bytes.take room).take n := by
  have hroom : frame.bytes.take (min room wireFrameSize) = frame.bytes.take room := by
    rw [← List.take_take, ← WireFrame.length_bytes frame, List.take_length]
  rw [content_cut WireFrame.length_bytes, List.zip_append List.length_replicate.symm, content_append,
    content_whole WireFrame.length_bytes]
  simp only [List.zip_cons_cons, List.zip_nil_right, content_cons, content_nil, List.append_nil]
  rw [show (failed room).written = min room wireFrameSize from rfl, hroom]

theorem accepted_dropped {fs : List WireFrame} (frame : WireFrame) (room n : Nat) :
    TornLog.accepted ((fs ++ [frame]).zip (cut (List.replicate fs.length .whole ++ [failed room]) n)) = fs := by
  rw [accepted_cut, List.zip_append List.length_replicate.symm, accepted_append, accepted_whole]
  exact List.append_nil _

/-- Runs with the flushes `ns` leave of each frame what its outcome says, and of what was in front of them all but `d`
bytes. There are `held` bytes in the buffer at first, and `c` frames have been written since it was dropped. -/
def Leaves (size : BufferSize) (held c : Nat) (ns : List Nat) (os : List (Outcome wireFrameSize)) (d : Nat) : Prop :=
  ∀ (s : Recorder) (front : List UInt8) (fs earlier : List WireFrame) (xs : List (WireFrame × Nat)),
    s.Holds size (front ++ bytesOf WireFrame.bytes fs) held → s.accepted = earlier ++ fs → fs.length = c →
    xs.map Prod.snd = ns →
    let ws := (fs ++ xs.map Prod.fst).zip os
    (∃ held', (Runs.run step s xs).Holds size (front.take (front.length - d) ++ content WireFrame.bytes ws) held') ∧
      (Runs.run step s xs).accepted = earlier ++ TornLog.accepted ws

section Leaves

variable {size : BufferSize} {held c n : Nat} {ns : List Nat} {os : List (Outcome wireFrameSize)} {d : Nat}

theorem leaves_nil : Leaves size held c [] (List.replicate c .whole) 0 := by
  rintro s front fs earlier xs h hacc rfl hxs
  obtain rfl : xs = [] := List.map_eq_nil_iff.mp hxs
  have hlog := @content_whole _ _ wireFrameSize _ WireFrame.length_bytes fs
  have hall := @accepted_whole _ wireFrameSize fs
  simp only [List.map_nil, List.append_nil, Runs.run_nil, Nat.sub_zero, List.take_length, hlog, hall]
  exact ⟨⟨held, h⟩, hacc⟩

/-- One more frame is written. -/
theorem Leaves.written {held' : Nat} (h : Leaves size held' (c + 1) ns os d)
    (hstep : ∀ (s : Recorder) (log : List UInt8) (frame : WireFrame), s.Holds size log held →
      (s.step (frame, n)).Holds size (log ++ frame.bytes) held' ∧
        (s.step (frame, n)).accepted = s.accepted ++ [frame]) :
    Leaves size held c (n :: ns) os d := by
  rintro s front fs earlier xs hs hacc rfl hxs
  obtain ⟨⟨frame, n'⟩, xs, rfl, hn', hns⟩ := List.map_eq_cons_iff.mp hxs
  obtain rfl : n = n' := hn'.symm
  obtain ⟨hnext, hacc'⟩ := hstep s _ frame hs
  have hfs : fs ++ ((frame, n) :: xs).map Prod.fst = (fs ++ [frame]) ++ xs.map Prod.fst := by
    rw [List.map_cons, List.append_assoc]
    rfl
  rw [hfs, Runs.run_cons]
  refine h _ front (fs ++ [frame]) earlier xs ?_ ?_ (by rw [List.length_append]; rfl) hns
  · have hbytes : bytesOf WireFrame.bytes (fs ++ [frame]) = bytesOf WireFrame.bytes fs ++ frame.bytes := by simp
    rw [hbytes, ← List.append_assoc]
    exact hnext
  · rw [hacc', hacc, List.append_assoc]

/-- A flush fails, and the buffer is dropped. -/
theorem Leaves.dropped (h : Leaves size 0 0 ns os 0) (hheld : held ≤ size.1)
    (hroom : size.1 < held + wireFrameSize) (hn : n < size.1) :
    Leaves size held c (n :: ns)
      (cut (List.replicate c .whole ++ [failed (size.1 - held)]) (wireFrameSize * c + n - held) ++ os)
      (held - (wireFrameSize * c + n)) := by
  rintro s front fs earlier xs hs hacc rfl hxs
  obtain ⟨⟨frame, n'⟩, xs, rfl, hn', hns⟩ := List.map_eq_cons_iff.mp hxs
  obtain rfl : n = n' := hn'.symm
  obtain ⟨hnext, hacc'⟩ := hs.fails frame hheld hroom hn
  have hlen : (bytesOf WireFrame.bytes fs).length = wireFrameSize * fs.length := length_frames fs
  -- the cut is in the frames, or else in front of them
  have hcut : front.take ((front ++ bytesOf WireFrame.bytes fs).length + n - held) =
      front.take (front.length - (held - (wireFrameSize * fs.length + n))) := by
    rw [List.length_append, hlen]
    by_cases hle : held ≤ wireFrameSize * fs.length + n
    · rw [List.take_of_length_le (by omega), List.take_of_length_le (by omega)]
    · congr 1
      omega
  have hrest : (front ++ bytesOf WireFrame.bytes fs).length + n - held - front.length =
      wireFrameSize * fs.length + n - held := by
    rw [List.length_append, hlen]
    omega
  rw [List.append_assoc, List.take_append, hcut, hrest, ← content_dropped] at hnext
  obtain ⟨⟨held', hlast⟩, hacc''⟩ := h _ _ [] (earlier ++ fs) xs
    (by rw [Blocks.bytesOf_nil, List.append_nil]; exact hnext)
    (by rw [hacc', hacc, List.append_nil]) rfl hns
  have hws : (fs ++ ((frame, n) :: xs).map Prod.fst).zip
      (cut (List.replicate fs.length .whole ++ [failed (size.1 - held)]) (wireFrameSize * fs.length + n - held) ++ os) =
        (fs ++ [frame]).zip
          (cut (List.replicate fs.length .whole ++ [failed (size.1 - held)]) (wireFrameSize * fs.length + n - held)) ++
          (xs.map Prod.fst).zip os := by
    rw [List.map_cons, ← List.zip_append (by simp), List.append_assoc]
    rfl
  rw [hws]
  dsimp only
  rw [content_append, accepted_append, accepted_dropped, Runs.run_cons, ← List.append_assoc, ← List.append_assoc]
  rw [Nat.sub_zero, List.take_length] at hlast
  exact ⟨⟨held', hlast⟩, hacc''⟩

end Leaves

/-- **What a run leaves**: what is lost in front of all frames is lost with a frame. -/
theorem run_outcomes (size : BufferSize) (ns : List Nat) {held c : Nat} (hheld : held ≤ size.1)
    (hfront : held ≤ wireFrameSize * c + zcmHeaderSize) :
    ∃ d, d ≤ held - wireFrameSize * c ∧ (d ≠ 0 → ¬Kept (outcomes size.1 held c ns)) ∧
      Leaves size held c ns (outcomes size.1 held c ns) d := by
  have h24 : wireFrameSize = 24 := rfl
  have h16 : zcmHeaderSize = 16 := rfl
  induction ns generalizing held c with
  | nil => exact ⟨0, Nat.zero_le _, fun h => absurd rfl h, leaves_nil⟩
  | cons n ns ih =>
    have hmul : wireFrameSize * c = 24 * c := rfl
    have hmul' : wireFrameSize * (c + 1) = 24 * c + 24 := rfl
    have hsize := size.2
    rw [outcomes]
    by_cases hroom : held + wireFrameSize ≤ size.1
    · obtain ⟨d, hd, hkept, hleaves⟩ := @ih (held + wireFrameSize) (c + 1) hroom (by omega)
      rw [if_pos hroom]
      exact ⟨d, by omega, hkept, hleaves.written fun _ _ frame h => h.fits frame hroom⟩
    rw [if_neg hroom]
    by_cases hflush : size.1 ≤ n
    · obtain ⟨d, hd, hkept, hleaves⟩ := @ih (held + wireFrameSize - size.1) (c + 1) (by omega) (by omega)
      rw [if_pos hflush]
      exact ⟨d, by omega, hkept, hleaves.written fun _ _ frame h => h.flushes frame hheld (by omega) hflush⟩
    · obtain ⟨d, hd, -, hleaves⟩ := @ih 0 0 (Nat.zero_le _) (Nat.zero_le _)
      obtain rfl : d = 0 := Nat.le_zero.mp hd
      rw [if_neg hflush]
      refine ⟨_, by omega, fun hlost hkept => ?_, hleaves.dropped hheld (by omega) (by omega)⟩
      exact not_kept_cut (by omega) (Kept.append.mp hkept).1

/-- Behind the first `rewrite_header`, the header stands in the buffer. -/
theorem holds_start (size : BufferSize) : (start size).Holds size (zcmHeader 0).bytes zcmHeaderSize := by
  rw [start, rewriteHeader_eq rfl]
  exact ⟨rfl, rfl, rfl, rfl, rfl⟩

/-- The final rewrite stores the log, with its own header in front. -/
theorem Holds.file {s : Recorder} {size : BufferSize} {log : List UInt8} {held : Nat} (h : s.Holds size log held) :
    s.file = (zcmHeader (UInt64.ofNat s.accepted.length)).bytes ++ log.drop zcmHeaderSize := by
  have hend : ({ s.out with flushes := [] } : File).AtEnd := ⟨h.atEnd, rfl⟩
  obtain ⟨-, hflushes, hcontents⟩ := @rewriteHeader_complete { s.out with flushes := [] } rfl s.ok
  rw [Recorder.file, File.fclose_complete hflushes, hcontents, hend.contents_eq, h.counter]
  exact congrArg (fun log => _ ++ log.drop zcmHeaderSize) h.log_eq

/-- **When a recording survives failed flushes**: for every size of the buffer and all flushes, the file at the end is
intact, whatever the frames are, if and only if the flushes are clean (and the counter of 64 bits does not wrap). -/
theorem intact_iff (size : BufferSize) (ns : List Nat) :
    (∀ xs : List (WireFrame × Nat), xs.map Prod.snd = ns →
      Intact (Runs.run step (start size) xs).file ((Runs.run step (start size) xs).accepted.map WireFrame.bytes)) ↔
      CleanFlushes size.1 zcmHeaderSize ns ∧ (outcomes size.1 zcmHeaderSize 0 ns).countP (·.ok) < 2 ^ 64 := by
  have hheader : zcmHeaderSize ≤ size.1 := Nat.le_trans (by decide) size.2
  obtain ⟨d, hd, hlost, hleaves⟩ := run_outcomes size ns hheader (c := 0) (Nat.le_refl _)
  have hlen : (outcomes size.1 zcmHeaderSize 0 ns).length = ns.length := (length_outcomes _ _ _).trans (Nat.zero_add _)
  -- the file is the header and the log, without what was lost in front of it
  have hrun (xs : List (WireFrame × Nat)) (hxs : xs.map Prod.snd = ns) :
      Intact (Runs.run step (start size) xs).file ((Runs.run step (start size) xs).accepted.map WireFrame.bytes) ↔
        let ws := (xs.map Prod.fst).zip (outcomes size.1 zcmHeaderSize 0 ns)
        (TornLog.accepted ws).length < 2 ^ 64 ∧
          bytesOf WireFrame.bytes (TornLog.accepted ws) <+: (content WireFrame.bytes ws).drop d := by
    obtain ⟨⟨held', hholds⟩, hacc⟩ := hleaves (start size) (zcmHeader 0).bytes [] [] xs
      (by rw [Blocks.bytesOf_nil, List.append_nil]; exact holds_start size) rfl rfl hxs
    have hfront : ((zcmHeader 0).bytes.take ((zcmHeader 0).bytes.length - d)).length = zcmHeaderSize - d := by
      rw [List.length_take, ZcmHeader.length_bytes]
      omega
    rw [hholds.file, List.drop_append, List.drop_of_length_le (by rw [hfront]; omega), List.nil_append, hfront, hacc]
    have hback : zcmHeaderSize - (zcmHeaderSize - d) = d := by omega
    rw [hback]
    exact intact_iff_prefix WireFrame.length_bytes rfl
  have hclean := @clean_outcomes_iff size.1 size.2 zcmHeaderSize 0 (Nat.le_refl _) ns
  rw [← hclean, ← whatever_iff WireFrame.length_bytes rfl rfl _ hlost, hlen]
  constructor
  · intro h bs hbs
    have hfst : (bs.zip ns).map Prod.fst = bs := List.map_fst_zip (Nat.le_of_eq hbs)
    have hsnd : (bs.zip ns).map Prod.snd = ns := List.map_snd_zip (Nat.le_of_eq hbs.symm)
    have hone := (hrun _ hsnd).mp (h _ hsnd)
    rwa [hfst] at hone
  · intro h xs hxs
    exact (hrun xs hxs).mpr (h _ (by rw [List.length_map, ← hxs, List.length_map]))

/-- As long as there is room, all frames stand in the buffer. -/
theorem run_fits (size : BufferSize) (xs : List (WireFrame × Nat))
    (hroom : zcmHeaderSize + wireFrameSize * xs.length ≤ size.1) :
    (Runs.run step (start size) xs).Holds size ((zcmHeader 0).bytes ++ bytesOf WireFrame.bytes (xs.map Prod.fst))
      (zcmHeaderSize + wireFrameSize * xs.length) ∧
      (Runs.run step (start size) xs).accepted = xs.map Prod.fst := by
  induction xs using List.reverseRecOn with
  | nil => exact ⟨by rw [List.map_nil, Blocks.bytesOf_nil, List.append_nil]; exact holds_start size, rfl⟩
  | append_singleton xs x ih =>
    obtain ⟨frame, n⟩ := x
    rw [List.length_append, List.length_singleton, Nat.mul_succ, ← Nat.add_assoc] at hroom
    obtain ⟨hholds, hacc⟩ := ih (Nat.le_trans (Nat.le_add_right _ _) hroom)
    obtain ⟨hnext, hacc'⟩ := hholds.fits frame hroom (n := n)
    rw [Runs.run_snoc, List.length_append, List.length_singleton, Nat.mul_succ, ← Nat.add_assoc, List.map_append,
      Blocks.bytesOf_append, ← List.append_assoc]
    refine ⟨?_, by rw [hacc', hacc]; rfl⟩
    simpa using hnext

/-- **A first flush that takes nothing loses all frames before it**, although they are counted: the file at the end is a
header. -/
theorem file_dropped {size : BufferSize} {xs : List (WireFrame × Nat)}
    (hroom : zcmHeaderSize + wireFrameSize * xs.length ≤ size.1)
    (hfull : size.1 < zcmHeaderSize + wireFrameSize * xs.length + wireFrameSize) (frame : WireFrame) :
    let s := Runs.run step (start size) (xs ++ [(frame, 0)])
    s.accepted = xs.map Prod.fst ∧ s.ok = UInt64.ofNat xs.length ∧
      s.file = (zcmHeader (UInt64.ofNat xs.length)).bytes := by
  intro s
  obtain ⟨hholds, hacc⟩ := run_fits size xs hroom
  obtain ⟨hlast, hacc'⟩ := hholds.fails frame hroom hfull (n := 0) (Nat.lt_of_lt_of_le (by decide) size.2)
  have hs : s = (Runs.run step (start size) xs).step (frame, 0) := Runs.run_snoc _ _ _
  rw [← hs] at hlast hacc'
  have hcount : s.accepted.length = xs.length := by rw [hacc', hacc, List.length_map]
  have hlen : ((zcmHeader 0).bytes ++ bytesOf WireFrame.bytes (xs.map Prod.fst)).length =
      zcmHeaderSize + wireFrameSize * xs.length := by
    rw [List.length_append, ZcmHeader.length_bytes, length_frames, List.length_map]
  have hfile := hlast.file
  rw [hlen, Nat.add_zero, Nat.sub_self, List.take_zero, List.drop_nil, List.append_nil] at hfile
  exact ⟨hacc'.trans hacc, by rw [hlast.counter, hcount], by rw [hfile, hcount]⟩

end Recorder

end Core

end ZcMesh
