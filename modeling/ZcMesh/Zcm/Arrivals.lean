import ZcMesh.Lib.Run
import ZcMesh.Stream.Reference

/-!
# What a recording should contain

What arrives at a capture: datagrams, and connections one after the other, each with its own bytes. The log names every
frame together with where it came from, at the moment it is complete: a datagram that begins with a frame gives this
frame; bytes on a connection give the frames that the reference scan of all bytes of this connection finds in addition.

So the frames from a connection are those of the scan of its bytes, and the frames from the datagrams are their
beginnings that verify (`log_spec`). Nothing here knows of leftover bytes, files or headers.
-/

namespace ZcMesh

open ZcMesh.Core (WireFrame verifyFrame wireFrameSize)
open Runs (run)
open WindowScan (scan)

/-- Where a frame comes from: the datagrams, or a connection, counted in the order in which they were accepted. -/
inductive Source
  | udp
  | tcp (connection : Nat)
  deriving DecidableEq, Repr

/-- What can happen to a capture. -/
inductive Event
  | accepted
  | received (bytes : List UInt8)
  | closed
  | datagram (data : List UInt8)
  deriving DecidableEq, Repr

/-- What has arrived: the bytes of the connections that are gone and of the open one, the datagrams, and the log. -/
structure Arrivals where
  past : List (List UInt8) := []
  current : Option (List UInt8) := none
  datagrams : List (List UInt8) := []
  log : List (Source × List UInt8) := []
  deriving DecidableEq, Repr

/-- The datagram begins with a frame. -/
def beginsWithFrame (data : List UInt8) : Bool :=
  decide (wireFrameSize ≤ data.length) && verifyFrame (.ofBytes (data.take wireFrameSize))

/-- The frames that further bytes bring to a connection. -/
def newFrames (before bytes : List UInt8) : List (List UInt8) :=
  (scan frameSpec (before ++ bytes)).frames.drop (scan frameSpec before).frames.length

namespace Arrivals

/-- The bytes of all connections, the oldest first. -/
def connections (a : Arrivals) : List (List UInt8) := a.past ++ a.current.toList

/-- The frames of the log, in order. -/
def frames (a : Arrivals) : List (List UInt8) := a.log.map Prod.snd

/-- The frames of the log from one source, in order. -/
def framesFrom (a : Arrivals) (source : Source) : List (List UInt8) :=
  (a.log.filter (·.1 = source)).map Prod.snd

/-- A connection that is accepted replaces the open one. -/
def step (a : Arrivals) : Event → Arrivals
  | .accepted => { a with past := a.connections, current := some [] }
  | .received bytes =>
    match a.current with
    | none => a
    | some before =>
      { a with
        current := some (before ++ bytes)
        log := a.log ++ (newFrames before bytes).map (Source.tcp a.past.length, ·) }
  | .closed => { a with past := a.connections, current := none }
  | .datagram data =>
    { a with
      datagrams := a.datagrams ++ [data]
      log := a.log ++ if beginsWithFrame data then [(.udp, data.take wireFrameSize)] else [] }

/-- A number added up over the connections. -/
def total (f : List UInt8 → Nat) (a : Arrivals) : Nat := (a.connections.map f).sum

/-- The windows with a magic that do not verify, and the datagrams with something else in them. -/
def rejected (a : Arrivals) : Nat :=
  a.total (fun c => (scan frameSpec c).rejected) +
    a.datagrams.countP fun data => decide (0 < data.length) && !beginsWithFrame data

/-- The bytes of the connections that the scan passes. -/
def skipped (a : Arrivals) : Nat := a.total fun c => (scan frameSpec c).skipped

end Arrivals

/-! ## The frames of a source -/

/-- The scan goes on in what it has left. -/
theorem newFrames_eq (before bytes : List UInt8) :
    newFrames before bytes = (scan frameSpec ((scan frameSpec before).rest ++ bytes)).frames := by
  rw [newFrames, WindowScan.scan_append]
  exact List.drop_left

theorem frames_append_new (before bytes : List UInt8) :
    (scan frameSpec before).frames ++ newFrames before bytes = (scan frameSpec (before ++ bytes)).frames := by
  rw [newFrames_eq, WindowScan.scan_append before bytes]
  rfl

theorem scan_nil : scan frameSpec [] = .start [] := WindowScan.scan_short (by decide)

namespace Arrivals

/-! ## The numbers -/

section Total

variable {f : List UInt8 → Nat} {a : Arrivals}

theorem total_accepted (hf : f [] = 0) : (a.step .accepted).total f = a.total f := by
  show ((a.connections ++ [[]]).map f).sum = _
  simp [total, hf]

theorem total_closed : (a.step .closed).total f = a.total f := by
  show ((a.connections ++ []).map f).sum = _
  rw [List.append_nil, total]

theorem total_received {before bytes : List UInt8} (hc : a.current = some before) {n : Nat}
    (hf : f (before ++ bytes) = f before + n) : (a.step (.received bytes)).total f = a.total f + n := by
  simp [step, total, connections, hc, hf, Nat.add_assoc]

/-- A connection without bytes adds nothing. -/
theorem counts_accepted (a : Arrivals) :
    (a.step .accepted).rejected = a.rejected ∧ (a.step .accepted).skipped = a.skipped := by
  have hrejected := total_accepted (f := fun c => (scan frameSpec c).rejected) (a := a) (by rw [scan_nil]; rfl)
  have hskipped := total_accepted (f := fun c => (scan frameSpec c).skipped) (a := a) (by rw [scan_nil]; rfl)
  unfold rejected skipped
  rw [hrejected, hskipped]
  exact ⟨rfl, rfl⟩

theorem counts_closed (a : Arrivals) :
    (a.step .closed).rejected = a.rejected ∧ (a.step .closed).skipped = a.skipped := by
  unfold rejected skipped
  rw [total_closed, total_closed]
  exact ⟨rfl, rfl⟩

/-- Bytes add what the scan finds in them and in what it had left. -/
theorem counts_received {before : List UInt8} (hc : a.current = some before) (bytes : List UInt8) :
    let q := scan frameSpec ((scan frameSpec before).rest ++ bytes)
    (a.step (.received bytes)).rejected = a.rejected + q.rejected ∧
      (a.step (.received bytes)).skipped = a.skipped + q.skipped := by
  intro q
  have hscan := WindowScan.scan_append (S := frameSpec) before bytes
  have hrejected := total_received (f := fun c => (scan frameSpec c).rejected) hc (congrArg (·.rejected) hscan)
  have hskipped := total_received (f := fun c => (scan frameSpec c).skipped) hc (congrArg (·.skipped) hscan)
  have hdatagrams : (a.step (.received bytes)).datagrams = a.datagrams := by simp only [step, hc]
  unfold rejected skipped
  rw [hrejected, hskipped, hdatagrams, Nat.add_right_comm]
  exact ⟨rfl, rfl⟩

theorem rejected_datagram (a : Arrivals) (data : List UInt8) : (a.step (.datagram data)).rejected =
    a.rejected + if 0 < data.length && !beginsWithFrame data then 1 else 0 := by
  simp only [rejected, step, List.countP_append, List.countP_singleton, ← Nat.add_assoc]
  rfl

end Total

/-! ## The log -/

/-- Each source has given its own frames. -/
structure Logged (a : Arrivals) : Prop where
  tcp : ∀ i, a.framesFrom (.tcp i) = (scan frameSpec (a.connections.getD i [])).frames
  udp : a.framesFrom .udp = (a.datagrams.filter beginsWithFrame).map (List.take wireFrameSize)

theorem logged_fresh : Logged {} where
  tcp i := by
    show [] = _
    rw [show ({} : Arrivals).connections.getD i [] = [] from rfl, scan_nil]
    rfl
  udp := rfl

/-- Entries of one source extend the frames of this source. -/
theorem framesFrom_append {a a' : Arrivals} {source : Source} {ws : List (List UInt8)}
    (hlog : a'.log = a.log ++ ws.map (source, ·)) (other : Source) :
    a'.framesFrom other = a.framesFrom other ++ if source = other then ws else [] := by
  have htagged : ((ws.map (source, ·)).filter (·.1 = other)).map Prod.snd = if source = other then ws else [] := by
    rw [List.filter_map]
    split
    · rename_i h
      simp [h, Function.comp_def]
    · rename_i h
      simp [h, Function.comp_def]
  unfold framesFrom
  rw [hlog, List.filter_append, List.map_append, htagged]

/-- The last connection, or one before it. -/
theorem getD_concat (cs : List (List UInt8)) (c : List UInt8) (i : Nat) :
    (cs ++ [c]).getD i [] = if i = cs.length then c else cs.getD i [] := by
  simp only [List.getD_eq_getElem?_getD]
  rcases Nat.lt_trichotomy i cs.length with hlt | heq | hgt
  · rw [if_neg (Nat.ne_of_lt hlt), List.getElem?_append_left hlt]
  · rw [if_pos heq, heq, List.getElem?_concat_length, Option.getD_some]
  · have hlen : (cs ++ [c]).length ≤ i := by
      rw [List.length_append, List.length_singleton]
      omega
    rw [if_neg (Nat.ne_of_gt hgt), List.getElem?_eq_none hlen, List.getElem?_eq_none (Nat.le_of_lt hgt)]

theorem Logged.accepted {a : Arrivals} (h : Logged a) : Logged (a.step .accepted) := by
  refine ⟨?_, h.udp⟩
  intro i
  have hconn : (a.step .accepted).connections = a.connections ++ [[]] := rfl
  have hframes : (a.step .accepted).framesFrom (.tcp i) = a.framesFrom (.tcp i) := rfl
  rw [hframes, hconn, getD_concat, h.tcp i]
  split
  · rename_i hi
    rw [List.getD_eq_getElem?_getD, List.getElem?_eq_none (Nat.le_of_eq hi.symm)]
    rfl
  · rfl

/-- The bytes that arrive on the open connection belong to it alone. -/
theorem Logged.received {a : Arrivals} (h : Logged a) (bytes : List UInt8) : Logged (a.step (.received bytes)) := by
  cases hc : a.current with
  | none =>
    have hstep : a.step (.received bytes) = a := by simp only [Arrivals.step, hc]
    rw [hstep]
    exact h
  | some before =>
    have hstep : a.step (.received bytes) =
        { a with
          current := some (before ++ bytes)
          log := a.log ++ (newFrames before bytes).map (Source.tcp a.past.length, ·) } := by
      simp only [Arrivals.step, hc]
    have hlog : (a.step (.received bytes)).log =
        a.log ++ (newFrames before bytes).map (Source.tcp a.past.length, ·) := congrArg Arrivals.log hstep
    have hframes := framesFrom_append hlog
    have hold : a.connections = a.past ++ [before] := by
      rw [connections, hc]
      rfl
    have hnew : (a.step (.received bytes)).connections = a.past ++ [before ++ bytes] := by
      rw [hstep]
      rfl
    constructor
    · intro i
      have htcp := h.tcp i
      rw [hold, getD_concat] at htcp
      rw [hframes, hnew, getD_concat, htcp]
      by_cases hi : i = a.past.length
      · rw [if_pos hi, if_pos hi, if_pos (congrArg Source.tcp hi.symm), frames_append_new]
      · rw [if_neg hi, if_neg hi, if_neg fun heq => hi (Source.tcp.inj heq).symm, List.append_nil]
    · have hdatagrams : (a.step (.received bytes)).datagrams = a.datagrams := by rw [hstep]
      rw [hframes, hdatagrams, h.udp]
      exact List.append_nil _

theorem Logged.closed {a : Arrivals} (h : Logged a) : Logged (a.step .closed) := by
  refine ⟨?_, h.udp⟩
  intro i
  have hconn : (a.step .closed).connections = a.connections := List.append_nil _
  rw [hconn]
  exact h.tcp i

theorem Logged.datagram {a : Arrivals} (h : Logged a) (data : List UInt8) : Logged (a.step (.datagram data)) := by
  have hlog : (a.step (.datagram data)).log =
      a.log ++ (if beginsWithFrame data then [data.take wireFrameSize] else []).map (Source.udp, ·) := by
    show a.log ++ (if beginsWithFrame data then _ else _) = _
    split <;> rfl
  have hframes := framesFrom_append hlog
  constructor
  · intro i
    rw [hframes, h.tcp i]
    exact List.append_nil _
  · have hdatagrams : (a.step (.datagram data)).datagrams = a.datagrams ++ [data] := rfl
    rw [hframes, hdatagrams, h.udp, if_pos rfl, List.filter_append, List.map_append, List.filter_singleton]
    cases beginsWithFrame data <;> rfl

/-- **An event keeps the frames of the sources apart.** -/
theorem Logged.step {a : Arrivals} (h : Logged a) (e : Event) : Logged (a.step e) := by
  cases e with
  | accepted => exact h.accepted
  | received bytes => exact h.received bytes
  | closed => exact h.closed
  | datagram data => exact h.datagram data

/-- **Frames come from their own source**: after any events, the frames of a connection are those of the scan of its
bytes, and those of the datagrams are their beginnings that verify. -/
theorem log_spec (es : List Event) : Logged (run step {} es) :=
  Runs.run_inv (P := Logged) (fun _ e h => h.step e) es {} logged_fresh

/-- Every frame of the log verifies, and stands in one piece in what its source sent. -/
theorem Logged.mem {a : Arrivals} (h : Logged a) {source : Source} {w : List UInt8} (hw : (source, w) ∈ a.log) :
    w.length = wireFrameSize ∧ verifyFrame (.ofBytes w) = true ∧
      match source with
      | .udp => ∃ data ∈ a.datagrams, w <+: data
      | .tcp i => w <:+: a.connections.getD i [] := by
  have hfrom : w ∈ a.framesFrom source := List.mem_map.mpr ⟨(source, w), List.mem_filter.mpr ⟨hw, by simp⟩, rfl⟩
  cases source with
  | udp =>
    rw [h.udp] at hfrom
    obtain ⟨data, hdata, rfl⟩ := List.mem_map.mp hfrom
    obtain ⟨hmem, hbegins⟩ := List.mem_filter.mp hdata
    rw [beginsWithFrame, Bool.and_eq_true, decide_eq_true_eq] at hbegins
    exact ⟨List.length_take_of_le hbegins.1, hbegins.2, data, hmem, List.take_prefix _ _⟩
  | tcp i =>
    rw [h.tcp i] at hfrom
    obtain ⟨hlen, hacc⟩ := WindowScan.scan_frames_accept _ w hfrom
    simp only [frameSpec, Bool.and_eq_true, decide_eq_true_eq] at hacc
    exact ⟨hlen, hacc.2, WindowScan.scan_frames_infix _ w hfrom⟩

/-! ## One connection -/

/-- Without datagrams among the events none is added. -/
theorem datagrams_run {es : List Event} (h : ∀ data, .datagram data ∉ es) (a : Arrivals) :
    (run step a es).datagrams = a.datagrams := by
  induction es generalizing a with
  | nil => rfl
  | cons e es ih =>
    have hstep : (a.step e).datagrams = a.datagrams := by
      cases e with
      | accepted => rfl
      | received bytes =>
        cases hc : a.current with
        | none => simp only [step, hc]
        | some before => simp only [step, hc]
      | closed => rfl
      | datagram data => exact absurd List.mem_cons_self (h data)
    rw [Runs.run_cons, ih fun data hd => h data (List.mem_cons_of_mem e hd), hstep]

/-- With one connection and no datagrams the log is the scan of the connection. -/
theorem Logged.frames_of_one {a : Arrivals} (h : Logged a) {bytes : List UInt8} (hc : a.connections = [bytes])
    (hd : a.datagrams = []) : a.frames = (scan frameSpec bytes).frames := by
  have hfirst := h.tcp 0
  rw [hc] at hfirst
  have hall : a.log.filter (·.1 = .tcp 0) = a.log := by
    rw [List.filter_eq_self]
    rintro ⟨source, w⟩ hw
    have hfrom : w ∈ a.framesFrom source := List.mem_map.mpr ⟨(source, w), List.mem_filter.mpr ⟨hw, by simp⟩, rfl⟩
    cases source with
    | udp =>
      rw [h.udp, hd] at hfrom
      cases hfrom
    | tcp i =>
      cases i with
      | zero => rfl
      | succ i =>
        rw [h.tcp, hc, show [bytes].getD (i + 1) [] = [] from rfl, scan_nil] at hfrom
        cases hfrom
  rw [framesFrom, hall] at hfirst
  exact hfirst

/-! ## Datagrams only -/

/-- Without connections the log is the datagrams, if each of them is a frame. -/
theorem Logged.frames_of_datagrams {a : Arrivals} (h : Logged a) (hc : a.connections = [])
    (hgood : ∀ d ∈ a.datagrams, d.length = wireFrameSize ∧ verifyFrame (.ofBytes d) = true) :
    a.frames = a.datagrams := by
  have hall : a.log.filter (·.1 = .udp) = a.log := by
    rw [List.filter_eq_self]
    rintro ⟨source, w⟩ hw
    cases source with
    | udp => rfl
    | tcp i =>
      have hfrom : w ∈ a.framesFrom (.tcp i) := List.mem_map.mpr ⟨_, List.mem_filter.mpr ⟨hw, by simp⟩, rfl⟩
      rw [h.tcp, hc, List.getD_nil, scan_nil] at hfrom
      cases hfrom
  have hudp := h.udp
  rw [framesFrom, hall] at hudp
  have hbegin : ∀ d ∈ a.datagrams, d.take wireFrameSize = d ∧ beginsWithFrame d = true := by
    intro d hd
    obtain ⟨hlen, hv⟩ := hgood d hd
    have htake : d.take wireFrameSize = d := List.take_of_length_le (Nat.le_of_eq hlen)
    exact ⟨htake, by rw [beginsWithFrame, htake, hv, hlen]; rfl⟩
  rw [List.filter_eq_self.mpr fun d hd => (hbegin d hd).2] at hudp
  exact hudp.trans ((List.map_congr_left fun d hd => (hbegin d hd).1).trans (List.map_id _))

end Arrivals

end ZcMesh
