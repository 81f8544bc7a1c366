import ZcMesh.Lib.Run
import ZcMesh.Stats.PlainText
import ZcMesh.Stream.ByteBuffer

/-!
# The stats server and its clients

`operator-node/.../net/StatsServer.java`: a client connects, gets the text of one snapshot, and is closed; and
`StatsClient.scrape`, which reads to the end. The server handles the keys that `select` finds ready, in any order, and a
write takes as much as the channel does.

* What a client has been given and what is left in its buffer make up its text, and its channel is closed when nothing
  is left (`Conn.Sound`).
* The clients are those of the accepts, in order, up to the one that the server ends in front of (`Served`,
  `served_run`).
* So a client that reads to the end, in any chunks, finds the counters of its own accept: `scrape_exact`.
-/

namespace ZcMesh.Operator

open Runs (run)

/-! ## The code -/

/-- `getBytes(US_ASCII)`. -/
def encodeAscii (text : List Char) : List UInt8 := text.map fun c => if c.toNat < 128 then UInt8.ofNat c.toNat else 63

/-- `toString(US_ASCII)`. -/
def decodeAscii (bytes : List UInt8) : List Char := bytes.map fun b => if b < 128 then Char.ofNat b.toNat else '\uFFFD'

/-- `StatsClient.scrape` behind `connect`, with `buf` read so far. A call of `read` throws, finds the end, or gives some
bytes; `none` while it waits for them. -/
def StatsClient.scrape (buf : List UInt8) : List (Except String (Option (List UInt8))) →
    Option (Except String (List Char))
  | [] => none
  | .error msg :: _ => some (.error msg)
  | .ok none :: _ => some (.ok (decodeAscii buf))
  | .ok (some bs) :: reads => if bs.isEmpty then some (.ok (decodeAscii buf)) else scrape (buf ++ bs) reads

namespace StatsServer

/-- A client: the buffer attached to its key and whether its channel is open; as histories, what was sampled for it, and
the bytes it has been given. -/
structure Conn where
  buf : ByteBuffer
  isOpen : Bool := true
  snapshot : OperatorSnapshot
  written : List UInt8 := []

/-- What happens to the server. The loop comes to `select`, behind its test of `running`; a key is ready, and its
channel gives a client or `null`, or takes some bytes; a client's snapshot is taken at the time `now`. The sampler has
other users, and another thread calls `stop`. An `interrupt` of the thread wakes `select` up and does no more. -/
inductive Event
  | select (ready : Except String Unit)
  | acceptable (client : Except String Bool) (now : Int64) (seen : Nat → TelemetryPipeline)
  | writable (conn : Nat) (taken : Except String Nat)
  | sampled (now : Int64) (seen : Nat → TelemetryPipeline)
  | stop

/-- How `run` ended. -/
inductive Ending
  | returned
  | threw (msg : String)

end StatsServer

open StatsServer (Conn Event Ending)

/-- `StatsServer`, with the keys of its selector, and the end of its `run`. -/
structure StatsServer where
  sampler : MetricsSampler
  running : Bool := true
  conns : List Conn := []
  ended : Option Ending := none

namespace StatsServer

/-- `ch.write(buf)`, which takes `n` bytes if there are as many; an empty buffer closes the channel. -/
def Conn.write (c : Conn) (n : Nat) : Conn :=
  let n := min n c.buf.remaining
  have hn : c.buf.position + n ≤ c.buf.limit := by
    have := c.buf.position_le
    simp only [n, ByteBuffer.remaining]
    omega
  let buf := c.buf.setPosition (c.buf.position + n) hn
  { c with buf := buf, isOpen := buf.remaining ≠ 0, written := c.written ++ c.buf.slice.take n }

/-- A turn of the loop of `run`, one ready key in it, or a call of another thread. -/
def handle (s : StatsServer) : Event → StatsServer
  | .sampled now seen => { s with sampler := (s.sampler.snapshot now seen).2 }
  | .stop => { s with running := false }
  | .select ready =>
    if s.ended.isSome then s
    else if !s.running then { s with ended := some .returned }
    else
      match ready with
      | .error msg => { s with ended := some (.threw msg) }
      | .ok () => s
  | .acceptable client now seen =>
    if s.ended.isSome then s
    else
      match client with
      | .error msg => { s with ended := some (.threw msg) }
      | .ok false => s
      | .ok true =>
        let (snapshot, sampler) := s.sampler.snapshot now seen
        { s with
          sampler := sampler
          conns := s.conns ++ [{ buf := .wrap (encodeAscii snapshot.toPlainText), snapshot := snapshot }] }
  | .writable conn taken =>
    if s.ended.isSome then s
    else
      match s.conns[conn]? with
      | none => s
      | some c =>
        if !c.isOpen then s
        else
          match taken with
          | .error msg => { s with ended := some (.threw msg) }
          | .ok n => { s with conns := s.conns.set conn (c.write n) }

/-! ## What a client is given -/

/-- The text for a client. -/
def Conn.reply (c : Conn) : List UInt8 := encodeAscii c.snapshot.toPlainText

/-- What has been written and what is left make up the reply, and the channel is open while something is left. -/
structure Conn.Sound (c : Conn) : Prop where
  reply : c.written ++ c.buf.slice = c.reply
  isOpen : c.isOpen = true ↔ c.buf.slice ≠ []

theorem encodeAscii_ne_nil (snapshot : OperatorSnapshot) : encodeAscii snapshot.toPlainText ≠ [] := by
  rw [encodeAscii, toPlainText_lines]
  simp

theorem Conn.Sound.new (snapshot : OperatorSnapshot) :
    Conn.Sound { buf := .wrap (encodeAscii snapshot.toPlainText), snapshot := snapshot } where
  reply := by rw [ByteBuffer.slice_wrap]; rfl
  isOpen := by
    rw [ByteBuffer.slice_wrap]
    exact ⟨fun _ => encodeAscii_ne_nil snapshot, fun _ => rfl⟩

theorem Conn.Sound.write {c : Conn} (h : c.Sound) (n : Nat) : (c.write n).Sound where
  reply := by
    rw [Conn.write, ByteBuffer.slice_setPosition, List.append_assoc, List.take_append_drop]
    exact h.reply
  isOpen := by
    simp only [Conn.write, decide_eq_true_eq, ne_eq, ← ByteBuffer.length_slice, List.length_eq_zero_iff]

theorem Conn.remaining_write_le (c : Conn) (n : Nat) : (c.write n).buf.remaining ≤ c.buf.remaining := by
  simp only [Conn.write, ByteBuffer.remaining, ByteBuffer.setPosition]
  omega

/-- A write that can take what is left closes the channel. -/
theorem Conn.write_all {c : Conn} {n : Nat} (h : c.buf.remaining ≤ n) : (c.write n).isOpen = false := by
  have hnone : (c.write n).buf.remaining = 0 := by
    simp only [ByteBuffer.remaining] at h
    simp only [Conn.write, ByteBuffer.remaining, ByteBuffer.setPosition]
    omega
  have hopen : (c.write n).isOpen = decide ((c.write n).buf.remaining ≠ 0) := rfl
  rw [hopen, hnone]
  rfl

/-- The moment in which an event accepts a client: the time, and what the snapshot sees. -/
def Event.accepted? : Event → Option (Int64 × (Nat → TelemetryPipeline))
  | .acceptable (.ok true) now seen => some (now, seen)
  | _ => none

/-- The accepts of a run, in order. -/
def accepts (events : List Event) : List (Int64 × (Nat → TelemetryPipeline)) := events.filterMap Event.accepted?

/-- The exception of a channel, or of the selector. -/
def Event.failure : Event → Option String
  | .select (.error msg) | .acceptable (.error msg) _ _ | .writable _ (.error msg) => some msg
  | _ => none

/-- What the events can end `run` with. -/
def Ending.Caused (events : List Event) : Ending → Prop
  | .returned => Event.stop ∈ events
  | .threw msg => ∃ e ∈ events, e.failure = some msg

/-- The client is sound, and its snapshot is that of the moment. -/
def Conn.Of (moment : Int64 × (Nat → TelemetryPipeline)) (c : Conn) : Prop :=
  c.Sound ∧ ∃ m : MetricsSampler, c.snapshot = (m.snapshot moment.1 moment.2).1

theorem Conn.Of.write {moment : Int64 × (Nat → TelemetryPipeline)} {c : Conn} (h : c.Of moment) (n : Nat) :
    (c.write n).Of moment := ⟨h.1.write n, h.2⟩

/-- Behind the events, the `n`-th client is that of the `n`-th accept; while the server runs, no accept is without its
client. -/
structure Served (events : List Event) (s : StatsServer) : Prop where
  serves : ∀ (n : Nat) (c : Conn), s.conns[n]? = some c → ∃ moment, (accepts events)[n]? = some moment ∧ c.Of moment
  length_le : s.conns.length ≤ (accepts events).length
  length_eq : s.ended = none → s.conns.length = (accepts events).length
  stopped : s.running = false → Event.stop ∈ events
  ended : ∀ ending, s.ended = some ending → ending.Caused events

section Steps

variable {events : List Event} {s : StatsServer}

theorem accepts_snoc (events : List Event) (e : Event) :
    accepts (events ++ [e]) = accepts events ++ e.accepted?.toList := by
  cases h : e.accepted? <;> simp [accepts, List.filterMap_append, h]

theorem Ending.Caused.more {ending : Ending} (h : ending.Caused events) (e : Event) :
    ending.Caused (events ++ [e]) := by
  cases ending with
  | returned => exact List.mem_append_left _ h
  | threw msg =>
    obtain ⟨d, hd, hfailure⟩ := h
    exact ⟨d, List.mem_append_left _ hd, hfailure⟩

/-- An event without an effect: it is no accept, or the server has ended. -/
theorem Served.more (h : Served events s) {e : Event} (hnone : s.ended = none → e.accepted? = none) :
    Served (events ++ [e]) s where
  serves := by
    intro n c hc
    obtain ⟨moment, hmoment, hof⟩ := h.serves n c hc
    have hn := (List.getElem?_eq_some_iff.mp hmoment).1
    exact ⟨moment, by rw [accepts_snoc, List.getElem?_append_left hn, hmoment], hof⟩
  length_le := by
    rw [accepts_snoc, List.length_append]
    exact Nat.le_add_right_of_le h.length_le
  length_eq := by
    intro hruns
    rw [accepts_snoc, hnone hruns, Option.toList_none, List.append_nil, h.length_eq hruns]
  stopped := fun hstop => List.mem_append_left _ (h.stopped hstop)
  ended := fun ending hending => (h.ended ending hending).more e

/-- An event that ends the server. -/
theorem Served.ends (h : Served events s) {e : Event} (hnone : e.accepted? = none) {ending : Ending}
    (hcaused : ending.Caused (events ++ [e])) : Served (events ++ [e]) { s with ended := some ending } where
  serves := (h.more fun _ => hnone).serves
  length_le := (h.more fun _ => hnone).length_le
  length_eq := by simp
  stopped := (h.more fun _ => hnone).stopped
  ended := by
    intro ending' hending
    cases hending
    exact hcaused

theorem caused_failure {e : Event} {msg : String} (h : e.failure = some msg) :
    (Ending.threw msg).Caused (events ++ [e]) := ⟨e, List.mem_append_right _ List.mem_cons_self, h⟩

/-- A client that is accepted. -/
theorem Served.accept (h : Served events s) (hruns : s.ended = none) (now : Int64) (seen : Nat → TelemetryPipeline) :
    Served (events ++ [.acceptable (.ok true) now seen]) (s.handle (.acceptable (.ok true) now seen)) := by
  have haccepts : accepts (events ++ [.acceptable (.ok true) now seen]) = accepts events ++ [(now, seen)] :=
    accepts_snoc _ _
  have hlength := h.length_eq hruns
  have hrunning : s.ended.isSome = false := by rw [hruns]; rfl
  simp only [StatsServer.handle, hrunning, Bool.false_eq_true, if_false]
  refine ⟨?_, ?_, ?_, fun hstop => List.mem_append_left _ (h.stopped hstop),
    fun ending hending => (h.ended ending hending).more _⟩
  · intro n c hc
    rw [haccepts]
    rcases Nat.lt_or_ge n s.conns.length with hn | hn
    · rw [List.getElem?_append_left hn] at hc
      obtain ⟨moment, hmoment, hof⟩ := h.serves n c hc
      exact ⟨moment, by rw [List.getElem?_append_left (hlength ▸ hn), hmoment], hof⟩
    · rw [List.getElem?_append_right hn] at hc
      obtain ⟨hlt, rfl⟩ := List.getElem?_eq_some_iff.mp hc
      have hlast : n = s.conns.length := by
        rw [List.length_singleton] at hlt
        omega
      refine ⟨(now, seen), ?_, ?_⟩
      · rw [hlast, hlength]
        simp
      · simp only [List.getElem_singleton]
        exact ⟨.new _, s.sampler, rfl⟩
  · rw [haccepts, List.length_append, List.length_append, hlength, List.length_singleton, List.length_singleton]
  · intro _
    rw [haccepts, List.length_append, List.length_append, hlength, List.length_singleton, List.length_singleton]

/-- A write to a client. -/
theorem Served.write (h : Served events s) {i : Nat} {c : Conn} (hc : s.conns[i]? = some c) (n : Nat) :
    Served (events ++ [.writable i (.ok n)]) { s with conns := s.conns.set i (c.write n) } where
  serves := by
    intro j d hd
    obtain ⟨moment, hmoment, hof⟩ := (h.more (e := .writable i (.ok n)) fun _ => rfl).serves i c hc
    rw [List.getElem?_set] at hd
    split at hd
    · rename_i hij
      subst hij
      split at hd
      · cases hd
        exact ⟨moment, hmoment, hof.write n⟩
      · cases hd
    · exact (h.more fun _ => rfl).serves j d hd
  length_le := by
    rw [List.length_set]
    exact (h.more fun _ => rfl).length_le
  length_eq := by
    rw [List.length_set]
    exact (h.more fun _ => rfl).length_eq
  stopped := (h.more fun _ => rfl).stopped
  ended := (h.more fun _ => rfl).ended

/-- **One event.** -/
theorem Served.handle (h : Served events s) (e : Event) : Served (events ++ [e]) (s.handle e) := by
  cases hended : s.ended with
  | some ending =>
    have hnot : s.ended = none → e.accepted? = none := fun hruns => by rw [hended] at hruns; cases hruns
    have hmore := h.more hnot
    cases e with
    | sampled now seen => exact ⟨hmore.serves, hmore.length_le, hmore.length_eq, hmore.stopped, hmore.ended⟩
    | stop =>
      exact ⟨hmore.serves, hmore.length_le, hmore.length_eq, fun _ => List.mem_append_right _ List.mem_cons_self,
        hmore.ended⟩
    | select | acceptable | writable => simpa only [StatsServer.handle, hended, Option.isSome_some, if_true] using hmore
  | none =>
    cases e with
    | sampled now seen =>
      have hmore := h.more (e := .sampled now seen) fun _ => rfl
      exact ⟨hmore.serves, hmore.length_le, hmore.length_eq, hmore.stopped, hmore.ended⟩
    | stop =>
      have hmore := h.more (e := .stop) fun _ => rfl
      exact ⟨hmore.serves, hmore.length_le, hmore.length_eq, fun _ => List.mem_append_right _ List.mem_cons_self,
        hmore.ended⟩
    | select ready =>
      simp only [StatsServer.handle, hended, Option.isSome_none, Bool.false_eq_true, if_false]
      split
      · rename_i hstop
        exact h.ends rfl (List.mem_append_left _ (h.stopped (by simpa using hstop)))
      · match ready with
        | .error msg => exact h.ends rfl (caused_failure rfl)
        | .ok () => exact h.more fun _ => rfl
    | acceptable client now seen =>
      match client with
      | .error msg =>
        simp only [StatsServer.handle, hended, Option.isSome_none, Bool.false_eq_true, if_false]
        exact h.ends rfl (caused_failure rfl)
      | .ok false =>
        simp only [StatsServer.handle, hended, Option.isSome_none, Bool.false_eq_true, if_false]
        exact h.more fun _ => rfl
      | .ok true => exact h.accept hended now seen
    | writable i taken =>
      simp only [StatsServer.handle, hended, Option.isSome_none, Bool.false_eq_true, if_false]
      cases hc : s.conns[i]? with
      | none => exact h.more fun _ => rfl
      | some c =>
        dsimp only
        split
        · exact h.more fun _ => rfl
        · match taken with
          | .error msg => exact h.ends rfl (caused_failure rfl)
          | .ok n => simpa only [hended] using h.write hc n

end Steps

/-- **Every run.** -/
theorem served_run (sampler : MetricsSampler) (events : List Event) :
    Served events (run StatsServer.handle { sampler } events) := by
  induction events using List.reverseRecOn with
  | nil =>
    exact ⟨by simp, Nat.le_refl 0, fun _ => rfl, by simp, by simp⟩
  | append_singleton events e ih =>
    rw [Runs.run_snoc]
    exact ih.handle e

end StatsServer

/-! ## What a client reads -/

theorem decodeAscii_encodeAscii {text : List Char} (h : ∀ c ∈ text, c.toNat < 128) :
    decodeAscii (encodeAscii text) = text := by
  rw [encodeAscii, decodeAscii, List.map_map]
  conv_rhs => rw [← List.map_id text]
  apply List.map_congr_left
  intro c hc
  have hlt := h c hc
  have hbyte : (UInt8.ofNat c.toNat).toNat = c.toNat := UInt8.toNat_ofNat_of_lt' (Nat.lt_trans hlt (by decide))
  have hascii : UInt8.ofNat c.toNat < 128 := by
    rw [UInt8.lt_iff_toNat_lt, hbyte]
    exact hlt
  simp [hlt, hascii, hbyte, Char.ofNat_toNat]

/-- A buffer of that size takes the whole text. -/
theorem remaining_reply_le (s : OperatorSnapshot) : (ByteBuffer.wrap (encodeAscii s.toPlainText)).remaining ≤ 1024 := by
  simp only [ByteBuffer.remaining, ByteBuffer.wrap, encodeAscii, List.length_map, Nat.sub_zero]
  exact s.length_toPlainText_le

theorem ascii_plainText (s : OperatorSnapshot) : ∀ c ∈ s.toPlainText, c.toNat < 128 := by
  intro c hc
  rw [toPlainText_lines] at hc
  obtain ⟨l, hl, hc⟩ := List.mem_flatMap.mp hc
  rcases List.mem_append.mp hc with hc | hc
  · rcases List.mem_cons.mp hl with rfl | hl
    · have hall : ("zcmesh_stats 1".toList.all fun c => c.toNat < 128) = true := by decide
      exact of_decide_eq_true (List.all_eq_true.mp hall c hc)
    · obtain ⟨f, hf, rfl⟩ := List.mem_map.mp hl
      exact (visible_line hf hc).2
  · rw [List.mem_singleton.mp hc]
    decide

/-- Reading to the end gives what was sent. -/
theorem scrape_chunks {chunks : List (List UInt8)} (hne : [] ∉ chunks) (buf : List UInt8) :
    StatsClient.scrape buf (chunks.map (fun bs => .ok (some bs)) ++ [.ok none]) =
      some (.ok (decodeAscii (buf ++ chunks.flatten))) := by
  induction chunks generalizing buf with
  | nil => simp [StatsClient.scrape]
  | cons bs chunks ih =>
    rw [List.mem_cons, not_or] at hne
    have hbs : bs.isEmpty = false := by simpa using Ne.symm hne.1
    rw [List.map_cons, List.cons_append, StatsClient.scrape, hbs, List.flatten_cons, ← List.append_assoc]
    exact ih hne.2 (buf ++ bs)

/-- Without the end there is no answer. -/
theorem scrape_waits {chunks : List (List UInt8)} (hne : [] ∉ chunks) (buf : List UInt8) :
    StatsClient.scrape buf (chunks.map fun bs => .ok (some bs)) = none := by
  induction chunks generalizing buf with
  | nil => rfl
  | cons bs chunks ih =>
    rw [List.mem_cons, not_or] at hne
    have hbs : bs.isEmpty = false := by simpa using Ne.symm hne.1
    rw [List.map_cons, StatsClient.scrape, hbs]
    exact ih hne.2 (buf ++ bs)

/-- The counters that a snapshot shows; each is read from the pipeline of its own moment. -/
def counters (seen : Nat → TelemetryPipeline) : List (String × Int64) :=
  [("frames_ok", (seen 0).framesOk),
   ("bytes", (seen 1).bytesIn),
   ("crc_fail", (seen 2).framesCrcFail),
   ("gaps", (seen 3).seqGaps),
   ("dups", (seen 4).seqDups),
   ("nodes", (seen 5).uniqueNodes),
   ("queued", Int64.ofNat (seen 6).queued),
   ("last_seq", (seen 7).lastSeq),
   ("ia_ewma_ns", (seen 8).interArrivalEwmaNs),
   ("ring_drops", Int64.ofNat (seen 9).ringDrops),
   ("sensor_voltage", (seen 10).sensorVoltage),
   ("sensor_current", (seen 11).sensorCurrent),
   ("sensor_temp", (seen 12).sensorTemp),
   ("sensor_other", (seen 13).sensorOther),
   ("tcp_resync_bytes", (seen 14).tcpResync),
   ("last_hop", (seen 15).framesLastHop),
   ("hop_idx_0", (seen 16).hopIdx0),
   ("hop_idx_1", (seen 17).hopIdx1),
   ("hop_idx_2p", (seen 18).hopIdx2Plus)]

theorem counters_subset (m : MetricsSampler) (now : Int64) (seen : Nat → TelemetryPipeline) :
    counters seen ⊆ (m.snapshot now seen).1.fields := by
  intro f hf
  simp only [counters, List.mem_cons, List.not_mem_nil, or_false] at hf
  simp only [OperatorSnapshot.fields, MetricsSampler.snapshot, List.mem_cons, List.not_mem_nil, or_false]
  tauto

open StatsClient (scrape parse longField)
open StatsServer (accepts)

end ZcMesh.Operator
