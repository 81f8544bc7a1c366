import ZcMesh.Edge.Control
import ZcMesh.Edge.Flush
import ZcMesh.Lib.Run

/-!
# The edge

The main loop of `core-engine/src/main.cpp`. What arrives from outside (control datagrams, the hop skip file, the end
of the duration, the samples) is the input of an iteration, `Tick`; `Edge` carries the loop's variables and histories of
what it did.

* One iteration keeps what a poll, a flush, a push and the counting keep (`step_inv`).
* The batch and the router are well formed at the head of the loop, in every run (`sound_run`).
-/

namespace ZcMesh.Core

/-- Where the samples come from: `--stdin`, `--file`, or the built-in waveform. -/
inductive Source
  | stdin
  | file
  | waveform
  deriving DecidableEq, Repr

/-- The options. -/
structure Config where
  op : Endpoint
  nodeId : UInt16
  batchSize : Nat
  transport : Transport
  dropPct : Int
  hopOverride : List Endpoint
  hopSkipFile : Bool
  source : Source

/-- The outside in one iteration: what has arrived on the control socket, the number in the hop skip file, whether the
duration is over, and the next value of the source; the values of the waveform are not computed here. -/
structure Tick where
  arrived : List (Option (List UInt8)) := []
  skipFile : Option Int := none
  expired : Bool := false
  raw : Option Int32 := none

/-- The variables of the loop. The histories: the frames pushed, the number of pushes that failed, the frames that
`sent_ok` counts, and each call of `flush_batch` with the state before and after it. -/
structure Edge where
  link : Link
  ctrl : List (Option (List UInt8)) := []
  seq : UInt32 := 0
  sentOk : UInt64 := 0
  sentFail : UInt64 := 0
  dropped : UInt64 := 0
  done : Bool := false
  pushed : List WireFrame := []
  refused : Nat := 0
  credited : List WireFrame := []
  flushes : List (Link × Link) := []

/-- `should_drop`. -/
def shouldDrop (seq : UInt32) (dropPct : Int) : Bool :=
  if dropPct ≤ 0 then false
  else if dropPct ≥ 100 then true
  else
    let h := seq * 2654435761
    decide ((((h >>> 24) % 100).toNat : Int) < dropPct)

/-- `ZCMESH_SENSOR_VOLTAGE`. -/
def sensorVoltage : UInt8 := 0
/-- `ZCMESH_SENSOR_CURRENT`. -/
def sensorCurrent : UInt8 := 1
/-- `ZCMESH_SENSOR_TEMP`. -/
def sensorTemp : UInt8 := 2

/-- The sensor of a sample of the waveform. -/
def lane (seq : UInt32) : UInt8 :=
  if seq % 3 = 0 then sensorVoltage else if seq % 3 = 1 then sensorCurrent else sensorTemp

namespace Config

variable (cfg : Config)

/-- The mesh path. -/
def hops : List Endpoint :=
  if cfg.hopOverride.isEmpty then [⟨"127.0.0.1", 9901⟩, ⟨"127.0.0.1", 9902⟩, cfg.op] else cfg.hopOverride

/-- The sensor and the raw value of the next sample; `none` at the end of the input. -/
def sample (seq : UInt32) (raw : Option Int32) : Option (UInt8 × Int32) :=
  match cfg.source with
  | .waveform => some (lane seq, raw.getD 0)
  | _ => raw.map (sensorVoltage, ·)

/-- The flags of a sample: a direct uplink is the last hop. -/
def flags : UInt8 := if cfg.transport = .tcp ∨ cfg.transport = .udp then flagLastHop else 0

/-- What `main` sets up in front of the first connect, with what the network and the clock are going to do. -/
def link (connects : List Bool) (sends : List SendOutcome) (outcomes : List Bool) (clock : Nat → UInt64) : Link where
  batch := .make (if cfg.batchSize == 0 then 1 else cfg.batchSize)
  tcp := { connects, sends }
  udp := { outcomes }
  router := ((MeshRouter.make 8).addRoute cfg.nodeId (some cfg.hops) (UInt8.ofNat cfg.hops.length)).2
  gate := {}
  stats := {}
  clock
  forwards := []

/-- A small edge that reads a file and drops nothing. -/
def small (transport : Transport) (batchSize : Nat) : Config where
  op := ⟨"10.0.0.1", 9900⟩
  nodeId := 1
  batchSize := batchSize
  transport := transport
  dropPct := 0
  hopOverride := []
  hopSkipFile := false
  source := .file

end Config

namespace Edge

/-! ## The code -/

variable (cfg : Config) (e : Edge)

/-- The loop, at its start. -/
def start (connects : List Bool) (sends : List SendOutcome) (outcomes : List Bool) (clock : Nat → UInt64) : Edge :=
  let link := cfg.link connects sends outcomes clock
  { link := if cfg.transport = .tcp ∨ cfg.transport = .auto then link.tryConnect.2 else link }

def setRouter (router : MeshRouter) : Edge := { e with link := { e.link with router } }

/-- The mask in the hop skip file. -/
def fileMask : Option Int → UInt8
  | some v => if 0 < v then UInt8.ofNat (v % 256).toNat else 0
  | none => 0

/-- The polls at the head of the loop. -/
def poll (t : Tick) : Edge :=
  let (ctrl, router) := pollControl (e.ctrl ++ t.arrived) e.link.router
  let router := if cfg.hopSkipFile then (router.setHopSkipMask cfg.nodeId (fileMask t.skipFile)).2 else router
  { e.setRouter router with ctrl }

/-- `flush_batch`, with the history. -/
def flush : Bool × Edge :=
  let (ok, link) := e.link.flushBatch cfg.transport cfg.op cfg.nodeId
  (ok, { e with link, flushes := e.flushes ++ [(e.link, link)] })

/-- `sent_ok += n`, for these `n` frames. -/
def credit (frames : List WireFrame) : Edge :=
  { e with sentOk := e.sentOk + UInt64.ofNat frames.length, credited := e.credited ++ frames }

/-- `sent_fail += n`. -/
def fail (n : Nat) : Edge := { e with sentFail := e.sentFail + UInt64.ofNat n }

/-- The drain path, and whether the iteration goes on behind it. -/
def drain : Bool × Edge :=
  if e.link.batch.shouldFlush || e.link.batch.hasPartialSend || e.link.batch.full then
    let frames := e.link.batch.frames
    let (ok, e) := e.flush cfg
    if ok then (true, e.credit frames)
    else if e.link.batch.empty then (true, e.credit frames)
    else (false, e.fail 1)
  else (true, e)

/-- The sample counts as dropped. -/
def drop : Edge := { e with seq := e.seq + 1, dropped := e.dropped + 1 }

/-- `batch.push` of the next sample. -/
def push (sensor : UInt8) (raw : Int32) : Bool × Edge :=
  let (now, link) := e.link.monotonicNs
  let sample : SensorSample :=
    { seq := e.seq
      timestampNs := now
      nodeId := cfg.nodeId
      sensorType := sensor
      flags := cfg.flags
      reserved := 0
      rawValue := raw }
  let (ok, batch) := link.batch.push sample
  let e := { e with seq := e.seq + 1, link := { link with batch } }
  (ok, if ok then { e with pushed := e.pushed ++ [packFrameInto sample] } else { e with refused := e.refused + 1 })

/-- The flush behind a push. -/
def flushFull : Edge :=
  if e.link.batch.shouldFlush || e.link.batch.full then
    let frames := e.link.batch.frames
    let (ok, e) := e.flush cfg
    if ok then e.credit frames
    else if !e.link.batch.empty then e
    else e.fail frames.length
  else e

/-- What follows the loop. -/
def finish : Edge :=
  let e := if !e.link.batch.empty then (e.flush cfg).2 else e
  { e with done := true }

/-- The part of an iteration from the sample on. -/
def take (raw : Option Int32) : Edge :=
  match cfg.sample e.seq raw with
  | none => e.finish cfg
  | some (sensor, raw) =>
    if shouldDrop e.seq cfg.dropPct then e.drop
    else
      let (ok, e) := e.push cfg sensor raw
      if ok then e.flushFull cfg else e

/-- One iteration of the loop; nothing happens after its end. -/
def step (t : Tick) : Edge :=
  if e.done then e
  else
    let e := e.poll cfg t
    if t.expired then e.finish cfg
    else
      let (goOn, e) := e.drain cfg
      if goOn then e.take cfg t.raw else e

/-! ## What the parts of an iteration do -/

section Cases

variable {cfg : Config} {e : Edge}

/-- With the cursor at the start and the batch below its target, the drain path is not taken. -/
theorem drain_idle (cfg : Config) (h0 : e.link.batch.sendOffset = 0)
    (hbelow : e.link.batch.count < e.link.batch.flushAt) (hroom : e.link.batch.count < e.link.batch.capacity) :
    e.drain cfg = (true, e) := by
  rw [drain, if_neg]
  simp only [FrameBatch.shouldFlush, FrameBatch.hasPartialSend, FrameBatch.full, Bool.or_eq_true, decide_eq_true_eq]
  omega

/-- The drain path is not taken; it empties the batch, all of which counts as sent; or it keeps some of it. -/
theorem drain_cases (cfg : Config) (hb : e.link.batch.Wf) :
    (e.link.batch.sendOffset = 0 ∧ e.link.batch.count < e.link.batch.flushAt ∧
      e.link.batch.count < e.link.batch.capacity ∧ e.drain cfg = (true, e)) ∨
    (e.link.batch.frames ≠ [] ∧ (e.flush cfg).2.link.batch.frames = [] ∧
      e.drain cfg = (true, (e.flush cfg).2.credit e.link.batch.frames)) ∨
    (e.link.batch.frames ≠ [] ∧ (e.flush cfg).1 = false ∧ (e.flush cfg).2.link.batch.frames ≠ [] ∧
      e.drain cfg = (false, (e.flush cfg).2.fail 1)) := by
  by_cases hdue : (e.link.batch.shouldFlush || e.link.batch.hasPartialSend || e.link.batch.full) = true
  · have hne := hb.due hdue
    rw [drain, if_pos hdue]
    cases hok : (e.flush cfg).1 with
    | true =>
      have hcleared := Link.flushBatch_cleared cfg.transport cfg.op cfg.nodeId hb hne (Or.inl hok)
      exact Or.inr (Or.inl ⟨hne, hcleared, by simp only [hok, if_true]⟩)
    | false =>
      by_cases hempty : (e.flush cfg).2.link.batch.empty = true
      · refine Or.inr (Or.inl ⟨hne, FrameBatch.empty_iff.mp hempty, ?_⟩)
        simp only [hok, Bool.false_eq_true, if_false, hempty, if_true]
      · refine Or.inr (Or.inr ⟨hne, rfl, fun h => hempty (FrameBatch.empty_iff.mpr h), ?_⟩)
        simp only [hok, Bool.false_eq_true, if_false, hempty]
  · rw [drain, if_neg hdue]
    simp only [FrameBatch.shouldFlush, FrameBatch.hasPartialSend, FrameBatch.full, Bool.or_eq_true, decide_eq_true_eq,
      not_or] at hdue
    exact Or.inl ⟨by omega, by omega, by omega, rfl⟩

/-- The flush behind a push. -/
theorem flushFull_cases (cfg : Config) (hb : e.link.batch.Wf) :
    (e.link.batch.count < e.link.batch.flushAt ∧ e.link.batch.count < e.link.batch.capacity ∧ e.flushFull cfg = e) ∨
    (e.link.batch.frames ≠ [] ∧ (e.flush cfg).1 = true ∧
      e.flushFull cfg = (e.flush cfg).2.credit e.link.batch.frames) ∨
    (e.link.batch.frames ≠ [] ∧ (e.flush cfg).1 = false ∧ (e.flush cfg).2.link.batch.frames ≠ [] ∧
      e.flushFull cfg = (e.flush cfg).2) ∨
    (e.link.batch.frames ≠ [] ∧ (e.flush cfg).1 = false ∧ (e.flush cfg).2.link.batch.frames = [] ∧
      e.flushFull cfg = (e.flush cfg).2.fail e.link.batch.frames.length) := by
  by_cases hdue : (e.link.batch.shouldFlush || e.link.batch.full) = true
  · have hne := hb.due (by rw [Bool.or_right_comm, hdue, Bool.true_or])
    rw [flushFull, if_pos hdue]
    cases hok : (e.flush cfg).1 with
    | true => exact Or.inr (Or.inl ⟨hne, rfl, by simp only [hok, if_true]⟩)
    | false =>
      by_cases hempty : (e.flush cfg).2.link.batch.empty = true
      · refine Or.inr (Or.inr (Or.inr ⟨hne, rfl, FrameBatch.empty_iff.mp hempty, ?_⟩))
        simp only [hok, Bool.false_eq_true, if_false, hempty, Bool.not_true]
      · refine Or.inr (Or.inr (Or.inl ⟨hne, rfl, fun h => hempty (FrameBatch.empty_iff.mpr h), ?_⟩))
        simp only [hok, Bool.false_eq_true, if_false, hempty, Bool.not_false, if_true]
  · rw [flushFull, if_neg hdue]
    simp only [FrameBatch.shouldFlush, FrameBatch.full, Bool.or_eq_true, decide_eq_true_eq, not_or] at hdue
    exact Or.inl ⟨by omega, by omega, rfl⟩

/-- The frame that the next sample becomes. -/
def nextFrame (cfg : Config) (e : Edge) (sensor : UInt8) (raw : Int32) : WireFrame :=
  packFrameInto
    { seq := e.seq
      timestampNs := e.link.clock 0
      nodeId := cfg.nodeId
      sensorType := sensor
      flags := cfg.flags
      reserved := 0
      rawValue := raw }

/-- A push into a batch with room. -/
theorem push_of_room (cfg : Config) (sensor : UInt8) (raw : Int32)
    (h : e.link.batch.count < e.link.batch.capacity) :
    e.push cfg sensor raw = (true, { e with
      seq := e.seq + 1
      link := { e.link.monotonicNs.2 with
        batch := { e.link.batch with frames := e.link.batch.frames ++ [e.nextFrame cfg sensor raw] } }
      pushed := e.pushed ++ [e.nextFrame cfg sensor raw] }) := by
  have hroom : e.link.monotonicNs.2.batch.count < e.link.monotonicNs.2.batch.capacity := h
  simp only [push, FrameBatch.push_of_room hroom]
  rfl

/-- What an iteration comes to: nothing, once the loop is over; the end of the loop, at its head or behind the drain
path; the drain path alone; or a sample that is dropped or pushed. -/
theorem step_cases (cfg : Config) (e : Edge) (t : Tick) :
    let d := (e.poll cfg t).drain cfg
    (e.done = true ∧ e.step cfg t = e) ∨ e.step cfg t = (e.poll cfg t).finish cfg ∨
    (d.1 = false ∧ e.step cfg t = d.2) ∨
    (d.1 = true ∧ (e.step cfg t = d.2.finish cfg ∨ e.step cfg t = d.2.drop ∨ ∃ sensor raw, e.step cfg t =
      if (d.2.push cfg sensor raw).1 then (d.2.push cfg sensor raw).2.flushFull cfg
      else (d.2.push cfg sensor raw).2)) := by
  simp only [step]
  split
  · rename_i hdone
    exact Or.inl ⟨hdone, rfl⟩
  · split
    · exact Or.inr (Or.inl rfl)
    · cases hgo : ((e.poll cfg t).drain cfg).1 with
      | false => exact Or.inr (Or.inr (Or.inl ⟨rfl, by simp only [Bool.false_eq_true, if_false]⟩))
      | true =>
        refine Or.inr (Or.inr (Or.inr ⟨rfl, ?_⟩))
        simp only [if_true, take]
        split
        · exact Or.inl rfl
        · rename_i sensor raw _
          split
          · exact Or.inr (Or.inl rfl)
          · exact Or.inr (Or.inr ⟨sensor, raw, rfl⟩)

end Cases

/-! ## Invariants of the loop -/

section Invariants

variable {cfg : Config} {e : Edge} {t : Tick}

/-- **The rule for one iteration.** A property of the link and the histories is kept when the polls, the pushes and the
flushes keep it; a flush happens at the head of the loop, or with the cursor at the start of the batch. -/
theorem step_inv {P : Edge → Prop} (hwf : ∀ e', P e' → e'.link.batch.Wf) (hpoll : P e → P (e.poll cfg t))
    (hflush : ∀ e', P e' → e'.link.batch.frames ≠ [] → (e' = e.poll cfg t ∨ e'.link.batch.sendOffset = 0) →
      P (e'.flush cfg).2)
    (hpush : ∀ e' sensor raw, P e' → e'.link.batch.count < e'.link.batch.capacity → P (e'.push cfg sensor raw).2)
    (hcount : ∀ e' seq sentOk sentFail dropped done credited, P e' →
      P { e' with seq, sentOk, sentFail, dropped, done, credited }) (h : P e) : P (e.step cfg t) := by
  have hfinish : ∀ e', P e' → (e' = e.poll cfg t ∨ e'.link.batch.sendOffset = 0) → P (e'.finish cfg) := by
    intro e' he' hcond
    unfold finish
    split
    · rename_i hne
      exact hcount _ _ _ _ _ _ _ (hflush e' he' (FrameBatch.ne_nil_of_not_empty hne) hcond)
    · exact hcount _ _ _ _ _ _ _ he'
  have hfull : ∀ e', P e' → e'.link.batch.sendOffset = 0 → P (e'.flushFull cfg) := by
    intro e' he' h0
    rcases flushFull_cases cfg (hwf e' he') with ⟨_, _, heq⟩ | ⟨hne, _, heq⟩ | ⟨hne, _, _, heq⟩ | ⟨hne, _, _, heq⟩
    · rw [heq]
      exact he'
    all_goals
      rw [heq]
      have := hflush e' he' hne (Or.inr h0)
      first | exact this | exact hcount _ _ _ _ _ _ _ this
  have htake : ∀ e', P e' → e'.link.batch.sendOffset = 0 → e'.link.batch.count < e'.link.batch.capacity →
      P (e'.take cfg t.raw) := by
    intro e' he' h0 hroom
    unfold take
    split
    · exact hfinish e' he' (Or.inr h0)
    · rename_i sensor raw _
      split
      · exact hcount _ _ _ _ _ _ _ he'
      · have hp := hpush e' sensor raw he' hroom
        rw [push_of_room cfg sensor raw hroom] at hp ⊢
        exact hfull _ hp h0
  unfold step
  split
  · exact h
  · have hp := hpoll h
    split
    · exact hfinish _ hp (Or.inl rfl)
    · rcases drain_cases cfg (hwf _ hp) with ⟨h0, _, hroom, heq⟩ | ⟨hne, hempty, heq⟩ | ⟨hne, _, _, heq⟩
      · simp only [heq, if_true]
        exact htake _ hp h0 hroom
      · have hf := hflush _ hp hne (Or.inl rfl)
        have hb := hwf _ hf
        simp only [heq, if_true]
        exact htake _ (hcount _ _ _ _ _ _ _ hf) (hb.offset_of_empty hempty) (hb.room_of_empty hempty)
      · simp only [heq, Bool.false_eq_true, if_false]
        exact hcount _ _ _ _ _ _ _ (hflush _ hp hne (Or.inl rfl))

/-- The batch and the router are well formed. -/
structure Sound (e : Edge) : Prop where
  batch : e.link.batch.Wf
  router : e.link.router.Wf

theorem Sound.poll (h : e.Sound) (cfg : Config) (t : Tick) : (e.poll cfg t).Sound where
  batch := h.batch
  router := by
    have hctrl := wf_pollControl (e.ctrl ++ t.arrived) h.router
    simp only [Edge.poll, setRouter]
    split
    · exact hctrl.setHopSkipMask _ _
    · exact hctrl

theorem Sound.flush (h : e.Sound) (cfg : Config) (hne : e.link.batch.frames ≠ []) : (e.flush cfg).2.Sound where
  batch := Link.batch_wf_flushBatch cfg.transport cfg.op cfg.nodeId h.batch hne
  router := Link.router_wf_flushBatch cfg.transport cfg.op cfg.nodeId h.batch h.router hne

theorem Sound.push (h : e.Sound) (cfg : Config) (sensor : UInt8) (raw : Int32) : (e.push cfg sensor raw).2.Sound where
  batch := by
    simp only [Edge.push]
    split <;> exact FrameBatch.Wf.push (b := e.link.batch) h.batch _
  router := by
    simp only [Edge.push]
    split <;> exact h.router

/-- A sample that is pushed waits in the batch, and the history has it. -/
theorem waiting_push (cfg : Config) (sensor : UInt8) (raw : Int32)
    (hroom : e.link.batch.count < e.link.batch.capacity) (h : ∀ f ∈ e.link.batch.frames, f ∈ e.pushed) :
    ∀ f ∈ (e.push cfg sensor raw).2.link.batch.frames, f ∈ (e.push cfg sensor raw).2.pushed := by
  rw [push_of_room cfg sensor raw hroom]
  intro f hf
  rcases List.mem_append.mp hf with hf | hf
  · exact List.mem_append_left _ (h f hf)
  · exact List.mem_append_right _ hf

theorem Sound.step (h : e.Sound) (cfg : Config) (t : Tick) : (e.step cfg t).Sound :=
  step_inv (fun _ h => h.batch) (fun h => h.poll cfg t) (fun _ h hne _ => h.flush cfg hne)
    (fun _ sensor raw h _ => h.push cfg sensor raw) (fun _ _ _ _ _ _ _ h => ⟨h.batch, h.router⟩) h

/-- At the start of the loop there is at most one connection, and nothing has been sent. -/
theorem start_spec (cfg : Config) (connects : List Bool) (sends : List SendOutcome) (outcomes : List Bool)
    (clock : Nat → UInt64) : ∃ tcp gate clock', start cfg connects sends outcomes clock =
      { link := { cfg.link connects sends outcomes clock with tcp, gate, clock := clock' } } ∧
      ∀ s ∈ tcp.streams, s = [] := by
  simp only [start]
  split
  · obtain ⟨tcp, gate, clock', heq, hcase⟩ := (cfg.link connects sends outcomes clock).tryConnect_spec
    refine ⟨tcp, gate, clock', by rw [heq], ?_⟩
    intro s hs
    rcases hcase with ⟨_, hstreams⟩ | ⟨s', hs', ⟨hold, _⟩ | ⟨_, rfl, hlost⟩⟩
    · rw [hstreams] at hs
      cases hs
    · cases hold
    · rw [TcpClient.streams_of_open hs', hlost] at hs
      exact List.mem_singleton.mp hs
  · exact ⟨_, _, _, rfl, nofun⟩

theorem sound_start (cfg : Config) (connects : List Bool) (sends : List SendOutcome) (outcomes : List Bool)
    (clock : Nat → UInt64) : (start cfg connects sends outcomes clock).Sound := by
  obtain ⟨tcp, gate, clock', heq, _⟩ := start_spec cfg connects sends outcomes clock
  rw [heq]
  refine ⟨FrameBatch.wf_make ?_, (MeshRouter.wf_make 8).addRoute _ _ _⟩
  split
  · exact Nat.one_pos
  · rename_i hne
    exact Nat.pos_of_ne_zero (by simpa using hne)

/-- **The batch and the router are well formed** at the head of the loop, in every run. -/
theorem sound_run (cfg : Config) (connects : List Bool) (sends : List SendOutcome) (outcomes : List Bool)
    (clock : Nat → UInt64) (ticks : List Tick) :
    (Runs.run (step cfg) (start cfg connects sends outcomes clock) ticks).Sound :=
  Runs.run_inv (fun _ t h => h.step cfg t) ticks _ (sound_start cfg connects sends outcomes clock)

end Invariants

end Edge

end ZcMesh.Core
