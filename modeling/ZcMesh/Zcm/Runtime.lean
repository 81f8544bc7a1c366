import ZcMesh.Lib.Run
import ZcMesh.Ring.LongRing
import ZcMesh.Stats.Agreement
import ZcMesh.Stats.Pipeline
import ZcMesh.Zcm.Writer

/-!
# Recording in the operator

`operator-node/.../operator/OperatorRuntime.java`: `drainToRecorder` and `close`. Frames wait in the ring between
`TelemetryPipeline.offer` and the drain.

Each frame with a good checksum is recorded, counted in `ringDrops`, or in the ring (`Accounted.step`). `close` does not
drain, so what is in the ring then is in neither number: a recording is complete exactly when the ring is empty at
`close` (`recording_complete_iff`). The ring of the model counts by numbers; below `2 ^ 63` accepted frames the `long`s
of the code give the drains the same frames (`recorded_longs`).
-/

namespace ZcMesh.Operator

open Runs (run)

/-! ## The code -/

/-- The pipeline and the recorder of `OperatorRuntime`, `none` for `null`. The threads that receive and the control
client are not part of it. -/
structure OperatorRuntime where
  pipeline : TelemetryPipeline
  recorder : Option ZcmWriter

namespace OperatorRuntime

/-- `new OperatorRuntime(…, ringPow2, recordPath, …)`; `record` are the outcomes of the writes, `none` without a
`recordPath`. -/
def make (ringPow2 : Int32) (nanoTimes : Nat → Int64) (record : Option (List WriteOutcome)) :
    Except String OperatorRuntime := do
  let pipeline ← TelemetryPipeline.make ringPow2.toNatClampNeg nanoTimes
  match record with
  | none => return { pipeline := pipeline, recorder := none }
  | some writes =>
    let recorder ← ZcmWriter.make writes
    return { pipeline := pipeline, recorder := some recorder }

/-- The loop of `drainToRecorder` with `k` turns to go and `n` frames drained. -/
def drainLoop : Nat → Nat → OperatorRuntime → Except String Nat × OperatorRuntime
  | 0, n, rt => (.ok n, rt)
  | k + 1, n, rt =>
    match rt.pipeline.poll with
    | (none, pipeline) => (.ok n, { rt with pipeline := pipeline })
    | (some f, pipeline) =>
      match rt.recorder with
      | none => drainLoop k (n + 1) { rt with pipeline := pipeline }
      | some recorder =>
        match recorder.write f with
        | (.error e, recorder) => (.error e, { pipeline := pipeline, recorder := some recorder })
        | (.ok (), recorder) => drainLoop k (n + 1) { pipeline := pipeline, recorder := some recorder }

/-- `drainToRecorder`. -/
def drainToRecorder (rt : OperatorRuntime) (max : Int32) : Except String Nat × OperatorRuntime :=
  drainLoop max.toNatClampNeg 0 rt

/-- `close`, as far as the recorder goes. -/
def close (rt : OperatorRuntime) : Except String Unit × OperatorRuntime :=
  match rt.recorder with
  | none => (.ok (), rt)
  | some recorder =>
    let (result, recorder) := recorder.close
    (result, { rt with recorder := some recorder })

end OperatorRuntime

/-- What happens before `close`: the receiver offers a frame, or the caller drains. -/
inductive OperatorAct
  | offer (frame : WireFrame)
  | drain (max : Int32)

/-- One act. -/
def OperatorRuntime.step (rt : OperatorRuntime) : OperatorAct → OperatorRuntime
  | .offer frame => { rt with pipeline := rt.pipeline.offer frame }
  | .drain max => (rt.drainToRecorder max).2

/-! ## Where the frames are -/

/-- Every frame counted in `framesOk` is recorded, counted in `ringDrops`, or waits in the ring. -/
structure Accounted (capacity : Nat) (rt : OperatorRuntime) (recorded waiting : List WireFrame) : Prop where
  recorder : ∃ w, rt.recorder = some w ∧ w.Recorded recorded
  queue : Queue rt.pipeline.ring waiting
  capacity_eq : rt.pipeline.ring.capacity = capacity
  crcOk : ∀ f ∈ waiting, f.crcOk = true
  framesOk : rt.pipeline.framesOk = Int64.ofNat (recorded.length + rt.pipeline.ringDrops + waiting.length)

section Accounts

variable {capacity : Nat} {rt : OperatorRuntime} {recorded waiting : List WireFrame}

/-- What a new runtime with a recorder holds. -/
theorem OperatorRuntime.make_ok {ringPow2 : Int32} {nanoTimes : Nat → Int64}
    (h : OperatorRuntime.make ringPow2 nanoTimes (some []) = .ok rt) :
    ∃ ring w, FrameRing.make ringPow2.toNatClampNeg = .ok ring ∧ ZcmWriter.make [] = .ok w ∧
      rt = { pipeline := { ring, nanoTimes }, recorder := some w } := by
  cases hpipeline : TelemetryPipeline.make ringPow2.toNatClampNeg nanoTimes with
  | error e =>
    simp only [OperatorRuntime.make, hpipeline, bind, Except.bind] at h
    cases h
  | ok pipeline =>
    obtain ⟨ring, hring, rfl⟩ := TelemetryPipeline.make_ok hpipeline
    simp only [OperatorRuntime.make, hpipeline, bind, Except.bind, pure, Except.pure] at h
    cases h
    exact ⟨ring, _, hring, rfl, rfl⟩

theorem accounted_make {ringPow2 : Int32} {nanoTimes : Nat → Int64}
    (h : OperatorRuntime.make ringPow2 nanoTimes (some []) = .ok rt) : Accounted ringPow2.toNatClampNeg rt [] [] := by
  obtain ⟨ring, w, hring, hw, rfl⟩ := OperatorRuntime.make_ok h
  obtain ⟨hq, hdrops, hcapacity⟩ := Queue.make hring
  exact
    { recorder := ⟨w, rfl, ZcmWriter.recorded_make hw⟩
      queue := hq
      capacity_eq := hcapacity
      crcOk := fun _ hmem => absurd hmem List.not_mem_nil
      framesOk := by
        show (0 : Int64) = Int64.ofNat (0 + ring.drops + 0)
        rw [hdrops]
        rfl }

/-- What `offer` does to the ring and to `framesOk`. -/
theorem offer_eq (p : TelemetryPipeline) (frame : WireFrame) :
    (p.offer frame).ring = (if frame.crcOk then p.ring.offer frame else p.ring) ∧
      (p.offer frame).framesOk = if frame.crcOk then p.framesOk + 1 else p.framesOk := by
  cases hcrc : frame.crcOk with
  | false => simp [TelemetryPipeline.offer, hcrc]
  | true =>
    simp only [TelemetryPipeline.offer, hcrc, Bool.not_true, Bool.false_eq_true, if_false, if_true]
    exact ⟨rfl, rfl⟩

/-- **An offered frame waits**, perhaps in the place of the oldest one, which is counted. -/
theorem Accounted.offer (h : Accounted capacity rt recorded waiting) (frame : WireFrame) :
    ∃ waiting', Accounted capacity (rt.step (.offer frame)) recorded waiting' := by
  obtain ⟨hring, hok⟩ := offer_eq rt.pipeline frame
  cases hcrc : frame.crcOk with
  | false =>
    simp only [hcrc, Bool.false_eq_true, if_false] at hring hok
    exact ⟨waiting,
      { recorder := h.recorder
        queue := by
          show Queue (rt.pipeline.offer frame).ring waiting
          rw [hring]
          exact h.queue
        capacity_eq := by
          show (rt.pipeline.offer frame).ring.capacity = capacity
          rw [hring]
          exact h.capacity_eq
        crcOk := h.crcOk
        framesOk := by
          show (rt.pipeline.offer frame).framesOk = Int64.ofNat (_ + (rt.pipeline.offer frame).ring.drops + _)
          rw [hring, hok]
          exact h.framesOk }⟩
  | true =>
    simp only [hcrc, if_true] at hring hok
    obtain ⟨hq, hdrops, hcapacity⟩ := h.queue.offer frame
    refine ⟨enqueue rt.pipeline.ring.capacity waiting frame, ?_⟩
    exact
      { recorder := h.recorder
        queue := by
          show Queue (rt.pipeline.offer frame).ring _
          rw [hring]
          exact hq
        capacity_eq := by
          show (rt.pipeline.offer frame).ring.capacity = capacity
          rw [hring, hcapacity]
          exact h.capacity_eq
        crcOk := by
          intro f hf
          rcases mem_enqueue hf with hf | rfl
          · exact h.crcOk f hf
          · exact hcrc
        framesOk := by
          show (rt.pipeline.offer frame).framesOk = Int64.ofNat (_ + (rt.pipeline.offer frame).ring.drops + _)
          have hpos : 0 < rt.pipeline.ring.capacity := Nat.lt_of_lt_of_le Nat.two_pos rt.pipeline.ring.capacity_pow2.1
          have hlen := length_enqueue hpos waiting frame
          rw [hring, hok, hdrops, h.framesOk, ← ofNat_succ]
          congr 1
          unfold TelemetryPipeline.ringDrops
          omega }

/-- The drain of an empty ring. -/
theorem Accounted.drain_nil (h : Accounted capacity rt recorded []) (k n : Nat) :
    OperatorRuntime.drainLoop (k + 1) n rt = (.ok n, rt) := by
  have hpoll : rt.pipeline.poll = (none, rt.pipeline) := by
    simp only [TelemetryPipeline.poll, h.queue.poll_nil]
  simp only [OperatorRuntime.drainLoop, hpoll]

/-- **A drained frame is recorded.** -/
theorem Accounted.drain_cons {f : WireFrame} (h : Accounted capacity rt recorded (f :: waiting)) (k n : Nat) :
    ∃ rt', OperatorRuntime.drainLoop (k + 1) n rt = OperatorRuntime.drainLoop k (n + 1) rt' ∧
      rt'.pipeline.ring = rt.pipeline.ring.poll.2 ∧ Accounted capacity rt' (recorded ++ [f]) waiting := by
  obtain ⟨w, hw, hrecorded⟩ := h.recorder
  obtain ⟨hf, hq, hdrops, hcapacity⟩ := h.queue.poll_cons
  have hpoll : rt.pipeline.poll = (some f, { rt.pipeline with ring := rt.pipeline.ring.poll.2 }) := by
    simp only [TelemetryPipeline.poll, hf]
  obtain ⟨hresult, hwritten⟩ := hrecorded.write (h.crcOk f List.mem_cons_self)
  have hwrite : w.write f = (.ok (), (w.write f).2) := by rw [← hresult]
  refine ⟨{ pipeline := { rt.pipeline with ring := rt.pipeline.ring.poll.2 }, recorder := some (w.write f).2 },
    ?_, rfl, ?_⟩
  · rw [OperatorRuntime.drainLoop, hpoll]
    simp only [hw]
    rw [hwrite]
  · exact
      { recorder := ⟨_, rfl, hwritten⟩
        queue := hq
        capacity_eq := hcapacity.trans h.capacity_eq
        crcOk := fun g hg => h.crcOk g (List.mem_cons_of_mem f hg)
        framesOk := by
          show rt.pipeline.framesOk = Int64.ofNat (_ + rt.pipeline.ring.poll.2.drops + _)
          rw [h.framesOk, hdrops, TelemetryPipeline.ringDrops, List.length_append, List.length_cons,
            List.length_singleton]
          congr 1
          omega }

/-- So is every frame that a drain takes. -/
theorem Accounted.drainLoop (k : Nat) {rt : OperatorRuntime} {recorded waiting : List WireFrame} (n : Nat)
    (h : Accounted capacity rt recorded waiting) :
    ∃ recorded' waiting', Accounted capacity (OperatorRuntime.drainLoop k n rt).2 recorded' waiting' := by
  induction k generalizing rt recorded waiting n with
  | zero => exact ⟨recorded, waiting, h⟩
  | succ k ih =>
    cases waiting with
    | nil =>
      rw [h.drain_nil]
      exact ⟨recorded, [], h⟩
    | cons f waiting =>
      obtain ⟨rt', heq, -, h'⟩ := h.drain_cons k n
      rw [heq]
      exact ih _ h'

/-- **Every act keeps the account**, and so does every run. -/
theorem Accounted.step (h : Accounted capacity rt recorded waiting) (act : OperatorAct) :
    ∃ recorded' waiting', Accounted capacity (rt.step act) recorded' waiting' := by
  cases act with
  | offer frame => exact ⟨recorded, h.offer frame⟩
  | drain max => exact h.drainLoop max.toNatClampNeg 0

theorem Accounted.run (h : Accounted capacity rt recorded waiting) (acts : List OperatorAct) :
    ∃ recorded' waiting', Accounted capacity (run OperatorRuntime.step rt acts) recorded' waiting' :=
  Runs.run_inv (P := fun rt => ∃ recorded' waiting', Accounted capacity rt recorded' waiting')
    (fun _ act ⟨_, _, h⟩ => h.step act) acts rt ⟨recorded, waiting, h⟩

end Accounts

/-! ## Complete recordings -/

/-- A `long` tells fewer than `2 ^ 31` more from none. -/
theorem ofNat_eq_add_iff (n : Nat) {k : Nat} (hk : k < 2 ^ 31) : Int64.ofNat n = Int64.ofNat (n + k) ↔ k = 0 := by
  have hword : ∀ m, (Int64.ofNat m).toUInt64.toNat = m % 2 ^ 64 := fun m => UInt64.toNat_ofNat'
  rw [← long_inj, ← UInt64.toNat_inj, hword, hword]
  omega

/-- The file of the recorder. -/
def OperatorRuntime.file (rt : OperatorRuntime) : List UInt8 := rt.recorder.elim [] fun w => w.channel.contents

/-- **A recording is complete exactly when the ring is empty at `close`**: then, and only then, the frames in the file
and those counted as dropped are all that were accepted. -/
theorem recording_complete_iff {ringPow2 : Int32} {nanoTimes : Nat → Int64} {rt₀ : OperatorRuntime}
    (hmake : OperatorRuntime.make ringPow2 nanoTimes (some []) = .ok rt₀) (acts : List OperatorAct) :
    let rt := run OperatorRuntime.step rt₀ acts
    let closed := rt.close.2
    ∃ frames : List WireFrame, rt.close.1 = .ok () ∧
      closed.file = ZcmWriter.header (Int64.ofNat frames.length) ++ images frames ∧
      (Int64.ofNat (frames.length + closed.pipeline.ringDrops) = closed.pipeline.framesOk ↔
        rt.pipeline.queued = 0) := by
  intro rt closed
  obtain ⟨recorded, waiting, h⟩ := (accounted_make hmake).run acts
  obtain ⟨w, hw, hrecorded⟩ := h.recorder
  obtain ⟨hresult, _, hcontents, _⟩ := hrecorded.close
  have hclose : rt.close = (w.close.1, { rt with recorder := some w.close.2 }) := by
    simp only [OperatorRuntime.close, show rt.recorder = some w from hw]
  have hqueued : rt.pipeline.queued = waiting.length := h.queue.size_eq
  refine ⟨recorded, ?_, ?_, ?_⟩
  · rw [hclose]
    exact hresult
  · show rt.close.2.file = _
    rw [hclose]
    exact hcontents
  · have hpipeline : closed.pipeline = rt.pipeline := by
      show rt.close.2.pipeline = _
      rw [hclose]
    have hfit : waiting.length < 2 ^ 31 := by
      have := h.queue.le_capacity
      have := h.capacity_eq
      have := ringPow2.toNatClampNeg_lt
      omega
    rw [hpipeline, hqueued, show rt.pipeline.framesOk = _ from h.framesOk]
    exact ofNat_eq_add_iff _ hfit

/-- A frame that is drained before `close`. -/
theorem recording_complete_drained :
    ∃ rt₀, OperatorRuntime.make 2 (fun _ => 0) (some []) = .ok rt₀ ∧
      let rt := run OperatorRuntime.step rt₀ [.offer (view (Core.packFrameInto goldenSample)), .drain 256]
      ∃ frames : List WireFrame, rt.close.1 = .ok () ∧
        Int64.ofNat (frames.length + rt.close.2.pipeline.ringDrops) = rt.close.2.pipeline.framesOk := by
  obtain ⟨rt₀, hmake⟩ : ∃ rt₀, OperatorRuntime.make 2 (fun _ => 0) (some []) = .ok rt₀ := ⟨_, rfl⟩
  refine ⟨rt₀, hmake, ?_⟩
  obtain ⟨frames, hclosed, _, hcomplete⟩ :=
    recording_complete_iff hmake [.offer (view (Core.packFrameInto goldenSample)), .drain 256]
  refine ⟨frames, hclosed, hcomplete.mpr ?_⟩
  cases hmake
  decide +kernel

/-- A frame that is still in the ring at `close`: it is accepted, and neither recorded nor counted as dropped. -/
theorem recording_incomplete :
    ∃ rt₀, OperatorRuntime.make 2 (fun _ => 0) (some []) = .ok rt₀ ∧
      let rt := (run OperatorRuntime.step rt₀ [.offer (view (Core.packFrameInto goldenSample))]).close.2
      rt.file = ZcmWriter.header 0 ∧ rt.pipeline.ringDrops = 0 ∧ rt.pipeline.framesOk = 1 := by
  refine ⟨_, rfl, ?_⟩
  decide +kernel

/-! ## The ring of the code -/

/-- The frames that at most `k` polls take, on `long`s. -/
def LongRing.takes : Nat → LongRing WireFrame → List WireFrame × LongRing WireFrame
  | 0, l => ([], l)
  | k + 1, l =>
    match l.poll with
    | (none, l) => ([], l)
    | (some f, l) => (f :: (takes k l).1, (takes k l).2)

/-- What an act takes from the ring. -/
def LongRing.act (l : LongRing WireFrame) : OperatorAct → List WireFrame × LongRing WireFrame
  | .offer frame => ([], if frame.crcOk then (l.offer frame).2 else l)
  | .drain max => l.takes max.toNatClampNeg

/-- The offer of a frame with a good checksum. -/
def OperatorAct.accepts : OperatorAct → Bool
  | .offer frame => frame.crcOk
  | .drain _ => false

section Longs

variable {capacity m : Nat} {rt : OperatorRuntime} {recorded waiting : List WireFrame} {l : LongRing WireFrame}
  {q : DropOldest WireFrame}

/-- A drain records what the `long`s give. -/
theorem Accounted.drain_longs (k n : Nat) (h : Accounted capacity rt recorded waiting)
    (hs : Stands capacity m l q rt.pipeline.ring) (hlt : m < 2 ^ 63) :
    let rt' := (OperatorRuntime.drainLoop k n rt).2
    ∃ waiting' q', Accounted capacity rt' (recorded ++ (l.takes k).1) waiting' ∧
      Stands capacity m (l.takes k).2 q' rt'.pipeline.ring := by
  induction k generalizing n rt recorded waiting l q with
  | zero => exact ⟨waiting, q, (List.append_nil recorded).symm ▸ h, hs⟩
  | succ k ih =>
    have hanswer := (hs.counts.poll hs.queue (hs.head_eq ▸ hlt)).1
    have hnext := (hs.poll hlt).2
    cases waiting with
    | nil =>
      have hpoll := h.queue.poll_nil
      rw [hpoll] at hanswer hnext
      have htakes : l.takes (k + 1) = ([], l.poll.2) := by
        rw [LongRing.takes, show l.poll = (none, l.poll.2) from Prod.ext hanswer rfl]
      rw [h.drain_nil, htakes, List.append_nil]
      exact ⟨[], _, h, hnext⟩
    | cons f waiting =>
      obtain ⟨rt', heq, hring, h'⟩ := h.drain_cons k n
      have htakes : l.takes (k + 1) = (f :: (l.poll.2.takes k).1, (l.poll.2.takes k).2) := by
        rw [LongRing.takes, show l.poll = (some f, l.poll.2) from Prod.ext (hanswer.trans h.queue.poll_cons.1) rfl]
      rw [heq, htakes, List.append_cons]
      exact ih _ h' (hring ▸ hnext)

theorem Accounted.step_longs (h : Accounted capacity rt recorded waiting)
    (hs : Stands capacity m l q rt.pipeline.ring) (hlt : m < 2 ^ 63) (act : OperatorAct) :
    ∃ waiting' q', Accounted capacity (rt.step act) (recorded ++ (l.act act).1) waiting' ∧
      Stands capacity (m + if act.accepts then 1 else 0) (l.act act).2 q' (rt.step act).pipeline.ring := by
  cases act with
  | offer frame =>
    obtain ⟨waiting', h'⟩ := h.offer frame
    have hring : (rt.step (.offer frame)).pipeline.ring = _ := (offer_eq rt.pipeline frame).1
    rw [hring, show (l.act (.offer frame)).1 = [] from rfl, List.append_nil]
    cases hcrc : frame.crcOk with
    | false =>
      simp only [LongRing.act, OperatorAct.accepts, hcrc, Bool.false_eq_true, if_false]
      exact ⟨waiting', q, h', hs⟩
    | true =>
      simp only [LongRing.act, OperatorAct.accepts, hcrc, if_true]
      exact ⟨waiting', _, h', hs.offer frame⟩
  | drain max => exact h.drain_longs max.toNatClampNeg 0 hs hlt

theorem Accounted.run_longs (acts : List OperatorAct) (h : Accounted capacity rt recorded waiting)
    (hs : Stands capacity m l q rt.pipeline.ring) (hlt : m + acts.countP OperatorAct.accepts < 2 ^ 63) :
    let rt' := Runs.run OperatorRuntime.step rt acts
    let taken := Runs.serve LongRing.act l acts
    ∃ waiting' q', Accounted capacity rt' (recorded ++ taken.1.flatten) waiting' ∧
      Stands capacity (m + acts.countP OperatorAct.accepts) taken.2 q' rt'.pipeline.ring := by
  induction acts generalizing rt recorded waiting l q m with
  | nil => exact ⟨waiting, q, (List.append_nil recorded).symm ▸ h, hs⟩
  | cons act acts ih =>
    rw [List.countP_cons, Nat.add_comm (acts.countP _), ← Nat.add_assoc] at hlt ⊢
    obtain ⟨waiting', q', h', hs'⟩ := h.step_longs hs (by omega) act
    obtain ⟨waiting'', q'', hlast, hs''⟩ := ih h' hs' hlt
    rw [List.append_assoc] at hlast
    exact ⟨waiting'', q'', hlast, hs''⟩

end Longs

/-- The numbers in the ring of the model are the `long`s of the code: as long as fewer than `2 ^ 63` frames are
accepted, the frames recorded are those that the drains take from the ring of the code, and its size and drops are
those of the model. -/
theorem recorded_longs {ringPow2 : Int32} {nanoTimes : Nat → Int64} {rt₀ : OperatorRuntime}
    (hmake : OperatorRuntime.make ringPow2 nanoTimes (some []) = .ok rt₀) {acts : List OperatorAct}
    (hfew : acts.countP OperatorAct.accepts < 2 ^ 63) :
    ∃ l₀, LongRing.make ringPow2 = .ok l₀ ∧
      let rt := run OperatorRuntime.step rt₀ acts
      let taken := Runs.serve LongRing.act l₀ acts
      (∃ w, rt.recorder = some w ∧ w.Recorded taken.1.flatten) ∧
        taken.2.size.toInt = rt.pipeline.queued ∧ taken.2.drops.toInt = rt.pipeline.ringDrops := by
  obtain ⟨ring, w, hring, -, hrt₀⟩ := OperatorRuntime.make_ok hmake
  obtain ⟨l₀, hl₀, hnew⟩ := Stands.of_make hring
  refine ⟨l₀, hl₀, ?_⟩
  have hnew' : Stands ringPow2.toNatClampNeg 0 l₀ {} rt₀.pipeline.ring := by
    rw [hrt₀]
    exact hnew
  obtain ⟨waiting, q, h, hs⟩ := (accounted_make hmake).run_longs acts hnew' (by omega)
  obtain ⟨hsize, -, hdrops⟩ := hs.reads (by omega)
  refine ⟨h.recorder, hsize.trans ?_, hdrops.trans ?_⟩
  · rw [TelemetryPipeline.queued, hs.queue.size_eq]
  · rw [TelemetryPipeline.ringDrops, hs.drops_eq]

end ZcMesh.Operator
