import Mathlib.Data.List.ReduceOption
import ZcMesh.Lib.Run
import ZcMesh.Ring.LongRing
import ZcMesh.Stats.Agreement
import ZcMesh.Stats.Pipeline
import ZcMesh.Wire.Codec

/-!
# The counters of the pipeline partition the traffic

Whatever is called on a `TelemetryPipeline`, one call at a time, its counters add up: the accepted frames are those of
the four sensor counters, those of the three hop counters, and those polled, waiting or dropped. The per-node array and
the map of latest states know the same nodes, and the map holds the last accepted frame of each.

`Partitioned` says so for the frames offered so far; every call keeps it (`Partitioned.offer_ok`,
`Partitioned.offer_bad`, `Partitioned.poll`), and so does every run (`Partitioned.run`). Below `2 ^ 63` accepted frames
the calls return what they return on the ring of the code (`partition_longs`).
-/

namespace ZcMesh.Operator

/-- A frame that `WireFrame.decode` gave for some bytes. -/
abbrev DecodedFrame := { f : WireFrame // ∃ buf, WireFrame.decode buf = .ok f }

/-- A call, of `offer`, `poll(0)`, `noteCrcFail` or `noteTcpResync`. -/
inductive PipelineCall
  | offer (frame : DecodedFrame)
  | poll
  | noteCrcFail
  | noteTcpResync (skippedBytes : Int32)

/-- A call, and the frame that it returns. -/
def TelemetryPipeline.call (p : TelemetryPipeline) : PipelineCall → Option WireFrame × TelemetryPipeline
  | .offer frame => (none, p.offer frame.1)
  | .poll => p.poll
  | .noteCrcFail => (none, p.noteCrcFail)
  | .noteTcpResync skippedBytes => (none, p.noteTcpResync skippedBytes.toInt)

/-- The frame of a call of `offer`. -/
def PipelineCall.offered : PipelineCall → Option WireFrame
  | .offer frame => some frame.1
  | _ => none

/-- The frames of the calls of `offer`. -/
def offered (calls : List PipelineCall) : List WireFrame := calls.filterMap PipelineCall.offered

theorem offered_cons (c : PipelineCall) (calls : List PipelineCall) :
    offered (c :: calls) = c.offered.toList ++ offered calls := by
  rw [offered, offered]
  cases h : c.offered <;> simp [h]

/-- Those with a good checksum. -/
def accepted (frames : List WireFrame) : List WireFrame := frames.filter (·.crcOk)

theorem accepted_append (as bs : List WireFrame) : accepted (as ++ bs) = accepted as ++ accepted bs :=
  List.filter_append ..

/-- The last frame of a node. -/
def lastOf (nodeId : Int32) (frames : List WireFrame) : Option WireFrame :=
  (frames.filter (·.nodeId = nodeId)).getLast?

/-- A frame of the last hop. -/
def WireFrame.lastHop (f : WireFrame) : Bool := f.flags &&& WireFrame.FLAG_LAST_HOP ≠ 0

/-- The state of a node behind a frame. -/
def NodeState.ofFrame (f : WireFrame) (now : Int64) : NodeState where
  nodeId := f.nodeId
  seq := f.seq
  sensorType := f.sensorType
  rawValue := f.rawValue
  timestampLo := f.timestampLo
  hopIdx := f.reserved
  lastHop := f.lastHop
  updatedAtNs := now

/-! ## Decoded frames -/

/-- A decoded id is two bytes and a decoded hop index one, so the masks of the pipeline keep them. -/
theorem DecodedFrame.masks (f : DecodedFrame) :
    f.1.nodeId &&& 0xFFFF = f.1.nodeId ∧ f.1.reserved &&& 0xFF = f.1.reserved := by
  obtain ⟨f, buf, h⟩ := f
  rw [WireFrame.decode] at h
  split at h
  · cases h
  · cases h
    exact ⟨short_mask _, byte_mask _⟩

/-- The state that `offer` stores. -/
theorem NodeState.ofFrame_eq (f : DecodedFrame) (now : Int64) : NodeState.ofFrame f.1 now =
    { nodeId := f.1.nodeId, seq := f.1.seq, sensorType := f.1.sensorType, rawValue := f.1.rawValue,
      timestampLo := f.1.timestampLo, hopIdx := f.1.reserved &&& 0xFF,
      lastHop := f.1.flags &&& WireFrame.FLAG_LAST_HOP ≠ 0, updatedAtNs := now } := by
  rw [f.masks.2, NodeState.ofFrame, WireFrame.lastHop]

/-! ## What one frame adds -/

theorem accepted_snoc (frames : List WireFrame) {f : WireFrame} (h : f.crcOk = true) :
    accepted (frames ++ [f]) = accepted frames ++ [f] := by
  simp [accepted, h]

theorem accepted_snoc_bad (frames : List WireFrame) {f : WireFrame} (h : f.crcOk = false) :
    accepted (frames ++ [f]) = accepted frames := by
  simp [accepted, h]

theorem lastOf_snoc (nodeId : Int32) (frames : List WireFrame) (f : WireFrame) :
    lastOf nodeId (frames ++ [f]) = if f.nodeId = nodeId then some f else lastOf nodeId frames := by
  by_cases h : f.nodeId = nodeId <;> simp [lastOf, h]

theorem trackGaps_last (p : SeqTracker) (f : WireFrame) : (p.trackGaps f).lastSeqByNode =
    Function.update p.lastSeqByNode (f.nodeId &&& 0xFFFF) (some f.seq) := by
  simp only [SeqTracker.trackGaps]
  cases p.lastSeqByNode (f.nodeId &&& 0xFFFF) with
  | none => rfl
  | some prev => dsimp only; split_ifs <;> rfl

/-- A node is counted with its first frame. -/
theorem trackGaps_uniqueNodes (p : SeqTracker) (f : WireFrame) : (p.trackGaps f).uniqueNodes =
    p.uniqueNodes + if p.lastSeqByNode (f.nodeId &&& 0xFFFF) = none then 1 else 0 := by
  simp only [SeqTracker.trackGaps]
  cases p.lastSeqByNode (f.nodeId &&& 0xFFFF) with
  | none => rfl
  | some prev =>
    simp only [reduceCtorEq, if_false, Int64.add_zero]
    split_ifs <;> rfl

/-- A frame is of one sensor type. -/
theorem trackSensor_sum (p : SensorCounts) (type : Int32) :
    let p' := p.trackSensor type
    p'.sensorVoltage + p'.sensorCurrent + p'.sensorTemp + p'.sensorOther =
      p.sensorVoltage + p.sensorCurrent + p.sensorTemp + p.sensorOther + 1 := by
  simp only [SensorCounts.trackSensor]
  split_ifs <;> grind

/-- A frame has one hop index. -/
theorem trackHop_sum (p : HopCounts) (f : WireFrame) :
    let p' := p.trackHop f
    p'.hopIdx0 + p'.hopIdx1 + p'.hopIdx2Plus = p.hopIdx0 + p.hopIdx1 + p.hopIdx2Plus + 1 := by
  simp only [HopCounts.trackHop]
  split_ifs <;> grind

/-- What `offer` does with a good frame, beside the gaps and the times. -/
theorem offer_ok (p : TelemetryPipeline) {f : DecodedFrame} (h : f.1.crcOk = true) :
    let p' := p.offer f.1
    p'.toSeqTracker = p.trackGaps f.1 ∧ p'.toSensorCounts = p.trackSensor f.1.sensorType ∧
      p'.toHopCounts = p.trackHop f.1 ∧ p'.framesOk = p.framesOk + 1 ∧ p'.bytesIn = p.bytesIn + 24 ∧
      p'.ring = p.ring.offer f.1 ∧
      ∃ now, p'.latestByNode = p.latestByNode.insert f.1.nodeId (NodeState.ofFrame f.1 now) := by
  simp only [NodeState.ofFrame_eq, TelemetryPipeline.offer, h, Bool.not_true, Bool.false_eq_true, if_false]
  exact ⟨rfl, rfl, rfl, rfl, rfl, rfl, _, rfl⟩

/-- What `offer` does with a bad one. -/
theorem offer_bad (p : TelemetryPipeline) {f : WireFrame} (h : f.crcOk = false) :
    p.offer f = { p with bytesIn := p.bytesIn + 24, framesCrcFail := p.framesCrcFail + 1 } := by
  simp only [TelemetryPipeline.offer, h, Bool.not_false, if_true]
  rfl

/-! ## Runs -/

/-- Behind the frames offered and the number of those polled. -/
structure Partitioned (p : TelemetryPipeline) (polled : Nat) (frames : List WireFrame) : Prop where
  ring : ∃ waiting, Queue p.ring waiting ∧
    polled + waiting.length + p.ring.drops = (accepted frames).length
  framesOk : p.framesOk = Int64.ofNat (accepted frames).length
  sensors : p.sensorVoltage + p.sensorCurrent + p.sensorTemp + p.sensorOther = p.framesOk
  hops : p.hopIdx0 + p.hopIdx1 + p.hopIdx2Plus = p.framesOk
  lastHop : p.framesLastHop = Int64.ofNat ((accepted frames).countP WireFrame.lastHop)
  bytesIn : p.bytesIn = 24 * Int64.ofNat frames.length
  uniqueNodes : p.uniqueNodes = Int64.ofNat p.latestByNode.entries.length
  known : ∀ nodeId, p.lastSeqByNode nodeId = none ↔ p.latestByNode.lookup nodeId = none
  latest : ∀ nodeId, ∃ now,
    p.latestByNode.lookup nodeId = (lastOf nodeId (accepted frames)).map (NodeState.ofFrame · now)

namespace Partitioned

variable {p : TelemetryPipeline} {polled : Nat} {frames : List WireFrame}

theorem make {n : Nat} {nanoTimes : Nat → Int64} (h : TelemetryPipeline.make n nanoTimes = .ok p) :
    Partitioned p 0 [] := by
  obtain ⟨ring, hring, rfl⟩ := TelemetryPipeline.make_ok h
  obtain ⟨hqueue, hdrops, -⟩ := Queue.make hring
  exact
    { ring := ⟨[], hqueue, (Nat.zero_add _).trans hdrops⟩
      framesOk := rfl
      sensors := rfl
      hops := rfl
      lastHop := rfl
      bytesIn := rfl
      uniqueNodes := rfl
      known := fun _ => ⟨fun _ => rfl, fun _ => rfl⟩
      latest := fun _ => ⟨0, rfl⟩ }

theorem offer_ok (h : Partitioned p polled frames) {f : DecodedFrame} (hok : f.1.crcOk = true) :
    Partitioned (p.offer f.1) polled (frames ++ [f.1]) := by
  obtain ⟨hseq, hsensor, hhop, hframesOk, hbytes, hring, now, hlatest⟩ := Operator.offer_ok p hok
  obtain ⟨waiting, hqueue, hsum⟩ := h.ring
  obtain ⟨hqueue', hdrops, -⟩ := hqueue.offer f.1
  have hcap := p.ring.capacity_pow2.1
  have hlength := length_enqueue (show 0 < p.ring.capacity by omega) waiting f.1
  have hold := h.known f.1.nodeId
  exact
    { ring := by
        refine ⟨_, hring ▸ hqueue', ?_⟩
        rw [hring, hdrops, accepted_snoc _ hok, List.length_append, List.length_singleton]
        omega
      framesOk := by
        rw [hframesOk, h.framesOk, accepted_snoc _ hok, List.length_append, List.length_singleton, ofNat_succ]
      sensors := by
        rw [hsensor, hframesOk, ← h.sensors]
        exact trackSensor_sum _ _
      hops := by
        rw [hhop, hframesOk, ← h.hops]
        exact trackHop_sum _ _
      lastHop := by
        rw [hhop, trackHop_framesLastHop, h.lastHop, accepted_snoc _ hok, List.countP_append, List.countP_singleton,
          Int64.ofNat_add]
        by_cases hlast : f.1.flags &&& WireFrame.FLAG_LAST_HOP ≠ 0 <;> simp [WireFrame.lastHop, hlast]
      bytesIn := by
        rw [hbytes, h.bytesIn, List.length_append, List.length_singleton, ofNat_succ]
        grind
      uniqueNodes := by
        rw [hseq, hlatest, trackGaps_uniqueNodes, f.masks.1, h.uniqueNodes]
        cases hnode : p.latestByNode.lookup f.1.nodeId with
        | none => rw [if_pos (hold.mpr hnode), AssocSum.length_insert_none hnode, ofNat_succ]
        | some state =>
          have hknown : p.lastSeqByNode f.1.nodeId ≠ none := mt hold.mp (by simp [hnode])
          rw [if_neg hknown, AssocSum.length_insert_some hnode, Int64.add_zero]
      known := by
        intro nodeId
        rw [hseq, hlatest, trackGaps_last, f.masks.1]
        by_cases hnode : nodeId = f.1.nodeId
        · simp [hnode]
        · rw [Function.update_of_ne hnode, AList.lookup_insert_ne hnode]
          exact h.known nodeId
      latest := by
        intro nodeId
        rw [hlatest, accepted_snoc _ hok, lastOf_snoc]
        by_cases hnode : nodeId = f.1.nodeId
        · subst hnode
          exact ⟨now, by rw [if_pos rfl, AList.lookup_insert, Option.map_some]⟩
        · rw [if_neg (Ne.symm hnode), AList.lookup_insert_ne hnode]
          exact h.latest nodeId }

theorem offer_bad (h : Partitioned p polled frames) {f : WireFrame} (hbad : f.crcOk = false) :
    Partitioned (p.offer f) polled (frames ++ [f]) := by
  have haccepted := accepted_snoc_bad frames hbad
  rw [Operator.offer_bad p hbad]
  exact
    { ring := haccepted ▸ h.ring
      framesOk := haccepted ▸ h.framesOk
      sensors := h.sensors
      hops := h.hops
      lastHop := haccepted ▸ h.lastHop
      bytesIn := by
        rw [List.length_append, List.length_singleton, ofNat_succ, h.bytesIn]
        grind
      uniqueNodes := h.uniqueNodes
      known := h.known
      latest := haccepted ▸ h.latest }

theorem poll (h : Partitioned p polled frames) :
    Partitioned p.poll.2 (polled + p.poll.1.toList.length) frames := by
  obtain ⟨waiting, hqueue, hsum⟩ := h.ring
  cases waiting with
  | nil =>
    have hpoll : p.poll = (none, p) := by simp only [TelemetryPipeline.poll, hqueue.poll_nil]
    rw [hpoll]
    exact h
  | cons f waiting =>
    obtain ⟨hfirst, hqueue', hdrops, -⟩ := hqueue.poll_cons
    have hpoll : p.poll = (some f, { p with ring := p.ring.poll.2 }) := by
      simp only [TelemetryPipeline.poll, hfirst]
    rw [hpoll]
    refine { h with ring := ⟨waiting, hqueue', ?_⟩ }
    rw [hdrops, ← hsum, List.length_cons]
    simp only [Option.toList_some, List.length_singleton]
    omega

/-- **Every call keeps the account.** -/
theorem call (h : Partitioned p polled frames) (c : PipelineCall) :
    Partitioned (p.call c).2 (polled + (p.call c).1.toList.length) (frames ++ c.offered.toList) := by
  cases c with
  | offer f =>
    cases hcrc : f.1.crcOk with
    | false => exact h.offer_bad hcrc
    | true => exact h.offer_ok hcrc
  | poll =>
    rw [show PipelineCall.poll.offered.toList = [] from rfl, List.append_nil]
    exact h.poll
  | noteCrcFail =>
    rw [show PipelineCall.noteCrcFail.offered.toList = [] from rfl, List.append_nil]
    exact { h with }
  | noteTcpResync n =>
    rw [show (PipelineCall.noteTcpResync n).offered.toList = [] from rfl, List.append_nil]
    show Partitioned (p.noteTcpResync n.toInt) polled frames
    rw [TelemetryPipeline.noteTcpResync]
    split
    · exact { h with }
    · exact h

theorem run (h : Partitioned p polled frames) (calls : List PipelineCall) :
    Partitioned (Runs.serve TelemetryPipeline.call p calls).2
      (polled + (Runs.serve TelemetryPipeline.call p calls).1.reduceOption.length) (frames ++ offered calls) := by
  induction calls generalizing p polled frames with
  | nil => simpa [offered] using h
  | cons c calls ih =>
    have hlast := ih (h.call c)
    have hpolled : polled + (p.call c).1.toList.length +
        (Runs.serve TelemetryPipeline.call (p.call c).2 calls).1.reduceOption.length =
          polled + (Runs.serve TelemetryPipeline.call p (c :: calls)).1.reduceOption.length := by
      rw [Runs.serve_cons]
      cases (p.call c).1 with
      | none => simp
      | some f =>
        simp only [Option.toList_some, List.reduceOption_cons_of_some, List.length_cons, List.length_nil]
        omega
    have hframes : frames ++ c.offered.toList ++ offered calls = frames ++ offered (c :: calls) := by
      rw [List.append_assoc, offered_cons]
    rw [hpolled, hframes] at hlast
    exact hlast

/-- The nodes of the map are those of the accepted frames. -/
theorem length_latest (h : Partitioned p polled frames) :
    p.latestByNode.entries.length = ((accepted frames).map (·.nodeId)).toFinset.card := by
  have hkeys : p.latestByNode.keys.toFinset = ((accepted frames).map (·.nodeId)).toFinset := by
    ext nodeId
    obtain ⟨now, hlatest⟩ := h.latest nodeId
    rw [List.mem_toFinset, List.mem_toFinset, ← AList.mem_keys, ← AList.lookup_isSome, hlatest]
    simp [lastOf]
  rw [← hkeys, List.toFinset_card_of_nodup p.latestByNode.keys_nodup]
  simp [AList.keys, List.keys]

end Partitioned

/-- **The counters partition the traffic**: behind every sequence of calls on a new pipeline they add up as the classes
of frames do, and the map holds the last accepted frame of each node. As `long`s, the frames of the last hop are at most
the accepted frames as long as those are fewer than `2 ^ 63`. -/
theorem counters_partition {n : Nat} {nanoTimes : Nat → Int64} {p₀ : TelemetryPipeline}
    (hmake : TelemetryPipeline.make n nanoTimes = .ok p₀) (calls : List PipelineCall) :
    let out := Runs.serve TelemetryPipeline.call p₀ calls
    let p := out.2
    let good := accepted (offered calls)
    p.framesOk = p.sensorVoltage + p.sensorCurrent + p.sensorTemp + p.sensorOther ∧
      p.framesOk = p.hopIdx0 + p.hopIdx1 + p.hopIdx2Plus ∧
      p.framesOk = Int64.ofNat (out.1.reduceOption.length + p.queued + p.ringDrops) ∧
      (good.length < 2 ^ 63 → p.framesLastHop ≤ p.framesOk) ∧
      p.bytesIn = 24 * Int64.ofNat (offered calls).length ∧
      p.uniqueNodes = Int64.ofNat p.latestNodes.length ∧
      p.latestNodes.length = (good.map (·.nodeId)).toFinset.card ∧
      ∀ nodeId, ∃ now, p.latestNode nodeId = (lastOf nodeId good).map (NodeState.ofFrame · now) := by
  intro out p good
  have h : Partitioned p (0 + out.1.reduceOption.length) ([] ++ offered calls) := (Partitioned.make hmake).run calls
  rw [List.nil_append, Nat.zero_add] at h
  obtain ⟨waiting, hqueue, hsum⟩ := h.ring
  have hlatest : p.latestNodes.length = p.latestByNode.entries.length := List.length_map _
  have hcount : good.countP WireFrame.lastHop ≤ good.length := List.countP_le_length
  refine ⟨h.sensors.symm, h.hops.symm, ?_, ?_, h.bytesIn, ?_, ?_, h.latest⟩
  · rw [h.framesOk, TelemetryPipeline.queued, hqueue.size_eq, TelemetryPipeline.ringDrops, hsum]
  · intro hlt
    rw [h.framesOk, h.lastHop]
    exact (Int64.ofNat_le_iff_le (Nat.lt_of_le_of_lt hcount hlt) hlt).mpr hcount
  · rw [hlatest, h.uniqueNodes]
  · rw [hlatest, h.length_latest]

/-! ## The ring of the code -/

/-- What a call does with the ring, on `long`s. -/
def LongRing.pipelineCall (l : LongRing WireFrame) : PipelineCall → Option WireFrame × LongRing WireFrame
  | .offer frame => (none, if frame.1.crcOk then (l.offer frame.1).2 else l)
  | .poll => l.poll
  | _ => (none, l)

/-- **A call does the same to the `long`s and to the numbers**, before the head wraps. -/
theorem Stands.pipelineCall {capacity k : Nat} {l : LongRing WireFrame} {q : DropOldest WireFrame}
    {p : TelemetryPipeline} (h : Stands capacity k l q p.ring) (hlt : k < 2 ^ 63) (c : PipelineCall) :
    (p.call c).1 = (l.pipelineCall c).1 ∧
      ∃ q', Stands capacity (k + (accepted c.offered.toList).length) (l.pipelineCall c).2 q' (p.call c).2.ring := by
  cases c with
  | offer frame =>
    refine ⟨rfl, ?_⟩
    cases hcrc : frame.1.crcOk with
    | true =>
      have hring := (Operator.offer_ok p hcrc).2.2.2.2.2.1
      have hnext := h.offer frame.1
      rw [← hring] at hnext
      simp only [LongRing.pipelineCall, accepted, PipelineCall.offered, Option.toList_some, List.filter_singleton, hcrc,
        if_true]
      exact ⟨_, hnext⟩
    | false =>
      simp only [TelemetryPipeline.call, LongRing.pipelineCall, Operator.offer_bad p hcrc, accepted,
        PipelineCall.offered, Option.toList_some, List.filter_singleton, hcrc, Bool.false_eq_true, if_false]
      exact ⟨q, h⟩
  | poll => exact ⟨(h.counts.poll h.queue (h.head_eq ▸ hlt)).1.symm, _, (h.poll hlt).2⟩
  | noteCrcFail => exact ⟨rfl, q, h⟩
  | noteTcpResync skipped =>
    have hring : (p.noteTcpResync skipped.toInt).ring = p.ring := by
      rw [TelemetryPipeline.noteTcpResync]
      split <;> rfl
    refine ⟨rfl, q, ?_⟩
    show Stands capacity k l q (p.noteTcpResync skipped.toInt).ring
    rw [hring]
    exact h

/-- The numbers in the ring of the model are the `long`s of the code: as long as fewer than `2 ^ 63` frames are
accepted, a pipeline with the ring of the code returns the same frames, and the same sizes and drops. -/
theorem partition_longs {c : Int32} {nanoTimes : Nat → Int64} {p₀ : TelemetryPipeline}
    (hmake : TelemetryPipeline.make c.toNatClampNeg nanoTimes = .ok p₀) {calls : List PipelineCall}
    (hfew : (accepted (offered calls)).length < 2 ^ 63) :
    ∃ l₀, LongRing.make c = .ok l₀ ∧
      let out := Runs.serve TelemetryPipeline.call p₀ calls
      let ring := Runs.serve LongRing.pipelineCall l₀ calls
      out.1 = ring.1 ∧ ring.2.size.toInt = out.2.ring.size ∧ ring.2.drops.toInt = out.2.ring.drops := by
  obtain ⟨ring, hring, hp₀⟩ := TelemetryPipeline.make_ok hmake
  obtain ⟨l₀, hl₀, hnew⟩ := Stands.of_make hring
  refine ⟨l₀, hl₀, ?_⟩
  let R (rest : List PipelineCall) (p : TelemetryPipeline) (l : LongRing WireFrame) : Prop :=
    ∃ k q, Stands c.toNatClampNeg k l q p.ring ∧ k + (accepted (offered rest)).length < 2 ^ 63
  have hstep : ∀ call rest p l, R (call :: rest) p l →
      (p.call call).1 = (l.pipelineCall call).1 ∧ R rest (p.call call).2 (l.pipelineCall call).2 := by
    rintro call rest p l ⟨k, q, h, hlt⟩
    rw [offered_cons, accepted_append, List.length_append] at hlt
    obtain ⟨hanswer, q', hnext⟩ := h.pipelineCall (by omega) call
    exact ⟨hanswer, _, q', hnext, by omega⟩
  obtain ⟨hanswers, k, q, hlast, hlt⟩ := Runs.serve_sim hstep calls p₀ l₀ ⟨0, {}, hp₀ ▸ hnew, by omega⟩
  obtain ⟨hsize, -, hdrops⟩ := hlast.reads (by omega)
  refine ⟨hanswers, hsize.trans ?_, hdrops.trans ?_⟩
  · rw [hlast.queue.size_eq]
  · rw [hlast.drops_eq]

/-- A sample as it comes from the wire. -/
def DecodedFrame.ofSample (s : Core.SensorSample) : DecodedFrame :=
  ⟨view (Core.packFrameInto s), (Core.packFrameInto s).bytes, by
    rw [decode_eq_view (Core.WireFrame.length_bytes _), Core.WireFrame.ofBytes_bytes]⟩

theorem DecodedFrame.crcOk_ofSample (s : Core.SensorSample) : (ofSample s).1.crcOk = true :=
  Core.verifyFrame_packFrameInto s

/-- Three frames on a ring of two, and one poll. -/
theorem counters_partition_three :
    ∃ p₀, TelemetryPipeline.make 2 (fun _ => 0) = .ok p₀ ∧
      let frame := PipelineCall.offer (.ofSample goldenSample)
      let out := Runs.serve TelemetryPipeline.call p₀ [frame, frame, frame, .poll]
      out.2.framesOk = Int64.ofNat (out.1.reduceOption.length + out.2.queued + out.2.ringDrops) := by
  obtain ⟨p₀, hmake⟩ : ∃ p₀, TelemetryPipeline.make 2 (fun _ => 0) = .ok p₀ := ⟨_, rfl⟩
  refine ⟨p₀, hmake, ?_⟩
  intro frame
  exact (counters_partition hmake [frame, frame, frame, .poll]).2.2.1

/-! ## The wrap of the counters -/

/-- Behind the same good frame `n` times. -/
theorem Partitioned.offers {p : TelemetryPipeline} (h : Partitioned p 0 []) {f : DecodedFrame} (hok : f.1.crcOk = true)
    (hlast : f.1.lastHop = false) (n : Nat) :
    (Runs.serve TelemetryPipeline.call p (List.replicate n (.offer f))).2.framesOk = Int64.ofNat n ∧
      (Runs.serve TelemetryPipeline.call p (List.replicate n (.offer f))).2.framesLastHop = 0 := by
  have hrun := h.run (List.replicate n (.offer f))
  have hoffered : offered (List.replicate n (.offer f)) = List.replicate n f.1 :=
    List.filterMap_replicate_of_some rfl
  have haccepted : accepted (List.replicate n f.1) = List.replicate n f.1 := by
    rw [accepted, List.filter_replicate_of_pos hok]
  have hcount : (List.replicate n f.1).countP WireFrame.lastHop = 0 := by
    rw [List.countP_replicate, hlast]
    rfl
  refine ⟨?_, ?_⟩
  · rw [hrun.framesOk, List.nil_append, hoffered, haccepted, List.length_replicate]
  · rw [hrun.lastHop, List.nil_append, hoffered, haccepted, hcount]
    rfl

/-- Behind `2 ^ 63` frames that are not of the last hop, `framesOk` is negative and `framesLastHop` is zero. -/
theorem lastHop_above_ok :
    ¬∀ p₀, TelemetryPipeline.make 2 (fun _ => 0) = .ok p₀ →
      ∀ calls, calls = List.replicate (2 ^ 63) (PipelineCall.offer (.ofSample { goldenSample with flags := 0 })) →
        (Runs.serve TelemetryPipeline.call p₀ calls).2.framesLastHop ≤
          (Runs.serve TelemetryPipeline.call p₀ calls).2.framesOk := by
  intro hall
  obtain ⟨p₀, hmake⟩ : ∃ p₀, TelemetryPipeline.make 2 (fun _ => 0) = .ok p₀ := ⟨_, rfl⟩
  have hlast : (DecodedFrame.ofSample { goldenSample with flags := 0 }).1.lastHop = false := by decide +kernel
  obtain ⟨hok, hzero⟩ := (Partitioned.make hmake).offers (DecodedFrame.crcOk_ofSample _) hlast (2 ^ 63)
  have hle := hall p₀ hmake _ rfl
  rw [hok, hzero] at hle
  exact absurd hle (by decide)

end ZcMesh.Operator
