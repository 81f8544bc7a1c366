import Mathlib.Data.List.AList
import ZcMesh.Ring.FrameRing
import ZcMesh.Wire.JavaFrame

/-!
# The telemetry pipeline of the operator

`operator-node/.../pipeline/TelemetryPipeline.java`: `offer` with its trackers, and what the receiver reports beside
it. The fields of the class are grouped by the tracker that writes them; each tracker is a function on its group.
One thread offers, so the lazy creation of a node's last seq under the lock is a single step.
-/

namespace ZcMesh.Operator

/-- `NodeState`. -/
structure NodeState where
  nodeId : Int32
  seq : Int64
  sensorType : Int32
  rawValue : Int32
  timestampLo : Int64
  hopIdx : Int32
  lastHop : Bool
  updatedAtNs : Int64
  deriving DecidableEq, Repr

/-- The fields of `trackGaps`; `lastSeqByNode` is the array of 65536 entries, `none` for `null`. -/
structure SeqTracker where
  lastSeqByNode : Int32 → Option Int64 := fun _ => none
  seqGaps : Int64 := 0
  seqDups : Int64 := 0
  uniqueNodes : Int64 := 0

/-- The fields of `trackInterArrival`. -/
structure InterArrival where
  lastOfferNs : Int64 := 0
  interArrivalEwmaNs : Int64 := 0

/-- The fields of `trackSensor`. -/
@[ext]
structure SensorCounts where
  sensorVoltage : Int64 := 0
  sensorCurrent : Int64 := 0
  sensorTemp : Int64 := 0
  sensorOther : Int64 := 0

/-- The fields of `trackHop`. -/
@[ext]
structure HopCounts where
  framesLastHop : Int64 := 0
  hopIdx0 : Int64 := 0
  hopIdx1 : Int64 := 0
  hopIdx2Plus : Int64 := 0

/-- `TelemetryPipeline`. `nanoTimes` are the coming results of `System.nanoTime`. -/
structure TelemetryPipeline extends SeqTracker, InterArrival, SensorCounts, HopCounts where
  ring : FrameRing WireFrame
  latestByNode : AList (fun _ : Int32 => NodeState) := ∅
  framesOk : Int64 := 0
  framesCrcFail : Int64 := 0
  bytesIn : Int64 := 0
  lastSeq : Int64 := -1
  tcpResync : Int64 := 0
  nanoTimes : Nat → Int64

/-- `trackGaps`. -/
def SeqTracker.trackGaps (p : SeqTracker) (frame : WireFrame) : SeqTracker :=
  let id := frame.nodeId &&& 0xFFFF
  match p.lastSeqByNode id with
  | none =>
    { p with
      lastSeqByNode := Function.update p.lastSeqByNode id (some frame.seq)
      uniqueNodes := p.uniqueNodes + 1 }
  | some prev =>
    let expected := prev + 1
    let p :=
      if frame.seq > expected then { p with seqGaps := p.seqGaps + (frame.seq - expected) }
      else if frame.seq ≤ prev then { p with seqDups := p.seqDups + 1 }
      else p
    { p with lastSeqByNode := Function.update p.lastSeqByNode id (some frame.seq) }

/-- `trackInterArrival`, at the time `now`. -/
def InterArrival.trackInterArrival (p : InterArrival) (now : Int64) : InterArrival :=
  let prev := p.lastOfferNs
  let p := { p with lastOfferNs := now }
  if prev = 0 then p
  else
    let delta := now - prev
    let ewma := p.interArrivalEwmaNs
    { p with interArrivalEwmaNs := if ewma = 0 then delta else ewma - (ewma >>> 4) + (delta >>> 4) }

/-- `trackSensor`. -/
def SensorCounts.trackSensor (p : SensorCounts) (type : Int32) : SensorCounts :=
  if type = 0 then { p with sensorVoltage := p.sensorVoltage + 1 }
  else if type = 1 then { p with sensorCurrent := p.sensorCurrent + 1 }
  else if type = 2 then { p with sensorTemp := p.sensorTemp + 1 }
  else { p with sensorOther := p.sensorOther + 1 }

/-- `trackHop`. -/
def HopCounts.trackHop (p : HopCounts) (frame : WireFrame) : HopCounts :=
  let p := if frame.flags &&& WireFrame.FLAG_LAST_HOP ≠ 0 then { p with framesLastHop := p.framesLastHop + 1 } else p
  let hi := frame.reserved &&& 0xFF
  if hi = 0 then { p with hopIdx0 := p.hopIdx0 + 1 }
  else if hi = 1 then { p with hopIdx1 := p.hopIdx1 + 1 }
  else { p with hopIdx2Plus := p.hopIdx2Plus + 1 }

namespace TelemetryPipeline

/-- `new TelemetryPipeline(ringCapacityPow2)`. -/
def make (ringCapacityPow2 : Nat) (nanoTimes : Nat → Int64) : Except String TelemetryPipeline := do
  let ring ← FrameRing.make ringCapacityPow2
  return { ring, nanoTimes }

/-- A new pipeline holds a new ring. -/
theorem make_ok {n : Nat} {nanoTimes : Nat → Int64} {p : TelemetryPipeline}
    (h : make n nanoTimes = .ok p) :
    ∃ ring, FrameRing.make n = .ok ring ∧ p = { ring, nanoTimes } := by
  cases hring : FrameRing.make (α := WireFrame) n with
  | error e =>
    simp only [make, hring, bind, Except.bind] at h
    cases h
  | ok ring =>
    simp only [make, hring, bind, Except.bind, pure, Except.pure] at h
    cases h
    exact ⟨ring, rfl, rfl⟩

/-- `System.nanoTime()`. -/
def nanoTime (p : TelemetryPipeline) : Int64 × TelemetryPipeline :=
  (p.nanoTimes 0, { p with nanoTimes := fun n => p.nanoTimes (n + 1) })

/-- `offer`. -/
def offer (p : TelemetryPipeline) (frame : WireFrame) : TelemetryPipeline :=
  let p := { p with bytesIn := p.bytesIn + Int64.ofNat WireFrame.SIZE }
  if !frame.crcOk then { p with framesCrcFail := p.framesCrcFail + 1 }
  else
    let p := { p with toSeqTracker := p.toSeqTracker.trackGaps frame }
    let (now, p) := p.nanoTime
    let p := { p with toInterArrival := p.toInterArrival.trackInterArrival now }
    let p := { p with toSensorCounts := p.toSensorCounts.trackSensor frame.sensorType }
    let p := { p with toHopCounts := p.toHopCounts.trackHop frame }
    let p := { p with framesOk := p.framesOk + 1, lastSeq := frame.seq }
    let (now, p) := p.nanoTime
    { p with
      latestByNode := p.latestByNode.insert frame.nodeId
        { nodeId := frame.nodeId, seq := frame.seq, sensorType := frame.sensorType, rawValue := frame.rawValue,
          timestampLo := frame.timestampLo, hopIdx := frame.reserved &&& 0xFF,
          lastHop := frame.flags &&& WireFrame.FLAG_LAST_HOP ≠ 0, updatedAtNs := now }
      ring := p.ring.offer frame }

/-- `poll(0)`: one attempt. -/
def poll (p : TelemetryPipeline) : Option WireFrame × TelemetryPipeline :=
  let (f, ring) := p.ring.poll
  (f, { p with ring := ring })

/-- `ringDrops`. -/
def ringDrops (p : TelemetryPipeline) : Nat := p.ring.drops

/-- `queued`. -/
def queued (p : TelemetryPipeline) : Nat := p.ring.size

/-- `noteTcpResync`. -/
def noteTcpResync (p : TelemetryPipeline) (skippedBytes : Int) : TelemetryPipeline :=
  if skippedBytes > 0 then { p with tcpResync := p.tcpResync + Int64.ofInt skippedBytes } else p

/-- `noteCrcFail`. -/
def noteCrcFail (p : TelemetryPipeline) : TelemetryPipeline := { p with framesCrcFail := p.framesCrcFail + 1 }

/-- `latestNodes`. -/
def latestNodes (p : TelemetryPipeline) : List NodeState := p.latestByNode.entries.map (·.2)

/-- `latestNode`. -/
def latestNode (p : TelemetryPipeline) (nodeId : Int32) : Option NodeState := p.latestByNode.lookup nodeId

end TelemetryPipeline

end ZcMesh.Operator
