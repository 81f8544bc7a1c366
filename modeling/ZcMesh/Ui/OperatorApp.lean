import Mathlib.Data.List.Find
import ZcMesh.Lib.Replica
import ZcMesh.Lib.Search
import ZcMesh.Stats.Partition
import ZcMesh.Zcm.Runtime

/-!
# The table of the operator's window

`operator-node/.../ui/OperatorApp.java`: `tick` and `upsert`. The ticker's thread drains the ring, copies the map of
latest states while the receiver goes on, and posts the copy with `Platform.runLater`; the window's thread puts each
state of it into the table. The map is copied as its iterator gives it: every node that is there at the start, at some
moment of the copy, each once.

* `rows` and `byNode` are a map in the order of insertion (`Displays.upsert`).
* The whole is a table fed by snapshots (`Mirrors.step`), so the results of `Lib/Replica.lean` hold of it: a row never
  goes back (`rows_never_back`), and the table shows the last frames once a tick has come behind them (`rows_settle`).
-/

namespace ZcMesh.Operator

open KeyValue (InOrder)
open Merge (stream)
open Replica (latest)
open Runs (run AllSteps)

/-! ## The code -/

/-- `NodeRow`, the values of its properties. -/
structure NodeRow where
  nodeId : Int32
  seq : Int64
  sensorType : Int32
  rawValue : Int32
  timestampLo : Int64
  hopIdx : Int32
  lastHop : Int32
  deriving DecidableEq, Repr

/-- `new NodeRow(n.nodeId, …)`. -/
def NodeRow.make (n : NodeState) : NodeRow where
  nodeId := n.nodeId
  seq := n.seq
  sensorType := n.sensorType
  rawValue := n.rawValue
  timestampLo := n.timestampLo
  hopIdx := n.hopIdx
  lastHop := if n.lastHop then 1 else 0

/-- The setters that `upsert` calls. -/
def NodeRow.set (row : NodeRow) (n : NodeState) : NodeRow :=
  { row with
    seq := n.seq
    sensorType := n.sensorType
    rawValue := n.rawValue
    timestampLo := n.timestampLo
    hopIdx := n.hopIdx
    lastHop := if n.lastHop then 1 else 0 }

/-- Where `tick` is: between two calls, behind `drainToRecorder`, or inside `latestNodesSnapshot`, with the nodes to
come and the states so far. -/
inductive Ticker
  | idle
  | drained
  | copying (todo : List Int32) (seen : List NodeState)
  deriving DecidableEq

/-- `OperatorApp`. `posted` are the calls of `Platform.runLater` that wait, each with its `nodes`; `byNode` has the
index of the row. -/
structure OperatorApp where
  runtime : OperatorRuntime
  ticker : Ticker := .idle
  posted : List (List NodeState) := []
  rows : List NodeRow := []
  byNode : AList (fun _ : Int32 => Nat) := ∅

/-- What happens: the receiver calls the pipeline, the ticker goes on, or the window runs what was posted. -/
inductive AppAct
  | receive (call : PipelineCall)
  | drain
  | begin
  | read (nodeId : Int32)
  | finish
  | update

namespace OperatorApp

/-- `start`, as far as the table goes. -/
def make (nanoTimes : Nat → Int64) (record : Option (List WriteOutcome)) : Except String OperatorApp := do
  let runtime ← OperatorRuntime.make 8192 nanoTimes record
  return { runtime }

/-- `upsert`. -/
def upsert (app : OperatorApp) (n : NodeState) : OperatorApp :=
  match app.byNode.lookup n.nodeId with
  | none =>
    { app with byNode := app.byNode.insert n.nodeId app.rows.length, rows := app.rows ++ [NodeRow.make n] }
  | some i => { app with rows := app.rows.modify i (·.set n) }

/-- Whether it can happen. -/
def enabled (app : OperatorApp) : AppAct → Bool
  | .receive _ => true
  | .drain => decide (app.ticker = .idle)
  | .begin => decide (app.ticker = .drained)
  | .read nodeId =>
    match app.ticker with
    | .copying _ seen => (app.runtime.pipeline.latestNode nodeId).isSome && !seen.any (·.nodeId == nodeId)
    | _ => false
  | .finish =>
    match app.ticker with
    | .copying todo _ => todo.isEmpty
    | _ => false
  | .update => !app.posted.isEmpty

/-- One act. -/
def step (app : OperatorApp) : AppAct → OperatorApp
  | .receive call =>
    { app with runtime := { app.runtime with pipeline := (app.runtime.pipeline.call call).2 } }
  | .drain =>
    match app.runtime.drainToRecorder 512 with
    | (.ok _, runtime) => { app with runtime, ticker := .drained }
    | (.error _, runtime) => { app with runtime }
  | .begin => { app with ticker := .copying app.runtime.pipeline.latestByNode.keys [] }
  | .read nodeId =>
    match app.ticker, app.runtime.pipeline.latestNode nodeId with
    | .copying todo seen, some n => { app with ticker := .copying (todo.filter (· ≠ nodeId)) (seen ++ [n]) }
    | _, _ => app
  | .finish =>
    match app.ticker with
    | .copying [] seen => { app with ticker := .idle, posted := app.posted ++ [seen] }
    | _ => app
  | .update =>
    match app.posted with
    | [] => app
    | nodes :: posted => nodes.foldl upsert { app with posted }

end OperatorApp

/-! ## The rows as a map -/

/-- The rows are the values of a map, each at the index that `byNode` has. -/
structure Displays (rows : List NodeRow) (byNode : AList (fun _ : Int32 => Nat)) (m : InOrder Int32 NodeRow) :
    Prop where
  rows_eq : rows = m.entries.map (·.2)
  keyed : ∀ e ∈ m.entries, e.2.nodeId = e.1
  index : ∀ nodeId, byNode.lookup nodeId = rows.findIdx? (·.nodeId == nodeId)

namespace Displays

variable {rows : List NodeRow} {byNode : AList (fun _ : Int32 => Nat)} {m : InOrder Int32 NodeRow}

/-- The nodes of the rows are the keys. -/
theorem nodeIds (h : Displays rows byNode m) : rows.map (·.nodeId) = m.entries.map (·.1) := by
  rw [h.rows_eq, List.map_map]
  exact List.map_congr_left h.keyed

/-- The row of a node. -/
theorem find (h : Displays rows byNode m) (nodeId : Int32) : rows.find? (·.nodeId = nodeId) = m.get? nodeId := by
  rw [h.rows_eq, List.find?_map, InOrder.get?]
  congr 1
  apply List.find?_congr
  intro e he
  simp [h.keyed e he]

theorem notMem_of_findIdx (h : Displays rows byNode m) {nodeId : Int32}
    (hnone : rows.findIdx? (·.nodeId == nodeId) = none) : nodeId ∉ m.entries.map (·.1) := by
  rw [← h.nodeIds]
  intro hmem
  obtain ⟨row, hrow, rfl⟩ := List.mem_map.mp hmem
  simpa using List.findIdx?_eq_none_iff.mp hnone row hrow

theorem mem_of_findIdx (h : Displays rows byNode m) {nodeId : Int32} {i : Nat}
    (hsome : rows.findIdx? (·.nodeId == nodeId) = some i) : nodeId ∈ m.entries.map (·.1) := by
  by_contra hnot
  rw [← h.nodeIds] at hnot
  have hnone : rows.findIdx? (·.nodeId == nodeId) = none := by
    refine List.findIdx?_eq_none_iff.mpr fun row hrow => ?_
    rw [beq_eq_false_iff_ne]
    exact fun hid => hnot (List.mem_map.mpr ⟨row, hrow, hid⟩)
  rw [hnone] at hsome
  cases hsome

/-- **`upsert` puts a state into the map.** -/
theorem upsert {app : OperatorApp} (h : Displays app.rows app.byNode m) (n : NodeState) :
    Displays (app.upsert n).rows (app.upsert n).byNode (m.put n.nodeId (NodeRow.make n)) := by
  have hkeyed : ∀ e ∈ (m.put n.nodeId (NodeRow.make n)).entries, e.2.nodeId = e.1 := by
    intro e he
    rcases InOrder.mem_put he with rfl | he
    · rfl
    · exact h.keyed e he
  unfold OperatorApp.upsert
  split
  · rename_i hnone
    have hnew := h.notMem_of_findIdx ((h.index n.nodeId).symm.trans hnone)
    refine { rows_eq := ?_, keyed := hkeyed, index := fun nodeId => ?_ }
    · rw [InOrder.entries_put hnew, List.map_append, ← h.rows_eq]
      rfl
    · show (app.byNode.insert n.nodeId app.rows.length).lookup nodeId = _
      by_cases hid : nodeId = n.nodeId
      · subst hid
        rw [AList.lookup_insert, List.findIdx?_append, ← h.index, hnone]
        simp [List.findIdx?_cons, NodeRow.make]
      · rw [AList.lookup_insert_ne hid, List.findIdx?_append, ← h.index]
        have hother : (NodeRow.make n).nodeId ≠ nodeId := Ne.symm hid
        simp [List.findIdx?_cons, hother]
  · rename_i i hsome
    have hold := (h.index n.nodeId).symm.trans hsome
    have hnodup : (app.rows.map (·.nodeId)).Nodup := h.nodeIds ▸ m.nodup
    have hmodify : app.rows.modify i (·.set n) =
        app.rows.map fun row => if row.nodeId = n.nodeId then row.set n else row := by
      rw [← IndexSearch.modify_findIdx? NodeRow.nodeId n.nodeId (NodeRow.set · n) hnodup, hold]
    have hentries : (m.put n.nodeId (NodeRow.make n)).entries =
        m.entries.map fun e => if e.1 = n.nodeId then (n.nodeId, NodeRow.make n) else e :=
      if_pos (h.mem_of_findIdx hold)
    refine { rows_eq := ?_, keyed := hkeyed, index := fun nodeId => ?_ }
    · show app.rows.modify i (·.set n) = _
      rw [hmodify, hentries, h.rows_eq, List.map_map, List.map_map]
      apply List.map_congr_left
      intro e he
      have hid := h.keyed e he
      by_cases hnode : e.1 = n.nodeId
      · simp [hid, hnode, NodeRow.set, NodeRow.make]
      · simp [hid, hnode]
    · show app.byNode.lookup nodeId = (app.rows.modify i (·.set n)).findIdx? _
      rw [hmodify, List.findIdx?_map, h.index]
      congr 1
      funext row
      simp only [Function.comp_apply]
      split <;> rfl

/-- A whole snapshot. -/
theorem upserts {app : OperatorApp} (h : Displays app.rows app.byNode m) (nodes : List NodeState) :
    Displays (nodes.foldl OperatorApp.upsert app).rows (nodes.foldl OperatorApp.upsert app).byNode
      (m.putAll (nodes.map fun n => (n.nodeId, NodeRow.make n))) := by
  induction nodes generalizing app m with
  | nil => exact h
  | cons n nodes ih => exact ih (h.upsert n)

end Displays

/-- `upsert` touches the table only. -/
theorem upserts_others (app : OperatorApp) (nodes : List NodeState) :
    (nodes.foldl OperatorApp.upsert app).runtime = app.runtime ∧
      (nodes.foldl OperatorApp.upsert app).ticker = app.ticker ∧
      (nodes.foldl OperatorApp.upsert app).posted = app.posted := by
  induction nodes generalizing app with
  | nil => exact ⟨rfl, rfl, rfl⟩
  | cons n nodes ih =>
    obtain ⟨hruntime, hticker, hposted⟩ := ih (app.upsert n)
    have hsame : (app.upsert n).runtime = app.runtime ∧ (app.upsert n).ticker = app.ticker ∧
        (app.upsert n).posted = app.posted := by
      unfold OperatorApp.upsert
      split <;> exact ⟨rfl, rfl, rfl⟩
    exact ⟨hruntime.trans hsame.1, hticker.trans hsame.2.1, hposted.trans hsame.2.2⟩

/-! ## The map of latest states -/

/-- The row of a node behind a frame. -/
def NodeRow.ofFrame (f : WireFrame) : NodeRow where
  nodeId := f.nodeId
  seq := f.seq
  sensorType := f.sensorType
  rawValue := f.rawValue
  timestampLo := f.timestampLo
  hopIdx := f.reserved
  lastHop := if f.lastHop then 1 else 0

/-- What a call does to the map: nothing, or it puts the state of an accepted frame. -/
theorem latestByNode_call (p : TelemetryPipeline) (call : PipelineCall) :
    (accepted call.offered.toList = [] ∧ (p.call call).2.latestByNode = p.latestByNode) ∨
      ∃ f now, accepted call.offered.toList = [f] ∧
        (p.call call).2.latestByNode = p.latestByNode.insert f.nodeId (NodeState.ofFrame f now) := by
  cases call with
  | offer frame =>
    cases hcrc : frame.1.crcOk with
    | false =>
      refine Or.inl ⟨by simp [PipelineCall.offered, accepted, hcrc], ?_⟩
      show (p.offer frame.1).latestByNode = _
      rw [offer_bad p hcrc]
    | true =>
      obtain ⟨-, -, -, -, -, -, now, hlatest⟩ := offer_ok p hcrc
      exact Or.inr ⟨frame.1, now, by simp [PipelineCall.offered, accepted, hcrc], hlatest⟩
  | poll => exact Or.inl ⟨rfl, rfl⟩
  | noteCrcFail => exact Or.inl ⟨rfl, rfl⟩
  | noteTcpResync skippedBytes =>
    refine Or.inl ⟨rfl, ?_⟩
    show (p.noteTcpResync skippedBytes.toInt).latestByNode = _
    unfold TelemetryPipeline.noteTcpResync
    split <;> rfl

theorem latestByNode_make {ringPow2 : Int32} {nanoTimes : Nat → Int64} {record : Option (List WriteOutcome)}
    {rt : OperatorRuntime} (h : OperatorRuntime.make ringPow2 nanoTimes record = .ok rt) :
    rt.pipeline.latestByNode = ∅ := by
  cases hring : FrameRing.make (α := WireFrame) ringPow2.toNatClampNeg with
  | error e =>
    simp only [OperatorRuntime.make, TelemetryPipeline.make, hring, bind, Except.bind] at h
    cases h
  | ok ring =>
    simp only [OperatorRuntime.make, TelemetryPipeline.make, hring, bind, Except.bind, pure, Except.pure] at h
    cases record with
    | none =>
      cases h
      rfl
    | some writes =>
      cases hwriter : ZcmWriter.make writes with
      | error e =>
        simp only [hwriter] at h
        cases h
      | ok recorder =>
        simp only [hwriter] at h
        cases h
        rfl

/-- A drain leaves the map alone. -/
theorem latestByNode_drainLoop (k n : Nat) (rt : OperatorRuntime) :
    (OperatorRuntime.drainLoop k n rt).2.pipeline.latestByNode = rt.pipeline.latestByNode := by
  induction k generalizing n rt with
  | zero => rfl
  | succ k ih =>
    have hpoll : rt.pipeline.poll.2.latestByNode = rt.pipeline.latestByNode := rfl
    rw [OperatorRuntime.drainLoop]
    split
    · rename_i pipeline heq
      rw [heq] at hpoll
      exact hpoll
    · rename_i f pipeline heq
      rw [heq] at hpoll
      split
      · exact (ih _ _).trans hpoll
      · split
        · exact hpoll
        · exact (ih _ _).trans hpoll

/-! ## A table fed by snapshots -/

/-- The frame with a good checksum that the receiver offers, if it does. -/
def AppAct.frames : AppAct → List WireFrame
  | .receive call => accepted call.offered.toList
  | _ => []

/-- What the acts are for the table. -/
def AppAct.replica : AppAct → List (Replica.Act Int32 NodeRow)
  | .receive call => (accepted call.offered.toList).map fun f => .put f.nodeId (NodeRow.ofFrame f)
  | .drain => []
  | .begin => [.begin]
  | .read nodeId => [.read nodeId]
  | .finish => [.finish]
  | .update => [.apply]

/-- A state as an entry of a map. -/
def NodeState.entry (n : NodeState) : Int32 × NodeRow := (n.nodeId, NodeRow.make n)

/-- The pass of the ticker. -/
inductive Copies : Ticker → Option (List Int32 × List (Int32 × NodeRow)) → Prop
  | idle : Copies .idle none
  | drained : Copies .drained none
  | copying {todo todo' : List Int32} {seen : List NodeState} (h : ∀ k, k ∈ todo ↔ k ∈ todo') :
    Copies (.copying todo seen) (some (todo', seen.map NodeState.entry))

/-- The app is a table that snapshots of the pipeline's map feed. -/
structure Mirrors (app : OperatorApp) (r : Replica.State Int32 NodeRow) : Prop where
  source : ∀ nodeId, (app.runtime.pipeline.latestNode nodeId).map NodeRow.make = latest nodeId r.puts
  keyed : ∀ nodeId n, app.runtime.pipeline.latestNode nodeId = some n → n.nodeId = nodeId
  pass : Copies app.ticker r.pass
  posted : app.posted.map (·.map NodeState.entry) = r.posted
  table : Displays app.rows app.byNode r.table

namespace Mirrors

variable {app : OperatorApp} {r : Replica.State Int32 NodeRow}

theorem make {nanoTimes : Nat → Int64} {record : Option (List WriteOutcome)}
    (h : OperatorApp.make nanoTimes record = .ok app) : Mirrors app {} := by
  have hstart : ∃ runtime, app = { runtime } ∧ runtime.pipeline.latestByNode = ∅ := by
    cases hruntime : OperatorRuntime.make 8192 nanoTimes record with
    | error e =>
      simp only [OperatorApp.make, hruntime, bind, Except.bind] at h
      cases h
    | ok runtime =>
      simp only [OperatorApp.make, hruntime, bind, Except.bind, pure, Except.pure] at h
      cases h
      exact ⟨runtime, rfl, latestByNode_make hruntime⟩
  obtain ⟨runtime, rfl, hempty⟩ := hstart
  have hnone : ∀ nodeId, runtime.pipeline.latestNode nodeId = none := by
    intro nodeId
    rw [TelemetryPipeline.latestNode, hempty]
    rfl
  exact
    { source := fun nodeId => by rw [hnone]; rfl
      keyed := fun nodeId n hn => by rw [hnone] at hn; cases hn
      pass := Copies.idle
      posted := rfl
      table := { rows_eq := rfl, keyed := nofun, index := fun _ => rfl } }

/-- The map of latest states is what was put. -/
theorem mem_keys (h : Mirrors app r) (nodeId : Int32) :
    nodeId ∈ app.runtime.pipeline.latestByNode.keys ↔ nodeId ∈ r.puts.map (·.1) := by
  have hsource := h.source nodeId
  rw [← not_iff_not, ← Replica.latest_eq_none, ← hsource, Option.map_eq_none_iff]
  exact AList.lookup_eq_none.symm

/-- An accepted frame is put. -/
theorem receive (h : Mirrors app r) (call : PipelineCall) :
    Mirrors (app.step (.receive call)) (run Replica.step r (AppAct.receive call).replica) := by
  rcases latestByNode_call app.runtime.pipeline call with ⟨hnone, hsame⟩ | ⟨f, now, hsome, hinsert⟩
  · have hlatest : ∀ nodeId, (app.runtime.pipeline.call call).2.latestNode nodeId =
        app.runtime.pipeline.latestNode nodeId := fun nodeId => by rw [TelemetryPipeline.latestNode, hsame]; rfl
    simp only [AppAct.replica, hnone, List.map_nil, Runs.run_nil]
    exact
      { source := fun nodeId => (congrArg _ (hlatest nodeId)).trans (h.source nodeId)
        keyed := fun nodeId n hn => h.keyed nodeId n ((hlatest nodeId).symm.trans hn)
        pass := h.pass
        posted := h.posted
        table := h.table }
  · have hlatest : ∀ nodeId, (app.runtime.pipeline.call call).2.latestNode nodeId =
        if f.nodeId = nodeId then some (NodeState.ofFrame f now) else app.runtime.pipeline.latestNode nodeId := by
      intro nodeId
      rw [TelemetryPipeline.latestNode, hinsert]
      by_cases hid : f.nodeId = nodeId
      · rw [if_pos hid, ← hid, AList.lookup_insert]
      · rw [if_neg hid, AList.lookup_insert_ne (Ne.symm hid)]
        rfl
    simp only [AppAct.replica, hsome, List.map_cons, List.map_nil, Runs.run_cons, Runs.run_nil]
    exact
      { source := by
          intro nodeId
          show ((app.runtime.pipeline.call call).2.latestNode nodeId).map NodeRow.make = latest nodeId (r.puts ++ [_])
          rw [hlatest, Replica.latest_snoc, ← h.source]
          split <;> rfl
        keyed := by
          intro nodeId n hn
          have hn' := (hlatest nodeId).symm.trans hn
          split at hn'
          · rename_i hid
            cases hn'
            exact hid
          · exact h.keyed nodeId n hn'
        pass := h.pass
        posted := h.posted
        table := h.table }

/-- A drain is none of the table's acts. -/
theorem drain (h : Mirrors app r) (hidle : app.ticker = .idle) : Mirrors (app.step .drain) r := by
  have hlatest : ∀ nodeId, (app.runtime.drainToRecorder 512).2.pipeline.latestNode nodeId =
      app.runtime.pipeline.latestNode nodeId := by
    intro nodeId
    rw [TelemetryPipeline.latestNode, OperatorRuntime.drainToRecorder, latestByNode_drainLoop]
    rfl
  have hpass : r.pass = none := by
    have hcopies := h.pass
    rw [hidle] at hcopies
    generalize r.pass = pass at hcopies
    cases hcopies
    rfl
  simp only [OperatorApp.step]
  split
  · rename_i drained runtime heq
    rw [heq] at hlatest
    exact
      { source := fun nodeId => (congrArg _ (hlatest nodeId)).trans (h.source nodeId)
        keyed := fun nodeId n hn => h.keyed nodeId n ((hlatest nodeId).symm.trans hn)
        pass := hpass ▸ Copies.drained
        posted := h.posted
        table := h.table }
  · rename_i message runtime heq
    rw [heq] at hlatest
    exact
      { source := fun nodeId => (congrArg _ (hlatest nodeId)).trans (h.source nodeId)
        keyed := fun nodeId n hn => h.keyed nodeId n ((hlatest nodeId).symm.trans hn)
        pass := h.pass
        posted := h.posted
        table := h.table }

/-- A state that is read is the last one of its node. -/
theorem read (h : Mirrors app r) (nodeId : Int32) :
    Mirrors (app.step (.read nodeId)) (Replica.step r (.read nodeId)) := by
  have hcopies := h.pass
  have hsource := h.source nodeId
  generalize hticker : app.ticker = ticker at hcopies
  generalize hpass : r.pass = pass at hcopies
  cases hcopies with
  | idle | drained =>
    simp only [OperatorApp.step, Replica.step, hticker, hpass]
    exact h
  | @copying todo todo' seen hmem =>
    cases hn : app.runtime.pipeline.latestNode nodeId with
    | none =>
      rw [hn, Option.map_none] at hsource
      simp only [OperatorApp.step, Replica.step, hticker, hpass, hn, ← hsource]
      exact h
    | some n =>
      rw [hn, Option.map_some] at hsource
      have hentry : seen.map NodeState.entry ++ [(nodeId, NodeRow.make n)] = (seen ++ [n]).map NodeState.entry := by
        simp [NodeState.entry, h.keyed nodeId n hn]
      simp only [OperatorApp.step, Replica.step, hticker, hpass, hn, ← hsource, hentry]
      exact
        { source := h.source
          keyed := h.keyed
          pass := Copies.copying fun k => by simp [hmem]
          posted := h.posted
          table := h.table }

/-- What has been read is posted. -/
theorem finish (h : Mirrors app r) : Mirrors (app.step .finish) (Replica.step r .finish) := by
  have hcopies := h.pass
  generalize hticker : app.ticker = ticker at hcopies
  generalize hpass : r.pass = pass at hcopies
  cases hcopies with
  | idle | drained =>
    simp only [OperatorApp.step, Replica.step, hticker, hpass]
    exact h
  | @copying todo todo' seen hmem =>
    cases todo with
    | nil =>
      obtain rfl : todo' = [] := List.eq_nil_iff_forall_not_mem.mpr fun k hk => List.not_mem_nil ((hmem k).mpr hk)
      simp only [OperatorApp.step, Replica.step, hticker, hpass]
      exact
        { source := h.source
          keyed := h.keyed
          pass := Copies.idle
          posted := by rw [List.map_append, h.posted]; rfl
          table := h.table }
    | cons k todo =>
      obtain ⟨k', rest, rfl⟩ := List.exists_cons_of_ne_nil (List.ne_nil_of_mem ((hmem k).mp List.mem_cons_self))
      simp only [OperatorApp.step, Replica.step, hticker, hpass]
      exact h

/-- What was posted is shown. -/
theorem update (h : Mirrors app r) : Mirrors (app.step .update) (Replica.step r .apply) := by
  have hposted := h.posted
  cases hcons : app.posted with
  | nil =>
    rw [hcons] at hposted
    simp only [OperatorApp.step, Replica.step, hcons, ← hposted, List.map_nil]
    exact h
  | cons nodes posted =>
    rw [hcons] at hposted
    simp only [OperatorApp.step, Replica.step, hcons, ← hposted, List.map_cons]
    obtain ⟨hruntime, hticker, hrest⟩ := upserts_others { app with posted } nodes
    have hshown : Displays { app with posted }.rows { app with posted }.byNode r.table := h.table
    exact
      { source := by rw [hruntime]; exact h.source
        keyed := by rw [hruntime]; exact h.keyed
        pass := by rw [hticker]; exact h.pass
        posted := by rw [hrest]
        table := hshown.upserts nodes }

/-- **Every act of the app is one of the table, or none.** -/
theorem step (h : Mirrors app r) {act : AppAct} (henabled : app.enabled act = true) :
    Mirrors (app.step act) (run Replica.step r act.replica) := by
  cases act with
  | receive call => exact h.receive call
  | drain => exact h.drain (of_decide_eq_true henabled)
  | begin =>
    exact
      { source := h.source
        keyed := h.keyed
        pass := Copies.copying h.mem_keys
        posted := h.posted
        table := h.table }
  | read nodeId => exact h.read nodeId
  | finish => exact h.finish
  | update => exact h.update

end Mirrors

/-! ## What the table shows -/

/-- The frames of a node with a good checksum. -/
def framesOf (nodeId : Int32) (acts : List AppAct) : List WireFrame :=
  (acts.flatMap AppAct.frames).filter (·.nodeId = nodeId)

/-- What is put are the rows of the frames. -/
theorem puts_replica (acts : List AppAct) : (acts.flatMap AppAct.replica).flatMap Replica.Act.puts =
    (acts.flatMap AppAct.frames).map fun f => (f.nodeId, NodeRow.ofFrame f) := by
  rw [List.flatMap_assoc, List.map_flatMap]
  apply List.flatMap_congr
  intro act _
  cases act with
  | receive call =>
    rw [AppAct.replica, List.flatMap_map]
    exact List.map_eq_flatMap.symm
  | _ => rfl

section Runs

variable {app : OperatorApp} {nanoTimes : Nat → Int64} {record : Option (List WriteOutcome)}

/-- A run of the app is one of a table fed by snapshots. -/
theorem mirrors_run (hmake : OperatorApp.make nanoTimes record = .ok app) {acts : List AppAct}
    (hrun : AllSteps OperatorApp.step (fun app act => app.enabled act = true) app acts) :
    Mirrors (run OperatorApp.step app acts) (run Replica.step {} (acts.flatMap AppAct.replica)) :=
  Runs.run_sim (fun _ _ _ h henabled => h.step henabled) hrun (Mirrors.make hmake)

/-- The log of a node in such a run. -/
theorem stream_puts (nodeId : Int32) (acts : List AppAct) :
    stream nodeId (run Replica.step {} (acts.flatMap AppAct.replica)).puts =
      (framesOf nodeId acts).map NodeRow.ofFrame := by
  rw [Replica.puts_run, puts_replica, List.nil_append, stream, framesOf, List.filter_map, List.map_map]
  rfl

/-- A row that shows one of the frames of its node. -/
theorem row_of_stream {nodeId : Int32} {acts : List AppAct} {i : Nat} {row : NodeRow}
    (h : (stream nodeId (run Replica.step {} (acts.flatMap AppAct.replica)).puts)[i]? = some row) :
    ∃ f, (framesOf nodeId acts)[i]? = some f ∧ row = NodeRow.ofFrame f := by
  rw [stream_puts, List.getElem?_map, Option.map_eq_some_iff] at h
  obtain ⟨f, hf, rfl⟩ := h
  exact ⟨f, hf, rfl⟩

/-- **A row never goes back.** In every run each node has one row, at the place where it first came in. Each row shows
one of the frames of its node, and at any later time that frame or one that was offered behind it. -/
theorem rows_never_back (hmake : OperatorApp.make nanoTimes record = .ok app) {acts more : List AppAct}
    (hrun : AllSteps OperatorApp.step (fun app act => app.enabled act = true) app (acts ++ more)) :
    let s := run OperatorApp.step app acts
    let t := run OperatorApp.step app (acts ++ more)
    (t.rows.map (·.nodeId)).Nodup ∧ s.rows.map (·.nodeId) <+: t.rows.map (·.nodeId) ∧
      ∀ row ∈ s.rows, ∃ (i j : Nat) (f g : WireFrame), i ≤ j ∧
        (framesOf row.nodeId acts)[i]? = some f ∧ row = NodeRow.ofFrame f ∧
        (framesOf row.nodeId (acts ++ more))[j]? = some g ∧ NodeRow.ofFrame g ∈ t.rows := by
  intro s t
  have hs := mirrors_run hmake (Runs.allSteps_append.mp hrun).1
  have ht := mirrors_run hmake hrun
  have happend : run Replica.step {} ((acts ++ more).flatMap AppAct.replica) =
      run Replica.step (run Replica.step {} (acts.flatMap AppAct.replica)) (more.flatMap AppAct.replica) := by
    rw [List.flatMap_append, Runs.run_append]
  refine ⟨?_, ?_, ?_⟩
  · rw [ht.table.nodeIds]
    exact InOrder.nodup _
  · rw [hs.table.nodeIds, ht.table.nodeIds, happend]
    exact Replica.keys_run _ _
  · intro row hrow
    have hget : (run Replica.step {} (acts.flatMap AppAct.replica)).table.get? row.nodeId = some row := by
      rw [hs.table.rows_eq] at hrow
      obtain ⟨e, he, rfl⟩ := List.mem_map.mp hrow
      rw [hs.table.keyed e he]
      exact InOrder.get?_of_mem he
    have hinv : Replica.Inv (fun _ => 0) (run Replica.step {} (acts.flatMap AppAct.replica)) :=
      Runs.run_inv (fun r a h => h.step a) (acts.flatMap AppAct.replica) ({} : Replica.State Int32 NodeRow)
        Replica.inv_start
    obtain ⟨i, j, row', hij, hi, hget', hj⟩ := Replica.never_back hinv hget (more.flatMap AppAct.replica)
    rw [← happend] at hget' hj
    obtain ⟨f, hf, hrowf⟩ := row_of_stream hi
    obtain ⟨g, hg, rfl⟩ := row_of_stream hj
    refine ⟨i, j, f, g, hij, hf, hrowf, hg, ?_⟩
    rw [← ht.table.find] at hget'
    exact List.mem_of_find?_eq_some hget'

/-- A frame behind the tick that showed the first one. -/
theorem rows_never_back_shown :
    let frame := DecodedFrame.ofSample goldenSample
    let acts : List AppAct :=
      [.receive (.offer frame), .drain, .begin, .read frame.1.nodeId, .finish, .update] ++ [.receive (.offer frame)]
    ∃ app, OperatorApp.make (fun _ => 0) none = .ok app ∧
      ∃ (j : Nat) (g : WireFrame), (framesOf frame.1.nodeId acts)[j]? = some g ∧
        NodeRow.ofFrame g ∈ (run OperatorApp.step app acts).rows := by
  intro frame acts
  obtain ⟨app, hmake⟩ : ∃ app, OperatorApp.make (fun _ => 0) none = .ok app := ⟨_, rfl⟩
  have hrun : AllSteps OperatorApp.step (fun app act => app.enabled act = true) app acts := by
    cases hmake
    decide +kernel
  have hrow : NodeRow.ofFrame frame.1 ∈ (run OperatorApp.step app
      [.receive (.offer frame), .drain, .begin, .read frame.1.nodeId, .finish, .update]).rows := by
    cases hmake
    decide +kernel
  obtain ⟨-, -, hrows⟩ := rows_never_back hmake hrun
  obtain ⟨-, j, -, g, -, -, -, hg, hmem⟩ := hrows _ hrow
  exact ⟨app, hmake, j, g, hg, hmem⟩

/-- A copy is over when it can end. -/
theorem Mirrors.over {r : Replica.State Int32 NodeRow} (h : Mirrors app r) (henabled : app.enabled .finish = true) :
    ∃ seen, r.pass = some ([], seen) := by
  have hcopies := h.pass
  unfold OperatorApp.enabled at henabled
  generalize app.ticker = ticker at hcopies henabled
  generalize r.pass = pass at hcopies
  cases hcopies with
  | idle | drained => cases henabled
  | @copying todo todo' seen hmem =>
    obtain rfl : todo = [] := List.isEmpty_iff.mp henabled
    obtain rfl : todo' = [] := List.eq_nil_iff_forall_not_mem.mpr fun k hk => List.not_mem_nil ((hmem k).mpr hk)
    exact ⟨_, rfl⟩

/-- **The table settles.** Once a tick has copied the states behind the last frame and all that was posted has run, the
table shows the last frame of every node, and has no other rows. -/
theorem rows_settle (hmake : OperatorApp.make nanoTimes record = .ok app) {before during after : List AppAct}
    (hrun : AllSteps OperatorApp.step (fun app act => app.enabled act = true) app
      (before ++ .begin :: during ++ .finish :: after))
    (hquiet : (during ++ after).flatMap AppAct.frames = [])
    (hshown : (run OperatorApp.step app (before ++ .begin :: during ++ .finish :: after)).posted = [])
    (nodeId : Int32) :
    (run OperatorApp.step app (before ++ .begin :: during ++ .finish :: after)).rows.find? (·.nodeId = nodeId) =
      (framesOf nodeId before).getLast?.map NodeRow.ofFrame := by
  have hend := mirrors_run hmake hrun
  obtain ⟨hcopied, hfinish, -⟩ := Runs.allSteps_append.mp hrun
  obtain ⟨seen, hover⟩ := (mirrors_run hmake hcopied).over hfinish
  have hacts : (before ++ .begin :: during ++ .finish :: after).flatMap AppAct.replica =
      before.flatMap AppAct.replica ++ .begin :: during.flatMap AppAct.replica ++
        .finish :: after.flatMap AppAct.replica := by
    simp [AppAct.replica]
  have hcopy : (before ++ .begin :: during).flatMap AppAct.replica =
      before.flatMap AppAct.replica ++ .begin :: during.flatMap AppAct.replica := by
    simp [AppAct.replica]
  have hputs : (during.flatMap AppAct.replica ++ after.flatMap AppAct.replica).flatMap Replica.Act.puts = [] := by
    rw [← List.flatMap_append, puts_replica, hquiet]
    rfl
  have hframes : framesOf nodeId (before ++ .begin :: during ++ .finish :: after) = framesOf nodeId before := by
    have hall : (before ++ .begin :: during ++ .finish :: after).flatMap AppAct.frames =
        before.flatMap AppAct.frames ++ (during ++ after).flatMap AppAct.frames := by
      simp [AppAct.frames]
    rw [framesOf, framesOf, hall, hquiet, List.append_nil]
  have hempty : (run Replica.step {} ((before ++ .begin :: during ++ .finish :: after).flatMap AppAct.replica)).posted =
      [] := by
    rw [← hend.posted, hshown]
    rfl
  rw [hcopy] at hover
  rw [hacts] at hempty
  have hconverges := Replica.converges (Replica.inv_start (κ := Int32) (ν := NodeRow)) hputs hover hempty nodeId
  rw [← hacts] at hconverges
  rw [hend.table.find, hconverges, latest, stream_puts, hframes, List.getLast?_map]

/-- A frame and a tick. -/
theorem rows_settle_one :
    ∃ app, OperatorApp.make (fun _ => 0) none = .ok app ∧
      let frame := DecodedFrame.ofSample goldenSample
      (run OperatorApp.step app ([.receive (.offer frame), .drain] ++ .begin :: [.read frame.1.nodeId] ++
        .finish :: [.update])).rows.find? (·.nodeId = frame.1.nodeId) = some (NodeRow.ofFrame frame.1) := by
  obtain ⟨app, hmake⟩ : ∃ app, OperatorApp.make (fun _ => 0) none = .ok app := ⟨_, rfl⟩
  refine ⟨app, hmake, ?_⟩
  intro frame
  refine (rows_settle hmake ?_ rfl ?_ frame.1.nodeId).trans ?_
  · cases hmake
    decide +kernel
  · cases hmake
    decide +kernel
  · decide +kernel

end Runs

end ZcMesh.Operator
