import ZcMesh.Edge.Delivery
import ZcMesh.Mesh.Hop
import ZcMesh.Stream.KeyOrder

/-!
# From the edges to the operator

Edges in transport `auto`, `udp` or `mesh`, hops between them and the operator, and one `FrameReceiver`. The network may
cut connections, lose and reorder datagrams, but brings nothing twice (`Network`).

* What a hop sends on says the same as what it got (`relay_reading`).
* Over all edges, what the connections and the datagrams carry is a part of what was pushed (`carried_subperm`).
* So every sample pushed is offered at most once, as it was, and nothing else is: `end_to_end`.
-/

namespace ZcMesh

open Blocks (Framed cut)
open Runs (run)

namespace Core

/-- What a frame says about its sample; no hop changes that. -/
def WireFrame.reading (f : WireFrame) : UInt16 × UInt32 × UInt32 × UInt8 × Int32 :=
  (f.nodeId, f.seq, f.timestampLo, f.sensorType, f.rawValue)

section Readings

variable {cs fs : List WireFrame} (hsame : cs.map (·.reading) = fs.map (·.reading))
include hsame

/-- Frames that say the same agree on all of it. -/
theorem map_readings {β : Type} (g : UInt16 × UInt32 × UInt32 × UInt8 × Int32 → β) :
    cs.map (fun f => g f.reading) = fs.map fun f => g f.reading := by
  have h := congrArg (List.map g) hsame
  rwa [List.map_map, List.map_map] at h

theorem nodeId_of_readings {node : UInt16} (hfs : ∀ f ∈ fs, f.nodeId = node) : ∀ c ∈ cs, c.nodeId = node := by
  intro c hc
  have hmem := List.mem_map_of_mem (f := fun f : WireFrame => f.reading.1) hc
  rw [map_readings hsame (·.1)] at hmem
  obtain ⟨f, hf, heq⟩ := List.mem_map.mp hmem
  exact heq.symm.trans (hfs f hf)

end Readings

/-! ## The hops -/

theorem Stamped.reading {k : Nat} {final : Bool} {f g : WireFrame} (h : Stamped k final f g) :
    g.reading = f.reading := by
  simp only [WireFrame.reading, h.nodeId, h.seq, h.timestampLo, h.sensorType, h.rawValue]

theorem Stamped.readings {k : Nat} {final : Bool} {fs gs : List WireFrame}
    (h : List.Forall₂ (Stamped k final) fs gs) : fs.map (·.reading) = gs.map (·.reading) := by
  induction h with
  | nil => rfl
  | cons hone _ ih => rw [List.map_cons, List.map_cons, ih, hone.reading]

namespace Hop

theorem reading_applyHopStamp (f : WireFrame) (final : Bool) : (applyHopStamp f final).reading = f.reading :=
  (Stamped.one f final).reading

/-- A hop sends on a verified frame, stamped, or nothing. -/
theorem left_receive (p : Hop) (f : WireFrame) : left p (p.receive (some f.bytes)) = [] ∨
    (verifyFrame f = true ∧ left p (p.receive (some f.bytes)) = [(applyHopStamp f p.finalHop).bytes]) := by
  have hlen : wireFrameSize ≤ f.bytes.length := Nat.le_of_eq (WireFrame.length_bytes f).symm
  have hfront : f.bytes.take wireFrameSize = f.bytes := rfl
  have hbuf : (f.bytes.take bufSize).take wireFrameSize = f.bytes := rfl
  by_cases hsend : p.out.outcomes.headD false = true
  · rw [receive_spec hlen hsend, hfront, WireFrame.ofBytes_bytes]
    split
    · rename_i hpass
      exact Or.inr ⟨hpass.1, rfl⟩
    · exact Or.inl rfl
  · refine Or.inl ?_
    have hfail : p.out.outcomes.headD false = false := Bool.eq_false_iff.mpr hsend
    simp only [receive, Option.map_some, hbuf, UdpSocket.sendTo, hfail, Bool.false_eq_true, if_false]
    split
    · simp [left]
    · split
      · simp [left]
      · split <;> simp [left]

/-- **What comes out of a chain says the same as what went in**, and verifies. -/
theorem relay_reading {hops : List Hop} {f : WireFrame} (hv : verifyFrame f = true) {a : List UInt8}
    (h : relay hops [f.bytes] = [a]) : ∃ g : WireFrame, a = g.bytes ∧ verifyFrame g = true ∧ g.reading = f.reading := by
  induction hops generalizing f with
  | nil =>
    obtain rfl : f.bytes = a := by simpa [relay] using h
    exact ⟨f, rfl, hv, rfl⟩
  | cons p hops ih =>
    have hone : run receive p ([f.bytes].map some) = p.receive (some f.bytes) := rfl
    rw [relay, hone] at h
    rcases left_receive p f with hnone | ⟨_, hstamped⟩
    · rw [hnone, relay_nil] at h
      cases h
    · rw [hstamped] at h
      obtain ⟨g, ha, hg, hreading⟩ := ih (verifyFrame_applyHopStamp hv p.finalHop) h
      exact ⟨g, ha, hg, hreading.trans (reading_applyHopStamp f _)⟩

end Hop

/-! ## The edges -/

/-- A run of an edge, from what it is started with and what comes from outside. -/
structure EdgeRun where
  cfg : Config
  connects : List Bool
  sends : List SendOutcome
  outcomes : List Bool
  clock : Nat → UInt64
  ticks : List Tick

/-- The state that a run of an edge has got to. -/
def EdgeRun.edge (r : EdgeRun) : Edge :=
  run (Edge.step r.cfg) (Edge.start r.cfg r.connects r.sends r.outcomes r.clock) r.ticks

namespace EdgeRun

variable {r : EdgeRun}

theorem carried (r : EdgeRun) (htransport : r.cfg.transport ≠ .tcp) : ∃ log, r.edge.Carried r.cfg False log :=
  Edge.carried_run r.cfg htransport r.connects r.sends r.outcomes r.clock r.ticks

theorem packed {f : WireFrame} (h : f ∈ r.edge.pushed) : Edge.Packed r.cfg f :=
  Edge.packed_run r.cfg r.connects r.sends r.outcomes r.clock r.ticks f h

theorem verify_pushed {f : WireFrame} (h : f ∈ r.edge.pushed) : verifyFrame f = true := (packed h).verify

/-- What has left the batch, path by path, and what waits in it are the frames pushed. -/
theorem perm_pushed {served : Prop} {log : List (Way × WireFrame)} (h : r.edge.Carried r.cfg served log) :
    (Merge.stream .tcp log ++ Merge.stream .udp log ++ r.edge.link.batch.frames).Perm r.edge.pushed := by
  have hlog : log.Perm ([Way.tcp, Way.udp].flatMap fun way => (Merge.stream way log).map (way, ·)) := by
    apply Merge.perm_flatMap_stream (by decide)
    rintro ⟨way, f⟩ _
    cases way <;> simp
  have hall : (log.map (·.2)).Perm (Merge.stream .tcp log ++ Merge.stream .udp log) := by
    simpa [Function.comp_def] using hlog.map (·.2)
  rw [← h.pushed]
  exact hall.symm.append_right _

/-- Together the paths and the batch carry a part of what was pushed. -/
theorem carried_subperm (htransport : r.cfg.transport ≠ .tcp) :
    (r.edge.link.tcp.streams.flatMap (cut wireFrameSize) ++ delivered r.edge.link.udp.sent ++
      r.edge.link.batch.frames.map WireFrame.bytes).Subperm (r.edge.pushed.map WireFrame.bytes) := by
  obtain ⟨log, h⟩ := r.carried htransport
  refine List.Subperm.trans ?_ ((perm_pushed h).map WireFrame.bytes).subperm
  rw [h.tcp, List.map_append, List.map_append]
  exact ((List.Subperm.refl _).append h.udp.part.subperm).append (List.Subperm.refl _)

/-- A datagram that went out is the bytes of a frame pushed. -/
theorem mem_delivered (htransport : r.cfg.transport ≠ .tcp) {data : List UInt8}
    (h : data ∈ delivered r.edge.link.udp.sent) : ∃ f ∈ r.edge.pushed, data = f.bytes := by
  have hmem := (carried_subperm htransport).subset (List.mem_append_left _ (List.mem_append_right _ h))
  obtain ⟨f, hf, rfl⟩ := List.mem_map.mp hmem
  exact ⟨f, hf, rfl⟩

end EdgeRun

end Core

open Core (EdgeRun WireFrame wireFrameSize verifyFrame delivered Hop)
open Operator (FrameReceiver TelemetryPipeline Path frameOf)
open Operator.FrameReceiver (Received tally received_run)
open WindowScan (scan)

/-! ## The network -/

/-- A datagram that was sent arrives as it is, or as a chain of hops sends it on. -/
def Arrives (sent arrived : List UInt8) : Prop := ∃ hops, Hop.relay hops [sent] = [arrived]

/-- What the network has brought to the receiver: of a connection of an edge the front of its stream, and datagrams that
were sent, in any order; nothing twice. -/
structure Network (runs : List EdgeRun) (s : FrameReceiver) : Prop where
  streams : ∃ sent, sent.Subperm (runs.flatMap (·.edge.link.tcp.streams)) ∧ List.Forall₂ (· <+: ·) s.streams sent
  datagrams : ∃ sent, sent.Subperm (runs.flatMap fun r => delivered r.edge.link.udp.sent) ∧
    List.Forall₂ Arrives sent s.datagrams

/-- What arrives is a frame that says what the frame sent says. -/
theorem Arrives.reading {f : WireFrame} (hv : verifyFrame f = true) {a : List UInt8} (h : Arrives f.bytes a) :
    a.length = wireFrameSize ∧ verifyFrame (.ofBytes a) = true ∧ (WireFrame.ofBytes a).reading = f.reading := by
  obtain ⟨hops, hrelay⟩ := h
  obtain ⟨g, rfl, hg, hreading⟩ := Hop.relay_reading hv hrelay
  rw [WireFrame.ofBytes_bytes]
  exact ⟨WireFrame.length_bytes g, hg, hreading⟩

/-- Together the datagrams that arrive say what the frames sent say. -/
theorem forall₂_arrives {sent arrived : List (List UInt8)} (h : List.Forall₂ Arrives sent arrived)
    (hsent : ∀ data ∈ sent, ∃ f : WireFrame, verifyFrame f = true ∧ data = f.bytes) :
    (∀ d ∈ arrived, d.length = wireFrameSize ∧ verifyFrame (.ofBytes d) = true) ∧
      arrived.map (fun d => (WireFrame.ofBytes d).reading) = sent.map fun data => (WireFrame.ofBytes data).reading := by
  induction h with
  | nil => exact ⟨nofun, rfl⟩
  | @cons data d sent arrived harrive _ ih =>
    obtain ⟨f, hv, rfl⟩ := hsent data List.mem_cons_self
    obtain ⟨hlen, hverify, hreading⟩ := harrive.reading hv
    obtain ⟨hgood, hrest⟩ := ih fun data hdata => hsent data (List.mem_cons_of_mem _ hdata)
    refine ⟨?_, ?_⟩
    · intro x hx
      rcases List.mem_cons.mp hx with rfl | hx
      · exact ⟨hlen, hverify⟩
      · exact hgood x hx
    · rw [List.map_cons, List.map_cons, hreading, hrest, WireFrame.ofBytes_bytes]

/-- What the receiver has offered, connection by connection and then the datagrams. -/
theorem Operator.FrameReceiver.Received.perm {p₀ : TelemetryPipeline} {s : FrameReceiver}
    {log : List (Path × List UInt8)} {lost : Nat} (h : Received p₀ s log lost) :
    (log.map (·.2)).Perm (s.streams.flatMap (fun bytes => (scan frameSpec bytes).frames) ++
      s.datagrams.flatMap fun d => cut 24 (d.take 65536)) := by
  let paths : List Path := (List.range s.streams.length).map Path.tcp ++ [Path.udp]
  have hnodup : paths.Nodup := by
    refine List.nodup_append.mpr ⟨?_, List.nodup_singleton _, ?_⟩
    · exact List.nodup_range.map fun i j hij => Path.tcp.inj hij
    · rintro path hpath _ hudp rfl
      obtain ⟨i, _, hi⟩ := List.mem_map.mp hpath
      rw [← hi] at hudp
      cases List.mem_singleton.mp hudp
  have hcover : ∀ e ∈ log, e.1 ∈ paths := by
    rintro ⟨path, w⟩ he
    cases path with
    | udp => exact List.mem_append_right _ (List.mem_singleton.mpr rfl)
    | tcp i =>
      have hmem := Merge.mem_stream.mpr he
      by_contra hout
      have hi : s.streams.length ≤ i := by simpa [paths] using hout
      rw [h.tcp, List.getD_eq_getElem?_getD, List.getElem?_eq_none hi, Option.getD_none,
        Operator.FrameReceiver.scan_nil] at hmem
      cases hmem
  have hstreams : (List.range s.streams.length).map (s.streams.getD · []) = s.streams := by
    apply List.ext_getElem (by simp)
    intro i hi hi'
    simp [List.getD_eq_getElem?_getD, List.getElem?_eq_getElem hi']
  have hperm := (Merge.perm_flatMap_stream hnodup hcover).map (·.2)
  rw [List.map_flatMap, List.flatMap_append, List.flatMap_map, List.flatMap_singleton] at hperm
  simp only [List.map_map, Function.comp_def, List.map_id', h.tcp, h.udp] at hperm
  conv_rhs => rw [← hstreams, List.flatMap_map]
  exact hperm

/-- Frames that all verify are all counted. -/
theorem Operator.FrameReceiver.Received.framesOk {n : Nat} {nanoTimes : Nat → Int64} {p₀ : TelemetryPipeline}
    (hmake : TelemetryPipeline.make n nanoTimes = .ok p₀) {s : FrameReceiver} {log : List (Path × List UInt8)}
    {lost : Nat} (h : Received p₀ s log lost) (hv : ∀ w ∈ log.map (·.2), verifyFrame (.ofBytes w) = true) :
    s.pipeline.framesOk.toUInt64 = UInt64.ofNat log.length := by
  have harrived : ∀ f ∈ (log.map (·.2)).map WireFrame.ofBytes, verifyFrame f = true := by
    intro f hf
    obtain ⟨w, hw, rfl⟩ := List.mem_map.mp hf
    exact hv w hw
  have hall : Operator.FrameReceiver.verified log = (log.map (·.2)).map .ofBytes :=
    List.filter_eq_self.mpr harrived
  have hstat := congrArg (·.framesOk) h.statistics
  rw [hall] at hstat
  rw [show s.pipeline.framesOk = _ from hstat]
  have hcount := Core.ZcmAnalyze.ok_run {} ((log.map (·.2)).map WireFrame.ofBytes)
  rw [← (sim_run (sim_make hmake) _ harrived).ok, List.length_map, List.length_map] at hcount
  exact hcount.trans (UInt64.zero_add _)

section Network

variable {runs : List EdgeRun} {s : FrameReceiver} {p₀ : TelemetryPipeline} {log : List (Path × List UInt8)}
  {lost : Nat}

/-- The frames that the edges have pushed. -/
def pushed (runs : List EdgeRun) : List WireFrame := runs.flatMap (·.edge.pushed)

/-- The frames that wait in the batches of the edges. -/
def waiting (runs : List EdgeRun) : List WireFrame := runs.flatMap (·.edge.link.batch.frames)

theorem verify_pushed {f : WireFrame} (h : f ∈ pushed runs) : verifyFrame f = true := by
  obtain ⟨r, _, hf⟩ := List.mem_flatMap.mp h
  exact EdgeRun.verify_pushed hf

variable (hruns : ∀ r ∈ runs, r.cfg.transport ≠ .tcp)
include hruns

/-- Together all paths and batches carry a part of what was pushed. -/
theorem carried_subperm : ((runs.flatMap (·.edge.link.tcp.streams)).flatMap (cut wireFrameSize) ++
    (runs.flatMap fun r => delivered r.edge.link.udp.sent) ++ (waiting runs).map WireFrame.bytes).Subperm
      ((pushed runs).map WireFrame.bytes) := by
  rw [List.flatMap_assoc, waiting, pushed, List.map_flatMap, List.map_flatMap]
  refine ((List.flatMap_append_perm runs _ _).append_right _).subperm.trans ?_
  refine (List.flatMap_append_perm runs _ _).subperm.trans ?_
  exact Merge.subperm_flatMap_right fun r hr => EdgeRun.carried_subperm (hruns r hr)

variable (hnet : Network runs s)
include hnet

/-- What the receiver reads from a connection is framed. -/
theorem Network.framed : ∀ bytes ∈ s.streams, Framed WireFrame.bytes (pushed runs) bytes := by
  obtain ⟨sent, hsent, hprefix⟩ := hnet.streams
  intro bytes hbytes
  obtain ⟨i, hi, rfl⟩ := List.getElem_of_mem hbytes
  have hi' : i < sent.length := hprefix.length_eq ▸ hi
  have hmem : sent[i] ∈ runs.flatMap (·.edge.link.tcp.streams) := hsent.subset (List.getElem_mem hi')
  obtain ⟨r, hr, hstream⟩ := List.mem_flatMap.mp hmem
  obtain ⟨edgeLog, h⟩ := r.carried (hruns r hr)
  have hframed := (h.aligned.streams _ hstream).mono fun f hf =>
    show f ∈ pushed runs from List.mem_flatMap.mpr ⟨r, hr, hf⟩
  exact hframed.of_prefix WireFrame.length_bytes (by decide) ((List.forall₂_iff_get.mp hprefix).2 i hi hi')

/-- What was offered is part of what was pushed and does not wait; nothing was rejected or passed. -/
theorem Network.offered (h : Received p₀ s log lost) :
    (∀ w ∈ log.map (·.2), verifyFrame (.ofBytes w) = true) ∧
    (((log.map (·.2)).map fun w => (WireFrame.ofBytes w).reading) ++ (waiting runs).map (·.reading)).Subperm
      ((pushed runs).map (·.reading)) ∧
    log.length = (s.streams.map fun bytes => bytes.length / wireFrameSize).sum + s.datagrams.length ∧
    tally (·.rejected) s.streams = 0 ∧ tally (·.skipped) s.streams = 0 := by
  have hscan : ∀ bytes ∈ s.streams, (scan frameSpec bytes).frames = cut wireFrameSize bytes ∧
      (scan frameSpec bytes).rejected = 0 ∧ (scan frameSpec bytes).skipped = 0 :=
    fun bytes hbytes => scan_framed (fun _ => verify_pushed) (hnet.framed hruns bytes hbytes)
  obtain ⟨sent, hsent, harrives⟩ := hnet.datagrams
  obtain ⟨streams, hstreams, hprefix⟩ := hnet.streams
  obtain ⟨hgood, hsame⟩ := forall₂_arrives harrives fun data hdata => by
    obtain ⟨r, hr, hmem⟩ := List.mem_flatMap.mp (hsent.subset hdata)
    obtain ⟨f, hf, rfl⟩ := EdgeRun.mem_delivered (hruns r hr) hmem
    exact ⟨f, EdgeRun.verify_pushed hf, rfl⟩
  -- the windows are the whole frames of the connections and the datagrams
  have hperm := h.perm
  rw [List.flatMap_congr fun bytes hbytes => (hscan bytes hbytes).1] at hperm
  have hblocks : s.datagrams.flatMap (fun d => cut 24 (d.take 65536)) = s.datagrams := by
    conv_rhs => rw [← List.flatMap_singleton' s.datagrams]
    apply List.flatMap_congr
    intro d hd
    have hlen : d.length = 24 := (hgood d hd).1
    rw [List.take_of_length_le (by omega), Blocks.cut_self (by decide) hlen]
  rw [hblocks] at hperm
  have hcut : (s.streams.flatMap (cut wireFrameSize)).Subperm
      ((runs.flatMap (·.edge.link.tcp.streams)).flatMap (cut wireFrameSize)) := by
    refine List.Subperm.trans ?_ (Merge.subperm_flatMap _ hstreams)
    apply List.Sublist.subperm
    clear hstreams hscan hperm h
    generalize s.streams = received at hprefix
    induction hprefix with
    | nil => exact List.Sublist.refl _
    | cons hfront _ ih => exact (Blocks.cut_mono hfront).sublist.append ih
  have hall : (s.streams.flatMap (cut wireFrameSize) ++ sent ++ (waiting runs).map WireFrame.bytes).Subperm
      ((pushed runs).map WireFrame.bytes) :=
    ((hcut.append hsent).append (List.Subperm.refl _)).trans (carried_subperm hruns)
  have hreadings : (log.map (·.2)).map (fun w => (WireFrame.ofBytes w).reading) |>.Perm
      ((s.streams.flatMap (cut wireFrameSize) ++ sent).map fun w => (WireFrame.ofBytes w).reading) := by
    refine (hperm.map _).trans ?_
    rw [List.map_append, List.map_append, hsame]
  refine ⟨?_, ?_, ?_, ?_, ?_⟩
  · intro w hw
    rcases List.mem_append.mp (hperm.mem_iff.mp hw) with hw | hw
    · obtain ⟨f, hf, rfl⟩ := List.mem_map.mp (hall.subset (List.mem_append_left _ (List.mem_append_left _ hw)))
      rw [WireFrame.ofBytes_bytes]
      exact verify_pushed hf
    · exact (hgood w hw).2
  · have hpart := Merge.subperm_map (fun w => (WireFrame.ofBytes w).reading) hall
    rw [List.map_append, List.map_map (l := waiting runs), List.map_map (l := pushed runs)] at hpart
    simp only [Function.comp_def, WireFrame.ofBytes_bytes] at hpart
    exact (hreadings.append_right _).subperm.trans hpart
  · rw [← @List.length_map _ _ log (·.2), hperm.length_eq, List.length_append, List.length_flatMap]
    simp only [Blocks.length_cut]
  · rw [tally, List.sum_eq_zero]
    intro n hn
    obtain ⟨bytes, hbytes, rfl⟩ := List.mem_map.mp hn
    exact (hscan bytes hbytes).2.1
  · rw [tally, List.sum_eq_zero]
    intro n hn
    obtain ⟨bytes, hbytes, rfl⟩ := List.mem_map.mp hn
    exact (hscan bytes hbytes).2.2

end Network

/-- **Every sample is offered at most once, as it was, and nothing else is.** Whatever the edges and the network do,
short of bringing something twice: the frames offered are frames that verify, and together they say a part of what the
frames pushed say. The receiver rejects nothing and passes no byte, and it counts each whole frame that has arrived. -/
theorem end_to_end {n : Nat} {nanoTimes : Nat → Int64} {p₀ : TelemetryPipeline}
    (hmake : TelemetryPipeline.make n nanoTimes = .ok p₀) {runs : List EdgeRun}
    (hruns : ∀ r ∈ runs, r.cfg.transport ≠ .tcp) (tcpEnabled : Bool) (keys : List Operator.ReadyKey) :
    let s := run FrameReceiver.handle (.start p₀ tcpEnabled) keys
    Network runs s → ∃ arrived : List WireFrame,
      s.offered.map (·.2) = arrived.map view ∧ (∀ f ∈ arrived, verifyFrame f = true) ∧
      (arrived.map (·.reading)).Subperm ((runs.flatMap (·.edge.pushed)).map (·.reading)) ∧
      arrived.length = (s.streams.map fun bytes => bytes.length / wireFrameSize).sum + s.datagrams.length ∧
      s.pipeline.framesOk.toUInt64 = UInt64.ofNat arrived.length ∧ s.pipeline.framesCrcFail = 0 ∧
      s.pipeline.tcpResync = 0 := by
  intro s hnet
  obtain ⟨_, log, lost, h⟩ := received_run p₀ tcpEnabled keys
  obtain ⟨hv, hpart, hlength, hrejected, hskipped⟩ := hnet.offered hruns h
  have harrived : ∀ f ∈ (log.map (·.2)).map WireFrame.ofBytes, verifyFrame f = true := by
    intro f hf
    obtain ⟨w, hw, rfl⟩ := List.mem_map.mp hf
    exact hv w hw
  refine ⟨(log.map (·.2)).map .ofBytes, ?_, harrived, ?_, ?_, ?_, ?_, ?_⟩
  · rw [h.offered, List.map_map, List.map_map, List.map_map]
    rfl
  · rw [List.map_map]
    exact (List.sublist_append_left _ _).subperm.trans hpart
  · rw [List.length_map, List.length_map, hlength]
  · rw [h.framesOk hmake hv, List.length_map, List.length_map]
  · exact (h.told.nothing_bad hmake hrejected (by rw [hskipped, Nat.zero_sub]) hv).1
  · exact (h.told.nothing_bad hmake hrejected (by rw [hskipped, Nat.zero_sub]) hv).2

/-- One sample in one datagram. -/
theorem end_to_end_datagram :
    let r : EdgeRun := ⟨.small .udp 1, [], [], [true], fun _ => 0, [{ raw := some 5 }]⟩
    ∃ p₀ d, TelemetryPipeline.make 2 (fun _ => 0) = .ok p₀ ∧ delivered r.edge.link.udp.sent = [d] ∧
      (run FrameReceiver.handle (.start p₀ false) [.udp (.ok (some d))]).pipeline.framesOk = 1 := by
  intro r
  obtain ⟨p₀, hmake⟩ : ∃ p₀, TelemetryPipeline.make 2 (fun _ => 0) = .ok p₀ := ⟨_, rfl⟩
  obtain ⟨d, hd⟩ : ∃ d, delivered r.edge.link.udp.sent = [d] :=
    ⟨[67, 90, 1, 2, 0, 0, 0, 0, 0, 0, 0, 0, 1, 0, 0, 0, 5, 0, 0, 0, 141, 108, 193, 118], by decide +kernel⟩
  refine ⟨p₀, d, hmake, hd, ?_⟩
  have hruns : ∀ r' ∈ [r], r'.cfg.transport ≠ .tcp := by
    intro r' hr'
    rw [List.mem_singleton.mp hr']
    decide
  have hs : (run FrameReceiver.handle (.start p₀ false) [.udp (.ok (some d))]).streams = [] ∧
      (run FrameReceiver.handle (.start p₀ false) [.udp (.ok (some d))]).datagrams = [d] := by
    rw [Runs.run_cons, Runs.run_nil, Operator.FrameReceiver.handle_datagram rfl]
    exact ⟨rfl, rfl⟩
  have hnet : Network [r] (run FrameReceiver.handle (.start p₀ false) [.udp (.ok (some d))]) := by
    refine ⟨⟨[], List.nil_subperm, by rw [hs.1]; exact .nil⟩, ⟨[d], ?_, by rw [hs.2]; exact .cons ⟨[], rfl⟩ .nil⟩⟩
    rw [List.flatMap_singleton, hd]
  obtain ⟨arrived, _, _, _, hlength, hok, _⟩ := end_to_end hmake hruns false [.udp (.ok (some d))] hnet
  rw [hs.1, hs.2] at hlength
  rw [hlength] at hok
  exact long_inj.mp hok

end ZcMesh
