import ZcMesh.Edge.FileSource
import ZcMesh.Mesh.LossReport
import ZcMesh.Stats.Wrap
import ZcMesh.Zcm.Expectations
import ZcMesh.Zcm.Recording

/-!
# The soak test of the file source

`scripts/soak-file-source.sh` sends the samples of a file to a capture and asks `zcmesh_inspect` for no gap, for as many
frames as the file has numbers, and for the values of these numbers. Its numbers are lines, those of the edge are words
(`Listed`: they are the same). The test detects every loss and nothing else: with the datagrams of an edge in their
order, some of them perhaps lost, sent on by hops or not, it ends well exactly when one has arrived for each number
(`file_soak`).
-/

namespace ZcMesh

open CText
open Core (Edge EdgeRun FileEdge Config WireFrame SendOutcome InspectOptions ZcmAnalyze delivered samples tokenRaw)
open Runs (run)

namespace Core

/-! ## The arguments of the script -/

/-- `^-?[0-9]+$`. -/
def isNumber (line : List UInt8) : Bool :=
  let digits := if line.head? = some 45 then line.tail else line
  !digits.isEmpty && digits.all isDigit

/-- `grep -E '^-?[0-9]+$'`: the lines that it prints, which are none when it takes the file for binary. -/
def numbers (file : List UInt8) : List (List UInt8) := if 0 ∈ file then [] else (file.splitOn 10).filter isNumber

/-- The argument of `--expect-raws`, as `paste -sd, -` writes it: the lines with commas between them. -/
def rawsArgument (file : List UInt8) : List UInt8 := [44].intercalate (numbers file)

/-- What the script expects, once the numbers are read. -/
def soakOptions (count : Nat) (raws : List Int32) : InspectOptions :=
  { expectGapsMax := 0, expectFramesMin := Int64.ofNat count, expectRaws := raws }

/-- A text with commas between the numbers. -/
theorem RawsText.intercalate {words : List (List UInt8)} {raws : List Int32}
    (h : List.Forall₂ (fun word v => rawOf word = some v) words raws) (hne : words ≠ []) :
    RawsText ([44].intercalate words) raws := by
  induction h with
  | nil => exact absurd rfl hne
  | @cons word v words raws hword hrest ih =>
    cases hrest with
    | nil =>
      rw [List.intercalate_singleton]
      exact .last hword
    | cons hword' hrest' =>
      rw [List.intercalate_cons_cons, List.append_assoc, List.singleton_append]
      exact .cons hword (ih (List.cons_ne_nil _ _))

/-- The other lines have no sample: neither words beside each other nor plus signs, nor white space in front. -/
def Listed (file : List UInt8) : Prop := ∀ line ∈ file.splitOn 10, isNumber line = false → samples line = []

instance (file : List UInt8) : Decidable (Listed file) := inferInstanceAs (Decidable (∀ _ ∈ _, _))

/-- A line that is a number is one word, and an integer. -/
theorem isNumber_spec {line : List UInt8} (h : isNumber line = true) :
    IsWord line ∧ ∃ v, integer? line = some v := by
  unfold isNumber at h
  simp only at h
  split at h
  · rename_i hminus
    obtain ⟨digits, rfl⟩ := List.head?_eq_some_iff.mp hminus
    rw [List.tail_cons] at h
    have hdigits := h
    rw [Bool.and_eq_true, List.all_eq_true] at hdigits
    refine ⟨⟨List.cons_ne_nil _ _, List.forall_mem_cons.mpr ⟨by decide, fun c hc => ?_⟩⟩, _, if_pos h⟩
    exact isSpace_of_isDigit (hdigits.2 c hc)
  · rw [Bool.and_eq_true, List.all_eq_true] at h
    have hne : line ≠ [] := by simpa using h.1
    exact ⟨⟨hne, fun c hc => isSpace_of_isDigit (h.2 c hc)⟩, _, integer_of_digits hne h.2⟩

/-- It is one sample, with the value that `zcmesh_inspect` expects. -/
theorem samples_number {line : List UInt8} (h : isNumber line = true) :
    ∃ v, rawOf line = some v ∧ samples line = [v] := by
  obtain ⟨hword, v, hint⟩ := isNumber_spec h
  have hcstr := cstr_eq_self_iff.mpr (nul_free_of_integer hint)
  have hraw : tokenRaw line = some (Int64.ofIntClamp v).toInt32 := by
    rw [tokenRaw_eq hword, hcstr, hint]
    rfl
  have htokens : tokens line = [line] := by
    have hone := @tokens_word line [] hword (by simp)
    rwa [List.append_nil] at hone
  refine ⟨(Int64.ofIntClamp v).toInt32, ?_, ?_⟩
  · rw [rawOf, dropWhile_unspaced (unspaced_of_integer hint), hint]
    rfl
  · rw [samples, htokens, List.filterMap_cons_some hraw]
    rfl

/-- Where the other lines have none, the lines that `grep` prints are the samples. -/
theorem numbers_samples {file : List UInt8} (htext : 0 ∉ file) (hlisted : Listed file) :
    List.Forall₂ (fun word v => rawOf word = some v) (numbers file) (samples file) := by
  have hlines : samples file = (file.splitOn 10).flatMap samples := by
    rw [samples, tokens_lines, List.filterMap_flatMap]
    rfl
  rw [numbers, if_neg htext, hlines]
  unfold Listed at hlisted
  generalize file.splitOn 10 = lines at hlisted
  induction lines with
  | nil => exact .nil
  | cons line lines ih =>
    obtain ⟨hline, hlisted⟩ := List.forall_mem_cons.mp hlisted
    rw [List.flatMap_cons]
    cases hnumber : isNumber line with
    | true =>
      obtain ⟨v, hraw, hsamples⟩ := samples_number hnumber
      rw [List.filter_cons_of_pos hnumber, hsamples]
      exact .cons hraw (ih hlisted)
    | false =>
      rw [List.filter_cons_of_neg (by rw [hnumber]; exact Bool.false_ne_true), hline hnumber]
      exact ih hlisted

theorem nul_free_of_numbers {file : List UInt8} (h : numbers file ≠ []) : 0 ∉ file := by
  intro hnul
  rw [numbers, if_pos hnul] at h
  exact h rfl

/-- When the script ends well on a recording of verified frames. -/
theorem soak_ends {mem : Memory} {cs : List WireFrame} (hcs : ∀ c ∈ cs, verifyFrame c = true)
    (hmem : mem.allocates (4 * cs.length) = true) {file : List UInt8} (hlisted : Listed file)
    (hsome : numbers file ≠ []) (count : Nat) :
    (∃ raws, parseRaws (rawsArgument file) = some raws ∧
        (inspect mem (soakOptions count raws) (zcmFile cs)).ending = .exit 0 "") ↔
      Meets (soakOptions count (samples file)) cs := by
  have hparse : parseRaws (rawsArgument file) = some (samples file) :=
    parseRaws_iff.mpr (.intercalate (numbers_samples (nul_free_of_numbers hsome) hlisted) hsome)
  rw [← inspect_iff hcs hmem, hparse]
  simp only [Option.some.injEq, exists_eq_left']

/-- Frames of one node that are numbered without a hole have no gap. -/
theorem gapsOf_stream {cs : List WireFrame} {node : UInt16} (hnode : ∀ c ∈ cs, c.nodeId = node) {start : UInt32}
    {len : Nat} (hseqs : cs.map (·.seq) = streamFrom start len) : gapsOf cs = 0 := by
  have hwalk : walkOf node cs = (streamFrom start len).map UInt32.toNat := by
    rw [walkOf, seqsOf, List.filter_eq_self.mpr fun c hc => decide_eq_true (hnode c hc), hseqs]
  rw [gapsOf, (totals_one_node hnode).1, hwalk, (holes_stalls_streamFrom start len).1]
  rfl

/-! ## The numbers of the frames -/

namespace Edge

variable {cfg : Config} {e : Edge} {t : Tick}

/-- The frames pushed are numbered from 0 on, without a hole. -/
structure Consecutive (e : Edge) : Prop where
  seqs : e.pushed.map (·.seq) = streamFrom 0 e.pushed.length
  next : e.seq = UInt32.ofNat e.pushed.length

theorem Consecutive.congr (h : e.Consecutive) {e' : Edge} (hsame : e'.numbered = e.numbered) : e'.Consecutive := by
  obtain ⟨hseq, hpushed⟩ := Prod.mk.inj hsame
  obtain ⟨hseqs, hnext⟩ := h
  rw [← hpushed] at hseqs hnext
  exact ⟨hseqs, hseq.trans hnext⟩

theorem Consecutive.push (h : e.Consecutive) (cfg : Config) (sensor : UInt8) (raw : Int32)
    (hroom : e.link.batch.count < e.link.batch.capacity) : (e.push cfg sensor raw).2.Consecutive := by
  have hseq : (e.nextFrame cfg sensor raw).seq = 0 + UInt32.ofNat e.pushed.length := by
    rw [UInt32.zero_add]
    exact h.next
  rw [push_of_room cfg sensor raw hroom]
  constructor
  · show (e.pushed ++ [e.nextFrame cfg sensor raw]).map (·.seq) = _
    rw [List.map_append, h.seqs, List.map_singleton, hseq, List.length_append, List.length_singleton, streamFrom,
      streamFrom, List.range_succ, List.map_append, List.map_singleton]
  · show e.seq + 1 = UInt32.ofNat (e.pushed ++ [e.nextFrame cfg sensor raw]).length
    rw [h.next, List.length_append, List.length_singleton, UInt32.ofNat_add]
    rfl

/-- **An edge that drops nothing numbers its frames without a hole.** -/
theorem Consecutive.step (h : e.Consecutive) (hs : e.Sound) (hdrop : cfg.dropPct ≤ 0) :
    (e.step cfg t).Consecutive := by
  have hpoll : (e.poll cfg t).Consecutive := h.congr rfl
  have hdrain := hpoll.congr (numbered_drain cfg (e.poll cfg t))
  unfold Edge.step
  split
  · exact h
  · simp only
    split
    · exact hpoll.congr (numbered_finish cfg _)
    · split
      · rename_i hgo
        have hroom := room_drain cfg (hs.poll cfg t) hgo
        unfold take
        split
        · exact hdrain.congr (numbered_finish cfg _)
        · rename_i sensor raw _
          have hkeep : shouldDrop ((e.poll cfg t).drain cfg).2.seq cfg.dropPct = false := by
            rw [shouldDrop, if_pos hdrop]
          have hpush := hdrain.push cfg sensor raw hroom
          simp only [hkeep, Bool.false_eq_true, if_false]
          split
          · exact hpush.congr (numbered_flushFull cfg _)
          · exact hpush
      · exact hdrain

end Edge

namespace FileEdge

variable {cfg : Config} {s : FileEdge}

/-- One iteration is one of the edge, on some sample. -/
theorem step_edge (cfg : Config) (s : FileEdge) (t : Tick) : ∃ t', (s.step cfg t).edge = s.edge.step cfg t' := by
  unfold step
  split
  · exact ⟨_, rfl⟩
  · exact ⟨t, rfl⟩

/-- What holds of every run of an edge. -/
theorem run_edge (cfg : Config) (s : FileEdge) (ticks : List Tick) :
    ∃ ticks', (run (step cfg) s ticks).edge = run (Edge.step cfg) s.edge ticks' := by
  induction ticks generalizing s with
  | nil => exact ⟨[], rfl⟩
  | cons t ticks ih =>
    obtain ⟨t', hstep⟩ := step_edge cfg s t
    obtain ⟨ticks', hrun⟩ := ih (s.step cfg t)
    exact ⟨t' :: ticks', by rw [Runs.run_cons, Runs.run_cons, hrun, hstep]⟩

/-- An edge that drops nothing, on a file: a run of an edge whose frames are numbered without a hole and carry the first
samples. -/
theorem pushed_run (hsource : cfg.source = .file) (hdrop : cfg.dropPct ≤ 0) (connects : List Bool)
    (sends : List SendOutcome) (outcomes : List Bool) (clock : Nat → UInt64) (file : List UInt8) (ticks : List Tick) :
    ∃ r : EdgeRun, r.cfg = cfg ∧ r.edge = (run (step cfg) (start cfg connects sends outcomes clock file) ticks).edge ∧
      r.edge.pushed.map (·.seq) = streamFrom 0 r.edge.pushed.length ∧
      r.edge.pushed.map (·.rawValue) <+: samples file := by
  obtain ⟨ticks', hedge⟩ := run_edge cfg (start cfg connects sends outcomes clock file) ticks
  have hprefix := pushed_prefix hsource hdrop connects sends outcomes clock file ticks
  have hstart : (Edge.start cfg connects sends outcomes clock).Sound ∧
      (Edge.start cfg connects sends outcomes clock).Consecutive := by
    refine ⟨Edge.sound_start cfg connects sends outcomes clock, ?_⟩
    obtain ⟨tcp, gate, clock', heq, _⟩ := Edge.start_spec cfg connects sends outcomes clock
    rw [heq]
    exact ⟨rfl, rfl⟩
  have hseqs := (Runs.run_inv (P := fun e : Edge => e.Sound ∧ e.Consecutive)
    (fun _ t h => ⟨h.1.step cfg t, h.2.step h.1 hdrop⟩) ticks' _ hstart).2.seqs
  rw [hedge] at hprefix
  exact ⟨⟨cfg, connects, sends, outcomes, clock, ticks'⟩, rfl, hedge.symm, hseqs, hprefix⟩

end FileEdge

end Core

/-- A recording that says what was pushed meets what the script asks for. -/
theorem meets_of_pushed {cs fs : List WireFrame} (hsame : cs.map (·.reading) = fs.map (·.reading)) {node : UInt16}
    (hnode : ∀ f ∈ fs, f.nodeId = node) {start : UInt32} {len : Nat}
    (hseqs : fs.map (·.seq) = Core.streamFrom start len) (hfew : cs.length < 2 ^ 63) :
    Core.Meets (Core.soakOptions cs.length (fs.map (·.rawValue))) cs := by
  have hgaps : Core.gapsOf cs = 0 :=
    Core.gapsOf_stream (Core.nodeId_of_readings hsame hnode) ((Core.map_readings hsame (·.2.1)).trans hseqs)
  have hvalues : cs.map (·.rawValue) = fs.map (·.rawValue) := Core.map_readings hsame (·.2.2.2.2)
  exact
    { gapsMin := fun h => absurd (show (0 : Int64) ≤ -1 from h) (by decide)
      gapsMax := fun _ => by rw [hgaps]; exact Int64.le_refl 0
      hopIdx := fun h => absurd (show (0 : Int32) ≤ -1 from h) (by decide)
      lastHop := rfl
      framesMin := fun _ => by rw [Core.soakOptions, Int64.toInt_ofNat_of_lt hfew]
      raws := by rw [hvalues]; exact List.prefix_rfl }

/-- **The soak test of the file source is exact.** An edge sends a file with numbers on lines of their own, at least
one, and no sample on the other lines; whatever the network does to it and however far it has got, its datagrams reach
the capture in their order, some of them perhaps not, as they were or as hops send them on. The script then ends well if
and only if one datagram has arrived for each number of the file. -/
theorem file_soak (cfg : Config) (hsource : cfg.source = .file) (hdrop : cfg.dropPct ≤ 0)
    (htransport : cfg.transport ≠ .tcp) (connects : List Bool) (sends : List SendOutcome) (outcomes : List Bool)
    (clock : Nat → UInt64) (file : List UInt8) (ticks : List Core.Tick) (hlisted : Core.Listed file)
    (hsome : Core.numbers file ≠ []) {sent : List (List UInt8)} (mode : Core.Mode) (outPath : String)
    (turns : List Core.Ready) {mem : Core.Memory}
    (hmem : mem.allocates (4 * (Core.arrivals mode turns).frames.length) = true) :
    let e := (run (FileEdge.step cfg) (.start cfg connects sends outcomes clock file) ticks).edge
    let arrived := (Core.arrivals mode turns).datagrams
    sent.Sublist (delivered e.link.udp.sent) → List.Forall₂ Arrives sent arrived →
      (Core.arrivals mode turns).connections = [] →
        ((∃ raws, Core.parseRaws (Core.rawsArgument file) = some raws ∧
          (Core.inspect mem (Core.soakOptions (Core.numbers file).length raws)
            (Core.captureMain { mode, outPath } turns).file).ending = .exit 0 "") ↔
          arrived.length = (Core.numbers file).length) := by
  intro e arrived hsent harrives hconnections
  obtain ⟨r, hcfg, hedge, hseqs, hprefix⟩ :=
    FileEdge.pushed_run hsource hdrop connects sends outcomes clock file ticks
  have hsentpushed : sent.Sublist (r.edge.pushed.map WireFrame.bytes) := by
    rw [show e = r.edge from hedge.symm] at hsent
    exact hsent.trans (delivered_sublist (by rwa [hcfg]))
  obtain ⟨hgood, hsame⟩ := forall₂_arrives harrives fun data hdata => by
    obtain ⟨f, hf, rfl⟩ := List.mem_map.mp (hsentpushed.subset hdata)
    exact ⟨f, EdgeRun.verify_pushed hf, rfl⟩
  obtain ⟨hzcm, hcs⟩ := Core.captureMain_zcmFile mode outPath turns
  have hlogged : Core.arrivedFrames mode turns = arrived.map WireFrame.ofBytes :=
    Core.arrivedFrames_of_datagrams hconnections hgood
  have hlen : (Core.arrivedFrames mode turns).length = arrived.length := by rw [hlogged, List.length_map]
  have hframes : (Core.arrivedFrames mode turns).length = (Core.arrivals mode turns).frames.length := List.length_map _
  rw [← hframes] at hmem
  rw [hzcm, Core.soak_ends hcs hmem hlisted hsome]
  -- no more arrives than the file has samples
  have hcount := (Core.numbers_samples (Core.nul_free_of_numbers hsome) hlisted).length_eq
  have hsentle := hsentpushed.length_le
  have hpushedle := hprefix.length_le
  have harrived := harrives.length_eq
  rw [List.length_map] at hsentle hpushedle
  constructor
  · intro hmeets
    have hle := hmeets.raws.length_le
    rw [List.length_map, hlen] at hle
    exact Nat.le_antisymm (by omega) (hcount ▸ hle)
  · -- so when as much has arrived, all has
    intro hall
    have hsentall : sent = r.edge.pushed.map WireFrame.bytes :=
      hsentpushed.eq_of_length_le (by rw [List.length_map]; omega)
    have hraws : r.edge.pushed.map (·.rawValue) = samples file :=
      hprefix.eq_of_length_le (by rw [List.length_map]; omega)
    have hreadings : (Core.arrivedFrames mode turns).map (·.reading) = r.edge.pushed.map (·.reading) := by
      rw [hlogged, List.map_map]
      refine hsame.trans ?_
      rw [hsentall, List.map_map]
      exact List.map_congr_left fun f _ => congrArg WireFrame.reading (WireFrame.ofBytes_bytes f)
    have hlt := Core.Memory.lt_of_allocates hmem
    rw [← hraws, ← hall, ← hlen]
    exact meets_of_pushed hreadings (fun f hf => (EdgeRun.packed hf).nodeId) hseqs (by omega)

/-- `7`, a comment and `-3`: two datagrams arrive. -/
theorem file_soak_two :
    let e := (run (FileEdge.step (.small .udp 1)) (.start (.small .udp 1) [] [] [true, true] (fun _ => 0)
      [55, 10, 35, 10, 45, 51]) [{}, {}, {}]).edge
    let turns : List Core.Ready := (delivered e.link.udp.sent).map fun d => { datagram := some (.bytes d) }
    ∃ raws, Core.parseRaws [55, 44, 45, 51] = some raws ∧
      (Core.inspect ⟨fun n => decide (n < 2 ^ 63), by simp⟩ (Core.soakOptions 2 raws)
        (Core.captureMain { mode := .udp } turns).file).ending = .exit 0 "" := by
  intro e turns
  have harrived : (Core.arrivals .udp turns).datagrams = delivered e.link.udp.sent := by decide +kernel
  have hconnections : (Core.arrivals .udp turns).connections = [] := by decide +kernel
  have hmem : Core.Memory.allocates ⟨fun n => decide (n < 2 ^ 63), by simp⟩
      (4 * (Core.arrivals .udp turns).frames.length) = true := by decide +kernel
  have hsent : List.Forall₂ Arrives (delivered e.link.udp.sent) (Core.arrivals .udp turns).datagrams := by
    rw [harrived]
    exact List.forall₂_same.mpr fun d _ => ⟨[], rfl⟩
  refine (file_soak (.small .udp 1) rfl (by decide) (by decide) [] [] [true, true] (fun _ => 0)
    [55, 10, 35, 10, 45, 51] [{}, {}, {}] (by decide +kernel) (by decide +kernel) .udp "" turns hmem
    (List.Sublist.refl _) hsent hconnections).mpr ?_
  rw [harrived]
  decide +kernel

end ZcMesh
