import ZcMesh.Edge.Report
import ZcMesh.Lib.CText

/-!
# Samples from a file

The source of `--file`. An iteration that gets to the source takes words from the file until one is a sample
(`nextRaw`); the others are skipped.

* A word is a sample when what is in front of its first NUL is a decimal integer (`tokenRaw_eq`); its value is cut to 32
  bits.
* What was pushed and what is left of the file are together the samples of the file (`Reading`), so at the end of the
  file it is all of them.
* They are the integers of the file if and only if each word that is a sample is one as a whole, with a value that fits
  (`file_iff`).
-/

namespace ZcMesh.Core

open CText

/-! ## The code -/

/-- What the loop makes of a word: `none` is skipped. -/
def tokenRaw (tok : List UInt8) : Option Int32 :=
  if tok.isEmpty || tok.head? == some 35 then none
  else
    let (v, rest) := strtol (cstr tok)
    if rest = cstr tok ∨ rest ≠ [] then none else some v.toInt32

/-- The token loop, for at most `n` words: the next sample, and what is left of the file. -/
def nextRaw : Nat → List UInt8 → Option Int32 × List UInt8
  | 0, file => (none, file)
  | n + 1, file =>
    match nextToken file with
    | none => (none, [])
    | some (tok, rest) =>
      match tokenRaw tok with
      | none => nextRaw n rest
      | some raw => (some raw, rest)

/-- The edge, and what is left of the file. -/
structure FileEdge where
  edge : Edge
  file : List UInt8

namespace FileEdge

/-- The iteration gets to the source. -/
def reads (cfg : Config) (e : Edge) (t : Tick) : Bool :=
  !e.done && !t.expired && ((e.poll cfg t).drain cfg).1

/-- One iteration; a word takes a byte at least, so the file has no more words than bytes. -/
def step (cfg : Config) (s : FileEdge) (t : Tick) : FileEdge :=
  if reads cfg s.edge t then
    let (raw, file) := nextRaw s.file.length s.file
    { edge := s.edge.step cfg { t with raw }, file }
  else { s with edge := s.edge.step cfg t }

def start (cfg : Config) (connects : List Bool) (sends : List SendOutcome) (outcomes : List Bool)
    (clock : Nat → UInt64) (file : List UInt8) : FileEdge :=
  { edge := .start cfg connects sends outcomes clock, file }

end FileEdge

/-! ## The words of the file -/

/-- All samples of the file. -/
def samples (file : List UInt8) : List Int32 := (tokens file).filterMap tokenRaw

/-- A decimal integer that fits into 32 bits. -/
def int32? (tok : List UInt8) : Option Int :=
  (integer? tok).filter fun v => decide (-2147483648 ≤ v) && decide (v < 2147483648)

/-- The integers of the file. -/
def integers (file : List UInt8) : List Int := (tokens file).filterMap int32?

/-- What is in front of the first NUL is not a decimal integer, or there is no NUL and the integer fits. -/
def PlainToken (tok : List UInt8) : Prop :=
  ∀ v, integer? (cstr tok) = some v → 0 ∉ tok ∧ -2147483648 ≤ v ∧ v < 2147483648

theorem tokenRaw_eq {tok : List UInt8} (h : IsWord tok) :
    tokenRaw tok = (integer? (cstr tok)).map fun v => (Int64.ofIntClamp v).toInt32 := by
  obtain ⟨c, t, rfl⟩ := List.exists_cons_of_ne_nil h.1
  by_cases hcomment : c = 35
  · -- a comment is no integer
    subst hcomment
    rfl
  · have hgo : ((c :: t).isEmpty || (c :: t).head? == some 35) = false := by simpa using hcomment
    rw [tokenRaw, if_neg (by rw [hgo]; exact Bool.false_ne_true)]
    cases hint : integer? (cstr (c :: t)) with
    | some v =>
      have hne : cstr (c :: t) ≠ [] := by
        intro hnil
        rw [hnil] at hint
        cases hint
      have hstrtol := strtol_of_integer h.unspaced_cstr hint
      simp only [hstrtol]
      rw [if_neg (not_or.mpr ⟨fun heq => hne heq.symm, fun hnil => hnil rfl⟩)]
      rfl
    | none =>
      have hno : ¬ (cstr (c :: t) ≠ [] ∧ (strtol (cstr (c :: t))).2 = []) := by
        rw [strtol_whole h.unspaced_cstr, hint]
        rintro ⟨v, hv⟩
        cases hv
      have hskip : (strtol (cstr (c :: t))).2 = cstr (c :: t) ∨ (strtol (cstr (c :: t))).2 ≠ [] := by
        by_cases hrest : (strtol (cstr (c :: t))).2 = []
        · have hnil : cstr (c :: t) = [] := by
            by_contra hne
            exact hno ⟨hne, hrest⟩
          exact .inl (hrest.trans hnil.symm)
        · exact .inr hrest
      exact if_pos hskip

/-- An integer that fits is a sample, with its value. -/
theorem tokenRaw_of_int32 {tok : List UInt8} (h : IsWord tok) {v : Int} (hv : int32? tok = some v) :
    (tokenRaw tok).map Int32.toInt = some v ∧ PlainToken tok := by
  obtain ⟨hint, hrange⟩ := Option.filter_eq_some_iff.mp hv
  rw [Bool.and_eq_true, decide_eq_true_eq, decide_eq_true_eq] at hrange
  have hfree := nul_free_of_integer hint
  have hcstr := cstr_eq_self_iff.mpr hfree
  refine ⟨?_, ?_⟩
  · rw [tokenRaw_eq h, hcstr, hint]
    exact congrArg some (toInt_narrow hrange.1 hrange.2)
  · rintro w hw
    rw [hcstr, hint] at hw
    cases hw
    exact ⟨hfree, hrange⟩

/-- What is no integer that fits is skipped as well, unless it is not plain. -/
theorem tokenRaw_of_not_int32 {tok : List UInt8} (h : IsWord tok) (hno : int32? tok = none) :
    tokenRaw tok = none ↔ PlainToken tok := by
  rw [tokenRaw_eq h, Option.map_eq_none_iff]
  constructor
  · rintro hnone v hv
    rw [hnone] at hv
    cases hv
  · intro hplain
    rw [Option.eq_none_iff_forall_ne_some]
    rintro v hv
    obtain ⟨hfree, hlo, hhi⟩ := hplain v hv
    rw [cstr_eq_self_iff.mpr hfree] at hv
    rw [int32?, hv, Option.filter_some, if_pos (by simp [hlo, hhi])] at hno
    cases hno

section FilterMap

variable {α β : Type*} {f g : α → Option β} {l : List α}

theorem length_filterMap_le (h : ∀ a ∈ l, g a = none ∨ g a = f a) :
    (l.filterMap g).length ≤ (l.filterMap f).length := by
  induction l with
  | nil => exact Nat.le_refl _
  | cons a l ih =>
    have ih := ih fun b hb => h b (List.mem_cons_of_mem _ hb)
    rcases h a List.mem_cons_self with hga | hga
    · rw [List.filterMap_cons_none hga]
      exact ih.trans ((List.sublist_cons_self a l).filterMap f).length_le
    · cases hfa : f a with
      | none => rwa [List.filterMap_cons_none (hga.trans hfa), List.filterMap_cons_none hfa]
      | some b =>
        rw [List.filterMap_cons_some (hga.trans hfa), List.filterMap_cons_some hfa]
        exact Nat.succ_le_succ ih

/-- When `f` takes whatever `g` takes, they take the same only if they agree on the whole list. -/
theorem filterMap_eq_iff (h : ∀ a ∈ l, g a = none ∨ g a = f a) :
    l.filterMap f = l.filterMap g ↔ ∀ a ∈ l, f a = g a := by
  refine ⟨fun heq => ?_, fun hall => List.filterMap_congr hall⟩
  induction l with
  | nil => exact nofun
  | cons a l ih =>
    have htail : ∀ b ∈ l, g b = none ∨ g b = f b := fun b hb => h b (List.mem_cons_of_mem _ hb)
    rw [List.forall_mem_cons]
    rcases h a List.mem_cons_self with hga | hga
    · cases hfa : f a with
      | none =>
        rw [List.filterMap_cons_none hfa, List.filterMap_cons_none hga] at heq
        exact ⟨hga.symm, ih htail heq⟩
      | some b =>
        -- one more than `g` takes
        have hle := length_filterMap_le htail
        rw [List.filterMap_cons_some hfa, List.filterMap_cons_none hga] at heq
        have hlen := congrArg List.length heq
        rw [List.length_cons] at hlen
        omega
    · refine ⟨hga.symm, ih htail ?_⟩
      cases hfa : f a with
      | none => rwa [List.filterMap_cons_none hfa, List.filterMap_cons_none (hga.trans hfa)] at heq
      | some b =>
        rw [List.filterMap_cons_some hfa, List.filterMap_cons_some (hga.trans hfa)] at heq
        exact (List.cons.inj heq).2

end FilterMap

/-- The samples of a file are its integers if and only if all words are plain. -/
theorem samples_iff (file : List UInt8) :
    (samples file).map Int32.toInt = integers file ↔ ∀ tok ∈ tokens file, PlainToken tok := by
  have hcase (tok : List UInt8) (h : tok ∈ tokens file) :
      int32? tok = none ∨ int32? tok = (tokenRaw tok).map Int32.toInt := by
    cases hint : int32? tok with
    | none => exact .inl rfl
    | some v => exact .inr (tokenRaw_of_int32 (isWord_of_mem h) hint).1.symm
  rw [samples, List.map_filterMap, integers, filterMap_eq_iff hcase]
  refine forall₂_congr fun tok h => ?_
  have hword := isWord_of_mem h
  cases hint : int32? tok with
  | none => rw [Option.map_eq_none_iff, tokenRaw_of_not_int32 hword hint]
  | some v =>
    obtain ⟨heq, hplain⟩ := tokenRaw_of_int32 hword hint
    exact ⟨fun _ => hplain, fun _ => heq⟩

/-! ## The token loop -/

/-- The token loop takes the next sample and leaves the others; without one, the file is at its end. -/
theorem nextRaw_spec {n : Nat} {file : List UInt8} (hn : file.length ≤ n) :
    samples file = (nextRaw n file).1.toList ++ samples (nextRaw n file).2 ∧
      ((nextRaw n file).1 = none → (nextRaw n file).2 = []) := by
  induction n generalizing file with
  | zero =>
    rw [List.length_eq_zero_iff.mp (Nat.le_zero.mp hn)]
    exact ⟨rfl, fun _ => rfl⟩
  | succ n ih =>
    rw [nextRaw]
    cases hnext : nextToken file with
    | none =>
      refine ⟨?_, fun _ => rfl⟩
      rw [samples, nextToken_none hnext]
      rfl
    | some p =>
      obtain ⟨tok, rest⟩ := p
      have hlt := length_nextToken hnext
      have hsamples : samples file = (tokenRaw tok).toList ++ samples rest := by
        rw [samples, tokens_eq hnext]
        cases hraw : tokenRaw tok with
        | none => exact List.filterMap_cons_none hraw
        | some raw => exact List.filterMap_cons_some hraw
      simp only
      cases hraw : tokenRaw tok with
      | none =>
        have hrest : rest.length ≤ n := by omega
        obtain ⟨heq, hend⟩ := ih hrest
        rw [hraw] at hsamples
        exact ⟨hsamples.trans heq, hend⟩
      | some raw =>
        rw [hraw] at hsamples
        exact ⟨hsamples, nofun⟩

/-! ## Iterations -/

namespace Edge

variable {cfg : Config} {e : Edge} {t : Tick}

/-- The drain path pushes nothing and does not end the loop. -/
theorem drain_frame (cfg : Config) (e : Edge) :
    (e.drain cfg).2.pushed = e.pushed ∧ (e.drain cfg).2.done = e.done := by
  unfold drain
  split
  · simp only
    repeat' split
    all_goals exact ⟨rfl, rfl⟩
  · exact ⟨rfl, rfl⟩

theorem pushed_flushFull (cfg : Config) (e : Edge) : (e.flushFull cfg).pushed = e.pushed := by
  unfold flushFull
  split
  · simp only
    repeat' split
    all_goals rfl
  · rfl

theorem pushed_finish (cfg : Config) (e : Edge) : (e.finish cfg).pushed = e.pushed := by
  unfold finish
  split <;> rfl

/-- Behind the drain path there is room for a sample. -/
theorem room_drain (cfg : Config) (h : e.Sound) (hgo : (e.drain cfg).1 = true) :
    (e.drain cfg).2.link.batch.count < (e.drain cfg).2.link.batch.capacity := by
  rcases drain_cases cfg h.batch with ⟨_, _, hroom, heq⟩ | ⟨hne, hempty, heq⟩ | ⟨_, _, _, heq⟩
  · rw [heq]
    exact hroom
  · rw [heq]
    exact (h.flush cfg hne).batch.room_of_empty hempty
  · rw [heq] at hgo
    cases hgo

/-- An iteration that gets to the source. -/
theorem step_reads (h : FileEdge.reads cfg e t = true) (raw : Option Int32) :
    e.step cfg { t with raw } = ((e.poll cfg t).drain cfg).2.take cfg raw := by
  simp only [FileEdge.reads, Bool.and_eq_true, Bool.not_eq_true'] at h
  obtain ⟨⟨hopen, hexpired⟩, hgo⟩ := h
  have hpoll : e.poll cfg { t with raw } = e.poll cfg t := rfl
  unfold step
  rw [hopen, hpoll]
  simp only [hexpired, hgo, Bool.false_eq_true, if_false, if_true]

/-- One that does not: nothing is pushed, and the loop goes on unless the duration is over. -/
theorem step_idle (h : FileEdge.reads cfg e t = false) :
    (e.step cfg t).pushed = e.pushed ∧ ((e.step cfg t).done = true → e.done = true ∨ t.expired = true) := by
  unfold step
  split
  · rename_i hdone
    exact ⟨rfl, fun _ => .inl hdone⟩
  · rename_i hopen
    simp only
    split
    · rename_i hexpired
      exact ⟨pushed_finish cfg _, fun _ => .inr hexpired⟩
    · rename_i hexpired
      rw [Bool.not_eq_true] at hopen hexpired
      have hstop : ((e.poll cfg t).drain cfg).1 = false := by
        simpa [FileEdge.reads, hopen, hexpired] using h
      simp only [hstop, Bool.false_eq_true, if_false]
      obtain ⟨hpushed, hkeep⟩ := drain_frame cfg (e.poll cfg t)
      refine ⟨hpushed, ?_⟩
      intro hdone
      rw [hkeep] at hdone
      exact .inl hdone

/-- At the end of the file the loop ends; a sample is pushed. -/
theorem take_file (hsource : cfg.source = .file) (hdrop : cfg.dropPct ≤ 0)
    (hroom : e.link.batch.count < e.link.batch.capacity) (raw : Option Int32) :
    (e.take cfg raw).pushed.map WireFrame.rawValue = e.pushed.map WireFrame.rawValue ++ raw.toList ∧
      ((e.take cfg raw).done = true ↔ raw = none ∨ e.done = true) := by
  have hsample : cfg.sample e.seq raw = raw.map (sensorVoltage, ·) := by
    rw [Config.sample, hsource]
  unfold take
  rw [hsample]
  cases raw with
  | none =>
    simp only [Option.map_none]
    refine ⟨?_, fun _ => .inl trivial, fun _ => rfl⟩
    rw [pushed_finish]
    exact (List.append_nil _).symm
  | some raw =>
    have hkeep : shouldDrop e.seq cfg.dropPct = false := by rw [shouldDrop, if_pos hdrop]
    simp only [Option.map_some, hkeep, Bool.false_eq_true, if_false, push_of_room cfg sensorVoltage raw hroom, if_true]
    rw [pushed_flushFull, done_flushFull, List.map_append]
    exact ⟨rfl, .inr, fun h => h.resolve_left nofun⟩

end Edge

namespace FileEdge

/-! ## Runs -/

variable {cfg : Config} {file : List UInt8} {s : FileEdge} {t : Tick}

/-- What was pushed and what is left of the file are together the samples of `file`. -/
structure Reading (file : List UInt8) (s : FileEdge) : Prop where
  sound : s.edge.Sound
  content : s.edge.pushed.map WireFrame.rawValue ++ samples s.file = samples file

theorem reading_start (cfg : Config) (connects : List Bool) (sends : List SendOutcome) (outcomes : List Bool)
    (clock : Nat → UInt64) (file : List UInt8) : (start cfg connects sends outcomes clock file).Reading file := by
  refine ⟨Edge.sound_start cfg connects sends outcomes clock, ?_⟩
  obtain ⟨tcp, gate, clock', heq, _⟩ := Edge.start_spec cfg connects sends outcomes clock
  rw [start, heq]
  rfl

/-- An iteration that gets to the source takes the next sample; it ends the loop at the end of the file. -/
theorem Reading.step_reads (h : s.Reading file) (hsource : cfg.source = .file) (hdrop : cfg.dropPct ≤ 0)
    (hreads : reads cfg s.edge t = true) :
    (s.step cfg t).Reading file ∧ ((s.step cfg t).edge.done = true → (s.step cfg t).file = []) ∧
      ((s.step cfg t).edge.done = false → (samples (s.step cfg t).file).length < (samples s.file).length) := by
  obtain ⟨hsamples, hend⟩ := nextRaw_spec (Nat.le_refl s.file.length)
  have hroom := Edge.room_drain cfg (h.sound.poll cfg t)
  have hgo := hreads
  simp only [reads, Bool.and_eq_true, Bool.not_eq_true'] at hgo
  obtain ⟨hpushed, hdone⟩ := Edge.take_file hsource hdrop (hroom hgo.2) (nextRaw s.file.length s.file).1
  have hstep : s.step cfg t =
      { edge := s.edge.step cfg { t with raw := (nextRaw s.file.length s.file).1 }
        file := (nextRaw s.file.length s.file).2 } := if_pos hreads
  have hsound := h.sound.step cfg { t with raw := (nextRaw s.file.length s.file).1 }
  rw [hstep]
  rw [Edge.step_reads hreads] at hsound ⊢
  obtain ⟨hkeep, hopen⟩ := Edge.drain_frame cfg (s.edge.poll cfg t)
  rw [hkeep] at hpushed
  rw [hopen, show (s.edge.poll cfg t).done = false from hgo.1.1] at hdone
  refine ⟨⟨hsound, ?_⟩, ?_, ?_⟩
  · rw [hpushed, List.append_assoc, ← hsamples]
    exact h.content
  · intro hlast
    exact hend ((hdone.mp hlast).resolve_right nofun)
  · intro hmore
    obtain ⟨raw, hraw⟩ : ∃ raw, (nextRaw s.file.length s.file).1 = some raw := by
      refine Option.ne_none_iff_exists'.mp ?_
      intro hnone
      rw [hdone.mpr (.inl hnone)] at hmore
      cases hmore
    rw [hsamples, hraw]
    exact Nat.lt_succ_self _

theorem Reading.step_idle (h : s.Reading file) (hreads : reads cfg s.edge t = false) :
    (s.step cfg t).Reading file ∧ (s.step cfg t).file = s.file ∧
      ((s.step cfg t).edge.done = true → s.edge.done = true ∨ t.expired = true) := by
  obtain ⟨hpushed, hdone⟩ := Edge.step_idle hreads
  have hstep : s.step cfg t = { s with edge := s.edge.step cfg t } :=
    if_neg (by rw [hreads]; exact Bool.false_ne_true)
  rw [hstep]
  refine ⟨⟨h.sound.step cfg t, ?_⟩, rfl, hdone⟩
  rw [hpushed]
  exact h.content

theorem Reading.step (h : s.Reading file) (hsource : cfg.source = .file) (hdrop : cfg.dropPct ≤ 0) (t : Tick) :
    (s.step cfg t).Reading file := by
  cases hreads : reads cfg s.edge t with
  | true => exact (h.step_reads hsource hdrop hreads).1
  | false => exact (h.step_idle hreads).1

/-- At any time the samples pushed are the first ones of the file. -/
theorem pushed_prefix (hsource : cfg.source = .file) (hdrop : cfg.dropPct ≤ 0) (connects : List Bool)
    (sends : List SendOutcome) (outcomes : List Bool) (clock : Nat → UInt64) (file : List UInt8) (ticks : List Tick) :
    (Runs.run (step cfg) (start cfg connects sends outcomes clock file) ticks).edge.pushed.map WireFrame.rawValue <+:
      samples file :=
  have h := Runs.run_inv (P := Reading file) (fun _ t h => h.step hsource hdrop t) ticks _
    (reading_start cfg connects sends outcomes clock file)
  ⟨_, h.content⟩

/-- Within the duration, the loop ends at the end of the file. -/
structure Unexpired (file : List UInt8) (s : FileEdge) : Prop where
  reading : s.Reading file
  ended : s.edge.done = true → s.file = []

theorem Unexpired.step (h : s.Unexpired file) (hsource : cfg.source = .file) (hdrop : cfg.dropPct ≤ 0)
    (ht : t.expired = false) : (s.step cfg t).Unexpired file := by
  cases hreads : reads cfg s.edge t with
  | true =>
    obtain ⟨hreading, hended, _⟩ := h.reading.step_reads hsource hdrop hreads
    exact ⟨hreading, hended⟩
  | false =>
    obtain ⟨hreading, hfile, hdone⟩ := h.reading.step_idle hreads
    refine ⟨hreading, ?_⟩
    intro hlast
    rw [hfile]
    refine h.ended ((hdone hlast).resolve_right ?_)
    rw [ht]
    exact Bool.false_ne_true

theorem unexpired_run (hsource : cfg.source = .file) (hdrop : cfg.dropPct ≤ 0) (connects : List Bool)
    (sends : List SendOutcome) (outcomes : List Bool) (clock : Nat → UInt64) (file : List UInt8) {ticks : List Tick}
    (hticks : ∀ t ∈ ticks, t.expired = false) :
    (Runs.run (step cfg) (start cfg connects sends outcomes clock file) ticks).Unexpired file := by
  refine Runs.run_inv_of_steps (fun _ _ h ht => Unexpired.step h hsource hdrop ht) ticks _
    (Runs.allSteps_const.mpr hticks) ⟨reading_start cfg connects sends outcomes clock file, ?_⟩
  obtain ⟨tcp, gate, clock', heq, _⟩ := Edge.start_spec cfg connects sends outcomes clock
  rw [start, heq]
  exact nofun

/-! ### The end of the run -/

theorem step_of_done (h : s.edge.done = true) (t : Tick) : s.step cfg t = s := by
  have hreads : reads cfg s.edge t = false := by simp [reads, h]
  rw [step, if_neg (by rw [hreads]; exact Bool.false_ne_true), Edge.step, if_pos h]

/-- But over TCP alone, each iteration gets to the source. -/
theorem reads_of_swept (h : s.edge.Swept cfg) (hopen : s.edge.done = false) (ht : t.expired = false) :
    reads cfg s.edge t = true := by
  have hdrain : (s.edge.poll cfg t).drain cfg = (true, s.edge.poll cfg t) :=
    Edge.drain_idle cfg h.offset h.below h.room
  simp [reads, hopen, ht, hdrain]

theorem done_of_swept (htransport : cfg.transport ≠ .tcp) (hsource : cfg.source = .file) (hdrop : cfg.dropPct ≤ 0)
    {ticks : List Tick} (hticks : ∀ t ∈ ticks, t.expired = false) (h : s.Reading file)
    (hfew : s.edge.done = true ∨ s.edge.Swept cfg ∧ (samples s.file).length < ticks.length) :
    (Runs.run (step cfg) s ticks).edge.done = true := by
  induction ticks generalizing s with
  | nil => exact hfew.resolve_right fun h => Nat.not_lt_zero _ h.2
  | cons t ticks ih =>
    obtain ⟨ht, hticks⟩ := List.forall_mem_cons.mp hticks
    refine ih hticks (h.step hsource hdrop t) ?_
    cases hopen : s.edge.done with
    | true =>
      rw [step_of_done hopen]
      exact .inl hopen
    | false =>
      obtain ⟨hswept, hlen⟩ := hfew.resolve_left (by rw [hopen]; exact Bool.false_ne_true)
      have hreads := reads_of_swept hswept hopen ht
      obtain ⟨_, _, hless⟩ := h.step_reads hsource hdrop hreads
      cases hlast : (s.step cfg t).edge.done with
      | true => exact .inl rfl
      | false =>
        have hshort := hless hlast
        rw [List.length_cons] at hlen
        have hedge : (s.step cfg t).edge = s.edge.step cfg { t with raw := (nextRaw s.file.length s.file).1 } := by
          rw [step, if_pos hreads]
        refine .inr ⟨?_, by omega⟩
        rw [hedge] at hlast ⊢
        refine (hswept.step htransport _).resolve_left ?_
        rintro ⟨hdone, _⟩
        rw [hdone] at hlast
        cases hlast

/-- But over TCP alone, the file is read to its end within one iteration more than it has samples. -/
theorem done_run (htransport : cfg.transport ≠ .tcp) (hsource : cfg.source = .file) (hdrop : cfg.dropPct ≤ 0)
    (connects : List Bool) (sends : List SendOutcome) (outcomes : List Bool) (clock : Nat → UInt64)
    (file : List UInt8) {ticks : List Tick} (hticks : ∀ t ∈ ticks, t.expired = false)
    (hlen : (samples file).length < ticks.length) :
    (Runs.run (step cfg) (start cfg connects sends outcomes clock file) ticks).edge.done = true :=
  done_of_swept htransport hsource hdrop hticks (reading_start cfg connects sends outcomes clock file)
    (.inr ⟨Edge.swept_start cfg connects sends outcomes clock, hlen⟩)

/-- **When file samples survive**: in every run within the duration that reads the file to its end, whatever the network
does: the raw values pushed are the integers of the file, in its order, if and only if each of its words that is a
decimal integer in front of a NUL or as a whole has no NUL and fits into 32 bits. -/
theorem file_iff (cfg : Config) (hsource : cfg.source = .file) (hdrop : cfg.dropPct ≤ 0) (connects : List Bool)
    (sends : List SendOutcome) (outcomes : List Bool) (clock : Nat → UInt64) (file : List UInt8) (ticks : List Tick)
    (hticks : ∀ t ∈ ticks, t.expired = false)
    (hdone : (Runs.run (step cfg) (start cfg connects sends outcomes clock file) ticks).edge.done = true) :
    (Runs.run (step cfg) (start cfg connects sends outcomes clock file) ticks).edge.pushed.map (·.rawValue.toInt) =
      integers file ↔ ∀ tok ∈ tokens file, PlainToken tok := by
  have h := unexpired_run hsource hdrop connects sends outcomes clock file hticks
  have hall := h.reading.content
  rw [h.ended hdone, show samples [] = [] from rfl, List.append_nil] at hall
  rw [← samples_iff, ← hall, List.map_map]
  rfl

/-- `7 # -3`: the comment is skipped. -/
theorem file_iff_comment :
    (Runs.run (step (.small .udp 1)) (start (.small .udp 1) [] [] [true, true] (fun _ => 0) [55, 32, 35, 32, 45, 51])
      [{}, {}, {}]).edge.pushed.map (·.rawValue.toInt) = integers [55, 32, 35, 32, 45, 51] := by
  refine (file_iff (.small .udp 1) rfl (by decide) [] [] [true, true] (fun _ => 0) [55, 32, 35, 32, 45, 51] [{}, {}, {}]
    (by decide) (by decide)).mpr ?_
  intro tok htok v hv
  have hwords : tokens [55, 32, 35, 32, 45, 51] = [[55], [35], [45, 51]] := by decide
  rw [hwords] at htok
  rcases List.mem_cons.mp htok with rfl | htok
  · cases hv
    decide
  · rcases List.mem_cons.mp htok with rfl | htok
    · cases hv
    · rw [List.mem_singleton.mp htok] at hv ⊢
      cases hv
      decide

/-- `4294967297` is no 32-bit integer, and a frame with the value 1 goes out. -/
theorem file_narrows :
    let e := (Runs.run (step (.small .udp 1)) (start (.small .udp 1) [] [] [true] (fun _ => 0)
      [52, 50, 57, 52, 57, 54, 55, 50, 57, 55]) [{}, {}]).edge
    e.done = true ∧ e.pushed.map (·.rawValue.toInt) = [1] ∧ e.credited.map (·.rawValue.toInt) = [1] ∧
      integers [52, 50, 57, 52, 57, 54, 55, 50, 57, 55] = [] := by
  decide

end FileEdge

end ZcMesh.Core
