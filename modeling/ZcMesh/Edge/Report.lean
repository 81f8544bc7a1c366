import ZcMesh.Edge.Accounting

/-!
# The final report

The last line that the edge prints, in a transport with datagrams. As long as the loop goes on, an iteration makes one
sample of the input, and the samples are sent, failed, dropped or in the batch (`Counted`). What follows the loop
flushes the batch and counts nothing: `report_iff`.
-/

namespace ZcMesh.Core.Edge

variable {cfg : Config} {e : Edge} {t : Tick} {n : Nat}

/-- The printed line adds up. -/
def AddsUp (e : Edge) : Prop := e.seq.toNat = e.sentOk.toNat + e.sentFail.toNat + e.dropped.toNat

instance (e : Edge) : Decidable e.AddsUp := inferInstanceAs (Decidable (_ = _))

/-- `n` samples so far, each of them sent, failed, dropped or in the batch. -/
structure Counted (cfg : Config) (n : Nat) (e : Edge) : Prop where
  swept : e.Swept cfg
  seq : e.seq = UInt32.ofNat n
  total : e.sentOk.toNat + e.sentFail.toNat + e.dropped.toNat + e.link.batch.count = n

theorem counted_start (cfg : Config) (connects : List Bool) (sends : List SendOutcome) (outcomes : List Bool)
    (clock : Nat → UInt64) : (start cfg connects sends outcomes clock).Counted cfg 0 := by
  have hswept := swept_start cfg connects sends outcomes clock
  obtain ⟨tcp, gate, clock', heq, _⟩ := start_spec cfg connects sends outcomes clock
  rw [heq] at hswept ⊢
  exact ⟨hswept, rfl, rfl⟩

theorem Counted.poll (h : e.Counted cfg n) (t : Tick) : (e.poll cfg t).Counted cfg n where
  swept := ⟨h.swept.sound.poll cfg t, h.swept.balanced.poll t, h.swept.offset, h.swept.below, h.swept.room,
    h.swept.handed⟩
  seq := h.seq
  total := h.total

/-- A counter that does not wrap. -/
theorem toNat_add_ofNat {a : UInt64} {m : Nat} (h : a.toNat + m < 2 ^ 64) :
    (a + UInt64.ofNat m).toNat = a.toNat + m := by
  rw [UInt64.toNat_add, UInt64.toNat_ofNat']
  omega

theorem Counted.drop (h : e.Counted cfg n) (hfew : n + 1 < 2 ^ 32) : e.drop.Counted cfg (n + 1) where
  swept := ⟨⟨h.swept.sound.batch, h.swept.sound.router⟩, h.swept.balanced.drop, h.swept.offset, h.swept.below,
    h.swept.room, h.swept.handed⟩
  seq := by
    show e.seq + 1 = UInt32.ofNat (n + 1)
    rw [h.seq, UInt32.ofNat_add]
    rfl
  total := by
    have htotal := h.total
    have hone : (e.dropped + UInt64.ofNat 1).toNat = e.dropped.toNat + 1 := toNat_add_ofNat (by omega)
    show e.sentOk.toNat + e.sentFail.toNat + (e.dropped + 1).toNat + e.link.batch.count = n + 1
    rw [show e.dropped + 1 = e.dropped + UInt64.ofNat 1 from rfl, hone]
    omega

/-- A push, and the flush behind it. -/
theorem Counted.push (h : e.Counted cfg n) (htransport : cfg.transport ≠ .tcp) (hfew : n + 1 < 2 ^ 32)
    (sensor : UInt8) (raw : Int32) : ((e.push cfg sensor raw).2.flushFull cfg).Counted cfg (n + 1) := by
  have hswept := h.swept.push htransport sensor raw
  have hsound := h.swept.sound.push cfg sensor raw
  have htotal := h.total
  have hpush := push_of_room cfg sensor raw h.swept.room
  generalize hp : (e.push cfg sensor raw).2 = p at hswept hsound
  have hseq : p.seq = UInt32.ofNat (n + 1) := by
    rw [← hp, hpush, UInt32.ofNat_add, ← h.seq]
    rfl
  have hpushed : p.sentOk.toNat + p.sentFail.toNat + p.dropped.toNat + p.link.batch.count = n + 1 := by
    rw [← hp, hpush]
    show _ + (e.link.batch.frames ++ [_]).length = n + 1
    rw [List.length_append, List.length_singleton]
    show e.sentOk.toNat + e.sentFail.toNat + e.dropped.toNat + (e.link.batch.count + 1) = n + 1
    omega
  refine ⟨hswept, ?_, ?_⟩
  all_goals
    rcases flushFull_cases cfg hsound.batch with ⟨_, _, heq⟩ | ⟨hne, hok, heq⟩ | ⟨hne, _, hkeep, _⟩ |
      ⟨hne, _, hempty, heq⟩
  · rw [heq]
    exact hseq
  · rw [heq]
    exact hseq
  · exact absurd (Link.flushBatch_cleared cfg.transport cfg.op cfg.nodeId hsound.batch hne (Or.inr htransport)) hkeep
  · rw [heq]
    exact hseq
  · rw [heq]
    exact hpushed
  · -- the flush succeeds, and the batch counts as sent
    have hempty := Link.flushBatch_cleared cfg.transport cfg.op cfg.nodeId hsound.batch hne (Or.inl hok)
    have hcount : (p.flush cfg).2.link.batch.count = 0 := congrArg List.length hempty
    rw [heq]
    show (p.sentOk + UInt64.ofNat p.link.batch.count).toNat + p.sentFail.toNat + p.dropped.toNat +
      (p.flush cfg).2.link.batch.count = n + 1
    rw [toNat_add_ofNat (by omega), hcount]
    omega
  · exact absurd (Link.flushBatch_cleared cfg.transport cfg.op cfg.nodeId hsound.batch hne (Or.inr htransport)) hkeep
  · -- the flush fails, and the batch counts as failed
    have hcount : (p.flush cfg).2.link.batch.count = 0 := congrArg List.length hempty
    rw [heq]
    show p.sentOk.toNat + (p.sentFail + UInt64.ofNat p.link.batch.count).toNat + p.dropped.toNat +
      (p.flush cfg).2.link.batch.count = n + 1
    rw [toNat_add_ofNat (by omega), hcount]
    omega

/-- A flush does not end the loop. -/
theorem done_flushFull (cfg : Config) (e : Edge) : (e.flushFull cfg).done = e.done := by
  unfold flushFull
  split
  · simp only
    repeat' split
    all_goals rfl
  · rfl

/-- An iteration that ends the loop goes straight to what follows it. -/
theorem Swept.last_step (h : e.Swept cfg) (hopen : e.done = false) (hlast : (e.step cfg t).done = true) :
    e.step cfg t = (e.poll cfg t).finish cfg := by
  have hdrain : (e.poll cfg t).drain cfg = (true, e.poll cfg t) := drain_idle cfg h.offset h.below h.room
  rcases step_cases cfg e t with ⟨hdone, _⟩ | heq | ⟨hgo, _⟩ | ⟨_, heq | heq | ⟨sensor, raw, heq⟩⟩
  · rw [hopen] at hdone
    cases hdone
  · exact heq
  · rw [hdrain] at hgo
    cases hgo
  · rw [hdrain] at heq
    exact heq
  · rw [heq, hdrain] at hlast
    exact absurd (hopen.symm.trans hlast) Bool.false_ne_true
  · have hroom : (e.poll cfg t).link.batch.count < (e.poll cfg t).link.batch.capacity := h.room
    rw [heq, hdrain, push_of_room cfg sensor raw hroom, if_pos rfl, done_flushFull] at hlast
    exact absurd (hopen.symm.trans hlast) Bool.false_ne_true

/-- One iteration makes one sample, or ends the loop. -/
theorem Counted.step (h : e.Counted cfg n) (htransport : cfg.transport ≠ .tcp) (hopen : e.done = false)
    (hfew : n + 1 < 2 ^ 32) (t : Tick) :
    (e.step cfg t).Counted cfg (n + 1) ∨ e.step cfg t = (e.poll cfg t).finish cfg := by
  have hp := h.poll t
  have hdrain := drain_idle cfg hp.swept.offset hp.swept.below hp.swept.room
  rcases step_cases cfg e t with ⟨hdone, _⟩ | heq | ⟨hgo, _⟩ | ⟨_, heq | heq | ⟨sensor, raw, heq⟩⟩
  · rw [hopen] at hdone
    cases hdone
  · exact Or.inr heq
  · rw [hdrain] at hgo
    cases hgo
  · rw [hdrain] at heq
    exact Or.inr heq
  · rw [heq, hdrain]
    exact Or.inl (hp.drop hfew)
  · have hpush := hp.push htransport hfew sensor raw
    rw [heq, hdrain]
    rw [push_of_room cfg sensor raw hp.swept.room] at hpush ⊢
    exact Or.inl hpush

/-- The samples are as many as the iterations. -/
theorem counted_run (cfg : Config) (htransport : cfg.transport ≠ .tcp) (connects : List Bool)
    (sends : List SendOutcome) (outcomes : List Bool) (clock : Nat → UInt64) (ticks : List Tick)
    (hfew : ticks.length < 2 ^ 32)
    (hopen : (Runs.run (step cfg) (start cfg connects sends outcomes clock) ticks).done = false) :
    (Runs.run (step cfg) (start cfg connects sends outcomes clock) ticks).Counted cfg ticks.length := by
  induction ticks using List.reverseRecOn with
  | nil => exact counted_start cfg connects sends outcomes clock
  | append_singleton ticks t ih =>
    rw [List.length_append, List.length_singleton] at hfew ⊢
    rw [Runs.run_snoc] at hopen ⊢
    cases hbefore : (Runs.run (step cfg) (start cfg connects sends outcomes clock) ticks).done with
    | true =>
      rw [step_of_done cfg hbefore, hbefore] at hopen
      cases hopen
    | false =>
      rcases (ih (by omega) hbefore).step htransport hbefore hfew t with hcounted | hend
      · exact hcounted
      · rw [hend] at hopen
        cases hopen

/-- The last iteration leaves the counters as they are. -/
theorem counters_finish (cfg : Config) (e : Edge) :
    (e.finish cfg).seq = e.seq ∧ (e.finish cfg).sentOk = e.sentOk ∧ (e.finish cfg).sentFail = e.sentFail ∧
      (e.finish cfg).dropped = e.dropped := by
  unfold finish
  split <;> exact ⟨rfl, rfl, rfl, rfl⟩

/-- **When the final report adds up**: in every run that ends, with any options but transport `tcp`, whatever the
outside: if and only if the batch is empty when the loop ends. What it lacks are the samples of the batch. -/
theorem report_iff (cfg : Config) (htransport : cfg.transport ≠ .tcp) (connects : List Bool)
    (sends : List SendOutcome) (outcomes : List Bool) (clock : Nat → UInt64) (ticks : List Tick) (t : Tick)
    (hopen : (Runs.run (step cfg) (start cfg connects sends outcomes clock) ticks).done = false)
    (hlast : ((Runs.run (step cfg) (start cfg connects sends outcomes clock) ticks).step cfg t).done = true)
    (hfew : ticks.length < 2 ^ 32) :
    let e := Runs.run (step cfg) (start cfg connects sends outcomes clock) ticks
    let last := e.step cfg t
    last.seq.toNat = ticks.length ∧
    last.seq.toNat = last.sentOk.toNat + last.sentFail.toNat + last.dropped.toNat + e.link.batch.count ∧
    (last.AddsUp ↔ e.link.batch.frames = []) := by
  intro e last
  have h : e.Counted cfg ticks.length := counted_run cfg htransport connects sends outcomes clock ticks hfew hopen
  obtain ⟨hseq, hok, hfail, hdropped⟩ := counters_finish cfg (e.poll cfg t)
  rw [← h.swept.last_step hopen hlast] at hseq hok hfail hdropped
  have hlen : last.seq.toNat = ticks.length := by
    rw [show last.seq = e.seq from hseq, h.seq, UInt32.toNat_ofNat']
    omega
  have htotal : ticks.length =
      last.sentOk.toNat + last.sentFail.toNat + last.dropped.toNat + e.link.batch.count := by
    rw [show last.sentOk = e.sentOk from hok, show last.sentFail = e.sentFail from hfail,
      show last.dropped = e.dropped from hdropped]
    exact h.total.symm
  refine ⟨hlen, hlen.trans htotal, ?_⟩
  rw [← List.length_eq_zero_iff]
  show last.seq.toNat = _ ↔ e.link.batch.count = 0
  omega

/-- Two samples and a batch of two: nothing is left when the input ends. -/
theorem report_iff_even :
    let e := Runs.run (step (.small .udp 2)) (start (.small .udp 2) [] [] [true, false] fun _ => 0)
      [{ raw := some 5 }, { raw := some 6 }]
    (e.step (.small .udp 2) {}).AddsUp := by
  intro e
  have h := report_iff (.small .udp 2) (by decide) [] [] [true, false] (fun _ => 0)
    [{ raw := some 5 }, { raw := some 6 }] {} (by decide) (by decide) (by decide)
  exact h.2.2.mpr (by decide)

/-- One sample and a batch of two: it goes out in the last flush, and no counter has it. -/
theorem report_short :
    let e := Runs.run (step (.small .udp 2)) (start (.small .udp 2) [] [] [true] fun _ => 0) [{ raw := some 5 }]
    let last := e.step (.small .udp 2) {}
    last.done = true ∧ last.seq = 1 ∧ last.sentOk = 0 ∧ last.sentFail = 0 ∧ last.dropped = 0 ∧ ¬ last.AddsUp := by
  decide

end ZcMesh.Core.Edge
