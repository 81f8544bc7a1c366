import ZcMesh.Ring.Interleaving
import ZcMesh.Ring.LongRing

/-!
# The frame ring between two threads

`FrameRing.offer` in one thread and `FrameRing.poll` in another, on the `long`s of the code. Every load, store,
`compareAndSet` and `incrementAndGet` is one indivisible step, and the steps of the two threads interleave freely.

* The threads on numbers of `Interleaving.lean` take the same steps, as long as the head is below `2 ^ 63`
  (`Reflects.step`), so their invariant holds here as well (`reflected_run`).
* In every run in which no `compareAndSet` moves the tail under a poll and the head does not wrap, the ring is a correct
  queue (`run_correct`).
* Where the tail is moved, the poll stores the one that it computed from its own load, and the tail goes back
  (`overtaken_poll`).
* A thread that runs alone executes the sequential `offer` and `poll` (`offer_alone`, `poll_alone`).
-/

namespace ZcMesh.Operator

variable {α ι κ : Type*}

/-! ## The two threads -/

/-- The ring, the two threads, and the history: the frames of the finished offers and the finished polls, in order. -/
structure LongThreads (α : Type*) where
  ring : LongRing α
  producer : Producer α Int64
  consumer : Consumer α Int64
  offered : List α
  polls : List (Poll α Int64)

namespace LongThreads

/-- The next step of a call of `offer`. -/
def stepProducer (s : LongThreads α) : LongThreads α :=
  match s.producer with
  | .idle => s
  | .getTail frame h =>
    let t := s.ring.tail
    { s with producer := if h - t ≥ s.ring.length.toInt64 then .casTail frame h t else .setSlot frame h }
  | .casTail frame h t =>
    if s.ring.tail = t then { s with ring := { s.ring with tail := t + 1 }, producer := .incDrops frame h }
    else { s with producer := .reloadTail frame h }
  | .incDrops frame h =>
    { s with ring := { s.ring with drops := s.ring.drops + 1 }, producer := .reloadTail frame h }
  | .reloadTail frame h => { s with producer := .setSlot frame h }
  | .setSlot frame h =>
    { s with
      ring := { s.ring with slots := Function.update s.ring.slots (s.ring.index h) (some frame) }
      producer := .setHead frame h }
  | .setHead frame h =>
    { s with ring := { s.ring with head := h + 1 }, producer := .idle, offered := s.offered ++ [frame] }

/-- The next step of a call of `poll`. -/
def stepConsumer (s : LongThreads α) : LongThreads α :=
  match s.consumer with
  | .idle => s
  | .getHead t =>
    let h := s.ring.head
    if t ≥ h then { s with consumer := .idle, polls := s.polls ++ [⟨t, h, none⟩] }
    else { s with consumer := .getSlot t h }
  | .getSlot t h => { s with consumer := .clearSlot t h (s.ring.slots (s.ring.index t)) }
  | .clearSlot t h f =>
    { s with
      ring := { s.ring with slots := Function.update s.ring.slots (s.ring.index t) none }
      consumer := .setTail t h f }
  | .setTail t h f =>
    { s with ring := { s.ring with tail := t + 1 }, consumer := .idle, polls := s.polls ++ [⟨t, h, f⟩] }

/-- One step of one thread. A call in a busy thread does nothing. -/
def step (s : LongThreads α) : Act α → LongThreads α
  | .offer frame =>
    match s.producer with
    | .idle => { s with producer := .getTail frame s.ring.head }
    | _ => s
  | .producer => s.stepProducer
  | .poll =>
    match s.consumer with
    | .idle => { s with consumer := .getHead s.ring.tail }
    | _ => s
  | .consumer => s.stepConsumer

/-- Both threads between calls, nothing done yet. -/
def start (r : LongRing α) : LongThreads α :=
  { ring := r, producer := .idle, consumer := .idle, offered := [], polls := [] }

/-- The frames the polls returned, in order. -/
def returned (s : LongThreads α) : List α := s.polls.filterMap Poll.result

/-! ## Correctness -/

/-- The bounds on the two indices. -/
structure Bounds (r : LongRing α) : Prop where
  tail_le : r.tail.toInt ≤ r.head.toInt
  head_le : r.head.toInt ≤ r.tail.toInt + r.length.toInt

/-- Between calls: of the frames offered in front of the tail some were returned, in order and each once, and the rest
are counted in `drops`; those from the tail on are in their slots; a poll returned `null` only when it saw the ring
empty. -/
structure Settled (s : LongThreads α) : Prop where
  offered : (s.offered.length : Int) = s.ring.head.toInt
  returned : s.returned.Sublist (s.offered.take s.ring.tail.toInt.toNat)
  counted : s.returned.length + s.ring.drops.toInt = s.ring.tail.toInt
  queued : ∀ i : Nat, s.ring.tail.toInt ≤ i → i < s.ring.head.toInt →
    s.ring.slots (s.ring.index (Int64.ofNat i)) = s.offered[i]?
  null_empty : ∀ p ∈ s.polls, p.result = none → p.head = p.tail

/-- What a reachable state should satisfy. -/
def Correct (s : LongThreads α) : Prop :=
  Bounds s.ring ∧ (s.producer = .idle → s.consumer = .idle → Settled s)

/-- The step is not a `compareAndSet` that moves the tail while a poll stands between its load and its store of the
tail. -/
def NoOvertake (s : LongThreads α) (a : Act α) : Prop :=
  match a, s.producer with
  | .producer, .casTail _ _ t => s.ring.tail = t → s.consumer = .idle
  | _, _ => True

/-- The step does not store a head that has wrapped. -/
def NoWrap (s : LongThreads α) (a : Act α) : Prop :=
  match a, s.producer with
  | .producer, .setHead _ h => h ≠ Int64.maxValue
  | _, _ => True

end LongThreads

/-! ## The threads on numbers -/

def Producer.map (f : ι → κ) : Producer α ι → Producer α κ
  | .idle => .idle
  | .getTail frame h => .getTail frame (f h)
  | .casTail frame h t => .casTail frame (f h) (f t)
  | .incDrops frame h => .incDrops frame (f h)
  | .reloadTail frame h => .reloadTail frame (f h)
  | .setSlot frame h => .setSlot frame (f h)
  | .setHead frame h => .setHead frame (f h)

def Consumer.map (f : ι → κ) : Consumer α ι → Consumer α κ
  | .idle => .idle
  | .getHead t => .getHead (f t)
  | .getSlot t h => .getSlot (f t) (f h)
  | .clearSlot t h g => .clearSlot (f t) (f h) g
  | .setTail t h g => .setTail (f t) (f h) g

def Poll.map (f : ι → κ) (p : Poll α ι) : Poll α κ := ⟨f p.tail, f p.head, p.result⟩

/-- The `long`s of `l` are the numbers of `s`, modulo `2 ^ 64`. -/
structure Reflects (l : LongThreads α) (s : Threads α) : Prop where
  ring : Counts l.ring s.ring
  producer : l.producer = s.producer.map Int64.ofNat
  consumer : l.consumer = s.consumer.map Int64.ofNat
  offered : l.offered = s.offered
  polls : l.polls = s.polls.map (Poll.map Int64.ofNat)

theorem ofNat_inj {m n : Nat} (hm : m < 2 ^ 63) (hn : n < 2 ^ 63) : Int64.ofNat m = Int64.ofNat n ↔ m = n := by
  rw [← Int64.toInt_inj, Int64.toInt_ofNat_of_lt hm, Int64.toInt_ofNat_of_lt hn]
  exact Int.ofNat_inj

namespace Counts

variable {l : LongRing α} {r : FrameRing α}

/-- A store of the tail. -/
theorem withTail (h : Counts l r) (t : Nat) : Counts { l with tail := Int64.ofNat t } { r with tail := t } :=
  { h with tail_eq := rfl }

/-- A store of the head. -/
theorem withHead (h : Counts l r) (n : Nat) : Counts { l with head := Int64.ofNat n } { r with head := n } :=
  { h with head_eq := rfl }

theorem countDrop (h : Counts l r) : Counts { l with drops := l.drops + 1 } { r with drops := r.drops + 1 } :=
  { h with
    drops_eq := by
      show l.drops + 1 = _
      rw [h.drops_eq, ← ofNat_succ] }

/-- A store into a slot. -/
theorem withSlot (h : Counts l r) (i : Nat) (y : Option α) :
    Counts { l with slots := Function.update l.slots (l.index (Int64.ofNat i)) y } (r.setSlot i y) :=
  { h with
    slots_eq := by
      show Function.update l.slots _ y = Function.update r.slots _ y
      rw [h.slots_eq, h.index_eq] }

end Counts

namespace Reflects

variable {l : LongThreads α} {s : Threads α}

/-- **A step of the producer** is the step on numbers. -/
theorem stepProducer (h : Reflects l s) (hs : Threads.Inv s) (hlt : s.ring.head < 2 ^ 63) :
    Reflects l.stepProducer s.stepProducer := by
  obtain ⟨lr, lp, lc, los, lps⟩ := l
  obtain ⟨r, p, c, os, ps⟩ := s
  obtain ⟨hring, hp, hc, ho, hps⟩ := h
  simp only at hring hp hc ho hps hlt
  subst hp
  have hle : r.tail ≤ r.head := hs.bounds.tail_le
  have htail := hring.tail_eq
  cases p with
  | idle => exact ⟨hring, rfl, hc, ho, hps⟩
  | getTail frame h =>
    obtain rfl : h = r.head := hs.producer
    have hfull := hring.full_iff hle hs.bounds.head_le
    by_cases hcond : r.full r.head r.tail
    · simp only [LongThreads.stepProducer, Producer.map, hfull.mpr hcond, Threads.stepProducer, hcond, if_true]
      exact ⟨hring, by rw [htail]; rfl, hc, ho, hps⟩
    · simp only [LongThreads.stepProducer, Producer.map, mt hfull.mp hcond, Threads.stepProducer, hcond, if_false]
      exact ⟨hring, rfl, hc, ho, hps⟩
  | casTail frame h t =>
    obtain ⟨-, ht, -⟩ : h = r.head ∧ t ≤ r.tail ∧ h = t + r.capacity := hs.producer
    have hcas : lr.tail = Int64.ofNat t ↔ r.tail = t := by
      rw [htail]
      exact ofNat_inj (by omega) (by omega)
    by_cases hcond : r.tail = t
    · simp only [LongThreads.stepProducer, Producer.map, hcas.mpr hcond, Threads.stepProducer, hcond, if_true,
        ← ofNat_succ]
      exact ⟨hring.withTail (t + 1), rfl, hc, ho, hps⟩
    · simp only [LongThreads.stepProducer, Producer.map, mt hcas.mp hcond, Threads.stepProducer, hcond, if_false]
      exact ⟨hring, rfl, hc, ho, hps⟩
  | incDrops frame h => exact ⟨hring.countDrop, rfl, hc, ho, hps⟩
  | reloadTail frame h => exact ⟨hring, rfl, hc, ho, hps⟩
  | setSlot frame h => exact ⟨hring.withSlot h (some frame), rfl, hc, ho, hps⟩
  | setHead frame h =>
    simp only [LongThreads.stepProducer, Producer.map, Threads.stepProducer, ← ofNat_succ]
    exact ⟨hring.withHead (h + 1), rfl, hc, by rw [ho], hps⟩

/-- **A step of the consumer**, likewise. -/
theorem stepConsumer (h : Reflects l s) (hs : Threads.Inv s) (hlt : s.ring.head < 2 ^ 63) :
    Reflects l.stepConsumer s.stepConsumer := by
  obtain ⟨lr, lp, lc, los, lps⟩ := l
  obtain ⟨r, p, c, os, ps⟩ := s
  obtain ⟨hring, hp, hc, ho, hps⟩ := h
  simp only at hring hp hc ho hps hlt
  subst hc
  have hle : r.tail ≤ r.head := hs.bounds.tail_le
  cases c with
  | idle => exact ⟨hring, hp, rfl, ho, hps⟩
  | getHead t =>
    obtain rfl : t = r.tail := hs.consumer
    have hempty : Int64.ofNat r.tail ≥ lr.head ↔ r.head ≤ r.tail := by
      rw [hring.head_eq]
      exact Int64.ofNat_le_iff_le hlt (by omega)
    by_cases hcond : r.head ≤ r.tail
    · simp only [LongThreads.stepConsumer, Consumer.map, hempty.mpr hcond, Threads.stepConsumer, hcond, if_true]
      refine ⟨hring, hp, rfl, ho, ?_⟩
      rw [hps, List.map_append, hring.head_eq]
      rfl
    · simp only [LongThreads.stepConsumer, Consumer.map, mt hempty.mp hcond, Threads.stepConsumer, hcond, if_false]
      exact ⟨hring, hp, by rw [hring.head_eq]; rfl, ho, hps⟩
  | getSlot t h =>
    refine ⟨hring, hp, ?_, ho, hps⟩
    simp only [LongThreads.stepConsumer, Consumer.map, Threads.stepConsumer, hring.slots_eq, hring.index_eq]
  | clearSlot t h f => exact ⟨hring.withSlot t none, hp, rfl, ho, hps⟩
  | setTail t h f =>
    simp only [LongThreads.stepConsumer, Consumer.map, Threads.stepConsumer, ← ofNat_succ]
    refine ⟨hring.withTail (t + 1), hp, rfl, ho, ?_⟩
    rw [hps, List.map_append]
    rfl

theorem consumer_idle (c : Consumer α ι) (f : ι → κ) : c.map f = .idle ↔ c = .idle := by
  cases c <;> simp [Consumer.map]

theorem producer_idle (p : Producer α ι) (f : ι → κ) : p.map f = .idle ↔ p = .idle := by
  cases p <;> simp [Producer.map]

/-- **One step of one thread**, whatever it is. -/
theorem step (h : Reflects l s) (hs : Threads.Inv s) (hlt : s.ring.head < 2 ^ 63) (a : Act α) :
    Reflects (l.step a) (s.step a) := by
  cases a with
  | producer => exact h.stepProducer hs hlt
  | consumer => exact h.stepConsumer hs hlt
  | offer frame =>
    obtain ⟨lr, lp, lc, los, lps⟩ := l
    obtain ⟨r, p, c, os, ps⟩ := s
    obtain ⟨hring, hp, hc, ho, hps⟩ := h
    simp only at hring hp hc ho hps
    subst hp
    cases p with
    | idle => exact ⟨hring, by simp only [LongThreads.step, Producer.map, Threads.step, hring.head_eq], hc, ho, hps⟩
    | _ => exact ⟨hring, rfl, hc, ho, hps⟩
  | poll =>
    obtain ⟨lr, lp, lc, los, lps⟩ := l
    obtain ⟨r, p, c, os, ps⟩ := s
    obtain ⟨hring, hp, hc, ho, hps⟩ := h
    simp only at hring hp hc ho hps
    subst hc
    cases c with
    | idle => exact ⟨hring, hp, by simp only [LongThreads.step, Consumer.map, Threads.step, hring.tail_eq], ho, hps⟩
    | _ => exact ⟨hring, hp, rfl, ho, hps⟩

/-- A poll that is overtaken on numbers is overtaken on `long`s. -/
theorem noOvertake (h : Reflects l s) (hs : Threads.Inv s) (hlt : s.ring.head < 2 ^ 63) {a : Act α}
    (hok : l.NoOvertake a) : s.NoOvertake a := by
  obtain ⟨lr, lp, lc, los, lps⟩ := l
  obtain ⟨r, p, c, os, ps⟩ := s
  obtain ⟨hring, hp, hc, ho, hps⟩ := h
  simp only at hring hp hc hlt
  subst hp hc
  cases a with
  | offer | poll | consumer => trivial
  | producer =>
    cases p with
    | casTail frame h t =>
      intro hcas
      have hidle := hok (by rw [hring.tail_eq]; exact congrArg Int64.ofNat hcas)
      exact (consumer_idle c Int64.ofNat).mp hidle
    | _ => trivial

/-- While it does not wrap, the head stays below `2 ^ 63`. -/
theorem head_lt (h : Reflects l s) (hs : Threads.Inv s) (hlt : s.ring.head < 2 ^ 63) {a : Act α} (hok : l.NoWrap a) :
    (s.step a).ring.head < 2 ^ 63 := by
  obtain ⟨r, p, c, os, ps⟩ := s
  have hp := h.producer
  simp only at hlt hp
  cases a with
  | offer frame => cases p <;> exact hlt
  | poll => cases c <;> exact hlt
  | consumer =>
    cases c with
    | getHead t =>
      simp only [Threads.step, Threads.stepConsumer]
      split <;> exact hlt
    | _ => exact hlt
  | producer =>
    cases p with
    | casTail frame h t =>
      simp only [Threads.step, Threads.stepProducer]
      split <;> exact hlt
    | setHead frame i =>
      obtain ⟨rfl, -⟩ : i = r.head ∧ _ := hs.producer
      simp only [LongThreads.NoWrap, hp, Producer.map] at hok
      have hne : r.head ≠ 2 ^ 63 - 1 := fun heq => hok (by rw [heq]; rfl)
      show r.head + 1 < 2 ^ 63
      omega
    | _ => exact hlt

theorem returned_eq (h : Reflects l s) : l.returned = s.returned := by
  rw [LongThreads.returned, h.polls, List.filterMap_map]
  rfl

/-- Between calls. -/
theorem settled (h : Reflects l s) (hs : Threads.Inv s) (hlt : s.ring.head < 2 ^ 63) (hp : s.producer = .idle)
    (hc : s.consumer = .idle) : l.Settled := by
  have hle := hs.bounds.tail_le
  have hcounted : s.returned.length + s.ring.drops = s.ring.tail := by
    simpa [hp, Threads.uncounted] using hs.counted
  have hhead : l.ring.head.toInt = s.ring.head := by rw [h.ring.head_eq, Int64.toInt_ofNat_of_lt hlt]
  have htail : l.ring.tail.toInt = s.ring.tail := by rw [h.ring.tail_eq, Int64.toInt_ofNat_of_lt (by omega)]
  exact
    { offered := by rw [hhead, h.offered, hs.offered]
      returned := by
        rw [h.returned_eq, htail, h.offered]
        exact hs.returned
      counted := by
        rw [h.returned_eq, htail, h.ring.drops_eq, Int64.toInt_ofNat_of_lt (by omega)]
        exact_mod_cast hcounted
      queued := by
        intro i hlo hhi
        rw [htail] at hlo
        rw [hhead] at hhi
        rw [h.ring.slots_eq, h.ring.index_eq, FrameRing.index_eq, h.offered]
        refine hs.queued i ?_ (by exact_mod_cast hhi)
        rw [hc]
        exact_mod_cast hlo
      null_empty := by
        intro p hpoll hnone
        rw [h.polls] at hpoll
        obtain ⟨p', hp', rfl⟩ := List.mem_map.mp hpoll
        exact congrArg Int64.ofNat (hs.null_empty p' hp' hnone) }

/-- **What the numbers say of the `long`s.** -/
theorem correct (h : Reflects l s) (hs : Threads.Inv s) (hlt : s.ring.head < 2 ^ 63) : l.Correct := by
  have hle := hs.bounds.tail_le
  refine ⟨⟨?_, ?_⟩, fun hp hc => h.settled hs hlt ?_ ?_⟩
  · rw [h.ring.head_eq, h.ring.tail_eq, Int64.toInt_ofNat_of_lt hlt, Int64.toInt_ofNat_of_lt (by omega)]
    exact_mod_cast hle
  · rw [h.ring.head_eq, h.ring.tail_eq, h.ring.length_eq, Int64.toInt_ofNat_of_lt hlt,
      Int64.toInt_ofNat_of_lt (by omega), Int32.toInt_ofNat_of_lt h.ring.capacity_lt]
    exact_mod_cast hs.bounds.head_le
  · exact (producer_idle _ _).mp (h.producer.symm.trans hp)
  · exact (consumer_idle _ _).mp (h.consumer.symm.trans hc)

end Reflects

/-! ## Runs -/

/-- A new ring on `long`s is one on numbers. -/
theorem counts_make {c : Int32} {l : LongRing α} (h : LongRing.make c = .ok l) :
    ∃ r : FrameRing α, Counts l r ∧ r.head = 0 ∧ r.tail = 0 ∧ r.drops = 0 := by
  have hmake := h
  unfold LongRing.make at h
  split at h
  · cases h
  · rename_i hok
    rw [not_or, not_not, Int32.not_lt, Int32.le_iff_toInt_le] at hok
    obtain ⟨hsmall, hand⟩ := hok
    have htwo : (2 : Int) ≤ c.toInt := hsmall
    obtain ⟨n, hn⟩ := Int.eq_ofNat_of_zero_le (show 0 ≤ c.toInt by omega)
    obtain ⟨-, -, hiff⟩ := and_pred_eq_zero hn (by omega)
    obtain ⟨l', hl', hnew⟩ := @Stands.new α c n hn ⟨by omega, hiff.mp hand⟩
    cases hmake.symm.trans hl'
    exact ⟨_, hnew.counts, rfl, rfl, rfl⟩

namespace LongThreads

/-- The condition on a step: it neither overtakes a poll nor wraps the head. -/
def InOrder (s : LongThreads α) (a : Act α) : Prop := s.NoOvertake a ∧ s.NoWrap a

/-- A run that meets the condition is a run on numbers. -/
theorem reflected_run {c : Int32} {r : LongRing α} (hr : LongRing.make c = .ok r) {acts : List (Act α)}
    (hok : Runs.AllSteps step InOrder (start r) acts) :
    ∃ s : Threads α, Reflects (Runs.run step (start r) acts) s ∧ Threads.Inv s ∧ s.ring.head < 2 ^ 63 := by
  obtain ⟨r', hcounts, hzero⟩ := counts_make hr
  refine Runs.run_inv_of_steps (P := fun l => ∃ s : Threads α, Reflects l s ∧ Threads.Inv s ∧ s.ring.head < 2 ^ 63)
    ?_ acts _ hok ⟨.start r', ⟨hcounts, rfl, rfl, rfl, rfl⟩, Threads.inv_start hzero, ?_⟩
  · rintro l a ⟨s, h, hs, hlt⟩ ⟨hovertake, hwrap⟩
    exact ⟨s.step a, h.step hs hlt a, Threads.inv_step hs a (h.noOvertake hs hlt hovertake), h.head_lt hs hlt hwrap⟩
  · show r'.head < 2 ^ 63
    rw [hzero.1]
    decide

/-- **The ring is a correct queue in every run in which no poll is overtaken and the head does not wrap**, and its tail
never goes back. -/
theorem run_correct {c : Int32} {r : LongRing α} (hr : LongRing.make c = .ok r) {acts : List (Act α)}
    (hok : Runs.AllSteps step InOrder (start r) acts) :
    Correct (Runs.run step (start r) acts) ∧
      ∀ a, (Runs.run step (start r) acts).ring.tail ≤ ((Runs.run step (start r) acts).step a).ring.tail := by
  obtain ⟨s, h, hs, hlt⟩ := reflected_run hr hok
  refine ⟨h.correct hs hlt, fun a => ?_⟩
  obtain ⟨hmono, hle⟩ := hs.tail_step a
  rw [h.ring.tail_eq, (h.step hs hlt a).ring.tail_eq]
  exact (Int64.ofNat_le_iff_le (by omega) (by omega)).mpr hmono

/-- Two offers, a poll that is not finished when the ring is full again, and a third offer behind it. -/
def interleaved : List (Act Nat) :=
  .offer 0 :: List.replicate 3 .producer ++ .offer 1 :: List.replicate 3 .producer ++
    [.poll, .consumer, .consumer, .offer 2, .producer, .consumer, .consumer] ++ List.replicate 4 .producer

theorem run_correct_interleaved :
    ∃ r : LongRing Nat, LongRing.make 2 = .ok r ∧ Correct (Runs.run step (start r) interleaved) :=
  ⟨_, rfl, (run_correct (c := 2) rfl (by
    have hmax : Int64.maxValue = 9223372036854775807 := rfl
    simp [interleaved, List.replicate, Runs.AllSteps, InOrder, NoOvertake, NoWrap, step, stepProducer, stepConsumer,
      start, hmax])).1⟩

/-- Two offers fill the ring; a poll loads the tail; two more offers move it; the poll goes on. -/
def overtaking : List (Act Nat) :=
  .offer 0 :: List.replicate 3 .producer ++ .offer 1 :: List.replicate 3 .producer ++ [.poll] ++
    .offer 2 :: List.replicate 6 .producer ++ .offer 3 :: List.replicate 6 .producer ++ List.replicate 4 .consumer

/-- **An overtaken poll breaks the ring**: it puts the tail back, more than a capacity behind the head. -/
theorem overtaken_poll :
    ∃ r : LongRing Nat, LongRing.make 2 = .ok r ∧ ¬Correct (Runs.run step (start r) overtaking) := by
  refine ⟨_, rfl, ?_⟩
  intro h
  have hhead := h.1.head_le
  revert hhead
  decide

/-! ## One thread alone -/

/-- A producer that runs alone executes `offer`. -/
theorem offer_alone (s : LongThreads α) (h : s.producer = .idle) (frame : α) :
    Runs.run step s (.offer frame :: List.replicate 6 .producer) =
      { s with ring := (s.ring.offer frame).2, offered := s.offered ++ [frame] } := by
  obtain ⟨r, p, c, os, ps⟩ := s
  subst h
  by_cases hfull : r.head - r.tail ≥ r.length.toInt64
  all_goals
    simp [List.replicate, step, stepProducer, LongRing.offer, LongRing.index, hfull]

/-- A consumer that runs alone executes `poll`. -/
theorem poll_alone (s : LongThreads α) (h : s.consumer = .idle) :
    Runs.run step s (.poll :: List.replicate 4 .consumer) =
      { s with ring := s.ring.poll.2, polls := s.polls ++ [⟨s.ring.tail, s.ring.head, s.ring.poll.1⟩] } := by
  obtain ⟨r, p, c, os, ps⟩ := s
  subst h
  by_cases hempty : r.tail ≥ r.head
  all_goals
    simp [List.replicate, step, stepConsumer, LongRing.poll, LongRing.index, hempty]

end LongThreads

end ZcMesh.Operator
