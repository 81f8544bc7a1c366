import ZcMesh.Lib.Run
import ZcMesh.Ring.FrameRing

/-!
# The frame ring between two threads, on numbers

One producer thread in `FrameRing.offer` and one consumer thread in `FrameRing.poll`; every load, store,
`compareAndSet` and `incrementAndGet` is one indivisible step, and the steps of the two threads interleave freely. The
indices are numbers here; `LongThreads.lean` has the threads of the code, on `long`s, and what is proved of them.

While no `compareAndSet` moves the tail under a poll that has already loaded it (`NoOvertake`), the invariant `Inv`
holds (`inv_step`): the step lemmas are `inv_producer` and `inv_consumer`.
-/

namespace ZcMesh.Operator

open Cyclic (Window)

variable {α ι : Type*}

/-! ## The two threads -/

/-- Where the producer stands in `offer`: the next access to a shared variable, with the locals of the call. The type of
the indices is `ι`. -/
inductive Producer (α ι : Type*)
  | idle
  | getTail (frame : α) (h : ι)
  | casTail (frame : α) (h t : ι)
  | incDrops (frame : α) (h : ι)
  | reloadTail (frame : α) (h : ι)
  | setSlot (frame : α) (h : ι)
  | setHead (frame : α) (h : ι)

/-- Where the consumer stands in `poll`. -/
inductive Consumer (α ι : Type*)
  | idle
  | getHead (t : ι)
  | getSlot (t h : ι)
  | clearSlot (t h : ι) (f : Option α)
  | setTail (t h : ι) (f : Option α)

/-- A finished poll: the tail and the head it loaded, and what it returned. -/
structure Poll (α ι : Type*) where
  tail : ι
  head : ι
  result : Option α

/-- The ring, the two threads, and the history: the frames of the finished offers and the finished polls, in order. -/
structure Threads (α : Type*) where
  ring : FrameRing α
  producer : Producer α Nat
  consumer : Consumer α Nat
  offered : List α
  polls : List (Poll α Nat)

/-- Call `offer` or `poll` in an idle thread (its first load), or do the next step of a call. -/
inductive Act (α : Type*)
  | offer (frame : α)
  | producer
  | poll
  | consumer

namespace Threads

/-- The next step of a call of `offer`. -/
def stepProducer (s : Threads α) : Threads α :=
  match s.producer with
  | .idle => s
  | .getTail frame h =>
    let t := s.ring.tail
    { s with producer := if s.ring.full h t then .casTail frame h t else .setSlot frame h }
  | .casTail frame h t =>
    if s.ring.tail = t then { s with ring := { s.ring with tail := t + 1 }, producer := .incDrops frame h }
    else { s with producer := .reloadTail frame h }
  | .incDrops frame h =>
    { s with ring := { s.ring with drops := s.ring.drops + 1 }, producer := .reloadTail frame h }
  | .reloadTail frame h => { s with producer := .setSlot frame h }
  | .setSlot frame h => { s with ring := s.ring.setSlot h (some frame), producer := .setHead frame h }
  | .setHead frame h =>
    { s with ring := { s.ring with head := h + 1 }, producer := .idle, offered := s.offered ++ [frame] }

/-- The next step of a call of `poll`. -/
def stepConsumer (s : Threads α) : Threads α :=
  match s.consumer with
  | .idle => s
  | .getHead t =>
    let h := s.ring.head
    if h ≤ t then { s with consumer := .idle, polls := s.polls ++ [⟨t, h, none⟩] }
    else { s with consumer := .getSlot t h }
  | .getSlot t h => { s with consumer := .clearSlot t h (s.ring.slots (s.ring.index t)) }
  | .clearSlot t h f => { s with ring := s.ring.setSlot t none, consumer := .setTail t h f }
  | .setTail t h f =>
    { s with ring := { s.ring with tail := t + 1 }, consumer := .idle, polls := s.polls ++ [⟨t, h, f⟩] }

/-- One step of one thread. A call in a busy thread does nothing. -/
def step (s : Threads α) : Act α → Threads α
  | .offer frame =>
    match s.producer with
    | .idle => { s with producer := .getTail frame s.ring.head }
    | _ => s
  | .producer => s.stepProducer
  | .poll =>
    match s.consumer with
    | .idle => { s with consumer := .getHead s.ring.tail }
    | _ => s
  | .consumer => s.stepConsumer

/-- Both threads between calls, nothing done yet. -/
def start (r : FrameRing α) : Threads α :=
  { ring := r, producer := .idle, consumer := .idle, offered := [], polls := [] }

/-- The frames the polls returned, in order. -/
def returned (s : Threads α) : List α := s.polls.filterMap Poll.result

/-- The bounds on the two indices. -/
structure Bounds (r : FrameRing α) : Prop where
  tail_le : r.tail ≤ r.head
  head_le : r.head ≤ r.tail + r.capacity

/-- The step is not a `compareAndSet` that moves the tail while a poll stands between its load and its store of the
tail. -/
def NoOvertake (s : Threads α) (a : Act α) : Prop :=
  match a, s.producer with
  | .producer, .casTail _ _ t => s.ring.tail = t → s.consumer = .idle
  | _, _ => True

/-! ## The invariant -/

/-- What the producer knows at each point of `offer`. -/
def ProducerOk (r : FrameRing α) : Producer α Nat → Prop
  | .idle => True
  | .getTail _ h => h = r.head
  | .casTail _ h t => h = r.head ∧ t ≤ r.tail ∧ h = t + r.capacity
  | .incDrops _ h | .reloadTail _ h | .setSlot _ h => h = r.head ∧ r.head < r.tail + r.capacity
  | .setHead frame h => h = r.head ∧ r.head < r.tail + r.capacity ∧ r.slots (h % r.capacity) = some frame

/-- What the consumer knows at each point of `poll`. -/
def ConsumerOk (r : FrameRing α) (offered : List α) : Consumer α Nat → Prop
  | .idle => True
  | .getHead t => t = r.tail
  | .getSlot t _ => t = r.tail ∧ t < r.head
  | .clearSlot t _ f | .setTail t _ f => t = r.tail ∧ t < r.head ∧ f = offered[t]?

/-- The drop that the producer has made but not counted yet. -/
def uncounted : Producer α ι → Nat
  | .incDrops _ _ => 1
  | _ => 0

/-- The slot that the consumer has cleared but not passed yet. -/
def cleared : Consumer α ι → Nat
  | .setTail _ _ _ => 1
  | _ => 0

/-- The invariant of the runs in which no poll is overtaken. -/
structure Inv (s : Threads α) : Prop where
  bounds : Bounds s.ring
  offered : s.offered.length = s.ring.head
  producer : ProducerOk s.ring s.producer
  consumer : ConsumerOk s.ring s.offered s.consumer
  returned : s.returned.Sublist (s.offered.take s.ring.tail)
  counted : s.returned.length + s.ring.drops + uncounted s.producer = s.ring.tail
  queued : Window s.ring.capacity s.ring.slots (s.offered[·]?) (s.ring.tail + cleared s.consumer) s.ring.head
  null_empty : ∀ p ∈ s.polls, p.result = none → p.head = p.tail

theorem inv_start {r : FrameRing α} (hr : r.head = 0 ∧ r.tail = 0 ∧ r.drops = 0) : Inv (start r) := by
  obtain ⟨hh, ht, hd⟩ := hr
  exact
    { bounds := ⟨by rw [start, hh, ht], by simp [start, hh]⟩
      offered := by simp [start, hh]
      producer := trivial
      consumer := trivial
      returned := by simp [start, returned]
      counted := by simp [start, returned, uncounted, hd, ht]
      queued := by simp [start, cleared, hh, ht, Window.empty]
      null_empty := by simp [start] }

/-! ## The producer -/

/-- The consumer knows nothing that a new tail-free step of the producer changes. -/
theorem ConsumerOk.head_mono {r : FrameRing α} {os : List α} {c : Consumer α Nat} (h : ConsumerOk r os c)
    (r' : FrameRing α) (htail : r'.tail = r.tail) (hhead : r.head ≤ r'.head) (hos : r.head = os.length) (new : List α) :
    ConsumerOk r' (os ++ new) c := by
  cases c with
  | idle => trivial
  | getHead t => exact h.trans htail.symm
  | getSlot t h' => exact ⟨h.1.trans htail.symm, Nat.lt_of_lt_of_le h.2 hhead⟩
  | clearSlot t h' f | setTail t h' f =>
    exact ⟨h.1.trans htail.symm, Nat.lt_of_lt_of_le h.2.1 hhead, by
      rw [h.2.2, List.getElem?_append_left (by rw [← hos]; exact h.2.1)]⟩

section Producer

variable {r : FrameRing α} {c : Consumer α Nat} {os : List α} {ps : List (Poll α Nat)} {frame : α} {h t : Nat}

/-- The tail is loaded: the ring is full, or it has room. -/
theorem Inv.getTail (hs : Inv ⟨r, .getTail frame h, c, os, ps⟩) :
    Inv (stepProducer ⟨r, .getTail frame h, c, os, ps⟩) := by
  obtain ⟨⟨htail, hhead⟩, hoff, hprod, hcons, hret, hcount, hqueue, hnull⟩ := hs
  simp only at htail hhead
  simp only [ProducerOk] at hprod
  by_cases hfull : r.full h r.tail
  · -- a full ring has the head exactly one capacity in front of the tail
    have hh : h = r.tail + r.capacity := by
      simp only [FrameRing.full] at hfull
      omega
    simp only [stepProducer, if_pos hfull]
    exact ⟨⟨htail, hhead⟩, hoff, ⟨hprod, Nat.le_refl _, hh⟩, hcons, hret, hcount, hqueue, hnull⟩
  · have hroom : r.head < r.tail + r.capacity := by
      simp only [FrameRing.full] at hfull
      omega
    simp only [stepProducer, if_neg hfull]
    exact ⟨⟨htail, hhead⟩, hoff, ⟨hprod, hroom⟩, hcons, hret, hcount, hqueue, hnull⟩

/-- The `compareAndSet` drops the oldest frame, or the consumer has made room. -/
theorem Inv.casTail (hs : Inv ⟨r, .casTail frame h t, c, os, ps⟩) (hok : r.tail = t → c = .idle) :
    Inv (stepProducer ⟨r, .casTail frame h t, c, os, ps⟩) := by
  obtain ⟨⟨htail, hhead⟩, hoff, hprod, hcons, hret, hcount, hqueue, hnull⟩ := hs
  simp only at htail hhead hoff hprod hcons hqueue
  obtain ⟨hh, ht, hfull⟩ := hprod
  by_cases hcas : r.tail = t
  · -- the consumer is idle, so nobody relies on the old tail
    have hidle := hok hcas
    subst hidle
    subst hcas
    simp only [stepProducer, if_true]
    exact
      { bounds := ⟨by have := r.capacity_pow2.1; show r.tail + 1 ≤ r.head; omega,
          by show r.head ≤ r.tail + 1 + r.capacity; omega⟩
        offered := hoff
        producer := ⟨hh, by show r.head < r.tail + 1 + r.capacity; omega⟩
        consumer := trivial
        returned := hret.trans (List.take_sublist_take_left (Nat.le_succ _))
        counted := by simpa [uncounted, Threads.returned] using hcount
        queued := hqueue.mono (Nat.le_succ _)
        null_empty := hnull }
  · simp only [stepProducer, if_neg hcas]
    have hroom : r.head < r.tail + r.capacity := by omega
    exact ⟨⟨htail, hhead⟩, hoff, ⟨hh, hroom⟩, hcons, hret, hcount, hqueue, hnull⟩

theorem Inv.setSlot (hs : Inv ⟨r, .setSlot frame h, c, os, ps⟩) :
    Inv (stepProducer ⟨r, .setSlot frame h, c, os, ps⟩) := by
  obtain ⟨⟨htail, hhead⟩, hoff, hprod, hcons, hret, hcount, hqueue, hnull⟩ := hs
  simp only at htail hhead hoff hprod hcons hqueue
  obtain ⟨rfl, hroom⟩ := hprod
  refine ⟨⟨htail, hhead⟩, hoff, ⟨rfl, hroom, ?_⟩, ?_, hret, hcount, ?_, hnull⟩
  · simp [stepProducer, FrameRing.setSlot, FrameRing.index_eq]
  · cases c <;> exact hcons
  · simp only [stepProducer, FrameRing.setSlot, FrameRing.index_eq]
    exact hqueue.write_above (Nat.le_refl _) (by omega) _

/-- The frame is offered. -/
theorem Inv.setHead (hs : Inv ⟨r, .setHead frame h, c, os, ps⟩) :
    Inv (stepProducer ⟨r, .setHead frame h, c, os, ps⟩) := by
  obtain ⟨⟨htail, hhead⟩, hoff, hprod, hcons, hret, hcount, hqueue, hnull⟩ := hs
  simp only at htail hhead hoff hprod hcons hqueue
  obtain ⟨rfl, hroom, hslot⟩ := hprod
  have hgrow : Window r.capacity r.slots (fun i => (os ++ [frame])[i]?) (r.tail + cleared c) (r.head + 1) := by
    refine (hqueue.congr ?_).grow ?_
    · intro i _ h2
      rw [List.getElem?_append_left (by omega)]
    · rw [hslot, ← hoff, List.getElem?_concat_length]
  exact
    { bounds := ⟨Nat.le_succ_of_le htail, by show r.head + 1 ≤ r.tail + r.capacity; omega⟩
      offered := by show (os ++ [frame]).length = r.head + 1; simp [hoff]
      producer := trivial
      consumer := hcons.head_mono { r with head := r.head + 1 } rfl (Nat.le_succ _) hoff.symm [frame]
      returned := by
        show (Threads.returned _).Sublist ((os ++ [frame]).take r.tail)
        rw [List.take_append_of_le_length (by omega)]
        exact hret
      counted := hcount
      queued := hgrow
      null_empty := hnull }

end Producer

theorem inv_producer {s : Threads α} (hs : Inv s) (hok : NoOvertake s .producer) : Inv s.stepProducer := by
  obtain ⟨r, p, c, os, ps⟩ := s
  cases p with
  | idle => exact hs
  | getTail frame h => exact hs.getTail
  | casTail frame h t => exact hs.casTail hok
  | incDrops frame h =>
    obtain ⟨⟨htail, hhead⟩, hoff, hprod, hcons, hret, hcount, hqueue, hnull⟩ := hs
    refine ⟨⟨htail, hhead⟩, hoff, hprod, ?_, hret, ?_, hqueue, hnull⟩
    · cases c <;> exact hcons
    · simp only [uncounted, returned] at hcount
      simp only [stepProducer, uncounted, returned]
      omega
  | reloadTail frame h =>
    exact ⟨hs.bounds, hs.offered, hs.producer, hs.consumer, hs.returned, hs.counted, hs.queued, hs.null_empty⟩
  | setSlot frame h => exact hs.setSlot
  | setHead frame h => exact hs.setHead

/-! ## The consumer -/

/-- What the producer knows stays true when the tail moves on. -/
theorem ProducerOk.tail_mono {r : FrameRing α} {p : Producer α Nat} (h : ProducerOk r p) :
    ProducerOk { r with tail := r.tail + 1 } p := by
  have hroom (hlt : r.head < r.tail + r.capacity) : r.head < r.tail + 1 + r.capacity := by omega
  cases p with
  | idle | getTail frame h' => exact h
  | casTail frame h' t =>
    obtain ⟨hh, ht, hfull⟩ := h
    exact ⟨hh, Nat.le_succ_of_le ht, hfull⟩
  | incDrops frame h' | reloadTail frame h' | setSlot frame h' => exact ⟨h.1, hroom h.2⟩
  | setHead frame h' => exact ⟨h.1, hroom h.2.1, h.2.2⟩

section Consumer

variable {r : FrameRing α} {p : Producer α Nat} {os : List α} {ps : List (Poll α Nat)} {h t : Nat} {f : Option α}

/-- The head is loaded: the ring is empty, and the poll returns, or the oldest frame is there. -/
theorem Inv.getHead (hs : Inv ⟨r, p, .getHead t, os, ps⟩) : Inv (stepConsumer ⟨r, p, .getHead t, os, ps⟩) := by
  obtain ⟨⟨htail, hhead⟩, hoff, hprod, hcons, hret, hcount, hqueue, hnull⟩ := hs
  simp only at htail hhead hcons
  by_cases hempty : r.head ≤ t
  · simp only [stepConsumer, if_pos hempty]
    refine ⟨⟨htail, hhead⟩, hoff, hprod, trivial, ?_, ?_, hqueue, ?_⟩
    · simpa [Threads.returned] using hret
    · simpa [Threads.returned] using hcount
    · intro q hq hnone
      rcases List.mem_append.mp hq with hq | hq
      · exact hnull q hq hnone
      · -- the tail that the poll loaded is still the tail
        rw [List.mem_singleton.mp hq]
        show r.head = t
        have : t = r.tail := hcons
        omega
  · simp only [stepConsumer, if_neg hempty]
    exact ⟨⟨htail, hhead⟩, hoff, hprod, ⟨hcons, Nat.not_le.mp hempty⟩, hret, hcount, hqueue, hnull⟩

/-- The slot at the tail is cleared; the producer's slot is another one. -/
theorem Inv.clearSlot (hs : Inv ⟨r, p, .clearSlot t h f, os, ps⟩) :
    Inv (stepConsumer ⟨r, p, .clearSlot t h f, os, ps⟩) := by
  obtain ⟨⟨htail, hhead⟩, hoff, hprod, hcons, hret, hcount, hqueue, hnull⟩ := hs
  simp only at htail hhead hoff hprod hcons hqueue
  obtain ⟨rfl, hlt, hf⟩ := hcons
  refine ⟨⟨htail, hhead⟩, hoff, ?_, ⟨rfl, hlt, hf⟩, hret, hcount, ?_, hnull⟩
  · cases p with
    | setHead frame h =>
      obtain ⟨hh, hroom, hset⟩ := hprod
      refine ⟨hh, hroom, ?_⟩
      simp only [stepConsumer, FrameRing.setSlot, FrameRing.index_eq]
      rw [Function.update_of_ne (Cyclic.mod_ne_of_lt (by omega) (by omega)).symm]
      exact hset
    | _ => exact hprod
  · simp only [stepConsumer, FrameRing.setSlot, FrameRing.index_eq]
    exact (hqueue.mono (Nat.le_succ _)).write_below (Nat.lt_succ_self _) (by omega) _

/-- The poll returns the oldest frame. -/
theorem Inv.setTail (hs : Inv ⟨r, p, .setTail t h f, os, ps⟩) :
    Inv (stepConsumer ⟨r, p, .setTail t h f, os, ps⟩) := by
  obtain ⟨⟨htail, hhead⟩, hoff, hprod, hcons, hret, hcount, hqueue, hnull⟩ := hs
  simp only at htail hhead hoff hprod hcons hqueue hnull
  obtain ⟨rfl, hlt, hf⟩ := hcons
  obtain ⟨x, hx⟩ : ∃ x, os[r.tail]? = some x := ⟨_, List.getElem?_eq_getElem (by omega)⟩
  rw [hx] at hf
  subst hf
  have hreturned : (stepConsumer ⟨r, p, .setTail r.tail h (some x), os, ps⟩).returned =
      Threads.returned ⟨r, p, .setTail r.tail h (some x), os, ps⟩ ++ [x] := by
    simp [stepConsumer, Threads.returned]
  refine ⟨⟨hlt, by show r.head ≤ r.tail + 1 + r.capacity; omega⟩, hoff, hprod.tail_mono, trivial, ?_, ?_, hqueue, ?_⟩
  · rw [hreturned]
    show (_ ++ [x]).Sublist (os.take (r.tail + 1))
    rw [List.take_add_one, hx]
    exact hret.append (List.Sublist.refl _)
  · rw [hreturned, List.length_append, List.length_singleton]
    show _ + 1 + r.drops + uncounted p = r.tail + 1
    simp only at hcount
    omega
  · intro q hq hnone
    rcases List.mem_append.mp hq with hq | hq
    · exact hnull q hq hnone
    · rw [List.mem_singleton.mp hq] at hnone
      cases hnone

end Consumer

theorem inv_consumer {s : Threads α} (hs : Inv s) : Inv s.stepConsumer := by
  obtain ⟨r, p, c, os, ps⟩ := s
  cases c with
  | idle => exact hs
  | getHead t => exact hs.getHead
  | getSlot t h =>
    obtain ⟨⟨htail, hhead⟩, hoff, hprod, hcons, hret, hcount, hqueue, hnull⟩ := hs
    simp only at hcons hqueue
    obtain ⟨rfl, hlt⟩ := hcons
    have hslot := hqueue r.tail (Nat.le_refl _) hlt
    rw [← FrameRing.index_eq] at hslot
    exact ⟨⟨htail, hhead⟩, hoff, hprod, ⟨rfl, hlt, hslot⟩, hret, hcount, hqueue, hnull⟩
  | clearSlot t h f => exact hs.clearSlot
  | setTail t h f => exact hs.setTail

/-! ## Runs -/

theorem inv_step {s : Threads α} (hs : Inv s) (a : Act α) (hok : NoOvertake s a) : Inv (s.step a) := by
  cases a with
  | offer frame =>
    obtain ⟨r, p, c, os, ps⟩ := s
    cases p with
    | idle => exact ⟨hs.bounds, hs.offered, rfl, hs.consumer, hs.returned, hs.counted, hs.queued, hs.null_empty⟩
    | _ => exact hs
  | producer => exact inv_producer hs hok
  | poll =>
    obtain ⟨r, p, c, os, ps⟩ := s
    cases c with
    | idle => exact ⟨hs.bounds, hs.offered, hs.producer, rfl, hs.returned, hs.counted, hs.queued, hs.null_empty⟩
    | _ => exact hs
  | consumer => exact inv_consumer hs

/-- The tail never goes back, and does not pass the head. -/
theorem Inv.tail_step {s : Threads α} (hs : Inv s) (a : Act α) :
    s.ring.tail ≤ (s.step a).ring.tail ∧ (s.step a).ring.tail ≤ s.ring.head := by
  have hstays : s.ring.tail ≤ s.ring.tail ∧ s.ring.tail ≤ s.ring.head := ⟨Nat.le_refl _, hs.bounds.tail_le⟩
  obtain ⟨r, p, c, os, ps⟩ := s
  cases a with
  | offer frame => cases p <;> exact hstays
  | poll => cases c <;> exact hstays
  | producer =>
    cases p with
    | casTail frame h t =>
      obtain ⟨hh, -, hfull⟩ : h = r.head ∧ t ≤ r.tail ∧ h = t + r.capacity := hs.producer
      have hpos := r.capacity_pow2.1
      by_cases hcas : r.tail = t
      · simp only [step, stepProducer, if_pos hcas]
        omega
      · simp only [step, stepProducer, if_neg hcas]
        exact hstays
    | _ => exact hstays
  | consumer =>
    cases c with
    | getHead t =>
      simp only [step, stepConsumer]
      split <;> exact hstays
    | setTail t h f =>
      obtain ⟨rfl, hlt, -⟩ : t = r.tail ∧ t < r.head ∧ _ := hs.consumer
      exact ⟨Nat.le_succ _, hlt⟩
    | _ => exact hstays

end Threads

end ZcMesh.Operator
