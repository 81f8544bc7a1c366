import ZcMesh.Lib.Ewma
import ZcMesh.Stats.Partition

/-!
# The inter-arrival average

`trackInterArrival` reads the clock once for each accepted frame, and `offer` once more for the state of the node. On
times that do not run backwards the average is that of `Ewma` with a share of one in 16, without overflow
(`trackInterArrival_next`), so it stays between the deltas that were observed (`ewma_between`).
-/

namespace ZcMesh.Operator

/-! ## Times -/

/-- The time that `trackInterArrival` reads for the accepted frame number `i`. -/
def arrivalTime (nanoTimes : Nat → Int64) (i : Nat) : Int64 := nanoTimes (2 * i)

/-- The times of `n` accepted frames are positive and do not run backwards. -/
structure Steady (nanoTimes : Nat → Int64) (n : Nat) : Prop where
  positive : ∀ i < n, 0 < arrivalTime nanoTimes i
  monotone : ∀ i, i + 1 < n → arrivalTime nanoTimes i ≤ arrivalTime nanoTimes (i + 1)

/-- The times between `n` accepted frames, in nanoseconds. -/
def interArrivals (nanoTimes : Nat → Int64) (n : Nat) : List Int :=
  (List.range (n - 1)).map fun i => (arrivalTime nanoTimes (i + 1)).toInt - (arrivalTime nanoTimes i).toInt

theorem Steady.mono {nanoTimes : Nat → Int64} {m n : Nat} (h : Steady nanoTimes n) (hmn : m ≤ n) :
    Steady nanoTimes m where
  positive i hi := h.positive i (by omega)
  monotone i hi := h.monotone i (by omega)

/-- A delta of a steady clock is not negative. -/
theorem Steady.interArrival_nonneg {nanoTimes : Nat → Int64} {n : Nat} (h : Steady nanoTimes n) {delta : Int}
    (hdelta : delta ∈ interArrivals nanoTimes n) : 0 ≤ delta := by
  obtain ⟨i, hi, rfl⟩ := List.mem_map.mp hdelta
  have hlt := List.mem_range.mp hi
  have hle := Int64.le_iff_toInt_le.mp (h.monotone i (by omega))
  omega

/-! ## One step -/

theorem toInt_shift (x : Int64) : (x >>> 4).toInt = x.toInt / 16 := by
  have hbits : (x >>> 4).toInt = (x.toBitVec.sshiftRight 4).toInt := rfl
  rw [hbits, BitVec.toInt_sshiftRight, Int.shiftRight_eq_div_pow]
  rfl

/-- The step of the average does not overflow. -/
theorem toInt_blend {ewma delta : Int64} (hewma : 0 ≤ ewma.toInt) (hdelta : 0 ≤ delta.toInt) :
    (ewma - (ewma >>> 4) + (delta >>> 4)).toInt = Ewma.blend 16 ewma.toInt delta.toInt := by
  have he := ewma.toInt_lt
  have hd := delta.toInt_lt
  have hkeep : (ewma - (ewma >>> 4)).toInt = ewma.toInt - ewma.toInt / 16 := by
    rw [Int64.toInt_sub, toInt_shift]
    exact Int.bmod_eq_of_le (by omega) (by omega)
  rw [Int64.toInt_add, hkeep, toInt_shift, Ewma.blend]
  exact Int.bmod_eq_of_le (by omega) (by omega)

/-- The first frame only sets the time. -/
theorem trackInterArrival_first {p : InterArrival} (h : p.lastOfferNs = 0) (now : Int64) :
    p.trackInterArrival now = { p with lastOfferNs := now } := by
  simp [InterArrival.trackInterArrival, h]

/-- **A later frame makes a step of the average**, without overflow. -/
theorem trackInterArrival_next {p : InterArrival} {now : Int64} (hprev : 0 < p.lastOfferNs.toInt)
    (hnow : p.lastOfferNs.toInt ≤ now.toInt) (hewma : 0 ≤ p.interArrivalEwmaNs.toInt) :
    (p.trackInterArrival now).lastOfferNs = now ∧
      (p.trackInterArrival now).interArrivalEwmaNs.toInt =
        Ewma.step 16 p.interArrivalEwmaNs.toInt (now.toInt - p.lastOfferNs.toInt) := by
  have hstarted : p.lastOfferNs ≠ 0 := by
    intro hzero
    rw [hzero, Int64.toInt_zero] at hprev
    omega
  have hmax := now.toInt_lt
  have hdelta : (now - p.lastOfferNs).toInt = now.toInt - p.lastOfferNs.toInt := by
    rw [Int64.toInt_sub]
    exact Int.bmod_eq_of_le (by omega) (by omega)
  have hzero : p.interArrivalEwmaNs = 0 ↔ p.interArrivalEwmaNs.toInt = 0 := by
    rw [← Int64.toInt_inj, Int64.toInt_zero]
  simp only [InterArrival.trackInterArrival, hstarted, if_false, true_and]
  rw [Ewma.step, ← hdelta]
  by_cases hrestart : p.interArrivalEwmaNs = 0
  · rw [if_pos hrestart, if_pos (hzero.mp hrestart)]
  · rw [if_neg hrestart, if_neg (mt hzero.mpr hrestart)]
    exact toInt_blend hewma (by omega)

/-- What `offer` does with a good frame, as far as the times go. -/
theorem offer_times (p : TelemetryPipeline) {f : WireFrame} (h : f.crcOk = true) :
    (p.offer f).toInterArrival = p.trackInterArrival (p.nanoTimes 0) ∧
      (p.offer f).nanoTimes = fun i => p.nanoTimes (i + 2) := by
  simp only [TelemetryPipeline.offer, h, Bool.not_true, Bool.false_eq_true, if_false]
  exact ⟨rfl, rfl⟩

/-! ## Runs -/

/-- Behind `n` accepted frames. -/
structure Averaged (nanoTimes : Nat → Int64) (p : TelemetryPipeline) (n : Nat) : Prop where
  times : p.nanoTimes = fun i => nanoTimes (i + 2 * n)
  last : p.lastOfferNs = if n = 0 then 0 else arrivalTime nanoTimes (n - 1)
  ewma : p.interArrivalEwmaNs.toInt = Ewma.average 16 (interArrivals nanoTimes n)

theorem interArrivals_succ (nanoTimes : Nat → Int64) (n : Nat) :
    interArrivals nanoTimes (n + 2) = interArrivals nanoTimes (n + 1) ++
      [(arrivalTime nanoTimes (n + 1)).toInt - (arrivalTime nanoTimes n).toInt] := by
  simp [interArrivals, List.range_succ]

namespace Averaged

variable {nanoTimes : Nat → Int64} {p : TelemetryPipeline} {n : Nat}

theorem make {ringCapacityPow2 : Nat} (h : TelemetryPipeline.make ringCapacityPow2 nanoTimes = .ok p) :
    Averaged nanoTimes p 0 := by
  simp only [TelemetryPipeline.make, bind, Except.bind] at h
  split at h
  · cases h
  · cases h
    exact ⟨rfl, rfl, rfl⟩

/-- **An accepted frame is one more step of the average.** -/
theorem offer (h : Averaged nanoTimes p n) (hclock : Steady nanoTimes (n + 1)) {f : WireFrame}
    (hok : f.crcOk = true) : Averaged nanoTimes (p.offer f) (n + 1) := by
  obtain ⟨htrack, htimes⟩ := offer_times p hok
  have hnow : p.nanoTimes 0 = arrivalTime nanoTimes n := by
    rw [h.times]
    exact congrArg nanoTimes (Nat.zero_add _)
  have htimes' : (p.offer f).nanoTimes = fun i => nanoTimes (i + 2 * (n + 1)) := by
    rw [htimes, h.times]
    funext i
    exact congrArg nanoTimes (by omega)
  have hlast := h.last
  have hewma := h.ewma
  cases n with
  | zero =>
    rw [trackInterArrival_first hlast, hnow] at htrack
    exact ⟨htimes', by rw [htrack]; rfl, by rw [htrack]; exact hewma⟩
  | succ m =>
    have hprev := Int64.lt_iff_toInt_lt.mp (hclock.positive m (by omega))
    have hle := Int64.le_iff_toInt_le.mp (hclock.monotone m (by omega))
    rw [if_neg (Nat.succ_ne_zero m), Nat.add_sub_cancel] at hlast
    rw [Int64.toInt_zero, ← hlast] at hprev
    rw [← hlast, ← hnow] at hle
    have hnonneg : 0 ≤ p.interArrivalEwmaNs.toInt := by
      rw [hewma]
      exact Ewma.average_nonneg (by omega) fun delta hdelta =>
        (hclock.mono (Nat.le_succ _)).interArrival_nonneg hdelta
    obtain ⟨hlast', hewma'⟩ := trackInterArrival_next hprev hle hnonneg
    refine ⟨htimes', ?_, ?_⟩
    · rw [htrack, hlast', hnow]
      rfl
    · rw [htrack, hewma', hewma, hnow, hlast, interArrivals_succ, Ewma.average_snoc]

theorem call (h : Averaged nanoTimes p n) (c : PipelineCall)
    (hclock : Steady nanoTimes (n + (accepted c.offered.toList).length)) :
    Averaged nanoTimes (p.call c).2 (n + (accepted c.offered.toList).length) := by
  cases c with
  | offer f =>
    cases hcrc : f.1.crcOk with
    | false =>
      have hnone : accepted (PipelineCall.offer f).offered.toList = [] := by simp [PipelineCall.offered, accepted, hcrc]
      rw [hnone]
      show Averaged nanoTimes (p.offer f.1) n
      rw [offer_bad p hcrc]
      exact ⟨h.times, h.last, h.ewma⟩
    | true =>
      have hone : accepted (PipelineCall.offer f).offered.toList = [f.1] := by
        simp [PipelineCall.offered, accepted, hcrc]
      rw [hone] at hclock ⊢
      exact h.offer hclock hcrc
  | poll => exact ⟨h.times, h.last, h.ewma⟩
  | noteCrcFail => exact ⟨h.times, h.last, h.ewma⟩
  | noteTcpResync k =>
    show Averaged nanoTimes (p.noteTcpResync k.toInt) n
    rw [TelemetryPipeline.noteTcpResync]
    split
    · exact ⟨h.times, h.last, h.ewma⟩
    · exact h

/-- **So is every run.** -/
theorem run (h : Averaged nanoTimes p n) (calls : List PipelineCall)
    (hclock : Steady nanoTimes (n + (accepted (offered calls)).length)) :
    Averaged nanoTimes (Runs.serve TelemetryPipeline.call p calls).2 (n + (accepted (offered calls)).length) := by
  induction calls generalizing p n with
  | nil => exact h
  | cons c calls ih =>
    have hlength : (accepted (offered (c :: calls))).length =
        (accepted c.offered.toList).length + (accepted (offered calls)).length := by
      simp [offered_cons, accepted]
    rw [hlength, ← Nat.add_assoc] at hclock ⊢
    exact ih (h.call c (hclock.mono (Nat.le_add_right _ _))) hclock

end Averaged

/-- **The average stays between the deltas that were observed**, behind every sequence of calls on a new pipeline with
two accepted frames or more, at times that are positive and do not run backwards; it is never negative. -/
theorem ewma_between {ringCapacityPow2 : Nat} {nanoTimes : Nat → Int64} {p₀ : TelemetryPipeline}
    (hmake : TelemetryPipeline.make ringCapacityPow2 nanoTimes = .ok p₀) {calls : List PipelineCall}
    (hclock : Steady nanoTimes (accepted (offered calls)).length) (htwo : 2 ≤ (accepted (offered calls)).length) :
    let ewma := (Runs.serve TelemetryPipeline.call p₀ calls).2.interArrivalEwmaNs.toInt
    let deltas := interArrivals nanoTimes (accepted (offered calls)).length
    (∃ lo ∈ deltas, ∃ hi ∈ deltas, lo ≤ ewma ∧ ewma ≤ hi) ∧ 0 ≤ ewma := by
  intro ewma deltas
  have hlast := (Averaged.make hmake).run calls (by rwa [Nat.zero_add])
  rw [Nat.zero_add] at hlast
  have hewma : ewma = Ewma.average 16 deltas := hlast.ewma
  have hlength : deltas.length = (accepted (offered calls)).length - 1 := by simp [deltas, interArrivals]
  have hne : deltas ≠ [] := List.ne_nil_of_length_pos (by omega)
  rw [hewma]
  exact ⟨Ewma.average_between (by omega) hne,
    Ewma.average_nonneg (by omega) fun delta hdelta => hclock.interArrival_nonneg hdelta⟩

/-- Three frames, 200 nanoseconds apart. -/
theorem ewma_between_three :
    ∃ p₀, TelemetryPipeline.make 2 (fun i => Int64.ofNat (100 * i + 1)) = .ok p₀ ∧
      let frame := PipelineCall.offer (.ofSample goldenSample)
      0 ≤ (Runs.serve TelemetryPipeline.call p₀ [frame, frame, frame]).2.interArrivalEwmaNs.toInt := by
  obtain ⟨p₀, hmake⟩ : ∃ p₀, TelemetryPipeline.make 2 (fun i => Int64.ofNat (100 * i + 1)) = .ok p₀ := ⟨_, rfl⟩
  refine ⟨p₀, hmake, ?_⟩
  intro frame
  have hlength : (accepted (offered [frame, frame, frame])).length = 3 := by
    simp [frame, offered, accepted, PipelineCall.offered, DecodedFrame.crcOk_ofSample]
  have hclock : Steady (fun i => Int64.ofNat (100 * i + 1)) 3 :=
    ⟨by unfold arrivalTime; decide, fun i hi => by
      have hcases : i = 0 ∨ i = 1 := by omega
      rcases hcases with rfl | rfl <;> decide⟩
  exact (ewma_between hmake (by rwa [hlength]) (by omega)).2

end ZcMesh.Operator
