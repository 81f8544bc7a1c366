import Mathlib.Data.UInt
import ZcMesh.Edge.Flush

/-!
# The reconnect gate

Runs of `ReconnectGate::try_connect` in `core-engine/src/main.cpp`, with any outcomes and losses of the connection in
between. A reading of the system's clock becomes nanoseconds by `ns`, which is the part of `monotonic_ns` that the
systems differ in.

* In every run the gate is the initial one, or it holds the delay in force after the failures in a row and the next one
  (`Gated`).
* So a connect is tried when the delay is over, and not before: `backoff_run`, as long as the sum does not wrap.
* On Windows `monotonic_ns` multiplies before it divides. It is exact as long as the product does not wrap, and then no
  reconnect waits longer than 2000 ms: `windows_run`.
-/

namespace ZcMesh.Core

/-- The calls, and what happens to the connection in between; `ok` is the outcome of a `connect`. -/
inductive GateCall (ρ : Type)
  | tryConnect (reading : ρ) (ok : Bool)
  | lose
  deriving DecidableEq

/-- The client and its gate, and the history of the `connect` calls: the reading in front of it, and its outcome. -/
structure GateRun (ρ : Type) where
  link : Link
  attempts : List (ρ × Bool) := []

namespace GateRun

variable {ρ : Type} (ns : ρ → UInt64)

/-- The gate at its start. -/
def start (link : Link) : GateRun ρ := { link := { link with gate := {} } }

/-- A call of `try_connect` at this reading of the clock, with this outcome of a `connect`. -/
def call (s : GateRun ρ) (reading : ρ) (ok : Bool) : Link :=
  { s.link with clock := fun _ => ns reading, tcp := { s.link.tcp with connects := [ok] } }.tryConnect.2

/-- The call gets as far as `connect`: the outcome is used up. -/
def tries (s : GateRun ρ) (reading : ρ) (ok : Bool) : Bool := (s.call ns reading ok).tcp.connects.isEmpty

def step (s : GateRun ρ) : GateCall ρ → GateRun ρ
  | .tryConnect reading ok =>
    { link := s.call ns reading ok
      attempts := if s.tries ns reading ok then s.attempts ++ [(reading, ok)] else s.attempts }
  | .lose => { s with link := { s.link with tcp := s.link.tcp.close } }

def connected (s : GateRun ρ) : Bool := s.link.tcp.connected

/-- The readings at the failed attempts since the last success or the start, the last one first. -/
def failures (s : GateRun ρ) : List ρ := (s.attempts.reverse.takeWhile fun a => !a.2).map Prod.fst

/-- The reading at the last failed attempt of all. -/
def lastFailed (s : GateRun ρ) : Option ρ := (s.attempts.reverse.find? fun a => !a.2).map Prod.fst

end GateRun

/-- The delay after `k + 1` failures in a row, in milliseconds. -/
def backoff (k : Nat) : Nat := min 2000 (50 * 2 ^ k)

/-- The same in nanoseconds. -/
def backoffNs (k : Nat) : Nat := backoff k * 1000000

theorem backoff_succ (k : Nat) : backoff (k + 1) = min 2000 (backoff k * 2) := by
  unfold backoff
  rw [Nat.pow_succ]
  omega

theorem backoff_bounds (k : Nat) : 50 ≤ backoff k ∧ backoff k ≤ 2000 := by
  have hpos : 0 < 2 ^ k := Nat.two_pow_pos k
  unfold backoff
  omega

/-! ## What a call does -/

namespace GateRun

variable {ρ : Type} {ns : ρ → UInt64} {s : GateRun ρ}

/-- An open connection is left alone; so is the gate in front of its time; otherwise there is an attempt, which succeeds
or fails. -/
theorem call_cases (ns : ρ → UInt64) (s : GateRun ρ) (reading : ρ) (ok : Bool) :
    (s.connected = true ∧ s.tries ns reading ok = false ∧ (s.call ns reading ok).tcp.connected = true ∧
      (s.call ns reading ok).gate = s.link.gate) ∨
    (s.connected = false ∧ ns reading < s.link.gate.nextNs ∧ s.tries ns reading ok = false ∧
      (s.call ns reading ok).tcp.connected = false ∧ (s.call ns reading ok).gate = s.link.gate) ∨
    (s.connected = false ∧ s.link.gate.nextNs ≤ ns reading ∧ s.tries ns reading ok = true ∧
      (s.call ns reading ok).tcp.connected = ok ∧
      (s.call ns reading ok).gate = if ok then {} else s.link.gate.delay (ns reading)) := by
  cases hup : s.connected with
  | true =>
    have hup' : s.link.tcp.stream.isSome = true := hup
    refine Or.inl ⟨rfl, ?_⟩
    simp [tries, call, Link.tryConnect, TcpClient.connected, hup']
  | false =>
    have hdown : s.link.tcp.stream.isSome = false := hup
    by_cases hlt : ns reading < s.link.gate.nextNs
    · refine Or.inr (Or.inl ⟨rfl, hlt, ?_⟩)
      simp [tries, call, Link.tryConnect, Link.monotonicNs, TcpClient.connected, hdown, hlt]
    · refine Or.inr (Or.inr ⟨rfl, UInt64.not_lt.mp hlt, ?_⟩)
      cases ok <;>
        simp [tries, call, Link.tryConnect, Link.monotonicNs, TcpClient.connected, TcpClient.connect, hdown, hlt]

/-- A connect is tried when there is no connection and the gate is open, and only then. -/
theorem tries_iff (ns : ρ → UInt64) (s : GateRun ρ) (reading : ρ) (ok : Bool) :
    s.tries ns reading ok = true ↔ s.connected = false ∧ s.link.gate.nextNs ≤ ns reading := by
  rcases call_cases ns s reading ok with ⟨hup, htry, _⟩ | ⟨hdown, hlt, htry, _⟩ | ⟨hdown, hle, htry, _⟩
  · rw [htry, hup]
    exact ⟨nofun, fun h => nomatch h.1⟩
  · rw [htry]
    exact ⟨nofun, fun h => absurd hlt (UInt64.not_lt.mpr h.2)⟩
  · rw [htry, hdown]
    exact ⟨fun _ => ⟨rfl, hle⟩, fun _ => rfl⟩

theorem gate_of_success {reading : ρ} (htry : s.tries ns reading true = true) :
    (s.step ns (.tryConnect reading true)).link.gate = {} := by
  rcases call_cases ns s reading true with ⟨_, hno, _⟩ | ⟨_, _, hno, _⟩ | ⟨_, _, _, _, hgate⟩
  · exact absurd htry (by rw [hno]; exact Bool.false_ne_true)
  · exact absurd htry (by rw [hno]; exact Bool.false_ne_true)
  · exact hgate

/-! ## Runs -/

/-- The gate waits after the failure at `reading`, which `older` failures in a row were in front of. -/
def waiting (ns : ρ → UInt64) (reading : ρ) (older : List ρ) : ReconnectGate where
  nextNs := ns reading + UInt64.ofNat (backoff older.length) * 1000000
  backoffMs := backoff (older.length + 1)

/-- Without failures in a row the gate is the initial one; behind some it waits, and there is no connection. -/
structure Gated (ns : ρ → UInt64) (s : GateRun ρ) : Prop where
  initial : s.failures = [] → s.link.gate = {}
  waits : ∀ reading older, s.failures = reading :: older →
    s.connected = false ∧ s.link.gate = waiting ns reading older

theorem gated_start (ns : ρ → UInt64) (link : Link) : (start link).Gated ns := ⟨fun _ => rfl, nofun⟩

/-- The delay in force was put up by the failures before, and the next one doubles it. -/
theorem Gated.delay (h : s.Gated ns) (reading : ρ) :
    s.link.gate.delay (ns reading) = waiting ns reading s.failures := by
  cases hfail : s.failures with
  | nil =>
    rw [h.initial hfail]
    rfl
  | cons before older =>
    rw [(h.waits before older hfail).2]
    simp only [ReconnectGate.delay, waiting, List.length_cons, ← backoff_succ]

theorem Gated.lose (h : s.Gated ns) : (s.step ns .lose).Gated ns :=
  ⟨h.initial, fun reading older hfail => ⟨rfl, (h.waits reading older hfail).2⟩⟩

theorem Gated.tryConnect (h : s.Gated ns) (reading : ρ) (ok : Bool) :
    (s.step ns (.tryConnect reading ok)).Gated ns := by
  rcases call_cases ns s reading ok with ⟨hup, htry, hup', hgate⟩ | ⟨_, _, htry, hdown', hgate⟩ |
    ⟨_, _, htry, hconn, hgate⟩
  · have hattempts : (s.step ns (.tryConnect reading ok)).failures = s.failures := by simp [step, htry, failures]
    refine ⟨fun hnil => hgate.trans (h.initial (hattempts ▸ hnil)), ?_⟩
    intro r older hfail
    have hdown := (h.waits r older (hattempts ▸ hfail)).1
    rw [hup] at hdown
    cases hdown
  · have hattempts : (s.step ns (.tryConnect reading ok)).failures = s.failures := by simp [step, htry, failures]
    refine ⟨fun hnil => hgate.trans (h.initial (hattempts ▸ hnil)), ?_⟩
    intro r older hfail
    exact ⟨hdown', hgate.trans (h.waits r older (hattempts ▸ hfail)).2⟩
  · cases ok with
    | true =>
      have hattempts : (s.step ns (.tryConnect reading true)).failures = [] := by simp [step, htry, failures]
      refine ⟨fun _ => hgate, ?_⟩
      intro r older hfail
      rw [hattempts] at hfail
      cases hfail
    | false =>
      have hattempts : (s.step ns (.tryConnect reading false)).failures = reading :: s.failures := by
        simp [step, htry, failures]
      refine ⟨fun hnil => ?_, ?_⟩
      · rw [hattempts] at hnil
        cases hnil
      · intro r older hfail
        rw [hattempts] at hfail
        obtain ⟨rfl, rfl⟩ := List.cons.inj hfail
        exact ⟨hconn, hgate.trans (h.delay reading)⟩

theorem Gated.step (h : s.Gated ns) (call : GateCall ρ) : (s.step ns call).Gated ns := by
  cases call with
  | tryConnect reading ok => exact h.tryConnect reading ok
  | lose => exact h.lose

theorem gated_run (ns : ρ → UInt64) (link : Link) (calls : List (GateCall ρ)) :
    (Runs.run (step ns) (start link) calls).Gated ns :=
  Runs.run_inv (fun _ call h => h.step call) calls _ (gated_start ns link)

theorem Gated.backoff_bounds (h : s.Gated ns) : 50 ≤ s.link.gate.backoffMs ∧ s.link.gate.backoffMs ≤ 2000 := by
  cases hfail : s.failures with
  | nil =>
    rw [h.initial hfail]
    decide
  | cons reading older =>
    rw [(h.waits reading older hfail).2]
    exact Core.backoff_bounds _

/-- The end of the delay, as far as the sum does not wrap. -/
theorem toNat_nextNs (ns : ρ → UInt64) (reading : ρ) (older : List ρ) :
    (waiting ns reading older).nextNs.toNat = ((ns reading).toNat + backoffNs older.length) % 2 ^ 64 := by
  have hle := (Core.backoff_bounds older.length).2
  have hms : (UInt64.ofNat (backoff older.length)).toNat = backoff older.length := by
    rw [UInt64.toNat_ofNat']
    omega
  have hns : (UInt64.ofNat (backoff older.length) * 1000000).toNat = backoffNs older.length := by
    rw [UInt64.toNat_mul, hms]
    show backoff older.length * 1000000 % 2 ^ 64 = backoff older.length * 1000000
    omega
  rw [waiting, UInt64.toNat_add, hns]

/-- **The backoff is exponential and bounded**, in every run and whatever the readings of the clock: a connect is tried
only without a connection, and a success restores the initial gate; without failures in a row it is tried at once; after
`k + 1` of them there is no connection, and it is tried at every call at which `min(2000, 50 * 2^k)` ms have gone by
since the last of them, and at no other, as long as the end of the delay is below 2^64 nanoseconds. -/
theorem backoff_run (link : Link) (calls : List (GateCall UInt64)) :
    let s := Runs.run (step id) (start link) calls
    (50 ≤ s.link.gate.backoffMs ∧ s.link.gate.backoffMs ≤ 2000) ∧ (s.failures = [] → s.link.gate = {}) ∧
    ∀ (now : UInt64) (ok : Bool),
      (s.tries id now ok = true → s.connected = false) ∧
      (s.tries id now true = true → (s.step id (.tryConnect now true)).link.gate = {}) ∧
      (s.failures = [] → s.connected = false → s.tries id now ok = true) ∧
      ∀ last older, s.failures = last :: older → s.connected = false ∧
        (last.toNat + min 2000 (50 * 2 ^ older.length) * 1000000 < 2 ^ 64 →
          (s.tries id now ok = true ↔ last.toNat + min 2000 (50 * 2 ^ older.length) * 1000000 ≤ now.toNat)) := by
  intro s
  have h : s.Gated id := gated_run id link calls
  refine ⟨h.backoff_bounds, h.initial, ?_⟩
  intro now ok
  refine ⟨fun htry => ((tries_iff id s now ok).mp htry).1, gate_of_success, ?_, ?_⟩
  · intro hfail hdown
    refine (tries_iff id s now ok).mpr ⟨hdown, ?_⟩
    rw [h.initial hfail]
    exact UInt64.zero_le
  · intro last older hfail
    obtain ⟨hdown, hgate⟩ := h.waits last older hfail
    refine ⟨hdown, ?_⟩
    intro hwrap
    have hnext := toNat_nextNs id last older
    rw [show ((id last).toNat + backoffNs older.length) % 2 ^ 64 = last.toNat + backoffNs older.length from
      Nat.mod_eq_of_lt hwrap] at hnext
    rw [tries_iff, hgate, UInt64.le_iff_toNat_le, hnext]
    exact ⟨fun htry => htry.2, fun hle => ⟨hdown, hle⟩⟩

/-- A link that has done nothing. -/
def idle : Link where
  batch := .make 1
  tcp := {}
  udp := {}
  router := .make 8
  gate := {}
  stats := {}
  clock := fun _ => 0
  forwards := []

/-- Two failures, 50 ms apart: the third attempt comes 100 ms behind the second one. -/
theorem backoff_run_two :
    let s := Runs.run (step id) (start idle) [.tryConnect 7 false, .tryConnect 9 true, .tryConnect 50000007 false]
    s.attempts = [(7, false), (50000007, false)] ∧
    (s.tries id 150000006 true = true ↔ 50000007 + 100000000 ≤ 150000006) := by
  intro s
  have h := (backoff_run idle [.tryConnect 7 false, .tryConnect 9 true, .tryConnect 50000007 false]).2.2 150000006 true
  exact ⟨by decide, (h.2.2.2 50000007 [7] (by decide)).2 (by decide)⟩

/-- A failure at the last reading of all: the end of the delay wraps, and the next attempt may follow at once. -/
theorem backoff_wraps :
    let s := Runs.run (step id) (start idle) [.tryConnect 18446744073709551615 false]
    s.failures = [18446744073709551615] ∧ s.tries id 18446744073709551615 true = true ∧
      ¬ (18446744073709551615 : UInt64).toNat + min 2000 (50 * 2 ^ 0) * 1000000 ≤
        (18446744073709551615 : UInt64).toNat := by
  refine ⟨by decide, by decide, ?_⟩
  decide

end GateRun

/-! ## The clock on Windows -/

/-- `monotonic_ns` on Windows, of a reading of the performance counter, which has this frequency. -/
def windowsNs (freq now : UInt64) : UInt64 := now * 1000000000 / freq

theorem toNat_windowsNs (freq now : UInt64) :
    (windowsNs freq now).toNat = now.toNat * 1000000000 % 2 ^ 64 / freq.toNat := by
  rw [windowsNs, UInt64.toNat_div, UInt64.toNat_mul]
  rfl

/-- A product that wraps loses `2^64 / freq` nanoseconds at least. -/
theorem windowsNs_exact_iff {freq : UInt64} (hfreq : freq ≠ 0) (now : UInt64) :
    (windowsNs freq now).toNat = now.toNat * 1000000000 / freq.toNat ↔ now.toNat * 1000000000 < 2 ^ 64 := by
  have hpos : 0 < freq.toNat := Nat.pos_of_ne_zero fun h => hfreq (UInt64.toNat_inj.mp h)
  rw [toNat_windowsNs]
  refine ⟨fun heq => ?_, fun hlt => by rw [Nat.mod_eq_of_lt hlt]⟩
  by_contra hge
  have hwrap : now.toNat * 1000000000 % 2 ^ 64 + freq.toNat ≤ now.toNat * 1000000000 := by
    have := freq.toNat_lt
    omega
  have hmore := Nat.div_le_div_right (c := freq.toNat) hwrap
  rw [Nat.add_div_right _ hpos] at hmore
  omega

namespace GateRun

/-- The reading of a call can be multiplied. -/
def Fits : GateCall UInt64 → Prop
  | .tryConnect reading _ => reading.toNat * 1000000000 < 2 ^ 64
  | .lose => True

instance decidableFits : ∀ call, Decidable (Fits call)
  | .tryConnect _ _ => inferInstanceAs (Decidable (_ < _))
  | .lose => inferInstanceAs (Decidable True)

/-- A reconnect that is due is not put off: without a connection, 2000 ms behind the last failed attempt, the call tries
one. -/
def NotDeferred (freq : UInt64) (s : GateRun UInt64) : GateCall UInt64 → Prop
  | .tryConnect reading ok =>
    s.connected = false → (∀ last, s.lastFailed = some last → last.toNat + 2 * freq.toNat ≤ reading.toNat) →
      s.tries (windowsNs freq) reading ok = true
  | .lose => True

theorem lastFailed_of_failures {ρ : Type} {s : GateRun ρ} {last : ρ} {older : List ρ}
    (h : s.failures = last :: older) : s.lastFailed = some last := by
  unfold failures at h
  unfold lastFailed
  cases hrev : s.attempts.reverse with
  | nil =>
    rw [hrev] at h
    cases h
  | cons a before =>
    obtain ⟨reading, ok⟩ := a
    rw [hrev] at h
    cases ok with
    | true => cases h
    | false =>
      cases h
      rfl

/-- However early the failure seemed to be, the gate is open 2000 ms later. -/
theorem nextNs_le {freq : UInt64} (hfreq : freq ≠ 0) {last reading : UInt64} (older : List UInt64)
    (hfits : reading.toNat * 1000000000 < 2 ^ 64) (hlate : last.toNat + 2 * freq.toNat ≤ reading.toNat) :
    (waiting (windowsNs freq) last older).nextNs ≤ windowsNs freq reading := by
  have hpos : 0 < freq.toNat := Nat.pos_of_ne_zero fun h => hfreq (UInt64.toNat_inj.mp h)
  have hdelay : backoffNs older.length ≤ 2000000000 := by
    have := (Core.backoff_bounds older.length).2
    unfold backoffNs
    omega
  have hlast : (windowsNs freq last).toNat ≤ last.toNat * 1000000000 / freq.toNat := by
    rw [toNat_windowsNs]
    exact Nat.div_le_div_right (Nat.mod_le _ _)
  have hgap : last.toNat * 1000000000 / freq.toNat + 2000000000 ≤ reading.toNat * 1000000000 / freq.toNat := by
    rw [← Nat.add_mul_div_left _ _ hpos]
    apply Nat.div_le_div_right
    have := Nat.mul_le_mul_right 1000000000 hlate
    rw [Nat.add_mul] at this
    rwa [show freq.toNat * 2000000000 = 2 * freq.toNat * 1000000000 by omega]
  rw [UInt64.le_iff_toNat_le, toNat_nextNs, (windowsNs_exact_iff hfreq reading).mpr hfits]
  calc ((windowsNs freq last).toNat + backoffNs older.length) % 2 ^ 64
      ≤ (windowsNs freq last).toNat + backoffNs older.length := Nat.mod_le _ _
    _ ≤ last.toNat * 1000000000 / freq.toNat + 2000000000 := Nat.add_le_add hlast hdelay
    _ ≤ reading.toNat * 1000000000 / freq.toNat := hgap

theorem Gated.notDeferred {freq : UInt64} {s : GateRun UInt64} (h : s.Gated (windowsNs freq)) (hfreq : freq ≠ 0)
    (call : GateCall UInt64) (hfits : Fits call) : s.NotDeferred freq call := by
  cases call with
  | lose => trivial
  | tryConnect reading ok =>
    intro hdown hlate
    refine (tries_iff _ s reading ok).mpr ⟨hdown, ?_⟩
    cases hfail : s.failures with
    | nil =>
      rw [h.initial hfail]
      exact UInt64.zero_le
    | cons last older =>
      rw [(h.waits last older hfail).2]
      exact nextNs_le hfreq older hfits (hlate last (lastFailed_of_failures hfail))

/-- **When a reconnect on Windows is not deferred.** The conversion of a reading is exact if and only if the reading
times 10^9 is below 2^64. In every run in which all readings are so, the clock is monotone in the reading, and every
call that comes without a connection and 2000 ms behind the last failed attempt tries a connect. -/
theorem windows_run (freq : UInt64) (hfreq : freq ≠ 0) :
    (∀ reading : UInt64, (windowsNs freq reading).toNat = reading.toNat * 1000000000 / freq.toNat ↔
      reading.toNat * 1000000000 < 2 ^ 64) ∧
    ∀ (link : Link) (calls : List (GateCall UInt64)),
      Runs.AllSteps (step (windowsNs freq)) (fun _ call => Fits call) (start link) calls →
        (∀ reading reading' ok ok', .tryConnect reading ok ∈ calls → .tryConnect reading' ok' ∈ calls →
          reading ≤ reading' → windowsNs freq reading ≤ windowsNs freq reading') ∧
        Runs.AllSteps (step (windowsNs freq)) (NotDeferred freq) (start link) calls := by
  refine ⟨windowsNs_exact_iff hfreq, ?_⟩
  intro link calls hfits
  constructor
  · intro reading reading' ok ok' hmem hmem' hle
    have hall := Runs.allSteps_const.mp hfits
    rw [UInt64.le_iff_toNat_le, (windowsNs_exact_iff hfreq reading).mpr (hall _ hmem),
      (windowsNs_exact_iff hfreq reading').mpr (hall _ hmem')]
    exact Nat.div_le_div_right (Nat.mul_le_mul_right _ (UInt64.le_iff_toNat_le.mp hle))
  · exact Runs.AllSteps.imp (fun s call h hthis => ⟨h.step call, h.notDeferred hfreq call hthis⟩) hfits
      (gated_start _ link)

/-- A counter at 10 MHz, in its first half hour. -/
theorem windows_run_early :
    Runs.AllSteps (step (windowsNs 10000000)) (NotDeferred 10000000) (start idle)
      [.tryConnect 5000000 false, .tryConnect 25000000 true] :=
  ((windows_run 10000000 (by decide)).2 idle _ (by decide)).2

/-- A counter at 10 MHz, after half an hour: the product wraps, and 2000 ms behind the failure the gate is shut. -/
theorem windows_deferred :
    let s := Runs.run (step (windowsNs 10000000)) (start idle) [.tryConnect 18446744073 false]
    s.connected = false ∧ s.lastFailed = some 18446744073 ∧ 18446744073 + 2 * 10000000 ≤ 18466744073 ∧
      s.tries (windowsNs 10000000) 18466744073 true = false ∧
      windowsNs 10000000 18466744073 < windowsNs 10000000 18446744073 := by
  refine ⟨by decide, by decide, by decide, by decide, by decide⟩

end GateRun

end ZcMesh.Core
