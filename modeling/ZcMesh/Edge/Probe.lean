import Mathlib.Data.List.Chain
import Mathlib.Data.UInt
import ZcMesh.Edge.Router

/-!
# Probing the preferred hop

Runs of `forward_udp` and `set_hop_skip_mask` on one route, with a clock that is positive and does not go back. A probe
is the send to hop 0 in front of the rotating loop.

* `last_probe_ns` is the reading at the last probe, and 0 when there was none (`Probing`, kept by every call), so two
  probes are half a second apart.
* A call with a probe due goes to hop 0 first; a call that accepts stays where it is and sends nothing else:
  `probe_run`.
* A run of a router is, on each of its routes, such a run: `MeshRouter.route_run`.
-/

namespace ZcMesh.Core

namespace RouteEntry

/-- What `add_route` puts into a new route. -/
def fresh (nodeId : UInt16) (hops : List Endpoint) (hopCount : UInt8) : RouteEntry where
  nodeId := nodeId
  hops := fun i => hops.getD i default
  hopCount := hopCount.toNat
  activeHop := 0
  hopSkipMask := 0
  attempts := 0
  fails := 0
  hopOk := fun _ => 0
  lastProbeNs := 0

def setMask (route : RouteEntry) (mask : UInt8) : RouteEntry := { route with hopSkipMask := mask }

/-- The call at `nowNs` probes the preferred hop. -/
def probes (route : RouteEntry) (nowNs : UInt64) : Bool :=
  match route.attempted.relocate with
  | none => false
  | some route => route.probeDue nowNs

end RouteEntry

/-- The calls on a route; `outcomes` are the results of the `send_to` calls of a `forward_udp`. -/
inductive RouteCall
  | forwardUdp (data : List UInt8) (nowNs : UInt64) (outcomes : List Bool)
  | setHopSkipMask (mask : UInt8)
  deriving DecidableEq

/-- A route, and the histories: the last reading of the clock, the readings at the probes, and the datagrams. -/
structure RouteRun where
  route : RouteEntry
  latest : UInt64 := 0
  probes : List UInt64 := []
  sent : List Datagram := []

namespace RouteRun

def step (s : RouteRun) : RouteCall → RouteRun
  | .forwardUdp data nowNs outcomes =>
    let (_, route, udp) := s.route.forward { outcomes } data nowNs
    { route
      latest := nowNs
      probes := if s.route.probes nowNs then s.probes ++ [nowNs] else s.probes
      sent := s.sent ++ udp.sent }
  | .setHopSkipMask mask => { s with route := s.route.setMask mask }

/-- The clock is positive and does not go back. -/
def Timely (s : RouteRun) : RouteCall → Prop
  | .forwardUdp _ nowNs _ => 0 < nowNs ∧ s.latest ≤ nowNs
  | .setHopSkipMask _ => True

instance decidableTimely (s : RouteRun) : ∀ call, Decidable (s.Timely call)
  | .forwardUdp _ _ _ => inferInstanceAs (Decidable (_ ∧ _))
  | .setHopSkipMask _ => inferInstanceAs (Decidable True)

/-- No probe has been made yet, or the last one was half a second ago. -/
def Due (s : RouteRun) (nowNs : UInt64) : Prop := ∀ t ∈ s.probes.getLast?, t.toNat + 500000000 ≤ nowNs.toNat

end RouteRun

/-! ## One call -/

namespace RouteEntry

variable {route : RouteEntry} {data : List UInt8}

theorem relocate_attempted (route : RouteEntry) : route.attempted.relocate = route.relocate.map attempted := by
  show (if route.hopAllowed route.activeHop then _ else _) = _
  unfold relocate
  split
  · rfl
  · show ((List.range route.hopCount).find? route.hopAllowed).map route.attempted.setActive = _
    rw [Option.map_map]
    rfl

theorem lastProbeNs_relocate {route' : RouteEntry} (h : route.attempted.relocate = some route') :
    route'.lastProbeNs = route.lastProbeNs := by
  rcases relocate_spec route.attempted with ⟨hnone, _⟩ | ⟨i, _, hsome⟩
  · rw [hnone] at h
    cases h
  · rw [hsome] at h
    cases h
    rfl

theorem probes_eq {route' : RouteEntry} (h : route.attempted.relocate = some route') (nowNs : UInt64) :
    route.probes nowNs = route'.probeDue nowNs := by
  unfold probes
  rw [h]

/-- The rotating loop goes on in the history of the socket, and leaves the time of the last probe alone. -/
theorem sendOrDemote_frame (route : RouteEntry) (udp : UdpSocket) (data : List UInt8) :
    (route.sendOrDemote udp data).2.1.lastProbeNs = route.lastProbeNs ∧
      ∃ more, (route.sendOrDemote udp data).2.2.sent = udp.sent ++ more := by
  obtain ⟨h, hsends, hok, hwon, hlost⟩ := sendLoop_spec route data (List.range route.hopCount) udp
  generalize hres : route.sendLoop data (List.range route.hopCount) udp = res at hsends hok hwon hlost
  obtain ⟨ok, route', udp'⟩ := res
  simp only [sendOrDemote, hres]
  cases ok with
  | true =>
    obtain ⟨i, hi⟩ := Option.isSome_iff_exists.mp (show h.won.isSome = true from hok.symm)
    refine ⟨?_, _, hsends.sent⟩
    rw [show route' = route.took i from hwon i hi]
    rfl
  | false =>
    have hnone : h.won = none := by simpa using (show false = h.won.isSome from hok)
    refine ⟨?_, _, hsends.sent⟩
    show route'.demote.lastProbeNs = route.lastProbeNs
    rw [show route' = route from (hlost hnone).1]
    unfold demote
    split <;> rfl

/-- A call without a probe is the rotating loop. -/
theorem forward_unprobed {route' : RouteEntry} (hloc : route.attempted.relocate = some route') {nowNs : UInt64}
    (hprobe : route'.probeDue nowNs = false) (udp : UdpSocket) (data : List UInt8) :
    route.forward udp data nowNs = route'.sendOrDemote udp data := by
  simp only [forward, hloc, probeOrSend, hprobe, Bool.false_eq_true, if_false]

/-- A call with a probe that is taken. -/
theorem forward_taken {route' : RouteEntry} (hloc : route.attempted.relocate = some route') {nowNs : UInt64}
    (hprobe : route'.probeDue nowNs = true) (udp : UdpSocket) (hok : udp.outcomes.headD false = true)
    (data : List UInt8) :
    route.forward udp data nowNs = (true, (route'.probed nowNs).took 0, (udp.sendTo (route'.hops 0) data).2) := by
  have hsend : (udp.sendTo (route'.hops 0) data).1 = true := hok
  simp only [forward, hloc, probeOrSend, hprobe, hsend, if_true]

/-- A call with a probe that is refused. -/
theorem forward_refused {route' : RouteEntry} (hloc : route.attempted.relocate = some route') {nowNs : UInt64}
    (hprobe : route'.probeDue nowNs = true) (udp : UdpSocket) (hok : udp.outcomes.headD false = false)
    (data : List UInt8) :
    route.forward udp data nowNs =
      (route'.probed nowNs).sendOrDemote (udp.sendTo (route'.hops 0) data).2 data := by
  have hsend : (udp.sendTo (route'.hops 0) data).1 = false := hok
  simp only [forward, hloc, probeOrSend, hprobe, hsend, if_true, Bool.false_eq_true, if_false]

/-- What a call does to the time of the last probe. -/
theorem lastProbeNs_forward (route : RouteEntry) (udp : UdpSocket) (data : List UInt8) (nowNs : UInt64) :
    (route.forward udp data nowNs).2.1.lastProbeNs = if route.probes nowNs then nowNs else route.lastProbeNs := by
  cases hloc : route.attempted.relocate with
  | none =>
    simp only [forward, probes, hloc]
    rfl
  | some route' =>
    rw [probes_eq hloc]
    cases hprobe : route'.probeDue nowNs with
    | false =>
      rw [forward_unprobed hloc hprobe, (sendOrDemote_frame route' udp data).1, lastProbeNs_relocate hloc]
      rfl
    | true =>
      cases hok : udp.outcomes.headD false with
      | true =>
        rw [forward_taken hloc hprobe udp hok]
        rfl
      | false =>
        rw [forward_refused hloc hprobe udp hok, (sendOrDemote_frame _ _ data).1]
        rfl

/-- The rotating loop starts at the active hop. -/
theorem sendOrDemote_first (route : RouteEntry) (udp : UdpSocket)
    (hallowed : route.hopAllowed route.activeHop = true) (hok : udp.outcomes.headD false = true) (data : List UInt8) :
    route.sendOrDemote udp data =
      (true, route.took route.activeHop, (udp.sendTo (route.hops route.activeHop) data).2) := by
  have hlt := hopAllowed_lt hallowed
  have hidx : (route.activeHop + 0) % route.hopCount = route.activeHop := Nat.mod_eq_of_lt hlt
  obtain ⟨n, hn⟩ : ∃ n, route.hopCount = n + 1 := ⟨route.hopCount - 1, by omega⟩
  have hrange : List.range route.hopCount = 0 :: (List.range n).map (· + 1) := by rw [hn, List.range_succ_eq_map]
  have hsend : (udp.sendTo (route.hops route.activeHop) data).1 = true := hok
  simp only [sendOrDemote, hrange, sendLoop, hidx, hallowed, hsend, Bool.not_true, Bool.false_eq_true, if_false,
    if_true]

end RouteEntry

/-! ## Runs -/

namespace RouteRun

variable {s : RouteRun} {a : Nat}

/-- A new route. -/
def start (nodeId : UInt16) (hops : List Endpoint) (hopCount : UInt8) : RouteRun :=
  { route := .fresh nodeId hops hopCount }

/-- The time of the last probe is the one in the history, and the probes are half a second apart. -/
structure Probing (s : RouteRun) : Prop where
  wf : s.route.Wf
  last : s.route.lastProbeNs = s.probes.getLast?.getD 0
  range : ∀ t ∈ s.probes, 0 < t ∧ t ≤ s.latest
  apart : s.probes.IsChain fun t t' => t.toNat + 500000000 ≤ t'.toNat

theorem probing_start (nodeId : UInt16) (hops : List Endpoint) {hopCount : UInt8} (hpos : 0 < hopCount)
    (hle : hopCount ≤ 3) : (start nodeId hops hopCount).Probing where
  wf := ⟨UInt8.lt_iff_toNat_lt.mp hpos, UInt8.le_iff_toNat_le.mp hle, rfl⟩
  last := rfl
  range := nofun
  apart := .nil

/-- The gate in front of a probe says the same as the history. -/
theorem Probing.due_iff (h : s.Probing) {nowNs : UInt64} (hnow : s.latest ≤ nowNs) :
    (s.route.lastProbeNs == 0 || decide (nowNs - s.route.lastProbeNs ≥ RouteEntry.kPreferredProbeNs)) = true ↔
      s.Due nowNs := by
  unfold Due
  cases hlast : s.probes.getLast? with
  | none =>
    rw [h.last, hlast]
    simp
  | some t =>
    obtain ⟨hpos, hle⟩ := h.range t (List.mem_of_getLast? hlast)
    have hne : (t == 0) = false := beq_false_of_ne fun h0 => by rw [h0] at hpos; exact absurd hpos (by decide)
    have hback : t ≤ nowNs := UInt64.le_trans hle hnow
    have hsub : (nowNs - t).toNat = nowNs.toNat - t.toNat := UInt64.toNat_sub_of_le _ _ hback
    have hback' : t.toNat ≤ nowNs.toNat := UInt64.le_iff_toNat_le.mp hback
    have hgap : RouteEntry.kPreferredProbeNs.toNat = 500000000 := rfl
    rw [h.last, hlast, Option.getD_some, hne, Bool.false_or, decide_eq_true_eq, ge_iff_le, UInt64.le_iff_toNat_le,
      hsub, hgap]
    simp only [Option.mem_def, Option.some.injEq, forall_eq']
    omega

/-- A call probes when, behind the relocation, it is on another hop, hop 0 is allowed, and a probe is due. -/
theorem Probing.probes_iff (h : s.Probing) {nowNs : UInt64} (hnow : s.latest ≤ nowNs) :
    s.route.probes nowNs = true ↔ ∃ route, s.route.relocate = some route ∧ route.activeHop ≠ 0 ∧
      route.hopAllowed 0 = true ∧ s.Due nowNs := by
  rw [← h.due_iff hnow]
  unfold RouteEntry.probes
  rw [RouteEntry.relocate_attempted]
  cases hloc : s.route.relocate with
  | none => simp
  | some route =>
    have hlast : route.lastProbeNs = s.route.lastProbeNs := by
      have hloc' : s.route.attempted.relocate = some route.attempted := by
        rw [RouteEntry.relocate_attempted, hloc]
        rfl
      have hlast := RouteEntry.lastProbeNs_relocate hloc'
      exact hlast
    simp only [Option.map_some, Option.some.injEq, exists_eq_left', ← hlast]
    show (decide (0 < route.activeHop) && route.hopAllowed 0 && _) = true ↔ _
    rw [Bool.and_eq_true, Bool.and_eq_true, decide_eq_true_eq, Nat.pos_iff_ne_zero, and_assoc]
    rfl

theorem Probing.step (h : s.Probing) {call : RouteCall} (ht : s.Timely call) : (s.step call).Probing := by
  cases call with
  | setHopSkipMask mask => exact ⟨⟨h.wf.active_lt, h.wf.count_le, h.wf.balance⟩, h.last, h.range, h.apart⟩
  | forwardUdp data nowNs outcomes =>
    obtain ⟨hpos, hnow⟩ := ht
    have hold : ∀ t ∈ s.probes, 0 < t ∧ t ≤ nowNs := fun t ht =>
      ⟨(h.range t ht).1, UInt64.le_trans (h.range t ht).2 hnow⟩
    have hlast := RouteEntry.lastProbeNs_forward s.route { outcomes } data nowNs
    obtain ⟨_, hforward⟩ := RouteEntry.forward_spec h.wf { outcomes } data nowNs
    cases hprobe : s.route.probes nowNs with
    | false =>
      rw [hprobe] at hlast
      refine ⟨hforward.wf, ?_, ?_, ?_⟩
      all_goals simp only [RouteRun.step, hprobe, Bool.false_eq_true, if_false]
      · rw [hlast]
        exact h.last
      · exact hold
      · exact h.apart
    | true =>
      obtain ⟨_, _, _, _, hdue⟩ := (h.probes_iff hnow).mp hprobe
      rw [hprobe] at hlast
      refine ⟨hforward.wf, ?_, ?_, ?_⟩
      all_goals simp only [RouteRun.step, hprobe, if_true]
      · rw [hlast, List.getLast?_concat]
        rfl
      · intro t ht
        rcases List.mem_append.mp ht with ht | ht
        · exact hold t ht
        · rw [List.mem_singleton.mp ht]
          exact ⟨hpos, UInt64.le_refl _⟩
      · refine h.apart.append (.singleton _) ?_
        intro t ht t' ht'
        rw [List.head?_cons, Option.mem_some_iff] at ht'
        rw [← ht']
        exact hdue t ht

/-- A probe goes out in front of everything else, and one that is taken is all that the call sends. -/
theorem step_probe {nowNs : UInt64} (hprobe : s.route.probes nowNs = true) (data : List UInt8) (outcomes : List Bool) :
    let s' := s.step (.forwardUdp data nowNs outcomes)
    s'.probes = s.probes ++ [nowNs] ∧
    ∃ rest, s'.sent = s.sent ++ ⟨s.route.hops 0, data, outcomes.headD false⟩ :: rest ∧
      (outcomes.headD false = true → rest = [] ∧ s'.route.activeHop = 0) := by
  intro s'
  refine ⟨by simp only [s', step, hprobe, if_true], ?_⟩
  rcases RouteEntry.relocate_spec s.route.attempted with ⟨hnone, _⟩ | ⟨i, _, hloc⟩
  · rw [RouteEntry.probes, hnone] at hprobe
    cases hprobe
  · rw [RouteEntry.probes_eq hloc] at hprobe
    cases hok : outcomes.headD false with
    | true =>
      refine ⟨[], ?_, fun _ => ⟨rfl, ?_⟩⟩
      all_goals simp only [s', step, RouteEntry.forward_taken hloc hprobe { outcomes } hok]
      · rw [UdpSocket.sent_sendTo]
        show s.sent ++ ([] ++ [⟨s.route.hops 0, data, outcomes.headD false⟩]) = _
        rw [hok]
        rfl
      · rfl
    | false =>
      obtain ⟨_, more, hmore⟩ := RouteEntry.sendOrDemote_frame ((s.route.attempted.setActive i).probed nowNs)
        (UdpSocket.sendTo { outcomes } (s.route.hops 0) data).2 data
      refine ⟨more, ?_, nofun⟩
      have hsent := RouteEntry.forward_refused hloc hprobe { outcomes } hok data
      simp only [s', step, hsent]
      show s.sent ++ _ = _
      refine (congrArg (s.sent ++ ·) hmore).trans ?_
      rw [UdpSocket.sent_sendTo]
      show s.sent ++ ([] ++ [⟨s.route.hops 0, data, outcomes.headD false⟩] ++ more) = _
      rw [hok]
      rfl

/-- A call without a probe whose active hop accepts goes there, and nowhere else. -/
theorem step_accepted {nowNs : UInt64} (hprobe : s.route.probes nowNs = false)
    (hallowed : s.route.hopAllowed s.route.activeHop = true) {outcomes : List Bool}
    (hok : outcomes.headD false = true) (data : List UInt8) :
    s.step (.forwardUdp data nowNs outcomes) =
      { s with
        route := s.route.attempted.took s.route.activeHop
        latest := nowNs
        sent := s.sent ++ [⟨s.route.hops s.route.activeHop, data, true⟩] } := by
  have hloc : s.route.attempted.relocate = some s.route.attempted := by
    unfold RouteEntry.relocate
    exact if_pos hallowed
  have hdue := hprobe
  rw [RouteEntry.probes_eq hloc] at hdue
  have hsend := RouteEntry.sendOrDemote_first s.route.attempted { outcomes } hallowed hok data
  simp only [step, RouteEntry.forward_unprobed hloc hdue, hsend, hprobe, Bool.false_eq_true, if_false,
    UdpSocket.sent_sendTo]
  show { s with
    route := s.route.attempted.took s.route.activeHop
    latest := nowNs
    sent := s.sent ++ ([] ++ [(⟨s.route.hops s.route.activeHop, data, outcomes.headD false⟩ : Datagram)]) } = _
  rw [hok]
  rfl

/-- With hop 0 allowed and a probe due, a call whose first send is taken ends on hop 0. -/
theorem Probing.recovers (h : s.Probing) {nowNs : UInt64} (hnow : s.latest ≤ nowNs)
    (hallowed : s.route.hopAllowed 0 = true) (hdue : s.Due nowNs) {outcomes : List Bool}
    (hok : outcomes.headD false = true) (data : List UInt8) :
    (s.step (.forwardUdp data nowNs outcomes)).route.activeHop = 0 := by
  cases hprobe : s.route.probes nowNs with
  | true =>
    obtain ⟨_, _, _, htaken⟩ := step_probe hprobe data outcomes
    exact (htaken hok).2
  | false =>
    rcases RouteEntry.relocate_spec s.route with ⟨_, hno⟩ | ⟨i, hi, hloc⟩
    · rw [hno 0] at hallowed
      cases hallowed
    · -- without a probe the relocation must have come to hop 0
      have hzero : i = 0 := by
        by_contra hne
        have hyes := (h.probes_iff hnow).mpr ⟨_, hloc, hne, hallowed, hdue⟩
        rw [hprobe] at hyes
        cases hyes
      have hloc' : s.route.attempted.relocate = some (s.route.attempted.setActive i) := by
        rw [RouteEntry.relocate_attempted, hloc]
        rfl
      have hunprobed := hprobe
      rw [RouteEntry.probes_eq hloc'] at hunprobed
      have hsend := RouteEntry.sendOrDemote_first (s.route.attempted.setActive i) { outcomes } hi hok data
      simp only [RouteRun.step, RouteEntry.forward_unprobed hloc' hunprobed, hsend]
      exact hzero

/-- The active hop stays allowed and accepts, and there is no probe. -/
def Keeps (a : Nat) (s : RouteRun) : RouteCall → Prop
  | .forwardUdp _ nowNs outcomes => s.route.probes nowNs = false ∧ outcomes.headD false = true
  | .setHopSkipMask mask => (s.route.setMask mask).hopAllowed a = true

/-- The datagram of a call that only goes to `ep`. -/
def toHop (ep : Endpoint) : RouteCall → Option Datagram
  | .forwardUdp data _ _ => some ⟨ep, data, true⟩
  | .setHopSkipMask _ => none

/-- Between two probes everything goes to the active hop. -/
theorem run_keeps (hactive : s.route.activeHop = a) (hallowed : s.route.hopAllowed a = true) (more : List RouteCall)
    (hkeeps : Runs.AllSteps step (Keeps a) s more) :
    (Runs.run step s more).route.activeHop = a ∧ (Runs.run step s more).probes = s.probes ∧
      (Runs.run step s more).sent = s.sent ++ more.filterMap (toHop (s.route.hops a)) := by
  induction more generalizing s with
  | nil => exact ⟨hactive, rfl, (List.append_nil _).symm⟩
  | cons call more ih =>
    obtain ⟨hthis, hrest⟩ := hkeeps
    cases call with
    | setHopSkipMask mask => exact ih (s := s.step (.setHopSkipMask mask)) hactive hthis hrest
    | forwardUdp data nowNs outcomes =>
      have hnext := step_accepted hthis.1 (hactive.symm ▸ hallowed) hthis.2 data
      rw [Runs.run_cons]
      rw [hnext] at hrest ⊢
      obtain ⟨h₁, h₂, h₃⟩ := ih (s := { s with
        route := s.route.attempted.took s.route.activeHop
        latest := nowNs
        sent := s.sent ++ [⟨s.route.hops s.route.activeHop, data, true⟩] }) hactive hallowed hrest
      refine ⟨h₁, h₂, ?_⟩
      rw [h₃, hactive, List.append_assoc]
      rfl

/-- **The preferred hop is probed at most twice a second, and recovered**, in every run on a route whose clock is
positive and does not go back: the probes are 500 ms apart; a call that comes to stand on another hop, with hop 0
allowed and a probe due, sends to hop 0 first, and stays there when it is taken, so without a mask a call with a probe
due returns to a hop 0 that works; and as long as the active hop is allowed and accepts, it gets everything between two
probes. -/
theorem probe_run (nodeId : UInt16) (hops : List Endpoint) (hopCount : UInt8) (hpos : 0 < hopCount)
    (hle : hopCount ≤ 3) (calls : List RouteCall)
    (hclock : Runs.AllSteps step Timely (start nodeId hops hopCount) calls) :
    let s := Runs.run step (start nodeId hops hopCount) calls
    (s.probes.IsChain fun t t' => t.toNat + 500000000 ≤ t'.toNat) ∧
    (∀ data nowNs outcomes, s.Timely (.forwardUdp data nowNs outcomes) →
      let s' := s.step (.forwardUdp data nowNs outcomes)
      (∀ route, s.route.relocate = some route → route.activeHop ≠ 0 → route.hopAllowed 0 = true → s.Due nowNs →
        s'.probes = s.probes ++ [nowNs] ∧
        ∃ rest, s'.sent = s.sent ++ ⟨s.route.hops 0, data, outcomes.headD false⟩ :: rest ∧
          (outcomes.headD false = true → rest = [] ∧ s'.route.activeHop = 0)) ∧
      (s.route.hopSkipMask = 0 → s.Due nowNs → outcomes.headD false = true → s'.route.activeHop = 0)) ∧
    ∀ a, s.route.activeHop = a → s.route.hopAllowed a = true → ∀ more, Runs.AllSteps step (Keeps a) s more →
      let s' := Runs.run step s more
      s'.route.activeHop = a ∧ s'.probes = s.probes ∧
        s'.sent = s.sent ++ more.filterMap (toHop (s.route.hops a)) := by
  intro s
  have h : s.Probing := Runs.run_inv_of_steps (fun _ _ h ht => h.step ht) calls _ hclock
    (probing_start nodeId hops hpos hle)
  refine ⟨h.apart, ?_, fun a hactive hallowed more hkeeps => run_keeps hactive hallowed more hkeeps⟩
  intro data nowNs outcomes ⟨_, hnow⟩
  constructor
  · intro route hloc hactive hallowed hdue
    exact step_probe ((h.probes_iff hnow).mpr ⟨route, hloc, hactive, hallowed, hdue⟩) data outcomes
  · intro hmask hdue hok
    have hallowed : s.route.hopAllowed 0 = true := by
      have hcount := Nat.lt_of_le_of_lt (Nat.zero_le _) h.wf.active_lt
      simp [RouteEntry.hopAllowed, hmask, hcount]
    exact h.recovers hnow hallowed hdue hok data

/-- Two hops. Hop 0 refuses the first frame, the first probe and nothing after that. -/
theorem probe_run_recovers :
    let calls := [.forwardUdp [1] 5 [false, true], .forwardUdp [2] 6 [false, true], .forwardUdp [3] 7 [true]]
    let s := Runs.run step (start 7 [⟨"10.0.0.1", 9000⟩, ⟨"10.0.0.2", 9000⟩] 2) calls
    s.probes = [6] ∧ s.route.activeHop = 1 ∧
      (s.step (.forwardUdp [4] 500000006 [true])).route.activeHop = 0 := by
  intro calls s
  have h := (probe_run 7 [⟨"10.0.0.1", 9000⟩, ⟨"10.0.0.2", 9000⟩] 2 (by decide) (by decide) calls (by decide)).2.1
    [4] 500000006 [true] (by decide)
  have hprobes : s.probes = [6] := by decide
  refine ⟨hprobes, by decide, h.2 (by decide) ?_ rfl⟩
  intro t ht
  rw [show Runs.run step _ calls = s from rfl, hprobes] at ht
  cases ht
  decide

end RouteRun

/-! ## The routes of a router -/

namespace MeshRouter

variable {r : MeshRouter} {node other : UInt16} {i j : Nat} {route route' : RouteEntry}

/-- The calls for one node. -/
def ofNode (node : UInt16) : RouterCall → Option RouteCall
  | .addRoute _ _ _ => none
  | .setHopSkipMask nodeId mask => if nodeId = node then some (.setHopSkipMask mask) else none
  | .forwardUdp nodeId data nowNs outcomes => if nodeId = node then some (.forwardUdp data nowNs outcomes) else none

/-- The calls for the node go to this route. -/
structure At (r : MeshRouter) (node : UInt16) (i : Nat) (route : RouteEntry) : Prop where
  find : r.find node = some i
  get : r.routes[i]? = some route

/-- Nothing but the nodes of the routes matters to `find`. -/
theorem find_congr {r' : MeshRouter} (h : r'.routes.map (·.nodeId) = r.routes.map (·.nodeId)) (node : UInt16) :
    r'.find node = r.find node := by
  have hmap : ∀ r : MeshRouter, r.find node = (r.routes.map (·.nodeId)).findIdx? (· == node) := by
    intro r
    rw [List.findIdx?_map]
    rfl
  rw [hmap, hmap, h]

theorem exists_at (h : r.find node = some i) : ∃ route, r.At node i route :=
  ⟨_, h, List.getElem?_eq_getElem (find_lt h)⟩

theorem At.node_eq (h : r.At node i route) : route.nodeId = node := by
  obtain ⟨hi, hmatch, _⟩ := List.findIdx?_eq_some_iff_getElem.mp h.find
  have hroute := h.get
  rw [List.getElem?_eq_getElem hi] at hroute
  cases hroute
  exact beq_iff_eq.mp hmatch

/-- The calls for two nodes go to two routes. -/
theorem At.index_ne (h : r.At node i route) (h' : r.At other j route') (hne : other ≠ node) : j ≠ i := by
  intro heq
  have hroute := h'.get
  rw [heq, h.get] at hroute
  cases hroute
  exact hne (h'.node_eq.symm.trans h.node_eq)

/-- A list does not change where the same is written back. -/
theorem set_same {α : Type} {l : List α} {a : α} (h : l[j]? = some a) : l.set j a = l := by
  obtain ⟨hj, hget⟩ := List.getElem?_eq_some_iff.mp h
  rw [← hget, List.set_getElem_self]

/-- The route of `other` is written back, with the same node. -/
theorem At.set (h : r.At node i route) (h' : r.At other j route') (new : RouteEntry)
    (hnode : new.nodeId = route'.nodeId) :
    At { r with routes := r.routes.set j new } node i (if other = node then new else route) := by
  have hj := find_lt h'.find
  constructor
  · refine (find_congr ?_ node).trans h.find
    rw [List.map_set, hnode]
    exact set_same (by rw [List.getElem?_map, h'.get]; rfl)
  · show (r.routes.set j new)[i]? = _
    split
    · rename_i heq
      have hij : j = i := Option.some.inj (h'.find.symm.trans (by rw [heq]; exact h.find))
      rw [← hij, List.getElem?_set_self hj]
    · rename_i hne
      rw [List.getElem?_set_ne (h.index_ne h' hne), h.get]

theorem At.addRoute (h : r.At node i route) (nodeId : UInt16) (hops : Option (List Endpoint)) (hopCount : UInt8) :
    (r.addRoute nodeId hops hopCount).2.At node i route := by
  cases hops with
  | none => exact h
  | some hops =>
    by_cases hbad : hopCount = 0 ∨ hopCount.toNat > kMaxFallbacks ∨ r.routes.length ≥ r.capacity
    · simpa [MeshRouter.addRoute, hbad] using h
    · simp only [MeshRouter.addRoute, hbad, if_false]
      constructor
      · show (r.routes ++ [_]).findIdx? _ = some i
        rw [List.findIdx?_append, show r.routes.findIdx? _ = some i from h.find]
        rfl
      · show (r.routes ++ [_])[i]? = some route
        rw [List.getElem?_append_left (find_lt h.find), h.get]

/-- `add_route` on a node without a route puts in a new one. -/
theorem at_addRoute (hnew : r.find node = none) (hops : List Endpoint) (hopCount : UInt8)
    (hok : (r.addRoute node (some hops) hopCount).1 = true) :
    (r.addRoute node (some hops) hopCount).2.At node r.routes.length (.fresh node hops hopCount) := by
  unfold MeshRouter.addRoute at hok ⊢
  simp only at hok ⊢
  split at hok
  · cases hok
  · rename_i hgood
    rw [if_neg hgood]
    constructor
    · show (r.routes ++ [_]).findIdx? _ = _
      rw [List.findIdx?_append, show r.routes.findIdx? _ = none from hnew]
      simp [List.findIdx?_cons]
    · show (r.routes ++ [_])[r.routes.length]? = _
      rw [List.getElem?_concat_length]
      rfl

/-- One call: the route of the node makes a step when the call is for the node. -/
theorem At.step {s : RouteRun} (h : r.At node i s.route) (hr : r.Wf) (call : RouterCall) :
    (r.step call).At node i (Runs.run RouteRun.step s (ofNode node call).toList).route := by
  cases call with
  | addRoute nodeId hops hopCount => exact h.addRoute nodeId hops hopCount
  | setHopSkipMask other mask =>
    cases hfind : r.find other with
    | none =>
      have hne : other ≠ node := fun heq => by rw [heq, h.find] at hfind; cases hfind
      simpa [MeshRouter.step, MeshRouter.setHopSkipMask, hfind, ofNode, hne] using h
    | some j =>
      obtain ⟨route', h'⟩ := exists_at hfind
      have hset := h.set h' (route'.setMask mask) rfl
      have hstep : (r.step (.setHopSkipMask other mask)).routes = r.routes.set j (route'.setMask mask) := by
        simp only [MeshRouter.step, MeshRouter.setHopSkipMask, hfind]
        rw [List.modify_eq_set_getElem?, h'.get]
        rfl
      have hsame : r.step (.setHopSkipMask other mask) = { r with routes := r.routes.set j (route'.setMask mask) } := by
        rw [← hstep]
        simp only [MeshRouter.step, MeshRouter.setHopSkipMask, hfind]
      rw [hsame]
      by_cases heq : other = node
      · subst heq
        have hij : j = i := Option.some.inj (hfind.symm.trans h.find)
        have hroute : route' = s.route := Option.some.inj (h'.get.symm.trans (by rw [hij]; exact h.get))
        simpa [ofNode, RouteRun.step, hroute] using hset
      · simpa [ofNode, heq] using hset
  | forwardUdp other data nowNs outcomes =>
    cases hfind : r.find other with
    | none =>
      have hne : other ≠ node := fun heq => by rw [heq, h.find] at hfind; cases hfind
      simpa [MeshRouter.step, forwardUdp_unknown hfind, ofNode, hne] using h
    | some j =>
      obtain ⟨route', h'⟩ := exists_at hfind
      obtain ⟨_, hforward⟩ := RouteEntry.forward_spec (hr route' (List.mem_of_getElem? h'.get)) { outcomes } data nowNs
      have hset := h.set h' _ hforward.same.nodeId
      have hsame := congrArg (fun res => res.2.1) (forwardUdp_eq hfind h'.get { outcomes } data nowNs)
      rw [show r.step (.forwardUdp other data nowNs outcomes) = _ from hsame]
      by_cases heq : other = node
      · subst heq
        have hij : j = i := Option.some.inj (hfind.symm.trans h.find)
        have hroute : route' = s.route := Option.some.inj (h'.get.symm.trans (by rw [hij]; exact h.get))
        simpa [ofNode, RouteRun.step, hroute] using hset
      · simpa [ofNode, heq] using hset

/-- **A run of a router is, on each of its routes, a run of the calls for its node.** -/
theorem route_run {s : RouteRun} (h : r.At node i s.route) (hr : r.Wf) (calls : List RouterCall) :
    (Runs.run MeshRouter.step r calls).At node i
      (Runs.run RouteRun.step s (calls.filterMap (ofNode node))).route := by
  induction calls generalizing r s with
  | nil => exact h
  | cons call calls ih =>
    have hnext := ih (h.step hr call) (hr.step call)
    rw [← Runs.run_append] at hnext
    cases hcall : ofNode node call with
    | none =>
      rw [hcall] at hnext
      rw [List.filterMap_cons_none hcall]
      exact hnext
    | some mine =>
      rw [hcall] at hnext
      rw [List.filterMap_cons_some hcall]
      exact hnext

end MeshRouter

end ZcMesh.Core
