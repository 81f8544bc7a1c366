import ZcMesh.Edge.Net
import ZcMesh.Lib.Attempts
import ZcMesh.Lib.Run

/-!
# The mesh router

`core-engine/src/router.cpp`: `add_route`, `find`, `set_hop_skip_mask` and `forward_udp`.

* On one route a call is a history of attempts at allowed hops that stops at the first success
  (`RouteEntry.forward_spec`); after a failure every allowed hop has been tried.
* In every reachable router each route is well formed and its counters balance (`wf_run`), and so a call of
  `forward_udp` is safe, complete and exactly-once (`forwardUdp_spec`).
-/

namespace ZcMesh.Core

open Attempts (History)

/-! ## The code -/

/-- `kMaxFallbacks`. -/
def kMaxFallbacks : Nat := 3

/-- `RouteEntry`; `hops` and `hopOk` have the indices below `kMaxFallbacks`. -/
structure RouteEntry where
  nodeId : UInt16
  hops : Nat → Endpoint
  hopCount : Nat
  activeHop : Nat
  hopSkipMask : UInt8
  attempts : UInt64
  fails : UInt64
  hopOk : Nat → UInt64
  lastProbeNs : UInt64

/-- `MeshRouter`; `routes` are the `count_` routes in use. -/
structure MeshRouter where
  routes : List RouteEntry
  capacity : Nat

namespace RouteEntry

variable (route : RouteEntry)

/-- `hop_allowed`. -/
def hopAllowed (idx : Nat) : Bool := decide (idx < route.hopCount) && (route.hopSkipMask.toNat &&& (1 <<< idx)) == 0

/-- `++attempts`. -/
def attempted : RouteEntry := { route with attempts := route.attempts + 1 }

/-- `++fails`. -/
def failed : RouteEntry := { route with fails := route.fails + 1 }

def setActive (idx : Nat) : RouteEntry := { route with activeHop := idx }

/-- Hop `idx` has taken the frame. -/
def took (idx : Nat) : RouteEntry :=
  { route with activeHop := idx, hopOk := Function.update route.hopOk idx (route.hopOk idx + 1) }

/-- Move a masked active hop to the first allowed one; `none` when no hop is allowed. -/
def relocate : Option RouteEntry :=
  if route.hopAllowed route.activeHop then some route
  else ((List.range route.hopCount).find? route.hopAllowed).map route.setActive

/-- `kPreferredProbeNs`. -/
def kPreferredProbeNs : UInt64 := 500000000

/-- The preferred hop is due to be probed. -/
def probeDue (nowNs : UInt64) : Bool :=
  decide (0 < route.activeHop) && route.hopAllowed 0 &&
    (route.lastProbeNs == 0 || decide (nowNs - route.lastProbeNs ≥ kPreferredProbeNs))

/-- The rotating loop, over the values of `attempt` to come. -/
def sendLoop (data : List UInt8) : List Nat → UdpSocket → Bool × RouteEntry × UdpSocket
  | [], udp => (false, route, udp)
  | attempt :: rest, udp =>
    let idx := (route.activeHop + attempt) % route.hopCount
    if !route.hopAllowed idx then sendLoop data rest udp
    else
      let (ok, udp) := udp.sendTo (route.hops idx) data
      if ok then (true, route.took idx, udp) else sendLoop data rest udp

/-- The next allowed hop behind the active one, once around. -/
def nextAllowed : Option Nat :=
  ((List.range' 1 route.hopCount).map fun step => (route.activeHop + step) % route.hopCount).find? route.hopAllowed

/-- After a failed call: on to the next allowed hop. -/
def demote : RouteEntry :=
  match route.failed.nextAllowed with
  | some idx => route.failed.setActive idx
  | none => route.failed

/-- The rotating loop and what follows it. -/
def sendOrDemote (udp : UdpSocket) (data : List UInt8) : Bool × RouteEntry × UdpSocket :=
  let (ok, route, udp) := route.sendLoop data (List.range route.hopCount) udp
  if ok then (true, route, udp) else (false, route.demote, udp)

def probed (nowNs : UInt64) : RouteEntry := { route with lastProbeNs := nowNs }

/-- The probe of the preferred hop, when it is due, and the rotating loop behind it. -/
def probeOrSend (udp : UdpSocket) (data : List UInt8) (nowNs : UInt64) : Bool × RouteEntry × UdpSocket :=
  if route.probeDue nowNs then
    let (ok, udp) := udp.sendTo (route.hops 0) data
    if ok then (true, (route.probed nowNs).took 0, udp) else (route.probed nowNs).sendOrDemote udp data
  else route.sendOrDemote udp data

/-- `forward_udp`, on the route of the node. -/
def forward (udp : UdpSocket) (data : List UInt8) (nowNs : UInt64) : Bool × RouteEntry × UdpSocket :=
  match route.attempted.relocate with
  | none => (false, route.attempted.failed, udp)
  | some route => route.probeOrSend udp data nowNs

end RouteEntry

namespace MeshRouter

/-- The constructor. -/
def make (maxRoutes : Nat) : MeshRouter := { routes := [], capacity := maxRoutes }

/-- `add_route`; `hops` is `none` for a null pointer. -/
def addRoute (r : MeshRouter) (nodeId : UInt16) (hops : Option (List Endpoint)) (hopCount : UInt8) :
    Bool × MeshRouter :=
  match hops with
  | none => (false, r)
  | some hops =>
    if hopCount = 0 ∨ hopCount.toNat > kMaxFallbacks ∨ r.routes.length ≥ r.capacity then (false, r)
    else
      let e : RouteEntry :=
        { nodeId, hops := fun i => hops.getD i default, hopCount := hopCount.toNat, activeHop := 0, hopSkipMask := 0,
          attempts := 0, fails := 0, hopOk := fun _ => 0, lastProbeNs := 0 }
      (true, { r with routes := r.routes ++ [e] })

/-- `find`: the index of the first route of the node. -/
def find (r : MeshRouter) (nodeId : UInt16) : Option Nat := r.routes.findIdx? (·.nodeId == nodeId)

/-- `set_hop_skip_mask`. -/
def setHopSkipMask (r : MeshRouter) (nodeId : UInt16) (mask : UInt8) : Bool × MeshRouter :=
  match r.find nodeId with
  | none => (false, r)
  | some i => (true, { r with routes := r.routes.modify i fun route => { route with hopSkipMask := mask } })

/-- `forward_udp`. -/
def forwardUdp (r : MeshRouter) (udp : UdpSocket) (nodeId : UInt16) (data : List UInt8) (nowNs : UInt64) :
    Bool × MeshRouter × UdpSocket :=
  match (r.find nodeId).bind fun i => r.routes[i]?.map (i, ·) with
  | none => (false, r, udp)
  | some (i, route) =>
    let (ok, route, udp) := route.forward udp data nowNs
    (ok, { r with routes := r.routes.set i route }, udp)

end MeshRouter

/-! ## One route -/

namespace RouteEntry

/-- The sum of the counters of the hops. -/
def delivered (route : RouteEntry) : UInt64 := route.hopOk 0 + route.hopOk 1 + route.hopOk 2

/-- The active hop is a hop, there are at most three, and every attempt failed or was taken by a hop. -/
structure Wf (route : RouteEntry) : Prop where
  active_lt : route.activeHop < route.hopCount
  count_le : route.hopCount ≤ kMaxFallbacks
  balance : route.attempts = route.fails + route.delivered

/-- A route in a call of `forward_udp`: one attempt is still open. -/
structure Trying (route : RouteEntry) : Prop where
  active_lt : route.activeHop < route.hopCount
  count_le : route.hopCount ≤ kMaxFallbacks
  balance : route.attempts = route.fails + route.delivered + 1

/-- The parts of a route that forwarding does not touch. -/
structure SameHops (route route' : RouteEntry) : Prop where
  nodeId : route'.nodeId = route.nodeId
  hops : route'.hops = route.hops
  hopCount : route'.hopCount = route.hopCount
  hopSkipMask : route'.hopSkipMask = route.hopSkipMask

theorem SameHops.trans {r₀ r₁ r₂ : RouteEntry} (h : SameHops r₀ r₁) (h' : SameHops r₁ r₂) : SameHops r₀ r₂ :=
  ⟨h'.nodeId.trans h.nodeId, h'.hops.trans h.hops, h'.hopCount.trans h.hopCount,
    h'.hopSkipMask.trans h.hopSkipMask⟩

theorem SameHops.allowed {route route' : RouteEntry} (h : SameHops route route') (i : Nat) :
    route'.hopAllowed i = route.hopAllowed i := by
  rw [hopAllowed, hopAllowed, h.hopCount, h.hopSkipMask]

theorem hopAllowed_lt {route : RouteEntry} {i : Nat} (h : route.hopAllowed i = true) : i < route.hopCount := by
  simp only [hopAllowed, Bool.and_eq_true, decide_eq_true_eq] at h
  exact h.1

theorem delivered_took (route : RouteEntry) {i : Nat} (hi : i < kMaxFallbacks) :
    (route.took i).delivered = route.delivered + 1 := by
  simp only [kMaxFallbacks] at hi
  obtain rfl | rfl | rfl : i = 0 ∨ i = 1 ∨ i = 2 := by omega
  all_goals
    simp [delivered, took, Function.update]
    try ac_rfl

/-- The socket has sent the attempts of the history `h` at allowed hops of the route. -/
structure Sends (route : RouteEntry) (data : List UInt8) (udp udp' : UdpSocket) (h : History Nat) : Prop where
  sent : udp'.sent = udp.sent ++ h.log.map fun t => ⟨route.hops t.1, data, t.2⟩
  allowed : ∀ i ∈ h.tried, route.hopAllowed i = true

variable {route : RouteEntry} {data : List UInt8}

theorem Sends.none (udp : UdpSocket) : Sends route data udp udp .empty where
  sent := by simp [History.log, History.empty]
  allowed := nofun

theorem Sends.one (udp : UdpSocket) {i : Nat} (hi : route.hopAllowed i = true) :
    Sends route data udp (udp.sendTo (route.hops i) data).2 (.one i (udp.sendTo (route.hops i) data).1) where
  sent := by simp [UdpSocket.sent_sendTo]
  allowed := by
    intro j hj
    rw [History.tried_one, List.mem_singleton] at hj
    rw [hj]
    exact hi

theorem Sends.after {udp udp₁ udp₂ : UdpSocket} {refused : List Nat} {h : History Nat}
    (h₁ : Sends route data udp udp₁ ⟨refused, .none⟩) (h₂ : Sends route data udp₁ udp₂ h) :
    Sends route data udp udp₂ (.after refused h) where
  sent := by
    have h0 : (⟨refused, .none⟩ : History Nat).log = refused.map (·, false) := by simp [History.log]
    rw [h₂.sent, h₁.sent, History.log_after, h0, List.map_append, List.append_assoc]
  allowed := by
    intro i hi
    have h0 : (⟨refused, .none⟩ : History Nat).tried = refused := by simp [History.tried]
    rw [History.tried_after] at hi
    rcases List.mem_append.mp hi with hi | hi
    · exact h₁.allowed i (by rw [h0]; exact hi)
    · exact h₂.allowed i hi

/-- Only the parts that forwarding leaves alone matter. -/
theorem Sends.congr {route' : RouteEntry} {udp udp' : UdpSocket} {h : History Nat} (hs : Sends route data udp udp' h)
    (hsame : SameHops route route') : Sends route' data udp udp' h where
  sent := by rw [hsame.hops]; exact hs.sent
  allowed := fun i hi => by rw [hsame.allowed]; exact hs.allowed i hi

/-- The rotating loop tries the allowed hops it comes to until one takes the frame. -/
theorem sendLoop_spec (route : RouteEntry) (data : List UInt8) (attempts : List Nat) (udp : UdpSocket) :
    ∃ h : History Nat, Sends route data udp (route.sendLoop data attempts udp).2.2 h ∧
      (route.sendLoop data attempts udp).1 = h.won.isSome ∧
      (∀ i, h.won = some i → (route.sendLoop data attempts udp).2.1 = route.took i) ∧
      (h.won = none → (route.sendLoop data attempts udp).2.1 = route ∧
        ∀ attempt ∈ attempts, route.hopAllowed ((route.activeHop + attempt) % route.hopCount) = true →
          (route.activeHop + attempt) % route.hopCount ∈ h.refused) := by
  induction attempts generalizing udp with
  | nil => exact ⟨.empty, .none udp, rfl, nofun, fun _ => ⟨rfl, nofun⟩⟩
  | cons attempt rest ih =>
    generalize hidx : (route.activeHop + attempt) % route.hopCount = idx
    cases hallow : route.hopAllowed idx with
    | false =>
      obtain ⟨h, hsends, hok, hwon, hlost⟩ := ih udp
      have hskip : route.sendLoop data (attempt :: rest) udp = route.sendLoop data rest udp := by
        simp [sendLoop, hidx, hallow]
      rw [hskip]
      refine ⟨h, hsends, hok, hwon, fun hn => ⟨(hlost hn).1, ?_⟩⟩
      intro a ha haa
      rcases List.mem_cons.mp ha with rfl | ha
      · rw [hidx, hallow] at haa
        cases haa
      · exact (hlost hn).2 a ha haa
    | true =>
      have hone : Sends route data udp _ _ := Sends.one udp hallow
      cases hok : (udp.sendTo (route.hops idx) data).1 with
      | true =>
        have htake : route.sendLoop data (attempt :: rest) udp =
            (true, route.took idx, (udp.sendTo (route.hops idx) data).2) := by
          simp [sendLoop, hidx, hallow, hok]
        rw [htake]
        rw [hok] at hone
        refine ⟨_, hone, rfl, ?_, nofun⟩
        intro i hi
        cases hi
        rfl
      | false =>
        obtain ⟨h, hsends, hres, hwon, hlost⟩ := ih (udp.sendTo (route.hops idx) data).2
        have hnext : route.sendLoop data (attempt :: rest) udp =
            route.sendLoop data rest (udp.sendTo (route.hops idx) data).2 := by
          simp [sendLoop, hidx, hallow, hok]
        rw [hnext]
        rw [hok] at hone
        refine ⟨.after [idx] h, hone.after hsends, hres, hwon, fun hn => ⟨(hlost hn).1, ?_⟩⟩
        intro a ha haa
        rcases List.mem_cons.mp ha with rfl | ha
        · rw [hidx]
          exact List.mem_append_left _ (List.mem_singleton.mpr rfl)
        · exact List.mem_append_right _ ((hlost hn).2 a ha haa)

/-- Rotating once around comes to every hop. -/
theorem exists_attempt {a i n : Nat} (ha : a < n) (hi : i < n) : ∃ k ∈ List.range n, (a + k) % n = i := by
  refine ⟨(i + (n - a)) % n, List.mem_range.mpr (Nat.mod_lt _ (by omega)), ?_⟩
  rw [Nat.add_mod_mod, show a + (i + (n - a)) = i + n by omega, Nat.add_mod_right, Nat.mod_eq_of_lt hi]

theorem Trying.took (ht : Trying route) {i : Nat} (hi : i < route.hopCount) : (route.took i).Wf where
  active_lt := hi
  count_le := ht.count_le
  balance := by
    rw [delivered_took route (Nat.lt_of_lt_of_le hi ht.count_le)]
    exact ht.balance.trans (UInt64.add_assoc _ _ _)

/-- What `demote` does: it counts the failure and stays on a hop. -/
theorem demote_spec (route : RouteEntry) : SameHops route route.demote ∧ route.demote.attempts = route.attempts ∧
    route.demote.fails = route.fails + 1 ∧ route.demote.delivered = route.delivered ∧
    (route.activeHop < route.hopCount → route.demote.activeHop < route.hopCount) := by
  unfold demote
  split
  · rename_i idx hfind
    exact ⟨⟨rfl, rfl, rfl, rfl⟩, rfl, rfl, rfl, fun _ => hopAllowed_lt (List.find?_some hfind)⟩
  · exact ⟨⟨rfl, rfl, rfl, rfl⟩, rfl, rfl, rfl, id⟩

theorem Trying.demote (ht : Trying route) : route.demote.Wf := by
  obtain ⟨hsame, hattempts, hfails, hdelivered, hactive⟩ := demote_spec route
  exact
    { active_lt := by rw [hsame.hopCount]; exact hactive ht.active_lt
      count_le := by rw [hsame.hopCount]; exact ht.count_le
      balance := by rw [hattempts, hfails, hdelivered, ht.balance]; ac_rfl }

/-- **What a call does to its route** and what it sends: the history `h` of attempts. -/
structure Forwarded (route : RouteEntry) (data : List UInt8) (udp : UdpSocket) (res : Bool × RouteEntry × UdpSocket)
    (h : History Nat) : Prop where
  sends : Sends route data udp res.2.2 h
  ok : res.1 = h.won.isSome
  active : ∀ i, h.won = some i → res.2.1.activeHop = i
  complete : h.won = none → ∀ i, route.hopAllowed i = true → i ∈ h.refused
  same : SameHops route res.2.1
  wf : res.2.1.Wf

theorem sendOrDemote_spec (ht : Trying route) (udp : UdpSocket) (data : List UInt8) :
    ∃ h, Forwarded route data udp (route.sendOrDemote udp data) h := by
  obtain ⟨h, hsends, hok, hwon, hlost⟩ := sendLoop_spec route data (List.range route.hopCount) udp
  generalize hres : route.sendLoop data (List.range route.hopCount) udp = res at hsends hok hwon hlost
  obtain ⟨ok, route', udp'⟩ := res
  refine ⟨h, ?_⟩
  cases hw : h.won with
  | some i =>
    have hroute : route' = route.took i := hwon i hw
    have hoktrue : ok = true := by rw [show ok = h.won.isSome from hok, hw]; rfl
    have hi : route.hopAllowed i = true := hsends.allowed i (by simp [History.tried, hw])
    have hd : route.sendOrDemote udp data = (true, route.took i, udp') := by
      simp [sendOrDemote, hres, hoktrue, hroute]
    rw [hd]
    exact
      { sends := hsends
        ok := by rw [hw]; rfl
        active := fun j hj => by rw [hw] at hj; cases hj; rfl
        complete := fun hn => by rw [hw] at hn; cases hn
        same := ⟨rfl, rfl, rfl, rfl⟩
        wf := ht.took (hopAllowed_lt hi) }
  | none =>
    obtain ⟨hroute, htried⟩ := hlost hw
    have hokfalse : ok = false := by rw [show ok = h.won.isSome from hok, hw]; rfl
    have hd : route.sendOrDemote udp data = (false, route.demote, udp') := by
      simp only [sendOrDemote, hres, hokfalse, Bool.false_eq_true, if_false]
      rw [show route' = route from hroute]
    rw [hd]
    exact
      { sends := hsends
        ok := by rw [hw]; rfl
        active := fun j hj => by rw [hw] at hj; cases hj
        complete := by
          intro _ i hi
          obtain ⟨k, hk, hki⟩ := exists_attempt ht.active_lt (hopAllowed_lt hi)
          have hmem := htried k hk (by rw [hki]; exact hi)
          rwa [hki] at hmem
        same := (demote_spec route).1
        wf := ht.demote }

/-- A change that leaves the hops alone does not matter to what the call sends. -/
theorem Forwarded.of_same {route' : RouteEntry} {udp : UdpSocket} {res : Bool × RouteEntry × UdpSocket}
    {h : History Nat} (hf : Forwarded route' data udp res h) (hsame : SameHops route route') :
    Forwarded route data udp res h where
  sends := hf.sends.congr ⟨hsame.nodeId.symm, hsame.hops.symm, hsame.hopCount.symm, hsame.hopSkipMask.symm⟩
  ok := hf.ok
  active := hf.active
  complete := fun hn i hi => hf.complete hn i (by rw [hsame.allowed]; exact hi)
  same := hsame.trans hf.same
  wf := hf.wf

/-- A refused probe in front of the loop. -/
theorem Forwarded.after_probe {udp udp₁ : UdpSocket} {res : Bool × RouteEntry × UdpSocket} {h : History Nat} {i : Nat}
    (hprobe : Sends route data udp udp₁ ⟨[i], none⟩) (hf : Forwarded route data udp₁ res h) :
    Forwarded route data udp res (.after [i] h) where
  sends := hprobe.after hf.sends
  ok := hf.ok
  active := hf.active
  complete := fun hn j hj => List.mem_append_right _ (hf.complete hn j hj)
  same := hf.same
  wf := hf.wf

/-- `relocate` leaves the route on an allowed hop, or there is none. -/
theorem relocate_spec (route : RouteEntry) :
    (route.relocate = none ∧ ∀ i, route.hopAllowed i = false) ∨
      ∃ i, route.hopAllowed i = true ∧ route.relocate = some (route.setActive i) := by
  unfold relocate
  split
  · rename_i hactive
    exact Or.inr ⟨route.activeHop, hactive, rfl⟩
  · cases hfind : (List.range route.hopCount).find? route.hopAllowed with
    | none =>
      refine Or.inl ⟨rfl, ?_⟩
      intro i
      by_contra hi
      have hi' : route.hopAllowed i = true := by simpa using hi
      exact List.find?_eq_none.mp hfind i (List.mem_range.mpr (hopAllowed_lt hi')) hi'
    | some i => exact Or.inr ⟨i, List.find?_some hfind, rfl⟩

theorem probeOrSend_spec (ht : Trying route) (udp : UdpSocket) (data : List UInt8) (nowNs : UInt64) :
    ∃ h, Forwarded route data udp (route.probeOrSend udp data nowNs) h := by
  have ht' : Trying (route.probed nowNs) := ⟨ht.active_lt, ht.count_le, ht.balance⟩
  have hsame : SameHops route (route.probed nowNs) := ⟨rfl, rfl, rfl, rfl⟩
  by_cases hdue : route.probeDue nowNs = true
  · have hzero : route.hopAllowed 0 = true := by
      simp only [probeDue, Bool.and_eq_true] at hdue
      exact hdue.1.2
    have hprobe : Sends route data udp _ _ := Sends.one udp hzero
    cases hok : (udp.sendTo (route.hops 0) data).1 with
    | true =>
      rw [hok] at hprobe
      have htake : route.probeOrSend udp data nowNs =
          (true, (route.probed nowNs).took 0, (udp.sendTo (route.hops 0) data).2) := by
        simp [probeOrSend, hdue, hok]
      rw [htake]
      refine ⟨_, hprobe, rfl, ?_, nofun, ⟨rfl, rfl, rfl, rfl⟩, ht'.took (hopAllowed_lt hzero)⟩
      intro i hi
      cases hi
      rfl
    | false =>
      rw [hok] at hprobe
      have hnext : route.probeOrSend udp data nowNs =
          (route.probed nowNs).sendOrDemote (udp.sendTo (route.hops 0) data).2 data := by
        simp [probeOrSend, hdue, hok]
      obtain ⟨h, hf⟩ := sendOrDemote_spec ht' (udp.sendTo (route.hops 0) data).2 data
      rw [hnext]
      exact ⟨_, (hf.of_same hsame).after_probe hprobe⟩
  · rw [probeOrSend, if_neg hdue]
    exact sendOrDemote_spec ht udp data

/-- **`forward_udp` on a well-formed route.** -/
theorem forward_spec (hw : route.Wf) (udp : UdpSocket) (data : List UInt8) (nowNs : UInt64) :
    ∃ h, Forwarded route data udp (route.forward udp data nowNs) h := by
  unfold forward
  rcases relocate_spec route.attempted with ⟨hnone, hno⟩ | ⟨i, hi, hsome⟩
  · rw [hnone]
    refine ⟨.empty, Sends.none udp, rfl, nofun, ?_, ⟨rfl, rfl, rfl, rfl⟩, hw.active_lt, hw.count_le, ?_⟩
    · intro _ i hi
      have hi' : route.attempted.hopAllowed i = true := hi
      rw [hno i] at hi'
      cases hi'
    · show route.attempts + 1 = route.fails + 1 + route.delivered
      rw [hw.balance]
      ac_rfl
  · rw [hsome]
    have ht : Trying (route.attempted.setActive i) := ⟨hopAllowed_lt hi, hw.count_le, congrArg (· + 1) hw.balance⟩
    obtain ⟨h, hf⟩ := probeOrSend_spec ht udp data nowNs
    exact ⟨h, hf.of_same ⟨rfl, rfl, rfl, rfl⟩⟩

end RouteEntry

/-! ## The router -/

/-- The calls that change a router; `outcomes` are the results of the `send_to` calls of a `forward_udp`. -/
inductive RouterCall
  | addRoute (nodeId : UInt16) (hops : Option (List Endpoint)) (hopCount : UInt8)
  | setHopSkipMask (nodeId : UInt16) (mask : UInt8)
  | forwardUdp (nodeId : UInt16) (data : List UInt8) (nowNs : UInt64) (outcomes : List Bool)

namespace MeshRouter

def step (r : MeshRouter) : RouterCall → MeshRouter
  | .addRoute nodeId hops hopCount => (r.addRoute nodeId hops hopCount).2
  | .setHopSkipMask nodeId mask => (r.setHopSkipMask nodeId mask).2
  | .forwardUdp nodeId data nowNs outcomes => (r.forwardUdp { outcomes } nodeId data nowNs).2.1

/-- Every route is well formed. -/
def Wf (r : MeshRouter) : Prop := ∀ route ∈ r.routes, route.Wf

variable {r : MeshRouter}

theorem find_lt {nodeId : UInt16} {i : Nat} (h : r.find nodeId = some i) : i < r.routes.length :=
  (List.findIdx?_eq_some_iff_getElem.mp h).1

/-- `forward_udp` on a known node works on its route. -/
theorem forwardUdp_eq {nodeId : UInt16} {i : Nat} {route : RouteEntry} (hfind : r.find nodeId = some i)
    (hroute : r.routes[i]? = some route) (udp : UdpSocket) (data : List UInt8) (nowNs : UInt64) :
    r.forwardUdp udp nodeId data nowNs =
      ((route.forward udp data nowNs).1, { r with routes := r.routes.set i (route.forward udp data nowNs).2.1 },
        (route.forward udp data nowNs).2.2) := by
  simp [forwardUdp, hfind, hroute]

/-- On an unknown node it sends nothing and changes nothing. -/
theorem forwardUdp_unknown {nodeId : UInt16} (hfind : r.find nodeId = none) (udp : UdpSocket) (data : List UInt8)
    (nowNs : UInt64) : r.forwardUdp udp nodeId data nowNs = (false, r, udp) := by
  simp [forwardUdp, hfind]

theorem Wf.addRoute (hr : r.Wf) (nodeId : UInt16) (hops : Option (List Endpoint)) (hopCount : UInt8) :
    (r.addRoute nodeId hops hopCount).2.Wf := by
  cases hops with
  | none => exact hr
  | some hops =>
    by_cases hbad : hopCount = 0 ∨ hopCount.toNat > kMaxFallbacks ∨ r.routes.length ≥ r.capacity
    · simpa [MeshRouter.addRoute, hbad] using hr
    · have hpos : 0 < hopCount.toNat := by
        have hne : hopCount.toNat ≠ 0 := fun hc => hbad (Or.inl (UInt8.toNat_inj.mp hc))
        omega
      simp only [MeshRouter.addRoute, hbad, if_false]
      intro route hmem
      rcases List.mem_append.mp hmem with hmem | hmem
      · exact hr route hmem
      · rw [List.mem_singleton.mp hmem]
        have hle : hopCount.toNat ≤ kMaxFallbacks := by
          simp only [not_or] at hbad
          omega
        exact ⟨hpos, hle, rfl⟩

theorem Wf.setHopSkipMask (hr : r.Wf) (nodeId : UInt16) (mask : UInt8) : (r.setHopSkipMask nodeId mask).2.Wf := by
  unfold MeshRouter.setHopSkipMask
  split
  · exact hr
  · rename_i i _
    intro route hmem
    obtain ⟨j, hj⟩ := List.mem_iff_getElem?.mp hmem
    rw [List.getElem?_modify] at hj
    obtain ⟨old, hold, heq⟩ := Option.map_eq_some_iff.mp hj
    have hw := hr old (List.mem_of_getElem? hold)
    rw [← heq]
    split
    · exact ⟨hw.active_lt, hw.count_le, hw.balance⟩
    · exact hw

theorem Wf.forwardUdp (hr : r.Wf) (udp : UdpSocket) (nodeId : UInt16) (data : List UInt8) (nowNs : UInt64) :
    (r.forwardUdp udp nodeId data nowNs).2.1.Wf := by
  cases hfind : r.find nodeId with
  | none =>
    rw [forwardUdp_unknown hfind]
    exact hr
  | some i =>
    have hi := find_lt hfind
    have hroute : r.routes[i]? = some r.routes[i] := List.getElem?_eq_getElem hi
    rw [forwardUdp_eq hfind hroute]
    obtain ⟨_, hf⟩ := RouteEntry.forward_spec (hr _ (List.getElem_mem hi)) udp data nowNs
    intro route hmem
    rcases List.mem_or_eq_of_mem_set hmem with hmem | rfl
    · exact hr route hmem
    · exact hf.wf

/-- What a call sends; a frame that it delivers has gone out in the last datagram. -/
theorem sent_forwardUdp (hr : r.Wf) (udp : UdpSocket) (nodeId : UInt16) (data : List UInt8) (nowNs : UInt64) :
    ∃ more, (r.forwardUdp udp nodeId data nowNs).2.2.sent = udp.sent ++ more ∧
      ((r.forwardUdp udp nodeId data nowNs).1 = true → ∃ front ep, more = front ++ [⟨ep, data, true⟩]) := by
  cases hfind : r.find nodeId with
  | none =>
    rw [forwardUdp_unknown hfind]
    exact ⟨[], (List.append_nil _).symm, nofun⟩
  | some i =>
    have hi := find_lt hfind
    rw [forwardUdp_eq hfind (List.getElem?_eq_getElem hi)]
    obtain ⟨h, hf⟩ := RouteEntry.forward_spec (hr _ (List.getElem_mem hi)) udp data nowNs
    refine ⟨_, hf.sends.sent, ?_⟩
    intro hok
    obtain ⟨front, j, hlog⟩ := History.log_of_won (hf.ok.symm.trans hok)
    exact ⟨_, _, by rw [hlog, List.map_append]; rfl⟩

theorem Wf.step (hr : r.Wf) (call : RouterCall) : (r.step call).Wf := by
  cases call with
  | addRoute nodeId hops hopCount => exact hr.addRoute nodeId hops hopCount
  | setHopSkipMask nodeId mask => exact hr.setHopSkipMask nodeId mask
  | forwardUdp nodeId data nowNs outcomes => exact hr.forwardUdp _ nodeId data nowNs

theorem wf_make (maxRoutes : Nat) : (make maxRoutes).Wf := nofun

theorem wf_run (maxRoutes : Nat) (calls : List RouterCall) : (Runs.run MeshRouter.step (make maxRoutes) calls).Wf :=
  Runs.run_inv (fun _ call hr => hr.step call) calls _ (wf_make maxRoutes)

/-- **Forwarding is safe, complete and exactly-once**: in every reachable router, for every route and every call. The
attempts of the call are a history, so at most the last one succeeds. -/
theorem forwardUdp_spec (maxRoutes : Nat) (calls : List RouterCall) :
    let r := Runs.run MeshRouter.step (make maxRoutes) calls
    (∀ route ∈ r.routes, route.activeHop < route.hopCount ∧ route.hopCount ≤ 3 ∧
      route.attempts = route.fails + route.hopOk 0 + route.hopOk 1 + route.hopOk 2) ∧
    ∀ (nodeId : UInt16) (i : Nat) (route : RouteEntry), r.find nodeId = some i → r.routes[i]? = some route →
      ∀ (udp : UdpSocket) (data : List UInt8) (nowNs : UInt64), ∃ (h : History Nat) (route' : RouteEntry),
        let (ok, r', udp') := r.forwardUdp udp nodeId data nowNs
        udp'.sent = udp.sent ++ (h.log.map fun t => ⟨route.hops t.1, data, t.2⟩) ∧
        (∀ j ∈ h.tried, j < route.hopCount ∧ route.hopSkipMask.toNat &&& (1 <<< j) = 0) ∧
        ok = h.won.isSome ∧ (∀ j, h.won = some j → route'.activeHop = j) ∧
        (ok = false → ∀ j, j < route.hopCount → route.hopSkipMask.toNat &&& (1 <<< j) = 0 → j ∈ h.refused) ∧
        r'.routes = r.routes.set i route' ∧ route.SameHops route' := by
  intro r
  have hr : r.Wf := wf_run maxRoutes calls
  constructor
  · intro route hmem
    have hw := hr route hmem
    refine ⟨hw.active_lt, hw.count_le, ?_⟩
    rw [hw.balance, RouteEntry.delivered]
    ac_rfl
  · intro nodeId i route hfind hroute udp data nowNs
    have hallowed : ∀ j, route.hopAllowed j = true ↔
        j < route.hopCount ∧ route.hopSkipMask.toNat &&& (1 <<< j) = 0 := by
      intro j
      simp [RouteEntry.hopAllowed]
    obtain ⟨h, hf⟩ := RouteEntry.forward_spec (hr route (List.mem_of_getElem? hroute)) udp data nowNs
    rw [forwardUdp_eq hfind hroute]
    refine ⟨h, _, hf.sends.sent, fun j hj => (hallowed j).mp (hf.sends.allowed j hj), hf.ok, hf.active,
      fun hok j h1 h2 => hf.complete ?_ j ((hallowed j).mpr ⟨h1, h2⟩), rfl, hf.same⟩
    have hsome := hf.ok
    rw [show (route.forward udp data nowNs).1 = false from hok] at hsome
    simpa using hsome.symm

/-- Two hops, the first of them refuses. -/
theorem forwardUdp_spec_two_hops :
    let calls := [RouterCall.addRoute 7 (some [⟨"10.0.0.1", 9000⟩, ⟨"10.0.0.2", 9000⟩]) 2]
    let r := Runs.run MeshRouter.step (make 4) calls
    ∃ h : History Nat, (r.forwardUdp { outcomes := [false, true] } 7 [1, 2, 3] 5).1 = h.won.isSome ∧
      (r.forwardUdp { outcomes := [false, true] } 7 [1, 2, 3] 5).1 = true := by
  intro calls r
  obtain ⟨h, _, _, _, hok, _⟩ := (forwardUdp_spec 4 calls).2 7 0 _ rfl rfl { outcomes := [false, true] } [1, 2, 3] 5
  exact ⟨h, hok, by decide⟩

end MeshRouter

end ZcMesh.Core
