import Mathlib.Data.List.ReduceOption
import ZcMesh.Edge.ControlPlane
import ZcMesh.Edge.Main

/-!
# The masks at work

The control plane in the main loop of `core-engine/src/main.cpp`.

* A router with one route sends to hops that the mask of the route allows, and keeps the mask (`Masked.forwardUdp`). So
  does a flush outside transport `udp` (`Link.Obeys.flushBatch`), and what follows the polls in an iteration
  (`Edge.Obeys.step`).
* The polls take the front of what waits on the control socket (`pollControl_front`), and the mask behind them is that
  of the last command taken (`Edge.Commanded.poll`).
* Together, for every iteration of every run: `masks_obeyed`; and for a command of an operator: `command_obeyed`.
-/

namespace ZcMesh.Core

/-- The datagram went to a hop that the mask does not skip. -/
def Allowed (hops : List Endpoint) (mask : UInt8) (d : Datagram) : Prop :=
  ∃ i, hops[i]? = some d.ep ∧ mask.toNat &&& (1 <<< i) = 0

/-! ## Forwarding -/

/-- A route of the node over the first hops of the mesh path, with this mask. -/
structure RouteEntry.Masked (nodeId : UInt16) (hops : List Endpoint) (mask : UInt8) (route : RouteEntry) : Prop where
  nodeId : route.nodeId = nodeId
  hopCount : route.hopCount = hops.length % 256
  hops : ∀ i, route.hops i = hops.getD i default
  hopSkipMask : route.hopSkipMask = mask

/-- At most one route, with this mask; there is one when a route has room for the hops. -/
structure MeshRouter.Masked (nodeId : UInt16) (hops : List Endpoint) (mask : UInt8) (r : MeshRouter) : Prop where
  wf : r.Wf
  single : r.routes.length ≤ 1
  known : 1 ≤ hops.length → hops.length ≤ kMaxFallbacks → r.routes ≠ []
  route : ∀ route ∈ r.routes, route.Masked nodeId hops mask

section Router

variable {nodeId : UInt16} {hops : List Endpoint} {mask : UInt8} {route : RouteEntry} {r : MeshRouter}

theorem RouteEntry.Masked.allowed (h : route.Masked nodeId hops mask) {i : Nat} (hi : route.hopAllowed i = true) :
    hops[i]? = some (route.hops i) ∧ mask.toNat &&& (1 <<< i) = 0 := by
  have hlt : i < hops.length := Nat.lt_of_lt_of_le (hopAllowed_lt hi) (h.hopCount ▸ Nat.mod_le _ _)
  simp only [hopAllowed, h.hopSkipMask, Bool.and_eq_true, beq_iff_eq] at hi
  refine ⟨?_, hi.2⟩
  simp [h.hops, hlt]

theorem RouteEntry.Masked.of_same {route' : RouteEntry} (h : route.Masked nodeId hops mask)
    (hsame : SameHops route route') : route'.Masked nodeId hops mask where
  nodeId := hsame.nodeId.trans h.nodeId
  hopCount := by rw [hsame.hopCount]; exact h.hopCount
  hops := fun i => by rw [hsame.hops, h.hops]
  hopSkipMask := hsame.hopSkipMask.trans h.hopSkipMask

namespace MeshRouter

/-- **A call of `forward_udp`** sends to allowed hops and keeps the mask. -/
theorem Masked.forwardUdp (h : r.Masked nodeId hops mask) (udp : UdpSocket) (node : UInt16) (data : List UInt8)
    (nowNs : UInt64) :
    (r.forwardUdp udp node data nowNs).2.1.Masked nodeId hops mask ∧
      ∃ more, (r.forwardUdp udp node data nowNs).2.2.sent = udp.sent ++ more ∧ ∀ d ∈ more, Allowed hops mask d := by
  have hwf := h.wf.forwardUdp udp node data nowNs
  cases hfind : r.find node with
  | none =>
    rw [forwardUdp_unknown hfind]
    exact ⟨h, [], (List.append_nil _).symm, nofun⟩
  | some i =>
    have hi := find_lt hfind
    have hroute := h.route _ (List.getElem_mem hi)
    rw [forwardUdp_eq hfind (List.getElem?_eq_getElem hi)] at hwf ⊢
    obtain ⟨hist, hf⟩ := RouteEntry.forward_spec (h.wf _ (List.getElem_mem hi)) udp data nowNs
    refine ⟨⟨hwf, ?_, ?_, ?_⟩, _, hf.sends.sent, ?_⟩
    · simpa using h.single
    · simpa using h.known
    · intro route hmem
      rcases List.mem_or_eq_of_mem_set hmem with hmem | rfl
      · exact h.route route hmem
      · exact hroute.of_same hf.same
    · intro d hd
      obtain ⟨t, ht, rfl⟩ := List.mem_map.mp hd
      have htried : t.1 ∈ hist.tried := by
        rw [← Attempts.History.fst_log]
        exact List.mem_map_of_mem ht
      exact ⟨t.1, hroute.allowed (hf.sends.allowed t.1 htried)⟩

/-- At the start no hop is skipped. -/
theorem masked_addRoute {maxRoutes : Nat} (hroom : 0 < maxRoutes) (nodeId : UInt16) (hops : List Endpoint) :
    ((make maxRoutes).addRoute nodeId (some hops) (UInt8.ofNat hops.length)).2.Masked nodeId hops 0 := by
  have hwf := (wf_make maxRoutes).addRoute nodeId (some hops) (UInt8.ofNat hops.length)
  by_cases hbad : UInt8.ofNat hops.length = 0 ∨ (UInt8.ofNat hops.length).toNat > kMaxFallbacks ∨
      (make maxRoutes).routes.length ≥ (make maxRoutes).capacity
  · simp only [addRoute, if_pos hbad]
    refine ⟨wf_make maxRoutes, Nat.zero_le 1, ?_, List.forall_mem_nil _⟩
    intro hlo hhi
    simp only [kMaxFallbacks] at hhi
    have hlen : (UInt8.ofNat hops.length).toNat = hops.length := UInt8.toNat_ofNat_of_lt' (by simp [UInt8.size]; omega)
    rcases hbad with hzero | hmany | hfull
    · rw [hzero] at hlen
      exact absurd hlen.symm (by simpa using Nat.ne_of_gt hlo)
    · rw [hlen] at hmany
      exact absurd hhi (Nat.not_le.mpr hmany)
    · exact absurd hroom (Nat.not_lt.mpr hfull)
  · simp only [addRoute, if_neg hbad] at hwf ⊢
    refine ⟨hwf, Nat.le_refl 1, fun _ _ => List.cons_ne_nil _ _, ?_⟩
    intro route hmem
    rw [List.mem_singleton.mp hmem]
    exact ⟨rfl, by simp, fun _ => rfl, rfl⟩

/-- Commands for the node set the mask. -/
theorem Masked.effects (h : r.Masked nodeId hops mask) (queue : List (List UInt8)) :
    (queue.foldl effect r).Masked nodeId hops ((lastMask nodeId queue).getD mask) := by
  have hdistinct : (r.routes.map (·.nodeId)).Nodup := by
    match hroutes : r.routes, h.single with
    | [], _ => exact List.nodup_nil
    | [route], _ => exact List.nodup_singleton _
  rw [effects_eq hdistinct]
  refine ⟨?_, ?_, ?_, ?_⟩
  · intro route hmem
    obtain ⟨old, hold, rfl⟩ := List.mem_map.mp hmem
    have hw := h.wf old hold
    exact ⟨hw.active_lt, hw.count_le, hw.balance⟩
  · simpa [withMasks] using h.single
  · simpa [withMasks] using h.known
  · intro route hmem
    obtain ⟨old, hold, rfl⟩ := List.mem_map.mp hmem
    have hm := h.route old hold
    exact ⟨hm.nodeId, hm.hopCount, hm.hops, by simp [hm.nodeId, hm.hopSkipMask]⟩

/-- So does the hop skip file. -/
theorem Masked.setHopSkipMask (h : r.Masked nodeId hops mask) (mask' : UInt8) :
    (r.setHopSkipMask nodeId mask').2.Masked nodeId hops mask' := by
  have hwf := h.wf.setHopSkipMask nodeId mask'
  match hroutes : r.routes, h.single with
  | [], _ =>
    have hnone : r.find nodeId = none := by simp [find, hroutes]
    rw [MeshRouter.setHopSkipMask, hnone]
    exact ⟨h.wf, h.single, h.known, by simp [hroutes]⟩
  | [route], _ =>
    have hm := h.route route (by simp [hroutes])
    have hsome : r.find nodeId = some 0 := by simp [find, hroutes, hm.nodeId]
    have hset : (r.setHopSkipMask nodeId mask').2.routes = [{ route with hopSkipMask := mask' }] := by
      simp [MeshRouter.setHopSkipMask, hsome, hroutes]
    refine ⟨hwf, by rw [hset]; exact Nat.le_refl 1, fun _ _ => by rw [hset]; exact List.cons_ne_nil _ _, ?_⟩
    intro route' hmem
    rw [hset] at hmem
    rw [List.mem_singleton.mp hmem]
    exact ⟨hm.nodeId, hm.hopCount, hm.hops, rfl⟩

end MeshRouter

end Router

/-! ## Flushing -/

namespace Link

/-- Since `base` was sent the mask has been this one, and only allowed hops were used. -/
structure Obeys (nodeId : UInt16) (hops : List Endpoint) (mask : UInt8) (base : List Datagram) (r : MeshRouter)
    (udp : UdpSocket) : Prop where
  router : r.Masked nodeId hops mask
  sent : ∃ more, udp.sent = base ++ more ∧ ∀ d ∈ more, Allowed hops mask d

variable {nodeId : UInt16} {hops : List Endpoint} {mask : UInt8} {base : List Datagram}

theorem Obeys.forwardUdp {r : MeshRouter} {udp : UdpSocket} (h : Obeys nodeId hops mask base r udp) (node : UInt16)
    (data : List UInt8) (nowNs : UInt64) :
    Obeys nodeId hops mask base (r.forwardUdp udp node data nowNs).2.1 (r.forwardUdp udp node data nowNs).2.2 := by
  obtain ⟨hrouter, more, hmore, hallowed⟩ := h.router.forwardUdp udp node data nowNs
  obtain ⟨old, hold, hobeyed⟩ := h.sent
  refine ⟨hrouter, old ++ more, ?_, ?_⟩
  · rw [hmore, hold, List.append_assoc]
  · exact fun d hd => (List.mem_append.mp hd).elim (hobeyed d) (hallowed d)

/-- **A flush obeys**, except for a direct uplink over UDP. -/
theorem Obeys.flushBatch {l : Link} (h : Obeys nodeId hops mask base l.router l.udp) {transport : Transport}
    (hpath : transport ≠ .udp) (op : Endpoint) (node : UInt16) :
    Obeys nodeId hops mask base (l.flushBatch transport op node).2.router (l.flushBatch transport op node).2.udp :=
  kept_flushBatch (fun _ _ data now h => h.forwardUdp node data now) hpath op h

end Link

/-! ## An iteration behind the polls -/

namespace Edge

/-- The link obeys since `base` was sent, and `ctrl` waits on the control socket. -/
structure Obeys (cfg : Config) (mask : UInt8) (base : List Datagram) (ctrl : List (Option (List UInt8))) (e : Edge) :
    Prop where
  link : Link.Obeys cfg.nodeId cfg.hops mask base e.link.router e.link.udp
  waiting : e.ctrl = ctrl

section Iteration

variable {cfg : Config} {mask : UInt8} {base : List Datagram} {ctrl : List (Option (List UInt8))} {e : Edge}

theorem Obeys.flush (h : e.Obeys cfg mask base ctrl) (hpath : cfg.transport ≠ .udp) :
    (e.flush cfg).2.Obeys cfg mask base ctrl :=
  ⟨h.link.flushBatch hpath cfg.op cfg.nodeId, h.waiting⟩

theorem Obeys.drain (h : e.Obeys cfg mask base ctrl) (hpath : cfg.transport ≠ .udp) :
    (e.drain cfg).2.Obeys cfg mask base ctrl := by
  obtain ⟨hlink, hwaiting⟩ := h.flush hpath
  unfold Edge.drain
  split
  · simp only
    split
    · exact ⟨hlink, hwaiting⟩
    · split <;> exact ⟨hlink, hwaiting⟩
  · exact h

theorem Obeys.push (h : e.Obeys cfg mask base ctrl) (sensor : UInt8) (raw : Int32) :
    (e.push cfg sensor raw).2.Obeys cfg mask base ctrl := by
  simp only [Edge.push]
  split <;> exact ⟨h.link, h.waiting⟩

theorem Obeys.flushFull (h : e.Obeys cfg mask base ctrl) (hpath : cfg.transport ≠ .udp) :
    (e.flushFull cfg).Obeys cfg mask base ctrl := by
  obtain ⟨hlink, hwaiting⟩ := h.flush hpath
  unfold Edge.flushFull
  split
  · simp only
    split
    · exact ⟨hlink, hwaiting⟩
    · split <;> exact ⟨hlink, hwaiting⟩
  · exact h

theorem Obeys.finish (h : e.Obeys cfg mask base ctrl) (hpath : cfg.transport ≠ .udp) :
    (e.finish cfg).Obeys cfg mask base ctrl := by
  obtain ⟨hlink, hwaiting⟩ := h.flush hpath
  unfold Edge.finish
  split
  · exact ⟨hlink, hwaiting⟩
  · exact ⟨h.link, h.waiting⟩

theorem Obeys.take (h : e.Obeys cfg mask base ctrl) (hpath : cfg.transport ≠ .udp) (raw : Option Int32) :
    (e.take cfg raw).Obeys cfg mask base ctrl := by
  unfold Edge.take
  split
  · exact h.finish hpath
  · rename_i sensor raw _
    split
    · exact ⟨h.link, h.waiting⟩
    · have hpush := h.push sensor raw
      simp only
      split
      · exact hpush.flushFull hpath
      · exact hpush

/-- **What follows the polls obeys.** -/
theorem Obeys.step {t : Tick} (h : (e.poll cfg t).Obeys cfg mask base ctrl) (hpath : cfg.transport ≠ .udp)
    (hrunning : e.done = false) : (e.step cfg t).Obeys cfg mask base ctrl := by
  simp only [Edge.step, hrunning, Bool.false_eq_true, if_false]
  split
  · exact h.finish hpath
  · have hdrain := h.drain hpath
    split
    · exact hdrain.take hpath t.raw
    · exact hdrain

end Iteration

end Edge

/-! ## The polls -/

section Polls

open Operator (MeshControl)

/-- **A call of `poll_control` takes the front of what waits**, each datagram with its effect. It takes all of it where
there is no error and no empty datagram. -/
theorem pollControl_front (ctrl : List (Option (List UInt8))) (router : MeshRouter) :
    ∃ taken rest, ctrl = taken ++ rest ∧
      pollControl ctrl router = (rest, taken.reduceOption.foldl effect router) ∧
      ((∀ received ∈ ctrl, received ≠ none ∧ received ≠ some []) → rest = []) := by
  induction ctrl generalizing router with
  | nil => exact ⟨[], [], rfl, rfl, fun _ => rfl⟩
  | cons received ctrl ih =>
    cases received with
    | none => exact ⟨[none], ctrl, rfl, rfl, fun h => absurd rfl (h none List.mem_cons_self).1⟩
    | some datagram =>
      by_cases hempty : datagram = []
      · subst hempty
        exact ⟨[some []], ctrl, rfl, rfl, fun h => absurd rfl (h (some []) List.mem_cons_self).2⟩
      · obtain ⟨taken, rest, hsplit, hpoll, hall⟩ := ih (effect router datagram)
        refine ⟨some datagram :: taken, rest, by rw [hsplit, List.cons_append], ?_, ?_⟩
        · rw [pollControl_cons router hempty, hpoll, List.reduceOption_cons_of_some, List.foldl_cons]
        · exact fun h => hall fun received hr => h received (List.mem_cons_of_mem _ hr)

theorem lastMask_append (nodeId : UInt16) (queue later : List (List UInt8)) :
    lastMask nodeId (queue ++ later) = (lastMask nodeId later).or (lastMask nodeId queue) := by
  simp [lastMask, List.filterMap_append, List.getLast?_append]

theorem lastMask_eq_none {nodeId : UInt16} {queue : List (List UInt8)}
    (h : ∀ datagram ∈ queue, maskOf nodeId datagram = none) : lastMask nodeId queue = none := by
  rw [lastMask, List.filterMap_eq_nil_iff.mpr h, List.getLast?_nil]

/-- Reading back what `CtrlMsg.bytes` gives. -/
theorem CtrlMsg.ofBytes_bytes (msg : CtrlMsg) : CtrlMsg.ofBytes msg.bytes = msg :=
  CtrlMsg.mk.injEq .. |>.mpr
    ⟨ofNat16_ofLe _, ofNat8_ofLe _, ofNat8_ofLe _, ofNat16_ofLe _, ofNat8_ofLe _, ofNat8_ofLe _⟩

/-- What `MeshControl.setSkip` asks of the node. -/
theorem maskOf_setSkip (nodeId mask : Int32) :
    maskOf nodeId.toInt16.toUInt16 (MeshControl.setSkip nodeId mask).encode = some mask.toInt8.toUInt8 := by
  have hopcode : MeshControl.OP_SET_SKIP.toInt8.toUInt8 = ctrlOpSetSkip := by decide
  have hlow : (mask &&& 0xFF).toInt8 = mask.toInt8 := by
    rw [Int32.toInt8_and, show (0xFF : Int32).toInt8 = -1 by decide, Int8.and_neg_one]
  rw [MeshControl.setSkip, MeshControl.encode_make, hopcode, hlow, maskOf, commandOf, CtrlMsg.ofBytes_bytes]
  simp [CtrlMsg.bytes, ctrlSize]

end Polls

/-! ## The runs -/

namespace Edge

/-- The mask in force in an iteration, when `handled` has been taken from the control socket. -/
def inForce (cfg : Config) (handled : List (Option (List UInt8))) (skipFile : Option Int) : UInt8 :=
  if cfg.hopSkipFile then fileMask skipFile else (lastMask cfg.nodeId handled.reduceOption).getD 0

/-- Of what `arrived` on the control socket, `handled` has been taken; the mask is that of the last command in it. -/
structure Commanded (cfg : Config) (arrived handled : List (Option (List UInt8))) (e : Edge) : Prop where
  arrived : arrived = handled ++ e.ctrl
  mask : ∃ mask, e.link.router.Masked cfg.nodeId cfg.hops mask ∧
    (cfg.hopSkipFile = false → mask = (lastMask cfg.nodeId handled.reduceOption).getD 0)

variable {cfg : Config} {e : Edge} {arrived handled : List (Option (List UInt8))}

/-- **The polls** take more of what waits, and set the mask in force. -/
theorem Commanded.poll (h : e.Commanded cfg arrived handled) (t : Tick) :
    ∃ handled', arrived ++ t.arrived = handled' ++ (e.poll cfg t).ctrl ∧
      (e.poll cfg t).link.router.Masked cfg.nodeId cfg.hops (inForce cfg handled' t.skipFile) ∧
      ((∀ received ∈ arrived ++ t.arrived, received ≠ none ∧ received ≠ some []) → (e.poll cfg t).ctrl = []) := by
  obtain ⟨mask, hmasked, hmask⟩ := h.mask
  obtain ⟨taken, rest, hsplit, hpoll, hall⟩ := pollControl_front (e.ctrl ++ t.arrived) e.link.router
  have hctrl : (e.poll cfg t).ctrl = rest := by simp only [Edge.poll, setRouter, hpoll]
  have heffects := hmasked.effects taken.reduceOption
  refine ⟨handled ++ taken, ?_, ?_, ?_⟩
  · rw [hctrl, h.arrived, List.append_assoc, List.append_assoc, hsplit]
  · simp only [Edge.poll, setRouter, hpoll, inForce]
    split
    · exact heffects.setHopSkipMask _
    · rename_i hfile
      rw [List.reduceOption_append, lastMask_append, Option.getD_or, ← hmask (by simpa using hfile)]
      exact heffects
  · intro hclean
    rw [hctrl]
    refine hall fun received hr => hclean received ?_
    rw [h.arrived, List.append_assoc]
    exact List.mem_append_right _ hr

/-- **One iteration**: what is sent goes to hops that the mask in force allows. -/
theorem Commanded.step (h : e.Commanded cfg arrived handled) (hpath : cfg.transport ≠ .udp) (hrunning : e.done = false)
    (t : Tick) : ∃ handled' more, (e.step cfg t).Commanded cfg (arrived ++ t.arrived) handled' ∧
      (e.step cfg t).link.udp.sent = e.link.udp.sent ++ more ∧
      (∀ d ∈ more, Allowed cfg.hops (inForce cfg handled' t.skipFile) d) ∧
      ((∀ received ∈ arrived ++ t.arrived, received ≠ none ∧ received ≠ some []) → (e.step cfg t).ctrl = []) := by
  obtain ⟨handled', harrived, hmasked, hall⟩ := h.poll t
  have hbegin : (e.poll cfg t).Obeys cfg (inForce cfg handled' t.skipFile) e.link.udp.sent (e.poll cfg t).ctrl :=
    ⟨⟨hmasked, [], (List.append_nil _).symm, nofun⟩, rfl⟩
  obtain ⟨⟨hrouter, more, hsent, hallowed⟩, hwaiting⟩ := hbegin.step hpath hrunning
  refine ⟨handled', more, ⟨by rw [hwaiting]; exact harrived, _, hrouter, ?_⟩, hsent, hallowed, ?_⟩
  · intro hfile
    simp [inForce, hfile]
  · rw [hwaiting]
    exact hall

theorem step_over (hdone : e.done = true) (t : Tick) : e.step cfg t = e := by
  simp [Edge.step, hdone]

theorem run_over (hdone : e.done = true) (ticks : List Tick) : Runs.run (step cfg) e ticks = e :=
  Runs.run_inv (P := (· = e)) (fun _ t h => by rw [h]; exact step_over hdone t) ticks e rfl

theorem masked_start (cfg : Config) (connects : List Bool) (sends : List SendOutcome) (outcomes : List Bool)
    (clock : Nat → UInt64) : (start cfg connects sends outcomes clock).link.router.Masked cfg.nodeId cfg.hops 0 := by
  obtain ⟨tcp, gate, clock', heq, _⟩ := start_spec cfg connects sends outcomes clock
  rw [heq]
  exact MeshRouter.masked_addRoute (by decide) cfg.nodeId cfg.hops

theorem commanded_start (cfg : Config) (connects : List Bool) (sends : List SendOutcome) (outcomes : List Bool)
    (clock : Nat → UInt64) : (start cfg connects sends outcomes clock).Commanded cfg [] [] := by
  have hmasked := masked_start cfg connects sends outcomes clock
  obtain ⟨tcp, gate, clock', heq, _⟩ := start_spec cfg connects sends outcomes clock
  rw [heq] at hmasked ⊢
  exact ⟨rfl, 0, hmasked, fun _ => rfl⟩

/-- At the head of the loop, in every run. -/
theorem commanded_run (cfg : Config) (hpath : cfg.transport ≠ .udp) (connects : List Bool) (sends : List SendOutcome)
    (outcomes : List Bool) (clock : Nat → UInt64) (ticks : List Tick) :
    let e := Runs.run (step cfg) (start cfg connects sends outcomes clock) ticks
    e.done = false → ∃ handled, e.Commanded cfg (ticks.flatMap (·.arrived)) handled := by
  induction ticks using List.reverseRecOn with
  | nil => exact fun _ => ⟨[], commanded_start cfg connects sends outcomes clock⟩
  | append_singleton ticks t ih =>
    simp only [Runs.run_snoc]
    intro hafter
    have hrunning : (Runs.run (step cfg) (start cfg connects sends outcomes clock) ticks).done = false := by
      by_contra hdone
      rw [step_over (by simpa using hdone)] at hafter
      exact hdone hafter
    obtain ⟨handled, h⟩ := ih hrunning
    obtain ⟨handled', _, hstep, _⟩ := h.step hpath hrunning t
    exact ⟨handled', by simpa using hstep⟩

/-- **Masks are obeyed.** Outside transport `udp`, in every iteration of every run: each datagram that is sent goes to a
hop that the mask in force allows. That is the mask of the hop skip file in this iteration, or of the last command for
the node among what `poll_control` has taken, in the order of arrival; it has taken all that arrived, this iteration
included, if there was no error and no empty datagram. -/
theorem masks_obeyed (cfg : Config) (hpath : cfg.transport ≠ .udp) (connects : List Bool) (sends : List SendOutcome)
    (outcomes : List Bool) (clock : Nat → UInt64) (ticks : List Tick) (t : Tick) :
    let e := Runs.run (step cfg) (start cfg connects sends outcomes clock) ticks
    let arrived := (ticks ++ [t]).flatMap (·.arrived)
    ∃ handled more, (e.step cfg t).link.udp.sent = e.link.udp.sent ++ more ∧
      (∀ d ∈ more, ∃ i, cfg.hops[i]? = some d.ep ∧ (inForce cfg handled t.skipFile).toNat &&& (1 <<< i) = 0) ∧
      (e.done = false → arrived = handled ++ (e.step cfg t).ctrl ∧
        ((∀ received ∈ arrived, received ≠ none ∧ received ≠ some []) → handled = arrived)) := by
  intro e arrived
  have harrived : arrived = ticks.flatMap (·.arrived) ++ t.arrived := by simp [arrived]
  cases hdone : e.done with
  | true =>
    rw [step_over hdone]
    exact ⟨[], [], (List.append_nil _).symm, nofun, nofun⟩
  | false =>
    obtain ⟨handled, h⟩ := commanded_run cfg hpath connects sends outcomes clock ticks hdone
    obtain ⟨handled', more, hstep, hsent, hallowed, hall⟩ := h.step hpath hdone t
    rw [← harrived] at hstep hall
    refine ⟨handled', more, hsent, hallowed, fun _ => ⟨hstep.arrived, fun hclean => ?_⟩⟩
    have hrest := hstep.arrived
    rw [hall hclean, List.append_nil] at hrest
    exact hrest.symm

/-- A command to skip the first hop, in the iteration of the first sample. -/
theorem masks_obeyed_first :
    let cfg := Config.small .mesh 1
    let t : Tick := { arrived := [some (Operator.MeshControl.setSkip 1 1).encode], raw := some 5 }
    ∀ d ∈ ((start cfg [] [] [] (fun _ => 0)).step cfg t).link.udp.sent,
      ∃ i, cfg.hops[i]? = some d.ep ∧ (1 : UInt8).toNat &&& (1 <<< i) = 0 := by
  intro cfg t
  obtain ⟨handled, more, hsent, hallowed, htaken⟩ := masks_obeyed cfg (by decide) [] [] [] (fun _ => 0) [] t
  have hstart : (start cfg [] [] [] (fun _ => 0)).link.udp.sent = [] := rfl
  have hforce : inForce cfg handled t.skipFile = 1 := by
    rw [(htaken rfl).2 (by decide)]
    decide
  rw [Runs.run_nil, hstart, List.nil_append] at hsent
  rw [hforce] at hallowed
  rw [hsent]
  exact hallowed

/-- Once a command has been taken, its mask is obeyed until the next command for the node. -/
theorem Commanded.obeyed_run {mask : UInt8} (h : e.Commanded cfg arrived handled) (hpath : cfg.transport ≠ .udp)
    (hfile : cfg.hopSkipFile = false) (hctrl : e.ctrl = [])
    (hmask : lastMask cfg.nodeId handled.reduceOption = some mask) (later : List Tick)
    (hclean : ∀ received ∈ arrived ++ later.flatMap (·.arrived), received ≠ none ∧ received ≠ some [])
    (hquiet : ∀ datagram, some datagram ∈ later.flatMap (·.arrived) → maskOf cfg.nodeId datagram = none) :
    ∃ more, (Runs.run (Edge.step cfg) e later).link.udp.sent = e.link.udp.sent ++ more ∧
      ∀ d ∈ more, Allowed cfg.hops mask d := by
  induction later generalizing e arrived handled with
  | nil => exact ⟨[], (List.append_nil _).symm, nofun⟩
  | cons t later ih =>
    cases hdone : e.done with
    | true =>
      rw [run_over hdone]
      exact ⟨[], (List.append_nil _).symm, nofun⟩
    | false =>
      rw [List.flatMap_cons] at hclean hquiet
      obtain ⟨handled', more, hstep, hsent, hallowed, hall⟩ := h.step hpath hdone t
      rw [← List.append_assoc] at hclean
      have hdrained := hall fun received hr => hclean received (List.mem_append_left _ hr)
      -- nothing waits on either side of the iteration, so it has taken what arrived in it
      have hhandled : handled' = handled ++ t.arrived := by
        have hnew := hstep.arrived
        rw [hdrained, h.arrived, hctrl, List.append_nil, List.append_nil] at hnew
        exact hnew.symm
      have hmask' : lastMask cfg.nodeId handled'.reduceOption = some mask := by
        have hnone : lastMask cfg.nodeId t.arrived.reduceOption = none := lastMask_eq_none fun datagram hd =>
          hquiet datagram (List.mem_append_left _ (List.reduceOption_mem_iff.mp hd))
        rw [hhandled, List.reduceOption_append, lastMask_append, hnone, Option.none_or, hmask]
      obtain ⟨more', hsent', hallowed'⟩ := ih hstep hdrained hmask' hclean
        fun datagram hd => hquiet datagram (List.mem_append_right _ hd)
      refine ⟨more ++ more', by rw [Runs.run_cons, hsent', hsent, List.append_assoc], ?_⟩
      intro d hd
      rcases List.mem_append.mp hd with hd | hd
      · simpa [inForce, hfile, hmask'] using hallowed d hd
      · exact hallowed' d hd

/-- **A command of an operator is obeyed at once**: from the iteration in which `MeshControl.setSkip` arrives as the
last datagram until the next command for the node, each datagram that is sent goes to a hop that its mask allows. -/
theorem command_obeyed (cfg : Config) (hpath : cfg.transport ≠ .udp) (hfile : cfg.hopSkipFile = false)
    (connects : List Bool) (sends : List SendOutcome) (outcomes : List Bool) (clock : Nat → UInt64)
    (ticks : List Tick) (t : Tick) (later : List Tick) (nodeId mask : Int32)
    (hnode : nodeId.toInt16.toUInt16 = cfg.nodeId) (front : List (Option (List UInt8)))
    (hcommand : t.arrived = front ++ [some (Operator.MeshControl.setSkip nodeId mask).encode])
    (hclean : ∀ received ∈ (ticks ++ t :: later).flatMap (·.arrived), received ≠ none ∧ received ≠ some [])
    (hquiet : ∀ datagram, some datagram ∈ later.flatMap (·.arrived) → maskOf cfg.nodeId datagram = none) :
    let e := Runs.run (step cfg) (start cfg connects sends outcomes clock) ticks
    ∃ more, (Runs.run (step cfg) e (t :: later)).link.udp.sent = e.link.udp.sent ++ more ∧
      ∀ d ∈ more, ∃ i, cfg.hops[i]? = some d.ep ∧ mask.toInt8.toUInt8.toNat &&& (1 <<< i) = 0 := by
  intro e
  cases hdone : e.done with
  | true =>
    rw [run_over hdone]
    exact ⟨[], (List.append_nil _).symm, nofun⟩
  | false =>
    obtain ⟨handled, h⟩ := commanded_run cfg hpath connects sends outcomes clock ticks hdone
    obtain ⟨handled', more, hstep, hsent, hallowed, hall⟩ := h.step hpath hdone t
    rw [List.flatMap_append, List.flatMap_cons, ← List.append_assoc] at hclean
    have hdrained := hall fun received hr => hclean received (List.mem_append_left _ hr)
    have hmask : lastMask cfg.nodeId handled'.reduceOption = some mask.toInt8.toUInt8 := by
      have hnew := hstep.arrived
      rw [hdrained, List.append_nil, hcommand, ← List.append_assoc] at hnew
      rw [← hnew, List.reduceOption_append, List.reduceOption_singleton, Option.toList_some, ← hnode, lastMask_snoc,
        maskOf_setSkip, Option.some_or]
    obtain ⟨more', hsent', hallowed'⟩ := hstep.obeyed_run hpath hfile hdrained hmask later hclean hquiet
    refine ⟨more ++ more', by rw [Runs.run_cons, hsent', hsent, List.append_assoc], ?_⟩
    intro d hd
    rcases List.mem_append.mp hd with hd | hd
    · have hd' := hallowed d hd
      rwa [inForce, hfile, if_neg Bool.false_ne_true, hmask] at hd'
    · exact hallowed' d hd

/-- A command to skip the first hop, and two samples. -/
theorem command_obeyed_first :
    let cfg := Config.small .mesh 1
    let t : Tick := { arrived := [some (Operator.MeshControl.setSkip 1 1).encode], raw := some 5 }
    ∃ more, (Runs.run (step cfg) (start cfg [] [] [] (fun _ => 0)) [t, { raw := some 6 }]).link.udp.sent = [] ++ more ∧
      ∀ d ∈ more, ∃ i, cfg.hops[i]? = some d.ep ∧ (1 : UInt8).toNat &&& (1 <<< i) = 0 :=
  command_obeyed (Config.small .mesh 1) (by decide) rfl [] [] [] (fun _ => 0) [] _ [{ raw := some 6 }] 1 1 rfl [] rfl
    (by decide) nofun

end Edge

end ZcMesh.Core
