import ZcMesh.Edge.Delivery
import ZcMesh.Edge.FileSource
import ZcMesh.Edge.Masks

/-!
# Edges that lose nothing

When no command and no number in the hop skip file masks all hops (`Spared`), the router serves the node in every
iteration (`Commanded.serves`), and so every frame that leaves the batch is whole on a connection or in a datagram that
was sent (`carried_served`). An edge that has ended has nothing left in the batch (`ended_run`).
-/

namespace ZcMesh.Core

/-- The mask leaves a hop. -/
def Spares (hops : List Endpoint) (mask : UInt8) : Prop := ∃ i < hops.length, mask.toNat &&& (1 <<< i) = 0

theorem spares_zero {hops : List Endpoint} (h : 1 ≤ hops.length) : Spares hops 0 := ⟨0, h, rfl⟩

theorem MeshRouter.Masked.serves {nodeId : UInt16} {hops : List Endpoint} {mask : UInt8} {r : MeshRouter}
    (h : r.Masked nodeId hops mask) (hfew : hops.length ≤ kMaxFallbacks) (hspares : Spares hops mask) :
    r.Serves nodeId := by
  obtain ⟨j, hj, hbit⟩ := hspares
  have hsome := h.known (by omega) hfew
  match hroutes : r.routes, h.single with
  | [], _ => exact absurd hroutes hsome
  | [route], _ =>
    have hm := h.route route (by simp [hroutes])
    have hcount : j < route.hopCount := by
      rw [hm.hopCount]
      simp only [kMaxFallbacks] at hfew
      omega
    refine ⟨0, route, j, by simp [find, hroutes, hm.nodeId], by rw [hroutes]; rfl, ?_⟩
    simp [RouteEntry.hopAllowed, hcount, hm.hopSkipMask, hbit]

/-- A route has room for the hops, and neither a command nor the hop skip file masks all of them. -/
structure Spared (cfg : Config) (ticks : List Tick) : Prop where
  some : 1 ≤ cfg.hops.length
  few : cfg.hops.length ≤ kMaxFallbacks
  commands : ∀ t ∈ ticks, ∀ datagram, .some datagram ∈ t.arrived → ∀ mask, maskOf cfg.nodeId datagram = .some mask →
    Spares cfg.hops mask
  file : cfg.hopSkipFile = true → ∀ t ∈ ticks, Spares cfg.hops (Edge.fileMask t.skipFile)

theorem Spared.mono {cfg : Config} {ticks ticks' : List Tick} (h : Spared cfg ticks') (hsub : ticks ⊆ ticks') :
    Spared cfg ticks where
  some := h.some
  few := h.few
  commands := fun t ht => h.commands t (hsub ht)
  file := fun hfile t ht => h.file hfile t (hsub ht)

namespace Edge

variable {cfg : Config} {e : Edge} {t : Tick}

/-- **Behind the polls the router serves the node.** -/
theorem Commanded.serves {ticks : List Tick} {handled : List (Option (List UInt8))}
    (h : e.Commanded cfg (ticks.flatMap (·.arrived)) handled) (hspared : Spared cfg (ticks ++ [t])) :
    (e.poll cfg t).link.router.Serves cfg.nodeId := by
  obtain ⟨handled', harrived, hmasked, _⟩ := h.poll t
  refine hmasked.serves hspared.few ?_
  simp only [inForce]
  split
  · rename_i hfile
    exact hspared.file hfile t (by simp)
  · cases hmask : lastMask cfg.nodeId handled'.reduceOption with
    | none => exact spares_zero hspared.some
    | some mask =>
      obtain ⟨datagram, hd, hof⟩ := List.mem_filterMap.mp (List.mem_of_getLast? hmask)
      have hmem : some datagram ∈ (ticks ++ [t]).flatMap (·.arrived) := by
        rw [List.flatMap_append, List.flatMap_singleton, harrived]
        exact List.mem_append_left _ (List.reduceOption_mem_iff.mp hd)
      obtain ⟨tick, htick, harr⟩ := List.mem_flatMap.mp hmem
      exact hspared.commands tick htick datagram harr mask hof

/-- **Where some hop is left, all frames go out**, in every run without TCP on its own. -/
theorem carried_served (cfg : Config) (htransport : cfg.transport ≠ .tcp) (connects : List Bool)
    (sends : List SendOutcome) (outcomes : List Bool) (clock : Nat → UInt64) (ticks : List Tick)
    (hspared : cfg.transport ≠ .udp → Spared cfg ticks) :
    ∃ log, (Runs.run (step cfg) (start cfg connects sends outcomes clock) ticks).Carried cfg True log := by
  induction ticks using List.reverseRecOn with
  | nil =>
    refine ⟨[], carried_start cfg connects sends outcomes clock fun _ hpath => ?_⟩
    have hs := hspared hpath
    exact (masked_start cfg connects sends outcomes clock).serves hs.few (spares_zero hs.some)
  | append_singleton ticks t ih =>
    obtain ⟨log, h⟩ := ih fun hpath => (hspared hpath).mono (List.subset_append_left _ _)
    rw [Runs.run_snoc]
    cases hdone : (Runs.run (step cfg) (start cfg connects sends outcomes clock) ticks).done with
    | true =>
      rw [step_over hdone]
      exact ⟨log, h⟩
    | false =>
      refine h.step htransport fun _ hpath => ?_
      obtain ⟨handled, hcommanded⟩ := commanded_run cfg hpath connects sends outcomes clock ticks hdone
      exact hcommanded.serves (hspared hpath)

/-! ## The end of the loop -/

theorem finish_empties (htransport : cfg.transport ≠ .tcp) (hb : e.link.batch.Wf) :
    (e.finish cfg).link.batch.frames = [] := by
  unfold finish
  split
  · rename_i hne
    exact Link.flushBatch_cleared cfg.transport cfg.op cfg.nodeId hb (FrameBatch.ne_nil_of_not_empty hne)
      (Or.inr htransport)
  · rename_i hempty
    exact FrameBatch.empty_iff.mp (by simpa using hempty)

theorem Sound.drain (h : e.Sound) (cfg : Config) : (e.drain cfg).2.Sound := by
  rcases drain_cases cfg h.batch with ⟨_, _, _, heq⟩ | ⟨hne, _, heq⟩ | ⟨hne, _, _, heq⟩
  · rw [heq]
    exact h
  · have hflush := h.flush cfg hne
    rw [heq]
    exact ⟨hflush.batch, hflush.router⟩
  · have hflush := h.flush cfg hne
    rw [heq]
    exact ⟨hflush.batch, hflush.router⟩

theorem done_push (cfg : Config) (e : Edge) (sensor : UInt8) (raw : Int32) :
    (e.push cfg sensor raw).2.done = e.done := by
  simp only [push]
  split <;> rfl

/-- An iteration that ends the loop leaves nothing in the batch. -/
theorem Sound.ended_step (h : e.Sound) (htransport : cfg.transport ≠ .tcp) (hopen : e.done = false)
    (hended : (e.step cfg t).done = true) : (e.step cfg t).link.batch.frames = [] := by
  have hpoll := h.poll cfg t
  have hdrain : ((e.poll cfg t).drain cfg).2.done = false := (drain_frame cfg (e.poll cfg t)).2.trans hopen
  rcases step_cases cfg e t with ⟨hdone, _⟩ | heq | ⟨_, heq⟩ | ⟨_, heq | heq | ⟨sensor, raw, heq⟩⟩
  · rw [hopen] at hdone
    cases hdone
  · rw [heq]
    exact finish_empties htransport hpoll.batch
  · rw [heq, hdrain] at hended
    cases hended
  · rw [heq]
    exact finish_empties htransport (hpoll.drain cfg).batch
  · rw [heq] at hended
    exact absurd (hdrain.symm.trans hended) Bool.false_ne_true
  · have hpush := (done_push cfg ((e.poll cfg t).drain cfg).2 sensor raw).trans hdrain
    rw [heq] at hended
    split at hended
    · rw [done_flushFull, hpush] at hended
      cases hended
    · rw [hpush] at hended
      cases hended

/-- An edge that has ended has sent everything, without TCP on its own. -/
theorem ended_run (cfg : Config) (htransport : cfg.transport ≠ .tcp) (connects : List Bool) (sends : List SendOutcome)
    (outcomes : List Bool) (clock : Nat → UInt64) (ticks : List Tick) :
    let e := Runs.run (step cfg) (start cfg connects sends outcomes clock) ticks
    e.done = true → e.link.batch.frames = [] := by
  induction ticks using List.reverseRecOn with
  | nil =>
    obtain ⟨tcp, gate, clock', heq, _⟩ := start_spec cfg connects sends outcomes clock
    rw [Runs.run_nil, heq]
    nofun
  | append_singleton ticks t ih =>
    simp only [Runs.run_snoc]
    intro hended
    cases hdone : (Runs.run (step cfg) (start cfg connects sends outcomes clock) ticks).done with
    | true =>
      rw [step_over hdone]
      exact ih hdone
    | false => exact (sound_run cfg connects sends outcomes clock ticks).ended_step htransport hdone hended

end Edge

end ZcMesh.Core
