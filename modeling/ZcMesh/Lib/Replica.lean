import ZcMesh.Lib.KeyValue
import ZcMesh.Lib.Merge
import ZcMesh.Lib.Run

/-!
# A table fed by snapshots

A map gets values (`put`) while passes over it are going on: a pass begins with the keys that are there, reads the value
of one key after the other, and is posted once every such key has been read. Posted snapshots are applied to a table, in
the order of a queue.

* What of a key is in the table, in the queue and in the pass are values that were put for it, in the order in which
  they were put (`Follows`, `Inv.step`). So the table never goes back (`never_back`).
* A pass that begins behind the last `put` leaves the map in the table, once the queue is empty (`converges`).
-/

namespace Replica

open KeyValue Merge Runs

variable {κ ν : Type*} [DecidableEq κ]

/-- The last value of a key. -/
def latest (k : κ) (log : List (κ × ν)) : Option ν := (stream k log).getLast?

/-- What was put, the keys that a pass has to read and what it has read, the snapshots that wait, and the table. -/
structure State (κ ν : Type*) where
  puts : List (κ × ν) := []
  pass : Option (List κ × List (κ × ν)) := none
  posted : List (List (κ × ν)) := []
  table : InOrder κ ν := {}

/-- What happens. -/
inductive Act (κ ν : Type*)
  | put (k : κ) (v : ν)
  | begin
  | read (k : κ)
  | finish
  | apply

/-- One act. -/
def step (s : State κ ν) : Act κ ν → State κ ν
  | .put k v => { s with puts := s.puts ++ [(k, v)] }
  | .begin => { s with pass := some (s.puts.map (·.1), []) }
  | .read k =>
    match s.pass, latest k s.puts with
    | some (todo, seen), some v => { s with pass := some (todo.filter (· ≠ k), seen ++ [(k, v)]) }
    | _, _ => s
  | .finish =>
    match s.pass with
    | some ([], seen) => { s with pass := none, posted := s.posted ++ [seen] }
    | _ => s
  | .apply =>
    match s.posted with
    | [] => s
    | snapshot :: posted => { s with posted, table := s.table.putAll snapshot }

/-! ## The log of a key -/

theorem latest_eq_none {k : κ} {log : List (κ × ν)} : latest k log = none ↔ k ∉ log.map (·.1) := by
  rw [latest, List.getLast?_eq_none_iff, List.eq_nil_iff_forall_not_mem]
  simp only [mem_stream, List.mem_map, not_exists, not_and]
  constructor
  · rintro h ⟨j, v⟩ hmem rfl
    exact h v hmem
  · rintro h v hmem
    exact h _ hmem rfl

theorem latest_snoc (j k : κ) (v : ν) (log : List (κ × ν)) :
    latest k (log ++ [(j, v)]) = if j = k then some v else latest k log := by
  by_cases h : j = k <;> simp [latest, stream, h]

/-- What a snapshot leaves in a table. -/
theorem get?_putAll (table : InOrder κ ν) (snapshot : List (κ × ν)) (k : κ) :
    (table.putAll snapshot).get? k = (latest k snapshot).or (table.get? k) := by
  induction snapshot using List.reverseRecOn with
  | nil => rfl
  | append_singleton snapshot e ih =>
    rw [InOrder.putAll, List.foldl_append, List.foldl_cons, List.foldl_nil, InOrder.get?_put, latest_snoc]
    split
    · rfl
    · exact ih

/-! ## What is on its way -/

/-- The values are entries of the log, from `base` on and in its order, perhaps some of them more than once. -/
def Follows (base : Nat) (log seen : List ν) : Prop :=
  ∃ marked : List (Nat × ν), marked.map (·.2) = seen ∧ marked.Pairwise (·.1 ≤ ·.1) ∧
    ∀ e ∈ marked, base ≤ e.1 ∧ log[e.1]? = some e.2

namespace Follows

variable {base : Nat} {log seen : List ν}

theorem nil (base : Nat) (log : List ν) : Follows base log [] := ⟨[], rfl, List.Pairwise.nil, nofun⟩

/-- Part of what follows follows. -/
theorem sublist (h : Follows base log seen) {part : List ν} (hpart : part.Sublist seen) : Follows base log part := by
  obtain ⟨marked, rfl, hsorted, hmarked⟩ := h
  obtain ⟨marked', hsub, rfl⟩ := List.sublist_map_iff.mp hpart
  exact ⟨marked', rfl, hsorted.sublist hsub, fun e he => hmarked e (hsub.subset he)⟩

/-- The log may grow. -/
theorem append (h : Follows base log seen) (more : List ν) : Follows base (log ++ more) seen := by
  obtain ⟨marked, rfl, hsorted, hmarked⟩ := h
  refine ⟨marked, rfl, hsorted, fun e he => ?_⟩
  obtain ⟨hbase, hlog⟩ := hmarked e he
  exact ⟨hbase, by rw [List.getElem?_append_left (List.getElem?_eq_some_iff.mp hlog).1, hlog]⟩

/-- The last entry comes behind all others. -/
theorem snoc (h : Follows base log seen) {v : ν} (hlast : log.getLast? = some v) (hbase : base ≤ log.length - 1) :
    Follows base log (seen ++ [v]) := by
  obtain ⟨marked, rfl, hsorted, hmarked⟩ := h
  rw [List.getLast?_eq_getElem?] at hlast
  refine ⟨marked ++ [(log.length - 1, v)], by simp, ?_, ?_⟩
  · rw [List.pairwise_append]
    refine ⟨hsorted, List.pairwise_singleton _ _, ?_⟩
    intro e he last hmem
    have hlt := (List.getElem?_eq_some_iff.mp (hmarked e he).2).1
    rw [List.mem_singleton.mp hmem]
    show e.1 ≤ log.length - 1
    omega
  · intro e he
    rcases List.mem_append.mp he with he | he
    · exact hmarked e he
    · rw [List.mem_singleton.mp he]
      exact ⟨hbase, hlast⟩

/-- From any of the values on. -/
theorem cons {v : ν} (h : Follows base log (v :: seen)) :
    ∃ i, base ≤ i ∧ log[i]? = some v ∧ Follows i log (v :: seen) := by
  obtain ⟨marked, hmap, hsorted, hmarked⟩ := h
  cases marked with
  | nil => cases hmap
  | cons e marked =>
    cases hmap
    obtain ⟨hbase, hlog⟩ := hmarked e List.mem_cons_self
    refine ⟨e.1, hbase, hlog, e :: marked, rfl, hsorted, ?_⟩
    intro e' he'
    refine ⟨?_, (hmarked e' he').2⟩
    rcases List.mem_cons.mp he' with rfl | he'
    · exact Nat.le_refl _
    · exact (List.pairwise_cons.mp hsorted).1 e' he'

end Follows

/-- Where a value of a key is, from the table back to the pass. -/
def sightings (k : κ) (s : State κ ν) : List ν :=
  (s.table.get? k).toList ++ stream k s.posted.flatten ++ stream k (s.pass.elim [] (·.2))

/-- For each key the table, the queue and the pass follow what was put. -/
def Inv (base : κ → Nat) (s : State κ ν) : Prop :=
  ∀ k, Follows (base k) (stream k s.puts) (sightings k s) ∧ base k ≤ (stream k s.puts).length - 1

theorem inv_start : Inv (fun _ => 0) ({} : State κ ν) := fun _ => ⟨Follows.nil _ _, Nat.zero_le _⟩

section Steps

variable {base : κ → Nat} {s : State κ ν}

/-- A value in the table is the first sighting. -/
theorem sightings_apply {snapshot : List (κ × ν)} {posted : List (List (κ × ν))}
    (h : s.posted = snapshot :: posted) (k : κ) : (sightings k (step s .apply)).Sublist (sightings k s) := by
  have hstep : step s .apply = { s with posted, table := s.table.putAll snapshot } := by
    simp only [step, h]
  have hseen : ((latest k snapshot).or (s.table.get? k)).toList.Sublist
      ((s.table.get? k).toList ++ stream k snapshot) := by
    cases hlast : latest k snapshot with
    | none =>
      rw [Option.none_or]
      exact List.sublist_append_left _ _
    | some v =>
      rw [Option.some_or]
      exact (List.singleton_sublist.mpr (List.mem_of_getLast? hlast)).trans (List.sublist_append_right _ _)
  rw [hstep, sightings, sightings, get?_putAll, h, List.flatten_cons, stream_append, ← List.append_assoc]
  exact (hseen.append (List.Sublist.refl _)).append (List.Sublist.refl _)

/-- **Every act keeps them in order.** -/
theorem Inv.step (h : Inv base s) (a : Act κ ν) : Inv base (step s a) := by
  intro k
  obtain ⟨hfollows, hbase⟩ := h k
  cases a with
  | put j v =>
    show Follows (base k) (stream k (s.puts ++ [(j, v)])) (sightings k s) ∧
      base k ≤ (stream k (s.puts ++ [(j, v)])).length - 1
    rw [stream_append]
    refine ⟨hfollows.append _, ?_⟩
    rw [List.length_append]
    omega
  | begin =>
    refine ⟨hfollows.sublist ?_, hbase⟩
    exact (List.Sublist.refl _).append (List.nil_sublist _)
  | read j =>
    simp only [Replica.step]
    split
    · rename_i todo seen v hpass hlatest
      by_cases hj : j = k
      · subst hj
        have hsightings : sightings j { s with pass := some (todo.filter (· ≠ j), seen ++ [(j, v)]) } =
            sightings j s ++ [v] := by
          simp [sightings, hpass, stream]
        exact ⟨by rw [hsightings]; exact hfollows.snoc hlatest hbase, hbase⟩
      · have hsightings : sightings k { s with pass := some (todo.filter (· ≠ j), seen ++ [(j, v)]) } =
            sightings k s := by
          simp [sightings, hpass, stream, hj]
        exact ⟨by rw [hsightings]; exact hfollows, hbase⟩
    · exact ⟨hfollows, hbase⟩
  | finish =>
    simp only [Replica.step]
    split
    · rename_i seen hpass
      have hsightings : sightings k { s with pass := none, posted := s.posted ++ [seen] } = sightings k s := by
        simp [sightings, hpass]
      exact ⟨by rw [hsightings]; exact hfollows, hbase⟩
    · exact ⟨hfollows, hbase⟩
  | apply =>
    cases hposted : s.posted with
    | nil =>
      have hstep : Replica.step s .apply = s := by
        simp only [Replica.step, hposted]
      exact hstep.symm ▸ ⟨hfollows, hbase⟩
    | cons snapshot posted =>
      have hputs : (Replica.step s .apply).puts = s.puts := by
        simp only [Replica.step, hposted]
      rw [hputs]
      exact ⟨hfollows.sublist (sightings_apply hposted k), hbase⟩

end Steps

/-- Keys stay in the table, each where it is. -/
theorem keys_step (s : State κ ν) (a : Act κ ν) :
    s.table.entries.map (·.1) <+: (step s a).table.entries.map (·.1) := by
  have hput : ∀ (m : InOrder κ ν) k v, m.entries.map (·.1) <+: (m.put k v).entries.map (·.1) := by
    intro m k v
    rw [InOrder.keys_put]
    split
    · exact List.prefix_rfl
    · exact List.prefix_append _ _
  have hputAll : ∀ (es : List (κ × ν)) (m : InOrder κ ν), m.entries.map (·.1) <+: (m.putAll es).entries.map (·.1) := by
    intro es
    induction es with
    | nil => exact fun _ => List.prefix_rfl
    | cons e es ih => exact fun m => (hput m e.1 e.2).trans (ih (m.put e.1 e.2))
  cases a with
  | apply =>
    simp only [step]
    split
    · exact List.prefix_rfl
    · exact hputAll _ _
  | _ =>
    simp only [step]
    repeat' split
    all_goals exact List.prefix_rfl

theorem keys_run (s : State κ ν) (acts : List (Act κ ν)) :
    s.table.entries.map (·.1) <+: (run step s acts).table.entries.map (·.1) := by
  have hstep : ∀ (t : State κ ν) (a : Act κ ν), s.table.entries.map (·.1) <+: t.table.entries.map (·.1) →
      s.table.entries.map (·.1) <+: (step t a).table.entries.map (·.1) := fun t a h => h.trans (keys_step t a)
  exact run_inv hstep acts s List.prefix_rfl

/-- A value in the table is an entry of the log, and nothing on its way is older. -/
theorem Inv.shown {base : κ → Nat} {s : State κ ν} (h : Inv base s) {k : κ} {v : ν} (hv : s.table.get? k = some v) :
    ∃ i, base k ≤ i ∧ (stream k s.puts)[i]? = some v ∧ Follows i (stream k s.puts) (sightings k s) := by
  have hsightings : sightings k s = v :: (stream k s.posted.flatten ++ stream k (s.pass.elim [] (·.2))) := by
    rw [sightings, hv, Option.toList_some, List.append_assoc, List.singleton_append]
  have hfollows := (h k).1
  rw [hsightings] at hfollows ⊢
  exact hfollows.cons

/-- What is in the table was put. -/
theorem Inv.known {base : κ → Nat} {s : State κ ν} (h : Inv base s) {k : κ} (hk : latest k s.puts = none) :
    s.table.get? k = none := by
  cases hget : s.table.get? k with
  | none => rfl
  | some v =>
    obtain ⟨i, -, hlog, -⟩ := h.shown hget
    rw [List.getLast?_eq_none_iff.mp hk] at hlog
    cases hlog

/-- **The table never goes back.** -/
theorem never_back {base : κ → Nat} {s : State κ ν} (h : Inv base s) {k : κ} {v : ν} (hv : s.table.get? k = some v)
    (acts : List (Act κ ν)) :
    ∃ i j : Nat, ∃ w, i ≤ j ∧ (stream k s.puts)[i]? = some v ∧ (run step s acts).table.get? k = some w ∧
      (stream k (run step s acts).puts)[j]? = some w := by
  obtain ⟨i, -, hlog, hfollows⟩ := h.shown hv
  -- from here on, nothing older than the `i`-th value of `k` is seen
  have hinv : Inv (Function.update base k i) s := by
    intro j
    by_cases hj : j = k
    · subst hj
      rw [Function.update_self]
      have hlt := (List.getElem?_eq_some_iff.mp hlog).1
      exact ⟨hfollows, by omega⟩
    · rw [Function.update_of_ne hj]
      exact h j
  have hrun : Inv (Function.update base k i) (run step s acts) := run_inv (fun t a ht => ht.step a) acts s hinv
  have hkey : (run step s acts).table.get? k ≠ none := by
    have hmem := (keys_run s acts).subset (InOrder.get?_isSome.mp (Option.isSome_of_eq_some hv))
    exact Option.isSome_iff_ne_none.mp (InOrder.get?_isSome.mpr hmem)
  obtain ⟨w, hw⟩ := Option.ne_none_iff_exists'.mp hkey
  obtain ⟨j, hij, hlog', -⟩ := hrun.shown hw
  rw [Function.update_self] at hij
  exact ⟨i, j, w, hij, hlog, hw, hlog'⟩

/-! ## When nothing is put any more -/

section Quiet

/-- The last values of some keys. -/
def Current (log : List (κ × ν)) (snapshot : List (κ × ν)) : Prop := ∀ e ∈ snapshot, latest e.1 log = some e.2

/-- Of all keys. -/
def Complete (log : List (κ × ν)) (snapshot : List (κ × ν)) : Prop :=
  Current log snapshot ∧ ∀ k ∈ log.map (·.1), k ∈ snapshot.map (·.1)

/-- A pass that began with the log as it is: what it has read, and what it still has to. -/
def InPass (log : List (κ × ν)) (s : State κ ν) : Prop :=
  ∃ todo seen, s.pass = some (todo, seen) ∧ Current log seen ∧ ∀ k ∈ log.map (·.1), k ∈ todo ∨ k ∈ seen.map (·.1)

/-- Behind such a pass: its snapshot waits, or the table shows the map, and whatever comes later is current. -/
def Settled (log : List (κ × ν)) (s : State κ ν) : Prop :=
  (∀ p ∈ s.pass, Current log p.2) ∧
    ((∃ front full back, s.posted = front ++ full :: back ∧ Complete log full ∧ ∀ l ∈ back, Current log l) ∨
      (∀ k, s.table.get? k = latest k log) ∧ ∀ l ∈ s.posted, Current log l)

variable {log : List (κ × ν)}

theorem Current.nil : Current log [] := nofun

theorem Current.snoc {snapshot : List (κ × ν)} (h : Current log snapshot) {k : κ} {v : ν} (hv : latest k log = some v) :
    Current log (snapshot ++ [(k, v)]) := by
  intro e he
  rcases List.mem_append.mp he with he | he
  · exact h e he
  · rw [List.mem_singleton.mp he]
    exact hv

/-- The last value that a current snapshot has of a key, if any, is that of the map. -/
theorem Current.latest_eq {snapshot : List (κ × ν)} (h : Current log snapshot) {k : κ} (hk : k ∈ snapshot.map (·.1)) :
    latest k snapshot = latest k log := by
  cases hlast : latest k snapshot with
  | none => exact absurd hk (latest_eq_none.mp hlast)
  | some v =>
    have hmem : (k, v) ∈ snapshot := mem_stream.mp (List.mem_of_getLast? hlast)
    exact (h (k, v) hmem).symm

/-- A current snapshot leaves a table that shows the map as it is. -/
theorem Current.get?_putAll {snapshot : List (κ × ν)} (h : Current log snapshot) {table : InOrder κ ν}
    (htable : ∀ k, table.get? k = latest k log) (k : κ) : (table.putAll snapshot).get? k = latest k log := by
  rw [Replica.get?_putAll]
  by_cases hk : k ∈ snapshot.map (·.1)
  · rw [h.latest_eq hk, htable, Option.or_self]
  · rw [latest_eq_none.mpr hk, Option.none_or, htable]

/-- A complete one makes any table show it, if the table has no other keys. -/
theorem Complete.get?_putAll {snapshot : List (κ × ν)} (h : Complete log snapshot) {table : InOrder κ ν}
    (htable : ∀ k, latest k log = none → table.get? k = none) (k : κ) :
    (table.putAll snapshot).get? k = latest k log := by
  rw [Replica.get?_putAll]
  by_cases hk : k ∈ log.map (·.1)
  · rw [h.1.latest_eq (h.2 k hk)]
    exact Option.or_of_isSome (Option.isSome_iff_ne_none.mpr fun hnone => latest_eq_none.mp hnone hk)
  · have hnone := latest_eq_none.mpr hk
    rw [htable k hnone, Option.or_none, hnone]
    refine latest_eq_none.mpr fun hmem => ?_
    obtain ⟨e, he, rfl⟩ := List.mem_map.mp hmem
    rw [h.1 e he] at hnone
    cases hnone

variable {s : State κ ν}

/-- The end of such a pass. -/
theorem InPass.finish (h : InPass log s) {seen : List (κ × ν)} (hover : s.pass = some ([], seen)) :
    Settled log (step s .finish) := by
  obtain ⟨todo, seen', hpass, hcurrent, hall⟩ := h
  cases hover.symm.trans hpass
  have hfull : Complete log seen := ⟨hcurrent, fun k hk => (hall k hk).resolve_left List.not_mem_nil⟩
  simp only [step, hover]
  exact ⟨nofun, Or.inl ⟨s.posted, seen, [], rfl, hfull, nofun⟩⟩

/-- It goes on until its end. -/
theorem InPass.step (h : InPass log s) (hlog : s.puts = log) {a : Act κ ν} (hput : ∀ k v, a ≠ .put k v) :
    InPass log (step s a) ∨ Settled log (step s a) := by
  obtain ⟨todo, seen, hpass, hcurrent, hall⟩ := id h
  cases a with
  | put k v => exact absurd rfl (hput k v)
  | begin => exact Or.inl ⟨s.puts.map (·.1), [], rfl, Current.nil, fun k hk => Or.inl (hlog ▸ hk)⟩
  | read k =>
    cases hlatest : latest k s.puts with
    | none =>
      simp only [Replica.step, hpass, hlatest]
      exact Or.inl h
    | some v =>
      simp only [Replica.step, hpass, hlatest]
      refine Or.inl ⟨_, _, rfl, hcurrent.snoc (hlog ▸ hlatest), fun j hj => ?_⟩
      by_cases hjk : j = k
      · exact Or.inr (by simp [hjk])
      · rcases hall j hj with hmem | hmem
        · exact Or.inl (List.mem_filter.mpr ⟨hmem, by simpa using hjk⟩)
        · rw [List.map_append]
          exact Or.inr (List.mem_append_left _ hmem)
  | finish =>
    cases todo with
    | nil => exact Or.inr (h.finish hpass)
    | cons k todo =>
      simp only [Replica.step, hpass]
      exact Or.inl h
  | apply =>
    refine Or.inl ⟨todo, seen, ?_, hcurrent, hall⟩
    simp only [Replica.step]
    split <;> exact hpass

/-- **Nothing unsettles it** but a further value. -/
theorem Settled.step (h : Settled log s) (hlog : s.puts = log)
    (hknown : ∀ k, latest k log = none → s.table.get? k = none) {a : Act κ ν} (hput : ∀ k v, a ≠ .put k v) :
    Settled log (step s a) := by
  obtain ⟨hpass, hsettled⟩ := id h
  cases a with
  | put k v => exact absurd rfl (hput k v)
  | begin =>
    refine ⟨fun p hp => ?_, hsettled⟩
    cases hp
    exact Current.nil
  | read k =>
    simp only [Replica.step]
    split
    · rename_i todo seen v hseen hlatest
      refine ⟨fun p hp => ?_, hsettled⟩
      cases hp
      exact (hpass _ hseen).snoc (hlog ▸ hlatest)
    · exact h
  | finish =>
    simp only [Replica.step]
    split
    · rename_i seen hseen
      have hcurrent : Current log seen := hpass _ hseen
      refine ⟨nofun, ?_⟩
      rcases hsettled with ⟨front, full, back, hposted, hfull, hback⟩ | ⟨htable, hposted⟩
      · refine Or.inl ⟨front, full, back ++ [seen], by simp [hposted], hfull, fun l hl => ?_⟩
        rcases List.mem_append.mp hl with hl | hl
        · exact hback l hl
        · exact List.mem_singleton.mp hl ▸ hcurrent
      · refine Or.inr ⟨htable, fun l hl => ?_⟩
        rcases List.mem_append.mp hl with hl | hl
        · exact hposted l hl
        · exact List.mem_singleton.mp hl ▸ hcurrent
    · exact h
  | apply =>
    simp only [Replica.step]
    split
    · exact h
    · rename_i snapshot posted hcons
      refine ⟨hpass, ?_⟩
      rcases hsettled with ⟨front, full, back, hposted, hfull, hback⟩ | ⟨htable, hposted⟩
      · rw [hcons] at hposted
        cases front with
        | nil =>
          -- the complete snapshot is applied
          obtain ⟨rfl, rfl⟩ := List.cons.inj hposted
          exact Or.inr ⟨hfull.get?_putAll hknown, hback⟩
        | cons first front =>
          obtain ⟨-, rfl⟩ := List.cons.inj hposted
          exact Or.inl ⟨front, full, back, rfl, hfull, hback⟩
      · have hsnapshot : Current log snapshot := hposted snapshot (hcons ▸ List.mem_cons_self)
        exact Or.inr ⟨hsnapshot.get?_putAll htable, fun l hl => hposted l (hcons ▸ List.mem_cons_of_mem _ hl)⟩

end Quiet

/-- What is put in one act. -/
def Act.puts : Act κ ν → List (κ × ν)
  | .put k v => [(k, v)]
  | _ => []

omit [DecidableEq κ] in
theorem ne_put {acts : List (Act κ ν)} (h : acts.flatMap Act.puts = []) {a : Act κ ν} (ha : a ∈ acts) (k : κ) (v : ν) :
    a ≠ .put k v := by
  rintro rfl
  exact absurd (List.flatMap_eq_nil_iff.mp h _ ha) (List.cons_ne_nil _ _)

/-- The log of a run. -/
theorem puts_run (s : State κ ν) (acts : List (Act κ ν)) :
    (run step s acts).puts = s.puts ++ acts.flatMap Act.puts := by
  induction acts generalizing s with
  | nil => exact (List.append_nil _).symm
  | cons a acts ih =>
    have hputs : (step s a).puts = s.puts ++ a.puts := by
      cases a <;> simp only [step, Act.puts, List.append_nil]
      all_goals
        repeat' split
        all_goals rfl
    rw [run_cons, ih, hputs, List.flatMap_cons, List.append_assoc]

/-- The log is as it was, and everything in order. -/
def Quiet (base : κ → Nat) (log : List (κ × ν)) (s : State κ ν) : Prop := s.puts = log ∧ Inv base s

theorem Quiet.known {base : κ → Nat} {log : List (κ × ν)} {s : State κ ν} (h : Quiet base log s) (k : κ)
    (hk : latest k log = none) : s.table.get? k = none := h.2.known (h.1.symm ▸ hk)

theorem Quiet.step {base : κ → Nat} {log : List (κ × ν)} {s : State κ ν} (h : Quiet base log s) {a : Act κ ν}
    (hput : ∀ k v, a ≠ .put k v) : Quiet base log (step s a) := by
  refine ⟨?_, h.2.step a⟩
  have hputs : a.puts = [] := by
    cases a with
    | put k v => exact absurd rfl (hput k v)
    | _ => rfl
  rw [← h.1]
  exact (puts_run s [a]).trans (by rw [List.flatMap_singleton, hputs, List.append_nil])

/-- What every act but a `put` keeps holds along a run without one. -/
theorem run_quiet {P : State κ ν → Prop} (hstep : ∀ s a, P s → (∀ k v, a ≠ .put k v) → P (step s a))
    {acts : List (Act κ ν)} (hquiet : acts.flatMap Act.puts = []) {s : State κ ν} (h : P s) : P (run step s acts) :=
  have hok : AllSteps step (fun _ a => ∀ k v, a ≠ .put k v) s acts := allSteps_const.mpr fun _ ha => ne_put hquiet ha
  run_inv_of_steps hstep acts s hok h

/-- **The table converges.** Once a pass has begun behind the last value that is put, has ended, and the queue is empty,
the table shows the map. -/
theorem converges {base : κ → Nat} {s : State κ ν} (h : Inv base s) {before during after : List (Act κ ν)}
    (hquiet : (during ++ after).flatMap Act.puts = []) {seen : List (κ × ν)}
    (hover : (run step s (before ++ .begin :: during)).pass = some ([], seen))
    (hempty : (run step s (before ++ .begin :: during ++ .finish :: after)).posted = []) (k : κ) :
    (run step s (before ++ .begin :: during ++ .finish :: after)).table.get? k =
      latest k (run step s (before ++ .begin :: during ++ .finish :: after)).puts := by
  rw [List.flatMap_append, List.append_eq_nil_iff] at hquiet
  let start := run step s before
  let log := start.puts
  -- the pass
  have hbegin : Quiet base log (step start .begin) ∧ InPass log (step start .begin) := by
    have hbefore : Inv base start := run_inv (fun t a ht => ht.step a) before s h
    refine ⟨⟨rfl, hbefore.step .begin⟩, ?_⟩
    exact ⟨log.map (·.1), [], rfl, Current.nil, fun _ => Or.inl⟩
  have hduring : Quiet base log (run step s (before ++ .begin :: during)) ∧
      (InPass log (run step s (before ++ .begin :: during)) ∨
        Settled log (run step s (before ++ .begin :: during))) := by
    rw [run_append, run_cons]
    refine run_quiet (P := fun t => Quiet base log t ∧ (InPass log t ∨ Settled log t)) ?_ hquiet.1
      ⟨hbegin.1, Or.inl hbegin.2⟩
    rintro t a ⟨ht, hpass | hsettled⟩ hput
    · exact ⟨ht.step hput, hpass.step ht.1 hput⟩
    · exact ⟨ht.step hput, Or.inr (hsettled.step ht.1 ht.known hput)⟩
  -- its end, and what is behind it
  have hfinish : Settled log (step (run step s (before ++ .begin :: during)) .finish) := by
    obtain ⟨ht, hpass | hsettled⟩ := hduring
    · exact hpass.finish hover
    · exact hsettled.step ht.1 ht.known nofun
  obtain ⟨hlog, hsettled⟩ : Quiet base log (run step s (before ++ .begin :: during ++ .finish :: after)) ∧
      Settled log (run step s (before ++ .begin :: during ++ .finish :: after)) := by
    rw [run_append, run_cons]
    refine run_quiet (P := fun t => Quiet base log t ∧ Settled log t) ?_ hquiet.2 ⟨hduring.1.step nofun, hfinish⟩
    exact fun t a ht hput => ⟨ht.1.step hput, ht.2.step ht.1.1 ht.1.known hput⟩
  rcases hsettled.2 with ⟨front, full, back, hposted, -⟩ | ⟨htable, -⟩
  · rw [hempty] at hposted
    exact absurd hposted (by simp)
  · rw [htable, hlog.1]

end Replica
