import Mathlib.Data.List.Induction

/-!
# Loops and runs

* `whileLoop step n s` repeats `step` from `s` until it gives `none`, at most `n` times. When every step keeps a
  property and lowers a measure, the loop ends by itself, and the property holds there (`whileLoop_ends`).
* `run step s is` is the state after the inputs `is`. What every step keeps holds along every run (`run_inv`); with a
  condition on the steps, along every run whose steps all meet it (`run_inv_of_steps`). A run is simulated by another
  machine when each of its steps is (`run_sim`).
* `serve step s is` are the answers to the inputs `is`, and the state after them. Two machines related by a simulation
  give the same answers (`serve_sim`).
-/

namespace Runs

variable {σ ι : Type*}

/-! ## Loops -/

/-- Repeat `step` until it stops, at most `n` times. -/
def whileLoop (step : σ → Option σ) : Nat → σ → σ
  | 0, s => s
  | n + 1, s =>
    match step s with
    | none => s
    | some s' => whileLoop step n s'

section Loops

variable {step : σ → Option σ}

/-- What every step keeps holds after any number of turns. -/
theorem whileLoop_inv {P : σ → Prop} (hstep : ∀ s s', P s → step s = some s' → P s') (n : Nat) (s : σ) (hs : P s) :
    P (whileLoop step n s) := by
  induction n generalizing s with
  | zero => exact hs
  | succ n ih =>
    cases h : step s with
    | none => simpa only [whileLoop, h] using hs
    | some s' => simpa only [whileLoop, h] using ih s' (hstep s s' hs h)

/-- **The loop rule.** A loop whose steps keep `P` and, under `P`, lower a measure ends by itself, and `P` holds
there. -/
theorem whileLoop_ends {P : σ → Prop} {μ : σ → Nat} (hstep : ∀ s s', P s → step s = some s' → P s' ∧ μ s' < μ s)
    (n : Nat) (s : σ) (hs : P s) (hμ : μ s ≤ n) : P (whileLoop step n s) ∧ step (whileLoop step n s) = none := by
  induction n generalizing s with
  | zero =>
    refine ⟨hs, ?_⟩
    cases h : step s with
    | none => exact h
    | some s' =>
      have := (hstep s s' hs h).2
      omega
  | succ n ih =>
    cases h : step s with
    | none => simpa only [whileLoop, h, and_true] using hs
    | some s' =>
      obtain ⟨hs', hlt⟩ := hstep s s' hs h
      simpa only [whileLoop, h] using ih s' hs' (by omega)

end Loops

/-! ## Runs -/

/-- The state after the inputs `is`. -/
def run (step : σ → ι → σ) (s : σ) (is : List ι) : σ := is.foldl step s

/-- Every step of the run meets `ok`, a condition on the state before the step and the input. -/
def AllSteps (step : σ → ι → σ) (ok : σ → ι → Prop) : σ → List ι → Prop
  | _, [] => True
  | s, i :: is => ok s i ∧ AllSteps step ok (step s i) is

instance decidableAllSteps (step : σ → ι → σ) (ok : σ → ι → Prop) [∀ s i, Decidable (ok s i)] :
    ∀ (s : σ) (is : List ι), Decidable (AllSteps step ok s is)
  | _, [] => inferInstanceAs (Decidable True)
  | s, i :: is =>
    have := decidableAllSteps step ok (step s i) is
    inferInstanceAs (Decidable (_ ∧ _))

section Runs

variable {step : σ → ι → σ}

@[simp] theorem run_nil (s : σ) : run step s [] = s := rfl

@[simp] theorem run_cons (s : σ) (i : ι) (is : List ι) : run step s (i :: is) = run step (step s i) is := rfl

theorem run_append (s : σ) (is js : List ι) : run step s (is ++ js) = run step (run step s is) js :=
  List.foldl_append

theorem run_snoc (s : σ) (is : List ι) (i : ι) : run step s (is ++ [i]) = step (run step s is) i := by
  rw [run_append]
  rfl

/-- What every step keeps holds along every run. -/
theorem run_inv {P : σ → Prop} (hstep : ∀ s i, P s → P (step s i)) (is : List ι) (s : σ) (h : P s) :
    P (run step s is) := by
  induction is generalizing s with
  | nil => exact h
  | cons i is ih => exact ih (step s i) (hstep s i h)

/-- What every step that meets `ok` keeps holds along every run whose steps all meet it. -/
theorem run_inv_of_steps {P : σ → Prop} {ok : σ → ι → Prop} (hstep : ∀ s i, P s → ok s i → P (step s i))
    (is : List ι) (s : σ) (hok : AllSteps step ok s is) (h : P s) : P (run step s is) := by
  induction is generalizing s with
  | nil => exact h
  | cons i is ih => exact ih (step s i) hok.2 (hstep s i h hok.1)

/-- Steps that meet `ok` and keep `P` meet whatever follows from the two. -/
theorem AllSteps.imp {P : σ → Prop} {ok ok' : σ → ι → Prop} (hstep : ∀ s i, P s → ok s i → P (step s i) ∧ ok' s i)
    {is : List ι} {s : σ} (hok : AllSteps step ok s is) (h : P s) : AllSteps step ok' s is := by
  induction is generalizing s with
  | nil => trivial
  | cons i is ih =>
    obtain ⟨hnext, hthis⟩ := hstep s i h hok.1
    exact ⟨hthis, ih hok.2 hnext⟩

/-- A condition on the inputs alone. -/
theorem allSteps_const {ok : ι → Prop} {is : List ι} {s : σ} :
    AllSteps step (fun _ i => ok i) s is ↔ ∀ i ∈ is, ok i := by
  induction is generalizing s with
  | nil => simp [AllSteps]
  | cons i is ih => simp [AllSteps, ih]

/-- **The simulation rule**: each input of a run is some inputs of another machine. -/
theorem run_sim {τ κ : Type*} {step' : τ → κ → τ} {f : ι → List κ} {R : σ → τ → Prop} {ok : σ → ι → Prop}
    (hstep : ∀ s t i, R s t → ok s i → R (step s i) (run step' t (f i))) {is : List ι} {s : σ} {t : τ}
    (hok : AllSteps step ok s is) (h : R s t) : R (run step s is) (run step' t (is.flatMap f)) := by
  induction is generalizing s t with
  | nil => exact h
  | cons i is ih =>
    rw [run_cons, List.flatMap_cons, run_append]
    exact ih hok.2 (hstep s t i h hok.1)

/-- Two conditions that are the same as long as `P` holds, which they keep. -/
theorem allSteps_iff {P : σ → Prop} {ok ok' : σ → ι → Prop} (hstep : ∀ s i, P s → ok' s i → P (step s i))
    (hiff : ∀ s i, P s → (ok s i ↔ ok' s i)) {is : List ι} {s : σ} (h : P s) :
    AllSteps step ok s is ↔ AllSteps step ok' s is := by
  constructor
  · intro hok
    refine AllSteps.imp (fun s i h hthis => ?_) hok h
    have hthis' := (hiff s i h).mp hthis
    exact ⟨hstep s i h hthis', hthis'⟩
  · intro hok
    exact AllSteps.imp (fun s i h hthis => ⟨hstep s i h hthis, (hiff s i h).mpr hthis⟩) hok h

theorem allSteps_append {ok : σ → ι → Prop} {is js : List ι} {s : σ} :
    AllSteps step ok s (is ++ js) ↔ AllSteps step ok s is ∧ AllSteps step ok (run step s is) js := by
  induction is generalizing s with
  | nil => simp [AllSteps]
  | cons i is ih => simp only [List.cons_append, AllSteps, run_cons, ih, and_assoc]

/-- To meet `ok` all along, it is enough to meet it behind every part of the run that did. -/
theorem allSteps_of_prefix {ok : σ → ι → Prop} {is : List ι} {s : σ}
    (h : ∀ js i, js ++ [i] <+: is → AllSteps step ok s js → ok (run step s js) i) : AllSteps step ok s is := by
  induction is using List.reverseRecOn with
  | nil => trivial
  | append_singleton is i ih =>
    have hbefore := ih fun js j hjs => h js j (hjs.trans (List.prefix_append _ _))
    exact allSteps_append.mpr ⟨hbefore, h is i List.prefix_rfl hbefore, trivial⟩

end Runs

/-! ## Runs with answers -/

section Answers

variable {τ ρ : Type*}

/-- The answers to the inputs `is`, and the state after them. -/
def serve (step : σ → ι → ρ × σ) : σ → List ι → List ρ × σ
  | s, [] => ([], s)
  | s, i :: is => ((step s i).1 :: (serve step (step s i).2 is).1, (serve step (step s i).2 is).2)

variable {step : σ → ι → ρ × σ}

@[simp] theorem serve_nil (s : σ) : serve step s [] = ([], s) := rfl

@[simp] theorem serve_cons (s : σ) (i : ι) (is : List ι) :
    serve step s (i :: is) = ((step s i).1 :: (serve step (step s i).2 is).1, (serve step (step s i).2 is).2) := rfl

theorem serve_append (s : σ) (is js : List ι) :
    serve step s (is ++ js) =
      ((serve step s is).1 ++ (serve step (serve step s is).2 js).1, (serve step (serve step s is).2 js).2) := by
  induction is generalizing s with
  | nil => rfl
  | cons i is ih => simp [ih]

theorem serve_snoc (s : σ) (is : List ι) (i : ι) :
    serve step s (is ++ [i]) =
      ((serve step s is).1 ++ [(step (serve step s is).2 i).1], (step (serve step s is).2 i).2) := by
  rw [serve_append]
  rfl

/-- **The simulation rule.** The relation may speak of the inputs that are still to come. -/
theorem serve_sim {step' : τ → ι → ρ × τ} {R : List ι → σ → τ → Prop}
    (hstep : ∀ i is s t, R (i :: is) s t → (step s i).1 = (step' t i).1 ∧ R is (step s i).2 (step' t i).2)
    (is : List ι) (s : σ) (t : τ) (h : R is s t) :
    (serve step s is).1 = (serve step' t is).1 ∧ R [] (serve step s is).2 (serve step' t is).2 := by
  induction is generalizing s t with
  | nil => exact ⟨rfl, h⟩
  | cons i is ih =>
    obtain ⟨hanswer, hnext⟩ := hstep i is s t h
    obtain ⟨hanswers, hlast⟩ := ih _ _ hnext
    exact ⟨by simp [hanswer, hanswers], hlast⟩

end Answers

end Runs
