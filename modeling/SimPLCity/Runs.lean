import Mathlib.Data.List.Basic
import Mathlib.Logic.Relation

/-! Runs of a deterministic step function over a list of inputs, conditions that every
step of a run meets, and what the steps of a relation preserve. -/

namespace SimPLCity.Runs

variable {σ τ ι β : Type*} {step : σ → ι → σ} {C : σ → ι → Prop} {P : σ → Prop}

def run (step : σ → ι → σ) (s : σ) (is : List ι) : σ := is.foldl step s

@[simp] theorem run_nil (s : σ) : run step s [] = s := rfl

@[simp] theorem run_cons (s : σ) (i : ι) (is : List ι) :
    run step s (i :: is) = run step (step s i) is := rfl

theorem run_append (s : σ) (is js : List ι) :
    run step s (is ++ js) = run step (run step s is) js := by simp [run]

/-- Every step of the run meets `C` in the state in which it is taken. -/
def Along (step : σ → ι → σ) (C : σ → ι → Prop) : σ → List ι → Prop
  | _, [] => True
  | s, i :: is => C s i ∧ Along step C (step s i) is

instance decidableAlong [∀ s i, Decidable (C s i)] :
    (s : σ) → (is : List ι) → Decidable (Along step C s is)
  | _, [] => isTrue trivial
  | s, i :: is =>
    have := decidableAlong (step s i) is
    inferInstanceAs (Decidable (_ ∧ _))

theorem along_append {s : σ} {is js : List ι} :
    Along step C s (is ++ js) ↔ Along step C s is ∧ Along step C (run step s is) js := by
  induction is generalizing s with
  | nil => simp [Along]
  | cons i is ih => simp [Along, ih, and_assoc]

/-- What one step preserves under its condition, a run preserves. -/
theorem invariant (hstep : ∀ s i, P s → C s i → P (step s i)) {s : σ} {is : List ι} (h : P s)
    (ha : Along step C s is) : P (run step s is) := by
  induction is generalizing s with
  | nil => exact h
  | cons i is ih => exact ih (hstep s i h ha.1) ha.2

theorem invariant_always (hstep : ∀ s i, P s → P (step s i)) {s : σ} (h : P s) (is : List ι) :
    P (run step s is) := by
  induction is generalizing s with
  | nil => exact h
  | cons i is ih => exact ih (hstep s i h)

/-- Where `P` is kept under `C` and implies `Q`, and a step that misses `C` misses `Q`, the
states of a run all meet `Q` exactly when its steps all meet `C`. -/
theorem prefixes_iff_along {Q : σ → Prop} {is : List ι} (hQ : ∀ s, P s → Q s)
    (hstep : ∀ s, ∀ i ∈ is, P s → C s i → P (step s i))
    (hmiss : ∀ s, ∀ i ∈ is, P s → Q (step s i) → C s i) {s : σ} (h : P s) :
    (∀ js, js <+: is → Q (run step s js)) ↔ Along step C s is := by
  induction is generalizing s with
  | nil =>
    refine ⟨fun _ => trivial, fun _ js hjs => ?_⟩
    rw [List.prefix_nil.mp hjs]
    exact hQ s h
  | cons i is ih =>
    have ih := ih (fun s j hj => hstep s j (List.mem_cons_of_mem i hj))
      (fun s j hj => hmiss s j (List.mem_cons_of_mem i hj)) (s := step s i)
    constructor
    · intro hprefixes
      have hC : C s i := hmiss s i (List.mem_cons_self ..) h
        (hprefixes [i] (List.prefix_cons_inj i |>.mpr (List.nil_prefix ..)))
      refine ⟨hC, (ih (hstep s i (List.mem_cons_self ..) h hC)).mp fun js hjs => ?_⟩
      exact hprefixes (i :: js) ((List.prefix_cons_inj i).mpr hjs)
    · rintro ⟨hC, halong⟩ js hjs
      rcases List.prefix_cons_iff.mp hjs with rfl | ⟨ks, rfl, hks⟩
      · exact hQ s h
      · exact (ih (hstep s i (List.mem_cons_self ..) h hC)).mpr halong ks hks

/-- What the run answers, step by step. -/
def outputs (step : σ → ι → σ) (out : σ → ι → β) : σ → List ι → List β
  | _, [] => []
  | s, i :: is => out s i :: outputs step out (step s i) is

theorem outputs_append {out : σ → ι → β} (s : σ) (is js : List ι) :
    outputs step out s (is ++ js) = outputs step out s is ++ outputs step out (run step s is) js := by
  induction is generalizing s with
  | nil => rfl
  | cons i is ih => rw [List.cons_append, outputs, ih, outputs, run_cons, List.cons_append]

/-- Two runs on the same inputs whose steps keep `R` and give the same answers. -/
theorem simulation {step' : τ → ι → τ} {R : σ → τ → Prop} {out : σ → ι → β} {out' : τ → ι → β}
    {is : List ι} (hstep : ∀ s t, ∀ i ∈ is, R s t → C s i →
      R (step s i) (step' t i) ∧ out s i = out' t i)
    {s : σ} {t : τ} (h : R s t) (ha : Along step C s is) :
    R (run step s is) (run step' t is) ∧ outputs step out s is = outputs step' out' t is := by
  induction is generalizing s t with
  | nil => exact ⟨h, rfl⟩
  | cons i is ih =>
    obtain ⟨hnext, hout⟩ := hstep s t i List.mem_cons_self h ha.1
    obtain ⟨hrun, houts⟩ := ih (fun s t j hj => hstep s t j (List.mem_cons_of_mem _ hj)) hnext ha.2
    exact ⟨hrun, by rw [outputs, outputs, hout, houts]⟩

/-- The states that possible steps meeting `C` lead to. -/
inductive Reached (step : σ → ι → Option σ) (C : σ → ι → Prop) (s₀ : σ) : σ → Prop
  | start : Reached step C s₀ s₀
  | next {s s' i} (h : Reached step C s₀ s) (hc : C s i) (hs : step s i = some s') :
      Reached step C s₀ s'

theorem Reached.invariant {step : σ → ι → Option σ} {s₀ s : σ} (h : Reached step C s₀ s)
    (h₀ : P s₀) (hstep : ∀ s s' i, P s → C s i → step s i = some s' → P s') : P s := by
  induction h with
  | start => exact h₀
  | next _ hc hs ih => exact hstep _ _ _ ih hc hs

theorem Reached.trans {step : σ → ι → Option σ} {s₀ s₁ s₂ : σ} (h : Reached step C s₀ s₁)
    (h' : Reached step C s₁ s₂) : Reached step C s₀ s₂ := by
  induction h' with
  | start => exact h
  | next _ hc hs ih => exact ih.next hc hs

theorem Reached.weaken {step : σ → ι → Option σ} {C' : σ → ι → Prop} {s₀ s : σ}
    (h : Reached step C s₀ s) (hC : ∀ s i, C s i → C' s i) : Reached step C' s₀ s := by
  induction h with
  | start => exact .start
  | next _ hc hs ih => exact ih.next (hC _ _ hc) hs

/-- Performs the steps in order, if all of them are possible. -/
def perform (step : σ → ι → Option σ) (s : σ) : List ι → Option σ
  | [] => some s
  | i :: is => (step s i).bind fun s => perform step s is

/-- Every step of the performance meets `C`. -/
def Performs (step : σ → ι → Option σ) (C : σ → ι → Prop) : σ → List ι → Prop
  | _, [] => True
  | s, i :: is => C s i ∧ ∀ s' ∈ step s i, Performs step C s' is

instance decidablePerforms {step : σ → ι → Option σ} [∀ s i, Decidable (C s i)] :
    (s : σ) → (is : List ι) → Decidable (Performs step C s is)
  | _, [] => isTrue trivial
  | _, _ :: is =>
    have (s : σ) : Decidable (Performs step C s is) := decidablePerforms s is
    inferInstanceAs (Decidable (_ ∧ _))

theorem performs_cons {step : σ → ι → Option σ} {s s' : σ} {i : ι} {is : List ι} (hc : C s i)
    (hs : step s i = some s') (h : Performs step C s' is) : Performs step C s (i :: is) :=
  ⟨hc, fun _ h' => Option.some.inj (hs.symm.trans h') ▸ h⟩

theorem performs_always {step : σ → ι → Option σ} {is : List ι} (h : ∀ s i, C s i) (s : σ) :
    Performs step C s is := by
  induction is generalizing s with
  | nil => trivial
  | cons i is ih => exact ⟨h s i, fun s' _ => ih s'⟩

theorem reached_of_perform {step : σ → ι → Option σ} {s s' : σ} {is : List ι}
    (h : perform step s is = some s') (hc : Performs step C s is) : Reached step C s s' := by
  induction is generalizing s with
  | nil =>
    cases h
    exact .start
  | cons i is ih =>
    obtain ⟨s₁, hs, hrest⟩ := Option.bind_eq_some_iff.mp h
    exact (Reached.start.next hc.1 hs).trans (ih hrest (hc.2 s₁ hs))

theorem preserved {r : σ → σ → Prop} (hstep : ∀ s s', P s → r s s' → P s') {s s' : σ}
    (hsteps : Relation.ReflTransGen r s s') (h : P s) : P s' := by
  induction hsteps with
  | refl => exact h
  | tail _ hlast ih => exact hstep _ _ ih hlast

end SimPLCity.Runs
