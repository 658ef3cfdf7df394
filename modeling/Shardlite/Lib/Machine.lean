/-
  Shardlite.Lib.Machine

  Machines driven by a list of actions.  `step` is total: an action whose guard
  fails leaves the state alone, so every list of actions is a run.  What the
  environment must promise about a run is a predicate on the action and the
  state before it, and `Meets` says that every step of the run kept the promise.
-/
import Mathlib

namespace Machine

variable {S A T B : Type*}

/-- The state after performing `acts` in order. -/
def run (step : S → A → S) (s : S) (acts : List A) : S :=
  acts.foldl step s

/-- Every action of the run meets `ok` in the state it is performed in. -/
def Meets (step : S → A → S) (ok : S → A → Prop) : S → List A → Prop
  | _, [] => True
  | s, a :: acts => ok s a ∧ Meets step ok (step s a) acts

instance Meets.decidable (step : S → A → S) (ok : S → A → Prop) [∀ s a, Decidable (ok s a)] :
    ∀ (s : S) (acts : List A), Decidable (Meets step ok s acts)
  | _, [] => inferInstanceAs (Decidable True)
  | s, a :: acts =>
    have := Meets.decidable step ok (step s a) acts
    inferInstanceAs (Decidable (ok s a ∧ Meets step ok (step s a) acts))

section Run

variable (step : S → A → S)
variable {ok : S → A → Prop} {I : S → Prop} {s : S}

@[simp] theorem run_cons (s : S) (a : A) (acts : List A) :
    run step s (a :: acts) = run step (step s a) acts := rfl

theorem run_append (s : S) (as bs : List A) :
    run step s (as ++ bs) = run step (run step s as) bs := by
  simp [run, List.foldl_append]

/-- **Invariant rule.**  What holds at the start and is kept by every action the
    environment is allowed holds at the end of every run it is allowed. -/
theorem invariant_run (hstep : ∀ s a, ok s a → I s → I (step s a)) :
    ∀ {s : S} {acts : List A}, I s → Meets step ok s acts → I (run step s acts) := by
  intro s acts
  induction acts generalizing s with
  | nil => intro h _; exact h
  | cons a acts ih =>
    intro h hm
    exact ih (hstep s a hm.1 h) hm.2

/-- The invariant rule for an environment that promises nothing. -/
theorem invariant_run_of_forall (hstep : ∀ s a, I s → I (step s a)) (h : I s) (acts : List A) :
    I (run step s acts) := by
  induction acts generalizing s with
  | nil => exact h
  | cons a acts ih => exact ih (hstep s a h)

/-- What holds at the end of a run and, step by step, holds before whenever it
    holds after, may be assumed of every state of the run. -/
theorem Meets.and_of_final {R : S → Prop} (hback : ∀ s a, R (step s a) → R s) :
    ∀ {s : S} {acts : List A}, Meets step ok s acts → R (run step s acts) →
      Meets step (fun s a => ok s a ∧ R (step s a)) s acts := by
  intro s acts
  induction acts generalizing s with
  | nil => intro _ _; trivial
  | cons a acts ih =>
    intro hm hR
    have hstart : ∀ (s : S) (acts : List A), R (run step s acts) → R s := by
      intro s acts
      induction acts generalizing s with
      | nil => exact id
      | cons a acts ih => exact fun h => hback s a (ih (step s a) h)
    exact ⟨⟨hm.1, hstart _ acts hR⟩, ih hm.2 hR⟩

theorem Meets.and {ok' : S → A → Prop} {acts : List A} (h : Meets step ok s acts)
    (h' : Meets step ok' s acts) : Meets step (fun s a => ok s a ∧ ok' s a) s acts := by
  induction acts generalizing s with
  | nil => trivial
  | cons a acts ih => exact ⟨⟨h.1, h'.1⟩, ih h.2 h'.2⟩

theorem Meets.of_append {as bs : List A} (h : Meets step ok s (as ++ bs)) : Meets step ok s as := by
  induction as generalizing s with
  | nil => trivial
  | cons a as ih => exact ⟨h.1, ih h.2⟩

theorem Meets.drop {as bs : List A}
    (h : Meets step ok s (as ++ bs)) : Meets step ok (run step s as) bs := by
  induction as generalizing s with
  | nil => exact h
  | cons a as ih => exact ih h.2

end Run

end Machine
