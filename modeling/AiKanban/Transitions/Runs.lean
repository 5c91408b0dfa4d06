import Mathlib.Data.List.Basic

/-!
# Runs of a step function

A system takes one labelled step after the other. What every admitted step keeps, every
admitted run keeps.
-/
namespace AiKanban.Transitions

variable {σ α : Type} (step : σ → α → σ)

/-- The state after a list of steps. -/
def runAll (s : σ) (as : List α) : σ := as.foldl step s

@[simp] theorem runAll_nil (s : σ) : runAll step s [] = s := rfl

@[simp] theorem runAll_cons (s : σ) (a : α) (as : List α) :
    runAll step s (a :: as) = runAll step (step s a) as := rfl

theorem runAll_append (s : σ) (as bs : List α) :
    runAll step s (as ++ bs) = runAll step (runAll step s as) bs :=
  List.foldl_append

/-- Every step of the run is taken in a state that admits it. -/
def Admitted (P : σ → α → Prop) : σ → List α → Prop
  | _, [] => True
  | s, a :: as => P s a ∧ Admitted P (step s a) as

instance instDecidableAdmitted {P : σ → α → Prop} [∀ s a, Decidable (P s a)] :
    ∀ s as, Decidable (Admitted step P s as)
  | _, [] => inferInstanceAs (Decidable True)
  | s, a :: as =>
      have := instDecidableAdmitted (P := P) (step s a) as
      inferInstanceAs (Decidable (P s a ∧ Admitted step P (step s a) as))

variable {step} {P Q : σ → α → Prop} {s : σ} {as bs : List α}

theorem Admitted.mono (h : Admitted step P s as) (hPQ : ∀ s a, P s a → Q s a) :
    Admitted step Q s as := by
  induction as generalizing s with
  | nil => trivial
  | cons a as ih => exact ⟨hPQ s a h.1, ih h.2⟩

theorem admitted_of_forall (h : ∀ s, ∀ a ∈ as, P s a) : Admitted step P s as := by
  induction as generalizing s with
  | nil => trivial
  | cons a as ih => exact ⟨h s a (by simp), ih fun s b hb => h s b (by simp [hb])⟩

theorem Admitted.and (hP : Admitted step P s as) (hQ : Admitted step Q s as) :
    Admitted step (fun s a => P s a ∧ Q s a) s as := by
  induction as generalizing s with
  | nil => trivial
  | cons a as ih => exact ⟨⟨hP.1, hQ.1⟩, ih hP.2 hQ.2⟩

/-- An invariant of the admitted steps holds after every admitted run. -/
theorem runAll_induction {I : σ → Prop} (hstep : ∀ s a, I s → P s a → I (step s a)) (hs : I s)
    (h : Admitted step P s as) : I (runAll step s as) := by
  induction as generalizing s with
  | nil => exact hs
  | cons a as ih => exact ih (hstep s a hs h.1) h.2

/-- A property holds all along a run iff every step meets what keeps the property. -/
theorem forall_prefix_iff {I C : σ → Prop} (hinv : ∀ s a, I s → I (step s a))
    (hkeep : ∀ s a, I s → C s → (C (step s a) ↔ P s a)) (hs : I s) (hC : C s) :
    (∀ bs, bs <+: as → C (runAll step s bs)) ↔ Admitted step P s as := by
  induction as generalizing s with
  | nil =>
    constructor
    · intro _
      trivial
    · rintro - bs hbs
      obtain rfl := List.prefix_nil.mp hbs
      exact hC
  | cons a as ih =>
    constructor
    · intro h
      have hnext : C (step s a) := h [a] ⟨as, rfl⟩
      refine ⟨(hkeep s a hs hC).mp hnext, (ih (hinv s a hs) hnext).mp fun bs hbs => ?_⟩
      exact h (a :: bs) ((List.cons_prefix_cons).mpr ⟨rfl, hbs⟩)
    · rintro ⟨hP, h⟩ _ hbs
      rcases List.prefix_cons_iff.mp hbs with rfl | ⟨bs, rfl, htail⟩
      · exact hC
      · exact (ih (hinv s a hs) ((hkeep s a hs hC).mpr hP)).mpr h bs htail

end AiKanban.Transitions
