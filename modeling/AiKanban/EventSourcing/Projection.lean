import Mathlib.Data.List.Forall2

/-!
# Projections of an event log

A projection reads a log from a first view on. A log is coherent when every event
fits the view just before it, and a record follows its log when the log is coherent and
its last view shows the record.
-/
namespace AiKanban.EventSourcing

variable {ε σ ρ : Type}

/-- What an event makes of a view, and when it fits one. -/
structure Projection (ε σ : Type) where
  apply : σ → ε → σ
  fits : σ → ε → Prop

namespace Projection

variable (p : Projection ε σ)

/-- The view after a log. -/
def fold (v : σ) (log : List ε) : σ := log.foldl p.apply v

/-- Every event fits the view just before it. -/
def Coherent : σ → List ε → Prop
  | _, [] => True
  | v, e :: log => p.fits v e ∧ Coherent (p.apply v e) log

@[simp] theorem fold_nil (v : σ) : p.fold v [] = v := rfl

@[simp] theorem fold_cons (v : σ) (e : ε) (log : List ε) :
    p.fold v (e :: log) = p.fold (p.apply v e) log := rfl

theorem fold_append (v : σ) (log log' : List ε) :
    p.fold v (log ++ log') = p.fold (p.fold v log) log' := List.foldl_append

theorem coherent_append {v : σ} {log log' : List ε} :
    p.Coherent v (log ++ log') ↔ p.Coherent v log ∧ p.Coherent (p.fold v log) log' := by
  induction log generalizing v with
  | nil => simp [Coherent]
  | cons e log ih => simp [Coherent, ih, and_assoc]

instance instDecidableCoherent [∀ v e, Decidable (p.fits v e)] :
    ∀ v log, Decidable (p.Coherent v log)
  | _, [] => inferInstanceAs (Decidable True)
  | v, e :: log =>
      have := instDecidableCoherent (p.apply v e) log
      inferInstanceAs (Decidable (p.fits v e ∧ p.Coherent (p.apply v e) log))

/-- The log is coherent from one view on and leads to the other. -/
structure Reads (v : σ) (log : List ε) (v' : σ) : Prop where
  coherent : p.Coherent v log
  fold : p.fold v log = v'

/-- The log is coherent from the first view on, and its last view shows the record. -/
structure Follows (shows' : ρ → σ → Prop) (v : σ) (log : List ε) (record : ρ) : Prop where
  coherent : p.Coherent v log
  last : shows' record (p.fold v log)

variable {p} {shows' : ρ → σ → Prop} {v v' v₁ v₂ : σ} {log log' : List ε} {record record' : ρ}

theorem Reads.nil (v : σ) : p.Reads v [] v := ⟨trivial, rfl⟩

theorem Reads.single {e : ε} (h : p.fits v e) : p.Reads v [e] (p.apply v e) := ⟨⟨h, trivial⟩, rfl⟩

theorem Reads.append (h : p.Reads v log v₁) (h' : p.Reads v₁ log' v₂) :
    p.Reads v (log ++ log') v₂ := by
  obtain ⟨hcoherent, rfl⟩ := h
  obtain ⟨hcoherent', rfl⟩ := h'
  exact ⟨p.coherent_append.mpr ⟨hcoherent, hcoherent'⟩, p.fold_append v log log'⟩

/-- A projection whose events carry those of another one. -/
theorem Reads.of_map {δ : Type} {q : Projection δ σ} {of : δ → ε → Prop} {parts : List δ}
    (hof : List.Forall₂ of parts log)
    (happly : ∀ {d e}, of d e → ∀ v, p.apply v e = q.apply v d ∧ (q.fits v d → p.fits v e))
    (h : q.Reads v parts v') : p.Reads v log v' := by
  obtain ⟨hcoherent, rfl⟩ := h
  induction hof generalizing v with
  | nil => exact .nil v
  | cons hd _ ih =>
    obtain ⟨hfits, hrest⟩ := hcoherent
    obtain ⟨heq, himp⟩ := happly hd v
    obtain ⟨hcoherent', hfold⟩ := ih (v := p.apply v _) (heq ▸ hrest)
    exact ⟨⟨himp hfits, hcoherent'⟩, by rw [fold_cons, hfold, heq, fold_cons]⟩

/-- A change of the record that its events tell keeps the record behind its log. -/
theorem Follows.append (h : p.Follows shows' v log record)
    (hstep : ∀ view, shows' record view → ∃ view', p.Reads view log' view' ∧ shows' record' view') :
    p.Follows shows' v (log ++ log') record' := by
  obtain ⟨view', ⟨hcoherent, rfl⟩, hlast⟩ := hstep _ h.last
  refine ⟨p.coherent_append.mpr ⟨h.coherent, hcoherent⟩, ?_⟩
  rwa [p.fold_append]

theorem Follows.mono {shows'' : ρ → σ → Prop} (h : p.Follows shows' v log record)
    (himp : ∀ view, shows' record view → shows'' record' view) :
    p.Follows shows'' v log record' :=
  ⟨h.coherent, himp _ h.last⟩

end Projection
end AiKanban.EventSourcing
