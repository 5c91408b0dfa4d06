import AiKanban.Transitions.Runs
import Mathlib.Tactic

/-!
# The undo history

The web client keeps two stacks of performed actions. A call takes the top of one, awaits the
network, and puts the action on the other, or back when the network refuses; other calls may
come meanwhile.
-/
namespace AiKanban.Web

open Transitions

/-- An action of the history, known by its identity. -/
structure UndoableAction where
  ref : ℕ
  label : String

/-- What a call does, which is also the stack it takes from. -/
inductive Direction where
  | undo
  | redo
deriving DecidableEq

def Direction.other : Direction → Direction
  | .undo => .redo
  | .redo => .undo

/-- The stack a call ends on: the other one, or its own again after a failure. -/
def Direction.target (d : Direction) (succeeded : Bool) : Direction :=
  if succeeded then d.other else d

/-- The two stacks, the newest action first. -/
structure History where
  undoStack : List UndoableAction
  redoStack : List UndoableAction

namespace History

def on (s : History) : Direction → List UndoableAction
  | .undo => s.undoStack
  | .redo => s.redoStack

def put (s : History) (d : Direction) (actions : List UndoableAction) : History :=
  match d with
  | .undo => { s with undoStack := actions }
  | .redo => { s with redoStack := actions }

/-- A new action forks the history. -/
def pushAction (s : History) (action : UndoableAction) : History :=
  { undoStack := action :: s.undoStack, redoStack := [] }

/-- A call up to its await: it takes the newest action, if there is one. -/
def callLast (s : History) (d : Direction) : Option UndoableAction × History :=
  match s.on d with
  | [] => (none, s)
  | action :: rest => (some action, s.put d rest)

def undoLast (s : History) : Option UndoableAction × History := s.callLast .undo

def redoLast (s : History) : Option UndoableAction × History := s.callLast .redo

/-- A call after its await. -/
def settle (s : History) (d : Direction) (action : UndoableAction) (succeeded : Bool) : History :=
  s.put (d.target succeeded) (action :: s.on (d.target succeeded))

end History

/-- A call that awaits its action. -/
structure PendingCall where
  direction : Direction
  action : UndoableAction

/-- The history with the pending calls, and when things were asked for: an action to be undone,
an action to be performed (recording it counts), and the latest recording. -/
structure HistoryState where
  history : History
  pending : List PendingCall
  clock : ℕ
  calledAt : Direction → ℕ → ℕ
  pushedAt : ℕ

inductive HistoryEvent where
  | pushAction (label : String)
  | undoLast
  | redoLast
  /-- The pending call of this index hears from the network. -/
  | settle (index : ℕ) (succeeded : Bool)

namespace HistoryState

def start : HistoryState :=
  { history := ⟨[], []⟩, pending := [], clock := 1, calledAt := fun _ _ => 0, pushedAt := 0 }

/-- The time of a call is noted for its action. -/
def noted (x : HistoryState) (d : Direction) (ref : ℕ) : Direction → ℕ → ℕ :=
  fun e r => if e = d ∧ r = ref then x.clock else x.calledAt e r

def begun (x : HistoryState) (d : Direction) : Option UndoableAction × History → HistoryState
  | (none, _) => x
  | (some action, history) =>
      { x with
        history
        pending := x.pending ++ [⟨d, action⟩]
        clock := x.clock + 1
        calledAt := x.noted d action.ref }

def step (x : HistoryState) : HistoryEvent → HistoryState
  | .pushAction label =>
      { x with
        history := x.history.pushAction ⟨x.clock, label⟩
        clock := x.clock + 1
        calledAt := x.noted .redo x.clock
        pushedAt := x.clock }
  | .undoLast => x.begun .undo x.history.undoLast
  | .redoLast => x.begun .redo x.history.redoLast
  | .settle index succeeded =>
      match x.pending[index]? with
      | none => x
      | some call =>
          { x with
            history := x.history.settle call.direction call.action succeeded
            pending := x.pending.eraseIdx index }

/-- A redo list of the present branch, no action twice, and the undo list in order. -/
structure Consistent (x : HistoryState) : Prop where
  branch : ∀ a ∈ x.history.redoStack, x.pushedAt < x.calledAt .undo a.ref
  distinct : ((x.history.undoStack ++ x.history.redoStack).map (·.ref)).Nodup
  ordered : x.history.undoStack.Pairwise fun a b => x.calledAt .redo b.ref < x.calledAt .redo a.ref

/-- An action may come to a stack: to the redo stack if nothing was recorded since its undo was
asked for, to the undo stack if none of it was asked for later. -/
def Fits (x : HistoryState) (action : UndoableAction) : Direction → Prop
  | .redo => x.pushedAt < x.calledAt .undo action.ref
  | .undo => ∀ b ∈ x.history.undoStack, x.calledAt .redo b.ref < x.calledAt .redo action.ref

/-- No call settles behind a later one. -/
def InOrder (x : HistoryState) : HistoryEvent → Prop
  | .settle index succeeded => ∀ call, x.pending[index]? = some call →
      x.Fits call.action (call.direction.target succeeded)
  | _ => True

/-- Every action known to the history, wherever it is. -/
def refs (x : HistoryState) : List ℕ :=
  (x.history.undoStack ++ x.history.redoStack ++ x.pending.map (·.action)).map (·.ref)

/-- What holds in every state. -/
structure Wf (x : HistoryState) : Prop where
  nodup : x.refs.Nodup
  known : ∀ r ∈ x.refs, r < x.clock
  past : ∀ d r, x.calledAt d r < x.clock
  pushed : x.pushedAt < x.clock

variable {x : HistoryState} {d : Direction} {action : UndoableAction} {rest : List UndoableAction}

theorem mem_refs {a : UndoableAction}
    (h : a ∈ x.history.undoStack ++ x.history.redoStack ++ x.pending.map (·.action)) :
    a.ref ∈ x.refs :=
  List.mem_map_of_mem h

theorem noted_self (x : HistoryState) (d : Direction) (ref : ℕ) :
    x.noted d ref d ref = x.clock := by
  simp [noted]

theorem noted_of_ne {e : Direction} {ref r : ℕ} (h : e ≠ d ∨ r ≠ ref) :
    x.noted d ref e r = x.calledAt e r := by
  unfold noted
  rw [if_neg]
  rintro ⟨rfl, rfl⟩
  simp at h

theorem noted_lt (h : ∀ e r, x.calledAt e r < x.clock) (d : Direction) (ref : ℕ) (e : Direction)
    (r : ℕ) : x.noted d ref e r < x.clock + 1 := by
  unfold noted
  split_ifs
  · omega
  · have hcalled := h e r
    omega

/-- A call finds nothing, or it takes the newest action. -/
theorem begun_callLast (x : HistoryState) (d : Direction) :
    x.begun d (x.history.callLast d) = x ∨ ∃ action rest, x.history.on d = action :: rest ∧
      x.begun d (x.history.callLast d) = x.begun d (some action, x.history.put d rest) := by
  unfold History.callLast
  cases hlist : x.history.on d with
  | nil => exact Or.inl rfl
  | cons action rest => exact Or.inr ⟨action, rest, rfl, rfl⟩

section calls

variable (htop : x.history.on d = action :: rest)
include htop

theorem refs_begun : (x.begun d (some action, x.history.put d rest)).refs.Perm x.refs := by
  rw [List.perm_iff_count]
  intro r
  cases d with
  | undo =>
    have hundo : x.history.undoStack = action :: rest := htop
    simp [refs, begun, History.put, hundo, List.count_cons]
    omega
  | redo =>
    have hredo : x.history.redoStack = action :: rest := htop
    simp [refs, begun, History.put, hredo, List.count_cons]
    omega

theorem Wf.begun (h : x.Wf) : (x.begun d (some action, x.history.put d rest)).Wf where
  nodup := (refs_begun htop).nodup_iff.mpr h.nodup
  known r hr := (h.known r ((refs_begun htop).mem_iff.mp hr)).trans (Nat.lt_succ_self _)
  past := noted_lt h.past d action.ref
  pushed := h.pushed.trans (Nat.lt_succ_self _)

theorem Consistent.begun (hwf : x.Wf) (h : x.Consistent) :
    (x.begun d (some action, x.history.put d rest)).Consistent := by
  have hdistinct := h.distinct
  cases d with
  | undo =>
    have hundo : x.history.undoStack = action :: rest := htop
    rw [hundo] at hdistinct
    have hordered := h.ordered
    rw [hundo] at hordered
    refine ⟨fun a ha => ?_, (List.nodup_cons.mp hdistinct).2, ?_⟩
    · have hcalled := h.branch a ha
      have hpast := hwf.pushed
      change x.pushedAt < x.noted .undo action.ref .undo a.ref
      unfold noted
      split_ifs
      · exact hpast
      · exact hcalled
    · refine (List.pairwise_cons.mp hordered).2.imp fun {a b} hlt => ?_
      change x.noted .undo action.ref .redo b.ref < x.noted .undo action.ref .redo a.ref
      rw [noted_of_ne (Or.inl (by decide)), noted_of_ne (Or.inl (by decide))]
      exact hlt
  | redo =>
    have hredo : x.history.redoStack = action :: rest := htop
    rw [hredo, List.map_append, List.map_cons] at hdistinct
    have hapart := List.nodup_middle.mp hdistinct
    refine ⟨fun a ha => ?_, ?_, ?_⟩
    · change x.pushedAt < x.noted .redo action.ref .undo a.ref
      rw [noted_of_ne (Or.inl (by decide))]
      exact h.branch a (hredo ▸ List.mem_cons_of_mem _ ha)
    · change ((x.history.undoStack ++ rest).map (·.ref)).Nodup
      rw [List.map_append]
      exact (List.nodup_cons.mp hapart).2
    · refine h.ordered.imp_of_mem fun {a b} ha hb hlt => ?_
      have hne : ∀ c ∈ x.history.undoStack, c.ref ≠ action.ref := by
        rintro c hc heq
        refine (List.nodup_cons.mp hapart).1 (List.mem_append_left _ ?_)
        exact heq ▸ List.mem_map_of_mem hc
      change x.noted .redo action.ref .redo b.ref < x.noted .redo action.ref .redo a.ref
      rw [noted_of_ne (Or.inr (hne b hb)), noted_of_ne (Or.inr (hne a ha))]
      exact hlt

end calls

section recordings

variable (label : String)

theorem Wf.pushAction (h : x.Wf) : (x.step (.pushAction label)).Wf := by
  have hfresh : x.clock ∉ x.refs := fun hmem => absurd (h.known _ hmem) (lt_irrefl _)
  have hsub : (x.history.undoStack ++ [] ++ x.pending.map PendingCall.action).Sublist
      (x.history.undoStack ++ x.history.redoStack ++ x.pending.map PendingCall.action) :=
    ((List.Sublist.refl _).append (List.nil_sublist _)).append (List.Sublist.refl _)
  refine ⟨?_, fun r hr => ?_, noted_lt h.past _ _, Nat.lt_succ_self _⟩
  · exact List.nodup_cons.mpr
      ⟨fun hmem => hfresh ((hsub.map _).subset hmem), h.nodup.sublist (hsub.map _)⟩
  · rcases List.mem_cons.mp hr with rfl | hr
    · exact Nat.lt_succ_self _
    · exact (h.known r ((hsub.map _).subset hr)).trans (Nat.lt_succ_self _)

theorem Consistent.pushAction (hwf : x.Wf) (h : x.Consistent) :
    (x.step (.pushAction label)).Consistent := by
  have hold : ∀ c ∈ x.history.undoStack, c.ref < x.clock := fun c hc =>
    hwf.known _ (mem_refs (List.mem_append_left _ (List.mem_append_left _ hc)))
  have hsame : ∀ c ∈ x.history.undoStack,
      x.noted .redo x.clock .redo c.ref = x.calledAt .redo c.ref := fun c hc =>
    noted_of_ne (Or.inr (hold c hc).ne)
  refine ⟨fun a ha => absurd ha List.not_mem_nil, ?_, ?_⟩
  · have hnodup := (Wf.pushAction label hwf).nodup
    rw [refs, List.map_append] at hnodup
    exact (List.nodup_append.mp hnodup).1
  · refine List.pairwise_cons.mpr ⟨fun c hc => ?_, h.ordered.imp_of_mem fun {a b} ha hb hlt => ?_⟩
    · have hpast := hwf.past .redo c.ref
      change x.noted .redo x.clock .redo c.ref < x.noted .redo x.clock .redo x.clock
      rw [hsame c hc, noted_self]
      exact hpast
    · change x.noted .redo x.clock .redo b.ref < x.noted .redo x.clock .redo a.ref
      rw [hsame a ha, hsame b hb]
      exact hlt

end recordings

section settling

variable (succeeded : Bool) {index : ℕ} {call : PendingCall}
  (hcall : x.pending[index]? = some call)
include hcall

theorem step_settle : x.step (.settle index succeeded) =
    { x with
      history := x.history.settle call.direction call.action succeeded
      pending := x.pending.eraseIdx index } := by
  simp only [step, hcall]

theorem refs_settle : (x.step (.settle index succeeded)).refs.Perm x.refs := by
  obtain ⟨hlt, rfl⟩ := List.getElem?_eq_some_iff.mp hcall
  have hpending := 
    ((List.getElem_cons_eraseIdx_perm hlt).map fun c : PendingCall => c.action.ref).count_eq
  rw [step_settle succeeded hcall, List.perm_iff_count]
  intro r
  have hr := hpending r
  rw [List.map_cons, List.count_cons] at hr
  cases htarget : (x.pending[index].direction.target succeeded) with
  | undo =>
    simp only [refs, History.settle, htarget, History.put, History.on]
    simp only [List.map_append, List.map_cons, List.map_map, List.count_append, List.count_cons]
    simp only [Function.comp_def]
    omega
  | redo =>
    simp only [refs, History.settle, htarget, History.put, History.on]
    simp only [List.map_append, List.map_cons, List.map_map, List.count_append, List.count_cons]
    simp only [Function.comp_def]
    omega

theorem Wf.settle (h : x.Wf) : (x.step (.settle index succeeded)).Wf := by
  have hperm := refs_settle succeeded hcall
  have hknown : ∀ r ∈ (x.step (.settle index succeeded)).refs, r < x.clock :=
    fun r hr => h.known r (hperm.mem_iff.mp hr)
  have hnodup := hperm.nodup_iff.mpr h.nodup
  rw [step_settle succeeded hcall] at hnodup hknown ⊢
  exact ⟨hnodup, hknown, h.past, h.pushed⟩

/-- Settling keeps the history consistent exactly when the action fits. -/
theorem consistent_settle (hwf : x.Wf) (h : x.Consistent) :
    (x.step (.settle index succeeded)).Consistent ↔
      x.Fits call.action (call.direction.target succeeded) := by
  have hnodup := (Wf.settle succeeded hcall hwf).nodup
  rw [refs, List.map_append] at hnodup
  have hdistinct := (List.nodup_append.mp hnodup).1
  rw [step_settle succeeded hcall] at hdistinct ⊢
  cases htarget : call.direction.target succeeded with
  | undo =>
    simp only [History.settle, htarget, History.put, History.on] at hdistinct ⊢
    constructor
    · intro hnext
      exact (List.pairwise_cons.mp hnext.ordered).1
    · intro hfits
      exact ⟨h.branch, hdistinct, List.pairwise_cons.mpr ⟨hfits, h.ordered⟩⟩
  | redo =>
    simp only [History.settle, htarget, History.put, History.on] at hdistinct ⊢
    constructor
    · intro hnext
      exact hnext.branch _ List.mem_cons_self
    · intro hfits
      exact ⟨List.forall_mem_cons.mpr ⟨hfits, h.branch⟩, hdistinct, h.ordered⟩

end settling

theorem Wf.step (h : x.Wf) (event : HistoryEvent) : (x.step event).Wf := by
  have hcall : ∀ d, (x.begun d (x.history.callLast d)).Wf := by
    intro d
    rcases x.begun_callLast d with heq | ⟨action, rest, htop, heq⟩
    · rw [heq]
      exact h
    · rw [heq]
      exact h.begun htop
  cases event with
  | pushAction label => exact h.pushAction label
  | undoLast => exact hcall .undo
  | redoLast => exact hcall .redo
  | settle index succeeded =>
    cases hpending : x.pending[index]? with
    | none =>
      simp only [HistoryState.step, hpending]
      exact h
    | some call => exact Wf.settle succeeded hpending h

theorem Consistent.step_iff (hwf : x.Wf) (h : x.Consistent) (event : HistoryEvent) :
    (x.step event).Consistent ↔ x.InOrder event := by
  have hcall : ∀ d, (x.begun d (x.history.callLast d)).Consistent := by
    intro d
    rcases x.begun_callLast d with heq | ⟨action, rest, htop, heq⟩
    · rw [heq]
      exact h
    · rw [heq]
      exact Consistent.begun htop hwf h
  cases event with
  | pushAction label => exact iff_of_true (h.pushAction label hwf) trivial
  | undoLast => exact iff_of_true (hcall .undo) trivial
  | redoLast => exact iff_of_true (hcall .redo) trivial
  | settle index succeeded =>
    cases hpending : x.pending[index]? with
    | none =>
      simp only [HistoryState.step, InOrder, hpending]
      exact iff_of_true h fun call hcall => by cases hcall
    | some call =>
      rw [consistent_settle succeeded hpending hwf h, InOrder, hpending]
      constructor
      · rintro hfits _ ⟨⟩
        exact hfits
      · intro hfits
        exact hfits call rfl

theorem wf_start : start.Wf :=
  ⟨List.nodup_nil, fun _ hr => absurd hr List.not_mem_nil, fun _ _ => Nat.one_pos, Nat.one_pos⟩

theorem consistent_start : start.Consistent :=
  ⟨fun _ ha => absurd ha List.not_mem_nil, List.nodup_nil, List.Pairwise.nil⟩

/-- The history is consistent all along a run iff its calls settle in order. -/
theorem history_consistent_iff (events : List HistoryEvent) :
    (∀ before, before <+: events → (runAll step start before).Consistent) ↔
      Admitted step InOrder start events :=
  forall_prefix_iff (fun _ event h => h.step event) (fun _ event hwf h => h.step_iff hwf event)
    wf_start consistent_start

/-- An action recorded while another is being undone leaves the redo list on the old branch. -/
theorem redo_of_old_branch : ¬ (runAll step start
    [.pushAction "Move", .undoLast, .pushAction "Cancel", .settle 0 true]).Consistent := by
  intro h
  exact absurd (h.branch ⟨1, "Move"⟩ List.mem_cons_self) (by decide)

end HistoryState

end AiKanban.Web
