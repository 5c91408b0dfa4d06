import AiKanban.Invariants.Dossier

/-!
# The order of the log

Events are stamped with ids drawn one after the other, so their append order is the order of
their ids wherever ids drawn later are greater, as time-ordered uuids are.
-/
namespace AiKanban.Invariants

open Domain Db Relational Services Transactions Effects
open Application

/-- Ids drawn later are greater. -/
def IdsIncrease (inputs : ℕ → Tick) : Prop := ∀ i j, i < j → (inputs i).id < (inputs j).id

/-- Every event has a greater id than those before it. -/
def IdOrdered (log : List CardEvent) : Prop := log.Pairwise fun a b => a.id < b.id

/-- The stored events carry stamps drawn so far, in append order. -/
structure StampedLog (inputs : ℕ → Tick) (w : World Store Tick) : Prop where
  source : w.inputs = inputs
  stamped : Stamped inputs 0 w.store.cardEvents.rows w.drawn

variable {w w' : World Store Tick} {inputs : ℕ → Tick}

theorem StampedLog.append {events : List CardEvent} (h : StampedLog inputs w)
    (hlog : w'.store.cardEvents.rows = w.store.cardEvents.rows ++ events)
    (hstamped : Stamped w.inputs w.drawn events w'.drawn) (hinputs : w'.inputs = w.inputs) :
    StampedLog inputs w' := by
  refine ⟨hinputs.trans h.source, ?_⟩
  rw [h.source] at hstamped
  rw [hlog]
  exact h.stamped.append hstamped

theorem StampedLog.frame (h : StampedLog inputs w)
    (hlog : List.Sublist w'.store.cardEvents.rows w.store.cardEvents.rows)
    (hinputs : w'.inputs = w.inputs) (hdrawn : w.drawn ≤ w'.drawn) : StampedLog inputs w' :=
  ⟨hinputs.trans h.source, (h.stamped.sublist hlog).widen le_rfl hdrawn⟩

theorem stampedLog_effect [Platform] {op : Operation} (h : StampedLog inputs w)
    (heffect : Effect w w' op) : StampedLog inputs w' := by
  have hsame : w.store.SameTable .cardEvents w'.store →
      List.Sublist w'.store.cardEvents.rows w.store.cardEvents.rows := by
    intro hsame
    rw [show w'.store.cardEvents = w.store.cardEvents from hsame]
  cases heffect with
  | untouched he _ => exact h.frame (hsame (he.frame .cardEvents (by decide))) he.inputs he.drawn
  | created he => exact h.append he.log he.stamped he.inputs
  | changed he => exact h.append he.rewritten.log he.rewritten.stamped he.rewritten.inputs
  | discarded _ he =>
    refine h.frame ?_ he.inputs he.drawn
    rw [he.cardEvents]
    exact List.filter_sublist
  | alerted he => exact h.frame (hsame (he.frame .cardEvents (by decide))) he.inputs he.drawn
  | noted he => exact h.append he.log he.stamped he.inputs
  | related _ _ he | unrelated _ he => exact h.frame (by rw [he.store]) he.inputs he.drawn
  | unlocated _ _ he =>
    exact h.frame (hsame (he.frame .cardEvents (by decide) (by decide))) he.inputs he.drawn

theorem stampedLog_run [Platform] (inputs : ℕ → Tick) (ops : List Operation) :
    StampedLog inputs (run (freshlySeeded inputs) ops) := by
  refine run_invariant (I := StampedLog inputs) (P := fun _ _ => True) (fun _ _ _ _ _ => trivial)
    (fun _ _ _ _ => trivial) (fun _ _ _ hw _ heffect => stampedLog_effect hw heffect) ops ?_
    (runsUnder_true ops)
  refine ⟨(transact_inputs structuralSeed ⟨{}, inputs, 0⟩).1, ?_⟩
  rw [freshlySeeded_cardEvents]
  exact Nat.zero_le _

theorem Stamped.idOrdered {lo hi : ℕ} {log : List CardEvent} (hids : IdsIncrease inputs)
    (h : Stamped inputs lo log hi) :
    IdOrdered log ∧ ∀ e ∈ log, ∃ i, lo ≤ i ∧ e.id = (inputs i).id := by
  induction log generalizing lo with
  | nil => exact ⟨.nil, by simp⟩
  | cons e log ih =>
    obtain ⟨i, hi, hid, -, hlog⟩ := h
    obtain ⟨hordered, hdrawn⟩ := ih hlog
    refine ⟨List.pairwise_cons.mpr ⟨fun e' he' => ?_, hordered⟩, fun e' he' => ?_⟩
    · obtain ⟨j, hj, hid'⟩ := hdrawn e' he'
      rw [hid, hid']
      exact hids i j (by omega)
    · rcases List.mem_cons.mp he' with rfl | he'
      · exact ⟨i, hi, hid⟩
      · obtain ⟨j, hj, hid'⟩ := hdrawn e' he'
        exact ⟨j, by omega, hid'⟩

/-- The events of a card are in the order of their ids. -/
theorem idOrdered_eventsOf [Platform] (hids : IdsIncrease inputs) (ops : List Operation)
    (cardId : ℕ) : IdOrdered (eventsOf (run (freshlySeeded inputs) ops).store cardId) :=
  (Stamped.idOrdered hids (stampedLog_run inputs ops).stamped).1.sublist List.filter_sublist

section newest

/-- Of two events, the one with the later time, and the second one when the times are equal. -/
def newerOf (e : CardEvent) : Option CardEvent → CardEvent
  | none => e
  | some e' => if e'.createdAt < e.createdAt then e else e'

/-- In a log ordered by ids, ids only break ties in favor of the later event. -/
theorem head?_newestFirst_cons {e : CardEvent} {log : List CardEvent} (h : IdOrdered (e :: log)) :
    (newestFirst (·.createdAt) (·.id) (e :: log)).head? =
      some (newerOf e (newestFirst (·.createdAt) (·.id) log).head?) := by
  have hmem : ∀ e' ∈ newestFirst (·.createdAt) (·.id) log, e.id < e'.id := fun e' he' =>
    (List.pairwise_cons.mp h).1 e' (mem_newestFirst.mp he')
  unfold newestFirst at hmem ⊢
  rw [List.insertionSort_cons]
  cases hsorted : List.insertionSort (fun a b : CardEvent =>
      b.createdAt < a.createdAt ∨ b.createdAt = a.createdAt ∧ b.id ≤ a.id) log with
  | nil => rfl
  | cons e' rest =>
    have hlt : e.id < e'.id := hmem e' (by rw [hsorted]; simp)
    change _ = some (if e'.createdAt < e.createdAt then e else e')
    rw [List.orderedInsert_cons]
    by_cases hnewer : e'.createdAt < e.createdAt
    · simp [hnewer]
    · have hnot : ¬ (e'.createdAt < e.createdAt ∨ e'.createdAt = e.createdAt ∧ e'.id ≤ e.id) := by
        rintro (h | ⟨-, h⟩)
        · exact hnewer h
        · exact absurd hlt (not_lt.mpr h)
      rw [if_neg hnewer, if_neg hnot]
      rfl

/-- A log in append order by time, and by id within one time. -/
def AppendOrdered (log : List CardEvent) : Prop :=
  log.Pairwise fun a b => a.createdAt < b.createdAt ∨ a.createdAt = b.createdAt ∧ a.id < b.id

/-- The newest event of a log in append order is its last one. -/
theorem head?_newestFirst_append {older : List CardEvent} {e : CardEvent}
    (h : AppendOrdered (older ++ [e])) :
    (newestFirst (·.createdAt) (·.id) (older ++ [e])).head? = some e := by
  have hmem : e ∈ newestFirst (·.createdAt) (·.id) (older ++ [e]) := by simp
  rw [List.head?_eq_some_head (List.ne_nil_of_mem hmem)]
  obtain ⟨hin, hnewest⟩ := head?_newestFirst (List.head?_eq_some_head (List.ne_nil_of_mem hmem))
  generalize (newestFirst (·.createdAt) (·.id) (older ++ [e])).head _ = newest at hin hnewest
  rcases List.mem_append.mp hin with hold | hlast
  · exfalso
    have hbefore := (List.pairwise_append.mp h).2.2 newest hold e (by simp)
    rcases hnewest e (by simp) with hlt | ⟨hsame, hle⟩
    · rcases hbefore with hlt' | ⟨heq, -⟩
      · exact lt_asymm hlt hlt'
      · exact hlt.ne' heq
    · rcases hbefore with hlt | ⟨-, hlt⟩
      · exact hlt.ne' hsame
      · exact not_lt.mpr hle hlt
  · rw [List.mem_singleton.mp hlast]

end newest
end AiKanban.Invariants
