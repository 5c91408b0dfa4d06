import AiKanban.Effects.Rewrites

/-!
# Which tables a body writes

A body confined to some tables leaves every other table as it was, whether it
succeeds or is rolled back.
-/
namespace AiKanban.Effects

open Domain Db Policy Relational Services Transactions Program

/-- Every write of the body is to one of the named tables. -/
structure Confined {α : Type} (names : List TableName) (p : Tx α) : Prop where
  writes : p.Writes fun x => x.tableName ∈ names

section frame

variable {α : Type} {names : List TableName} {name : TableName} {p : Tx α}
  {w w' : World Store Tick}

theorem Confined.mono {names' : List TableName} (h : Confined names p)
    (hsub : ∀ n ∈ names, n ∈ names') : Confined names' p :=
  ⟨h.writes.mono fun _ hx => hsub _ hx⟩

theorem sameTable_of_confined {a : α} (h : Runs p w a w') (hp : Confined names p)
    (hname : name ∉ names) : w.store.SameTable name w'.store := by
  obtain ⟨log, hlog, hs⟩ := h.of_writes hp.writes
  rw [hs]
  exact sameTable_replay _ fun x hx he => hname (he ▸ hlog x hx)

theorem sameTable_of_store {s s' : Store} (h : s' = s) : s.SameTable name s' := by
  cases h
  exact .refl name s

/-- A unit of work leaves every table alone that its body does not write. -/
theorem transact_sameTable (hp : Confined names p) (hname : name ∉ names)
    (w : World Store Tick) : w.store.SameTable name (transact p w).2.store := by
  rcases ht : transact p w with ⟨e | a, w'⟩
  · exact sameTable_of_store (transact_error ht)
  · exact sameTable_of_confined (transact_ok_iff.mp ht) hp hname

end frame

section confined

variable {names : List TableName}

theorem confined_readsOnly {α : Type} {p : Tx α} (h : p.ReadsOnly) : Confined names p :=
  ⟨h.writes⟩

theorem confined_bind {α β : Type} {p : Tx α} {f : α → Tx β} (hp : Confined names p)
    (hf : ∀ a, Confined names (f a)) : Confined names (p >>= f) :=
  ⟨hp.writes.bind fun a => (hf a).writes⟩

/-- A read before the rest of a body. -/
theorem confined_reads {α β : Type} {p : Tx α} {f : α → Tx β} (hp : p.ReadsOnly)
    (hf : ∀ a, Confined names (f a)) : Confined names (p >>= f) :=
  confined_bind (confined_readsOnly hp) hf

/-- A check of a value before the rest of a body. -/
theorem confined_ofExcept {α β : Type} {value : Except DomainError α} {f : α → Tx β}
    (hf : ∀ a, Confined names (f a)) : Confined names (.ofExcept value >>= f) :=
  confined_reads (readsOnly_ofExcept _) hf

section statements

variable {ρ κ : Type} [Row ρ κ] [DecidableEq κ] [HasTable Store Write ρ]

theorem confined_insertRow {row : ρ} {c : Store → DomainError} {d : DomainError}
    (h : (HasTable.wrap Store (.insert row)).tableName ∈ names) :
    Confined names (insertRow row c d : Tx Unit) :=
  ⟨writes_insertRow h⟩

theorem confined_modifyRow {k : κ} {f : ρ → ρ} {m c d : DomainError}
    (h : ∀ row, (HasTable.wrap Store (.update row (f row))).tableName ∈ names) :
    Confined names (modifyRow k f m c d : Tx Unit) :=
  ⟨writes_modifyRow fun row _ => h row⟩

theorem confined_modifyWhere {p : ρ → Bool} {f : ρ → ρ}
    (h : ∀ row, (HasTable.wrap Store (.update row (f row))).tableName ∈ names) :
    Confined names (modifyWhere p f : Tx Unit) :=
  ⟨writes_modifyWhere fun row _ => h row⟩

theorem confined_deleteWhere {p : ρ → Bool}
    (h : ∀ row : ρ, (HasTable.wrap Store (.delete row)).tableName ∈ names) :
    Confined names (deleteWhere p : Tx Unit) :=
  ⟨writes_deleteWhere fun row _ => h row⟩

end statements

theorem confined_forEach {α : Type} {body : α → Tx Unit} (h : ∀ a, Confined names (body a))
    (as : List α) : Confined names (forEach body as) :=
  ⟨writes_forEach (fun a => (h a).writes) as⟩

theorem confined_pure {α : Type} (a : α) : Confined names (Pure.pure a : Tx α) :=
  ⟨writes_pure a⟩

theorem confined_clockNow : Confined names clockNow :=
  ⟨writes_input.bind fun _ => writes_pure _⟩

theorem confined_newId : Confined names newId :=
  ⟨writes_input.bind fun _ => writes_pure _⟩

theorem confined_makeEvent (actor : Actor) (cardId : ℕ) (body : CardEventBody) :
    Confined names (makeEvent actor cardId body) :=
  confined_bind confined_newId fun _ => confined_bind confined_clockNow fun _ => confined_pure _

theorem confined_forPresent {α : Type} {value : Option α} {body : α → Tx Unit}
    (h : ∀ a, Confined names (body a)) : Confined names (CardService.forPresent value body) := by
  cases value with
  | none => exact confined_pure _
  | some a => exact h a

theorem confined_watch (h : TableName.cardWatchers ∈ names) (cardId : ℕ) (userId : Uuid)
    (createdAt : Instant) : Confined names (CardWatcherRepository.add cardId userId createdAt) :=
  ⟨writes_insertOrIgnore h⟩

theorem confined_assign (h : TableName.cardWatchers ∈ names) (deps : CardServiceDeps)
    (card : Card) (assigneeId : Option Uuid) :
    Confined names (CardService.assign deps card assigneeId) :=
  confined_forPresent fun _ => confined_reads (readsOnly_requireAssignable _ _ _) fun _ =>
    confined_bind confined_clockNow fun _ => confined_watch h _ _ _

variable [Platform]

theorem confined_resolveTag (h : TableName.tags ∈ names) (acc : ResolvedTags) (name : String) :
    Confined names (resolveTag acc name) := by
  simp only [resolveTag]
  split
  · exact confined_pure _
  · refine confined_reads (readsOnly_read _) fun found => ?_
    cases found with
    | some existing => exact confined_pure _
    | none =>
      exact confined_bind confined_newId fun _ =>
        confined_bind (confined_insertRow h) fun _ => confined_pure _

end confined
end AiKanban.Effects
