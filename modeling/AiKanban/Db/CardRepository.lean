import Mathlib.Data.List.Sort
import AiKanban.Db.Store

/-!
# The card repository

Both dialects issue the same statements but for the next ticket number: SQLite
reads the greatest id, PostgreSQL asks a sequence, which is an input of the
environment because it takes no part in transactions.
-/
namespace AiKanban.Db

open Domain Relational Transactions

/-- One draw from the environment: a clock reading, a fresh uuid and the next
value of the ticket sequence. A caller uses the one it asked for. -/
structure Tick where
  now : Instant
  id : Uuid
  ticket : ℕ
  deriving DecidableEq

abbrev Tx := Program Store Write DomainError Tick

def clockNow : Tx Instant := do return (← .input).now
def newId : Tx Uuid := do return (← .input).id

inductive Dialect where
  | sqlite | postgres
  deriving DecidableEq

def danglingReference : DomainError := .constraint "FOREIGN KEY"
def uniqueViolation : DomainError := .constraint "UNIQUE"

/-- `ORDER BY` a key, ascending; rows with equal keys keep their order. -/
def ascendingBy {ρ α : Type} [LE α] [DecidableLE α] (key : ρ → α) (rows : List ρ) : List ρ :=
  rows.insertionSort fun a b => key a ≤ key b

/-- Newest first on an instant and, within one instant, on the uuid. -/
def newestFirst {ρ : Type} (time : ρ → Instant) (id : ρ → Uuid) (rows : List ρ) : List ρ :=
  rows.insertionSort fun a b => time b < time a ∨ time b = time a ∧ id b ≤ id a

@[simp] theorem mem_ascendingBy {ρ α : Type} [LE α] [DecidableLE α] {key : ρ → α}
    {rows : List ρ} {r : ρ} : r ∈ ascendingBy key rows ↔ r ∈ rows :=
  (List.perm_insertionSort _ rows).mem_iff

@[simp] theorem mem_newestFirst {ρ : Type} {time : ρ → Instant} {id : ρ → Uuid} {rows : List ρ}
    {r : ρ} : r ∈ newestFirst time id rows ↔ r ∈ rows :=
  (List.perm_insertionSort _ rows).mem_iff

@[simp] theorem length_newestFirst {ρ : Type} {time : ρ → Instant} {id : ρ → Uuid}
    {rows : List ρ} : (newestFirst time id rows).length = rows.length :=
  List.length_insertionSort ..

theorem pairwise_ascendingBy {ρ α : Type} [LE α] [DecidableLE α] [Std.Total fun a b : α => a ≤ b]
    [IsTrans α fun a b => a ≤ b] (key : ρ → α) (rows : List ρ) :
    (ascendingBy key rows).Pairwise fun a b => key a ≤ key b :=
  have : Std.Total fun a b : ρ => key a ≤ key b :=
    ⟨fun a b => total_of (fun a b : α => a ≤ b) (key a) (key b)⟩
  have : IsTrans ρ fun a b => key a ≤ key b :=
    ⟨fun a b c => trans_of (fun a b : α => a ≤ b) (a := key a) (b := key b) (c := key c)⟩
  List.pairwise_insertionSort _ rows

theorem pairwise_newestFirst {ρ : Type} (time : ρ → Instant) (id : ρ → Uuid) (rows : List ρ) :
    (newestFirst time id rows).Pairwise fun a b =>
      time b < time a ∨ time b = time a ∧ id b ≤ id a := by
  have : Std.Total fun a b : ρ => time b < time a ∨ time b = time a ∧ id b ≤ id a := by
    refine ⟨fun a b => ?_⟩
    rcases lt_trichotomy (time a) (time b) with h | h | h
    · exact .inr (.inl h)
    · exact (le_total (id b) (id a)).imp (fun hid => .inr ⟨h.symm, hid⟩) fun hid => .inr ⟨h, hid⟩
    · exact .inl (.inl h)
  have : IsTrans ρ fun a b => time b < time a ∨ time b = time a ∧ id b ≤ id a := by
    refine ⟨fun a b c => ?_⟩
    rintro (hab | ⟨hab, hid⟩) (hbc | ⟨hbc, hid'⟩)
    · exact .inl (hbc.trans hab)
    · exact .inl (hbc ▸ hab)
    · exact .inl (hab ▸ hbc)
    · exact .inr ⟨hbc.trans hab, hid'.trans hid⟩
  exact List.pairwise_insertionSort _ rows

/-- The newest row is no older than any other one. -/
theorem head?_newestFirst {ρ : Type} {time : ρ → Instant} {id : ρ → Uuid} {rows : List ρ} {r : ρ}
    (h : (newestFirst time id rows).head? = some r) :
    r ∈ rows ∧ ∀ x ∈ rows, time x < time r ∨ time x = time r ∧ id x ≤ id r := by
  have hsorted := pairwise_newestFirst time id rows
  have hmem : ∀ x, x ∈ newestFirst time id rows ↔ x ∈ rows := fun _ => mem_newestFirst
  cases hlist : newestFirst time id rows with
  | nil =>
    rw [hlist] at h
    cases h
  | cons head rest =>
    rw [hlist] at h hsorted hmem
    cases h
    refine ⟨(hmem r).mp (List.mem_cons_self ..), fun x hx => ?_⟩
    rcases List.mem_cons.mp ((hmem x).mpr hx) with rfl | hx
    · exact .inr ⟨rfl, le_rfl⟩
    · exact (List.pairwise_cons.mp hsorted).1 x hx

/-- A row added to rows with distinct ids is the newest one or leaves the newest one. -/
theorem head?_newestFirst_concat {ρ : Type} {time : ρ → Instant} {id : ρ → Uuid} {rows : List ρ}
    (hids : ∀ a ∈ rows, ∀ b ∈ rows, id a = id b → a = b) (x : ρ) :
    (newestFirst time id (rows ++ [x])).head? = some x ∨
      (newestFirst time id (rows ++ [x])).head? = (newestFirst time id rows).head? := by
  have hmem : x ∈ newestFirst time id (rows ++ [x]) := by simp
  obtain ⟨r, hr⟩ : ∃ r, (newestFirst time id (rows ++ [x])).head? = some r :=
    ⟨_, List.head?_eq_some_head (List.ne_nil_of_mem hmem)⟩
  obtain ⟨hin, hnewest⟩ := head?_newestFirst hr
  rcases List.mem_append.mp hin with hold | hnew
  · right
    have hmem' : r ∈ newestFirst time id rows := mem_newestFirst.mpr hold
    obtain ⟨r', hr'⟩ : ∃ r', (newestFirst time id rows).head? = some r' :=
      ⟨_, List.head?_eq_some_head (List.ne_nil_of_mem hmem')⟩
    obtain ⟨hin', hnewest'⟩ := head?_newestFirst hr'
    have hid : id r = id r' := by
      rcases hnewest r' (List.mem_append_left _ hin') with hlt | ⟨hsame, hle⟩
      · rcases hnewest' r hold with hlt' | ⟨hsame, -⟩
        · exact absurd hlt' (lt_asymm hlt)
        · exact absurd hsame hlt.ne'
      · rcases hnewest' r hold with hlt | ⟨-, hle'⟩
        · exact absurd hsame hlt.ne'
        · exact le_antisymm hle' hle
    rw [hr, hr', hids r hold r' hin' hid]
  · left
    rw [hr, List.mem_singleton.mp hnew]

namespace CardRepository

def findById (id : ℕ) : Tx (Option Card) := selectKey id

/-- `MAX(id)`, or 0 when there are no cards. -/
def maxId (cards : List Card) : ℕ := (cards.map (·.id)).foldl max 0

def nextCardId : Dialect → Tx ℕ
  | .sqlite => .read fun v => maxId v.cards.rows + 1
  | .postgres => do return (← .input).ticket

/-- The unique key a new card violates: its lane position, or else its id. -/
def insertViolation (card : Card) (v : Store) : DomainError :=
  if v.cards.rows.any fun c => c.laneId == card.laneId && c.position == card.position then
    .duplicatePosition
  else uniqueViolation

def insert (card : Card) : Tx Unit := insertRow card (insertViolation card) danglingReference

/-- `UPDATE cards SET (every column) WHERE id`; `base` is the row the caller spread. -/
def update (base next : Card) : Tx Unit :=
  updateRow base next (.notFound "card") .duplicatePosition danglingReference

def laneRows (v : Store) (laneId : Uuid) : List Card :=
  ascendingBy (·.position) (v.cards.rows.filter fun c => c.laneId == laneId)

def listByLane (laneId : Uuid) (activeOnly : Bool) : Tx (List Card) :=
  .read fun v => (laneRows v laneId).filter fun c => !activeOnly || c.archivedAt.isNone

def countActiveByLane (laneId : Uuid) : Tx ℕ :=
  .read fun v => v.cards.rows.countP fun c => c.laneId == laneId && c.archivedAt.isNone

inductive Edge where
  | first | last
  deriving DecidableEq

def edgeOfLane (laneId : Uuid) : Edge → Tx (Option Card)
  | .first => .read fun v => (laneRows v laneId).head?
  | .last => .read fun v => (laneRows v laneId).getLast?

/-- The closest occupied position before `nextPosition`, the moving card left out. -/
def positionBefore (laneId : Uuid) (nextPosition : Option String) (movingCardId : ℕ) :
    Tx (Option String) :=
  .read fun v =>
    (((laneRows v laneId).filter fun c =>
      c.id != movingCardId && nextPosition.all fun p => decide (c.position < p)).getLast?).map
      (·.position)

/-- The facets the card services filter on. -/
structure CardQueryFilter where
  boardId : Option Uuid := none
  laneId : Option Uuid := none
  overdueBefore : Option Day := none

def CardQueryFilter.matches (filter : CardQueryFilter) (card : Card) : Bool :=
  card.archivedAt.isNone && filter.boardId.all (· == card.boardId) &&
    filter.laneId.all (· == card.laneId) &&
    filter.overdueBefore.all fun day => card.expectedResumeAt.any fun d => decide (d < day)

/-- Newest-first on the creation time, then on the id; archived rows are left out. -/
def query (filter : CardQueryFilter) : Tx (List Card) :=
  .read fun v => newestFirst (·.createdAt) (·.id) (v.cards.rows.filter filter.matches)

/-- Deletes the card and every row that refers to it, children first. -/
def hardDelete (id : ℕ) : Tx (List Uuid) := do
  let found ← findById id
  let _ ← Program.require found (.notFound "card")
  let keys ← .read fun v =>
    (v.attachments.rows.filter fun a => a.cardId == id).map (·.storageKey)
  deleteWhere fun r : CardTag => r.cardId == id
  deleteWhere fun r : Comment => r.cardId == id
  deleteWhere fun r : Attachment => r.cardId == id
  deleteWhere fun r : CardEvent => r.cardId == id
  deleteWhere fun r : CardRelation => r.fromCardId == id || r.toCardId == id
  deleteWhere fun r : CardWatcher => r.cardId == id
  deleteWhere fun r : Notification => r.cardId == id
  deleteWhere fun r : Card => r.id == id
  return keys

end CardRepository
end AiKanban.Db
