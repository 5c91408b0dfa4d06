import AiKanban.Services.Internal
import AiKanban.Transactions.Alone

/-!
# Concurrent units of work on Postgres

A unit of work is one READ COMMITTED transaction there. Its writes lock the rows they touch and
the unique keys they enter or leave, until the transaction ends.
-/
namespace AiKanban.Relational

namespace RowWrite

variable {ρ κ : Type} [Row ρ κ]

/-- The row versions a write leaves or makes. -/
def versions : RowWrite ρ → List ρ
  | .insert row => [row]
  | .update base next => [base, next]
  | .delete row => [row]

/-- The writes touch one row, or one unique key. -/
def conflicts (a b : RowWrite ρ) : Bool :=
  a.versions.any fun x => b.versions.any fun y => Row.clash x y

end RowWrite
end AiKanban.Relational

namespace AiKanban.Db

open Domain Relational Services Transactions

def Write.conflicts : Write → Write → Bool
  | .users a, .users b => a.conflicts b
  | .boards a, .boards b => a.conflicts b
  | .boardDefaults a, .boardDefaults b => a.conflicts b
  | .groups a, .groups b => a.conflicts b
  | .lanes a, .lanes b => a.conflicts b
  | .locations a, .locations b => a.conflicts b
  | .boardPolicies a, .boardPolicies b => a.conflicts b
  | .cards a, .cards b => a.conflicts b
  | .tags a, .tags b => a.conflicts b
  | .cardTags a, .cardTags b => a.conflicts b
  | .comments a, .comments b => a.conflicts b
  | .attachments a, .attachments b => a.conflicts b
  | .cardEvents a, .cardEvents b => a.conflicts b
  | .sessions a, .sessions b => a.conflicts b
  | .serviceTokens a, .serviceTokens b => a.conflicts b
  | .oauthAuthorizationCodes a, .oauthAuthorizationCodes b => a.conflicts b
  | .oauthAccessTokens a, .oauthAccessTokens b => a.conflicts b
  | .oauthRefreshTokens a, .oauthRefreshTokens b => a.conflicts b
  | .cardRelations a, .cardRelations b => a.conflicts b
  | .cardWatchers a, .cardWatchers b => a.conflicts b
  | .notifications a, .notifications b => a.conflicts b
  | _, _ => false

instance : Engine Store Write DomainError where
  conflicts := Write.conflicts
  retryable := isDuplicatePosition

/-- Transactions of the Postgres unit of work, each in its own session. -/
abbrev PgConfig (κ α : Type) := Config κ Store Write DomainError Tick α

/-- The first call and the second, both started and neither with a statement run. -/
def concurrently {α : Type} (first second : Attempts α) (s : Store) (inputs : ℕ → Tick) :
    PgConfig Bool α where
  committed := s
  sessions second? := .ready (if second? then second.first :: second.rest
    else first.first :: first.rest)
  inputs := inputs
  drawn := 0

/-- A turn at an insert: it waits, it fails, or the row goes in. -/
theorem step_insertRow {κ α ρ ι : Type} [DecidableEq κ] [Fintype κ] [DecidableEq ι] [Row ρ ι]
    [HasTable Store Write ρ] {c : PgConfig κ α} {k : κ} {row : ρ} {onClash : Store → DomainError}
    {onDangling : DomainError} {next : Unit → Tx α} {log : List Write} {rest : List (Tx α)}
    (hk : c.sessions k = .active (insertRow row onClash onDangling >>= next) log rest) :
    c.step k = c ∨ (∃ e, c.step k = c.set k (Config.afterFailure e rest)) ∨
      (HasTable.table (c.view log)).accepts row = true ∧
        c.step k = c.set k (.active (next ()) (log ++ [HasTable.wrap Store (.insert row)]) rest) := by
  rcases Config.step_stmt hk with hidle | ⟨e, -, hfail⟩ | ⟨ws, hws, hwrite⟩
  · exact .inl hidle
  · exact .inr (.inl ⟨e, hfail⟩)
  · refine .inr (.inr ?_)
    split_ifs at hws with haccepts
    cases hws
    exact ⟨by simpa using haccepts, hwrite⟩

end AiKanban.Db
