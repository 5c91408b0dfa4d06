import AiKanban.Relational.Table
import AiKanban.Transactions.Contract

/-!
# SQL statements over a store of tables

A store keeps the rows of each type in one table. A statement checks the unique
and foreign keys against the view it sees and then logs one write per row it
touches. An update also logs the row its caller started from, which SQL ignores.
-/
namespace AiKanban.Relational

open Transactions

inductive RowWrite (ρ : Type) where
  | insert (row : ρ)
  | update (base next : ρ)
  | delete (row : ρ)

namespace Table

variable {ρ κ : Type} [Row ρ κ] [DecidableEq κ]

def write (t : Table ρ) : RowWrite ρ → Table ρ
  | .insert row => t.insert row
  | .update _ next => t.update next
  | .delete row => t.remove fun x => decide (Row.key x = Row.key row)

@[simp] theorem write_insert (t : Table ρ) (row : ρ) : t.write (.insert row) = t.insert row := rfl

@[simp] theorem write_update (t : Table ρ) (base next : ρ) :
    t.write (.update base next) = t.update next := rfl

/-- Deleting one by one the rows a condition selects removes the selected rows. -/
theorem rows_foldl_delete (t : Table ρ) (p : ρ → Bool) :
    (((t.rows.filter p).map .delete).foldl write t).rows = t.rows.filter fun r => !p r := by
  suffices h : ∀ (rows : List ρ) (u : Table ρ),
      ((rows.map .delete).foldl write u).rows =
        u.rows.filter fun x => decide (∀ row ∈ rows, Row.key x ≠ Row.key row) by
    rw [h]
    refine List.filter_congr fun x hx => ?_
    cases hp : p x with
    | true =>
      refine decide_eq_false fun hall => hall x ?_ rfl
      exact List.mem_filter.mpr ⟨hx, hp⟩
    | false =>
      refine decide_eq_true fun row hrow hk => ?_
      obtain ⟨hmem, hrowp⟩ := List.mem_filter.mp hrow
      rw [← eq_of_key hx hmem hk, hp] at hrowp
      cases hrowp
  intro rows
  induction rows with
  | nil => intro u; simp
  | cons row rows ih =>
    intro u
    rw [List.map_cons, List.foldl_cons, ih]
    simp only [write, remove, List.filter_filter]
    refine List.filter_congr fun x _ => ?_
    by_cases hk : Row.key x = Row.key row <;> simp [hk]

theorem foldl_delete (t : Table ρ) (p : ρ → Bool) :
    ((t.rows.filter p).map .delete).foldl write t = t.remove p :=
  ext (rows_foldl_delete t p)

/-- Updating one by one rows of the table, on columns no unique constraint mentions. -/
theorem rows_foldl_update {f : ρ → ρ} (hkey : ∀ r : ρ, Row.key (f r) = Row.key r)
    (hclash : ∀ a b : ρ, Row.clash (f a) b = Row.clash a b) (rows : List ρ) (t : Table ρ)
    (hmem : ∀ r ∈ rows, r ∈ t.rows) (hkeys : (rows.map Row.key).Nodup) :
    ((rows.map fun r => RowWrite.update r (f r)).foldl write t).rows =
      t.rows.map fun x => if Row.key x ∈ rows.map Row.key then f x else x := by
  induction rows generalizing t with
  | nil => simp
  | cons r rows ih =>
    obtain ⟨hr, hrows⟩ := List.nodup_cons.mp hkeys
    have hrt := hmem r (by simp)
    have haccepts : t.acceptsUpdate (f r) = true :=
      acceptsUpdate_of_clash hrt (hkey r) (hclash r)
    have hmem' : ∀ x ∈ rows, x ∈ (t.update (f r)).rows := by
      intro x hx
      rw [rows_update haccepts]
      refine List.mem_map.mpr ⟨x, hmem x (by simp [hx]), if_neg fun hk => hr ?_⟩
      rw [hkey] at hk
      exact hk ▸ List.mem_map_of_mem hx
    rw [List.map_cons, List.foldl_cons, write_update, ih _ hmem' hrows, rows_update haccepts,
      List.map_map]
    refine List.map_congr_left fun x hx => ?_
    simp only [Function.comp_apply, hkey, List.map_cons, List.mem_cons]
    by_cases hk : Row.key x = Row.key r
    · rw [if_pos hk, if_neg (by rwa [hkey]), if_pos (.inl hk), eq_of_key hx hrt hk]
    · simp [hk]

/-- Updating the rows a condition selects rewrites the selected rows. -/
theorem rows_foldl_updateWhere {f : ρ → ρ} (hkey : ∀ r : ρ, Row.key (f r) = Row.key r)
    (hclash : ∀ a b : ρ, Row.clash (f a) b = Row.clash a b) (t : Table ρ) (p : ρ → Bool) :
    (((t.rows.filter p).map fun r => RowWrite.update r (f r)).foldl write t).rows =
      t.rows.map fun x => if p x then f x else x := by
  have hkeys : ((t.rows.filter p).map Row.key).Nodup := by
    refine List.pairwise_map.mpr ((t.distinct.filter p).imp fun {a b} hab hk => ?_)
    rw [Row.clash_of_key a b hk] at hab
    cases hab
  rw [rows_foldl_update hkey hclash _ t (fun r hr => (List.mem_filter.mp hr).1) hkeys]
  refine List.map_congr_left fun x hx => ?_
  have hiff : Row.key x ∈ (t.rows.filter p).map Row.key ↔ p x = true := by
    constructor
    · intro h
      obtain ⟨r, hr, hk⟩ := List.mem_map.mp h
      obtain ⟨hrt, hrp⟩ := List.mem_filter.mp hr
      rwa [eq_of_key hx hrt hk.symm]
    · exact fun h => List.mem_map_of_mem (List.mem_filter.mpr ⟨hx, h⟩)
  simp only [hiff]

end Table

/-- The store keeps the rows of type `ρ` in one table. -/
class HasTable (σ : Type) (ω : outParam Type) [Replay σ ω] (ρ : Type) {κ : outParam Type}
    [Row ρ κ] [DecidableEq κ] where
  table : σ → Table ρ
  put : σ → Table ρ → σ
  wrap : RowWrite ρ → ω
  /-- Every row the given one refers to is there. -/
  references : σ → ρ → Bool
  apply_wrap : ∀ s w, Replay.apply s (wrap w) = put s ((table s).write w)
  table_put : ∀ s t, table (put s t) = t
  put_put : ∀ s t u, put (put s t) u = put s u
  put_table : ∀ s, put s (table s) = s

section statements

variable {σ ω ε ι ρ κ : Type} [Replay σ ω] [Row ρ κ] [DecidableEq κ] [HasTable σ ω ρ]

/-- `SELECT … WHERE key = k` -/
def selectKey (k : κ) : Program σ ω ε ι (Option ρ) :=
  .read fun v => (HasTable.table v).find? k

/-- `SELECT … WHERE p` -/
def selectWhere (p : ρ → Bool) : Program σ ω ε ι (List ρ) :=
  .read fun v => (HasTable.table v).rows.filter p

def insertRow (row : ρ) (onClash : σ → ε) (onDangling : ε) : Program σ ω ε ι Unit :=
  .write fun v =>
    if (HasTable.table v).accepts row = false then .error (onClash v)
    else if HasTable.references v row = false then .error onDangling
    else .ok [HasTable.wrap σ (.insert row)]

/-- `INSERT … ON CONFLICT DO NOTHING` -/
def insertOrIgnore (row : ρ) (onDangling : ε) : Program σ ω ε ι Unit :=
  .write fun v =>
    if HasTable.references v row = false then .error onDangling
    else .ok [HasTable.wrap σ (.insert row)]

/-- `INSERT … ON CONFLICT (key) DO UPDATE` -/
def upsertRow (row : ρ) (onDangling : ε) : Program σ ω ε ι Unit :=
  .write fun v =>
    if HasTable.references v row = false then .error onDangling
    else match (HasTable.table v : Table ρ).find? (Row.key row) with
      | some base => .ok [HasTable.wrap σ (.update base row)]
      | none => .ok [HasTable.wrap σ (.insert row)]

/-- `UPDATE … SET (every column of next) WHERE key = next.key` -/
def updateRow (base next : ρ) (onMissing onClash onDangling : ε) : Program σ ω ε ι Unit :=
  .write fun v =>
    if ((HasTable.table v : Table ρ).find? (Row.key next)).isNone then .error onMissing
    else if (HasTable.table v).acceptsUpdate next = false then .error onClash
    else if HasTable.references v next = false then .error onDangling
    else .ok [HasTable.wrap σ (.update base next)]

/-- `UPDATE … SET (what f changes) WHERE key = k` -/
def modifyRow (k : κ) (f : ρ → ρ) (onMissing onClash onDangling : ε) : Program σ ω ε ι Unit :=
  .write fun v =>
    match (HasTable.table v : Table ρ).find? k with
    | none => .error onMissing
    | some row =>
        if (HasTable.table v).acceptsUpdate (f row) = false then .error onClash
        else if HasTable.references v (f row) = false then .error onDangling
        else .ok [HasTable.wrap σ (.update row (f row))]

/-- `UPDATE … SET (what f changes) WHERE p`, on columns under no constraint. -/
def modifyWhere (p : ρ → Bool) (f : ρ → ρ) : Program σ ω ε ι Unit :=
  .write fun v =>
    .ok (((HasTable.table v).rows.filter p).map fun row => HasTable.wrap σ (.update row (f row)))

/-- `DELETE … WHERE p` -/
def deleteWhere (p : ρ → Bool) : Program σ ω ε ι Unit :=
  .write fun v => .ok (((HasTable.table v).rows.filter p).map fun row => HasTable.wrap σ (.delete row))

/-- Writes to one table are replayed on that table. -/
theorem replay_wrap (s : σ) (ws : List (RowWrite ρ)) :
    replay s (ws.map (HasTable.wrap σ)) =
      HasTable.put s (ws.foldl Table.write (HasTable.table s : Table ρ)) := by
  induction ws generalizing s with
  | nil => exact (HasTable.put_table s).symm
  | cons w ws ih =>
    rw [List.map_cons, replay_cons, ih, HasTable.apply_wrap, HasTable.table_put, HasTable.put_put,
      List.foldl_cons]

/-- `DELETE … WHERE p` leaves the other rows, in their order. -/
theorem replay_delete (s : σ) (p : ρ → Bool) :
    replay s (((HasTable.table s).rows.filter p).map fun row => HasTable.wrap σ (.delete row)) =
      HasTable.put s ((HasTable.table s : Table ρ).remove p) := by
  rw [← Table.foldl_delete, ← replay_wrap, List.map_map]
  rfl

@[simp] theorem runs_selectKey_iff {k : κ} {r : Option ρ} {w w' : World σ ι} :
    Runs (selectKey k : Program σ ω ε ι (Option ρ)) w r w' ↔
      r = (HasTable.table w.store).find? k ∧ w' = w :=
  runs_read_iff

@[simp] theorem runs_selectWhere_iff {p : ρ → Bool} {rs : List ρ} {w w' : World σ ι} :
    Runs (selectWhere p : Program σ ω ε ι (List ρ)) w rs w' ↔
      rs = (HasTable.table w.store).rows.filter p ∧ w' = w :=
  runs_read_iff

@[simp] theorem runs_insertRow_iff {row : ρ} {c : σ → ε} {d : ε} {u : Unit} {w w' : World σ ι} :
    Runs (insertRow row c d : Program σ ω ε ι Unit) w u w' ↔
      (HasTable.table w.store).accepts row = true ∧ HasTable.references w.store row = true ∧
        w' = w.withStore (HasTable.put w.store ((HasTable.table w.store).insert row)) := by
  unfold insertRow
  rw [runs_write_iff]
  split_ifs with h h' <;> simp_all [HasTable.apply_wrap]

@[simp] theorem runs_insertOrIgnore_iff {row : ρ} {d : ε} {u : Unit} {w w' : World σ ι} :
    Runs (insertOrIgnore row d : Program σ ω ε ι Unit) w u w' ↔
      HasTable.references w.store row = true ∧
        w' = w.withStore (HasTable.put w.store ((HasTable.table w.store).insert row)) := by
  unfold insertOrIgnore
  rw [runs_write_iff]
  split_ifs with h <;> simp_all [HasTable.apply_wrap]

@[simp] theorem runs_updateRow_iff {base next : ρ} {m c d : ε} {u : Unit} {w w' : World σ ι} :
    Runs (updateRow base next m c d : Program σ ω ε ι Unit) w u w' ↔
      (∃ row, (HasTable.table w.store : Table ρ).find? (Row.key next) = some row) ∧
        (HasTable.table w.store).acceptsUpdate next = true ∧
        HasTable.references w.store next = true ∧
        w' = w.withStore (HasTable.put w.store ((HasTable.table w.store).update next)) := by
  unfold updateRow
  rw [runs_write_iff]
  cases hf : (HasTable.table w.store : Table ρ).find? (Row.key next) with
  | none => simp
  | some row => split_ifs with h h' h'' <;> simp_all [HasTable.apply_wrap]

@[simp] theorem runs_modifyRow_iff {k : κ} {f : ρ → ρ} {m c d : ε} {u : Unit} {w w' : World σ ι} :
    Runs (modifyRow k f m c d : Program σ ω ε ι Unit) w u w' ↔
      ∃ row, (HasTable.table w.store : Table ρ).find? k = some row ∧
        (HasTable.table w.store).acceptsUpdate (f row) = true ∧
        HasTable.references w.store (f row) = true ∧
        w' = w.withStore (HasTable.put w.store ((HasTable.table w.store).update (f row))) := by
  unfold modifyRow
  rw [runs_write_iff]
  cases hf : (HasTable.table w.store : Table ρ).find? k with
  | none => simp
  | some row => simp only; split_ifs with h h' <;> simp_all [HasTable.apply_wrap]

@[simp] theorem runs_modifyWhere_iff {p : ρ → Bool} {f : ρ → ρ} {u : Unit} {w w' : World σ ι} :
    Runs (modifyWhere p f : Program σ ω ε ι Unit) w u w' ↔
      w' = w.withStore (HasTable.put w.store
        ((((HasTable.table w.store).rows.filter p).map fun row => .update row (f row)).foldl
          Table.write (HasTable.table w.store))) := by
  rw [← replay_wrap, List.map_map]
  simp [modifyWhere, Function.comp_def]

@[simp] theorem runs_deleteWhere_iff {p : ρ → Bool} {u : Unit} {w w' : World σ ι} :
    Runs (deleteWhere p : Program σ ω ε ι Unit) w u w' ↔
      w' = w.withStore (HasTable.put w.store ((HasTable.table w.store).remove p)) := by
  rw [← replay_delete]
  simp [deleteWhere]

/-- An upsert leaves the rows that were there, but for the one it replaces, and its own. -/
theorem runs_upsertRow {row : ρ} {d : ε} {u : Unit} {w w' : World σ ι}
    (h : Runs (upsertRow row d : Program σ ω ε ι Unit) w u w') :
    ∃ t : Table ρ, w' = w.withStore (HasTable.put w.store t) ∧
      ∀ x ∈ t.rows, x ∈ (HasTable.table w.store : Table ρ).rows ∨ x = row := by
  unfold upsertRow at h
  rw [runs_write_iff] at h
  obtain ⟨log, hlog, rfl⟩ := h
  split_ifs at hlog
  cases hf : (HasTable.table w.store : Table ρ).find? (Row.key row) with
  | none =>
    simp only [hf] at hlog
    cases hlog
    refine ⟨_, congrArg w.withStore (HasTable.apply_wrap _ _), fun x hx => ?_⟩
    exact (Table.mem_insert.mp hx).imp id And.right
  | some base =>
    simp only [hf] at hlog
    cases hlog
    exact ⟨_, congrArg w.withStore (HasTable.apply_wrap _ _), fun x hx => Table.mem_update hx⟩

section writes

variable {W : ω → Prop}

@[simp] theorem writes_selectKey (k : κ) :
    Program.Writes W (selectKey k : Program σ ω ε ι (Option ρ)) :=
  Program.writes_read _

@[simp] theorem writes_selectWhere (p : ρ → Bool) :
    Program.Writes W (selectWhere p : Program σ ω ε ι (List ρ)) :=
  Program.writes_read _

theorem writes_insertRow {row : ρ} {c : σ → ε} {d : ε} (h : W (HasTable.wrap σ (.insert row))) :
    Program.Writes W (insertRow row c d : Program σ ω ε ι Unit) := by
  refine Program.writes_write fun v ws hws w hw => ?_
  split_ifs at hws
  cases hws
  rwa [List.mem_singleton.mp hw]

theorem writes_insertOrIgnore {row : ρ} {d : ε} (h : W (HasTable.wrap σ (.insert row))) :
    Program.Writes W (insertOrIgnore row d : Program σ ω ε ι Unit) := by
  refine Program.writes_write fun v ws hws w hw => ?_
  split_ifs at hws
  cases hws
  rwa [List.mem_singleton.mp hw]

theorem writes_upsertRow {row : ρ} {d : ε} (hi : W (HasTable.wrap σ (.insert row)))
    (hu : ∀ base, Row.key base = Row.key row → W (HasTable.wrap σ (.update base row))) :
    Program.Writes W (upsertRow row d : Program σ ω ε ι Unit) := by
  refine Program.writes_write fun v ws hws w hw => ?_
  cases hf : (HasTable.table v : Table ρ).find? (Row.key row) with
  | none =>
    simp only [hf] at hws
    split_ifs at hws
    cases hws
    rwa [List.mem_singleton.mp hw]
  | some base =>
    simp only [hf] at hws
    split_ifs at hws
    cases hws
    rw [List.mem_singleton.mp hw]
    exact hu base (Table.find?_key hf)

theorem writes_updateRow {base next : ρ} {m c d : ε}
    (h : W (HasTable.wrap σ (.update base next))) :
    Program.Writes W (updateRow base next m c d : Program σ ω ε ι Unit) := by
  refine Program.writes_write fun v ws hws w hw => ?_
  split_ifs at hws
  cases hws
  rwa [List.mem_singleton.mp hw]

theorem writes_modifyRow {k : κ} {f : ρ → ρ} {m c d : ε}
    (h : ∀ row, Row.key row = k → W (HasTable.wrap σ (.update row (f row)))) :
    Program.Writes W (modifyRow k f m c d : Program σ ω ε ι Unit) := by
  refine Program.writes_write fun v ws hws w hw => ?_
  cases hf : (HasTable.table v : Table ρ).find? k with
  | none => simp [hf] at hws
  | some row =>
    simp only [hf] at hws
    split_ifs at hws
    cases hws
    rw [List.mem_singleton.mp hw]
    exact h row (Table.find?_key hf)

theorem writes_modifyWhere {p : ρ → Bool} {f : ρ → ρ}
    (h : ∀ row, p row = true → W (HasTable.wrap σ (.update row (f row)))) :
    Program.Writes W (modifyWhere p f : Program σ ω ε ι Unit) := by
  refine Program.writes_write fun v ws hws w hw => ?_
  cases hws
  obtain ⟨row, hrow, rfl⟩ := List.mem_map.mp hw
  exact h row (List.mem_filter.mp hrow).2

theorem writes_deleteWhere {p : ρ → Bool}
    (h : ∀ row, p row = true → W (HasTable.wrap σ (.delete row))) :
    Program.Writes W (deleteWhere p : Program σ ω ε ι Unit) := by
  refine Program.writes_write fun v ws hws w hw => ?_
  cases hws
  obtain ⟨row, hrow, rfl⟩ := List.mem_map.mp hw
  exact h row (List.mem_filter.mp hrow).2

/-- An insert under a contract logs its row. -/
theorem meets_insertRow {rely : List ω → σ → Prop} {guar : List ω → ω → Prop}
    {post : Except ε Unit → List ω → Prop} {log : List ω} {row : ρ} {c : σ → ε} {d : ε}
    (herr : ∀ e, post (.error e) log) (hguar : guar log (HasTable.wrap σ (.insert row)))
    (hok : post (.ok ()) (log ++ [HasTable.wrap σ (.insert row)])) :
    Program.Meets rely guar post (insertRow row c d : Program σ ω ε ι Unit) log := by
  refine Program.meets_write (fun _ e _ _ => herr e) fun v ws _ hws => ?_
  split_ifs at hws
  cases hws
  refine ⟨fun w hw => ?_, hok⟩
  rwa [List.mem_singleton.mp hw]

end writes
end statements
end AiKanban.Relational
