import Mathlib.Data.List.Pairwise
import Mathlib.Tactic

/-!
# Tables with unique constraints

A row type fixes its primary key and when two rows clash on some unique
constraint; the primary key is one of them. A table is a list of pairwise
non-clashing rows, so no state violates a unique index. The writes are total:
a row that would clash leaves the table as it is.
-/
namespace AiKanban.Relational

class Row (ρ : Type) (κ : outParam Type) where
  key : ρ → κ
  clash : ρ → ρ → Bool
  clash_symm : ∀ a b, clash a b = clash b a
  clash_of_key : ∀ a b, key a = key b → clash a b = true

/-- A row type whose only unique constraint is its key. -/
@[reducible] def Row.unique {ρ κ : Type} [DecidableEq κ] (key : ρ → κ) : Row ρ κ where
  key := key
  clash a b := decide (key a = key b)
  clash_symm a b := by simp only [eq_comm]
  clash_of_key a b h := decide_eq_true h

/-- A row type with a second unique key. -/
@[reducible] def Row.uniqueAlso {ρ κ α : Type} [DecidableEq κ] [DecidableEq α] (key : ρ → κ)
    (alternate : ρ → α) : Row ρ κ where
  key := key
  clash a b := decide (key a = key b) || decide (alternate a = alternate b)
  clash_symm a b := by simp only [eq_comm]
  clash_of_key a b h := by simp [h]

structure Table (ρ : Type) {κ : Type} [Row ρ κ] where
  rows : List ρ
  distinct : rows.Pairwise fun a b => Row.clash a b = false

namespace Table

variable {ρ κ : Type} [Row ρ κ]

@[ext] theorem ext {t u : Table ρ} (h : t.rows = u.rows) : t = u := by
  cases t; cases u; cases h; rfl

def empty : Table ρ := ⟨[], .nil⟩

instance : Inhabited (Table ρ) := ⟨empty⟩

theorem eq_of_key {t : Table ρ} {a b : ρ} (ha : a ∈ t.rows) (hb : b ∈ t.rows)
    (hk : Row.key a = Row.key b) : a = b := by
  by_contra hne
  have hsymm : Std.Symm fun a b : ρ => Row.clash a b = false :=
    ⟨fun a b h => (Row.clash_symm b a).trans h⟩
  have hc := t.distinct.forall ha hb hne
  rw [Row.clash_of_key a b hk] at hc
  cases hc

theorem nodup (t : Table ρ) : t.rows.Nodup := by
  refine t.distinct.imp fun {a b} hclash hsame => ?_
  rw [hsame, Row.clash_of_key b b rfl] at hclash
  cases hclash

theorem keys_nodup (t : Table ρ) : (t.rows.map Row.key).Nodup := by
  refine List.pairwise_map.mpr (t.distinct.imp fun {a b} hclash hkey => ?_)
  rw [Row.clash_of_key a b hkey] at hclash
  cases hclash

/-- No unique constraint stands against a new row. -/
def accepts (t : Table ρ) (r : ρ) : Bool := t.rows.all fun x => !Row.clash r x

def insert (t : Table ρ) (r : ρ) : Table ρ :=
  if h : t.accepts r = true then
    ⟨t.rows ++ [r], by
      refine List.pairwise_append.mpr ⟨t.distinct, List.pairwise_singleton _ _, ?_⟩
      intro a ha b hb
      rw [List.mem_singleton.mp hb, Row.clash_symm]
      simpa using List.all_eq_true.mp h a ha⟩
  else t

/-- `DELETE … WHERE p`. -/
def remove (t : Table ρ) (p : ρ → Bool) : Table ρ :=
  ⟨t.rows.filter fun r => !p r, t.distinct.filter _⟩

/-- `UPDATE … SET` on columns that no unique constraint mentions. -/
def amend (t : Table ρ) (f : ρ → ρ) (hf : ∀ a b : ρ, Row.clash (f a) (f b) = Row.clash a b) :
    Table ρ :=
  ⟨t.rows.map f, List.pairwise_map.mpr (t.distinct.imp fun {a b} h => (hf a b).trans h)⟩

theorem rows_insert {t : Table ρ} {r : ρ} (h : t.accepts r = true) :
    (t.insert r).rows = t.rows ++ [r] := by
  simp [insert, h]

theorem insert_eq_self {t : Table ρ} {r : ρ} (h : t.accepts r = false) : t.insert r = t := by
  simp [insert, h]

theorem mem_insert {t : Table ρ} {r x : ρ} :
    x ∈ (t.insert r).rows ↔ x ∈ t.rows ∨ t.accepts r = true ∧ x = r := by
  by_cases h : t.accepts r = true
  · simp [rows_insert h, h]
  · simp [insert_eq_self (Bool.eq_false_iff.mpr h), h]

/-- A row that joins a table does not show where it does not belong. -/
theorem filter_insert {t : Table ρ} {r : ρ} {p : ρ → Bool}
    (hp : p r = false) : (t.insert r).rows.filter p = t.rows.filter p := by
  cases h : t.accepts r with
  | false => rw [insert_eq_self h]
  | true => simp [rows_insert h, List.filter_append, hp]

@[simp] theorem mem_remove {t : Table ρ} {p : ρ → Bool} {x : ρ} :
    x ∈ (t.remove p).rows ↔ x ∈ t.rows ∧ p x = false := by
  simp [remove]

@[simp] theorem rows_amend (t : Table ρ) (f : ρ → ρ)
    (hf : ∀ a b : ρ, Row.clash (f a) (f b) = Row.clash a b) :
    (t.amend f hf).rows = t.rows.map f := rfl

variable [DecidableEq κ]

def find? (t : Table ρ) (k : κ) : Option ρ := t.rows.find? fun r => Row.key r = k

/-- No unique constraint stands against rewriting the row with the same key. -/
def acceptsUpdate (t : Table ρ) (r : ρ) : Bool :=
  t.rows.all fun x => decide (Row.key x = Row.key r) || !Row.clash r x

def update (t : Table ρ) (r : ρ) : Table ρ :=
  if h : t.acceptsUpdate r = true then
    ⟨t.rows.map fun x => if Row.key x = Row.key r then r else x, by
      have hother : ∀ x ∈ t.rows, Row.key x ≠ Row.key r → Row.clash r x = false := by
        intro x hx hne
        simpa [hne] using List.all_eq_true.mp h x hx
      refine List.pairwise_map.mpr (t.distinct.imp_of_mem ?_)
      intro a b ha hb hab
      split_ifs with hka hkb hkb
      · have hc := Row.clash_of_key a b (hka.trans hkb.symm)
        rw [hab] at hc
        cases hc
      · exact hother b hb hkb
      · rw [Row.clash_symm]
        exact hother a ha hka
      · exact hab⟩
  else t

theorem find?_eq_some_iff {t : Table ρ} {k : κ} {r : ρ} :
    t.find? k = some r ↔ r ∈ t.rows ∧ Row.key r = k := by
  constructor
  · intro h
    exact ⟨List.mem_of_find?_eq_some h, by simpa using List.find?_some h⟩
  · rintro ⟨hr, hk⟩
    cases h : t.find? k with
    | none => simpa [hk] using List.find?_eq_none.mp h r hr
    | some x =>
      have hxk : Row.key x = k := by simpa using List.find?_some h
      rw [eq_of_key (List.mem_of_find?_eq_some h) hr (hxk.trans hk.symm)]

theorem find?_eq_none_iff {t : Table ρ} {k : κ} :
    t.find? k = none ↔ ∀ r ∈ t.rows, Row.key r ≠ k := by
  simp [find?]

theorem find?_key {t : Table ρ} {k : κ} {r : ρ} (h : t.find? k = some r) : Row.key r = k :=
  (find?_eq_some_iff.mp h).2

theorem mem_of_find? {t : Table ρ} {k : κ} {r : ρ} (h : t.find? k = some r) : r ∈ t.rows :=
  (find?_eq_some_iff.mp h).1

theorem find?_of_mem {t : Table ρ} {r : ρ} (h : r ∈ t.rows) : t.find? (Row.key r) = some r :=
  find?_eq_some_iff.mpr ⟨h, rfl⟩

/-- Two tables agree on a key when they hold the same rows under it. -/
theorem find?_congr {t u : Table ρ} {k : κ}
    (h : ∀ r, Row.key r = k → (r ∈ t.rows ↔ r ∈ u.rows)) : t.find? k = u.find? k := by
  ext r
  rw [find?_eq_some_iff, find?_eq_some_iff]
  constructor
  · rintro ⟨hr, hk⟩
    exact ⟨(h r hk).mp hr, hk⟩
  · rintro ⟨hr, hk⟩
    exact ⟨(h r hk).mpr hr, hk⟩

theorem rows_update {t : Table ρ} {r : ρ} (h : t.acceptsUpdate r = true) :
    (t.update r).rows = t.rows.map fun x => if Row.key x = Row.key r then r else x := by
  simp [update, h]

/-- A rewrite changes a count by what it does to the row. -/
theorem countP_update {t : Table ρ} {row next : ρ} (p : ρ → Bool) (h : t.acceptsUpdate next = true)
    (hrow : row ∈ t.rows) (hkey : Row.key next = Row.key row) :
    (t.update next).rows.countP p + (if p row then 1 else 0) =
      t.rows.countP p + (if p next then 1 else 0) := by
  obtain ⟨before, after, hsplit⟩ := List.append_of_mem hrow
  have hkeys := t.keys_nodup
  rw [hsplit, List.map_append, List.map_cons, List.nodup_middle, ← List.map_append,
    List.nodup_cons] at hkeys
  have hother : ∀ x ∈ before ++ after, (if Row.key x = Row.key next then next else x) = x := by
    intro x hx
    refine if_neg fun hx' => hkeys.1 ?_
    rw [← hkey, ← hx']
    exact List.mem_map_of_mem hx
  have hrest : (before ++ after).map (fun x => if Row.key x = Row.key next then next else x) =
      before ++ after := (List.map_congr_left hother).trans (List.map_id' _)
  rw [List.map_append] at hrest
  obtain ⟨hbefore, hafter⟩ := List.append_inj hrest (by simp)
  rw [rows_update h, hsplit, List.map_append, List.map_cons, if_pos hkey.symm, hbefore, hafter]
  simp only [List.countP_append, List.countP_cons]
  omega

theorem update_eq_self {t : Table ρ} {r : ρ} (h : t.acceptsUpdate r = false) :
    t.update r = t := by
  simp [update, h]

/-- A row rewritten with its unique keys as they were stands against no constraint. -/
theorem acceptsUpdate_of_clash {t : Table ρ} {r r' : ρ} (hr : r ∈ t.rows)
    (hkey : Row.key r' = Row.key r) (hclash : ∀ x, Row.clash r' x = Row.clash r x) :
    t.acceptsUpdate r' = true := by
  refine List.all_eq_true.mpr fun x hx => ?_
  by_cases hk : Row.key x = Row.key r
  · simp [hkey, hk]
  · have hne : r ≠ x := fun h => hk (h ▸ rfl)
    have hsymm : Std.Symm fun a b : ρ => Row.clash a b = false :=
      ⟨fun a b h => (Row.clash_symm b a).trans h⟩
    simp [hclash, t.distinct.forall hr hx hne]

theorem mem_update {t : Table ρ} {r x : ρ} (h : x ∈ (t.update r).rows) : x ∈ t.rows ∨ x = r := by
  cases haccepts : t.acceptsUpdate r with
  | false =>
    rw [update_eq_self haccepts] at h
    exact .inl h
  | true =>
    rw [rows_update haccepts] at h
    obtain ⟨y, hy, rfl⟩ := List.mem_map.mp h
    split_ifs
    · exact .inr rfl
    · exact .inl hy

theorem mem_update_of_ne {t : Table ρ} {r x : ρ} (hx : x ∈ t.rows) (hkey : Row.key x ≠ Row.key r) :
    x ∈ (t.update r).rows := by
  cases haccepts : t.acceptsUpdate r with
  | false => rwa [update_eq_self haccepts]
  | true =>
    rw [rows_update haccepts]
    exact List.mem_map.mpr ⟨x, hx, if_neg hkey⟩

/-- A condition on the key selects the one row that has it. -/
theorem filter_key {t : Table ρ} {r : ρ} (h : r ∈ t.rows) :
    t.rows.filter (fun x => decide (Row.key x = Row.key r)) = [r] := by
  have hall : ∀ rows : List ρ, rows.Pairwise (fun a b => Row.clash a b = false) → r ∈ rows →
      rows.filter (fun x => decide (Row.key x = Row.key r)) = [r] := by
    intro rows
    induction rows with
    | nil => exact fun _ hr => absurd hr List.not_mem_nil
    | cons x rows ih =>
      intro hdistinct hr
      obtain ⟨hx, hrows⟩ := List.pairwise_cons.mp hdistinct
      have hne : ∀ y ∈ rows, Row.key x ≠ Row.key y := by
        intro y hy hk
        have hclash := hx y hy
        rw [Row.clash_of_key x y hk] at hclash
        cases hclash
      rcases List.mem_cons.mp hr with rfl | hr
      · have hnone : rows.filter (fun y => decide (Row.key y = Row.key r)) = [] := by
          refine List.filter_eq_nil_iff.mpr fun y hy => ?_
          simpa using (hne y hy).symm
        simp [hnone]
      · rw [List.filter_cons_of_neg (by simpa using hne r hr), ih hrows hr]
  exact hall t.rows t.distinct h

theorem find?_insert {t : Table ρ} {r : ρ} (h : t.accepts r = true) (k : κ) :
    (t.insert r).find? k = if Row.key r = k then some r else t.find? k := by
  by_cases hk : Row.key r = k
  · rw [if_pos hk]
    exact find?_eq_some_iff.mpr ⟨mem_insert.mpr (.inr ⟨h, rfl⟩), hk⟩
  · rw [if_neg hk]
    refine find?_congr fun x hx => ?_
    rw [mem_insert]
    constructor
    · rintro (hx' | ⟨-, rfl⟩)
      · exact hx'
      · exact absurd hx hk
    · exact .inl

/-- An accepted row was not there before. -/
theorem find?_of_accepts {t : Table ρ} {r : ρ} (h : t.accepts r = true) :
    t.find? (Row.key r) = none := by
  refine find?_eq_none_iff.mpr fun x hx hk => ?_
  have hc := List.all_eq_true.mp h x hx
  rw [Row.clash_of_key r x hk.symm] at hc
  cases hc

theorem find?_update {t : Table ρ} {r : ρ} (h : t.acceptsUpdate r = true) (k : κ) :
    (t.update r).find? k =
      if Row.key r = k then (t.find? k).map (fun _ => r) else t.find? k := by
  unfold find?
  rw [rows_update h, List.find?_map]
  by_cases hk : Row.key r = k
  · have hcomp : ((fun x : ρ => decide (Row.key x = k)) ∘
        fun x => if Row.key x = Row.key r then r else x) = fun x => decide (Row.key x = k) := by
      funext x
      by_cases hx : Row.key x = k <;> simp [hx, hk]
    rw [hcomp, if_pos hk]
    cases hf : t.rows.find? fun x => decide (Row.key x = k) with
    | none => rfl
    | some x =>
      have hx : Row.key x = k := by simpa using List.find?_some hf
      simp [hx, hk]
  · have hcomp : ((fun x : ρ => decide (Row.key x = k)) ∘
        fun x => if Row.key x = Row.key r then r else x) = fun x => decide (Row.key x = k) := by
      funext x
      by_cases hx : Row.key x = Row.key r <;> simp [hx, hk]
    rw [hcomp, if_neg hk]
    cases hf : t.rows.find? fun x => decide (Row.key x = k) with
    | none => rfl
    | some x =>
      have hx : Row.key x = k := by simpa using List.find?_some hf
      have hne : Row.key x ≠ Row.key r := fun h => hk (h ▸ hx)
      simp [hne]

theorem find?_update_ne {t : Table ρ} {r : ρ} {k : κ} (hk : Row.key r ≠ k) :
    (t.update r).find? k = t.find? k := by
  cases h : t.acceptsUpdate r with
  | false => rw [update_eq_self h]
  | true => rw [find?_update h, if_neg hk]

theorem find?_insert_ne {t : Table ρ} {r : ρ} {k : κ} (hk : Row.key r ≠ k) :
    (t.insert r).find? k = t.find? k := by
  cases h : t.accepts r with
  | false => rw [insert_eq_self h]
  | true => rw [find?_insert h, if_neg hk]

theorem find?_remove {t : Table ρ} {p : ρ → Bool} {k : κ} :
    (t.remove p).find? k = (t.find? k).filter fun r => !p r := by
  ext r
  simp only [find?_eq_some_iff, mem_remove, Option.filter_eq_some_iff, Bool.not_eq_true']
  tauto

/-- A rewritten row shows only where it did before. -/
theorem filter_update {t : Table ρ} (base : ρ) {r : ρ} {p : ρ → Bool}
    (hbase : t.find? (Row.key r) = some base) (hpb : p base = false) (hp : p r = false) :
    (t.update r).rows.filter p = t.rows.filter p := by
  cases h : t.acceptsUpdate r with
  | false => rw [update_eq_self h]
  | true =>
    rw [rows_update h]
    have hall : ∀ rows : List ρ, (∀ x ∈ rows, x ∈ t.rows) →
        (rows.map fun x => if Row.key x = Row.key r then r else x).filter p = rows.filter p := by
      intro rows
      induction rows with
      | nil => exact fun _ => rfl
      | cons x rows ih =>
        intro hmem
        have ih' := ih fun y hy => hmem y (List.mem_cons_of_mem x hy)
        rw [List.map_cons, List.filter_cons, List.filter_cons, ih']
        by_cases hk : Row.key x = Row.key r
        · have hx : x = base :=
            eq_of_key (hmem x (by simp)) (mem_of_find? hbase)
              (hk.trans (find?_key hbase).symm)
          rw [if_pos hk, hx, hp, hpb]
          rfl
        · rw [if_neg hk]
    exact hall t.rows fun _ hx => hx

end Table
end AiKanban.Relational
