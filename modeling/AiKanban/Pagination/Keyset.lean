import Mathlib.Data.List.Pairwise
import Mathlib.Tactic

/-!
# Keyset pagination

A listing in a strict order of its keys is read one page at a time: a request asks for the
rows after a key, one more than the page holds, and the page names the key of its last row
when that one row came. Following the names gives the listing, whatever the page sizes are.
-/
namespace AiKanban.Pagination

variable {α β κ τ : Type}

/-- Items and, when there is more, the token that asks for the next page. -/
structure Page (α τ : Type) where
  items : List α
  nextCursor : Option τ
  deriving DecidableEq

def Page.map (f : α → β) (page : Page α τ) : Page β τ := ⟨page.items.map f, page.nextCursor⟩

def Page.mapCursor {σ : Type} (f : τ → σ) (page : Page α τ) : Page α σ :=
  ⟨page.items, page.nextCursor.map f⟩

/-- Slice what a request for one row more than the limit gave. -/
def slice (keyOf : α → κ) (limit : ℕ) (rows : List α) : Page α κ :=
  if limit < rows.length then ⟨rows.take limit, (rows.take limit).getLast?.map keyOf⟩
  else ⟨rows, none⟩

/-- The items of the pages, each fetched with the token of the one before, until a page has
no token. `none` when the rounds run out or a page does not come. -/
def collect (fetch : ℕ → Option τ → Option (Page α τ)) : ℕ → ℕ → Option τ → Option (List α)
  | 0, _, _ => none
  | rounds + 1, i, cursor => do
      let page ← fetch i cursor
      match page.nextCursor with
      | none => return page.items
      | some next => return page.items ++ (← collect fetch rounds (i + 1) (some next))

section slices

/-- A request for the rows that are left brings them all, or a first part and its last key. -/
theorem slice_take (keyOf : α → κ) (rows : List α) {limit : ℕ} (hlimit : 1 ≤ limit) :
    slice keyOf limit (rows.take (limit + 1)) = ⟨rows, none⟩ ∨
      ∃ front last back, rows = front ++ last :: back ∧ back ≠ [] ∧
        slice keyOf limit (rows.take (limit + 1)) = ⟨front ++ [last], some (keyOf last)⟩ := by
  unfold slice
  rw [List.length_take]
  by_cases hmore : limit < rows.length
  · right
    have hlt : limit < min (limit + 1) rows.length := by omega
    have hmin : min limit (limit + 1) = limit := by omega
    have hsplit : rows.take limit ++ rows.drop limit = rows := List.take_append_drop ..
    have hne : rows.take limit ≠ [] := by
      intro hnil
      have hlength := congrArg List.length hnil
      rw [List.length_take, List.length_nil] at hlength
      omega
    have hlast := List.dropLast_append_getLast hne
    refine ⟨(rows.take limit).dropLast, (rows.take limit).getLast hne, rows.drop limit, ?_, ?_, ?_⟩
    · rw [← List.singleton_append, ← List.append_assoc, hlast, hsplit]
    · intro hnil
      have hlength := congrArg List.length hnil
      rw [List.length_drop, List.length_nil] at hlength
      omega
    · rw [if_pos hlt, List.take_take, hmin, List.getLast?_eq_some_getLast hne, hlast, Option.map_some]
  · left
    have hnot : ¬ limit < min (limit + 1) rows.length := by omega
    rw [if_neg hnot, List.take_of_length_le (by omega)]

end slices

section following

variable {before : κ → κ → Prop} [DecidableRel before] {keyOf : α → κ} {rows : List α}

/-- The rows after a cursor; without one, all of them. -/
def after (before : κ → κ → Prop) [DecidableRel before] (keyOf : α → κ) (cursor : Option κ)
    (rows : List α) : List α :=
  rows.filter fun row => cursor.all fun key => decide (before key (keyOf row))

@[simp] theorem after_none : after before keyOf none rows = rows := by
  simp [after]

/-- In a strict order the rows after a row's key are those after the row. -/
theorem after_of_split (hirrefl : ∀ k, ¬ before k k) (hasymm : ∀ a b, before a b → ¬ before b a)
    {front back : List α} {row : α}
    (hsorted : (front ++ row :: back).Pairwise fun a b => before (keyOf a) (keyOf b)) :
    after before keyOf (some (keyOf row)) (front ++ row :: back) = back := by
  obtain ⟨-, hrow, hfront⟩ := List.pairwise_append.mp hsorted
  obtain ⟨hback, -⟩ := List.pairwise_cons.mp hrow
  unfold after
  rw [List.filter_append, List.filter_cons_of_neg (by simpa using hirrefl _)]
  have hnone : front.filter
      (fun a => (some (keyOf row)).all fun key => decide (before key (keyOf a))) = [] := by
    refine List.filter_eq_nil_iff.mpr fun a ha => ?_
    simpa using hasymm _ _ (hfront a ha row (List.mem_cons_self ..))
  have hall : back.filter
      (fun a => (some (keyOf row)).all fun key => decide (before key (keyOf a))) = back := by
    refine List.filter_eq_self.mpr fun a ha => ?_
    simpa using hback a ha
  rw [hnone, hall, List.nil_append]

/-- From the last key of a first part on, the pages bring the rest. -/
theorem collect_rest (hirrefl : ∀ k, ¬ before k k) (hasymm : ∀ a b, before a b → ¬ before b a)
    (hsorted : rows.Pairwise fun a b => before (keyOf a) (keyOf b)) {limit : ℕ → ℕ}
    (hlimit : ∀ i, 1 ≤ limit i) {token : κ → τ} {present : α → β}
    {fetch : ℕ → Option τ → Option (Page β τ)}
    (hfetch : ∀ i cursor, (∀ key ∈ cursor, ∃ row ∈ rows, key = keyOf row) →
      fetch i (cursor.map token) = some
        (((slice keyOf (limit i) ((after before keyOf cursor rows).take (limit i + 1))).mapCursor
          token).map present)) :
    ∀ (rounds i : ℕ) (front rest : List α) (cursor : Option κ), rows = front ++ rest →
      (∀ key ∈ cursor, ∃ row ∈ rows, key = keyOf row) → after before keyOf cursor rows = rest →
      rest.length < rounds →
      collect fetch rounds i (cursor.map token) = some (rest.map present) := by
  intro rounds
  induction rounds with
  | zero => exact fun _ _ _ _ _ _ _ hlt => absurd hlt (Nat.not_lt_zero _)
  | succ rounds ih =>
    intro i front rest cursor hrows hcursor hafter hlt
    have hpage := hfetch i cursor hcursor
    rw [hafter] at hpage
    rw [collect, hpage]
    rcases slice_take keyOf rest (hlimit i) with hall | ⟨first, last, back, hrest, -, hsome⟩
    · rw [hall]
      rfl
    · subst hrest
      have hmem : last ∈ rows := by simp [hrows]
      have hsplit : rows = (front ++ first) ++ last :: back := by
        rw [hrows, List.append_assoc]
      have hnext : after before keyOf (some (keyOf last)) rows = back := by
        rw [hsplit] at hsorted ⊢
        exact after_of_split hirrefl hasymm hsorted
      have hbelow : back.length < rounds := by
        simp only [List.length_append, List.length_cons] at hlt
        omega
      have hmore := ih (i + 1) (front ++ first ++ [last]) back (some (keyOf last))
        (by rw [hsplit]; simp) (by rintro key ⟨⟩; exact ⟨last, hmem, rfl⟩) hnext hbelow
      rw [hsome]
      simp only [Page.mapCursor, Page.map, Option.map_some] at hmore ⊢
      simp [hmore]

/-- Following the pages from the start brings every row once, in the order of the listing. -/
theorem collect_eq (hirrefl : ∀ k, ¬ before k k) (hasymm : ∀ a b, before a b → ¬ before b a)
    (hsorted : rows.Pairwise fun a b => before (keyOf a) (keyOf b)) {limit : ℕ → ℕ}
    (hlimit : ∀ i, 1 ≤ limit i) {token : κ → τ} {present : α → β}
    {fetch : ℕ → Option τ → Option (Page β τ)}
    (hfetch : ∀ i cursor, (∀ key ∈ cursor, ∃ row ∈ rows, key = keyOf row) →
      fetch i (cursor.map token) = some
        (((slice keyOf (limit i) ((after before keyOf cursor rows).take (limit i + 1))).mapCursor
          token).map present)) {rounds : ℕ} (hrounds : rows.length < rounds) :
    collect fetch rounds 0 none = some (rows.map present) :=
  collect_rest hirrefl hasymm hsorted hlimit hfetch rounds 0 [] rows none rfl nofun after_none
    hrounds

end following
end AiKanban.Pagination
