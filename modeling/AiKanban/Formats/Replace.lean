import Mathlib.Tactic

/-!
# Global replacement

A pattern matches a number of elements at the start of a list, none for no match. Replacing all
matches goes on after each one.
-/
namespace AiKanban.Formats

variable {α : Type}

/-- Replace every leftmost match, after skipping what the last one took. -/
def replaceFrom (pattern : List α → ℕ) (replacement : List α) : ℕ → List α → List α
  | _, [] => []
  | skipped + 1, _ :: rest => replaceFrom pattern replacement skipped rest
  | 0, a :: rest =>
      match pattern (a :: rest) with
      | 0 => a :: replaceFrom pattern replacement 0 rest
      | taken + 1 => replacement ++ replaceFrom pattern replacement taken rest

def replaceAll (pattern : List α → ℕ) (replacement text : List α) : List α :=
  replaceFrom pattern replacement 0 text

variable {pattern : List α → ℕ} {replacement text : List α} {a : α}

theorem replaceFrom_eq_drop (skipped : ℕ) (text : List α) :
    replaceFrom pattern replacement skipped text =
      replaceAll pattern replacement (text.drop skipped) := by
  induction skipped generalizing text with
  | zero => rfl
  | succ skipped ih =>
    cases text with
    | nil => rfl
    | cons a text => exact ih text

@[simp] theorem replaceAll_nil : replaceAll pattern replacement [] = [] := rfl

theorem replaceAll_of_no_match (h : pattern (a :: text) = 0) :
    replaceAll pattern replacement (a :: text) = a :: replaceAll pattern replacement text := by
  simp [replaceAll, replaceFrom, h]

theorem replaceAll_of_match (h : pattern (a :: text) ≠ 0) :
    replaceAll pattern replacement (a :: text) =
      replacement ++ replaceAll pattern replacement ((a :: text).drop (pattern (a :: text))) := by
  obtain ⟨taken, htaken⟩ := Nat.exists_eq_succ_of_ne_zero h
  have hstep : replaceAll pattern replacement (a :: text) =
      replacement ++ replaceFrom pattern replacement taken text := by
    rw [replaceAll, replaceFrom, htaken]
  rw [hstep, replaceFrom_eq_drop, htaken, List.drop_succ_cons]

theorem replaceAll_match {matched : List α} (hlength : pattern (matched ++ text) = matched.length)
    (hne : matched.length ≠ 0) :
    replaceAll pattern replacement (matched ++ text) =
      replacement ++ replaceAll pattern replacement text := by
  obtain ⟨a, tail, rfl⟩ := List.exists_cons_of_length_pos (Nat.pos_of_ne_zero hne)
  have hpos : pattern (a :: (tail ++ text)) ≠ 0 := by
    rw [← List.cons_append, hlength]
    exact hne
  rw [List.cons_append, replaceAll_of_match hpos, ← List.cons_append, hlength, List.drop_left]

theorem mem_replaceFrom {skipped : ℕ} (h : a ∈ replaceFrom pattern replacement skipped text) :
    a ∈ replacement ∨ ∃ rest, pattern (a :: rest) = 0 := by
  induction text generalizing skipped with
  | nil => cases skipped <;> exact absurd h List.not_mem_nil
  | cons b text ih =>
    cases skipped with
    | succ skipped => exact ih h
    | zero =>
      cases hmatch : pattern (b :: text) with
      | zero =>
        rw [replaceFrom, hmatch] at h
        rcases List.mem_cons.1 h with rfl | hrest
        · exact Or.inr ⟨text, hmatch⟩
        · exact ih hrest
      | succ taken =>
        rw [replaceFrom, hmatch] at h
        rcases List.mem_append.1 h with hnew | hrest
        · exact Or.inl hnew
        · exact ih hrest

/-- What is left was put in, or starts no match. -/
theorem mem_replaceAll (h : a ∈ replaceAll pattern replacement text) :
    a ∈ replacement ∨ ∃ rest, pattern (a :: rest) = 0 := mem_replaceFrom h

end AiKanban.Formats
