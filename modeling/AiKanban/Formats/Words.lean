import Mathlib.Data.List.DropRight
import AiKanban.Formats.Replace

/-!
# Words between separators

The words of a text are its longest pieces without a separator. Collapsing every run of separators to
one and trimming the ends leaves the words with one separator between them.
-/
namespace AiKanban.Formats

variable {α : Type}

section definitions

variable (p : α → Bool)

/-- The pieces between separators that are not empty. -/
def words (text : List α) : List (List α) := (text.splitOnP p).filter fun word => !word.isEmpty

/-- A run of separators at the start. -/
def runAt (text : List α) : ℕ := (text.takeWhile p).length

/-- Every run of separators becomes one. -/
def collapseRuns (separator : α) (text : List α) : List α := replaceAll (runAt p) [separator] text

/-- Without the separators at both ends. -/
def strip (text : List α) : List α := (text.dropWhile p).rdropWhile p

end definitions

variable {p : α → Bool} {text word rest : List α} {a separator : α}

section words

theorem words_cons_of_pos (h : p a = true) : words p (a :: text) = words p text := by
  rw [words, List.splitOnP_cons_eq_if_modifyHead, if_pos h]
  rfl

theorem words_dropWhile (text : List α) : words p (text.dropWhile p) = words p text := by
  induction text with
  | nil => rfl
  | cons a text ih =>
    cases h : p a with
    | true => rw [List.dropWhile_cons_of_pos h, ih, words_cons_of_pos h]
    | false => rw [List.dropWhile_cons_of_neg (by simp [h])]

theorem words_of_forall (hne : word ≠ []) (h : ∀ a ∈ word, p a = false) : words p word = [word] := by
  rw [words, List.splitOnP_eq_singleton h]
  simp [hne]

theorem words_append_cons (hne : word ≠ []) (h : ∀ a ∈ word, p a = false) (ha : p a = true) :
    words p (word ++ a :: text) = word :: words p text := by
  rw [words, List.splitOnP_append_cons_of_forall_mem h a ha, List.filter_cons_of_pos (by simpa using hne)]
  rfl

theorem ne_nil_of_mem_words (h : word ∈ words p text) : word ≠ [] := by
  have hmem := (List.mem_filter.1 h).2
  simpa using hmem

theorem neg_of_mem_splitOnP (h : word ∈ text.splitOnP p) : ∀ a ∈ word, p a = false := by
  induction text generalizing word with
  | nil =>
    rw [List.splitOnP_nil, List.mem_singleton] at h
    simp [h]
  | cons first text ih =>
    rw [List.splitOnP_cons_eq_if_modifyHead] at h
    split_ifs at h with hfirst
    · rcases List.mem_cons.1 h with rfl | hrest
      · simp
      · exact ih hrest
    · obtain ⟨piece, pieces, hpieces⟩ := List.exists_cons_of_ne_nil (List.splitOnP_ne_nil p text)
      rw [hpieces] at h ih
      rcases List.mem_cons.1 h with rfl | hrest
      · have hpiece := ih List.mem_cons_self
        exact List.forall_mem_cons.2 ⟨by simpa using hfirst, hpiece⟩
      · exact ih (List.mem_cons_of_mem _ hrest)

theorem neg_of_mem_words (h : word ∈ words p text) : ∀ a ∈ word, p a = false :=
  neg_of_mem_splitOnP (List.mem_of_mem_filter h)

end words

section collapse

theorem runAt_of_neg (h : p a = false) : runAt p (a :: text) = 0 := by
  rw [runAt, List.takeWhile_cons_of_neg (by simp [h]), List.length_nil]

theorem drop_runAt (text : List α) : text.drop (runAt p text) = text.dropWhile p := by
  have hdrop := @List.drop_left α (text.takeWhile p) (text.dropWhile p)
  rwa [List.takeWhile_append_dropWhile] at hdrop

theorem collapseRuns_cons_of_pos (h : p a = true) :
    collapseRuns p separator (a :: text) = separator :: collapseRuns p separator (text.dropWhile p) := by
  have hrun : runAt p (a :: text) ≠ 0 := by
    rw [runAt, List.takeWhile_cons_of_pos h]
    simp
  rw [collapseRuns, replaceAll_of_match hrun, drop_runAt, List.dropWhile_cons_of_pos h]
  rfl

theorem collapseRuns_cons_of_neg (h : p a = false) :
    collapseRuns p separator (a :: text) = a :: collapseRuns p separator text :=
  replaceAll_of_no_match (runAt_of_neg h)

theorem collapseRuns_append (h : ∀ a ∈ word, p a = false) :
    collapseRuns p separator (word ++ text) = word ++ collapseRuns p separator text := by
  induction word with
  | nil => rfl
  | cons a word ih =>
    obtain ⟨ha, hword⟩ := List.forall_mem_cons.1 h
    rw [List.cons_append, collapseRuns_cons_of_neg ha, ih hword, List.cons_append]

theorem neg_of_bare (hbare : (a :: text).dropWhile p = a :: text) : p a = false := by
  by_contra h
  rw [List.dropWhile_cons_of_pos (by simpa using h)] at hbare
  have hshort := (List.dropWhile_sublist (l := text) p).length_le
  rw [hbare, List.length_cons] at hshort
  omega

theorem mem_collapseRuns (h : a ∈ collapseRuns p separator text) : a = separator ∨ p a = false := by
  rcases mem_replaceAll h with hnew | ⟨rest, hnone⟩
  · exact Or.inl (List.mem_singleton.1 hnew)
  · right
    by_contra ha
    rw [runAt, List.takeWhile_cons_of_pos (by simpa using ha)] at hnone
    simp at hnone

/-- A text that does not start with a separator starts with a word. -/
theorem word_split (hne : text ≠ []) (hbare : text.dropWhile p = text) :
    ∃ word, word ≠ [] ∧ (∀ a ∈ word, p a = false) ∧
      (text = word ∨ ∃ a rest, text = word ++ a :: rest ∧ p a = true) := by
  obtain ⟨first, tail, rfl⟩ := List.exists_cons_of_ne_nil hne
  have hfirst := neg_of_bare hbare
  have hsplit := List.takeWhile_append_dropWhile (p := fun a => !p a) (l := first :: tail)
  refine ⟨(first :: tail).takeWhile fun a => !p a, ?_, ?_, ?_⟩
  · rw [List.takeWhile_cons_of_pos (by simp [hfirst])]
    simp
  · intro a ha
    simpa using List.mem_takeWhile_imp ha
  · cases hrest : (first :: tail).dropWhile fun a => !p a with
    | nil =>
      rw [hrest, List.append_nil] at hsplit
      exact Or.inl hsplit.symm
    | cons a rest =>
      have ha := List.head_dropWhile_not (fun a => !p a) (l := first :: tail) (by simp [hrest])
      rw [hrest] at hsplit
      exact Or.inr ⟨a, rest, hsplit.symm, by simpa [hrest] using ha⟩

theorem rdropWhile_of_forall (h : ∀ a ∈ word, p a = false) : word.rdropWhile p = word := by
  apply List.rdropWhile_eq_self_iff.2
  intro hne
  simp [h _ (List.getLast_mem hne)]

theorem rdropWhile_append (h : rest.rdropWhile p ≠ []) :
    (text ++ rest).rdropWhile p = text ++ rest.rdropWhile p := by
  have hkept : ¬ (rest.reverse.dropWhile p).isEmpty = true := by
    intro hempty
    apply h
    rw [List.rdropWhile, List.isEmpty_iff.1 hempty, List.reverse_nil]
  rw [List.rdropWhile, List.reverse_append, List.dropWhile_append, if_neg hkept, List.reverse_append,
    List.reverse_reverse]
  rfl

theorem rdropWhile_append_of_forall (h : rest.rdropWhile p = []) :
    (text ++ rest).rdropWhile p = text.rdropWhile p := by
  have hgone : (rest.reverse.dropWhile p).isEmpty = true := by
    apply List.isEmpty_iff.2
    exact List.reverse_eq_nil_iff.1 h
  rw [List.rdropWhile, List.reverse_append, List.dropWhile_append, if_pos hgone]
  rfl

theorem intercalate_ne_nil (hfirst : word ≠ []) (others : List (List α)) :
    [separator].intercalate (word :: others) ≠ [] := by
  cases others with
  | nil => simpa [List.intercalate] using hfirst
  | cons second others => simp [List.intercalate_cons_cons]

/-- The words with one separator between them, when the text starts with a word. -/
theorem rdropWhile_collapseRuns (hseparator : p separator = true) (hbare : text.dropWhile p = text) :
    (collapseRuns p separator text).rdropWhile p = [separator].intercalate (words p text) := by
  induction hlength : text.length using Nat.strong_induction_on generalizing text with
  | h length ih =>
    by_cases hne : text = []
    · rw [hne]
      rfl
    obtain ⟨word, hword, hletters, heq | ⟨a, rest, heq, ha⟩⟩ := word_split hne hbare
    · have happend : collapseRuns p separator (word ++ []) = word ++ collapseRuns p separator [] :=
        collapseRuns_append hletters
      rw [List.append_nil] at happend
      rw [heq, words_of_forall hword hletters, happend]
      simp [collapseRuns, rdropWhile_of_forall hletters, List.intercalate]
    · have hshort : (rest.dropWhile p).length < length := by
        have hle := (List.dropWhile_sublist (l := rest) p).length_le
        rw [← hlength, heq, List.length_append, List.length_cons]
        omega
      have hrest := ih _ hshort (List.dropWhile_idempotent p rest) rfl
      rw [words_dropWhile] at hrest
      rw [heq, words_append_cons hword hletters ha, collapseRuns_append hletters,
        collapseRuns_cons_of_pos ha]
      cases hwords : words p rest with
      | nil =>
        rw [hwords] at hrest
        have hgone : (separator :: collapseRuns p separator (rest.dropWhile p)).rdropWhile p = [] := by
          apply List.rdropWhile_eq_nil_iff.2
          exact List.forall_mem_cons.2 ⟨hseparator, List.rdropWhile_eq_nil_iff.1 hrest⟩
        rw [rdropWhile_append_of_forall hgone, rdropWhile_of_forall hletters]
        simp [List.intercalate]
      | cons second others =>
        have hsecond : second ≠ [] := ne_nil_of_mem_words (hwords ▸ List.mem_cons_self)
        have hkept : (collapseRuns p separator (rest.dropWhile p)).rdropWhile p ≠ [] := by
          rw [hrest, hwords]
          exact intercalate_ne_nil hsecond others
        have hbehind : ([separator] ++ collapseRuns p separator (rest.dropWhile p)).rdropWhile p =
            [separator] ++ (collapseRuns p separator (rest.dropWhile p)).rdropWhile p :=
          rdropWhile_append hkept
        have hboth : ([separator] ++ collapseRuns p separator (rest.dropWhile p)).rdropWhile p ≠ [] := by
          rw [hbehind]
          simp
        rw [List.intercalate_cons_cons, ← hwords, ← hrest, List.append_assoc, ← hbehind]
        exact rdropWhile_append hboth

theorem dropWhile_collapseRuns_of_bare (hbare : text.dropWhile p = text) :
    (collapseRuns p separator text).dropWhile p = collapseRuns p separator text := by
  cases text with
  | nil => rfl
  | cons a text =>
    have ha := neg_of_bare hbare
    rw [collapseRuns_cons_of_neg ha]
    exact List.dropWhile_cons_of_neg (by simp [ha])

theorem dropWhile_collapseRuns (hseparator : p separator = true) (text : List α) :
    (collapseRuns p separator text).dropWhile p = collapseRuns p separator (text.dropWhile p) := by
  cases text with
  | nil => rfl
  | cons a text =>
    cases h : p a with
    | true =>
      rw [collapseRuns_cons_of_pos h, List.dropWhile_cons_of_pos hseparator,
        List.dropWhile_cons_of_pos h]
      exact dropWhile_collapseRuns_of_bare (List.dropWhile_idempotent p text)
    | false =>
      have hbare : (a :: text).dropWhile p = a :: text := List.dropWhile_cons_of_neg (by simp [h])
      rw [hbare, dropWhile_collapseRuns_of_bare hbare]

/-- Collapsed and trimmed, a text is its words with one separator between them. -/
theorem strip_collapseRuns (hseparator : p separator = true) (text : List α) :
    strip p (collapseRuns p separator text) = [separator].intercalate (words p text) := by
  rw [strip, dropWhile_collapseRuns hseparator,
    rdropWhile_collapseRuns hseparator (List.dropWhile_idempotent p text), words_dropWhile]

/-- Split where the separators are left, the text gives its words back. -/
theorem splitOn_strip_collapseRuns [DecidableEq α] (hseparator : p separator = true)
    (hwords : words p text ≠ []) :
    (strip p (collapseRuns p separator text)).splitOn separator = words p text := by
  rw [strip_collapseRuns hseparator]
  apply List.splitOn_intercalate _ _ hwords
  intro word hword hmem
  have hneg := neg_of_mem_words hword separator hmem
  simp [hseparator] at hneg

end collapse

section strip

theorem strip_sublist (text : List α) : (strip p text).Sublist text :=
  (List.rdropWhile_prefix p _).sublist.trans (List.dropWhile_sublist p)

theorem strip_eq_self_iff :
    strip p text = text ↔ text.dropWhile p = text ∧ text.rdropWhile p = text := by
  constructor
  · intro h
    have hkept : text.length ≤ (text.dropWhile p).length := by
      have hle := (List.rdropWhile_prefix p (l := text.dropWhile p)).length_le
      rwa [← strip, h] at hle
    have hstart := (List.dropWhile_sublist (l := text) p).eq_of_length_le hkept
    rw [strip, hstart] at h
    exact ⟨hstart, h⟩
  · rintro ⟨hstart, hend⟩
    rw [strip, hstart, hend]

/-- What is left does not start with a separator. -/
theorem neg_of_strip (h : strip p text = a :: rest) : p a = false := by
  by_contra ha
  have hkept := List.rdropWhile_prefix p (l := text.dropWhile p)
  rw [← strip, h] at hkept
  obtain ⟨tail, htail⟩ := hkept
  rw [List.cons_append] at htail
  have hhead := List.head_dropWhile_not p (l := text) (by simp [← htail])
  simp only [← htail, List.head_cons] at hhead
  exact ha hhead

theorem dropWhile_congr {q : α → Bool} (h : ∀ a ∈ text, p a = q a) :
    text.dropWhile p = text.dropWhile q := by
  induction text with
  | nil => rfl
  | cons a text ih =>
    obtain ⟨ha, htext⟩ := List.forall_mem_cons.1 h
    rw [List.dropWhile_cons, List.dropWhile_cons, ha, ih htext]

theorem strip_congr {q : α → Bool} (h : ∀ a ∈ text, p a = q a) : strip p text = strip q text := by
  rw [strip, strip, dropWhile_congr h, List.rdropWhile, List.rdropWhile]
  apply congrArg
  apply dropWhile_congr
  intro a ha
  exact h a ((List.dropWhile_sublist q).subset (List.mem_reverse.1 ha))

theorem strip_cons_ne_nil (h : p a = false) : strip p (a :: text) ≠ [] := by
  rw [strip, List.dropWhile_cons_of_neg (by simp [h])]
  intro hnil
  have hall := List.rdropWhile_eq_nil_iff.1 hnil a List.mem_cons_self
  simp [h] at hall

end strip

end AiKanban.Formats
