import Mathlib.Data.List.Infix
import Mathlib.Tactic

/-!
# LIKE patterns

The `LIKE` operator of SQL with an escape character, and patterns whose wildcards are escaped.
-/
namespace AiKanban.Formats

/-- Letters of ASCII match in either case. -/
def sameLetter (c d : Char) : Bool := c.toLower == d.toLower

/-- `text LIKE pattern ESCAPE escape`. The character after the escape character stands for
itself, `%` for any text and `_` for any character. -/
def like (escape : Char) : List Char → List Char → Bool
  | [], text => text.isEmpty
  | p :: pattern, text =>
      if p = escape then
        match pattern, text with
        | literal :: pattern, c :: text => sameLetter literal c && like escape pattern text
        | _, _ => false
      else if p = '%' then text.tails.any (like escape pattern)
      else
        match text with
        | [] => false
        | c :: text => (p == '_' || sameLetter p c) && like escape pattern text

/-- A character that a pattern would not take literally. -/
def Special (escape c : Char) : Prop := c = escape ∨ c = '%' ∨ c = '_'

instance (escape c : Char) : Decidable (Special escape c) := inferInstanceAs (Decidable (_ ∨ _))

/-- A text as the pattern of itself. -/
def literally (escape : Char) (text : List Char) : List Char :=
  text.flatMap fun c => if Special escape c then [escape, c] else [c]

section matching

variable {escape : Char} {pattern text : List Char}

@[simp] theorem like_nil : like escape [] text = true ↔ text = [] := by
  simp [like]

theorem like_any (h : escape ≠ '%') : like escape ('%' :: pattern) text = true ↔
    ∃ head tail, text = head ++ tail ∧ like escape pattern tail = true := by
  rw [like.eq_def]
  simp only [if_neg h.symm, if_true, List.any_eq_true]
  constructor
  · rintro ⟨tail, htail, hmatch⟩
    obtain ⟨head, rfl⟩ := (List.mem_tails _ _).mp htail
    exact ⟨head, tail, rfl, hmatch⟩
  · rintro ⟨head, tail, rfl, hmatch⟩
    exact ⟨tail, (List.mem_tails _ _).mpr (List.suffix_append head tail), hmatch⟩

/-- A character with its escape matches itself. -/
theorem like_literal (c : Char) : like escape (literally escape [c] ++ pattern) text = true ↔
    ∃ d tail, text = d :: tail ∧ sameLetter c d = true ∧ like escape pattern tail = true := by
  have hliteral : literally escape [c] = if Special escape c then [escape, c] else [c] :=
    List.append_nil _
  rw [hliteral]
  by_cases hspecial : Special escape c
  · rw [if_pos hspecial, List.cons_append, List.cons_append, List.nil_append, like.eq_def]
    simp only [if_true]
    cases text with
    | nil => simp
    | cons d tail => simp
  · have hescape : c ≠ escape := fun h => hspecial (.inl h)
    have hany : c ≠ '%' := fun h => hspecial (.inr (.inl h))
    have hone : (c == '_') = false := beq_false_of_ne fun h => hspecial (.inr (.inr h))
    rw [if_neg hspecial, List.singleton_append, like.eq_def]
    simp only [if_neg hescape, if_neg hany, hone, Bool.false_or]
    cases text with
    | nil => simp
    | cons d tail => simp

/-- By induction on the text of the pattern: what it matches begins with the text. -/
theorem like_literally (needle : List Char) :
    like escape (literally escape needle ++ pattern) text = true ↔
      ∃ body tail, text = body ++ tail ∧ body.map Char.toLower = needle.map Char.toLower ∧
        like escape pattern tail = true := by
  induction needle generalizing text with
  | nil =>
    constructor
    · intro h
      exact ⟨[], text, rfl, rfl, h⟩
    · rintro ⟨body, tail, rfl, hbody, h⟩
      obtain rfl := List.map_eq_nil_iff.mp hbody
      exact h
  | cons c needle ih =>
    have hsplit : literally escape (c :: needle) ++ pattern =
        literally escape [c] ++ (literally escape needle ++ pattern) := by
      simp [literally]
    rw [hsplit, like_literal]
    constructor
    · rintro ⟨d, tail, rfl, hsame, hrest⟩
      obtain ⟨body, tail, rfl, hbody, h⟩ := ih.mp hrest
      have hletter : c.toLower = d.toLower := beq_iff_eq.mp hsame
      exact ⟨d :: body, tail, rfl, by rw [List.map_cons, List.map_cons, hletter, hbody], h⟩
    · rintro ⟨body, tail, rfl, hbody, h⟩
      cases body with
      | nil => simp at hbody
      | cons d body =>
        simp only [List.map_cons, List.cons.injEq] at hbody
        exact ⟨d, body ++ tail, rfl, beq_iff_eq.mpr hbody.1.symm, ih.mpr ⟨body, tail, rfl, hbody.2, h⟩⟩

/-- Between two `%` a literal pattern asks for a substring. -/
theorem like_contains (h : escape ≠ '%') (needle : List Char) :
    like escape ('%' :: (literally escape needle ++ ['%'])) text = true ↔
      needle.map Char.toLower <:+: text.map Char.toLower := by
  rw [like_any h]
  constructor
  · rintro ⟨head, rest, rfl, hmatch⟩
    obtain ⟨body, tail, rfl, hbody, -⟩ := (like_literally needle).mp hmatch
    exact ⟨head.map Char.toLower, tail.map Char.toLower, by simp [hbody]⟩
  · rintro ⟨before, after, hinfix⟩
    rw [eq_comm, List.map_eq_append_iff] at hinfix
    obtain ⟨rest, tail, rfl, hrest, -⟩ := hinfix
    obtain ⟨head, body, rfl, -, hbody⟩ := List.map_eq_append_iff.mp hrest
    have hend : like escape ['%'] tail = true := (like_any h).mpr ⟨tail, [], by simp, by simp⟩
    exact ⟨head, body ++ tail, List.append_assoc _ _ _,
      (like_literally needle).mpr ⟨body, tail, rfl, hbody, hend⟩⟩

end matching

section folding

variable {escape : Char}

/-- The fold of ASCII by the codes. -/
theorem toNat_toLower (c : Char) : c.toLower.toNat =
    if 65 ≤ c.toNat ∧ c.toNat ≤ 90 then c.toNat + 32 else c.toNat := by
  have hupper : c.val ≥ 'A'.val ∧ c.val ≤ 'Z'.val ↔ 65 ≤ c.toNat ∧ c.toNat ≤ 90 := by
    simp only [ge_iff_le, UInt32.le_iff_toNat_le]
    rfl
  unfold Char.toLower
  by_cases h : c.val ≥ 'A'.val ∧ c.val ≤ 'Z'.val
  · have hcode : c.val.toNat ≤ 90 := (hupper.mp h).2
    have hsmall : c.val.toNat + 32 < 2 ^ 32 := by omega
    rw [dif_pos h, if_pos (hupper.mp h)]
    exact (UInt32.toNat_add _ _).trans (Nat.mod_eq_of_lt hsmall)
  · rw [dif_neg h, if_neg fun hcode => h (hupper.mpr hcode)]

theorem toLower_toLower (c : Char) : c.toLower.toLower = c.toLower := by
  apply Char.toNat_inj.mp
  rw [toNat_toLower c.toLower, toNat_toLower c]
  split_ifs <;> omega

/-- Only letters fold to letters. -/
theorem toLower_eq_iff {c x : Char} (h : x.toLower = x) (hlower : ¬ (97 ≤ x.toNat ∧ x.toNat ≤ 122)) :
    c.toLower = x ↔ c = x := by
  constructor
  · intro hc
    have hcode : c.toLower.toNat = x.toNat := congrArg Char.toNat hc
    rw [toNat_toLower] at hcode
    apply Char.toNat_inj.mp
    split_ifs at hcode <;> omega
  · rintro rfl
    exact h

variable (h : escape.toLower = escape) (hlower : ¬ (97 ≤ escape.toNat ∧ escape.toNat ≤ 122))
include h hlower

theorem special_toLower (c : Char) : Special escape c.toLower ↔ Special escape c := by
  have hany : c.toLower = '%' ↔ c = '%' := toLower_eq_iff (by decide) (by decide)
  have hone : c.toLower = '_' ↔ c = '_' := toLower_eq_iff (by decide) (by decide)
  unfold Special
  rw [toLower_eq_iff h hlower, hany, hone]

/-- A pattern may be folded after its wildcards are escaped. -/
theorem map_toLower_literally (text : List Char) :
    (literally escape text).map Char.toLower = literally escape (text.map Char.toLower) := by
  induction text with
  | nil => rfl
  | cons c text ih =>
    have hchar : (if Special escape c then [escape, c] else [c]).map Char.toLower =
        if Special escape c.toLower then [escape, c.toLower] else [c.toLower] := by
      simp only [special_toLower h hlower]
      split_ifs
      · rw [List.map_cons, List.map_cons, List.map_nil, h]
      · rfl
    unfold literally at ih ⊢
    rw [List.flatMap_cons, List.map_append, hchar, ih, List.map_cons, List.flatMap_cons]

end folding

end AiKanban.Formats
