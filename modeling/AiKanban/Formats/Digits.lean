import Mathlib.Data.Nat.Log
import Mathlib.Tactic

/-!
# Numbers of fixed width

Decimal numbers with leading zeros, how they are read from the front of a text, and how texts
made of them are ordered.
-/
namespace AiKanban.Formats

def digitChar (d : ℕ) : Char := Char.ofNat (48 + d)

def digitValue (c : Char) : Option ℕ :=
  if 48 ≤ c.toNat ∧ c.toNat < 58 then some (c.toNat - 48) else none

/-- A number in so many digits. -/
def padded : ℕ → ℕ → List Char
  | 0, _ => []
  | width + 1, n => digitChar (n / 10 ^ width) :: padded width (n % 10 ^ width)

/-- Reads so many digits behind a number, with the rest of the text. -/
def takeNumber : ℕ → ℕ → List Char → Option (ℕ × List Char)
  | 0, n, text => some (n, text)
  | _ + 1, _, [] => none
  | width + 1, n, c :: text => (digitValue c).bind fun d => takeNumber width (10 * n + d) text

/-- The text after a character. -/
def expect (c : Char) : List Char → Option (List Char)
  | [] => none
  | d :: text => if d = c then some text else none

section digits

theorem digitValue_digitChar : ∀ d < 10, digitValue (digitChar d) = some d := by decide

theorem toNat_digitChar : ∀ d < 10, (digitChar d).toNat = 48 + d := by decide

theorem digitChar_lt_iff : ∀ d < 10, ∀ e < 10, digitChar d < digitChar e ↔ d < e := by decide

theorem digitValue_eq_some_iff {c : Char} {d : ℕ} :
    digitValue c = some d ↔ d < 10 ∧ c = digitChar d := by
  constructor
  · intro h
    unfold digitValue at h
    split_ifs at h with hdigit
    have hd : c.toNat - 48 = d := Option.some.inj h
    have hten : d < 10 := by omega
    refine ⟨hten, Char.toNat_inj.mp ?_⟩
    rw [toNat_digitChar d hten]
    omega
  · rintro ⟨hd, rfl⟩
    exact digitValue_digitChar d hd

theorem digitChar_inj {d e : ℕ} (hd : d < 10) (he : e < 10) (h : digitChar d = digitChar e) :
    d = e := by
  have hvalue := digitValue_digitChar d hd
  rw [h, digitValue_digitChar e he] at hvalue
  exact (Option.some.inj hvalue).symm

@[simp] theorem expect_eq_some_iff {c : Char} {text rest : List Char} :
    expect c text = some rest ↔ text = c :: rest := by
  cases text with
  | nil => simp [expect]
  | cons d text => simp [expect]

@[simp] theorem length_padded (width n : ℕ) : (padded width n).length = width := by
  induction width generalizing n with
  | zero => rfl
  | succ width ih => rw [padded, List.length_cons, ih]

theorem div_lt_ten {width n : ℕ} (h : n < 10 ^ (width + 1)) : n / 10 ^ width < 10 :=
  Nat.div_lt_of_lt_mul (by rwa [← pow_succ])

/-- By induction on the digits: what is read is the number that is written there. -/
theorem takeNumber_eq_some_iff {width a n : ℕ} {text rest : List Char} :
    takeNumber width a text = some (n, rest) ↔
      ∃ m < 10 ^ width, n = a * 10 ^ width + m ∧ text = padded width m ++ rest := by
  induction width generalizing a text with
  | zero => simp [takeNumber, padded, eq_comm]
  | succ width ih =>
    cases text with
    | nil => simp [takeNumber, padded]
    | cons c text =>
      simp only [takeNumber, Option.bind_eq_some_iff, digitValue_eq_some_iff, ih]
      constructor
      · rintro ⟨d, ⟨hd, rfl⟩, m, hm, rfl, rfl⟩
        have hquotient : (d * 10 ^ width + m) / 10 ^ width = d := by
          rw [mul_comm, Nat.mul_add_div (by positivity), Nat.div_eq_of_lt hm, add_zero]
        have hrest : (d * 10 ^ width + m) % 10 ^ width = m := by
          rw [mul_comm, Nat.mul_add_mod, Nat.mod_eq_of_lt hm]
        refine ⟨d * 10 ^ width + m, ?_, by ring, ?_⟩
        · rw [pow_succ]
          nlinarith
        · rw [padded, hquotient, hrest, List.cons_append]
      · rintro ⟨m, hm, rfl, htext⟩
        rw [padded, List.cons_append, List.cons.injEq] at htext
        refine ⟨m / 10 ^ width, ⟨div_lt_ten hm, htext.1⟩, m % 10 ^ width,
          Nat.mod_lt _ (by positivity), ?_, htext.2⟩
        have hsplit := Nat.div_add_mod m (10 ^ width)
        rw [pow_succ]
        nlinarith

end digits

section order

variable {width n m : ℕ} {x y : List Char}

/-- Blocks of one length are compared before what follows them. -/
theorem append_lt_iff {a b : List Char} (h : a.length = b.length) :
    a ++ x < b ++ y ↔ a < b ∨ a = b ∧ x < y := by
  induction a generalizing b with
  | nil =>
    obtain rfl := List.eq_nil_of_length_eq_zero h.symm
    simp
  | cons c a ih =>
    cases b with
    | nil => simp at h
    | cons d b =>
      rw [List.cons_append, List.cons_append, List.cons_lt_cons_iff, List.cons_lt_cons_iff,
        ih (by simpa using h), List.cons.injEq]
      tauto

theorem padded_inj (hn : n < 10 ^ width) (hm : m < 10 ^ width)
    (h : padded width n = padded width m) : n = m := by
  induction width generalizing n m with
  | zero =>
    rw [pow_zero] at hn hm
    omega
  | succ width ih =>
    rw [padded, padded, List.cons.injEq] at h
    have hhead := digitChar_inj (div_lt_ten hn) (div_lt_ten hm) h.1
    have hrest := ih (Nat.mod_lt _ (by positivity)) (Nat.mod_lt _ (by positivity)) h.2
    rw [← Nat.div_add_mod n (10 ^ width), ← Nat.div_add_mod m (10 ^ width), hhead, hrest]

/-- Numbers of one width are ordered as their texts. -/
theorem padded_lt_iff (hn : n < 10 ^ width) (hm : m < 10 ^ width) :
    padded width n < padded width m ↔ n < m := by
  induction width generalizing n m with
  | zero =>
    rw [pow_zero] at hn hm
    simp only [padded, List.lt_irrefl, false_iff]
    omega
  | succ width ih =>
    have hn' := Nat.mod_lt n (show 10 ^ width > 0 by positivity)
    have hm' := Nat.mod_lt m (show 10 ^ width > 0 by positivity)
    have hsplitn := Nat.div_add_mod n (10 ^ width)
    have hsplitm := Nat.div_add_mod m (10 ^ width)
    rw [padded, padded, List.cons_lt_cons_iff, ih hn' hm',
      digitChar_lt_iff _ (div_lt_ten hn) _ (div_lt_ten hm)]
    constructor
    · rintro (hhead | ⟨hhead, hrest⟩)
      · exact Nat.lt_of_div_lt_div hhead
      · have hsame := digitChar_inj (div_lt_ten hn) (div_lt_ten hm) hhead
        rw [hsame] at hsplitn
        omega
    · intro hlt
      rcases (Nat.div_le_div_right (c := 10 ^ width) hlt.le).lt_or_eq with hhead | hhead
      · exact .inl hhead
      · refine .inr ⟨by rw [hhead], ?_⟩
        rw [hhead] at hsplitn
        omega

theorem padded_append_lt_iff (hn : n < 10 ^ width) (hm : m < 10 ^ width) :
    padded width n ++ x < padded width m ++ y ↔ n < m ∨ n = m ∧ x < y := by
  rw [append_lt_iff (by simp), padded_lt_iff hn hm]
  constructor
  · rintro (hlt | ⟨hsame, hrest⟩)
    · exact .inl hlt
    · exact .inr ⟨padded_inj hn hm hsame, hrest⟩
  · rintro (hlt | ⟨rfl, hrest⟩)
    · exact .inl hlt
    · exact .inr ⟨rfl, hrest⟩

theorem cons_lt_same (c : Char) : c :: x < c :: y ↔ x < y := by
  simp

end order

end AiKanban.Formats
