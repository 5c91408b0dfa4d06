import AiKanban.Formats.Digits
import Mathlib.Data.Int.Log
import Mathlib.Data.List.TakeWhile
import Mathlib.Data.Nat.Digits.Lemmas
import Mathlib.Data.Rat.Floor
import Mathlib.Tactic

/-!
# JSON

A machine reads a text character by character and keeps the containers that are still open on a
stack. A string is read back as it was before it was quoted, and a number that is a double and is
written in full is read as that number.
-/
namespace AiKanban.Formats

/-- Strings are the units of UTF-16 and numbers are doubles, where `none` is an infinity. -/
inductive Json where
  | null
  | bool (b : Bool)
  | number (value : Option ℚ)
  | string (units : List ℕ)
  | array (items : List Json)
  | object (members : List (List ℕ × Json))

namespace Json

section doubles

/-- The nearest integer, and half way the even one. -/
def roundHalfEven (q : ℚ) : ℤ :=
  if q - ⌊q⌋ < 1 / 2 ∨ q - ⌊q⌋ = 1 / 2 ∧ ⌊q⌋ % 2 = 0 then ⌊q⌋ else ⌊q⌋ + 1

/-- The exponent of the last place of the doubles around a number. -/
def lastPlace (q : ℚ) : ℤ := max (Int.log 2 |q|) (-1022) - 52

/-- Doubles are less than this power of two. -/
def emax : ℕ := 1024

/-- The double that is nearest to a number. -/
def toDouble (q : ℚ) : Option ℚ :=
  let d := roundHalfEven (q / 2 ^ lastPlace q) * (2 : ℚ) ^ lastPlace q
  if |d| < 2 ^ emax then some d else none

theorem roundHalfEven_intCast (n : ℤ) : roundHalfEven n = n := by
  simp [roundHalfEven]

/-- The integers of 53 bits are doubles. -/
theorem toDouble_natCast {n : ℕ} (h : n < 2 ^ 53) : toDouble n = some (n : ℚ) := by
  have hpow : (0 : ℚ) < 2 ^ lastPlace n := by positivity
  have hplace : lastPlace n ≤ 0 := by
    unfold lastPlace
    rcases Nat.eq_zero_or_pos n with rfl | hpositive
    · simp
    · have hlog : Int.log 2 |(n : ℚ)| < 53 := by
        rw [← Int.lt_zpow_iff_log_lt (by decide) (by positivity)]
        rw [Nat.abs_cast]
        exact_mod_cast h
      omega
  obtain ⟨k, hk⟩ : ∃ k : ℕ, lastPlace n = -k := ⟨(lastPlace n).natAbs, by omega⟩
  have hwhole : (n : ℚ) / 2 ^ lastPlace n = ((n * 2 ^ k : ℤ) : ℚ) := by
    rw [hk, zpow_neg, zpow_natCast, div_inv_eq_mul]
    push_cast
    rfl
  have hback : ((n * 2 ^ k : ℤ) : ℚ) * 2 ^ lastPlace n = n := by
    rw [← hwhole]
    field_simp
  have hsmall : |(n : ℚ)| < 2 ^ emax := by
    rw [Nat.abs_cast]
    have hbound : n < 2 ^ emax := h.trans (Nat.pow_lt_pow_right (by omega) (by decide))
    exact_mod_cast hbound
  simp only [toDouble, hwhole, roundHalfEven_intCast, hback, if_pos hsmall]

end doubles

section numbers

def isDigit (c : Char) : Bool := (digitValue c).isSome

/-- The number that decimal digits spell. -/
def valueOf (digits : List Char) : ℕ :=
  digits.foldl (fun n c => 10 * n + (digitValue c).getD 0) 0

/-- The digits behind a point, with the rest of the text. -/
def readFractionDigits : List Char → Option (List Char × List Char)
  | '.' :: text =>
      if text.takeWhile isDigit = [] then none
      else some (text.takeWhile isDigit, text.dropWhile isDigit)
  | text => some ([], text)

def readExponent : List Char → Option ℤ
  | [] => some 0
  | e :: text =>
      if e = 'e' ∨ e = 'E' then
        let (negative, digits) := match text with
          | '-' :: digits => (true, digits)
          | '+' :: digits => (false, digits)
          | digits => (false, digits)
        if digits = [] ∨ digits.all isDigit = false then none
        else some (if negative then -valueOf digits else valueOf digits)
      else none

/-- `-?(0|[1-9]\d*)(\.\d+)?([eE][+-]?\d+)?` -/
def readNumber (literal : List Char) : Option (Option ℚ) :=
  let negative := literal.head? == some '-'
  let text := if negative then literal.tail else literal
  let whole := text.takeWhile isDigit
  if whole = [] ∨ whole.head? = some '0' ∧ 1 < whole.length then none
  else do
    let (fraction, text) ← readFractionDigits (text.dropWhile isDigit)
    let exponent ← readExponent text
    let magnitude : ℚ := valueOf (whole ++ fraction) * 10 ^ (exponent - fraction.length)
    return toDouble (if negative then -magnitude else magnitude)

end numbers

section machine

def quotationMark : Char := Char.ofNat 34
def backslash : Char := Char.ofNat 92
def openBrace : Char := Char.ofNat 123
def closeBrace : Char := Char.ofNat 125

/-- The character's units. -/
def utf16 (c : Char) : List ℕ :=
  if c.toNat < 65536 then [c.toNat]
  else [55296 + (c.toNat - 65536) / 1024, 56320 + (c.toNat - 65536) % 1024]

/-- A container that is still open. -/
inductive Frame where
  | array (items : List Json)
  | object (members : List (List ℕ × Json)) (key : List ℕ)

/-- What the next character belongs to. A string is a value, or it is the next key behind some
members. -/
inductive Mode where
  | value (orEnd : Bool)
  | key (members : List (List ℕ × Json)) (orEnd : Bool)
  | colon (members : List (List ℕ × Json)) (key : List ℕ)
  | string (keyOf : Option (List (List ℕ × Json))) (units : List ℕ)
  | escape (keyOf : Option (List (List ℕ × Json))) (units : List ℕ)
  | hex (keyOf : Option (List (List ℕ × Json))) (units : List ℕ) (count unit : ℕ)
  | number (literal : List Char)
  | word (rest : List Char) (result : Json)
  | next
  | done (result : Json)

structure Machine where
  mode : Mode
  stack : List Frame

def isSpace (c : Char) : Bool := c == ' ' || c == '\t' || c == '\n' || c == '\r'

/-- A later member of the same name replaces the earlier one. -/
def setMember (members : List (List ℕ × Json)) (key : List ℕ) (value : Json) :
    List (List ℕ × Json) :=
  if members.any (·.1 == key) then
    members.map fun member => if member.1 == key then (key, value) else member
  else members ++ [(key, value)]

/-- A value ends. -/
def complete (value : Json) : List Frame → Machine
  | [] => ⟨.done value, []⟩
  | .array items :: stack => ⟨.next, .array (items ++ [value]) :: stack⟩
  | .object members key :: stack => ⟨.next, .object (setMember members key value) key :: stack⟩

/-- A value begins. -/
def start (c : Char) (stack : List Frame) : Option Machine :=
  if c = quotationMark then some ⟨.string none [], stack⟩
  else if c = openBrace then some ⟨.key [] true, stack⟩
  else if c = '[' then some ⟨.value true, .array [] :: stack⟩
  else if c = 't' then some ⟨.word "rue".toList (.bool true), stack⟩
  else if c = 'f' then some ⟨.word "alse".toList (.bool false), stack⟩
  else if c = 'n' then some ⟨.word "ull".toList .null, stack⟩
  else if c = '-' ∨ isDigit c then some ⟨.number [c], stack⟩
  else none

/-- Behind a value. -/
def follow (c : Char) (m : Machine) : Option Machine :=
  if isSpace c then some m
  else
    match m.mode, m.stack with
    | .next, .array items :: stack =>
        if c = ',' then some ⟨.value false, .array items :: stack⟩
        else if c = ']' then some (complete (.array items) stack)
        else none
    | .next, .object members _ :: stack =>
        if c = ',' then some ⟨.key members false, stack⟩
        else if c = closeBrace then some (complete (.object members) stack)
        else none
    | _, _ => none

/-- The unit behind a backslash. -/
def escapedUnit (c : Char) : Option ℕ :=
  if c = quotationMark ∨ c = backslash ∨ c = '/' then some c.toNat
  else if c = 'b' then some 8
  else if c = 't' then some 9
  else if c = 'n' then some 10
  else if c = 'f' then some 12
  else if c = 'r' then some 13
  else none

def hexValue (c : Char) : Option ℕ :=
  if '0' ≤ c ∧ c ≤ '9' then some (c.toNat - 48)
  else if 'a' ≤ c ∧ c ≤ 'f' then some (c.toNat - 87)
  else if 'A' ≤ c ∧ c ≤ 'F' then some (c.toNat - 55)
  else none

def isNumeric (c : Char) : Bool :=
  isDigit c || c == '-' || c == '+' || c == '.' || c == 'e' || c == 'E'

def step (m : Machine) (c : Char) : Option Machine :=
  match m.mode with
  | .value orEnd =>
      if isSpace c then some m
      else
        match orEnd, m.stack with
        | true, .array items :: stack =>
            if c = ']' then some (complete (.array items) stack) else start c m.stack
        | _, stack => start c stack
  | .key members orEnd =>
      if isSpace c then some m
      else if c = quotationMark then some ⟨.string (some members) [], m.stack⟩
      else if orEnd ∧ c = closeBrace then some (complete (.object members) m.stack)
      else none
  | .colon members key =>
      if isSpace c then some m
      else if c = ':' then some ⟨.value false, .object members key :: m.stack⟩
      else none
  | .string keyOf units =>
      if c = quotationMark then
        match keyOf with
        | none => some (complete (.string units) m.stack)
        | some members => some ⟨.colon members units, m.stack⟩
      else if c = backslash then some ⟨.escape keyOf units, m.stack⟩
      else if c.toNat < 32 then none
      else some ⟨.string keyOf (units ++ utf16 c), m.stack⟩
  | .escape keyOf units =>
      if c = 'u' then some ⟨.hex keyOf units 0 0, m.stack⟩
      else (escapedUnit c).map fun unit => ⟨.string keyOf (units ++ [unit]), m.stack⟩
  | .hex keyOf units count unit =>
      (hexValue c).map fun digit =>
        if count = 3 then ⟨.string keyOf (units ++ [16 * unit + digit]), m.stack⟩
        else ⟨.hex keyOf units (count + 1) (16 * unit + digit), m.stack⟩
  | .number literal =>
      if isNumeric c then some ⟨.number (literal ++ [c]), m.stack⟩
      else (readNumber literal).bind fun value => follow c (complete (.number value) m.stack)
  | .word rest result =>
      match rest with
      | [] => none
      | d :: rest =>
          if c ≠ d then none
          else if rest = [] then some (complete result m.stack)
          else some ⟨.word rest result, m.stack⟩
  | .next => follow c m
  | .done _ => follow c m

/-- The value at the end of the text; a number outside of any container ends with it. -/
def finish (m : Machine) : Option Json :=
  match m.mode, m.stack with
  | .done value, _ => some value
  | .number literal, [] => (readNumber literal).map .number
  | _, _ => none

def run (m : Machine) (text : List Char) : Option Machine := text.foldlM step m

/-- `JSON.parse`; `none` where it throws. -/
def parse (text : List Char) : Option Json := (run ⟨.value false, []⟩ text).bind finish

end machine

section runs

variable {m : Machine} {stack : List Frame}

theorem run_append (m : Machine) (text text' : List Char) :
    run m (text ++ text') = (run m text).bind fun m' => run m' text' := by
  simp [run, List.foldlM_append, Option.bind_eq_bind]

@[simp] theorem run_nil (m : Machine) : run m [] = some m := rfl

theorem run_cons (m : Machine) (c : Char) (text : List Char) :
    run m (c :: text) = (step m c).bind fun m' => run m' text := rfl

end runs

section strings

def hexDigit (n : ℕ) : Char := if n < 10 then Char.ofNat (48 + n) else Char.ofNat (87 + n)

/-- A character within quotation marks. -/
def quotedChar (c : Char) : List Char :=
  if c = quotationMark ∨ c = backslash then [backslash, c]
  else if c.toNat = 8 then [backslash, 'b']
  else if c.toNat = 9 then [backslash, 't']
  else if c.toNat = 10 then [backslash, 'n']
  else if c.toNat = 12 then [backslash, 'f']
  else if c.toNat = 13 then [backslash, 'r']
  else if c.toNat < 32 then
    [backslash, 'u', '0', '0', hexDigit (c.toNat / 16), hexDigit (c.toNat % 16)]
  else [c]

/-- `JSON.stringify` of a string. -/
def quoted (text : List Char) : List Char :=
  quotationMark :: (text.flatMap quotedChar ++ [quotationMark])

/-- The units of a text. -/
def units (text : List Char) : List ℕ := text.flatMap utf16

variable {stack : List Frame} {keyOf : Option (List (List ℕ × Json))} {read : List ℕ}

theorem hexValue_hexDigit : ∀ n < 16, hexValue (hexDigit n) = some n := by decide

/-- A character is read back as its units, however it is written. -/
theorem run_quotedChar (c : Char) :
    run ⟨.string keyOf read, stack⟩ (quotedChar c) = some ⟨.string keyOf (read ++ utf16 c), stack⟩ := by
  have hsmall : c.toNat < 32 → utf16 c = [c.toNat] := fun h => if_pos (by omega)
  unfold quotedChar
  split_ifs with hself hback htab hline hform hreturn hcontrol
  · rcases hself with rfl | rfl
    · rfl
    · rfl
  · rw [hsmall (by omega), hback]
    rfl
  · rw [hsmall (by omega), htab]
    rfl
  · rw [hsmall (by omega), hline]
    rfl
  · rw [hsmall (by omega), hform]
    rfl
  · rw [hsmall (by omega), hreturn]
    rfl
  · have hhigh := hexValue_hexDigit (c.toNat / 16) (by omega)
    have hlow := hexValue_hexDigit (c.toNat % 16) (by omega)
    have hunit : 16 * (c.toNat / 16) + c.toNat % 16 = c.toNat := Nat.div_add_mod _ _
    change run ⟨.hex keyOf read 2 0, stack⟩ _ = _
    simp [run_cons, step, hhigh, hlow, hunit, hsmall hcontrol]
  · rw [not_or] at hself
    simp [run_cons, step, hself, hcontrol]

/-- By induction on the text. -/
theorem run_quotedChars (text : List Char) :
    run ⟨.string keyOf read, stack⟩ (text.flatMap quotedChar) =
      some ⟨.string keyOf (read ++ units text), stack⟩ := by
  induction text generalizing read with
  | nil => simp [units]
  | cons c text ih =>
    have hunits : units (c :: text) = utf16 c ++ units text := List.flatMap_cons
    rw [List.flatMap_cons, run_append, run_quotedChar, Option.bind_some, ih, hunits,
      List.append_assoc]

theorem run_quoted (text : List Char) :
    run ⟨.value false, stack⟩ (quoted text) = some (complete (.string (units text)) stack) := by
  rw [quoted, run_cons]
  change run ⟨.string none [], stack⟩ _ = _
  rw [run_append, run_quotedChars, Option.bind_some]
  rfl

theorem run_quoted_key (members : List (List ℕ × Json)) (orEnd : Bool) (text : List Char) :
    run ⟨.key members orEnd, stack⟩ (quoted text) = some ⟨.colon members (units text), stack⟩ := by
  rw [quoted, run_cons]
  change run ⟨.string (some members) [], stack⟩ _ = _
  rw [run_append, run_quotedChars, Option.bind_some]
  rfl

end strings

section naturals

/-- The decimal text of a positive number. -/
def decimalText (n : ℕ) : List Char := ((Nat.digits 10 n).map digitChar).reverse

variable {stack : List Frame} {n : ℕ}

theorem isDigit_digitChar : ∀ d < 10, isDigit (digitChar d) = true ∧ isNumeric (digitChar d) = true := by
  decide

theorem mem_decimalText {c : Char} (h : c ∈ decimalText n) : ∃ d < 10, c = digitChar d := by
  obtain ⟨d, hd, rfl⟩ := List.mem_map.mp (List.mem_reverse.mp h)
  exact ⟨d, Nat.digits_lt_base (by omega) hd, rfl⟩

theorem valueOf_decimalText (n : ℕ) : valueOf (decimalText n) = n := by
  have hdigits : ∀ digits : List ℕ, (∀ d ∈ digits, d < 10) →
      valueOf ((digits.map digitChar).reverse) = Nat.ofDigits 10 digits := by
    intro digits hdigits
    induction digits with
    | nil => rfl
    | cons d digits ih =>
      obtain ⟨hd, hrest⟩ := List.forall_mem_cons.mp hdigits
      have hvalue := digitValue_digitChar d hd
      have hih := ih hrest
      unfold valueOf at hih ⊢
      rw [List.map_cons, List.reverse_cons, List.foldl_append, hih]
      simp only [List.foldl_cons, List.foldl_nil, hvalue, Option.getD_some, Nat.ofDigits_cons]
      omega
  rw [decimalText, hdigits _ fun d hd => Nat.digits_lt_base (by omega) hd, Nat.ofDigits_digits]

/-- The text begins with a digit other than zero. -/
theorem exists_head (hpositive : 0 < n) :
    ∃ d < 10, d ≠ 0 ∧ ∃ rest, decimalText n = digitChar d :: rest := by
  have hne : Nat.digits 10 n ≠ [] := Nat.digits_ne_nil_iff_ne_zero.mpr hpositive.ne'
  have hlast := Nat.getLast_digit_ne_zero 10 hpositive.ne'
  have hmem := List.getLast_mem hne
  refine ⟨(Nat.digits 10 n).getLast hne, Nat.digits_lt_base (by omega) hmem, hlast,
    ((Nat.digits 10 n).dropLast.map digitChar).reverse, ?_⟩
  rw [decimalText]
  conv_lhs => rw [← List.dropLast_append_getLast hne]
  simp

theorem readNumber_decimalText (hpositive : 0 < n) (h : n < 2 ^ 53) :
    readNumber (decimalText n) = some (some (n : ℚ)) := by
  have hall : ∀ c ∈ decimalText n, isDigit c = true := by
    intro c hc
    obtain ⟨d, hd, rfl⟩ := mem_decimalText hc
    exact (isDigit_digitChar d hd).1
  have htake : (decimalText n).takeWhile isDigit = decimalText n := List.takeWhile_eq_self_iff.mpr hall
  have hdrop : (decimalText n).dropWhile isDigit = [] := List.dropWhile_eq_nil_iff.mpr hall
  obtain ⟨d, hd, hzero, rest, htext⟩ := exists_head hpositive
  have hhead : ∀ d < 10, d ≠ 0 → digitChar d ≠ '-' ∧ digitChar d ≠ '0' := by decide
  obtain ⟨hminus, hne⟩ := hhead d hd hzero
  have hsign : ((decimalText n).head? == some '-') = false := by simp [htext, hminus]
  have hwhole : ¬ (decimalText n = [] ∨
      (decimalText n).head? = some '0' ∧ 1 < (decimalText n).length) := by simp [htext, hne]
  simp only [readNumber, hsign, Bool.false_eq_true, if_false, htake, hdrop, if_neg hwhole]
  simp [readFractionDigits, readExponent, valueOf_decimalText, toDouble_natCast h]

/-- Digits go on with a number. -/
theorem run_digits {literal text : List Char} (h : ∀ c ∈ text, isNumeric c = true) :
    run ⟨.number literal, stack⟩ text = some ⟨.number (literal ++ text), stack⟩ := by
  induction text generalizing literal with
  | nil => simp
  | cons c text ih =>
    obtain ⟨hc, htext⟩ := List.forall_mem_cons.mp h
    have hstep : step ⟨.number literal, stack⟩ c = some ⟨.number (literal ++ [c]), stack⟩ :=
      if_pos hc
    rw [run_cons, hstep, Option.bind_some, ih htext, List.append_assoc]
    rfl

/-- A number and what ends it. -/
theorem run_decimalText (hpositive : 0 < n) (h : n < 2 ^ 53) {c : Char} (hc : isNumeric c = false) :
    run ⟨.value false, stack⟩ (decimalText n ++ [c]) =
      follow c (complete (.number (some n)) stack) := by
  obtain ⟨d, hd, -, rest, htext⟩ := exists_head hpositive
  have hnumeric : ∀ c ∈ rest, isNumeric c = true := by
    intro c hmem
    obtain ⟨e, he, rfl⟩ := mem_decimalText (n := n) (by rw [htext]; exact List.mem_cons_of_mem _ hmem)
    exact (isDigit_digitChar e he).2
  have hstart : ∀ d < 10, isSpace (digitChar d) = false ∧ digitChar d ≠ quotationMark ∧
      digitChar d ≠ openBrace ∧ digitChar d ≠ '[' ∧ digitChar d ≠ 't' ∧ digitChar d ≠ 'f' ∧
      digitChar d ≠ 'n' := by decide
  obtain ⟨hspace, hquote, hbrace, hbracket, ht, hf, hn⟩ := hstart d hd
  have hbegin : step ⟨.value false, stack⟩ (digitChar d) = some ⟨.number [digitChar d], stack⟩ := by
    simp [step, hspace, start, hquote, hbrace, hbracket, ht, hf, hn, (isDigit_digitChar d hd).1]
  have hread := readNumber_decimalText hpositive h
  rw [htext] at hread ⊢
  rw [List.cons_append, run_cons, hbegin, Option.bind_some, run_append, run_digits hnumeric,
    Option.bind_some, run_cons]
  simp [step, hc, hread]

end naturals

end Json
end AiKanban.Formats
