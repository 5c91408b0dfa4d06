import AiKanban.Domain.Schema
import AiKanban.Formats.Base64
import Mathlib.Data.Nat.Digits.Lemmas

/-!
# Cursor tokens

A keyset cursor is the creation time and the id of a row, as base64url JSON.
-/
namespace AiKanban.Domain

open Formats

/-- Cards paginate on the number of the card, events on the uuid of the event. -/
inductive CursorId where
  | uuid (id : Uuid)
  | number (id : ℕ)
  deriving DecidableEq

structure CursorKey where
  createdAt : Instant
  id : CursorId
  deriving DecidableEq

def doubleQuote : Char := Char.ofNat 34
def closeBrace : Char := Char.ofNat 125

/-- The texts behind the instants and the uuids: the schemas read them back, and JSON
writes them as they are. -/
class KeyTexts where
  instantText : Instant → List Char
  uuidText : Uuid → List Char
  readInstant : List Char → Option Instant
  readUuid : List Char → Option Uuid
  read_instantText : ∀ t, readInstant (instantText t) = some t
  read_uuidText : ∀ id, readUuid (uuidText id) = some id
  plain_instantText : ∀ t, ∀ c ∈ instantText t, c.toNat < 128 ∧ c ≠ doubleQuote
  plain_uuidText : ∀ id, ∀ c ∈ uuidText id, c.toNat < 128 ∧ c ≠ doubleQuote

section decimals

def digit (d : ℕ) : Char := Char.ofNat (48 + d)

def isDigit (c : Char) : Bool := 48 ≤ c.toNat && c.toNat < 58

/-- The decimal digits of a number. -/
def decimal (n : ℕ) : List Char :=
  if n = 0 then [digit 0] else ((Nat.digits 10 n).map digit).reverse

def readDecimal (text : List Char) : Option ℕ :=
  if text ≠ [] ∧ text.all isDigit then some (Nat.ofDigits 10 (text.reverse.map fun c => c.toNat - 48))
  else none

theorem digit_spec : ∀ d < 10, isDigit (digit d) = true ∧ (digit d).toNat - 48 = d ∧
    (digit d).toNat < 128 ∧ digit d ≠ doubleQuote := by decide

theorem decimal_digits (n : ℕ) : ∀ c ∈ decimal n, ∃ d < 10, c = digit d := by
  intro c hc
  unfold decimal at hc
  split_ifs at hc with hzero
  · exact ⟨0, by omega, List.mem_singleton.mp hc⟩
  · obtain ⟨d, hd, rfl⟩ := List.mem_map.mp (List.mem_reverse.mp hc)
    exact ⟨d, Nat.digits_lt_base (by omega) hd, rfl⟩

theorem decimal_ne_nil (n : ℕ) : decimal n ≠ [] := by
  unfold decimal
  split_ifs with hzero
  · simp
  · simpa [Nat.digits_eq_nil_iff_eq_zero] using hzero

theorem readDecimal_decimal (n : ℕ) : readDecimal (decimal n) = some n := by
  have hall : (decimal n).all isDigit = true := by
    refine List.all_eq_true.mpr fun c hc => ?_
    obtain ⟨d, hd, rfl⟩ := decimal_digits n c hc
    exact (digit_spec d hd).1
  rw [readDecimal, if_pos ⟨decimal_ne_nil n, hall⟩, Option.some.injEq]
  unfold decimal
  split_ifs with hzero
  · subst hzero
    decide
  · rw [List.reverse_reverse, List.map_map]
    have hsame : (Nat.digits 10 n).map ((fun c : Char => c.toNat - 48) ∘ digit) =
        (Nat.digits 10 n).map id :=
      List.map_congr_left fun d hd => (digit_spec d (Nat.digits_lt_base (by omega) hd)).2.1
    rw [hsame, List.map_id, Nat.ofDigits_digits]

theorem length_decimal {n : ℕ} (h : n ≤ 9007199254740991) : (decimal n).length ≤ 16 := by
  unfold decimal
  split_ifs
  · simp
  · rw [List.length_reverse, List.length_map, Nat.digits_length_le_iff (by omega)]
    omega

end decimals

section texts

variable [KeyTexts]

/-- The head of the JSON text, up to the creation time. -/
def createdAtHead : List Char := "\x7b\"createdAt\":\"".toList

def idHead : List Char := doubleQuote :: ",\"id\":".toList

def idText : CursorId → List Char
  | .uuid id => doubleQuote :: (KeyTexts.uuidText id ++ [doubleQuote])
  | .number id => decimal id

/-- `JSON.stringify` of a key. -/
def keyText (key : CursorKey) : List Char :=
  createdAtHead ++ (KeyTexts.instantText key.createdAt ++ (idHead ++ (idText key.id ++ [closeBrace])))

/-- The id and the end of the text; a number has no leading zeros. -/
def readId (text : List Char) : Option CursorId :=
  if text.head? = some doubleQuote then
    if text.tail.dropWhile (· != doubleQuote) = [doubleQuote, closeBrace] then
      (KeyTexts.readUuid (text.tail.takeWhile (· != doubleQuote))).map .uuid
    else none
  else if text.getLast? = some closeBrace then
    ((readDecimal text.dropLast).filter fun id =>
      decimal id == text.dropLast && 1 ≤ id && id ≤ 9007199254740991).map .number
  else none

/-- `JSON.parse` of a text as `JSON.stringify` writes it, then the schema; the same object
in another spelling is refused. -/
def readKey (text : List Char) : Option CursorKey := do
  let rest ← createdAtHead.isPrefixOf? text
  let createdAt ← KeyTexts.readInstant (rest.takeWhile (· != doubleQuote))
  let id ← readId (← idHead.isPrefixOf? (rest.dropWhile (· != doubleQuote)))
  return ⟨createdAt, id⟩

def encodeCursor (key : CursorKey) : Except DomainError String := do
  match key.id with
  | .number id => integerAtLeast ["id"] 1 id
  | .uuid _ => .ok ()
  return String.ofList (toUrl (btoa ((keyText key).map Char.toNat)))

/-- Whatever is wrong with a token, it is the schema that says so. -/
def decodeCursor (token : String) : Except DomainError CursorKey :=
  match (atob (ofUrl token.toList)).bind fun bytes => readKey (bytes.map Char.ofNat) with
  | some key => .ok key
  | none => .error (.invalidInput [])

end texts

section roundTrip

theorem takeWhile_quote {text : List Char} (rest : List Char) (h : ∀ c ∈ text, c ≠ doubleQuote) :
    (text ++ doubleQuote :: rest).takeWhile (· != doubleQuote) = text ∧
      (text ++ doubleQuote :: rest).dropWhile (· != doubleQuote) = doubleQuote :: rest := by
  induction text with
  | nil => simp
  | cons c text ih =>
    have hc : (c != doubleQuote) = true := by simpa using h c (by simp)
    obtain ⟨htake, hdrop⟩ := ih fun x hx => h x (by simp [hx])
    simp [hc, htake, hdrop]

/-- The schema accepts the key: a card's number is a positive safe integer. -/
def CursorKey.Valid (key : CursorKey) : Prop :=
  ∀ id, key.id = .number id → 1 ≤ id ∧ id ≤ 9007199254740991

theorem utf16Length_le (text : List Char) : utf16Length (String.ofList text) ≤ 2 * text.length := by
  rw [utf16Length, String.toList_ofList]
  induction text with
  | nil => rfl
  | cons c text ih =>
    simp only [List.map_cons, List.sum_cons, List.length_cons]
    split_ifs <;> omega

theorem ofNat_toNat (text : List Char) : (text.map Char.toNat).map Char.ofNat = text := by
  rw [List.map_map]
  exact List.map_id'' (fun c => Char.ofNat_toNat c) text

theorem forall_mem_of_all {p : Char → Prop} [DecidablePred p] {text : List Char}
    (h : text.all (fun c => decide (p c)) = true) : ∀ c ∈ text, p c := by
  simpa using h

variable [KeyTexts]

theorem readId_idText {id : CursorId} (h : ∀ n, id = .number n → 1 ≤ n ∧ n ≤ 9007199254740991) :
    readId (idText id ++ [closeBrace]) = some id := by
  cases id with
  | uuid id =>
    obtain ⟨htake, hdrop⟩ := takeWhile_quote [closeBrace] fun c hc =>
      (KeyTexts.plain_uuidText id c hc).2
    have htext : idText (.uuid id) ++ [closeBrace] =
        doubleQuote :: (KeyTexts.uuidText id ++ doubleQuote :: [closeBrace]) := by
      simp [idText]
    rw [htext, readId, List.head?_cons, if_pos rfl, List.tail_cons, hdrop, if_pos rfl, htake,
      KeyTexts.read_uuidText, Option.map_some]
  | number n =>
    have hhead : (decimal n ++ [closeBrace]).head? ≠ some doubleQuote := by
      cases htext : decimal n with
      | nil => exact absurd htext (decimal_ne_nil n)
      | cons c rest =>
        obtain ⟨d, hd, rfl⟩ := decimal_digits n c (by simp [htext])
        simpa using (digit_spec d hd).2.2.2
    obtain ⟨hlo, hhi⟩ := h n rfl
    rw [idText, readId, if_neg hhead, List.getLast?_concat, if_pos rfl, List.dropLast_concat,
      readDecimal_decimal]
    simp [hlo, hhi]

theorem readKey_keyText {key : CursorKey} (h : key.Valid) : readKey (keyText key) = some key := by
  obtain ⟨createdAt, id⟩ := key
  obtain ⟨htake, hdrop⟩ := takeWhile_quote (",\"id\":".toList ++ (idText id ++ [closeBrace]))
    fun c hc => (KeyTexts.plain_instantText createdAt c hc).2
  have hprefix : ∀ front back : List Char, front.isPrefixOf? (front ++ back) = some back :=
    fun front back => List.isPrefixOf?_eq_some_iff_append_eq.mpr rfl
  have hhead : idHead ++ (idText id ++ [closeBrace]) =
      doubleQuote :: (",\"id\":".toList ++ (idText id ++ [closeBrace])) := rfl
  rw [keyText, readKey, hprefix]
  simp only [Option.bind_eq_bind, Option.bind_some]
  rw [hhead, htake, hdrop, ← hhead, hprefix, KeyTexts.read_instantText]
  simp only [Option.bind_some]
  rw [readId_idText h]
  rfl

/-- The texts are ASCII, so each character is one byte. -/
theorem keyText_ascii (key : CursorKey) : ∀ c ∈ keyText key, c.toNat < 128 := by
  have hhead : ∀ c ∈ createdAtHead, c.toNat < 128 := forall_mem_of_all (by decide)
  have hid : ∀ c ∈ idHead, c.toNat < 128 := forall_mem_of_all (by decide)
  intro c hc
  simp only [keyText, List.mem_append, List.mem_singleton] at hc
  rcases hc with hc | hc | hc | hc | rfl
  · exact hhead c hc
  · exact (KeyTexts.plain_instantText _ c hc).1
  · exact hid c hc
  · cases hkey : key.id with
    | uuid id =>
      rw [hkey] at hc
      simp only [idText, List.mem_cons, List.mem_append, List.not_mem_nil, or_false] at hc
      rcases hc with rfl | hc | rfl
      · decide
      · exact (KeyTexts.plain_uuidText _ c hc).1
      · decide
    | number n =>
      rw [hkey] at hc
      obtain ⟨d, hd, rfl⟩ := decimal_digits n c hc
      exact (digit_spec d hd).2.2.1
  · decide

/-- The token of a key. -/
def tokenOf (key : CursorKey) : String := String.ofList (toUrl (btoa ((keyText key).map Char.toNat)))

theorem encodeCursor_eq {key : CursorKey} (h : key.Valid) : encodeCursor key = .ok (tokenOf key) := by
  unfold encodeCursor
  cases hkey : key.id with
  | uuid id => rfl
  | number n =>
    obtain ⟨hlo, hhi⟩ := h n hkey
    simp only [integerAtLeast, check, hlo, hhi, decide_true, Bool.and_self, if_true]
    rfl

/-- A token names the key it was made from. -/
theorem decodeCursor_tokenOf {key : CursorKey} (h : key.Valid) :
    decodeCursor (tokenOf key) = .ok key := by
  have hbytes : ∀ b ∈ (keyText key).map Char.toNat, b < 256 := by
    intro b hb
    obtain ⟨c, hc, rfl⟩ := List.mem_map.mp hb
    have := keyText_ascii key c hc
    omega
  rw [decodeCursor, tokenOf, String.toList_ofList, atob_ofUrl_toUrl hbytes, Option.bind_some,
    ofNat_toNat, readKey_keyText h]

/-- The texts are as short as those of a datetime and a uuid. -/
def CursorKey.Short (key : CursorKey) : Prop :=
  (KeyTexts.instantText key.createdAt).length ≤ 64 ∧
    ∀ id, key.id = .uuid id → (KeyTexts.uuidText id).length ≤ 36

/-- A token is within the length that a request may carry. -/
theorem length_tokenOf {key : CursorKey} (h : key.Valid) (hshort : key.Short) :
    utf16Length (tokenOf key) ≤ 500 := by
  have hbytes : ∀ b ∈ (keyText key).map Char.toNat, b < 256 := by
    intro b hb
    obtain ⟨c, hc, rfl⟩ := List.mem_map.mp hb
    have := keyText_ascii key c hc
    omega
  have hid : (idText key.id).length ≤ 38 := by
    cases hkey : key.id with
    | uuid id =>
      have := hshort.2 id hkey
      simp only [idText, List.length_cons, List.length_append, List.length_nil]
      omega
    | number n =>
      have hn : (decimal n).length ≤ 16 := length_decimal (h n hkey).2
      simp only [idText]
      omega
  have hhead : createdAtHead.length = 14 := by decide
  have hidHead : idHead.length = 7 := by decide
  have htext : (keyText key).length ≤ 124 := by
    have := hshort.1
    simp only [keyText, List.length_append, List.length_cons, List.length_nil, hhead, hidHead]
    omega
  have hurl := length_toUrl hbytes
  have hutf := utf16Length_le (toUrl (btoa ((keyText key).map Char.toNat)))
  rw [List.length_map] at hurl
  unfold tokenOf
  omega

end roundTrip

/-- Texts to evaluate tokens on: signed decimals. -/
@[reducible] def sampleTexts : KeyTexts where
  instantText
    | .ofNat n => decimal n
    | .negSucc n => '-' :: decimal n
  uuidText := decimal
  readInstant
    | '-' :: text => (readDecimal text).map Int.negSucc
    | text => (readDecimal text).map Int.ofNat
  readUuid := readDecimal
  read_instantText t := by
    cases t with
    | ofNat n =>
      have hnot : ∀ text, decimal n ≠ '-' :: text := by
        intro text heq
        obtain ⟨d, hd, hminus⟩ := decimal_digits n '-' (by simp [heq])
        have hdigit := (digit_spec d hd).1
        rw [← hminus] at hdigit
        exact absurd hdigit (by decide)
      simp only [readDecimal_decimal, Option.map_some]
    | negSucc n => simp only [readDecimal_decimal, Option.map_some]
  read_uuidText := readDecimal_decimal
  plain_instantText t c hc := by
    cases t with
    | ofNat n =>
      obtain ⟨d, hd, rfl⟩ := decimal_digits n c hc
      exact (digit_spec d hd).2.2
    | negSucc n =>
      rcases List.mem_cons.mp hc with rfl | hc
      · decide
      · obtain ⟨d, hd, rfl⟩ := decimal_digits n c hc
        exact (digit_spec d hd).2.2
  plain_uuidText id c hc := by
    obtain ⟨d, hd, rfl⟩ := decimal_digits id c hc
    exact (digit_spec d hd).2.2

end AiKanban.Domain
