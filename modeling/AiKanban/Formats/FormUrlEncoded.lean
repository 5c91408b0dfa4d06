import AiKanban.Formats.Utf8

/-!
# `application/x-www-form-urlencoded`

Lists of names and values as query strings. The parser reads any text; what the serializer
wrote it reads back.
-/
namespace AiKanban.Formats

/-- `*`, `-`, `.`, `_`, digits and letters stand for themselves. -/
def isFormSafe (b : ℕ) : Bool :=
  b == 0x2A || b == 0x2D || b == 0x2E || b == 0x5F || (0x30 ≤ b && b ≤ 0x39) ||
    (0x41 ≤ b && b ≤ 0x5A) || (0x61 ≤ b && b ≤ 0x7A)

def hexDigit (n : ℕ) : ℕ := if n < 10 then 0x30 + n else 0x37 + n

def hexValue (b : ℕ) : Option ℕ :=
  if 0x30 ≤ b ∧ b ≤ 0x39 then some (b - 0x30)
  else if 0x41 ≤ b ∧ b ≤ 0x46 then some (b - 0x37)
  else if 0x61 ≤ b ∧ b ≤ 0x66 then some (b - 0x57)
  else none

/-- A space is written as `+`, other bytes by their hexadecimal digits. -/
def formByte (b : ℕ) : List ℕ :=
  if b = 0x20 then [0x2B]
  else if isFormSafe b then [b]
  else [0x25, hexDigit (b / 16), hexDigit (b % 16)]

def formEncode (text : String) : List ℕ := (utf8Encode text).flatMap formByte

/-- A `%` without two digits after it stays. -/
def percentDecode : List ℕ → List ℕ
  | [] => []
  | [b] => [b]
  | [b, c] => [b, c]
  | b :: h :: l :: rest =>
      match (if b = 0x25 then hexValue h else none), hexValue l with
      | some x, some y => (x * 16 + y) :: percentDecode rest
      | _, _ => b :: percentDecode (h :: l :: rest)

def plusToSpace (b : ℕ) : ℕ := if b = 0x2B then 0x20 else b

def formDecode (bytes : List ℕ) : String := utf8Decode (percentDecode (bytes.map plusToSpace))

def formPair (pair : String × String) : List ℕ := formEncode pair.1 ++ 0x3D :: formEncode pair.2

def serializeForm (pairs : List (String × String)) : String :=
  String.ofList ((List.intercalate [0x26] (pairs.map formPair)).map Char.ofNat)

/-- The first `=` ends the name. -/
def parsePair (bytes : List ℕ) : String × String :=
  (formDecode (bytes.takeWhile (· != 0x3D)), formDecode (bytes.dropWhile (· != 0x3D)).tail)

/-- Empty pieces between the `&` say nothing. -/
def parseForm (text : String) : List (String × String) :=
  (((utf8Encode text).splitOn 0x26).filter fun piece => !piece.isEmpty).map parsePair

section bytes

theorem hexValue_hexDigit : ∀ n < 16, hexValue (hexDigit n) = some n ∧ hexDigit n ≠ 0x2B ∧
    hexDigit n < 0x80 ∧ hexDigit n ≠ 0x26 ∧ hexDigit n ≠ 0x3D ∧ hexDigit n ≠ 0x3F := by decide

theorem isFormSafe_ne {b : ℕ} (h : isFormSafe b = true) :
    b < 0x80 ∧ b ≠ 0x25 ∧ b ≠ 0x26 ∧ b ≠ 0x2B ∧ b ≠ 0x3D ∧ b ≠ 0x3F := by
  simp only [isFormSafe, Bool.or_eq_true, Bool.and_eq_true, beq_iff_eq, decide_eq_true_eq] at h
  omega

/-- What is written is ASCII, and no separator nor question mark. -/
theorem formByte_spec {b c : ℕ} (hb : b < 256) (hc : c ∈ formByte b) :
    c < 0x80 ∧ c ≠ 0x26 ∧ c ≠ 0x3D ∧ c ≠ 0x3F := by
  unfold formByte at hc
  split_ifs at hc with hspace hsafe
  · obtain rfl := List.mem_singleton.mp hc
    decide
  · obtain rfl := List.mem_singleton.mp hc
    obtain ⟨hascii, -, hamp, -, hrest⟩ := isFormSafe_ne hsafe
    exact ⟨hascii, hamp, hrest⟩
  · obtain ⟨-, -, hhigh⟩ := hexValue_hexDigit (b / 16) (by omega)
    obtain ⟨-, -, hlow⟩ := hexValue_hexDigit (b % 16) (by omega)
    simp only [List.mem_cons, List.not_mem_nil, or_false] at hc
    rcases hc with rfl | rfl | rfl
    · decide
    · exact hhigh
    · exact hlow

theorem percentDecode_cons {b : ℕ} (h : b ≠ 0x25) (rest : List ℕ) :
    percentDecode (b :: rest) = b :: percentDecode rest := by
  match rest with
  | [] => rfl
  | [_] => rfl
  | _ :: _ :: _ => rw [percentDecode, if_neg h]

/-- Reading a written byte gives the byte. -/
theorem percentDecode_formByte {b : ℕ} (hb : b < 256) (rest : List ℕ) :
    percentDecode ((formByte b).map plusToSpace ++ rest) = b :: percentDecode rest := by
  unfold formByte
  split_ifs with hspace hsafe
  · subst hspace
    exact percentDecode_cons (by decide) rest
  · obtain ⟨-, hpercent, -, hplus, -⟩ := isFormSafe_ne hsafe
    rw [List.map_singleton, plusToSpace, if_neg hplus]
    exact percentDecode_cons hpercent rest
  · obtain ⟨hhigh, hplus, -⟩ := hexValue_hexDigit (b / 16) (by omega)
    obtain ⟨hlow, hplus', -⟩ := hexValue_hexDigit (b % 16) (by omega)
    have hbyte : b / 16 * 16 + b % 16 = b := by omega
    simp only [List.map_cons, List.map_nil, plusToSpace, if_neg hplus, if_neg hplus']
    simp only [List.cons_append, List.nil_append, percentDecode, hhigh, hlow]
    change (b / 16 * 16 + b % 16) :: percentDecode rest = _
    rw [hbyte]

theorem percentDecode_flatMap {bytes : List ℕ} (h : ∀ b ∈ bytes, b < 256) :
    percentDecode ((bytes.flatMap formByte).map plusToSpace) = bytes := by
  induction bytes with
  | nil => rfl
  | cons b bytes ih =>
    rw [List.flatMap_cons, List.map_append, percentDecode_formByte (h b List.mem_cons_self),
      ih fun x hx => h x (List.mem_cons_of_mem _ hx)]

end bytes

section pairs

theorem mem_intercalate {x : ℕ} {sep : List ℕ} {pieces : List (List ℕ)}
    (h : x ∈ List.intercalate sep pieces) : x ∈ sep ∨ ∃ piece ∈ pieces, x ∈ piece := by
  induction pieces with
  | nil => exact absurd h List.not_mem_nil
  | cons piece pieces ih =>
    by_cases hlast : pieces = []
    · subst hlast
      rw [List.intercalate_singleton] at h
      exact Or.inr ⟨piece, List.mem_cons_self, h⟩
    · rw [List.intercalate_cons_of_ne_nil hlast, List.mem_append, List.mem_append] at h
      rcases h with (h | h) | h
      · exact Or.inr ⟨piece, List.mem_cons_self, h⟩
      · exact Or.inl h
      · rcases ih h with hsep | ⟨other, hother, hx⟩
        · exact Or.inl hsep
        · exact Or.inr ⟨other, List.mem_cons_of_mem _ hother, hx⟩

theorem formDecode_formEncode (text : String) : formDecode (formEncode text) = text := by
  rw [formDecode, formEncode, percentDecode_flatMap fun _ => utf8Encode_lt, utf8Decode_utf8Encode]

theorem formEncode_spec {text : String} {c : ℕ} (h : c ∈ formEncode text) :
    c < 0x80 ∧ c ≠ 0x26 ∧ c ≠ 0x3D ∧ c ≠ 0x3F := by
  obtain ⟨b, hb, hc⟩ := List.mem_flatMap.mp h
  exact formByte_spec (utf8Encode_lt hb) hc

theorem formPair_spec {pair : String × String} {c : ℕ} (h : c ∈ formPair pair) :
    c < 0x80 ∧ c ≠ 0x26 ∧ c ≠ 0x3F := by
  rcases List.mem_append.mp h with h | h
  · obtain ⟨hascii, hamp, -, hmark⟩ := formEncode_spec h
    exact ⟨hascii, hamp, hmark⟩
  · rcases List.mem_cons.mp h with rfl | h
    · decide
    · obtain ⟨hascii, hamp, -, hmark⟩ := formEncode_spec h
      exact ⟨hascii, hamp, hmark⟩

theorem parsePair_formPair (pair : String × String) : parsePair (formPair pair) = pair := by
  have hname : ∀ c ∈ formEncode pair.1, (c != 0x3D) = true := fun c hc =>
    bne_iff_ne.mpr (formEncode_spec hc).2.2.1
  rw [parsePair, formPair, List.takeWhile_append_of_pos hname, List.dropWhile_append_of_pos hname]
  simp only [List.takeWhile_cons, List.dropWhile_cons, bne_self_eq_false, Bool.false_eq_true,
    if_false, List.append_nil, List.tail_cons, formDecode_formEncode]

theorem serializeForm_spec {pairs : List (String × String)} {b : ℕ}
    (h : b ∈ List.intercalate [0x26] (pairs.map formPair)) : b < 0x80 ∧ b ≠ 0x3F := by
  rcases mem_intercalate h with h | ⟨piece, hpiece, h⟩
  · obtain rfl := List.mem_singleton.mp h
    decide
  · obtain ⟨p, -, rfl⟩ := List.mem_map.mp hpiece
    obtain ⟨hascii, -, hmark⟩ := formPair_spec h
    exact ⟨hascii, hmark⟩

/-- A question mark is never written as itself. -/
theorem mark_not_mem (pairs : List (String × String)) : '?' ∉ (serializeForm pairs).toList := by
  intro h
  rw [serializeForm, String.toList_ofList] at h
  obtain ⟨b, hb, hchar⟩ := List.mem_map.mp h
  obtain ⟨hascii, hmark⟩ := serializeForm_spec hb
  exact hmark ((toNat_ofNat hascii).symm.trans (congrArg Char.toNat hchar))

/-- Names and values of any kind come back, in order and as often as they were. -/
theorem parseForm_serializeForm (pairs : List (String × String)) :
    parseForm (serializeForm pairs) = pairs := by
  cases pairs with
  | nil => rfl
  | cons pair pairs =>
    have hpieces : ∀ piece ∈ (pair :: pairs).map formPair, 0x26 ∉ piece := by
      intro piece hpiece hamp
      obtain ⟨p, -, rfl⟩ := List.mem_map.mp hpiece
      exact (formPair_spec hamp).2.1 rfl
    have hkept : ((pair :: pairs).map formPair).filter (fun piece => !piece.isEmpty) =
        (pair :: pairs).map formPair := by
      refine List.filter_eq_self.mpr fun piece hpiece => ?_
      obtain ⟨p, -, rfl⟩ := List.mem_map.mp hpiece
      simp [formPair]
    rw [parseForm, serializeForm, utf8Encode_ascii fun b hb => (serializeForm_spec hb).1,
      List.splitOn_intercalate _ hpieces (by simp), hkept, List.map_map]
    exact (List.map_congr_left fun p _ => parsePair_formPair p).trans (List.map_id _)

end pairs

/-- A stray `%`, an empty piece, and a name without a value. -/
example : parseForm "a=100%&&b" = [("a", "100%"), ("b", "")] := by decide

end AiKanban.Formats
