import Mathlib.Data.List.Basic
import Mathlib.Tactic

/-!
# UTF-8

Texts as bytes. The decoder is total: a sequence that breaks off, and a byte that begins none,
stand for the replacement character.
-/
namespace AiKanban.Formats

/-- The bytes of a code point. -/
def utf8OfCode (c : ℕ) : List ℕ :=
  if c < 0x80 then [c]
  else if c < 0x800 then [0xC0 + c / 64, 0x80 + c % 64]
  else if c < 0x10000 then [0xE0 + c / 4096, 0x80 + c / 64 % 64, 0x80 + c % 64]
  else [0xF0 + c / 262144, 0x80 + c / 4096 % 64, 0x80 + c / 64 % 64, 0x80 + c % 64]

def utf8Encode (s : String) : List ℕ := s.toList.flatMap fun c => utf8OfCode c.toNat

/-- A sequence that is being read: its bits so far, how many bytes it needs, and the bounds of
the next one. -/
structure Utf8State where
  code : ℕ
  needed : ℕ
  lower : ℕ
  upper : ℕ

def Utf8State.start : Utf8State := ⟨0, 0, 0x80, 0xBF⟩

/-- Overlong sequences and surrogates are ruled out by the bounds of the second byte. -/
def utf8First (b : ℕ) : List ℕ × Utf8State :=
  if b < 0x80 then ([b], .start)
  else if 0xC2 ≤ b ∧ b ≤ 0xDF then ([], ⟨b - 0xC0, 1, 0x80, 0xBF⟩)
  else if 0xE0 ≤ b ∧ b ≤ 0xEF then
    ([], ⟨b - 0xE0, 2, if b = 0xE0 then 0xA0 else 0x80, if b = 0xED then 0x9F else 0xBF⟩)
  else if 0xF0 ≤ b ∧ b ≤ 0xF4 then
    ([], ⟨b - 0xF0, 3, if b = 0xF0 then 0x90 else 0x80, if b = 0xF4 then 0x8F else 0xBF⟩)
  else ([0xFFFD], .start)

def utf8Next (s : Utf8State) (b : ℕ) : List ℕ × Utf8State :=
  if s.needed = 0 then utf8First b
  else if s.lower ≤ b ∧ b ≤ s.upper then
    if s.needed = 1 then ([s.code * 64 + (b - 0x80)], .start)
    else ([], ⟨s.code * 64 + (b - 0x80), s.needed - 1, 0x80, 0xBF⟩)
  else
    -- The sequence breaks off, and the byte may begin another.
    (0xFFFD :: (utf8First b).1, (utf8First b).2)

def utf8Codes (s : Utf8State) : List ℕ → List ℕ
  | [] => if s.needed = 0 then [] else [0xFFFD]
  | b :: rest => (utf8Next s b).1 ++ utf8Codes (utf8Next s b).2 rest

def utf8Decode (bytes : List ℕ) : String :=
  String.ofList ((utf8Codes .start bytes).map Char.ofNat)

section sequences

variable {s : Utf8State} {b : ℕ} {rest : List ℕ}

theorem utf8Codes_first : utf8Codes .start (b :: rest) =
    (utf8First b).1 ++ utf8Codes (utf8First b).2 rest := rfl

theorem utf8Codes_more (hneeded : 1 < s.needed) (hb : s.lower ≤ b ∧ b ≤ s.upper) :
    utf8Codes s (b :: rest) =
      utf8Codes ⟨s.code * 64 + (b - 0x80), s.needed - 1, 0x80, 0xBF⟩ rest := by
  rw [utf8Codes, utf8Next, if_neg (by omega), if_pos hb, if_neg (by omega), List.nil_append]

theorem utf8Codes_last (hneeded : s.needed = 1) (hb : s.lower ≤ b ∧ b ≤ s.upper) :
    utf8Codes s (b :: rest) = (s.code * 64 + (b - 0x80)) :: utf8Codes .start rest := by
  rw [utf8Codes, utf8Next, if_neg (by omega), if_pos hb, if_pos hneeded]
  rfl

/-- The bytes of a code point that is no surrogate are read as that code point. -/
theorem utf8Codes_utf8OfCode {c : ℕ} (h : c < 0xD800 ∨ 0xE000 ≤ c ∧ c < 0x110000) (rest : List ℕ) :
    utf8Codes .start (utf8OfCode c ++ rest) = c :: utf8Codes .start rest := by
  unfold utf8OfCode
  split_ifs with hone htwo hthree
  · rw [List.singleton_append, utf8Codes_first, utf8First, if_pos hone]
    rfl
  · rw [List.cons_append, List.singleton_append, utf8Codes_first, utf8First, if_neg (by omega),
      if_pos (by omega), List.nil_append, utf8Codes_last rfl (by dsimp only; omega)]
    refine congrArg (· :: utf8Codes .start rest) ?_
    dsimp only
    omega
  · rw [List.cons_append, List.cons_append, List.singleton_append, utf8Codes_first, utf8First,
      if_neg (by omega), if_neg (by omega), if_pos (by omega), List.nil_append,
      utf8Codes_more (by dsimp only; omega) (by dsimp only; split_ifs <;> omega),
      utf8Codes_last rfl (by dsimp only; omega)]
    refine congrArg (· :: utf8Codes .start rest) ?_
    dsimp only
    omega
  · rw [List.cons_append, List.cons_append, List.cons_append, List.singleton_append,
      utf8Codes_first, utf8First, if_neg (by omega), if_neg (by omega), if_neg (by omega),
      if_pos (by omega), List.nil_append,
      utf8Codes_more (by dsimp only; omega) (by dsimp only; split_ifs <;> omega),
      utf8Codes_more (by dsimp only; omega) (by dsimp only; omega),
      utf8Codes_last rfl (by dsimp only; omega)]
    refine congrArg (· :: utf8Codes .start rest) ?_
    dsimp only
    omega

end sequences

theorem toNat_scalar (c : Char) : c.toNat < 0xD800 ∨ 0xE000 ≤ c.toNat ∧ c.toNat < 0x110000 := by
  rcases c.valid with h | h
  · exact Or.inl h
  · exact Or.inr ⟨Nat.lt_of_succ_le (Nat.succ_le_of_lt h.1), h.2⟩

theorem utf8OfCode_lt {c b : ℕ} (hc : c < 0x110000) (hb : b ∈ utf8OfCode c) : b < 256 := by
  unfold utf8OfCode at hb
  split_ifs at hb with hone htwo hthree
  all_goals
    simp only [List.mem_cons, List.not_mem_nil, or_false] at hb
    omega

theorem utf8Encode_lt {text : String} {b : ℕ} (h : b ∈ utf8Encode text) : b < 256 := by
  obtain ⟨c, -, hb⟩ := List.mem_flatMap.mp h
  refine utf8OfCode_lt ?_ hb
  have hscalar := toNat_scalar c
  omega

theorem utf8Codes_flatMap (chars : List Char) :
    utf8Codes .start (chars.flatMap fun c => utf8OfCode c.toNat) = chars.map Char.toNat := by
  induction chars with
  | nil => rfl
  | cons c chars ih => rw [List.flatMap_cons, utf8Codes_utf8OfCode (toNat_scalar c), ih, List.map_cons]

/-- Decoding reads back what was encoded. -/
theorem utf8Decode_utf8Encode (text : String) : utf8Decode (utf8Encode text) = text := by
  have hchars : (text.toList.map Char.toNat).map Char.ofNat = text.toList := by
    rw [List.map_map]
    exact (List.map_congr_left fun c _ => Char.ofNat_toNat c).trans (List.map_id _)
  rw [utf8Decode, utf8Encode, utf8Codes_flatMap, hchars, String.ofList_toList]

theorem toNat_ofNat {b : ℕ} (h : b < 0x80) : (Char.ofNat b).toNat = b := by
  rw [Char.ofNat, dif_pos (Or.inl (by omega))]
  rfl

/-- A text of single bytes is those bytes. -/
theorem utf8Encode_ascii {bytes : List ℕ} (h : ∀ b ∈ bytes, b < 0x80) :
    utf8Encode (String.ofList (bytes.map Char.ofNat)) = bytes := by
  rw [utf8Encode, String.toList_ofList]
  induction bytes with
  | nil => rfl
  | cons b bytes ih =>
    have hb := h b List.mem_cons_self
    rw [List.map_cons, List.flatMap_cons, ih fun x hx => h x (List.mem_cons_of_mem _ hx),
      toNat_ofNat hb, utf8OfCode, if_pos hb]
    rfl

/-- A sequence broken off by a letter, and a surrogate. -/
example : utf8Codes .start [0xE2, 0x82, 0x41, 0xED, 0xA0, 0x80] =
    [0xFFFD, 0x41, 0xFFFD, 0xFFFD, 0xFFFD] := by decide

end AiKanban.Formats
