import AiKanban.Formats.FormUrlEncoded

/-!
# Percent-encoding

Bytes outside a safe set are written as `%` and two hexadecimal digits. `encodeURIComponent` keeps
letters, digits and a few marks.
-/
namespace AiKanban.Formats

def percentByte (b : ℕ) : List ℕ := [0x25, hexDigit (b / 16), hexDigit (b % 16)]

def percentEncode (safe : ℕ → Bool) (bytes : List ℕ) : List ℕ :=
  bytes.flatMap fun b => if safe b then [b] else percentByte b

/-- Letters, digits and `-_.!~*'()`. -/
def isUnreserved (b : ℕ) : Bool :=
  b == 0x2D || b == 0x5F || b == 0x2E || b == 0x21 || b == 0x7E || b == 0x2A || b == 0x27 ||
    b == 0x28 || b == 0x29 || (0x30 ≤ b && b ≤ 0x39) || (0x41 ≤ b && b ≤ 0x5A) ||
    (0x61 ≤ b && b ≤ 0x7A)

/-- Bytes of several-byte characters are never unreserved. -/
def encodeURIComponent (text : String) : List ℕ := percentEncode isUnreserved (utf8Encode text)

variable {safe kept : ℕ → Bool} {bytes : List ℕ} {b c : ℕ}

theorem percentDecode_percentByte (hb : b < 256) (rest : List ℕ) :
    percentDecode (percentByte b ++ rest) = b :: percentDecode rest := by
  have hhigh := (hexValue_hexDigit (b / 16) (by omega)).1
  have hlow := (hexValue_hexDigit (b % 16) (by omega)).1
  have hbyte : b / 16 * 16 + b % 16 = b := by omega
  simp [percentByte, percentDecode, hhigh, hlow, hbyte]

/-- What was written is read back, when `%` is not safe. -/
theorem percentDecode_percentEncode (hsafe : safe 0x25 = false) (h : ∀ b ∈ bytes, b < 256) :
    percentDecode (percentEncode safe bytes) = bytes := by
  induction bytes with
  | nil => rfl
  | cons b bytes ih =>
    obtain ⟨hb, hbytes⟩ := List.forall_mem_cons.1 h
    have hrest := ih hbytes
    unfold percentEncode at hrest ⊢
    rw [List.flatMap_cons]
    split_ifs with hkept
    · have hpercent : b ≠ 0x25 := by
        rintro rfl
        simp [hsafe] at hkept
      rw [List.singleton_append, percentDecode_cons hpercent, hrest]
    · rw [percentDecode_percentByte hb, hrest]

theorem mem_percentByte (hb : b < 256) (hc : c ∈ percentByte b) :
    c = 0x25 ∨ ∃ n < 16, c = hexDigit n := by
  simp only [percentByte, List.mem_cons, List.not_mem_nil, or_false] at hc
  rcases hc with rfl | rfl | rfl
  · exact Or.inl rfl
  · exact Or.inr ⟨b / 16, by omega, rfl⟩
  · exact Or.inr ⟨b % 16, by omega, rfl⟩

theorem mem_percentEncode (h : ∀ b ∈ bytes, b < 256) (hc : c ∈ percentEncode safe bytes) :
    safe c = true ∨ c = 0x25 ∨ ∃ n < 16, c = hexDigit n := by
  obtain ⟨b, hb, hcb⟩ := List.mem_flatMap.1 hc
  split_ifs at hcb with hsafe
  · obtain rfl := List.mem_singleton.1 hcb
    exact Or.inl hsafe
  · exact Or.inr (mem_percentByte (h b hb) hcb)

/-- Encoding again, when the marks of the first encoding are kept, narrows the safe set. -/
theorem percentEncode_percentEncode (hpercent : kept 0x25 = true)
    (hdigit : ∀ n < 16, kept (hexDigit n) = true) (h : ∀ b ∈ bytes, b < 256) :
    percentEncode kept (percentEncode safe bytes) = percentEncode (fun b => safe b && kept b) bytes := by
  unfold percentEncode
  rw [List.flatMap_assoc]
  apply List.flatMap_congr
  intro b hb
  have hbyte := h b hb
  by_cases hsafe : safe b = true
  · simp [hsafe]
  · have hhigh := hdigit (b / 16) (by omega)
    have hlow := hdigit (b % 16) (by omega)
    simp [hsafe, percentByte, hpercent, hhigh, hlow]

end AiKanban.Formats
