import Mathlib.Tactic
import AiKanban.Server.ContentDisposition

/-!
# What an attachment header carries

The header cannot be split or broken out of its quotes, and the full name is read back from it.
-/
namespace AiKanban.Invariants

open Domain Formats Server

section sanitize

variable {filename : String} {c : Char}

theorem mem_of_mem_trim (h : c ∈ (trim filename).toList) : c ∈ filename.toList := by
  rw [trim, String.toList_ofList, List.mem_reverse] at h
  have hreversed := (List.dropWhile_sublist isTrimmed).subset h
  exact (List.dropWhile_sublist isTrimmed).subset (List.mem_reverse.1 hreversed)

/-- No control character, quote, backslash or slash is left. -/
theorem mem_sanitizeFilename (h : c ∈ (sanitizeFilename filename).toList) :
    isControlQuoteOrSeparator c = false := by
  unfold sanitizeFilename at h
  dsimp only at h
  split_ifs at h with hempty
  · have hdownload : ("download".toList.all fun d => !isControlQuoteOrSeparator d) = true := by decide
    simpa using List.all_eq_true.1 hdownload c h
  · have hkept := mem_of_mem_trim h
    rw [String.toList_ofList, List.mem_filter] at hkept
    simpa using hkept.2

theorem sanitizeFilename_ne_empty (filename : String) : sanitizeFilename filename ≠ "" := by
  unfold sanitizeFilename
  dsimp only
  split_ifs with hempty
  · decide
  · exact hempty

theorem isControlQuoteOrSeparator_eq_false (h : isControlQuoteOrSeparator c = false) :
    0x20 ≤ c.toNat ∧ c ≠ '"' ∧ c ≠ '\\' ∧ c ≠ '/' := by
  simp only [isControlQuoteOrSeparator, Bool.or_eq_false_iff, decide_eq_false_iff_not,
    beq_eq_false_iff_ne, ne_eq] at h
  refine ⟨by omega, ?_, ?_, ?_⟩
  all_goals
    rintro rfl
    simp at h

end sanitize

section parts

variable {text : String} {c : Char}

theorem mem_asciiFallback (h : c ∈ (asciiFallback text).toList) :
    isPrintableAscii c = true ∧ (c ∈ text.toList ∨ c = '_') := by
  rw [asciiFallback, String.toList_ofList] at h
  obtain ⟨d, hd, hc⟩ := List.mem_flatMap.1 h
  split_ifs at hc with hprintable
  · obtain rfl := List.mem_singleton.1 hc
    exact ⟨hprintable, Or.inl hd⟩
  · obtain ⟨_, _, rfl⟩ := List.mem_map.1 hc
    exact ⟨by decide, Or.inr rfl⟩

theorem encodeRfc5987_eq (text : String) :
    encodeRfc5987 text =
      percentEncode (fun b => isUnreserved b && !isReservedMark b) (utf8Encode text) := by
  apply percentEncode_percentEncode
  · decide
  · decide
  · exact fun _ => utf8Encode_lt

/-- What is written is printable, and no quote. -/
theorem mem_encodeRfc5987 {b : ℕ} (h : b ∈ encodeRfc5987 text) : 0x20 < b ∧ b < 0x7f ∧ b ≠ 0x22 := by
  rw [encodeRfc5987_eq] at h
  rcases mem_percentEncode (fun _ => utf8Encode_lt) h with hsafe | rfl | ⟨n, hn, rfl⟩
  · simp only [isUnreserved, Bool.and_eq_true, Bool.or_eq_true, beq_iff_eq,
      decide_eq_true_eq] at hsafe
    omega
  · decide
  · have hdigit : ∀ n < 16, 0x20 < hexDigit n ∧ hexDigit n < 0x7f ∧ hexDigit n ≠ 0x22 := by decide
    exact hdigit n hn

theorem decode_encodeRfc5987 (text : String) :
    utf8Decode (percentDecode (encodeRfc5987 text)) = text := by
  rw [encodeRfc5987_eq, percentDecode_percentEncode (by decide) fun _ => utf8Encode_lt,
    utf8Decode_utf8Encode]

end parts

section header

variable {filename : String}

/-- The full name as the header writes it. -/
def extValue (filename : String) : List Char :=
  (encodeRfc5987 (sanitizeFilename filename)).map Char.ofNat

theorem header_eq (filename : String) :
    (contentDispositionAttachment filename).toList =
      "attachment; filename=".toList ++ '"' :: ((asciiFallback (sanitizeFilename filename)).toList ++
        '"' :: ("; filename*=UTF-8''".toList ++ extValue filename)) := by
  have hopen : "attachment; filename=\"".toList = "attachment; filename=".toList ++ ['"'] := by decide
  have hclose : "\"; filename*=UTF-8''".toList = '"' :: "; filename*=UTF-8''".toList := by decide
  unfold contentDispositionAttachment
  simp only [String.toList_append, String.toList_ofList, hopen, hclose, List.append_assoc,
    List.cons_append, List.nil_append]
  rfl

theorem mem_extValue {c : Char} (h : c ∈ extValue filename) :
    c ≠ '"' ∧ 0x20 ≤ c.toNat ∧ c.toNat ≤ 0x7e := by
  obtain ⟨b, hb, rfl⟩ := List.mem_map.1 h
  obtain ⟨hlow, hhigh, hquote⟩ := mem_encodeRfc5987 hb
  have hb := toNat_ofNat (by omega : b < 0x80)
  refine ⟨?_, by omega, by omega⟩
  intro heq
  rw [heq] at hb
  exact hquote hb.symm

theorem map_extValue (filename : String) :
    (extValue filename).map Char.toNat = encodeRfc5987 (sanitizeFilename filename) := by
  have hsame : ∀ b ∈ encodeRfc5987 (sanitizeFilename filename), (Char.ofNat b).toNat = b := by
    intro b hb
    obtain ⟨_, hhigh, _⟩ := mem_encodeRfc5987 hb
    exact toNat_ofNat (by omega)
  rw [extValue, List.map_map]
  exact (List.map_congr_left hsame).trans (List.map_id _)

theorem mem_fallback {c : Char} (h : c ∈ (asciiFallback (sanitizeFilename filename)).toList) :
    c ≠ '"' ∧ c ≠ '\\' ∧ 0x20 ≤ c.toNat ∧ c.toNat ≤ 0x7e := by
  obtain ⟨hprintable, hkept | rfl⟩ := mem_asciiFallback h
  · obtain ⟨_, hquote, hbackslash, _⟩ :=
      isControlQuoteOrSeparator_eq_false (mem_sanitizeFilename hkept)
    simp only [isPrintableAscii, Bool.and_eq_true, decide_eq_true_eq] at hprintable
    exact ⟨hquote, hbackslash, hprintable⟩
  · decide

end header

/-- The header is printable ASCII whose only quotes stand around the fallback, without a backslash
between them. Its last part decodes to the sanitized name, which is not empty and has no control
character, quote, backslash or slash. -/
theorem attachment_header (filename : String) :
    (∀ c ∈ (contentDispositionAttachment filename).toList, 0x20 ≤ c.toNat ∧ c.toNat ≤ 0x7e) ∧
    (∃ fallback ext : List Char,
      (contentDispositionAttachment filename).toList.splitOn '"' =
        ["attachment; filename=".toList, fallback, "; filename*=UTF-8''".toList ++ ext] ∧
      '\\' ∉ fallback ∧
      utf8Decode (percentDecode (ext.map Char.toNat)) = sanitizeFilename filename) ∧
    sanitizeFilename filename ≠ "" ∧
    ∀ c ∈ (sanitizeFilename filename).toList, 0x20 ≤ c.toNat ∧ c ≠ '"' ∧ c ≠ '\\' ∧ c ≠ '/' := by
  have hliteral : (("attachment; filename=".toList ++ "; filename*=UTF-8''".toList).all
      isPrintableAscii) = true := by
    decide
  have hprintable : ∀ c ∈ "attachment; filename=".toList ++ "; filename*=UTF-8''".toList,
      0x20 ≤ c.toNat ∧ c.toNat ≤ 0x7e := by
    intro c hc
    simpa [isPrintableAscii] using List.all_eq_true.1 hliteral c hc
  have hstart : '"' ∉ "attachment; filename=".toList := by decide
  have hmiddle : '"' ∉ (asciiFallback (sanitizeFilename filename)).toList :=
    fun h => (mem_fallback h).1 rfl
  have hend : '"' ∉ "; filename*=UTF-8''".toList ++ extValue filename := by
    intro h
    rcases List.mem_append.1 h with h | h
    · exact absurd h (by decide)
    · exact (mem_extValue h).1 rfl
  refine ⟨?_, ⟨(asciiFallback (sanitizeFilename filename)).toList, extValue filename, ?_, ?_, ?_⟩,
    sanitizeFilename_ne_empty filename, ?_⟩
  · intro c hc
    rw [header_eq] at hc
    simp only [List.mem_append, List.mem_cons] at hc
    rcases hc with hc | rfl | hc | rfl | hc | hc
    · exact hprintable c (List.mem_append_left _ hc)
    · decide
    · exact (mem_fallback hc).2.2
    · decide
    · exact hprintable c (List.mem_append_right _ hc)
    · exact (mem_extValue hc).2
  · rw [header_eq, List.splitOn_append_cons_self_of_not_mem hstart,
      List.splitOn_append_cons_self_of_not_mem hmiddle, List.splitOn_eq_singleton hend]
  · exact fun h => (mem_fallback h).2.1 rfl
  · rw [map_extValue, decode_encodeRfc5987]
  · exact fun c hc => isControlQuoteOrSeparator_eq_false (mem_sanitizeFilename hc)

end AiKanban.Invariants
