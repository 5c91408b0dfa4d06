import Mathlib.Data.List.Basic
import Mathlib.Data.List.DropRight
import Mathlib.Tactic

/-!
# Base64

`btoa` and `atob` over bytes, the url-safe spelling of a text without its padding, and the
round trip through it.
-/
namespace AiKanban.Formats

/-- The character of a six-bit group. -/
def letter (n : ℕ) : Char :=
  if n < 26 then Char.ofNat (65 + n)
  else if n < 52 then Char.ofNat (71 + n)
  else if n < 62 then Char.ofNat (n - 4)
  else if n = 62 then '+'
  else '/'

/-- The six-bit group of a character. -/
def sextet (c : Char) : Option ℕ :=
  if 'A' ≤ c ∧ c ≤ 'Z' then some (c.toNat - 65)
  else if 'a' ≤ c ∧ c ≤ 'z' then some (c.toNat - 71)
  else if '0' ≤ c ∧ c ≤ '9' then some (c.toNat + 4)
  else if c = '+' then some 62
  else if c = '/' then some 63
  else none

/-- Three bytes are four groups; a shorter end is filled with zero bits. -/
def toSextets : List ℕ → List ℕ
  | a :: b :: c :: rest =>
      a / 4 :: (a % 4 * 16 + b / 16) :: (b % 16 * 4 + c / 64) :: c % 64 :: toSextets rest
  | [a, b] => [a / 4, a % 4 * 16 + b / 16, b % 16 * 4]
  | [a] => [a / 4, a % 4 * 16]
  | [] => []

/-- The whole bytes of the groups; the bits that are left over are dropped. -/
def ofSextets : List ℕ → List ℕ
  | w :: x :: y :: z :: rest =>
      (w * 4 + x / 16) :: (x % 16 * 16 + y / 4) :: (y % 4 * 64 + z) :: ofSextets rest
  | [w, x, y] => [w * 4 + x / 16, x % 16 * 16 + y / 4]
  | [w, x] => [w * 4 + x / 16]
  | _ => []

def btoa (bytes : List ℕ) : List Char :=
  (toSextets bytes).map letter ++ List.replicate ((3 - bytes.length % 3) % 3) '='

def isAsciiSpace (c : Char) : Bool :=
  c == ' ' || c == '\t' || c == '\n' || c == '\r' || c == Char.ofNat 12

/-- At most two `=` end a text of whole quadruples. -/
def unpadded (chars : List Char) : List Char :=
  if chars.length % 4 = 0 then
    match chars.reverse with
    | '=' :: '=' :: rest => rest.reverse
    | '=' :: rest => rest.reverse
    | _ => chars
  else chars

/-- `none` where `atob` throws. -/
def atob (text : List Char) : Option (List ℕ) :=
  let chars := unpadded (text.filter fun c => !isAsciiSpace c)
  if chars.length % 4 = 1 then none else (chars.mapM sextet).map ofSextets

/-- `+` and `/` give way to `-` and `_`, and the padding goes. -/
def toUrl (text : List Char) : List Char :=
  (text.map fun c => if c = '+' then '-' else if c = '/' then '_' else c).rdropWhile (· == '=')

def ofUrl (text : List Char) : List Char :=
  text.map fun c => if c = '-' then '+' else if c = '_' then '/' else c

section groups

theorem toSextets_lt {bytes : List ℕ} (h : ∀ b ∈ bytes, b < 256) : ∀ n ∈ toSextets bytes, n < 64 := by
  induction bytes using toSextets.induct with
  | case1 a b c rest ih =>
    have ha := h a (by simp)
    have hb := h b (by simp)
    have hc := h c (by simp)
    intro n hn
    simp only [toSextets, List.mem_cons] at hn
    rcases hn with rfl | rfl | rfl | rfl | hn
    · omega
    · omega
    · omega
    · omega
    · exact ih (fun x hx => h x (by simp [hx])) n hn
  | case2 a b =>
    have ha := h a (by simp)
    have hb := h b (by simp)
    intro n hn
    simp only [toSextets, List.mem_cons, List.not_mem_nil, or_false] at hn
    omega
  | case3 a =>
    have ha := h a (by simp)
    intro n hn
    simp only [toSextets, List.mem_cons, List.not_mem_nil, or_false] at hn
    omega
  | case4 => simp [toSextets]

theorem ofSextets_toSextets {bytes : List ℕ} (h : ∀ b ∈ bytes, b < 256) :
    ofSextets (toSextets bytes) = bytes := by
  induction bytes using toSextets.induct with
  | case1 a b c rest ih =>
    have ha := h a (by simp)
    have hb := h b (by simp)
    have hc := h c (by simp)
    rw [toSextets, ofSextets, ih fun x hx => h x (by simp [hx])]
    simp only [List.cons.injEq, and_true]
    omega
  | case2 a b =>
    have ha := h a (by simp)
    have hb := h b (by simp)
    simp only [toSextets, ofSextets, List.cons.injEq, and_true]
    omega
  | case3 a =>
    simp only [toSextets, ofSextets, List.cons.injEq, and_true]
    omega
  | case4 => rfl

theorem length_toSextets (bytes : List ℕ) :
    (toSextets bytes).length % 4 ≠ 1 ∧ (toSextets bytes).length ≤ 2 * bytes.length := by
  induction bytes using toSextets.induct with
  | case1 a b c rest ih =>
    simp only [toSextets, List.length_cons]
    omega
  | case2 a b => simp [toSextets]
  | case3 a => simp [toSextets]
  | case4 => simp [toSextets]

end groups

section letters

/-- What holds of each of the 64 characters. -/
theorem letter_spec : ∀ n < 64, sextet (letter n) = some n ∧ letter n ≠ '=' ∧ letter n ≠ '-' ∧
    letter n ≠ '_' ∧ isAsciiSpace (letter n) = false ∧ (letter n).toNat < 128 := by decide

theorem mapM_sextet_letter {groups : List ℕ} (h : ∀ n ∈ groups, n < 64) :
    (groups.map letter).mapM sextet = some groups := by
  induction groups with
  | nil => rfl
  | cons n groups ih =>
    have hn := (letter_spec n (h n (by simp))).1
    rw [List.map_cons, List.mapM_cons, hn, ih fun x hx => h x (by simp [hx])]
    rfl

/-- The url-safe character of a group. -/
def urlLetter (n : ℕ) : Char :=
  if letter n = '+' then '-' else if letter n = '/' then '_' else letter n

theorem urlLetter_ne {n : ℕ} (h : n < 64) : (urlLetter n == '=') = false := by
  have hspec := (letter_spec n h).2.1
  unfold urlLetter
  split_ifs
  · rfl
  · rfl
  · simpa using hspec

theorem ofUrl_urlLetter {groups : List ℕ} (h : ∀ n ∈ groups, n < 64) :
    ofUrl (groups.map urlLetter) = groups.map letter := by
  rw [ofUrl, List.map_map]
  refine List.map_congr_left fun n hn => ?_
  obtain ⟨-, -, hdash, hline, -⟩ := letter_spec n (h n hn)
  simp only [Function.comp_apply, urlLetter]
  split_ifs <;> simp_all

end letters

section texts

variable {bytes : List ℕ}

/-- The url-safe text is the groups' characters and nothing else. -/
theorem toUrl_btoa (h : ∀ b ∈ bytes, b < 256) :
    toUrl (btoa bytes) = (toSextets bytes).map urlLetter := by
  have hlt := toSextets_lt h
  have hpad : ∀ k, ((List.replicate k '=').map fun c => if c = '+' then '-' else
      if c = '/' then '_' else c) = List.replicate k '=' := by
    intro k
    rw [List.map_replicate]
    rfl
  have hdrop : ∀ k, ((toSextets bytes).map urlLetter ++ List.replicate k '=').rdropWhile (· == '=') =
      (toSextets bytes).map urlLetter := by
    intro k
    induction k with
    | zero =>
      rw [List.replicate_zero, List.append_nil, List.rdropWhile_eq_self_iff]
      intro hne hlast
      obtain ⟨n, hn, heq⟩ := List.mem_map.mp (List.getLast_mem hne)
      rw [← heq, urlLetter_ne (hlt n hn)] at hlast
      cases hlast
    | succ k ih =>
      rw [List.replicate_succ', ← List.append_assoc, List.rdropWhile_concat_pos _ _ _ (by rfl)]
      exact ih
  unfold toUrl btoa
  rw [List.map_append, hpad, List.map_map]
  exact hdrop _

theorem atob_ofUrl_toUrl (h : ∀ b ∈ bytes, b < 256) :
    atob (ofUrl (toUrl (btoa bytes))) = some bytes := by
  have hlt := toSextets_lt h
  obtain ⟨hlength, -⟩ := length_toSextets bytes
  rw [toUrl_btoa h, ofUrl_urlLetter hlt]
  have hfilter : ((toSextets bytes).map letter).filter (fun c => !isAsciiSpace c) =
      (toSextets bytes).map letter := by
    refine List.filter_eq_self.mpr fun c hc => ?_
    obtain ⟨n, hn, rfl⟩ := List.mem_map.mp hc
    simp [(letter_spec n (hlt n hn)).2.2.2.2.1]
  have hunpadded : unpadded ((toSextets bytes).map letter) = (toSextets bytes).map letter := by
    have hnot : ∀ c rest, ((toSextets bytes).map letter).reverse = c :: rest → c ≠ '=' := by
      intro c rest hrev
      have hmem : c ∈ (toSextets bytes).map letter := by
        rw [← List.mem_reverse, hrev]
        exact List.mem_cons_self ..
      obtain ⟨n, hn, rfl⟩ := List.mem_map.mp hmem
      exact (letter_spec n (hlt n hn)).2.1
    unfold unpadded
    split_ifs
    · split
      · next rest hrev => exact absurd rfl (hnot _ _ hrev)
      · next rest _ hrev => exact absurd rfl (hnot _ _ hrev)
      · rfl
    · rfl
  simp only [atob, hfilter, hunpadded, List.length_map, if_neg hlength, mapM_sextet_letter hlt,
    Option.map_some, ofSextets_toSextets h]

theorem length_toUrl (h : ∀ b ∈ bytes, b < 256) :
    (toUrl (btoa bytes)).length ≤ 2 * bytes.length := by
  rw [toUrl_btoa h, List.length_map]
  exact (length_toSextets bytes).2

end texts

example : toUrl (btoa [251, 239, 255, 97]) = ['-', '-', '_', '_', 'Y', 'Q'] := by decide +kernel

end AiKanban.Formats
