import Mathlib.Tactic
import AiKanban.Formats.Words
import AiKanban.Server.AdminServices

/-!
# Machine keys of lanes

A label's slug is the words of its lower-case form joined by underscores. The key is the first of the
slug and its numbered forms that is free.
-/
namespace AiKanban.Invariants

open Domain Db Formats Server LaneAdminService

section slug

/-- The words joined by underscores, as the rewrites of the label leave them. -/
def joinedWords (text : List Char) : List Char :=
  ['_'].intercalate (words (fun c => !isKeyChar c) text)

/-- A letter in front, at most 36 characters, and a name for a label without words. -/
def slugOf (text : List Char) : List Char :=
  let joined := joinedWords text
  let lettered :=
    if joined.head?.any fun c => '0' ≤ c && c ≤ '9' then "lane_".toList ++ joined else joined
  if joined = [] then "lane".toList else lettered.take 36

variable {text : List Char} {c : Char}

theorem slugChars_eq (text : List Char) :
    slugChars text = collapseRuns (fun c => !isKeyChar c) '_' text := by
  induction text with
  | nil => rfl
  | cons c text ih =>
    cases h : isKeyChar c with
    | true => rw [slugChars, if_pos h, ih, collapseRuns_cons_of_neg (by simp [h])]
    | false =>
      rw [slugChars, if_neg (by simp [h]), ih, collapseRuns_cons_of_pos (by simp [h])]
      cases text with
      | nil => rfl
      | cons d text =>
        cases hd : isKeyChar d with
        | true =>
          have hne : d ≠ '_' := by
            rintro rfl
            revert hd
            decide
          rw [List.dropWhile_cons_of_neg (by simp [hd]), collapseRuns_cons_of_neg (by simp [hd])]
          simp [hne]
        | false =>
          rw [List.dropWhile_cons_of_pos (by simp [hd]), collapseRuns_cons_of_pos (by simp [hd])]
          rfl

theorem mem_slugChars (h : c ∈ slugChars text) : c = '_' ∨ isKeyChar c = true := by
  rw [slugChars_eq] at h
  simpa using mem_collapseRuns h

theorem strip_slugChars (text : List Char) : strip (· == '_') (slugChars text) = joinedWords text := by
  have hsame : strip (· == '_') (slugChars text) = strip (fun c => !isKeyChar c) (slugChars text) := by
    apply strip_congr
    intro c hc
    rcases mem_slugChars hc with rfl | hkey
    · decide
    · have hne : c ≠ '_' := by
        rintro rfl
        revert hkey
        decide
      simp [hkey, hne]
  rw [hsame, slugChars_eq, strip_collapseRuns (by decide), joinedWords]

theorem mem_joinedWords (h : c ∈ joinedWords text) : c = '_' ∨ isKeyChar c = true := by
  rw [← strip_slugChars] at h
  exact mem_slugChars ((strip_sublist _).subset h)

/-- A slug starts with a letter or a digit. -/
theorem isKeyChar_of_joinedWords {rest : List Char} (h : joinedWords text = c :: rest) :
    isKeyChar c = true := by
  rw [joinedWords, ← strip_collapseRuns (by decide)] at h
  simpa using neg_of_strip h

theorem isSlug_ofList {rest : List Char} (hletter : isLowerLetter c = true)
    (hrest : ∀ d ∈ rest, d = '_' ∨ isKeyChar d = true) : isSlug (String.ofList (c :: rest)) = true := by
  unfold isSlug
  rw [String.toList_ofList]
  simp only [hletter, Bool.true_and, List.all_eq_true]
  intro d hd
  rcases hrest d hd with rfl | hkey
  · decide
  · unfold isKeyChar at hkey
    rw [hkey, Bool.true_or]

theorem isSlug_slugOf (text : List Char) : isSlug (String.ofList (slugOf text)) = true := by
  unfold slugOf
  dsimp only
  cases h : joinedWords text with
  | nil => decide
  | cons c rest =>
    have hchars : ∀ d ∈ c :: rest, d = '_' ∨ isKeyChar d = true := by
      intro d hd
      rw [← h] at hd
      exact mem_joinedWords hd
    rw [if_neg (by simp)]
    split_ifs with hdigit
    · have hall : ∀ d ∈ "ane_".toList ++ (c :: rest), d = '_' ∨ isKeyChar d = true := by
        intro d hd
        rcases List.mem_append.1 hd with hd | hd
        · have hname : ("ane_".toList.all fun d => d == '_' || isKeyChar d) = true := by decide
          simpa using List.all_eq_true.1 hname d hd
        · exact hchars d hd
      exact isSlug_ofList (c := 'l') (by decide) fun d hd => hall d (List.mem_of_mem_take hd)
    · have hkey := isKeyChar_of_joinedWords h
      have hletter : isLowerLetter c = true := by
        simp only [isKeyChar, Bool.or_eq_true, Bool.and_eq_true, decide_eq_true_eq] at hkey
        apply hkey.resolve_right
        intro hc
        exact hdigit (by simpa using hc)
      exact isSlug_ofList hletter fun d hd =>
        hchars d (List.mem_cons_of_mem _ (List.mem_of_mem_take hd))

end slug

section base

variable [Platform]

theorem laneKeyBase_eq (label : String) :
    laneKeyBase label = String.ofList (slugOf (Platform.toLowerCase label).toList) := by
  have hbare : ((((slugChars (Platform.toLowerCase label).toList).dropWhile (· == '_')).reverse).dropWhile
      (· == '_')).reverse = joinedWords (Platform.toLowerCase label).toList :=
    strip_slugChars _
  unfold laneKeyBase slugOf
  dsimp only
  rw [hbare]
  cases joinedWords (Platform.toLowerCase label).toList with
  | nil => rfl
  | cons c rest =>
    by_cases hdigit : '0' ≤ c ∧ c ≤ '9'
    · simp [hdigit]
    · simp [hdigit]

end base

section candidates

variable (base : String) (taken : List LaneKey)

/-- The slug and its numbered forms, from two on. -/
def laneKeyCandidate : ℕ → LaneKey
  | 0 => base
  | n + 1 => base ++ "_" ++ toString (n + 2)

/-- The loop over a key and the next suffix: it ends at a key that is not taken. -/
inductive KeyLoop : LaneKey → ℕ → LaneKey → Prop
  | free {key : LaneKey} {suffix : ℕ} (h : key ∉ taken) : KeyLoop key suffix key
  | next {key result : LaneKey} {suffix : ℕ} (h : key ∈ taken)
      (hrest : KeyLoop (base ++ "_" ++ toString suffix) (suffix + 1) result) :
      KeyLoop key suffix result

variable {base taken}

theorem toList_numbered (n : ℕ) :
    (base ++ "_" ++ toString n).toList = base.toList ++ '_' :: Nat.toDigits 10 n := by
  have hdigits : (toString n).toList = Nat.toDigits 10 n := Nat.toList_repr
  have hmark : "_".toList = ['_'] := by decide
  rw [String.toList_append, String.toList_append, hdigits, hmark, List.append_assoc]
  rfl

theorem laneKeyCandidate_injective : Function.Injective (laneKeyCandidate base) := by
  intro n m h
  have hlist := congrArg String.toList h
  cases n with
  | zero =>
    cases m with
    | zero => rfl
    | succ m =>
      rw [laneKeyCandidate, laneKeyCandidate, toList_numbered] at hlist
      simpa using congrArg List.length hlist
  | succ n =>
    cases m with
    | zero =>
      rw [laneKeyCandidate, laneKeyCandidate, toList_numbered] at hlist
      simpa using congrArg List.length hlist
    | succ m =>
      rw [laneKeyCandidate, laneKeyCandidate, toList_numbered, toList_numbered] at hlist
      have hdigits : Nat.toDigits 10 (n + 2) = Nat.toDigits 10 (m + 2) := by simpa using hlist
      have hvalue := congrArg (fun digits => Nat.ofDigitChars 10 digits 0) hdigits
      simp only [Nat.ofDigitChars_ten_toDigits] at hvalue
      omega

theorem exists_free {α : Type} {candidate : ℕ → α} (hinj : Function.Injective candidate)
    (taken : List α) : ∃ n ≤ taken.length, candidate n ∉ taken := by
  by_contra h
  push Not at h
  have hnodup : ((List.range (taken.length + 1)).map candidate).Nodup := List.nodup_range.map hinj
  have hsub : (List.range (taken.length + 1)).map candidate ⊆ taken := by
    intro a ha
    obtain ⟨n, hn, rfl⟩ := List.mem_map.1 ha
    exact h n (Nat.le_of_lt_succ (List.mem_range.1 hn))
  have hlength := (hnodup.subperm hsub).length_le
  rw [List.length_map, List.length_range] at hlength
  omega

/-- A sequence without repetitions has a first free place, one of as many as are taken and one more. -/
theorem exists_first_free {α : Type} [DecidableEq α] {candidate : ℕ → α}
    (hinj : Function.Injective candidate) (taken : List α) :
    ∃ n ≤ taken.length, candidate n ∉ taken ∧ ∀ m < n, candidate m ∈ taken := by
  obtain ⟨k, hk, hfree⟩ := exists_free hinj taken
  have hsome : ∃ n, candidate n ∉ taken := ⟨k, hfree⟩
  refine ⟨Nat.find hsome, (Nat.find_min' hsome hfree).trans hk, Nat.find_spec hsome, ?_⟩
  intro m hm
  simpa using Nat.find_min hsome hm

theorem isSlug_laneKeyCandidate (h : isSlug base = true) (n : ℕ) :
    isSlug (laneKeyCandidate base n) = true := by
  cases n with
  | zero => exact h
  | succ n =>
    unfold isSlug at h ⊢
    rw [laneKeyCandidate, toList_numbered]
    cases hlist : base.toList with
    | nil => simp [hlist] at h
    | cons c rest =>
      rw [hlist] at h
      simp only [List.cons_append, List.all_append, List.all_cons, Bool.and_eq_true] at h ⊢
      refine ⟨h.1, h.2, by decide, List.all_eq_true.2 ?_⟩
      intro d hd
      have hdigit := Nat.isDigit_of_mem_toDigits (by decide) (by decide) hd
      simp only [Char.isDigit, Bool.and_eq_true, decide_eq_true_eq] at hdigit
      simp only [Bool.or_eq_true, Bool.and_eq_true, decide_eq_true_eq]
      exact Or.inl (Or.inr hdigit)

theorem utf16Length_append (s t : String) : utf16Length (s ++ t) = utf16Length s + utf16Length t := by
  rw [utf16Length, String.toList_append, List.map_append, List.sum_append]
  rfl

theorem utf16Length_repr (n : ℕ) : utf16Length (toString n) = n.repr.length := by
  have hsmall : ∀ c ∈ (toString n).toList, (if c.toNat < 0x10000 then 1 else 2) = 1 := by
    intro c hc
    have hdigits : (toString n).toList = Nat.toDigits 10 n := Nat.toList_repr
    rw [hdigits] at hc
    have hdigit := Nat.isDigit_of_mem_toDigits (by decide) (by decide) hc
    simp only [Char.isDigit, Bool.and_eq_true, decide_eq_true_eq] at hdigit
    have hlast : c.toNat ≤ 57 := UInt32.le_iff_toNat_le.1 hdigit.2
    exact if_pos (by omega)
  rw [utf16Length, List.map_congr_left hsmall, List.map_const', List.sum_replicate, smul_eq_mul,
    mul_one]
  exact String.length_toList

/-- A later candidate is not shorter. -/
theorem utf16Length_mono {m n : ℕ} (h : m ≤ n) :
    utf16Length (laneKeyCandidate base m) ≤ utf16Length (laneKeyCandidate base n) := by
  cases m with
  | zero =>
    cases n with
    | zero => exact le_refl _
    | succ n =>
      rw [laneKeyCandidate, laneKeyCandidate, utf16Length_append, utf16Length_append]
      omega
  | succ m =>
    cases n with
    | zero => omega
    | succ n =>
      have hpos : 0 < (n + 2).repr.length := Nat.length_repr_pos
      have hlarge := (Nat.length_repr_le_iff hpos).1 (le_refl _)
      have hdigits : (m + 2).repr.length ≤ (n + 2).repr.length :=
        (Nat.length_repr_le_iff hpos).2 (by omega)
      simp only [laneKeyCandidate, utf16Length_append, utf16Length_repr]
      omega

end candidates

section loop

variable {base : String} {taken : List LaneKey}

/-- The loop passes the taken candidates and ends at the first free one. -/
theorem keyLoop_of_first_free (distance : ℕ) {k n : ℕ} (hn : n = k + distance)
    (hfree : laneKeyCandidate base n ∉ taken)
    (htaken : ∀ m, k ≤ m → m < n → laneKeyCandidate base m ∈ taken) :
    KeyLoop base taken (laneKeyCandidate base k) (k + 2) (laneKeyCandidate base n) := by
  induction distance generalizing k with
  | zero =>
    obtain rfl : n = k := hn
    exact .free hfree
  | succ distance ih =>
    have hrest := ih (k := k + 1) (by omega) fun m hk hm => htaken m (by omega) hm
    exact .next (htaken k (le_refl k) (by omega)) hrest

theorem freeKey_eq (distance fuel : ℕ) {k n : ℕ} (hn : n = k + 1 + distance) (hfuel : distance ≤ fuel)
    (hfree : laneKeyCandidate base n ∉ taken)
    (htaken : ∀ m, k < m → m < n → laneKeyCandidate base m ∈ taken) :
    freeKey base taken fuel (k + 2) = laneKeyCandidate base n := by
  induction distance generalizing k fuel with
  | zero =>
    obtain rfl : n = k + 1 := hn
    cases fuel with
    | zero => rfl
    | succ fuel =>
      unfold freeKey
      dsimp only
      rw [if_neg]
      · rfl
      · simpa [laneKeyCandidate] using hfree
  | succ distance ih =>
    cases fuel with
    | zero => omega
    | succ fuel =>
      have hrest := ih (k := k + 1) fuel (by omega) (by omega) fun m hk hm => htaken m (by omega) hm
      have hnext := htaken (k + 1) (by omega) (by omega)
      unfold freeKey
      dsimp only
      rw [if_pos]
      · exact hrest
      · simpa [laneKeyCandidate] using hnext

end loop

section keys

theorem slugKey_ok_iff {path : List String} {key : String} :
    slugKey path key = .ok () ↔ isSlug key = true ∧ utf16Length key ≤ 40 := by
  rw [slugKey, check_ok_iff, Bool.and_eq_true, decide_eq_true_eq]

variable [Platform] {label : String} {taken : List LaneKey}

theorem uniqueLaneKey_eq {n : ℕ} (hbound : n ≤ taken.length)
    (hfree : laneKeyCandidate (laneKeyBase label) n ∉ taken)
    (htaken : ∀ m < n, laneKeyCandidate (laneKeyBase label) m ∈ taken) :
    uniqueLaneKey label taken = (do
      slugKey [] (laneKeyCandidate (laneKeyBase label) n)
      return laneKeyCandidate (laneKeyBase label) n) := by
  have hkey : (if taken.contains (laneKeyBase label) then
      freeKey (laneKeyBase label) taken taken.length 2 else laneKeyBase label) =
      laneKeyCandidate (laneKeyBase label) n := by
    cases n with
    | zero =>
      rw [if_neg]
      · rfl
      · simpa [laneKeyCandidate] using hfree
    | succ n =>
      have hbase := htaken 0 (by omega)
      rw [if_pos (by simpa [laneKeyCandidate] using hbase)]
      exact freeKey_eq n taken.length (by omega) (by omega) hfree fun m _ hm => htaken m hm
  unfold uniqueLaneKey
  dsimp only
  rw [hkey]

/-- The candidates of a label. -/
def candidateOf (label : String) (n : ℕ) : LaneKey :=
  laneKeyCandidate (String.ofList (slugOf (Platform.toLowerCase label).toList)) n

/-- The loop ends with a key that is free, and the schema takes it. -/
def DerivesKey (label : String) (taken : List LaneKey) : Prop :=
  ∃ key, KeyLoop (laneKeyBase label) taken (laneKeyBase label) 2 key ∧ key ∉ taken ∧
    uniqueLaneKey label taken = .ok key

theorem candidateOf_eq (label : String) (n : ℕ) :
    candidateOf label n = laneKeyCandidate (laneKeyBase label) n := by
  rw [candidateOf, laneKeyBase_eq]

theorem isSlug_candidateOf (label : String) (n : ℕ) : isSlug (candidateOf label n) = true :=
  isSlug_laneKeyCandidate (isSlug_slugOf _) n

/-- The first free candidate is where the loop ends and what the schema is asked about. -/
theorem exists_first_key (label : String) (taken : List LaneKey) :
    ∃ n, (∀ m < n, candidateOf label m ∈ taken) ∧ candidateOf label n ∉ taken ∧
      KeyLoop (laneKeyBase label) taken (laneKeyBase label) 2 (candidateOf label n) ∧
      uniqueLaneKey label taken = (do
        slugKey [] (candidateOf label n)
        return candidateOf label n) := by
  obtain ⟨n, hbound, hfree, htaken⟩ :=
    exists_first_free (@laneKeyCandidate_injective (laneKeyBase label)) taken
  have hloop := keyLoop_of_first_free n (k := 0) (by omega) hfree fun m _ hm => htaken m hm
  simp only [candidateOf_eq]
  exact ⟨n, htaken, hfree, hloop, uniqueLaneKey_eq hbound hfree htaken⟩

theorem exists_short_of_derives (h : DerivesKey label taken) :
    ∃ n, candidateOf label n ∉ taken ∧ utf16Length (candidateOf label n) ≤ 40 := by
  obtain ⟨n, _, hfree, _, hkey⟩ := exists_first_key label taken
  obtain ⟨key, _, _, hok⟩ := h
  rw [hkey] at hok
  obtain ⟨_, hslug, _⟩ := ok_of_bind hok
  exact ⟨n, hfree, (slugKey_ok_iff.1 hslug).2⟩

/-- However many keys are taken the loop ends, at a free slug. It is a key the schema takes exactly
when some candidate of at most 40 characters is free. -/
theorem unique_lane_key (label : String) (taken : List LaneKey) :
    (∃ key, KeyLoop (laneKeyBase label) taken (laneKeyBase label) 2 key ∧ key ∉ taken ∧
      isSlug key = true) ∧
    (DerivesKey label taken ↔
      ∃ n, candidateOf label n ∉ taken ∧ utf16Length (candidateOf label n) ≤ 40) := by
  obtain ⟨n, htaken, hfree, hloop, hkey⟩ := exists_first_key label taken
  refine ⟨⟨_, hloop, hfree, isSlug_candidateOf label n⟩, exists_short_of_derives, ?_⟩
  rintro ⟨m, hm, hshort⟩
  have hfirst : n ≤ m := by
    by_contra hlate
    exact hm (htaken m (by omega))
  have hlength : utf16Length (candidateOf label n) ≤ utf16Length (candidateOf label m) :=
    utf16Length_mono hfirst
  have hslug : slugKey [] (candidateOf label n) = .ok () :=
    slugKey_ok_iff.2 ⟨isSlug_candidateOf label n, by omega⟩
  refine ⟨_, hloop, hfree, ?_⟩
  rw [hkey, bind_of_ok hslug]
  rfl

end keys

/-- A label whose slug takes all of its 36 characters. -/
def longLabel : String := String.ofList (List.replicate 36 'a')

/-- The keys of as many lanes of that label as fit in 40 characters. -/
def longKeys : List LaneKey := (List.range 999).map (laneKeyCandidate longLabel)

/-- The next lane of the label finds no key, though all these keys are in order. -/
theorem unique_lane_key_exhausted :
    ({ label := longLabel } : CreateLaneInput).parse = .ok { label := longLabel } ∧
    (∀ key ∈ longKeys, slugKey [] key = .ok ()) ∧
    ¬ @DerivesKey samplePlatform longLabel longKeys := by
  have hcandidate : ∀ n, @candidateOf samplePlatform longLabel n = laneKeyCandidate longLabel n := by
    have hslug : String.ofList (slugOf (asciiLower longLabel).toList) = longLabel := by decide +kernel
    intro n
    exact congrArg (laneKeyCandidate · n) hslug
  refine ⟨by decide +kernel, ?_, ?_⟩
  · intro key hkey
    obtain ⟨n, hn, rfl⟩ := List.mem_map.1 hkey
    have hlast : utf16Length (laneKeyCandidate longLabel 998) ≤ 40 := by decide +kernel
    have hmono : utf16Length (laneKeyCandidate longLabel n) ≤
        utf16Length (laneKeyCandidate longLabel 998) :=
      utf16Length_mono (by have := List.mem_range.1 hn; omega)
    exact slugKey_ok_iff.2 ⟨isSlug_laneKeyCandidate (by decide +kernel) n, by omega⟩
  · intro h
    obtain ⟨n, hfree, hshort⟩ := @exists_short_of_derives samplePlatform _ _ h
    rw [hcandidate] at hfree hshort
    have hlate : 999 ≤ n := by
      by_contra hn
      exact hfree (List.mem_map_of_mem (List.mem_range.2 (by omega)))
    have hmono : utf16Length (laneKeyCandidate longLabel 999) ≤
        utf16Length (laneKeyCandidate longLabel n) := utf16Length_mono hlate
    have hover : 40 < utf16Length (laneKeyCandidate longLabel 999) := by decide +kernel
    omega

end AiKanban.Invariants
