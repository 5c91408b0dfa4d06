import AiKanban.Db.Listings
import AiKanban.Formats.Like

/-!
# Text search

The condition that the card repository builds for a free text query: a `LIKE` pattern with
its wildcards escaped, and the number of a card.
-/
namespace AiKanban.Db

open Domain Formats

def backslash : Char := Char.ofNat 92

/-- `replaceAll` of one character. -/
def replaceAll (text : List Char) (c : Char) (replacement : List Char) : List Char :=
  text.flatMap fun d => if d = c then replacement else [d]

/-- The escape character itself goes first. -/
def escapeLike (needle : List Char) : List Char :=
  replaceAll (replaceAll (replaceAll needle backslash [backslash, backslash]) '%' [backslash, '%'])
    '_' [backslash, '_']

def likePattern (q : String) : List Char := '%' :: (escapeLike q.toList ++ ['%'])

/-- Both sides are folded by the database, the pattern after it is escaped. -/
def textMatch (q : String) (card : Card) : Bool :=
  like backslash (asciiLower (String.ofList (likePattern q))).toList
    (asciiLower (card.title ++ "\n" ++ card.description)).toList

/-- The double nearest to a number, to the even one of two; beyond 2^53 not every number is one. -/
def nearestDouble (n : ℕ) : ℕ :=
  if n < 2 ^ 53 then n
  else
    let unit := 2 ^ (Nat.log2 n - 52)
    let rest := n % unit
    if 2 * rest < unit ∨ 2 * rest = unit ∧ n / unit % 2 = 0 then n / unit * unit
    else (n / unit + 1) * unit

/-- `/^\d+$/.test(q) ? Number(q) : null` -/
def asId (q : String) : Option ℕ := (readDecimal q.toList).map nearestDouble

def searchCondition (q : String) (card : Card) : Bool :=
  match asId q with
  | none => textMatch q card
  | some id => textMatch q card || card.id == id

def maxSafeInteger : ℕ := 9007199254740991

section patterns

/-- The three replacements escape each character once. -/
theorem escapeLike_eq (needle : List Char) : escapeLike needle = literally backslash needle := by
  unfold escapeLike replaceAll literally
  rw [List.flatMap_assoc, List.flatMap_assoc]
  apply List.flatMap_congr
  intro c _
  have hany : backslash ≠ '%' := by decide
  have hone : backslash ≠ '_' := by decide
  have hother : ('%' : Char) ≠ '_' := by decide
  by_cases hescape : c = backslash
  · simp [Special, hescape, hany, hone]
  · by_cases hpercent : c = '%'
    · simp [Special, hpercent, hany.symm, hone, hother]
    · by_cases hunderscore : c = '_'
      · simp [Special, hunderscore, hone.symm, hother.symm]
      · simp [Special, hescape, hpercent, hunderscore]

/-- The pattern matches where the needle occurs, folded. -/
theorem textMatch_iff (q : String) (card : Card) : textMatch q card = true ↔
    (asciiLower q).toList <:+: (asciiLower (card.title ++ "\n" ++ card.description)).toList := by
  have hpattern : (likePattern q).map Char.toLower =
      '%' :: (literally backslash (q.toList.map Char.toLower) ++ ['%']) := by
    unfold likePattern
    rw [escapeLike_eq, List.map_cons, List.map_append,
      map_toLower_literally (by decide) (by decide)]
    rfl
  have hfolded : ∀ text : List Char, (text.map Char.toLower).map Char.toLower = text.map Char.toLower := by
    intro text
    rw [List.map_map]
    exact List.map_congr_left fun c _ => toLower_toLower c
  simp only [textMatch, asciiLower, String.toList_ofList]
  rw [hpattern, like_contains (by decide), hfolded, hfolded]

end patterns

section numbers

/-- A number that is no safe integer does not become one. -/
theorem nearestDouble_large {n : ℕ} (h : 2 ^ 53 ≤ n) : 2 ^ 53 ≤ nearestDouble n := by
  have hlog : 53 ≤ Nat.log2 n := (Nat.le_log2 (by omega)).mpr h
  have hunit : 2 ^ 52 * 2 ^ (Nat.log2 n - 52) ≤ n := by
    rw [← pow_add, Nat.add_sub_cancel' (by omega)]
    exact Nat.log2_self_le (by omega)
  have hpositive : 0 < 2 ^ (Nat.log2 n - 52) := by positivity
  have hquotient : 2 ^ 52 ≤ n / 2 ^ (Nat.log2 n - 52) := (Nat.le_div_iff_mul_le hpositive).mpr hunit
  have htwo : 2 ≤ 2 ^ (Nat.log2 n - 52) := by
    calc 2 = 2 ^ 1 := by norm_num
      _ ≤ 2 ^ (Nat.log2 n - 52) := Nat.pow_le_pow_right (by omega) (by omega)
  have hproduct : 2 ^ 52 * 2 ≤ n / 2 ^ (Nat.log2 n - 52) * 2 ^ (Nat.log2 n - 52) :=
    Nat.mul_le_mul hquotient htwo
  unfold nearestDouble
  rw [if_neg (by omega)]
  simp only
  split_ifs
  · omega
  · rw [Nat.add_mul]
    omega

theorem nearestDouble_eq_iff {n id : ℕ} (h : id ≤ maxSafeInteger) : nearestDouble n = id ↔ n = id := by
  unfold maxSafeInteger at h
  by_cases hsmall : n < 2 ^ 53
  · rw [nearestDouble, if_pos hsmall]
  · have hlarge := nearestDouble_large (not_lt.mp hsmall)
    constructor
    · rintro rfl
      omega
    · rintro rfl
      omega

end numbers

/-- A query finds the cards whose title or description contains it, and the card of its number. -/
theorem searchCondition_iff (q : String) (card : Card) (h : card.id ≤ maxSafeInteger) :
    searchCondition q card = true ↔
      (asciiLower q).toList <:+: (asciiLower (card.title ++ "\n" ++ card.description)).toList ∨
        readDecimal q.toList = some card.id := by
  unfold searchCondition asId
  cases hnumber : readDecimal q.toList with
  | none => simp [textMatch_iff]
  | some n =>
    have hid : card.id = nearestDouble n ↔ n = card.id :=
      eq_comm.trans (nearestDouble_eq_iff h)
    simp [textMatch_iff, hid]

/-- A card whose title holds both wildcards and the escape character. -/
def wildcardCard : Card where
  id := 42
  boardId := 101
  laneId := 103
  position := "a0"
  title := "Valve at 50%_\\ open"
  description := ""
  priority := .p1
  estimateMinutes := none
  reporterId := 102
  assigneeId := none
  locationId := none
  origin := .manual
  resolution := none
  blocked := false
  blockedReason := none
  blockedAt := none
  waitingReason := none
  expectedResumeAt := none
  resumeAlertedAt := none
  workStartedAt := none
  slackChannelId := none
  slackThreadTs := none
  slackPermalink := none
  version := 1
  createdAt := 0
  updatedAt := 0
  archivedAt := none

theorem searchCondition_wildcards : searchCondition "50%_\\ OPEN" wildcardCard = true :=
  (searchCondition_iff "50%_\\ OPEN" wildcardCard (by decide)).mpr (.inl (by decide +kernel))

/-- The listings search as the condition of the database does. -/
theorem textMatches_eq (q : String) (card : Card) (h : card.id ≤ maxSafeInteger) :
    textMatches q card = searchCondition q card := by
  rw [Bool.eq_iff_iff, searchCondition_iff q card h, textMatches, likeContains, ticketNumber]
  simp

end AiKanban.Db
