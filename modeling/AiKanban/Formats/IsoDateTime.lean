import AiKanban.Formats.Calendar
import AiKanban.Formats.Digits
import Mathlib.Data.Rat.Floor

/-!
# ISO date-times

Date-times in UTC as texts: the spellings that are read, the instant that one denotes, the text
of an instant to the millisecond, and how the order of the texts is that of the instants.
-/
namespace AiKanban.Formats

/-- The seconds with the digits of their fraction; without them the text is to the minute. -/
structure IsoDateTime where
  date : CivilDate
  hour : ℕ
  minute : ℕ
  seconds : Option (ℕ × List ℕ)
  deriving DecidableEq

structure IsoDateTime.Valid (d : IsoDateTime) : Prop where
  date : d.date.Valid
  hour : d.hour ≤ 23
  minute : d.minute ≤ 59
  seconds : ∀ s ∈ d.seconds, s.1 ≤ 59 ∧ ∀ digit ∈ s.2, digit < 10

instance (d : IsoDateTime) : Decidable d.Valid :=
  decidable_of_iff (d.date.Valid ∧ d.hour ≤ 23 ∧ d.minute ≤ 59 ∧
      ∀ s ∈ d.seconds, s.1 ≤ 59 ∧ ∀ digit ∈ s.2, digit < 10)
    ⟨fun h => ⟨h.1, h.2.1, h.2.2.1, h.2.2.2⟩, fun h => ⟨h.date, h.hour, h.minute, h.seconds⟩⟩

section texts

/-- The digits up to the final `Z`. -/
def readFraction : List Char → Option (List ℕ)
  | [] => none
  | c :: text =>
      if c = 'Z' then if text = [] then some [] else none
      else (digitValue c).bind fun d => (readFraction text).map (d :: ·)

/-- `(?::\d\d(?:\.\d+)?)?Z` -/
def readSeconds (text : List Char) : Option (Option (ℕ × List ℕ)) :=
  if text = ['Z'] then some none
  else do
    let text ← expect ':' text
    let (second, text) ← takeNumber 2 0 text
    if text = ['Z'] then return some (second, [])
    else do
      let text ← expect '.' text
      let fraction ← readFraction text
      if fraction = [] then none else return some (second, fraction)

/-- The date-time that a text spells. -/
def readIso (text : List Char) : Option IsoDateTime := do
  let (year, text) ← takeNumber 4 0 text
  let text ← expect '-' text
  let (month, text) ← takeNumber 2 0 text
  let text ← expect '-' text
  let (day, text) ← takeNumber 2 0 text
  let text ← expect 'T' text
  let (hour, text) ← takeNumber 2 0 text
  let text ← expect ':' text
  let (minute, text) ← takeNumber 2 0 text
  let seconds ← readSeconds text
  let d : IsoDateTime := ⟨⟨year, month, day⟩, hour, minute, seconds⟩
  if d.Valid then some d else none

def fractionText (digits : List ℕ) : List Char := digits.map digitChar ++ ['Z']

def secondsText : Option (ℕ × List ℕ) → List Char
  | none => ['Z']
  | some (second, []) => ':' :: (padded 2 second ++ ['Z'])
  | some (second, digits) => ':' :: (padded 2 second ++ '.' :: fractionText digits)

def IsoDateTime.text (d : IsoDateTime) : List Char :=
  padded 4 d.date.year ++ '-' :: (padded 2 d.date.month ++ '-' :: (padded 2 d.date.day ++
    'T' :: (padded 2 d.hour ++ ':' :: (padded 2 d.minute ++ secondsText d.seconds))))

theorem readFraction_eq_some_iff {text : List Char} {digits : List ℕ} :
    readFraction text = some digits ↔ text = fractionText digits ∧ ∀ d ∈ digits, d < 10 := by
  induction text generalizing digits with
  | nil => simp [readFraction, fractionText]
  | cons c text ih =>
    have hdigit : ∀ d < 10, digitChar d ≠ 'Z' := by decide
    rw [readFraction]
    by_cases hend : c = 'Z'
    · subst hend
      rw [if_pos rfl]
      cases digits with
      | nil => simp [fractionText]
      | cons d digits =>
        simp only [fractionText, List.map_cons, List.cons_append, List.cons.injEq]
        constructor
        · intro h
          split_ifs at h
          cases h
        · rintro ⟨⟨hd, -⟩, hdigits⟩
          exact absurd hd.symm (hdigit d (hdigits d (List.mem_cons_self ..)))
    · rw [if_neg hend]
      cases digits with
      | nil => simp [fractionText, hend, Option.bind_eq_some_iff]
      | cons d digits =>
        simp only [Option.bind_eq_some_iff, digitValue_eq_some_iff, Option.map_eq_some_iff, ih,
          fractionText, List.map_cons, List.cons_append, List.cons.injEq, List.forall_mem_cons]
        constructor
        · rintro ⟨e, ⟨he, rfl⟩, rest, ⟨htext, hrest⟩, rfl, rfl⟩
          exact ⟨⟨rfl, htext⟩, he, hrest⟩
        · rintro ⟨⟨rfl, htext⟩, hd, hrest⟩
          exact ⟨d, ⟨hd, rfl⟩, digits, ⟨htext, hrest⟩, rfl, rfl⟩

theorem readSeconds_eq_some_iff {text : List Char} {seconds : Option (ℕ × List ℕ)} :
    readSeconds text = some seconds ↔ text = secondsText seconds ∧
      ∀ s ∈ seconds, s.1 < 10 ^ 2 ∧ ∀ d ∈ s.2, d < 10 := by
  have hdot : ∀ rest : List Char, '.' :: rest ≠ ['Z'] := by simp
  have hcolon : ∀ rest : List Char, ':' :: rest ≠ ['Z'] := by simp
  unfold readSeconds
  constructor
  · intro h
    by_cases hminute : text = ['Z']
    · rw [if_pos hminute] at h
      obtain rfl := Option.some.inj h
      exact ⟨hminute, by simp⟩
    · rw [if_neg hminute] at h
      simp only [Option.bind_eq_bind, Option.bind_eq_some_iff, Prod.exists,
        takeNumber_eq_some_iff, expect_eq_some_iff] at h
      obtain ⟨_, rfl, second, rest, ⟨m, hm, rfl, rfl⟩, h⟩ := h
      rw [zero_mul, zero_add] at h
      by_cases hwhole : rest = ['Z']
      · rw [if_pos hwhole] at h
        obtain rfl := Option.some.inj h
        exact ⟨by rw [hwhole]; rfl, by simpa using hm⟩
      · rw [if_neg hwhole] at h
        obtain ⟨_, hrest, fraction, hfraction, h⟩ : ∃ t, rest = '.' :: t ∧ ∃ fraction,
            readFraction t = some fraction ∧
              (if fraction = [] then none else some (some (m, fraction))) = some seconds := by
          simpa only [Option.bind_eq_some_iff, expect_eq_some_iff, Option.pure_def] using h
        obtain ⟨rfl, hdigits⟩ := readFraction_eq_some_iff.mp hfraction
        cases fraction with
        | nil => simp at h
        | cons d digits =>
          rw [if_neg (List.cons_ne_nil _ _)] at h
          obtain rfl := Option.some.inj h
          refine ⟨by rw [hrest]; rfl, fun s hs => ?_⟩
          obtain rfl := Option.some.inj hs
          exact ⟨hm, hdigits⟩
  · rintro ⟨rfl, hvalid⟩
    cases seconds with
    | none => rfl
    | some s =>
      obtain ⟨second, digits⟩ := s
      obtain ⟨hsecond, hdigits⟩ := hvalid (second, digits) rfl
      cases digits with
      | nil =>
        have htake : takeNumber 2 0 (padded 2 second ++ ['Z']) = some (second, ['Z']) :=
          takeNumber_eq_some_iff.mpr ⟨second, hsecond, by ring, rfl⟩
        rw [secondsText, if_neg (hcolon _)]
        simp [expect, htake]
      | cons d digits =>
        have htake : takeNumber 2 0 (padded 2 second ++ '.' :: fractionText (d :: digits)) =
            some (second, '.' :: fractionText (d :: digits)) :=
          takeNumber_eq_some_iff.mpr ⟨second, hsecond, by ring, rfl⟩
        have hread := readFraction_eq_some_iff.mpr ⟨rfl, hdigits⟩
        rw [secondsText, if_neg (hcolon _)]
        · simp [expect, htake, hread, hdot]
        · simp

theorem readIso_eq_some_iff {text : List Char} {d : IsoDateTime} :
    readIso text = some d ↔ d.Valid ∧ text = d.text := by
  unfold readIso
  simp only [Option.bind_eq_bind, Option.bind_eq_some_iff, Prod.exists, takeNumber_eq_some_iff,
    expect_eq_some_iff, readSeconds_eq_some_iff, zero_mul, zero_add]
  constructor
  · rintro ⟨year, _, ⟨_, -, rfl, rfl⟩, _, rfl, month, _, ⟨_, -, rfl, rfl⟩, _, rfl, day, _,
      ⟨_, -, rfl, rfl⟩, _, rfl, hour, _, ⟨_, -, rfl, rfl⟩, _, rfl, minute, _, ⟨_, -, rfl, rfl⟩, seconds,
      ⟨rfl, -⟩, h⟩
    split_ifs at h with hvalid
    obtain rfl := Option.some.inj h
    exact ⟨hvalid, rfl⟩
  · rintro ⟨hvalid, rfl⟩
    have hyear := hvalid.date.year
    have hmonth := hvalid.date.month
    have hday := hvalid.date.day
    have hlong := daysInMonth_le (isLeap d.date.year) d.date.month
    have hhour := hvalid.hour
    have hminute := hvalid.minute
    refine ⟨d.date.year, _, ⟨_, ?_, rfl, rfl⟩, _, rfl, d.date.month, _, ⟨_, ?_, rfl, rfl⟩, _, rfl,
      d.date.day, _, ⟨_, ?_, rfl, rfl⟩, _, rfl, d.hour, _, ⟨_, ?_, rfl, rfl⟩, _, rfl, d.minute, _,
      ⟨_, ?_, rfl, rfl⟩, d.seconds, ⟨rfl, ?_⟩, if_pos hvalid⟩
    · omega
    · omega
    · omega
    · omega
    · omega
    · intro s hs
      obtain ⟨hsecond, hdigits⟩ := hvalid.seconds s hs
      exact ⟨by omega, hdigits⟩

end texts

section instants

def epochDay : ℕ := 719528

/-- The digits behind the point. -/
def fractionOf : List ℕ → ℚ
  | [] => 0
  | d :: digits => (d + fractionOf digits) / 10

/-- The minutes since the beginning of the year 0. -/
def IsoDateTime.minutes (d : IsoDateTime) : ℕ := (dayNumber d.date * 24 + d.hour) * 60 + d.minute

def secondsMillis : Option (ℕ × List ℕ) → ℚ
  | none => 0
  | some (second, digits) => (second + fractionOf digits) * 1000

/-- The milliseconds since then. -/
def IsoDateTime.millis (d : IsoDateTime) : ℚ := d.minutes * 60000 + secondsMillis d.seconds

def secondsUnit : Option (ℕ × List ℕ) → ℚ
  | none => 60000
  | some (_, digits) => 1000 * (1 / 10) ^ digits.length

/-- The milliseconds of one unit of the last place. -/
def IsoDateTime.unit (d : IsoDateTime) : ℚ := secondsUnit d.seconds

/-- The instant that a date-time denotes. -/
def IsoDateTime.instant (d : IsoDateTime) : ℚ := d.millis - epochDay * 86400000

/-- The date-time of a millisecond since the year 0. -/
def ofMillis (n : ℕ) : IsoDateTime where
  date := civilOf (n / 86400000)
  hour := n / 3600000 % 24
  minute := n / 60000 % 60
  seconds := some (n / 1000 % 60, [n / 100 % 10, n / 10 % 10, n % 10])

/-- `Date.prototype.toISOString` for the years of four digits. -/
def toISOString (t : ℤ) : String := String.ofList (ofMillis (t + epochDay * 86400000).toNat).text

/-- The milliseconds of the years 0 to 9999. -/
def fourDigitMillis : ℕ := 315569520000000

def FourDigitYear (t : ℤ) : Prop :=
  0 ≤ t + epochDay * 86400000 ∧ t + epochDay * 86400000 < fourDigitMillis

instance : DecidablePred FourDigitYear := fun _ => inferInstanceAs (Decidable (_ ∧ _))

theorem ofMillis_spec {n : ℕ} (h : n < fourDigitMillis) :
    (ofMillis n).Valid ∧ (ofMillis n).minutes = n / 60000 := by
  have hlast : daysBeforeYear 10000 = 3652425 := by decide
  have hlt : n / 86400000 < daysBeforeYear 10000 := by
    unfold fourDigitMillis at h
    omega
  obtain ⟨hdate, hday⟩ := civilOf_spec hlt
  constructor
  · refine ⟨hdate, ?_, ?_, ?_⟩
    · change n / 3600000 % 24 ≤ 23
      omega
    · change n / 60000 % 60 ≤ 59
      omega
    · rintro s hs
      obtain rfl := Option.some.inj hs
      refine ⟨Nat.le_of_lt_succ (Nat.mod_lt _ (by decide)), fun digit hdigit => ?_⟩
      simp only [List.mem_cons, List.not_mem_nil, or_false] at hdigit
      omega
  · simp only [IsoDateTime.minutes, ofMillis, hday]
    omega

end instants

section order

/-- Date-times with the seconds apart are ordered by the minutes first. -/
theorem text_lt_iff {d d' : IsoDateTime} (h : d.Valid) (h' : d'.Valid) : d.text < d'.text ↔
    d.minutes < d'.minutes ∨ d.minutes = d'.minutes ∧ secondsText d.seconds < secondsText d'.seconds := by
  have hmonth := h.date.month
  have hmonth' := h'.date.month
  have hday := h.date.day
  have hday' := h'.date.day
  have hlong := daysInMonth_le (isLeap d.date.year) d.date.month
  have hlong' := daysInMonth_le (isLeap d'.date.year) d'.date.month
  have hyear := h.date.year
  have hyear' := h'.date.year
  have hhour := h.hour
  have hhour' := h'.hour
  have hminute := h.minute
  have hminute' := h'.minute
  have hdates := dayNumber_lt_iff h.date h'.date
  have hdate : dayNumber d.date = dayNumber d'.date ↔ d.date.year = d'.date.year ∧
      d.date.month = d'.date.month ∧ d.date.day = d'.date.day := by
    rw [dayNumber_eq_iff h.date h'.date, CivilDate.ext_iff]
  unfold IsoDateTime.text
  rw [padded_append_lt_iff (by omega) (by omega), cons_lt_same,
    padded_append_lt_iff (by omega) (by omega), cons_lt_same,
    padded_append_lt_iff (by omega) (by omega), cons_lt_same,
    padded_append_lt_iff (by omega) (by omega), cons_lt_same,
    padded_append_lt_iff (by omega) (by omega)]
  unfold IsoDateTime.minutes
  by_cases hrest : secondsText d.seconds < secondsText d'.seconds
  · simp only [hrest, and_true]
    omega
  · simp only [hrest, and_false, or_false]
    omega

end order

section fractions

variable {digits : List ℕ}

theorem fractionOf_nonneg (digits : List ℕ) : 0 ≤ fractionOf digits := by
  induction digits with
  | nil => exact le_rfl
  | cons d digits ih =>
    rw [fractionOf]
    positivity

/-- The next fraction of as many digits is at most one. -/
theorem fractionOf_add_le (h : ∀ d ∈ digits, d < 10) :
    fractionOf digits + (1 / 10) ^ digits.length ≤ 1 := by
  induction digits with
  | nil => norm_num [fractionOf]
  | cons d digits ih =>
    obtain ⟨hd, hdigits⟩ := List.forall_mem_cons.mp h
    have hrest := ih hdigits
    have hd' : (d : ℚ) ≤ 9 := by exact_mod_cast Nat.le_of_lt_succ hd
    rw [fractionOf, List.length_cons, pow_succ]
    linarith

theorem fractionOf_lt_one (h : ∀ d ∈ digits, d < 10) : fractionOf digits < 1 := by
  have hnext := fractionOf_add_le h
  have hunit : (0 : ℚ) < (1 / 10) ^ digits.length := by positivity
  linarith

/-- A text is not behind another when its whole unit has passed, or, with as many digits or more,
when the other's unit has not.

By induction on both lists of digits: the first place in which they differ decides. -/
theorem fractionText_not_lt_iff {f g : List ℕ} (hf : ∀ d ∈ f, d < 10) (hg : ∀ d ∈ g, d < 10) :
    ¬ fractionText g < fractionText f ↔
      if f.length < g.length then fractionOf f + (1 / 10) ^ f.length ≤ fractionOf g
      else fractionOf f < fractionOf g + (1 / 10) ^ g.length := by
  have hletter : ∀ d < 10, digitChar d < 'Z' ∧ ¬ 'Z' < digitChar d ∧ ¬ 'Z' = digitChar d := by
    decide
  induction f generalizing g with
  | nil =>
    cases g with
    | nil => norm_num [fractionText, fractionOf]
    | cons e g =>
      obtain ⟨he, -⟩ := hletter e (hg e (List.mem_cons_self ..))
      have hone := fractionOf_lt_one hg
      have hlt : fractionText (e :: g) < fractionText [] := by
        simp [fractionText, List.cons_lt_cons_iff, he]
      rw [if_pos (by simp)]
      simp only [hlt, not_true_eq_false, false_iff, not_le, fractionOf, List.length_nil, pow_zero,
        zero_add] at hone ⊢
      exact hone
  | cons d f ih =>
    obtain ⟨hd, hf'⟩ := List.forall_mem_cons.mp hf
    have hlower := fractionOf_nonneg f
    have hupper := fractionOf_add_le hf'
    have hunit : (0 : ℚ) < (1 / 10) ^ f.length := by positivity
    cases g with
    | nil =>
      have hlt : ¬ fractionText [] < fractionText (d :: f) := by
        obtain ⟨-, hnot, hne⟩ := hletter d hd
        simp [fractionText, List.cons_lt_cons_iff, hnot, hne]
      have hone := fractionOf_lt_one hf
      rw [if_neg (by simp)]
      simp only [hlt, not_false_eq_true, true_iff]
      simpa [fractionOf] using hone
    | cons e g =>
      obtain ⟨he, hg'⟩ := List.forall_mem_cons.mp hg
      have hlower' := fractionOf_nonneg g
      have hupper' := fractionOf_add_le hg'
      have hunit' : (0 : ℚ) < (1 / 10) ^ g.length := by positivity
      have htexts : fractionText (e :: g) < fractionText (d :: f) ↔
          e < d ∨ e = d ∧ fractionText g < fractionText f := by
        have hchar : digitChar e = digitChar d ↔ e = d :=
          ⟨digitChar_inj he hd, fun h => h ▸ rfl⟩
        change digitChar e :: fractionText g < digitChar d :: fractionText f ↔ _
        rw [List.cons_lt_cons_iff, digitChar_lt_iff e he d hd, hchar]
      have hrest := ih hf' hg'
      rw [htexts]
      simp only [List.length_cons, Nat.add_lt_add_iff_right, fractionOf, pow_succ]
      rcases lt_trichotomy d e with hlt | rfl | hgt
      · have hlt' : (d : ℚ) + 1 ≤ e := by exact_mod_cast hlt
        rw [iff_true_left (by omega)]
        split_ifs <;> linarith
      · simp only [lt_irrefl, true_and, false_or, hrest]
        split_ifs
        · constructor <;> intro h <;> linarith
        · constructor <;> intro h <;> linarith
      · have hgt' : (e : ℚ) + 1 ≤ d := by exact_mod_cast hgt
        rw [iff_false_left (by omega)]
        split_ifs <;> linarith

end fractions

section bounds

/-- The seconds of a millisecond within its minute. -/
def tailOf (r : ℕ) : Option (ℕ × List ℕ) := some (r / 1000, [r / 100 % 10, r / 10 % 10, r % 10])

theorem ofMillis_seconds (n : ℕ) : (ofMillis n).seconds = tailOf (n % 60000) := by
  have hsecond : n / 1000 % 60 = n % 60000 / 1000 := by omega
  have hhundreds : n / 100 % 10 = n % 60000 / 100 % 10 := by omega
  have htens : n / 10 % 10 = n % 60000 / 10 % 10 := by omega
  have hones : n % 10 = n % 60000 % 10 := by omega
  rw [ofMillis, tailOf, hsecond, hhundreds, htens, hones]

theorem fractionOf_millis (r : ℕ) :
    (r / 1000 : ℕ) + fractionOf [r / 100 % 10, r / 10 % 10, r % 10] = (r : ℚ) / 1000 := by
  have hsplit : (r : ℚ) = ((r / 1000 * 1000 + r / 100 % 10 * 100 + r / 10 % 10 * 10 + r % 10 : ℕ) : ℚ) := by
    congr 1
    omega
  simp only [fractionOf]
  conv_rhs => rw [hsplit]
  push_cast
  ring

variable {s : Option (ℕ × List ℕ)}

theorem secondsMillis_bounds (h : ∀ p ∈ s, p.1 ≤ 59 ∧ ∀ d ∈ p.2, d < 10) :
    0 ≤ secondsMillis s ∧ secondsMillis s + secondsUnit s ≤ 60000 ∧ 0 < secondsUnit s := by
  cases s with
  | none => norm_num [secondsMillis, secondsUnit]
  | some p =>
    obtain ⟨second, digits⟩ := p
    obtain ⟨hsecond, hdigits⟩ := h (second, digits) rfl
    have hlower := fractionOf_nonneg digits
    have hupper := fractionOf_add_le hdigits
    have hsecond' : (second : ℚ) ≤ 59 := by exact_mod_cast hsecond
    have hunit : (0 : ℚ) < (1 / 10) ^ digits.length := by positivity
    simp only [secondsMillis, secondsUnit]
    refine ⟨by positivity, by linarith, by positivity⟩

theorem one_lt_secondsUnit_iff (second : ℕ) (digits : List ℕ) :
    1 < secondsUnit (some (second, digits)) ↔ digits.length < 3 := by
  have hthree : (1 / 10 : ℚ) ^ 3 = 1 / 1000 := by norm_num
  have hpow : (1 / 10 : ℚ) ^ 3 < (1 / 10) ^ digits.length ↔ digits.length < 3 :=
    pow_lt_pow_iff_right_of_lt_one₀ (by norm_num) (by norm_num)
  rw [← hpow, hthree, secondsUnit]
  constructor <;> intro h <;> linarith

/-- Within one minute. -/
theorem secondsText_not_lt_iff (h : ∀ p ∈ s, p.1 ≤ 59 ∧ ∀ d ∈ p.2, d < 10) {r : ℕ} (hr : r < 60000) :
    ¬ secondsText (tailOf r) < secondsText s ↔
      if 1 < secondsUnit s then secondsMillis s + secondsUnit s ≤ r else secondsMillis s < r + 1 := by
  have hsecond' : r / 1000 < 10 ^ 2 := by omega
  have hmillis := fractionOf_millis r
  cases s with
  | none =>
    have hlt : secondsText (tailOf r) < secondsText none := by
      simp [secondsText, tailOf, List.cons_lt_cons_iff]
    have hr' : (r : ℚ) < 60000 := by exact_mod_cast hr
    rw [if_pos (by norm_num [secondsUnit])]
    simp only [hlt, not_true_eq_false, false_iff, not_le, secondsMillis, secondsUnit]
    linarith
  | some p =>
    obtain ⟨second, digits⟩ := p
    obtain ⟨hsecond, hdigits⟩ := h (second, digits) rfl
    have hsecond'' : second < 10 ^ 2 := by omega
    have hg : ∀ d ∈ [r / 100 % 10, r / 10 % 10, r % 10], d < 10 := by
      intro d hd
      simp only [List.mem_cons, List.not_mem_nil, or_false] at hd
      omega
    have hlower := fractionOf_nonneg digits
    have hupper := fractionOf_add_le hdigits
    have hunit : (0 : ℚ) < (1 / 10) ^ digits.length := by positivity
    have hlower' := fractionOf_nonneg [r / 100 % 10, r / 10 % 10, r % 10]
    have hupper' := fractionOf_add_le hg
    simp only [one_lt_secondsUnit_iff]
    have htexts : secondsText (tailOf r) < secondsText (some (second, digits)) ↔
        r / 1000 < second ∨ r / 1000 = second ∧
          fractionText [r / 100 % 10, r / 10 % 10, r % 10] < fractionText digits := by
      cases digits with
      | nil =>
        have hpoint : ∀ rest : List Char, '.' :: rest < ['Z'] := by simp [List.cons_lt_cons_iff]
        have hrest : fractionText [r / 100 % 10, r / 10 % 10, r % 10] < fractionText [] := by
          by_contra hnot
          rw [fractionText_not_lt_iff hdigits hg, if_pos (by simp)] at hnot
          simp only [fractionOf, List.length_nil, pow_zero] at hnot hupper'
          norm_num at hnot hupper'
          linarith
        change ':' :: (padded 2 (r / 1000) ++ '.' :: fractionText _) <
          ':' :: (padded 2 second ++ ['Z']) ↔ _
        rw [cons_lt_same, padded_append_lt_iff hsecond' hsecond'']
        simp only [hpoint, hrest]
      | cons d digits =>
        change ':' :: (padded 2 (r / 1000) ++ '.' :: fractionText _) <
          ':' :: (padded 2 second ++ '.' :: fractionText (d :: digits)) ↔ _
        rw [cons_lt_same, padded_append_lt_iff hsecond' hsecond'', cons_lt_same]
    have hfractions := fractionText_not_lt_iff hdigits hg
    simp only [List.length_cons, List.length_nil, zero_add, Nat.reduceAdd] at hfractions hupper'
    rw [htexts, not_or, not_and, hfractions]
    simp only [secondsMillis, secondsUnit]
    generalize fractionOf [r / 100 % 10, r / 10 % 10, r % 10] = g at *
    generalize fractionOf digits = f at *
    generalize (1 / 10 : ℚ) ^ digits.length = u at *
    rcases lt_trichotomy second (r / 1000) with hlt | rfl | hgt
    · have hlt' : (second : ℚ) + 1 ≤ (r / 1000 : ℕ) := by exact_mod_cast hlt
      rw [iff_true_left ⟨by omega, by omega⟩]
      split_ifs <;> linarith
    · simp only [lt_irrefl, not_false_eq_true, true_and, forall_const]
      split_ifs
      · constructor <;> intro h <;> linarith
      · constructor <;> intro h <;> linarith
    · have hgt' : ((r / 1000 : ℕ) : ℚ) + 1 ≤ second := by exact_mod_cast hgt
      rw [iff_false_left (by omega)]
      split_ifs <;> linarith

/-- When the text of a date-time is not behind that of a millisecond. -/
theorem text_not_lt_iff {d : IsoDateTime} (h : d.Valid) {n : ℕ} (hn : n < fourDigitMillis) :
    ¬ (ofMillis n).text < d.text ↔
      if 1 < d.unit then d.millis + d.unit ≤ n else d.millis < n + 1 := by
  obtain ⟨hvalid, hminutes⟩ := ofMillis_spec hn
  have hrest : n % 60000 < 60000 := Nat.mod_lt _ (by decide)
  have hbounds := secondsMillis_bounds h.seconds
  have htails := secondsText_not_lt_iff h.seconds hrest
  have hsplit : (n : ℚ) = (n / 60000 : ℕ) * 60000 + (n % 60000 : ℕ) := by
    have hmod := Nat.div_add_mod' n 60000
    exact_mod_cast hmod.symm
  have hrest' : ((n % 60000 : ℕ) : ℚ) + 1 ≤ 60000 := by exact_mod_cast hrest
  have hpositive : (0 : ℚ) ≤ (n % 60000 : ℕ) := Nat.cast_nonneg _
  rw [text_lt_iff hvalid h, hminutes, ofMillis_seconds, not_or, not_and, htails, hsplit]
  unfold IsoDateTime.unit IsoDateTime.millis
  obtain ⟨hlower, hupper, hunit⟩ := hbounds
  generalize n % 60000 = r at *
  generalize n / 60000 = m at *
  rcases lt_trichotomy d.minutes m with hlt | rfl | hgt
  · have hlt' : (d.minutes : ℚ) + 1 ≤ m := by exact_mod_cast hlt
    rw [iff_true_left ⟨by omega, by omega⟩]
    split_ifs <;> linarith
  · simp only [lt_irrefl, not_false_eq_true, true_and, forall_const]
    split_ifs
    · constructor <;> intro h <;> linarith
    · constructor <;> intro h <;> linarith
  · have hgt' : (m : ℚ) + 1 ≤ d.minutes := by exact_mod_cast hgt
    rw [iff_false_left (by omega)]
    split_ifs <;> linarith

/-- The first millisecond whose text is not behind that of the date-time. -/
def IsoDateTime.firstMilli (d : IsoDateTime) : ℤ :=
  if 1 < d.unit then ⌈d.instant + d.unit⌉ else ⌊d.instant⌋

theorem toISOString_not_lt_iff {text : String} {d : IsoDateTime}
    (h : readIso text.toList = some d) {t : ℤ} (ht : FourDigitYear t) :
    ¬ toISOString t < text ↔ d.firstMilli ≤ t := by
  obtain ⟨hvalid, htext⟩ := readIso_eq_some_iff.mp h
  obtain ⟨hlower, hupper⟩ := ht
  obtain ⟨n, hn⟩ := Int.eq_ofNat_of_zero_le hlower
  have hmillis : (t + epochDay * 86400000).toNat = n := by rw [hn, Int.toNat_natCast]
  have hfits : n < fourDigitMillis := by
    rw [hn] at hupper
    exact_mod_cast hupper
  have hcast : (n : ℚ) = t + epochDay * 86400000 := by exact_mod_cast hn.symm
  rw [String.lt_iff, toISOString, String.toList_ofList, hmillis, htext,
    text_not_lt_iff hvalid hfits, hcast]
  unfold IsoDateTime.firstMilli IsoDateTime.instant
  split_ifs
  · rw [Int.ceil_le]
    constructor <;> intro hle <;> linarith
  · rw [← Int.lt_add_one_iff, Int.floor_lt]
    push_cast
    constructor <;> intro hlt <;> linarith

theorem IsoDateTime.Valid.unit_pos {d : IsoDateTime} (h : d.Valid) : 0 < d.unit :=
  (secondsMillis_bounds h.seconds).2.2

/-- The millisecond is not in the unit that the text is too coarse to tell apart, nor is the instant
inside it. -/
def IsoDateTime.Apart (d : IsoDateTime) (t : ℤ) : Prop :=
  if 1 < d.unit then t < d.instant ∨ d.instant + d.unit ≤ t else d.instant ≤ t ∨ t + 1 ≤ d.instant

theorem IsoDateTime.Valid.firstMilli_le_iff {d : IsoDateTime} (h : d.Valid) (t : ℤ) :
    (d.firstMilli ≤ t ↔ d.instant ≤ t) ↔ d.Apart t := by
  have hunit := h.unit_pos
  unfold IsoDateTime.firstMilli IsoDateTime.Apart
  split_ifs
  · rw [Int.ceil_le]
    constructor
    · intro hsame
      by_contra hnot
      push Not at hnot
      linarith [hsame.mpr hnot.1]
    · rintro (hlt | hle)
      · exact iff_of_false (by linarith) (by linarith)
      · exact iff_of_true hle (by linarith)
  · rw [← Int.lt_add_one_iff, Int.floor_lt]
    push_cast
    constructor
    · intro hsame
      by_contra hnot
      push Not at hnot
      linarith [hsame.mp hnot.2]
    · rintro (hle | hlt)
      · exact iff_of_true (by linarith) hle
      · exact iff_of_false (by linarith) (by linarith)

end bounds

end AiKanban.Formats
