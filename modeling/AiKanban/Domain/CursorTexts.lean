import AiKanban.Domain.Cursor
import AiKanban.Formats.IsoDateTime
import AiKanban.Formats.Json

/-!
# The cursor codec over texts

A key as the schema sees it, with the text of its creation time, and its token: JSON in base64url.
Whatever a token holds, the schema's error is the only one that leaves the decoder.
-/
namespace AiKanban.Domain.CursorTexts

open Formats Formats.Json

/-- What may be thrown: the schema's error with the paths of its issues, and those of the runtime. -/
inductive Thrown where
  | zodError (paths : List (List String))
  | invalidCharacterError
  | syntaxError
  deriving DecidableEq

inductive CursorId where
  | uuid (text : List Char)
  | number (n : ℕ)
  deriving DecidableEq

structure CursorKey where
  createdAt : List Char
  id : CursorId
  deriving DecidableEq

section schema

def isHex (c : Char) : Bool := (hexValue c).isSome

/-- Each character is one that its place admits. -/
def fits : List (Char → Bool) → List Char → Bool
  | [], [] => true
  | place :: pattern, c :: text => place c && fits pattern text
  | _, _ => false

/-- The version is 1 to 8, and the variant is that of RFC 9562. -/
def uuidPattern : List (Char → Bool) :=
  List.replicate 8 isHex ++ (· == '-') :: List.replicate 4 isHex ++ (· == '-') ::
    (fun c => "12345678".toList.contains c) :: List.replicate 3 isHex ++ (· == '-') ::
      (fun c => "89abAB".toList.contains c) :: List.replicate 3 isHex ++ (· == '-') ::
        List.replicate 12 isHex

/-- `z.uuid()`: the two special uuids are written in lower case. -/
def isUuid (text : List Char) : Bool :=
  fits uuidPattern text || text == "00000000-0000-0000-0000-000000000000".toList ||
    text == "ffffffff-ffff-ffff-ffff-ffffffffffff".toList

def maxSafeInteger : ℕ := 9007199254740991

structure CursorKey.Valid (key : CursorKey) : Prop where
  createdAt : (readIso key.createdAt).isSome = true
  uuid : ∀ text, key.id = .uuid text → isUuid text = true
  number : ∀ n, key.id = .number n → 1 ≤ n ∧ n ≤ maxSafeInteger

def member (name : String) (members : List (List ℕ × Json)) : Option Json :=
  (members.find? (·.1 == units name.toList)).map (·.2)

/-- `z.iso.datetime()` -/
def isoDateTime : Json → Option (List Char)
  | .string read =>
      let text := read.map Char.ofNat
      if (readIso text).isSome then some text else none
  | _ => none

/-- `z.union([z.uuid(), z.number().int().positive()])` -/
def cursorId : Json → Option CursorId
  | .string read =>
      let text := read.map Char.ofNat
      if isUuid text then some (.uuid text) else none
  | .number (some q) =>
      if q.den = 1 ∧ 1 ≤ q.num ∧ q.num ≤ maxSafeInteger then some (.number q.num.toNat) else none
  | _ => none

/-- The parse of a strict object; `none` is `undefined`. -/
def cursorKeySchema : Option Json → Except Thrown CursorKey
  | some (.object members) =>
      let createdAt := (member "createdAt" members).bind isoDateTime
      let id := (member "id" members).bind cursorId
      let strict := members.all fun m =>
        m.1 == units "createdAt".toList || m.1 == units "id".toList
      match createdAt, id, strict with
      | some createdAt, some id, true => .ok ⟨createdAt, id⟩
      | _, _, _ => .error (.zodError ((if createdAt.isNone then [["createdAt"]] else []) ++
          (if id.isNone then [["id"]] else []) ++ if strict then [] else [[]]))
  | _ => .error (.zodError [[]])

end schema

section codec

def CursorId.value : CursorId → Json
  | .uuid text => .string (units text)
  | .number n => .number (some n)

def CursorKey.value (key : CursorKey) : Json :=
  .object [(units "createdAt".toList, .string (units key.createdAt)),
    (units "id".toList, key.id.value)]

def CursorId.stringify : CursorId → List Char
  | .uuid text => quoted text
  | .number n => decimalText n

/-- `JSON.stringify` of a key that the schema let through. -/
def CursorKey.stringify (key : CursorKey) : List Char :=
  openBrace :: (quoted "createdAt".toList ++ ':' :: (quoted key.createdAt ++ ',' ::
    (quoted "id".toList ++ ':' :: (key.id.stringify ++ [closeBrace]))))

/-- `btoa` throws at a character that is not a byte. -/
def btoaText (text : List Char) : Except Thrown (List Char) :=
  if text.all fun c => c.toNat < 256 then .ok (btoa (text.map Char.toNat))
  else .error .invalidCharacterError

def atobText (text : List Char) : Except Thrown (List Char) :=
  match atob text with
  | some bytes => .ok (bytes.map Char.ofNat)
  | none => .error .invalidCharacterError

def parseJson (text : List Char) : Except Thrown Json :=
  match Json.parse text with
  | some value => .ok value
  | none => .error .syntaxError

def encodeCursor (key : CursorKey) : Except Thrown String := do
  let key ← cursorKeySchema (some key.value)
  return String.ofList (toUrl (← btoaText key.stringify))

def tryDecodeBase64Url (token : String) : List Char :=
  match atobText (ofUrl token.toList) with
  | .ok text => text
  | .error _ => []

def tryParseJson (text : List Char) : Option Json :=
  match parseJson text with
  | .ok value => some value
  | .error _ => none

def decodeCursor (token : String) : Except Thrown CursorKey :=
  cursorKeySchema (tryParseJson (tryDecodeBase64Url token))

/-- The characters of base64url. -/
def isUrlCharacter (c : Char) : Bool :=
  'A' ≤ c && c ≤ 'Z' || 'a' ≤ c && c ≤ 'z' || '0' ≤ c && c ≤ '9' || c == '-' || c == '_'

end codec

section plain

variable {text : List Char}

/-- The characters of datetimes and uuids: none of them is written otherwise within quotation marks. -/
def Plain (c : Char) : Prop := 32 ≤ c.toNat ∧ c.toNat < 128 ∧ c ≠ quotationMark ∧ c ≠ backslash

instance : DecidablePred Plain := fun _ => inferInstanceAs (Decidable (_ ∧ _))

theorem quotedChar_plain {c : Char} (h : Plain c) : quotedChar c = [c] := by
  obtain ⟨hprintable, -, hquote, hback⟩ := h
  unfold quotedChar
  split_ifs with hself
  · exact absurd hself (by simp [hquote, hback])
  · omega
  · omega
  · omega
  · omega
  · omega
  · omega
  · rfl

theorem quoted_plain (h : ∀ c ∈ text, Plain c) :
    quoted text = quotationMark :: (text ++ [quotationMark]) := by
  have hsame : text.flatMap quotedChar = text.flatMap fun c => [c] := by
    apply List.flatMap_congr
    intro c hc
    exact quotedChar_plain (h c hc)
  rw [quoted, hsame, List.flatMap_singleton']

theorem ofNat_units (h : ∀ c ∈ text, Plain c) : (units text).map Char.ofNat = text := by
  induction text with
  | nil => rfl
  | cons c text ih =>
    obtain ⟨hc, htext⟩ := List.forall_mem_cons.mp h
    have hsmall : utf16 c = [c.toNat] := if_pos (by have := hc.2.1; omega)
    have hunits : units (c :: text) = c.toNat :: units text := by
      rw [units, List.flatMap_cons, hsmall]
      rfl
    rw [hunits, List.map_cons, Char.ofNat_toNat, ih htext]

theorem plain_digitChar : ∀ d < 10, Plain (digitChar d) := by decide

theorem plain_padded {width n : ℕ} (h : n < 10 ^ width) : ∀ c ∈ padded width n, Plain c := by
  induction width generalizing n with
  | zero => simp [padded]
  | succ width ih =>
    rw [padded, List.forall_mem_cons]
    exact ⟨plain_digitChar _ (div_lt_ten h), ih (Nat.mod_lt _ (by positivity))⟩

theorem plain_fractionText {digits : List ℕ} (h : ∀ d ∈ digits, d < 10) :
    ∀ c ∈ fractionText digits, Plain c := by
  intro c hc
  rw [fractionText, List.mem_append, List.mem_map] at hc
  rcases hc with ⟨d, hd, rfl⟩ | hc
  · exact plain_digitChar d (h d hd)
  · obtain rfl := List.mem_singleton.mp hc
    decide

theorem plain_secondsText {seconds : Option (ℕ × List ℕ)}
    (h : ∀ s ∈ seconds, s.1 ≤ 59 ∧ ∀ d ∈ s.2, d < 10) : ∀ c ∈ secondsText seconds, Plain c := by
  have hcolon : Plain ':' := by decide
  have hpoint : Plain '.' := by decide
  have hend : Plain 'Z' := by decide
  cases seconds with
  | none => simpa [secondsText] using hend
  | some s =>
    obtain ⟨second, digits⟩ := s
    obtain ⟨hsecond, hdigits⟩ := h (second, digits) rfl
    have hpadded : ∀ c ∈ padded 2 second, Plain c := plain_padded (by omega)
    cases digits with
    | nil =>
      simp only [secondsText, List.forall_mem_cons, List.forall_mem_append]
      exact ⟨hcolon, hpadded, hend, by simp⟩
    | cons d digits =>
      simp only [secondsText, List.forall_mem_cons, List.forall_mem_append]
      exact ⟨hcolon, hpadded, hpoint, plain_fractionText hdigits⟩

theorem plain_iso {d : IsoDateTime} (h : d.Valid) : ∀ c ∈ d.text, Plain c := by
  have hdash : Plain '-' := by decide
  have hletter : Plain 'T' := by decide
  have hcolon : Plain ':' := by decide
  have hyear := h.date.year
  have hmonth := h.date.month
  have hday := h.date.day
  have hlong := daysInMonth_le (isLeap d.date.year) d.date.month
  have hhour := h.hour
  have hminute := h.minute
  simp only [IsoDateTime.text, List.forall_mem_cons, List.forall_mem_append]
  exact ⟨plain_padded (by omega), hdash, plain_padded (by omega), hdash, plain_padded (by omega),
    hletter, plain_padded (by omega), hcolon, plain_padded (by omega), plain_secondsText h.seconds⟩

/-- The signs, digits and letters behind the quotation mark. -/
theorem plain_of_range {c : Char} (hlow : 35 ≤ c.toNat) (hhigh : c.toNat < 128) (hback : c.toNat ≠ 92) :
    Plain c := by
  refine ⟨by omega, hhigh, ?_, ?_⟩
  · rintro rfl
    exact absurd hlow (by decide)
  · rintro rfl
    exact hback rfl

theorem plain_isHex {c : Char} (h : isHex c = true) : Plain c := by
  have hle : ∀ a b : Char, a ≤ b → a.toNat ≤ b.toNat := fun a b hab => hab
  unfold isHex hexValue at h
  split_ifs at h with hdigit hlower hupper
  · have h₁ := hle _ _ hdigit.1
    have h₂ := hle _ _ hdigit.2
    simp only [Char.reduceToNat] at h₁ h₂
    exact plain_of_range (by omega) (by omega) (by omega)
  · have h₁ := hle _ _ hlower.1
    have h₂ := hle _ _ hlower.2
    simp only [Char.reduceToNat] at h₁ h₂
    exact plain_of_range (by omega) (by omega) (by omega)
  · have h₁ := hle _ _ hupper.1
    have h₂ := hle _ _ hupper.2
    simp only [Char.reduceToNat] at h₁ h₂
    exact plain_of_range (by omega) (by omega) (by omega)
  · simp at h

theorem plain_fits {pattern : List (Char → Bool)} (hplaces : ∀ place ∈ pattern, ∀ c, place c = true → Plain c)
    (h : fits pattern text = true) : ∀ c ∈ text, Plain c := by
  induction pattern generalizing text with
  | nil =>
    cases text with
    | nil => simp
    | cons c text => cases h
  | cons place pattern ih =>
    obtain ⟨hplace, hpattern⟩ := List.forall_mem_cons.mp hplaces
    cases text with
    | nil => simp
    | cons c text =>
      rw [fits, Bool.and_eq_true] at h
      exact List.forall_mem_cons.mpr ⟨hplace c h.1, ih hpattern h.2⟩

theorem plain_uuid (h : isUuid text = true) : ∀ c ∈ text, Plain c := by
  have hnil : ∀ c ∈ "00000000-0000-0000-0000-000000000000".toList, Plain c := forall_mem_of_all (by decide)
  have hmax : ∀ c ∈ "ffffffff-ffff-ffff-ffff-ffffffffffff".toList, Plain c := forall_mem_of_all (by decide)
  simp only [isUuid, Bool.or_eq_true, beq_iff_eq] at h
  rcases h with (h | rfl) | rfl
  · apply plain_fits _ h
    have hhex : ∀ n, ∀ place ∈ List.replicate n isHex, ∀ c, place c = true → Plain c := by
      intro n place hplace c hc
      obtain rfl := List.eq_of_mem_replicate hplace
      exact plain_isHex hc
    have hdash : ∀ c : Char, (c == '-') = true → Plain c := by
      intro c hc
      obtain rfl := eq_of_beq hc
      decide
    have hversion : ∀ c, "12345678".toList.contains c = true → Plain c := by
      intro c hc
      have hall : ∀ c ∈ "12345678".toList, Plain c := forall_mem_of_all (by decide)
      exact hall c (List.contains_iff_mem.mp hc)
    have hvariant : ∀ c, "89abAB".toList.contains c = true → Plain c := by
      intro c hc
      have hall : ∀ c ∈ "89abAB".toList, Plain c := forall_mem_of_all (by decide)
      exact hall c (List.contains_iff_mem.mp hc)
    simp only [uuidPattern, List.forall_mem_append, List.forall_mem_cons]
    exact ⟨⟨⟨⟨hhex 8, hdash, hhex 4⟩, hdash, hversion, hhex 3⟩, hdash, hvariant, hhex 3⟩, hdash, hhex 12⟩
  · exact hnil
  · exact hmax

end plain

section roundTrip

variable {key : CursorKey}

theorem plain_createdAt (h : key.Valid) : ∀ c ∈ key.createdAt, Plain c := by
  obtain ⟨d, hd⟩ := Option.isSome_iff_exists.mp h.createdAt
  obtain ⟨hvalid, htext⟩ := readIso_eq_some_iff.mp hd
  rw [htext]
  exact plain_iso hvalid

theorem ascii_quoted {text : List Char} (h : ∀ c ∈ text, Plain c) :
    ∀ c ∈ quoted text, c.toNat < 128 := by
  rw [quoted_plain h, List.forall_mem_cons, List.forall_mem_append]
  exact ⟨by decide, fun c hc => (h c hc).2.1, by simp [quotationMark]⟩

/-- Every character of the JSON text is a byte. -/
theorem ascii_stringify (h : key.Valid) : ∀ c ∈ key.stringify, c.toNat < 128 := by
  have hid : ∀ c ∈ key.id.stringify, c.toNat < 128 := by
    cases hkey : key.id with
    | uuid text => exact ascii_quoted (plain_uuid (h.uuid text hkey))
    | number n =>
      intro c hc
      obtain ⟨d, hd, rfl⟩ := mem_decimalText hc
      exact (plain_digitChar d hd).2.1
  have hnames : (∀ c ∈ quoted "createdAt".toList, c.toNat < 128) ∧
      ∀ c ∈ quoted "id".toList, c.toNat < 128 :=
    ⟨forall_mem_of_all (by decide), forall_mem_of_all (by decide)⟩
  have hmarks : openBrace.toNat < 128 ∧ ':'.toNat < 128 ∧ ','.toNat < 128 ∧
      closeBrace.toNat < 128 := by decide
  obtain ⟨hopen, hcolon, hcomma, hclose⟩ := hmarks
  simp only [CursorKey.stringify, List.forall_mem_cons, List.forall_mem_append]
  exact ⟨hopen, hnames.1, hcolon, ascii_quoted (plain_createdAt h), hcomma, hnames.2, hcolon, hid,
    hclose, List.forall_mem_nil _⟩

/-- A member's name, up to its value. -/
theorem run_member (members : List (List ℕ × Json)) (orEnd : Bool) (stack : List Frame)
    (name : List Char) (rest : List Char) :
    run ⟨.key members orEnd, stack⟩ (quoted name ++ ':' :: rest) =
      run ⟨.value false, .object members (units name) :: stack⟩ rest := by
  rw [run_append, run_quoted_key, Option.bind_some, run_cons]
  rfl

/-- The last member's value, up to the end of the object. -/
theorem run_id (h : key.Valid) (members : List (List ℕ × Json)) (name : List ℕ) :
    run ⟨.value false, [.object members name]⟩ (key.id.stringify ++ [closeBrace]) =
      some ⟨.done (.object (setMember members name key.id.value)), []⟩ := by
  cases hkey : key.id with
  | uuid text =>
    rw [CursorId.stringify, run_append, run_quoted, Option.bind_some]
    rfl
  | number n =>
    obtain ⟨hlow, hhigh⟩ := h.number n hkey
    have hbits : n < 2 ^ 53 := by
      unfold maxSafeInteger at hhigh
      omega
    rw [CursorId.stringify, run_decimalText (by omega) hbits (by decide)]
    rfl

theorem parse_stringify (h : key.Valid) : Json.parse key.stringify = some key.value := by
  have hobject : ∀ rest, run ⟨.value false, []⟩ (openBrace :: rest) = run ⟨.key [] true, []⟩ rest :=
    fun rest => rfl
  have hcomma : ∀ members name rest, run ⟨.next, [.object members name]⟩ (',' :: rest) =
      run ⟨.key members false, []⟩ rest := fun members name rest => rfl
  have hnames : ∀ value, setMember [(units "createdAt".toList, .string (units key.createdAt))]
      (units "id".toList) value = [(units "createdAt".toList, .string (units key.createdAt)),
        (units "id".toList, value)] := fun value => rfl
  rw [Json.parse, CursorKey.stringify, hobject, run_member, run_append, run_quoted, Option.bind_some]
  change (run ⟨.next, [.object [(units "createdAt".toList, .string (units key.createdAt))] _]⟩ _).bind
    finish = _
  rw [hcomma, run_member, run_id h, hnames]
  rfl

theorem cursorId_value (h : key.Valid) : cursorId key.id.value = some key.id := by
  cases hkey : key.id with
  | uuid text =>
    have hvalid := h.uuid text hkey
    simp only [CursorId.value, cursorId, ofNat_units (plain_uuid hvalid), hvalid, if_true]
  | number n =>
    obtain ⟨hlow, hhigh⟩ := h.number n hkey
    have hbounds : ((n : ℚ)).den = 1 ∧ 1 ≤ ((n : ℚ)).num ∧ ((n : ℚ)).num ≤ maxSafeInteger := by
      rw [Rat.den_natCast, Rat.num_natCast]
      omega
    simp only [CursorId.value, cursorId, if_pos hbounds]
    rw [Rat.num_natCast, Int.toNat_natCast]

/-- The schema gives a valid key back as it is. -/
theorem cursorKeySchema_value (h : key.Valid) : cursorKeySchema (some key.value) = .ok key := by
  have hcreatedAt : isoDateTime (.string (units key.createdAt)) = some key.createdAt := by
    simp only [isoDateTime, ofNat_units (plain_createdAt h), h.createdAt, if_true]
  have hfirst : ∀ value id, member "createdAt" [(units "createdAt".toList, value),
      (units "id".toList, id)] = some value := fun value id => rfl
  have hsecond : ∀ value id, member "id" [(units "createdAt".toList, value),
      (units "id".toList, id)] = some id := fun value id => rfl
  have hstrict : ([(units "createdAt".toList, .string (units key.createdAt)),
      (units "id".toList, key.id.value)] : List (List ℕ × Json)).all (fun m =>
        m.1 == units "createdAt".toList || m.1 == units "id".toList) = true := rfl
  simp only [cursorKeySchema, CursorKey.value, hfirst, hsecond, Option.bind_some, hcreatedAt,
    cursorId_value h, hstrict]

/-- Whatever the schema lets through is valid. -/
theorem valid_of_schema {value : Option Json} (h : cursorKeySchema value = .ok key) : key.Valid := by
  unfold cursorKeySchema at h
  split at h
  · next members =>
    dsimp only at h
    split at h
    · next _ _ _ createdAt id hcreatedAt hid _ =>
      obtain rfl := Except.ok.inj h
      obtain ⟨read, -, hread⟩ := Option.bind_eq_some_iff.mp hcreatedAt
      obtain ⟨value, -, hvalue⟩ := Option.bind_eq_some_iff.mp hid
      have hdatetime : (readIso createdAt).isSome = true := by
        unfold isoDateTime at hread
        split at hread
        · dsimp only at hread
          split_ifs at hread with hiso
          obtain rfl := Option.some.inj hread
          exact hiso
        · cases hread
      unfold cursorId at hvalue
      split at hvalue
      · dsimp only at hvalue
        split_ifs at hvalue with huuid
        obtain rfl := Option.some.inj hvalue
        exact ⟨hdatetime, by rintro text ⟨⟩; exact huuid, nofun⟩
      · split_ifs at hvalue with hbounds
        obtain rfl := Option.some.inj hvalue
        refine ⟨hdatetime, nofun, ?_⟩
        rintro n ⟨⟩
        obtain ⟨-, hlow, hhigh⟩ := hbounds
        omega
      · cases hvalue
    · cases h
  · cases h

/-- The schema's error is the only one that it throws. -/
theorem schema_throws (value : Option Json) :
    (∃ paths, cursorKeySchema value = .error (.zodError paths)) ∨
      ∃ key, cursorKeySchema value = .ok key ∧ key.Valid := by
  cases hresult : cursorKeySchema value with
  | ok key => exact .inr ⟨key, rfl, valid_of_schema hresult⟩
  | error e =>
    unfold cursorKeySchema at hresult
    split at hresult
    · dsimp only at hresult
      split at hresult
      · cases hresult
      · exact .inl ⟨_, congrArg _ (Except.error.inj hresult).symm⟩
    · exact .inl ⟨_, congrArg _ (Except.error.inj hresult).symm⟩

/-- The token of a valid key. -/
theorem encodeCursor_eq (h : key.Valid) : encodeCursor key =
    .ok (String.ofList (toUrl (btoa (key.stringify.map Char.toNat)))) := by
  have hbytes : (key.stringify.all fun c => c.toNat < 256) = true := by
    refine List.all_eq_true.mpr fun c hc => ?_
    have := ascii_stringify h c hc
    simp only [decide_eq_true_eq]
    omega
  have hbtoa : btoaText key.stringify = .ok (btoa (key.stringify.map Char.toNat)) := if_pos hbytes
  rw [encodeCursor, cursorKeySchema_value h]
  change (btoaText key.stringify >>= fun text => Except.ok (String.ofList (toUrl text))) = _
  rw [hbtoa]
  rfl

theorem bytes_stringify (h : key.Valid) : ∀ b ∈ key.stringify.map Char.toNat, b < 256 := by
  intro b hb
  obtain ⟨c, hc, rfl⟩ := List.mem_map.mp hb
  have := ascii_stringify h c hc
  omega

/-- The token of a valid key names the key. -/
theorem decodeCursor_token (h : key.Valid) :
    decodeCursor (String.ofList (toUrl (btoa (key.stringify.map Char.toNat)))) = .ok key := by
  have htext : (key.stringify.map Char.toNat).map Char.ofNat = key.stringify := by
    rw [List.map_map]
    exact List.map_id'' (fun c => Char.ofNat_toNat c) _
  have hbase : tryDecodeBase64Url (String.ofList (toUrl (btoa (key.stringify.map Char.toNat)))) =
      key.stringify := by
    unfold tryDecodeBase64Url atobText
    rw [String.toList_ofList, atob_ofUrl_toUrl (bytes_stringify h)]
    exact htext
  have hjson : tryParseJson key.stringify = some key.value := by
    unfold tryParseJson parseJson
    rw [parse_stringify h]
  rw [decodeCursor, hbase, hjson, cursorKeySchema_value h]

theorem isUrlCharacter_urlLetter : ∀ n < 64, isUrlCharacter (urlLetter n) = true := by decide

/-- The token of a valid key is of the characters of base64url and names the key; any other text that
is taken for a token is refused by the schema, or it names a valid key. -/
theorem cursor_codec :
    (∀ key : CursorKey, key.Valid → ∃ token, encodeCursor key = .ok token ∧
      decodeCursor token = .ok key ∧ ∀ c ∈ token.toList, isUrlCharacter c = true) ∧
    ∀ token, (∃ paths, decodeCursor token = .error (.zodError paths)) ∨
      ∃ key, decodeCursor token = .ok key ∧ key.Valid := by
  refine ⟨fun key h => ⟨_, encodeCursor_eq h, ?_, ?_⟩, fun token => schema_throws _⟩
  · exact decodeCursor_token h
  · intro c hc
    rw [String.toList_ofList, toUrl_btoa (bytes_stringify h)] at hc
    obtain ⟨n, hn, rfl⟩ := List.mem_map.mp hc
    exact isUrlCharacter_urlLetter n (toSextets_lt (bytes_stringify h) n hn)

end roundTrip

section samples

def sampleKey : CursorKey where
  createdAt := "2026-07-16T12:34:56.789Z".toList
  id := .uuid "01890000-0000-7000-8000-000000000001".toList

theorem valid_sampleKey : sampleKey.Valid := by
  refine ⟨by decide +kernel, ?_, nofun⟩
  rintro text ⟨⟩
  decide +kernel

theorem cursor_codec_sample : ∃ token, encodeCursor sampleKey = .ok token ∧
    decodeCursor token = .ok sampleKey ∧ ∀ c ∈ token.toList, isUrlCharacter c = true :=
  cursor_codec.1 sampleKey valid_sampleKey

example : encodeCursor sampleKey = .ok ("eyJjcmVhdGVkQXQiOiIyMDI2LTA3LTE2VDEyOjM0OjU2Ljc4OVoiLCJpZCI6" ++
    "IjAxODkwMDAwLTAwMDAtNzAwMC04MDAwLTAwMDAwMDAwMDAwMSJ9") := by decide +kernel

example : decodeCursor "eyJmb28iOjF9" = .error (.zodError [["createdAt"], ["id"], []]) := by
  decide +kernel

end samples

section instants

variable [KeyTexts]

/-- The texts of a key. -/
def textsOf (key : Domain.CursorKey) : CursorKey where
  createdAt := KeyTexts.instantText key.createdAt
  id := match key.id with
    | .uuid id => .uuid (KeyTexts.uuidText id)
    | .number n => .number n

theorem stringify_textsOf {key : Domain.CursorKey} (h : (textsOf key).Valid) :
    (textsOf key).stringify = keyText key := by
  have hcreatedAt : quoted (textsOf key).createdAt =
      doubleQuote :: (KeyTexts.instantText key.createdAt ++ [doubleQuote]) :=
    quoted_plain (plain_createdAt h)
  have hid : (textsOf key).id.stringify = idText key.id := by
    cases hkey : key.id with
    | uuid id =>
      have huuid : (textsOf key).id = .uuid (KeyTexts.uuidText id) := by simp [textsOf, hkey]
      rw [huuid, CursorId.stringify, quoted_plain (plain_uuid (h.uuid _ huuid))]
      rfl
    | number n =>
      have hnumber : (textsOf key).id = .number n := by simp [textsOf, hkey]
      obtain ⟨hpositive, -⟩ := h.number n hnumber
      rw [hnumber, CursorId.stringify, decimalText, idText, decimal, if_neg (by omega)]
      rfl
  rw [CursorKey.stringify, hcreatedAt, hid, keyText]
  simp only [List.append_assoc, List.cons_append, List.nil_append]
  rfl

/-- The tokens of the keys that hold instants are those of their texts. -/
theorem codec_tokenOf {key : Domain.CursorKey} (h : (textsOf key).Valid) :
    encodeCursor (textsOf key) = .ok (tokenOf key) ∧ decodeCursor (tokenOf key) = .ok (textsOf key) := by
  have htoken : tokenOf key =
      String.ofList (toUrl (btoa ((textsOf key).stringify.map Char.toNat))) := by
    rw [stringify_textsOf h]
    rfl
  rw [htoken]
  exact ⟨encodeCursor_eq h, decodeCursor_token h⟩

end instants

end AiKanban.Domain.CursorTexts
