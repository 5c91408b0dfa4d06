import Mathlib.Algebra.Ring.Nat
import Mathlib.Data.List.Dedup
import Mathlib.Data.List.DropRight
import AiKanban.Domain.Errors

/-!
# String schemas

The string rules the input schemas share. Lengths count UTF-16 code units.
-/
namespace AiKanban.Domain

/-- What the program takes from outside its repository. -/
class Platform where
  toLowerCase : String → String
  /-- `generateKeyBetween` throws when its bounds leave no gap. -/
  generateKeyBetween : Option String → Option String → Except String String
  generateNKeysBetween : Option String → Option String → ℕ → Except String (List String)

/-- The order keys a short sequence of placements makes, at either end and in between. -/
def sampleKeyBetween : Option String → Option String → Except String String
  | none, none => .ok "a0"
  | some "Zz", none => .ok "a0"
  | some "a0", none => .ok "a1"
  | some "a1", none => .ok "a2"
  | none, some "a1" => .ok "a0"
  | none, some "a0" => .ok "Zz"
  | none, some "Zz" => .ok "Zy"
  | some "a0", some "a1" => .ok "a0V"
  | _, _ => .error "outside the sample"

/-- The ASCII fold of SQLite's NOCASE collation and `lower()`. -/
def asciiLower (s : String) : String := String.ofList (s.toList.map Char.toLower)

/-- A platform on which runs over ASCII names and a few placements can be evaluated. -/
def samplePlatform : Platform where
  toLowerCase := asciiLower
  generateKeyBetween := sampleKeyBetween
  generateNKeysBetween
    | none, none, 1 => .ok ["a0"]
    | none, none, 2 => .ok ["a0", "a1"]
    | _, _, _ => .error "outside the sample"

def utf16Length (s : String) : ℕ :=
  (s.toList.map fun c => if c.toNat < 0x10000 then 1 else 2).sum

/-- White space and line terminators, as `String.prototype.trim` removes them. -/
def isTrimmed (c : Char) : Bool :=
  let n := c.toNat
  (9 ≤ n && n ≤ 13) || n == 0x20 || n == 0xA0 || n == 0x1680 || (0x2000 ≤ n && n ≤ 0x200A) ||
    n == 0x2028 || n == 0x2029 || n == 0x202F || n == 0x205F || n == 0x3000 || n == 0xFEFF

def trim (s : String) : String :=
  String.ofList ((s.toList.dropWhile isTrimmed).reverse.dropWhile isTrimmed).reverse

def isLowerLetter (c : Char) : Bool := 'a' ≤ c && c ≤ 'z'

/-- `/^[a-z][a-z0-9_]*$/` -/
def isSlug (s : String) : Bool :=
  match s.toList with
  | [] => false
  | c :: cs => isLowerLetter c && cs.all fun d => isLowerLetter d || ('0' ≤ d && d ≤ '9') || d == '_'

/-- Reject the input at a field unless the condition holds. -/
def check (condition : Bool) (path : List String) : Except DomainError Unit :=
  if condition then .ok () else .error (.invalidInput path)

/-- `z.string().min(lo).max(hi)` -/
def boundedText (path : List String) (lo hi : ℕ) (s : String) : Except DomainError Unit :=
  check (lo ≤ utf16Length s && utf16Length s ≤ hi) path

/-- `laneKeySchema`, `waitingReasonSchema` and the keys of roles. -/
def slugKey (path : List String) (s : String) : Except DomainError Unit :=
  check (isSlug s && utf16Length s ≤ 40) path

/-- `z.number().int().min(lo)`: integers are safe integers. -/
def integerAtLeast (path : List String) (lo n : ℕ) : Except DomainError Unit :=
  check (lo ≤ n && n ≤ 9007199254740991) path

/-- Check a field only when it is there. -/
def whenPresent {α : Type} (value : Option α) (rule : α → Except DomainError Unit) :
    Except DomainError Unit :=
  match value with
  | some a => rule a
  | none => .ok ()

/-- Check every element of a list. -/
def checkEach {α : Type} (values : List α) (rule : α → Except DomainError Unit) :
    Except DomainError Unit :=
  values.foldr (fun a rest => rule a >>= fun _ => rest) (.ok ())

section rules

theorem exists_ok {ε α : Type} {x : Except ε α} (h : x.isOk = true) : ∃ a, x = .ok a := by
  cases x with
  | error e => cases h
  | ok a => exact ⟨a, rfl⟩

theorem ok_of_bind {ε α β : Type} {x : Except ε α} {f : α → Except ε β} {b : β}
    (h : (x >>= f) = .ok b) : ∃ a, x = .ok a ∧ f a = .ok b := by
  cases x with
  | error e => cases h
  | ok a => exact ⟨a, rfl, h⟩

theorem bind_of_ok {ε α β : Type} {x : Except ε α} {f : α → Except ε β} {a : α} (h : x = .ok a) :
    (x >>= f) = f a := by
  rw [h]
  rfl

theorem check_ok_iff {condition : Bool} {path : List String} :
    check condition path = .ok () ↔ condition = true := by
  cases condition <;> simp [check]

theorem boundedText_ok_iff {path : List String} {lo hi : ℕ} {s : String} :
    boundedText path lo hi s = .ok () ↔ lo ≤ utf16Length s ∧ utf16Length s ≤ hi := by
  rw [boundedText, check_ok_iff, Bool.and_eq_true, decide_eq_true_eq, decide_eq_true_eq]

theorem integerAtLeast_ok_iff {path : List String} {lo n : ℕ} :
    integerAtLeast path lo n = .ok () ↔ lo ≤ n ∧ n ≤ 9007199254740991 := by
  rw [integerAtLeast, check_ok_iff, Bool.and_eq_true, decide_eq_true_eq, decide_eq_true_eq]

theorem checkEach_ok_iff {α : Type} {values : List α} {rule : α → Except DomainError Unit} :
    checkEach values rule = .ok () ↔ ∀ a ∈ values, rule a = .ok () := by
  induction values with
  | nil => simp [checkEach]
  | cons a values ih =>
    rw [List.forall_mem_cons, ← ih]
    constructor
    · intro h
      obtain ⟨_, ha, hrest⟩ := ok_of_bind h
      exact ⟨ha, hrest⟩
    · rintro ⟨ha, hrest⟩
      exact (bind_of_ok ha).trans hrest

/-- Text that starts where trimming stopped has nothing to drop at its start. -/
theorem dropWhile_of_prefix {α : Type} {p : α → Bool} {l kept : List α}
    (h : kept <+: l.dropWhile p) : kept.dropWhile p = kept := by
  cases kept with
  | nil => rfl
  | cons x xs =>
    obtain ⟨rest, hrest⟩ := h
    have hne : l.dropWhile p ≠ [] := by
      rw [← hrest]
      simp
    have hhead := List.head_dropWhile_not p hne
    simp only [← hrest, List.cons_append, List.head_cons] at hhead
    exact List.dropWhile_cons_of_neg (by simp [hhead])

/-- Trimmed text stays as it is. -/
theorem trim_trim (text : String) : trim (trim text) = trim text := by
  have hstart : ((text.toList.dropWhile isTrimmed).rdropWhile isTrimmed).dropWhile isTrimmed =
      (text.toList.dropWhile isTrimmed).rdropWhile isTrimmed :=
    dropWhile_of_prefix (List.rdropWhile_prefix _ _)
  have hend := List.rdropWhile_idempotent isTrimmed (text.toList.dropWhile isTrimmed)
  unfold trim
  rw [String.toList_ofList]
  change String.ofList (((List.rdropWhile isTrimmed _).dropWhile isTrimmed).rdropWhile isTrimmed) =
    String.ofList (List.rdropWhile isTrimmed _)
  rw [hstart, hend]

end rules

end AiKanban.Domain
