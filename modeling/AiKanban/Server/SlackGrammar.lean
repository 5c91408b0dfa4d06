import AiKanban.Domain.Commands
import AiKanban.Formats.Json
import AiKanban.Formats.Words

/-!
# The mention grammar

`create ticket [P0|P1|P2] <title>` behind the mentions of a message. Texts are lists of UTF-16 units, as
the source's strings are, so that a title may be cut between the two units of one character.
-/
namespace AiKanban.Server

open Domain Formats Json

/-- The case mapping of strings. -/
class CaseMapping where
  toLowerCase : List ℕ → List ℕ
  toUpperCase : List ℕ → List ℕ

/-- What `\s` matches and `trim` removes. -/
def isSpaceUnit (n : ℕ) : Bool :=
  (9 ≤ n && n ≤ 13) || n == 0x20 || n == 0xA0 || n == 0x1680 || (0x2000 ≤ n && n ≤ 0x200A) ||
    n == 0x2028 || n == 0x2029 || n == 0x202F || n == 0x205F || n == 0x3000 || n == 0xFEFF

def spaceUnit : ℕ := 32
def mentionOpen : List ℕ := [60, 64]
def mentionClose : ℕ := 62

/-- `/<@[^>]+>/`: the units a mention takes at the start of a text, none without one. -/
def mentionAt (text : List ℕ) : ℕ :=
  let inner := (text.drop 2).takeWhile (· != mentionClose)
  if text.take 2 = mentionOpen ∧ inner ≠ [] ∧ (text.drop 2)[inner.length]? = some mentionClose then
    inner.length + 3
  else 0

structure MentionCommand where
  priority : Priority
  title : List ℕ
  deriving DecidableEq

def priorityByToken : List (List ℕ × Priority) :=
  [(units "P0".toList, .p0), (units "P1".toList, .p1), (units "P2".toList, .p2)]

def cardTitleMax : ℕ := 200

/-- Mentions stripped, white space collapsed, the ends trimmed and split at the spaces. -/
def mentionTokens (rawText : List ℕ) : List (List ℕ) :=
  let stripped := replaceAll mentionAt [spaceUnit] rawText
  (strip isSpaceUnit (collapseRuns isSpaceUnit spaceUnit stripped)).splitOn spaceUnit

/-- None when the text does not match the grammar. -/
def parseMentionCommand [CaseMapping] (rawText : List ℕ) : Option MentionCommand :=
  let tokens := mentionTokens rawText
  if tokens[0]?.map CaseMapping.toLowerCase ≠ some (units "create".toList) ∨
      tokens[1]?.map CaseMapping.toLowerCase ≠ some (units "ticket".toList) then none
  else
    let priority := priorityByToken.lookup ((tokens[2]?.map CaseMapping.toUpperCase).getD [])
    let remaining := tokens.drop (if priority = none then 2 else 3)
    let title := strip isSpaceUnit (([spaceUnit].intercalate remaining).take cardTitleMax)
    if title.length = 0 then none else some ⟨priority.getD .p2, title⟩

/-- `z.string().trim().min(1).max(CARD_TITLE_MAX)`, the title of `createCardInputSchema`. -/
def parseTitle (title : List ℕ) : Option (List ℕ) :=
  let trimmed := strip isSpaceUnit title
  if 1 ≤ trimmed.length ∧ trimmed.length ≤ cardTitleMax then some trimmed else none

end AiKanban.Server
