import Mathlib.Tactic
import AiKanban.Server.SlackGrammar

/-!
# What the mention grammar accepts

The tokens of a message are the words left once its mentions are stripped. A command is `create`,
`ticket`, a priority that may be missing, and at least one more word.
-/
namespace AiKanban.Invariants

open Domain Formats Json Server

section mentions

def IsMention (text : List ℕ) : Prop :=
  ∃ inner, inner ≠ [] ∧ mentionClose ∉ inner ∧ text = mentionOpen ++ (inner ++ [mentionClose])

/-- Every leftmost mention is replaced by a space, and the text goes on behind it. -/
inductive MentionsStripped : List ℕ → List ℕ → Prop
  | nil : MentionsStripped [] []
  | mention {text rest out : List ℕ} (h : IsMention text) (hrest : MentionsStripped rest out) :
      MentionsStripped (text ++ rest) (spaceUnit :: out)
  | unit {a : ℕ} {rest out : List ℕ}
      (h : ∀ text behind, IsMention text → a :: rest ≠ text ++ behind)
      (hrest : MentionsStripped rest out) : MentionsStripped (a :: rest) (a :: out)

/-- A message's text with its mentions stripped. -/
def stripMentions (text : List ℕ) : List ℕ := replaceAll mentionAt [spaceUnit] text

variable {text rest out : List ℕ} {a : ℕ}

theorem mentionAt_of_isMention (h : IsMention text) (rest : List ℕ) :
    mentionAt (text ++ rest) = text.length ∧ text.length ≠ 0 := by
  obtain ⟨inner, hne, hinner, rfl⟩ := h
  have hopen : (mentionOpen ++ (inner ++ [mentionClose]) ++ rest).take 2 = mentionOpen := rfl
  have hbehind : (mentionOpen ++ (inner ++ [mentionClose]) ++ rest).drop 2 =
      inner ++ mentionClose :: rest := by
    simp [mentionOpen]
  have htaken : (inner ++ mentionClose :: rest).takeWhile (· != mentionClose) = inner := by
    rw [List.takeWhile_append_of_pos, List.takeWhile_cons_of_neg (by simp), List.append_nil]
    intro b hb
    simp only [bne_iff_ne, ne_eq]
    rintro rfl
    exact hinner hb
  constructor
  · unfold mentionAt
    rw [hopen, hbehind, htaken, if_pos ⟨rfl, hne, by simp⟩]
    simp [mentionOpen]
  · simp [mentionOpen]

theorem exists_mention (h : mentionAt text ≠ 0) :
    ∃ mention rest, IsMention mention ∧ text = mention ++ rest := by
  unfold mentionAt at h
  simp only [ne_eq, ite_eq_right_iff, not_forall] at h
  obtain ⟨⟨hopen, hne, hclose⟩, _⟩ := h
  obtain ⟨hbound, hat⟩ := List.getElem?_eq_some_iff.1 hclose
  have hbehind : text.drop 2 = (text.drop 2).takeWhile (· != mentionClose) ++
      mentionClose :: (text.drop 2).drop (((text.drop 2).takeWhile (· != mentionClose)).length + 1) := by
    have hsplit := List.takeWhile_append_dropWhile (p := (· != mentionClose)) (l := text.drop 2)
    rw [← drop_runAt, runAt, List.drop_eq_getElem_cons hbound, hat] at hsplit
    exact hsplit.symm
  refine ⟨mentionOpen ++ ((text.drop 2).takeWhile (· != mentionClose) ++ [mentionClose]),
    (text.drop 2).drop (((text.drop 2).takeWhile (· != mentionClose)).length + 1),
    ⟨_, hne, ?_, rfl⟩, ?_⟩
  · intro hmem
    simpa using List.mem_takeWhile_imp hmem
  · have hwhole := List.take_append_drop 2 text
    rw [hopen, hbehind] at hwhole
    rw [List.append_assoc, List.append_assoc]
    exact hwhole.symm

theorem mentionsStripped_stripMentions (text : List ℕ) :
    MentionsStripped text (stripMentions text) := by
  induction hlength : text.length using Nat.strong_induction_on generalizing text with
  | h length ih =>
    cases text with
    | nil => exact MentionsStripped.nil
    | cons a text =>
      by_cases h : mentionAt (a :: text) = 0
      · rw [stripMentions, replaceAll_of_no_match h]
        apply MentionsStripped.unit
        · intro mention behind hmention heq
          obtain ⟨hlen, hpos⟩ := mentionAt_of_isMention hmention behind
          rw [← heq] at hlen
          omega
        · exact ih text.length (by simp [← hlength]) text rfl
      · obtain ⟨mention, rest, hmention, heq⟩ := exists_mention h
        obtain ⟨hlen, hpos⟩ := mentionAt_of_isMention hmention rest
        rw [heq] at hlength ⊢
        rw [stripMentions, replaceAll_match hlen hpos]
        apply MentionsStripped.mention hmention
        exact ih rest.length (by rw [← hlength, List.length_append]; omega) rest rfl

theorem stripMentions_of_stripped (h : MentionsStripped text out) : stripMentions text = out := by
  induction h with
  | nil => rfl
  | @mention mention rest out hmention _ ih =>
    obtain ⟨hlen, hpos⟩ := mentionAt_of_isMention hmention rest
    rw [stripMentions, replaceAll_match hlen hpos]
    exact congrArg (spaceUnit :: ·) ih
  | @unit a rest out hnone _ ih =>
    have hzero : mentionAt (a :: rest) = 0 := by
      by_contra h
      obtain ⟨mention, behind, hmention, heq⟩ := exists_mention h
      exact hnone mention behind hmention heq
    rw [stripMentions, replaceAll_of_no_match hzero]
    exact congrArg (a :: ·) ih

theorem mentionsStripped_iff : MentionsStripped text out ↔ stripMentions text = out := by
  constructor
  · exact stripMentions_of_stripped
  · rintro rfl
    exact mentionsStripped_stripMentions text

end mentions

section tokens

variable {text : List ℕ}

/-- The words of a message behind its mentions. -/
def tokensOf (text : List ℕ) : List (List ℕ) := words isSpaceUnit (stripMentions text)

theorem mentionTokens_eq (text : List ℕ) :
    mentionTokens text = ([spaceUnit].intercalate (tokensOf text)).splitOn spaceUnit := by
  have hcollapsed := strip_collapseRuns (p := isSpaceUnit) (by decide : isSpaceUnit spaceUnit = true)
    (stripMentions text)
  rw [tokensOf, ← hcollapsed]
  rfl

theorem mentionTokens_of_tokens (h : tokensOf text ≠ []) : mentionTokens text = tokensOf text :=
  splitOn_strip_collapseRuns (by decide) h

theorem mentionTokens_of_blank (h : tokensOf text = []) : mentionTokens text = [[]] := by
  rw [mentionTokens_eq, h]
  rfl

/-- Mentions and white space, nothing else. -/
inductive Preamble : List ℕ → Prop
  | nil : Preamble []
  | space {a : ℕ} {rest : List ℕ} (h : isSpaceUnit a = true) (hrest : Preamble rest) :
      Preamble (a :: rest)
  | mention {mention rest : List ℕ} (h : IsMention mention) (hrest : Preamble rest) :
      Preamble (mention ++ rest)

theorem mentionAt_of_space {a : ℕ} (h : isSpaceUnit a = true) (rest : List ℕ) :
    mentionAt (a :: rest) = 0 := by
  by_contra hne
  obtain ⟨mention, behind, ⟨inner, _, _, rfl⟩, heq⟩ := exists_mention hne
  obtain ⟨rfl, _⟩ := List.cons_eq_cons.1 heq
  simp [isSpaceUnit] at h

theorem tokensOf_preamble {preamble : List ℕ} (h : Preamble preamble) (text : List ℕ) :
    tokensOf (preamble ++ text) = tokensOf text := by
  induction h with
  | nil => rfl
  | @space a rest hspace _ ih =>
    rw [tokensOf, List.cons_append, stripMentions, replaceAll_of_no_match (mentionAt_of_space hspace _),
      words_cons_of_pos hspace]
    exact ih
  | @mention mention rest hmention _ ih =>
    obtain ⟨hlen, hpos⟩ := mentionAt_of_isMention hmention (rest ++ text)
    rw [tokensOf, List.append_assoc, stripMentions, replaceAll_match hlen hpos, List.singleton_append,
      words_cons_of_pos (by decide)]
    exact ih

end tokens

section titles

/-- The title of the remaining words. -/
def titleOf (remaining : List (List ℕ)) : List ℕ :=
  strip isSpaceUnit (([spaceUnit].intercalate remaining).take cardTitleMax)

theorem titleOf_ne_nil {word : List ℕ} {others : List (List ℕ)} (hne : word ≠ [])
    (hword : ∀ a ∈ word, isSpaceUnit a = false) : titleOf (word :: others) ≠ [] := by
  obtain ⟨a, word, rfl⟩ := List.exists_cons_of_ne_nil hne
  rw [titleOf, List.intercalate_cons_cons_left]
  exact strip_cons_ne_nil (hword a List.mem_cons_self)

theorem titleOf_length_le (remaining : List (List ℕ)) : (titleOf remaining).length ≤ cardTitleMax := by
  have hstrip := (strip_sublist (p := isSpaceUnit)
    (([spaceUnit].intercalate remaining).take cardTitleMax)).length_le
  have htake := List.length_take_le cardTitleMax ([spaceUnit].intercalate remaining)
  exact hstrip.trans htake

theorem strip_titleOf (remaining : List (List ℕ)) :
    strip isSpaceUnit (titleOf remaining) = titleOf remaining := by
  have hstart := dropWhile_of_prefix (List.rdropWhile_prefix isSpaceUnit
    (l := (([spaceUnit].intercalate remaining).take cardTitleMax).dropWhile isSpaceUnit))
  exact strip_eq_self_iff.2 ⟨hstart, List.rdropWhile_idempotent _ _⟩

theorem parseTitle_titleOf {remaining : List (List ℕ)} (h : titleOf remaining ≠ []) :
    parseTitle (titleOf remaining) = some (titleOf remaining) := by
  have hpos := List.length_pos_iff.2 h
  have hle := titleOf_length_le remaining
  unfold parseTitle
  rw [strip_titleOf, if_pos ⟨hpos, hle⟩]

theorem length_utf16 (c : Char) : (utf16 c).length = if c.toNat < 0x10000 then 1 else 2 := by
  unfold utf16
  split_ifs <;> rfl

theorem utf16Length_eq (text : String) : utf16Length text = (units text.toList).length := by
  simp only [utf16Length, units, List.length_flatMap, length_utf16]

theorem utf16_of_isTrimmed {c : Char} (h : isTrimmed c = true) :
    utf16 c = [c.toNat] ∧ isSpaceUnit c.toNat = true := by
  refine ⟨if_pos ?_, h⟩
  simp only [isTrimmed, Bool.or_eq_true, Bool.and_eq_true, decide_eq_true_eq, beq_iff_eq] at h
  omega

/-- A text whose units are trimmed is trimmed. -/
theorem trim_of_units {title : String}
    (h : strip isSpaceUnit (units title.toList) = units title.toList) : trim title = title := by
  obtain ⟨hstart, hend⟩ := strip_eq_self_iff.1 h
  have hchars : strip isTrimmed title.toList = title.toList := by
    apply strip_eq_self_iff.2
    constructor
    · cases hlist : title.toList with
      | nil => rfl
      | cons c rest =>
        apply List.dropWhile_cons_of_neg
        intro hc
        obtain ⟨hunit, hspace⟩ := utf16_of_isTrimmed hc
        have hunits : units title.toList = c.toNat :: units rest := by
          rw [hlist, units, List.flatMap_cons, hunit]
          rfl
        rw [hunits] at hstart
        simp [neg_of_bare hstart] at hspace
    · apply List.rdropWhile_eq_self_iff.2
      intro hne hc
      obtain ⟨hunit, hspace⟩ := utf16_of_isTrimmed hc
      have hunits : units title.toList =
          units title.toList.dropLast ++ [(title.toList.getLast hne).toNat] := by
        conv_lhs => rw [← List.dropLast_append_getLast hne]
        rw [units, List.flatMap_append, List.flatMap_singleton, hunit]
        rfl
      rw [hunits, List.rdropWhile_concat_pos _ _ _ hspace] at hend
      have hlength := congrArg List.length hend
      have hle := (List.rdropWhile_prefix isSpaceUnit (l := units title.toList.dropLast)).length_le
      rw [List.length_append, List.length_singleton] at hlength
      omega
  have htrim : trim title = String.ofList (strip isTrimmed title.toList) := rfl
  rw [htrim, hchars, String.ofList_toList]

/-- The title is taken as it is, with any description the schema accepts. -/
theorem parse_of_title {title description : String} {priority : Priority}
    {remaining : List (List ℕ)} (htitle : units title.toList = titleOf remaining)
    (hne : titleOf remaining ≠ []) (hdescription : utf16Length description ≤ 20000) :
    ({ title, description, priority } : CreateCardInput).parse =
      .ok { title, description, priority } := by
  have htrim : trim title = title := by
    apply trim_of_units
    rw [htitle, strip_titleOf]
  have hbounds : boundedText ["title"] 1 200 (trim title) = .ok () := by
    apply boundedText_ok_iff.2
    rw [htrim, utf16Length_eq, htitle]
    exact ⟨List.length_pos_iff.2 hne, titleOf_length_le remaining⟩
  have hshort : boundedText ["description"] 0 20000 description = .ok () :=
    boundedText_ok_iff.2 ⟨Nat.zero_le _, hdescription⟩
  unfold CreateCardInput.parse
  rw [bind_of_ok hbounds, bind_of_ok hshort, htrim]
  rfl

end titles

section grammar

/-- A token of the table is found, and no other. -/
theorem lookup_given {key : List ℕ} {priority : Priority} (h : (key, priority) ∈ priorityByToken) :
    priorityByToken.lookup key = some priority := by
  simp only [priorityByToken, List.mem_cons, Prod.mk.injEq, List.not_mem_nil, or_false] at h
  rcases h with ⟨rfl, rfl⟩ | ⟨rfl, rfl⟩ | ⟨rfl, rfl⟩ <;> decide

theorem lookup_absent {key : List ℕ} (h : ∀ priority, (key, priority) ∉ priorityByToken) :
    priorityByToken.lookup key = none := by
  apply List.lookup_eq_none_iff.2
  intro entry hentry
  simp only [bne_iff_ne, ne_eq]
  rintro rfl
  exact h entry.2 hentry

variable [CaseMapping]

/-- One priority token in any case, or none and the default. -/
inductive LeadingPriority : List (List ℕ) → Priority → List (List ℕ) → Prop
  | given {token : List ℕ} {remaining : List (List ℕ)} {priority : Priority}
      (h : (CaseMapping.toUpperCase token, priority) ∈ priorityByToken) :
      LeadingPriority (token :: remaining) priority remaining
  | absent {remaining : List (List ℕ)}
      (h : ∀ token ∈ remaining.head?, ∀ priority,
        (CaseMapping.toUpperCase token, priority) ∉ priorityByToken) :
      LeadingPriority remaining .p2 remaining

/-- `create ticket [P0|P1|P2] <title>` as tokens, with the command it stands for. -/
def IsCommand (tokens : List (List ℕ)) (command : MentionCommand) : Prop :=
  ∃ create ticket rest remaining, tokens = create :: ticket :: rest ∧
    CaseMapping.toLowerCase create = units "create".toList ∧
    CaseMapping.toLowerCase ticket = units "ticket".toList ∧
    LeadingPriority rest command.priority remaining ∧ remaining ≠ [] ∧
    command.title = titleOf remaining

theorem exists_leadingPriority (rest : List (List ℕ)) :
    ∃ priority remaining, LeadingPriority rest priority remaining := by
  by_cases h : ∃ token ∈ rest.head?, ∃ priority,
      (CaseMapping.toUpperCase token, priority) ∈ priorityByToken
  · obtain ⟨token, htoken, priority, hpriority⟩ := h
    obtain ⟨remaining, rfl⟩ := List.head?_eq_some_iff.1 htoken
    exact ⟨priority, remaining, .given hpriority⟩
  · push Not at h
    exact ⟨.p2, rest, .absent h⟩

theorem LeadingPriority.sublist {rest remaining : List (List ℕ)} {priority : Priority}
    (h : LeadingPriority rest priority remaining) : remaining.Sublist rest := by
  cases h with
  | given => exact List.sublist_cons_self _ _
  | absent => exact List.Sublist.refl _

theorem parse_of_tokens {text create ticket : List ℕ} {rest remaining : List (List ℕ)}
    {priority : Priority} (htokens : tokensOf text = create :: ticket :: rest)
    (hcreate : CaseMapping.toLowerCase create = units "create".toList)
    (hticket : CaseMapping.toLowerCase ticket = units "ticket".toList)
    (hlead : LeadingPriority rest priority remaining) :
    parseMentionCommand text =
      if (titleOf remaining).length = 0 then none else some ⟨priority, titleOf remaining⟩ := by
  have hmention : mentionTokens text = create :: ticket :: rest := by
    rw [mentionTokens_of_tokens (by simp [htokens]), htokens]
  have hgrammar : ¬ ((create :: ticket :: rest)[0]?.map CaseMapping.toLowerCase ≠
        some (units "create".toList) ∨
      (create :: ticket :: rest)[1]?.map CaseMapping.toLowerCase ≠ some (units "ticket".toList)) := by
    simp [hcreate, hticket]
  unfold parseMentionCommand
  rw [hmention, if_neg hgrammar]
  cases hlead with
  | @given token remaining priority h =>
    have hlookup : priorityByToken.lookup
        (((create :: ticket :: token :: remaining)[2]?.map CaseMapping.toUpperCase).getD []) =
        some priority := lookup_given h
    rw [hlookup]
    rfl
  | absent h =>
    have hlookup : priorityByToken.lookup
        (((create :: ticket :: rest)[2]?.map CaseMapping.toUpperCase).getD []) = none := by
      cases rest with
      | nil => rfl
      | cons token rest => exact lookup_absent (h token rfl)
    rw [hlookup]
    rfl

theorem tokens_of_parse {text : List ℕ} {command : MentionCommand}
    (h : parseMentionCommand text = some command) :
    ∃ create ticket rest, tokensOf text = create :: ticket :: rest ∧
      CaseMapping.toLowerCase create = units "create".toList ∧
      CaseMapping.toLowerCase ticket = units "ticket".toList := by
  have hgrammar : ¬ ((mentionTokens text)[0]?.map CaseMapping.toLowerCase ≠
        some (units "create".toList) ∨
      (mentionTokens text)[1]?.map CaseMapping.toLowerCase ≠ some (units "ticket".toList)) := by
    intro hmiss
    unfold parseMentionCommand at h
    rw [if_pos hmiss] at h
    cases h
  push Not at hgrammar
  obtain ⟨hcreate, hticket⟩ := hgrammar
  by_cases hblank : tokensOf text = []
  · rw [mentionTokens_of_blank hblank] at hticket
    simp at hticket
  · rw [mentionTokens_of_tokens hblank] at hcreate hticket
    obtain ⟨create, hfirst, hcreate⟩ := Option.map_eq_some_iff.1 hcreate
    obtain ⟨ticket, hsecond, hticket⟩ := Option.map_eq_some_iff.1 hticket
    cases htokens : tokensOf text with
    | nil => exact absurd htokens hblank
    | cons first others =>
      cases others with
      | nil => simp [htokens] at hsecond
      | cons second rest =>
        simp only [htokens, List.getElem?_cons_zero, Option.some.injEq] at hfirst
        simp only [htokens, List.getElem?_cons_succ, List.getElem?_cons_zero,
          Option.some.injEq] at hsecond
        exact ⟨first, second, rest, rfl, hfirst ▸ hcreate, hsecond ▸ hticket⟩

/-- A word that remains is a title. -/
theorem title_ne_nil {text : List ℕ} {command : MentionCommand}
    (h : IsCommand (tokensOf text) command) : command.title ≠ [] := by
  obtain ⟨create, ticket, rest, remaining, htokens, _, _, hlead, hne, htitle⟩ := h
  obtain ⟨word, others, rfl⟩ := List.exists_cons_of_ne_nil hne
  have hword : word ∈ tokensOf text := by
    have hrest := hlead.sublist.subset List.mem_cons_self
    simp [htokens, hrest]
  rw [htitle]
  exact titleOf_ne_nil (ne_nil_of_mem_words hword) (neg_of_mem_words hword)

theorem parse_iff (text : List ℕ) (command : MentionCommand) :
    parseMentionCommand text = some command ↔ IsCommand (tokensOf text) command := by
  constructor
  · intro h
    obtain ⟨create, ticket, rest, htokens, hcreate, hticket⟩ := tokens_of_parse h
    obtain ⟨priority, remaining, hlead⟩ := exists_leadingPriority rest
    rw [parse_of_tokens htokens hcreate hticket hlead] at h
    split_ifs at h with hempty
    obtain rfl := Option.some.inj h
    refine ⟨create, ticket, rest, remaining, htokens, hcreate, hticket, hlead, ?_, rfl⟩
    rintro rfl
    exact hempty rfl
  · intro h
    have hnonempty := title_ne_nil h
    obtain ⟨create, ticket, rest, remaining, htokens, hcreate, hticket, hlead, _, htitle⟩ := h
    rw [htitle] at hnonempty
    rw [parse_of_tokens htokens hcreate hticket hlead,
      if_neg (by simpa [List.length_eq_zero_iff] using hnonempty), ← htitle]

theorem parse_preamble {preamble : List ℕ} (h : Preamble preamble) (text : List ℕ) :
    parseMentionCommand (preamble ++ text) = parseMentionCommand text := by
  have htokens : mentionTokens (preamble ++ text) = mentionTokens text := by
    rw [mentionTokens_eq, tokensOf_preamble h, ← mentionTokens_eq]
  unfold parseMentionCommand
  rw [htokens]

/-- A message is a command exactly when its words, the mentions stripped, follow the grammar. The title
passes the schema as it is, and what is put before the text does not matter. -/
theorem mention_grammar (text : List ℕ) :
    (∀ out, MentionsStripped text out ↔ stripMentions text = out) ∧
    (∀ command, parseMentionCommand text = some command ↔
      IsCommand (words isSpaceUnit (stripMentions text)) command) ∧
    (∀ command, parseMentionCommand text = some command →
      parseTitle command.title = some command.title ∧
      ∀ title description : String, units title.toList = command.title →
        utf16Length description ≤ 20000 →
        ({ title, description, priority := command.priority } : CreateCardInput).parse =
          .ok { title, description, priority := command.priority }) ∧
    ∀ preamble, Preamble preamble →
      parseMentionCommand (preamble ++ text) = parseMentionCommand text := by
  refine ⟨fun out => mentionsStripped_iff, parse_iff text, ?_, fun preamble h => parse_preamble h text⟩
  intro command h
  have hcommand := (parse_iff text command).1 h
  have hnonempty := title_ne_nil hcommand
  obtain ⟨_, _, _, remaining, _, _, _, _, _, htitle⟩ := hcommand
  rw [htitle] at hnonempty ⊢
  refine ⟨parseTitle_titleOf hnonempty, ?_⟩
  intro title description heq hshort
  exact parse_of_title heq hnonempty hshort

end grammar

/-- The case mapping of ASCII letters. -/
@[reducible] def asciiCaseMapping : CaseMapping where
  toLowerCase text := text.map fun n => if 65 ≤ n ∧ n ≤ 90 then n + 32 else n
  toUpperCase text := text.map fun n => if 97 ≤ n ∧ n ≤ 122 then n - 32 else n

def doorMessage : List ℕ := units "<@U1> Create ticket p0 broken <@U2>  door".toList

theorem mention_grammar_door :
    @IsCommand asciiCaseMapping (words isSpaceUnit (stripMentions doorMessage))
      ⟨.p0, units "broken door".toList⟩ ∧
    ({ title := "broken door", priority := .p0 } : CreateCardInput).parse =
      .ok { title := "broken door", priority := .p0 } ∧
    @parseMentionCommand asciiCaseMapping (32 :: doorMessage) =
      some ⟨.p0, units "broken door".toList⟩ := by
  have hparse : @parseMentionCommand asciiCaseMapping doorMessage =
      some ⟨.p0, units "broken door".toList⟩ := by
    decide +kernel
  obtain ⟨_, hgrammar, hschema, hpreamble⟩ := @mention_grammar asciiCaseMapping doorMessage
  have hspace := hpreamble [32] (.space (by decide) .nil)
  exact ⟨(hgrammar _).1 hparse, (hschema _ hparse).2 "broken door" "" rfl (by decide),
    hspace.trans hparse⟩

end AiKanban.Invariants
