import Mathlib.Data.List.Sort
import Mathlib.Tactic

/-!
# Mentions in a comment

A body is shown as runs of plain text and tags of known names. Texts are lists of UTF-16 units.
-/
namespace AiKanban.Web

/-- What is shown: a plain run, or a tag keyed by its index in the body. -/
inductive CommentNode where
  | plain (text : List ℕ)
  | tag (index : ℕ) (name : List ℕ)
  deriving DecidableEq

def atSign : ℕ := 64

def CommentNode.text : CommentNode → List ℕ
  | plain text => text
  | tag _ name => atSign :: name

structure RenderState where
  nodes : List CommentNode
  plain : List ℕ
  index : ℕ

namespace RenderState

def start : RenderState := ⟨[], [], 0⟩

/-- Accumulated plain text becomes one node. -/
def flushPlain (s : RenderState) : RenderState :=
  if s.plain = [] then s else { s with nodes := s.nodes ++ [.plain s.plain], plain := [] }

/-- The first name that the text behind an `@` starts with. -/
def matchAt (body : List ℕ) (names : List (List ℕ)) (index : ℕ) : Option (List ℕ) :=
  if body[index]? = some atSign then
    names.find? fun name => name.isPrefixOf (body.drop (index + 1))
  else none

/-- One turn of the loop: a tag, or one more unit of plain text. -/
def step (body : List ℕ) (names : List (List ℕ)) (s : RenderState) : RenderState :=
  match matchAt body names s.index with
  | some name => ⟨s.flushPlain.nodes ++ [.tag s.index name], [], s.index + 1 + name.length⟩
  | none => { s with plain := s.plain ++ (body.drop s.index).take 1, index := s.index + 1 }

/-- Every turn moves on, so a body has no more turns than units. -/
def loop (body : List ℕ) (names : List (List ℕ)) : ℕ → RenderState → RenderState
  | 0, s => s
  | turns + 1, s => if s.index < body.length then loop body names turns (step body names s) else s

end RenderState

/-- Longest first, names of one length in their order. -/
def longestFirst (names : List (List ℕ)) : List (List ℕ) :=
  names.insertionSort fun a b => b.length ≤ a.length

def renderCommentBody (body : List ℕ) (displayNames : List (List ℕ)) : List CommentNode :=
  let names := longestFirst (displayNames.filter fun name => name ≠ [])
  (RenderState.loop body names body.length .start).flushPlain.nodes

section names

variable {body : List ℕ} {displayNames : List (List ℕ)} {name text : List ℕ} {index : ℕ}

/-- The longest known name a text starts with. -/
def LongestName (displayNames : List (List ℕ)) (text name : List ℕ) : Prop :=
  name ∈ displayNames ∧ name ≠ [] ∧ name <+: text ∧
    ∀ other ∈ displayNames, other <+: text → other.length ≤ name.length

/-- The names the loop is given. -/
def knownNames (displayNames : List (List ℕ)) : List (List ℕ) :=
  longestFirst (displayNames.filter fun name => name ≠ [])

theorem mem_knownNames : name ∈ knownNames displayNames ↔ name ∈ displayNames ∧ name ≠ [] := by
  rw [knownNames, longestFirst, List.mem_insertionSort, List.mem_filter, decide_eq_true_eq]

theorem pairwise_knownNames (displayNames : List (List ℕ)) :
    (knownNames displayNames).Pairwise fun a b => b.length ≤ a.length := by
  have htotal : Std.Total fun a b : List ℕ => b.length ≤ a.length :=
    ⟨fun a b => le_total b.length a.length⟩
  have htrans : IsTrans (List ℕ) fun a b => b.length ≤ a.length := ⟨fun _ _ _ h h' => h'.trans h⟩
  exact List.pairwise_insertionSort _ _

theorem matchAt_some (h : RenderState.matchAt body (knownNames displayNames) index = some name) :
    body[index]? = some atSign ∧ LongestName displayNames (body.drop (index + 1)) name := by
  unfold RenderState.matchAt at h
  split_ifs at h with hat
  obtain ⟨hopens, before, after, hnames, hbefore⟩ := List.find?_eq_some_iff_append.1 h
  have hmem : name ∈ knownNames displayNames := by simp [hnames]
  obtain ⟨hknown, hne⟩ := mem_knownNames.1 hmem
  refine ⟨hat, hknown, hne, List.isPrefixOf_iff_prefix.1 hopens, ?_⟩
  intro other hother hstart
  by_cases hempty : other = []
  · simp [hempty]
  have hlisted := mem_knownNames.2 ⟨hother, hempty⟩
  rw [hnames] at hlisted
  rcases List.mem_append.1 hlisted with hearly | hlate
  · have hmiss := hbefore other hearly
    rw [List.isPrefixOf_iff_prefix.2 hstart] at hmiss
    simp at hmiss
  · have hsorted := pairwise_knownNames displayNames
    rw [hnames] at hsorted
    rcases List.mem_cons.1 hlate with rfl | hafter
    · exact le_refl _
    · exact List.rel_of_pairwise_cons (List.pairwise_append.1 hsorted).2.1 hafter

theorem matchAt_none (h : RenderState.matchAt body (knownNames displayNames) index = none)
    (hat : body[index]? = some atSign) (hname : name ∈ displayNames) (hne : name ≠ []) :
    ¬ name <+: body.drop (index + 1) := by
  unfold RenderState.matchAt at h
  rw [if_pos hat] at h
  have hmiss := List.find?_eq_none.1 h name (mem_knownNames.2 ⟨hname, hne⟩)
  intro hopens
  exact hmiss (List.isPrefixOf_iff_prefix.2 hopens)

end names

section shown

variable (body : List ℕ) (displayNames : List (List ℕ))

/-- A node at its place in the body. A tag is the longest name, and no name follows an `@` in plain text. -/
def NodeShown (offset : ℕ) : CommentNode → Prop
  | .plain text => ∀ before after, text = before ++ atSign :: after →
      ∀ name ∈ displayNames, name ≠ [] → ¬ name <+: body.drop (offset + before.length + 1)
  | .tag index name => index = offset ∧ LongestName displayNames (body.drop (offset + 1)) name

def Shown (nodes : List CommentNode) : Prop :=
  ∀ before node after, nodes = before ++ node :: after →
    NodeShown body displayNames (before.flatMap CommentNode.text).length node

/-- The nodes and the pending plain text show the body up to the index. -/
structure Rendered (s : RenderState) : Prop where
  text : s.nodes.flatMap CommentNode.text ++ s.plain = body.take s.index
  bound : s.index ≤ body.length
  shown : Shown body displayNames s.nodes
  pending : NodeShown body displayNames (s.nodes.flatMap CommentNode.text).length (.plain s.plain)

variable {body displayNames}

theorem shown_append {nodes : List CommentNode} {node : CommentNode}
    (h : Shown body displayNames nodes)
    (hnode : NodeShown body displayNames (nodes.flatMap CommentNode.text).length node) :
    Shown body displayNames (nodes ++ [node]) := by
  intro before other after hsplit
  rcases List.append_eq_append_iff.1 hsplit with ⟨rest, rfl, hrest⟩ | ⟨rest, hnodes, hrest⟩
  · cases rest with
    | nil =>
      obtain ⟨rfl, _⟩ := List.cons_eq_cons.1 hrest
      rwa [List.append_nil]
    | cons first rest => simp at hrest
  · cases rest with
    | nil =>
      obtain ⟨rfl, _⟩ := List.cons_eq_cons.1 hrest
      rw [List.append_nil] at hnodes
      rwa [← hnodes]
    | cons first rest =>
      obtain ⟨rfl, _⟩ := List.cons_eq_cons.1 hrest
      exact h before other rest hnodes

variable {s : RenderState}

theorem Rendered.start : Rendered body displayNames .start where
  text := rfl
  bound := Nat.zero_le _
  shown := by
    intro before node after hsplit
    simp [RenderState.start] at hsplit
  pending := by
    intro before after hsplit
    simp [RenderState.start] at hsplit

theorem Rendered.flushPlain (h : Rendered body displayNames s) :
    Rendered body displayNames s.flushPlain ∧ s.flushPlain.plain = [] ∧ s.flushPlain.index = s.index := by
  unfold RenderState.flushPlain
  split_ifs with hempty
  · exact ⟨h, hempty, rfl⟩
  · refine ⟨⟨?_, h.bound, shown_append h.shown h.pending, ?_⟩, rfl, rfl⟩
    · rw [List.append_nil, List.flatMap_append, List.flatMap_singleton]
      exact h.text
    · intro before after hsplit
      simp at hsplit

theorem Rendered.offset (h : Rendered body displayNames s) :
    (s.nodes.flatMap CommentNode.text).length + s.plain.length = s.index := by
  have hlength := congrArg List.length h.text
  rw [List.length_append, List.length_take, Nat.min_eq_left h.bound] at hlength
  exact hlength

/-- The mark and the name are what the body has there. -/
theorem take_of_match {name : List ℕ} {index : ℕ} (hat : body[index]? = some atSign)
    (hname : name <+: body.drop (index + 1)) :
    body.take (index + 1 + name.length) = body.take index ++ atSign :: name := by
  obtain ⟨hbound, heq⟩ := List.getElem?_eq_some_iff.1 hat
  have hrest : body.drop index = atSign :: body.drop (index + 1) := by
    rw [List.drop_eq_getElem_cons hbound, heq]
  rw [Nat.add_assoc, List.take_add, hrest, Nat.add_comm 1, List.take_succ_cons,
    ← List.prefix_iff_eq_take.1 hname]

theorem Rendered.step (h : Rendered body displayNames s) (hs : s.index < body.length) :
    Rendered body displayNames (RenderState.step body (knownNames displayNames) s) := by
  unfold RenderState.step
  cases hmatch : RenderState.matchAt body (knownNames displayNames) s.index with
  | some name =>
    obtain ⟨hat, hlongest⟩ := matchAt_some hmatch
    obtain ⟨hflushed, hplain, hindex⟩ := h.flushPlain
    have hoffset := hflushed.offset
    rw [hplain, List.length_nil, Nat.add_zero, hindex] at hoffset
    have htext := hflushed.text
    rw [hplain, List.append_nil, hindex] at htext
    refine ⟨?_, ?_, shown_append hflushed.shown ⟨hoffset.symm, ?_⟩, ?_⟩
    · rw [List.append_nil, List.flatMap_append, List.flatMap_singleton, htext]
      exact (take_of_match hat hlongest.2.2.1).symm
    · have hlength := hlongest.2.2.1.length_le
      rw [List.length_drop] at hlength
      dsimp only
      omega
    · rwa [hoffset]
    · intro before after hsplit
      simp at hsplit
  | none =>
    have hoffset := h.offset
    refine ⟨?_, hs, h.shown, ?_⟩
    · rw [← List.append_assoc, h.text, List.take_add]
    · intro before after hsplit name hname hne
      have hunit : (body.drop s.index).take 1 = [body[s.index]] := by
        rw [List.drop_eq_getElem_cons hs, List.take_succ_cons, List.take_zero]
      dsimp only at hsplit
      rw [hunit] at hsplit
      rcases List.append_eq_append_iff.1 hsplit with ⟨rest, rfl, hlast⟩ | ⟨rest, hplain, hlast⟩
      · cases rest with
        | nil =>
          have hat : body[s.index]? = some atSign := by
            rw [List.getElem?_eq_getElem hs, (List.cons_eq_cons.1 hlast).1]
          rw [List.append_nil, hoffset]
          exact matchAt_none hmatch hat hname hne
        | cons first rest => simp at hlast
      · cases rest with
        | nil =>
          have hat : body[s.index]? = some atSign := by
            rw [List.getElem?_eq_getElem hs, ← (List.cons_eq_cons.1 hlast).1]
          rw [List.append_nil] at hplain
          rw [← hplain, hoffset]
          exact matchAt_none hmatch hat hname hne
        | cons first rest =>
          obtain ⟨rfl, _⟩ := List.cons_eq_cons.1 hlast
          exact h.pending before rest hplain name hname hne

theorem Rendered.loop (turns : ℕ) (h : Rendered body displayNames s) :
    Rendered body displayNames (RenderState.loop body (knownNames displayNames) turns s) := by
  induction turns generalizing s with
  | zero => exact h
  | succ turns ih =>
    unfold RenderState.loop
    split_ifs with hs
    · exact ih (h.step hs)
    · exact h

theorem index_step (names : List (List ℕ)) (s : RenderState) :
    s.index < (RenderState.step body names s).index := by
  unfold RenderState.step
  split
  · dsimp only
    omega
  · dsimp only
    omega

/-- As many turns as the body has units lead to its end. -/
theorem index_loop (names : List (List ℕ)) (turns : ℕ) (h : body.length ≤ s.index + turns) :
    body.length ≤ (RenderState.loop body names turns s).index := by
  induction turns generalizing s with
  | zero => exact h
  | succ turns ih =>
    unfold RenderState.loop
    split_ifs with hs
    · have hstep := @index_step body names s
      exact ih (by omega)
    · omega

end shown

/-- The nodes' texts are the body. Every tag is the longest known name behind the `@` at its place, and
no `@` left in plain text stands before a known name. -/
theorem renderCommentBody_lossless (body : List ℕ) (displayNames : List (List ℕ)) :
    (renderCommentBody body displayNames).flatMap CommentNode.text = body ∧
    ∀ before node after, renderCommentBody body displayNames = before ++ node :: after →
      NodeShown body displayNames (before.flatMap CommentNode.text).length node := by
  have hrendered : Rendered body displayNames
      (RenderState.loop body (knownNames displayNames) body.length .start) :=
    Rendered.start.loop body.length
  have hend : body.length ≤
      (RenderState.loop body (knownNames displayNames) body.length .start).index :=
    index_loop _ _ (by simp)
  obtain ⟨hflushed, hplain, hindex⟩ := hrendered.flushPlain
  have htext := hflushed.text
  rw [hplain, List.append_nil, hindex, List.take_of_length_le hend] at htext
  exact ⟨htext, hflushed.shown⟩

/-- A name and a longer one that it starts. -/
example : renderCommentBody [64, 1, 2, 3, 64, 1, 9, 64] [[1], [1, 2], [64]] =
    [.tag 0 [1, 2], .plain [3], .tag 4 [1], .plain [9, 64]] := by decide

end AiKanban.Web
