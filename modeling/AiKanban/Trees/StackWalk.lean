import Mathlib.Data.List.Basic
import Mathlib.Logic.Relation
import Mathlib.Tactic

/-!
# Walking a forest with a stack

A loop pops a node, records it and pushes its children, without remembering what it
visited. On a forest it ends, and it records every node below the first ones once.
-/
namespace AiKanban.Trees

open Relation

variable {α : Type} (children : α → List α)

/-- The top of the stack is the head of the list. `none` when the fuel runs out. -/
def walk : ℕ → List α → List α → Option (List α)
  | _, ids, [] => some ids
  | 0, _, _ :: _ => none
  | fuel + 1, ids, id :: stack => walk fuel (ids ++ [id]) ((children id).reverse ++ stack)

def Child (a b : α) : Prop := b ∈ children a

/-- What the loop records from a stack on, when it ends. -/
inductive Visits : List α → List α → Prop
  | done : Visits [] []
  | pop {a stack out} (h : Visits ((children a).reverse ++ stack) out) :
      Visits (a :: stack) (a :: out)

/-- No node is below two others or twice below one, and ranks fall on the way down. -/
structure Forest (rank : α → ℕ) : Prop where
  falls : ∀ a, ∀ b ∈ children a, rank b < rank a
  parent : ∀ a b x, x ∈ children a → x ∈ children b → a = b
  nodup : ∀ a, (children a).Nodup

variable {children} {rank : α → ℕ} {stack stack' out out' : List α} {a b x : α}

section visits

theorem Visits.append (h : Visits children stack out) (h' : Visits children stack' out') :
    Visits children (stack ++ stack') (out ++ out') := by
  induction h with
  | done => exact h'
  | pop _ ih =>
    rw [List.append_assoc] at ih
    exact .pop ih

/-- The loop ends, as every node is above nodes of lower rank only. -/
theorem exists_visits (hfalls : ∀ a, ∀ b ∈ children a, rank b < rank a) (stack : List α) :
    ∃ out, Visits children stack out := by
  have hnode : ∀ (n : ℕ) (stack : List α), (∀ a ∈ stack, rank a < n) →
      ∃ out, Visits children stack out := by
    intro n
    induction n with
    | zero =>
      intro stack hlow
      cases stack with
      | nil => exact ⟨[], .done⟩
      | cons a stack => exact absurd (hlow a (by simp)) (by omega)
    | succ n ihn =>
      intro stack
      induction stack with
      | nil => exact fun _ => ⟨[], .done⟩
      | cons a stack ih =>
        intro hlow
        obtain ⟨rest, hrest⟩ := ih fun b hb => hlow b (by simp [hb])
        obtain ⟨below, hbelow⟩ := ihn (children a).reverse fun b hb => by
          have hb' := hfalls a b (List.mem_reverse.mp hb)
          have ha := hlow a (by simp)
          omega
        exact ⟨a :: (below ++ rest), .pop (hbelow.append hrest)⟩
  induction stack with
  | nil => exact ⟨[], .done⟩
  | cons a stack ih =>
    obtain ⟨rest, hrest⟩ := ih
    obtain ⟨first, hfirst⟩ := hnode (rank a + 1) [a] fun b hb => by
      rw [List.mem_singleton.mp hb]
      omega
    exact ⟨first ++ rest, hfirst.append hrest⟩

/-- One round for each recorded node is fuel enough. -/
theorem walk_of_visits (h : Visits children stack out) {fuel : ℕ} (hfuel : out.length ≤ fuel)
    (ids : List α) : walk children fuel ids stack = some (ids ++ out) := by
  induction h generalizing fuel ids with
  | done =>
    rw [List.append_nil]
    cases fuel <;> rfl
  | @pop a stack out _ ih =>
    rw [List.length_cons] at hfuel
    obtain ⟨fuel, rfl⟩ : ∃ n, fuel = n + 1 := ⟨fuel - 1, by omega⟩
    rw [walk, ih (by omega), List.append_assoc]
    rfl

/-- The recorded nodes are those on the stack and the ones below them. -/
theorem Visits.mem_iff (h : Visits children stack out) :
    x ∈ out ↔ ∃ a ∈ stack, ReflTransGen (Child children) a x := by
  induction h with
  | done => simp
  | @pop a stack out _ ih =>
    rw [List.mem_cons, ih]
    constructor
    · rintro (rfl | ⟨b, hb, hbelow⟩)
      · exact ⟨x, by simp, .refl⟩
      · rcases List.mem_append.mp hb with hchild | hstack
        · exact ⟨a, by simp, .head (List.mem_reverse.mp hchild) hbelow⟩
        · exact ⟨b, by simp [hstack], hbelow⟩
    · rintro ⟨b, hb, hbelow⟩
      rcases List.mem_cons.mp hb with rfl | hstack
      · rcases hbelow.cases_head with rfl | ⟨c, hchild, hbelow⟩
        · exact .inl rfl
        · exact .inr ⟨c, by simpa using .inl hchild, hbelow⟩
      · exact .inr ⟨b, by simp [hstack], hbelow⟩

end visits

section forests

/-- Nothing is below both nodes. -/
def Apart (children : α → List α) (a b : α) : Prop :=
  ∀ x, ReflTransGen (Child children) a x → ¬ ReflTransGen (Child children) b x

theorem Forest.rank_lt (h : Forest children rank) (hbelow : TransGen (Child children) a b) :
    rank b < rank a := by
  induction hbelow with
  | single hchild => exact h.falls _ _ hchild
  | tail _ hchild ih => exact (h.falls _ _ hchild).trans ih

theorem Forest.acyclic (h : Forest children rank) (a : α) : ¬ TransGen (Child children) a a :=
  fun hcycle => lt_irrefl _ (h.rank_lt hcycle)

/-- Of two nodes above a third, one is above the other. -/
theorem Forest.total (h : Forest children rank) (ha : ReflTransGen (Child children) a x)
    (hb : ReflTransGen (Child children) b x) :
    ReflTransGen (Child children) a b ∨ ReflTransGen (Child children) b a := by
  induction ha with
  | refl => exact .inr hb
  | @tail y z hay hchild ih =>
    rcases hb.cases_tail with rfl | ⟨c, hbc, hc⟩
    · exact .inl (hay.tail hchild)
    · obtain rfl : c = y := h.parent _ _ _ hc hchild
      exact ih hbc

/-- A node below its sibling would be below itself. -/
theorem Forest.not_below_sibling (h : Forest children rank) (hb : b ∈ children a)
    (hx : x ∈ children a) (hne : b ≠ x) : ¬ ReflTransGen (Child children) b x := by
  intro hbelow
  rcases hbelow.cases_tail with rfl | ⟨c, hbc, hc⟩
  · exact hne rfl
  · obtain rfl : c = a := h.parent _ _ _ hc hx
    exact h.acyclic _ (TransGen.head' hb hbc)

theorem Forest.siblings_apart (h : Forest children rank) (hb : b ∈ children a)
    (hx : x ∈ children a) (hne : b ≠ x) : Apart children b x := by
  intro y hby hxy
  rcases h.total hby hxy with hbelow | hbelow
  · exact h.not_below_sibling hb hx hne hbelow
  · exact h.not_below_sibling hx hb hne.symm hbelow

/-- From nodes apart from each other, the loop records no node twice. -/
theorem Visits.nodup (hvisits : Visits children stack out) (h : Forest children rank)
    (hapart : stack.Pairwise (Apart children)) : out.Nodup := by
  induction hvisits with
  | done => exact .nil
  | @pop a stack out hrest ih =>
    obtain ⟨ha, hstack⟩ := List.pairwise_cons.mp hapart
    have hnext : ((children a).reverse ++ stack).Pairwise (Apart children) := by
      refine List.pairwise_append.mpr ⟨?_, hstack, fun b hb c hc y hby hcy => ?_⟩
      · refine (List.nodup_reverse.mpr (h.nodup a)).imp_of_mem fun hb hc hne => ?_
        exact h.siblings_apart (List.mem_reverse.mp hb) (List.mem_reverse.mp hc) hne
      · exact ha c hc y (.head (List.mem_reverse.mp hb) hby) hcy
    refine List.nodup_cons.mpr ⟨fun hagain => ?_, ih hnext⟩
    obtain ⟨b, hb, hbelow⟩ := hrest.mem_iff.mp hagain
    rcases List.mem_append.mp hb with hchild | hb
    · exact h.acyclic a (TransGen.head' (List.mem_reverse.mp hchild) hbelow)
    · exact ha b hb a .refl hbelow

/-- From one node the loop records it and the nodes below it, each once. -/
theorem Forest.walk_one (h : Forest children rank) (a : α) :
    ∃ out, (∀ fuel, out.length ≤ fuel → walk children fuel [] [a] = some out) ∧ out.Nodup ∧
      ∀ x, x ∈ out ↔ ReflTransGen (Child children) a x := by
  obtain ⟨out, hvisits⟩ := exists_visits h.falls [a]
  refine ⟨out, fun fuel hfuel => walk_of_visits hvisits hfuel [], ?_, fun x => ?_⟩
  · exact hvisits.nodup h (List.pairwise_singleton _ _)
  · rw [hvisits.mem_iff]
    simp

end forests
end AiKanban.Trees
