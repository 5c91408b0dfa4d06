import Mathlib.Tactic

/-!
# Sets in the order of insertion

A member that is added again keeps its place.
-/
namespace AiKanban.Collections

structure InsertionSet (κ : Type) where
  elements : List κ
  nodup : elements.Nodup

namespace InsertionSet

variable {κ : Type} [DecidableEq κ]

def empty : InsertionSet κ := ⟨[], List.nodup_nil⟩

def has (s : InsertionSet κ) (key : κ) : Bool := s.elements.contains key

def size (s : InsertionSet κ) : ℕ := s.elements.length

def first (s : InsertionSet κ) : Option κ := s.elements.head?

def add (s : InsertionSet κ) (key : κ) : InsertionSet κ :=
  if h : key ∈ s.elements then s
  else ⟨s.elements ++ [key], List.nodup_append'.mpr ⟨s.nodup, List.nodup_singleton key, by simpa using h⟩⟩

def delete (s : InsertionSet κ) (key : κ) : InsertionSet κ :=
  ⟨s.elements.erase key, s.nodup.erase key⟩

variable {s : InsertionSet κ} {key : κ}

theorem has_iff : s.has key = true ↔ key ∈ s.elements := List.contains_iff_mem

theorem elements_add (h : key ∉ s.elements) : (s.add key).elements = s.elements ++ [key] := by
  rw [add, dif_neg h]

@[simp] theorem elements_delete : (s.delete key).elements = s.elements.erase key := rfl

theorem not_mem_delete : key ∉ (s.delete key).elements := s.nodup.not_mem_erase

end InsertionSet

end AiKanban.Collections
