import Mathlib.Data.List.Basic
import Mathlib.Tactic

/-!
# Maps in the order of insertion

A key keeps its place when its value is replaced, and loses it when it is deleted.
-/
namespace AiKanban.Collections

structure InsertionMap (κ β : Type) where
  entries : List (κ × β)
deriving DecidableEq

namespace InsertionMap

section operations

variable {κ β : Type} [DecidableEq κ]

def empty : InsertionMap κ β := ⟨[]⟩

def get (m : InsertionMap κ β) (key : κ) : Option β :=
  (m.entries.find? (·.1 = key)).map (·.2)

def setEntry (key : κ) (value : β) : List (κ × β) → List (κ × β)
  | [] => [(key, value)]
  | entry :: rest =>
      if entry.1 = key then (key, value) :: rest else entry :: setEntry key value rest

def set (m : InsertionMap κ β) (key : κ) (value : β) : InsertionMap κ β :=
  ⟨setEntry key value m.entries⟩

def delete (m : InsertionMap κ β) (key : κ) : InsertionMap κ β :=
  ⟨m.entries.filter (·.1 ≠ key)⟩

def values (m : InsertionMap κ β) : List β := m.entries.map (·.2)

def keys (m : InsertionMap κ β) : List κ := m.entries.map (·.1)

def size (m : InsertionMap κ β) : ℕ := m.entries.length

/-- Delete the entries a loop over the map selects. -/
def deleteWhere (m : InsertionMap κ β) (p : κ → β → Bool) : InsertionMap κ β :=
  ⟨m.entries.filter fun entry => !p entry.1 entry.2⟩

end operations

theorem nodup_keys_deleteWhere {κ β : Type} {m : InsertionMap κ β} {p : κ → β → Bool}
    (h : m.keys.Nodup) : (m.deleteWhere p).keys.Nodup :=
  h.sublist (List.filter_sublist.map _)

variable {κ β : Type} [DecidableEq κ] {m : InsertionMap κ β} {key other : κ} {value : β}

theorem get_set : (m.set key value).get other = if other = key then some value else m.get other := by
  obtain ⟨entries⟩ := m
  unfold get set
  induction entries with
  | nil =>
    by_cases heq : other = key
    · simp [setEntry, heq]
    · simp [setEntry, heq, Ne.symm heq]
  | cons entry rest ih =>
    simp only [setEntry] at ih ⊢
    by_cases hentry : entry.1 = key
    · by_cases heq : other = key
      · simp [hentry, heq]
      · simp [hentry, heq, Ne.symm heq]
    · by_cases hfound : entry.1 = other
      · have hne : other ≠ key := hfound ▸ hentry
        simp [hfound, hne]
      · simp only [if_neg hentry, List.find?_cons, hfound, decide_false]
        exact ih

theorem get_delete : (m.delete key).get other = if other = key then none else m.get other := by
  unfold get delete
  dsimp only
  rw [List.find?_filter]
  split_ifs with heq
  · subst heq
    rw [List.find?_eq_none.mpr]
    · rfl
    · rintro entry - hfound
      simp at hfound
  · congr 2
    funext entry
    by_cases hentry : entry.1 = other
    · simp [hentry, heq]
    · simp [hentry]

theorem mem_values_of_get (h : m.get key = some value) : value ∈ m.values := by
  obtain ⟨entry, hentry, rfl⟩ := Option.map_eq_some_iff.mp h
  exact List.mem_map_of_mem (List.mem_of_find?_eq_some hentry)

theorem mem_set {entry : κ × β} (h : entry ∈ (m.set key value).entries) :
    entry = (key, value) ∨ entry ∈ m.entries := by
  obtain ⟨entries⟩ := m
  unfold set at h
  induction entries with
  | nil => exact .inl (List.mem_singleton.mp h)
  | cons first rest ih =>
    simp only [setEntry] at ih h
    split_ifs at h
    · rcases List.mem_cons.mp h with rfl | h
      · exact .inl rfl
      · exact .inr (List.mem_cons_of_mem _ h)
    · rcases List.mem_cons.mp h with rfl | h
      · exact .inr List.mem_cons_self
      · exact (ih h).imp_right (List.mem_cons_of_mem _)

theorem keys_set :
    (m.set key value).keys = if key ∈ m.keys then m.keys else m.keys ++ [key] := by
  obtain ⟨entries⟩ := m
  unfold set keys
  dsimp only
  induction entries with
  | nil => rfl
  | cons first rest ih =>
    by_cases hfirst : first.1 = key
    · simp [setEntry, hfirst]
    · simp only [setEntry, if_neg hfirst, List.map_cons, List.mem_cons, Ne.symm hfirst, false_or, ih]
      split_ifs
      · rfl
      · rw [List.cons_append]

theorem nodup_keys_set (h : m.keys.Nodup) : (m.set key value).keys.Nodup := by
  rw [keys_set]
  split_ifs with hmem
  · exact h
  · refine List.nodup_append'.mpr ⟨h, List.nodup_singleton key, ?_⟩
    intro other hother hkey
    exact hmem (List.mem_singleton.mp hkey ▸ hother)

/-- A key keeps its value where it is not deleted. -/
theorem get_deleteWhere {p : κ → β → Bool} (h : m.keys.Nodup) :
    (m.deleteWhere p).get key = (m.get key).filter fun value => !p key value := by
  obtain ⟨entries⟩ := m
  unfold get deleteWhere
  dsimp only [keys] at h ⊢
  induction entries with
  | nil => rfl
  | cons first rest ih =>
    obtain ⟨hfirst, hrest⟩ := List.nodup_cons.mp h
    by_cases hkey : first.1 = key
    · subst hkey
      cases hp : p first.1 first.2 with
      | false => simp [hp, Option.filter]
      | true =>
        have hnone : (rest.filter fun entry => !p entry.1 entry.2).find? (·.1 = first.1) = none := by
          refine List.find?_eq_none.mpr ?_
          intro entry hentry heq
          refine hfirst (List.mem_map.mpr ⟨entry, (List.mem_filter.mp hentry).1, ?_⟩)
          simpa using heq
        simp [hp, hnone, Option.filter]
    · rw [List.find?_cons_of_neg (by simpa using hkey), ← ih hrest]
      cases hp : p first.1 first.2 with
      | false => simp [hp, hkey]
      | true => simp [hp]

end InsertionMap

end AiKanban.Collections
