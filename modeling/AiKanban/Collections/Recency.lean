import Mathlib.Data.List.Dedup
import Mathlib.Data.List.Lattice
import Mathlib.Tactic

/-!
# The latest distinct elements

Without repetitions, and in the order of the last occurrences, a history ends with the elements that
were seen last. A cache of bounded size keeps such an end.
-/
namespace AiKanban.Collections

theorem exists_last_occurrence {α : Type} {history : List α} {a : α} (h : a ∈ history) :
    ∃ earlier later, history = earlier ++ a :: later ∧ a ∉ later := by
  obtain ⟨before, after, hsplit, hnot⟩ :=
    List.eq_append_cons_of_mem (List.mem_reverse.mpr h)
  refine ⟨after.reverse, before.reverse, ?_, by simpa using hnot⟩
  rw [← List.reverse_reverse history, hsplit]
  simp

variable {α : Type} [DecidableEq α] {capacity : ℕ} {history cache : List α} {a : α}

theorem dedup_append_singleton (history : List α) (a : α) :
    (history ++ [a]).dedup = history.dedup.erase a ++ [a] := by
  induction history with
  | nil => simp
  | cons b history ih =>
    rw [List.cons_append, List.dedup_cons, List.dedup_cons, ih]
    by_cases hmem : b ∈ history
    · simp [hmem]
    · by_cases heq : b = a
      · subst heq
        simp [hmem]
      · simp [hmem, heq]

/-- The cache is the end of the distinct elements of the history; if any is missing it is full. -/
def Latest (capacity : ℕ) (history cache : List α) : Prop :=
  cache.length ≤ capacity ∧
    ∃ older, history.dedup = older ++ cache ∧ (older ≠ [] → cache.length = capacity)

theorem Latest.nil : Latest capacity ([] : List α) [] :=
  ⟨Nat.zero_le _, [], by simp, fun h => absurd rfl h⟩

/-- An element of the cache that occurs again goes to its end. -/
theorem Latest.refresh (h : Latest capacity history cache) (ha : a ∈ cache) :
    Latest capacity (history ++ [a]) (cache.erase a ++ [a]) := by
  obtain ⟨hle, older, hsplit, hfull⟩ := h
  have hlength : (cache.erase a ++ [a]).length = cache.length := by
    have hpos := List.length_pos_of_mem ha
    rw [List.length_append, List.length_erase_of_mem ha, List.length_singleton]
    omega
  have hnodup : (older ++ cache).Nodup := hsplit ▸ List.nodup_dedup history
  have holder : a ∉ older := fun hmem => (List.nodup_append'.mp hnodup).2.2 hmem ha
  refine ⟨hlength.trans_le hle, older, ?_, fun hne => hlength.trans (hfull hne)⟩
  rw [dedup_append_singleton, hsplit, List.erase_append_right _ holder, List.append_assoc]

/-- A new element takes the last place while there is room. -/
theorem Latest.admit (h : Latest capacity history cache) (ha : a ∉ cache)
    (hroom : cache.length < capacity) : Latest capacity (history ++ [a]) (cache ++ [a]) := by
  obtain ⟨-, older, hsplit, hfull⟩ := h
  obtain rfl : older = [] := by
    by_contra hne
    exact absurd (hfull hne) hroom.ne
  refine ⟨?_, [], ?_, fun hne => absurd rfl hne⟩
  · rw [List.length_append, List.length_singleton]
    omega
  · rw [dedup_append_singleton, hsplit, List.nil_append, List.nil_append, List.erase_of_not_mem ha]

/-- In a full cache the oldest element makes room for a new one. -/
theorem Latest.replace {oldest : α} (h : Latest capacity history (oldest :: cache))
    (ha : a ∉ oldest :: cache) (hfull : (oldest :: cache).length = capacity) :
    Latest capacity (history ++ [a]) (cache ++ [a]) := by
  obtain ⟨-, older, hsplit, -⟩ := h
  have hlength : (cache ++ [a]).length = capacity := by
    rw [List.length_append, List.length_singleton]
    exact hfull
  refine ⟨hlength.le, older.erase a ++ [oldest], ?_, fun _ => hlength⟩
  rw [dedup_append_singleton, hsplit]
  by_cases holder : a ∈ older
  · rw [List.erase_append_left _ holder]
    simp
  · rw [List.erase_append_right _ holder, List.erase_of_not_mem holder, List.erase_of_not_mem ha]
    simp

/-- After the last occurrence of an element come the distinct elements that came later. -/
theorem dedup_last_occurrence {earlier later : List α} (ha : a ∉ later) :
    ∃ newer, (earlier ++ a :: later).dedup = newer ++ a :: later.dedup := by
  obtain ⟨newer, hnewer⟩ := List.suffix_union_right earlier (a :: later).dedup
  refine ⟨newer, ?_⟩
  rw [List.dedup_append, ← hnewer, List.dedup_cons_of_notMem ha]

/-- Whether an element is in the cache is told by how many others came after it. -/
theorem Latest.mem_iff_of_last {earlier later : List α}
    (h : Latest capacity (earlier ++ a :: later) cache) (ha : a ∉ later) :
    a ∈ cache ↔ later.dedup.length < capacity := by
  obtain ⟨hle, older, hsplit, hfull⟩ := h
  obtain ⟨newer, hnewer⟩ := @dedup_last_occurrence α _ a earlier later ha
  have hlater : a ∉ later.dedup := fun hmem => ha (List.mem_dedup.mp hmem)
  rcases List.append_eq_append_iff.mp (hnewer.symm.trans hsplit) with
    ⟨gone, holder, hrest⟩ | ⟨kept, -, hcache⟩
  · cases gone with
    | nil =>
      rw [List.nil_append] at hrest
      subst hrest
      simp only [List.mem_cons_self, true_iff]
      exact Nat.lt_of_succ_le hle
    | cons first gone =>
      rw [List.cons_append] at hrest
      obtain ⟨rfl, hlaterSplit⟩ := List.cons.inj hrest
      have hlength : cache.length = capacity := hfull (by simp [holder])
      have hcache : a ∉ cache := fun hmem => hlater (by simp [hlaterSplit, hmem])
      simp only [hcache, false_iff, not_lt, hlaterSplit, List.length_append]
      omega
  · have hlength : later.dedup.length < cache.length := by
      rw [hcache, List.length_append, List.length_cons]
      omega
    simp only [hcache, List.mem_append, List.mem_cons_self, or_true, true_iff]
    omega

/-- The cache has the elements since whose last occurrence fewer others than its capacity came. -/
theorem Latest.mem_iff (h : Latest capacity history cache) : a ∈ cache ↔
    ∃ earlier later, history = earlier ++ a :: later ∧ a ∉ later ∧ later.dedup.length < capacity := by
  constructor
  · intro hcache
    obtain ⟨-, older, hsplit, -⟩ := id h
    have hmem : a ∈ history := by
      rw [← List.mem_dedup, hsplit]
      exact List.mem_append_right _ hcache
    obtain ⟨earlier, later, rfl, ha⟩ := exists_last_occurrence hmem
    exact ⟨earlier, later, rfl, ha, (h.mem_iff_of_last ha).mp hcache⟩
  · rintro ⟨earlier, later, rfl, ha, hlength⟩
    exact (h.mem_iff_of_last ha).mpr hlength

end AiKanban.Collections
