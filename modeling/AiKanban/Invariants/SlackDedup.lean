import AiKanban.Collections.Recency
import AiKanban.Server.SlackGuards
import AiKanban.Transitions.Answers

/-!
# Deliveries that come again

The set remembers the keys that were seen last, as many as it has room for. So a delivery counts as
a duplicate exactly when fewer other ones than that came since it was last seen.
-/
namespace AiKanban.Invariants

open Collections Server Transitions

section steps

variable {s : BoundedLruSet} {history : List String} {key : String}

/-- The set holds the latest keys of a history. -/
structure HoldsLatest (capacity : ℕ) (history : List String) (s : BoundedLruSet) : Prop where
  capacity_eq : s.capacity = capacity
  latest : Latest capacity history s.entries.elements

theorem refused_iff : (s.addIfAbsent key).1 = false ↔ key ∈ s.entries.elements := by
  rw [← InsertionSet.has_iff]
  unfold BoundedLruSet.addIfAbsent
  cases hhas : s.entries.has key with
  | true => simp
  | false =>
    simp only [Bool.false_eq_true, if_false, iff_false]
    split_ifs
    · cases (s.entries.add key).first <;> simp
    · simp

variable {capacity : ℕ}

theorem HoldsLatest.step (h : HoldsLatest capacity history s) (hpositive : 1 ≤ capacity) :
    HoldsLatest capacity (history ++ [key]) (s.addIfAbsent key).2 := by
  obtain ⟨rfl, hlatest⟩ := h
  unfold BoundedLruSet.addIfAbsent
  by_cases hhas : key ∈ s.entries.elements
  · rw [if_pos (InsertionSet.has_iff.mpr hhas)]
    refine ⟨rfl, ?_⟩
    rw [InsertionSet.elements_add InsertionSet.not_mem_delete]
    exact hlatest.refresh hhas
  · rw [if_neg (mt InsertionSet.has_iff.mp hhas)]
    have hadd := InsertionSet.elements_add hhas
    have hsize : (s.entries.add key).size = s.entries.elements.length + 1 := by
      rw [InsertionSet.size, hadd, List.length_append, List.length_singleton]
    dsimp only
    split_ifs with hover
    · have hfull : s.entries.elements.length = s.capacity := by
        have hle := hlatest.1
        omega
      cases helements : s.entries.elements with
      | nil =>
        rw [helements, List.length_nil] at hfull
        omega
      | cons oldest rest =>
        have hfirst : (s.entries.add key).first = some oldest := by
          rw [InsertionSet.first, hadd, helements]
          rfl
        rw [hfirst]
        refine ⟨rfl, ?_⟩
        rw [InsertionSet.elements_delete, hadd, helements, List.cons_append, List.erase_cons_head]
        rw [helements] at hlatest hhas hfull
        exact hlatest.replace hhas hfull
    · refine ⟨rfl, ?_⟩
      rw [hadd]
      refine hlatest.admit hhas ?_
      omega

theorem HoldsLatest.run (h : HoldsLatest capacity history s) (hpositive : 1 ≤ capacity)
    (keys : List String) :
    HoldsLatest capacity (history ++ keys) (after BoundedLruSet.addIfAbsent s keys) := by
  induction keys generalizing history s with
  | nil => simpa using h
  | cons key keys ih =>
    have hstep : HoldsLatest capacity (history ++ [key]) (s.addIfAbsent key).2 := h.step hpositive
    have hrest := ih hstep
    rwa [List.append_assoc, List.singleton_append] at hrest

end steps

/-- A key is refused exactly when it came before and fewer distinct other keys than the capacity have
come since it last did; the set never outgrows its capacity. -/
theorem delivery_dedup_exact {capacity : ℕ} (hpositive : 1 ≤ capacity) :
    ∃ s, BoundedLruSet.create capacity = .ok s ∧ ∀ keys : List String,
      (after BoundedLruSet.addIfAbsent s keys).entries.size ≤ capacity ∧
        ∀ key, ((after BoundedLruSet.addIfAbsent s keys).addIfAbsent key).1 = false ↔
          ∃ earlier later, keys = earlier ++ key :: later ∧ key ∉ later ∧
            later.dedup.length < capacity := by
  refine ⟨⟨capacity, .empty⟩, if_neg (by omega), ?_⟩
  intro keys
  have hstart : HoldsLatest capacity [] ⟨capacity, .empty⟩ := ⟨rfl, .nil⟩
  have hrun := hstart.run hpositive keys
  rw [List.nil_append] at hrun
  exact ⟨hrun.latest.1, fun key => refused_iff.trans hrun.latest.mem_iff⟩

/-- With room for two, the first of three deliveries is new again. -/
theorem delivery_dedup_exact_pair :
    ∃ s, BoundedLruSet.create 2 = .ok s ∧
      answers BoundedLruSet.addIfAbsent s ["a", "b", "a", "c", "b"] = [true, true, false, true, true] ∧
      (after BoundedLruSet.addIfAbsent s ["a", "b", "a", "c", "b"]).entries.size ≤ 2 := by
  obtain ⟨s, hs, hall⟩ := @delivery_dedup_exact 2 (by decide)
  refine ⟨s, hs, ?_, (hall _).1⟩
  obtain rfl := Except.ok.inj hs
  decide

end AiKanban.Invariants
