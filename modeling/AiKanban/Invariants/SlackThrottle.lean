import AiKanban.Server.SlackGuards
import AiKanban.Transitions.Answers
import AiKanban.Transitions.SlidingWindow

/-!
# The limiter of the Slack adapter

Whatever it forgets, the limiter answers as one that keeps every grant: of a key, what it drops has
left the window, and a clock that does not go back never brings it in again.
-/
namespace AiKanban.Invariants

open Collections Server Transitions
open Server.SlidingWindowLimiter (prune)

/-- The times of the grants of a key. -/
def timesOf (grants : List Acquire) (key : String) : List ℤ :=
  (grants.filter fun grant => grant.key = key).map (·.now)

/-- The limiter that keeps every grant. -/
def ledger (limit : ℕ) (windowMs : ℤ) (grants : List Acquire) (call : Acquire) :
    Bool × List Acquire :=
  if (timesOf grants call.key).countP (inWindow windowMs call.now) < limit then
    (true, grants ++ [call])
  else (false, grants)

section ledger

variable {limit : ℕ} {windowMs : ℤ} {grants calls : List Acquire} {key : String} {call : Acquire}

theorem timesOf_append : timesOf (grants ++ [call]) key =
    timesOf grants key ++ if call.key = key then [call.now] else [] := by
  unfold timesOf
  rw [List.filter_append, List.map_append]
  split_ifs with hkey <;> simp [hkey]

theorem mem_timesOf {time : ℤ} (h : time ∈ timesOf grants key) : ∃ grant ∈ grants, grant.now = time := by
  obtain ⟨grant, hgrant, rfl⟩ := List.mem_map.mp h
  exact ⟨grant, (List.mem_filter.mp hgrant).1, rfl⟩

/-- Grants made by the ledger, none after the calls to come. -/
structure Kept (limit : ℕ) (windowMs : ℤ) (calls grants : List Acquire) : Prop where
  clock : calls.Pairwise fun a b => a.now ≤ b.now
  past : ∀ grant ∈ grants, ∀ call ∈ calls, grant.now ≤ call.now
  spaced : ∀ key, Spaced limit windowMs (timesOf grants key)

theorem Kept.start (hclock : calls.Pairwise fun a b => a.now ≤ b.now) :
    Kept limit windowMs calls [] :=
  ⟨hclock, by simp, fun _ => .nil⟩

theorem Kept.step (h : Kept limit windowMs (call :: calls) grants) :
    Kept limit windowMs calls (ledger limit windowMs grants call).2 := by
  obtain ⟨hfirst, hrest⟩ := List.pairwise_cons.mp h.clock
  have hpast : ∀ grant ∈ grants, ∀ later ∈ calls, grant.now ≤ later.now :=
    fun grant hgrant later hlater => h.past grant hgrant later (List.mem_cons_of_mem _ hlater)
  unfold ledger
  split_ifs with hroom
  · refine ⟨hrest, ?_, ?_⟩
    · intro grant hgrant later hlater
      rcases List.mem_append.mp hgrant with hgrant | hgrant
      · exact hpast grant hgrant later hlater
      · rw [List.mem_singleton.mp hgrant]
        exact hfirst later hlater
    · intro key
      rw [timesOf_append]
      split_ifs with hkey
      · subst hkey
        refine .grant (h.spaced _) ?_ hroom
        intro time htime
        obtain ⟨grant, hgrant, rfl⟩ := mem_timesOf htime
        exact h.past grant hgrant call List.mem_cons_self
      · rw [List.append_nil]
        exact h.spaced key
  · exact ⟨hrest, hpast, h.spaced⟩

theorem after_ledger :
    after (ledger limit windowMs) grants calls = grants ++ accepted (ledger limit windowMs) grants calls := by
  induction calls generalizing grants with
  | nil => rw [after_nil, accepted, List.append_nil]
  | cons call calls ih =>
    rw [after_cons, ih, accepted, ← List.append_assoc]
    congr 1
    unfold ledger
    by_cases hroom : (timesOf grants call.key).countP (inWindow windowMs call.now) < limit
    · simp [hroom]
    · simp [hroom]

end ledger

/-- The times that a cutoff leaves. -/
def recent (cutoff : ℤ) (times : List ℤ) : List ℤ := times.filter fun time => decide (cutoff < time)

section limiter

variable {limit : ℕ} {windowMs : ℤ} {l : SlidingWindowLimiter} {hits : InsertionMap String (List ℤ)}
  {grants calls : List Acquire} {call : Acquire} {times times' : List ℤ}

theorem recent_recent {cutoff later : ℤ} (h : cutoff ≤ later) :
    recent later (recent cutoff times) = recent later times := by
  unfold recent
  rw [List.filter_filter]
  refine List.filter_congr ?_
  intro time _
  by_cases hlater : later < time
  · have hcutoff : cutoff < time := by omega
    simp [hlater, hcutoff]
  · simp [hlater]

theorem recent_append {cutoff : ℤ} : recent cutoff (times ++ times') =
    recent cutoff times ++ recent cutoff times' := List.filter_append ..

/-- Of every key the map has the times that can still count, for the calls to come. -/
def Holds (windowMs : ℤ) (hits : InsertionMap String (List ℤ)) (calls grants : List Acquire) : Prop :=
  ∀ key, ∀ call ∈ calls, ∀ cutoff, call.now - windowMs ≤ cutoff →
    recent cutoff ((hits.get key).getD []) = recent cutoff (timesOf grants key)

theorem Holds.prune (h : Holds windowMs hits (call :: calls) grants)
    (hkeys : hits.keys.Nodup) (hclock : ∀ later ∈ calls, call.now ≤ later.now) :
    Holds windowMs (prune hits (call.now - windowMs)) (call :: calls) grants := by
  intro key later hlater cutoff hcutoff
  have hfirst : call.now - windowMs ≤ cutoff := by
    rcases List.mem_cons.mp hlater with rfl | hmem
    · exact hcutoff
    · have hle := hclock later hmem
      omega
  refine Eq.trans ?_ (h key later hlater cutoff hcutoff)
  rw [SlidingWindowLimiter.prune, InsertionMap.get_deleteWhere hkeys]
  cases hget : hits.get key with
  | none => rfl
  | some times =>
    by_cases hexpired : times.all (fun time => decide (time ≤ call.now - windowMs)) = true
    · have hnone : recent cutoff times = [] := by
        refine List.filter_eq_nil_iff.mpr ?_
        intro time htime
        have hle := of_decide_eq_true (List.all_eq_true.mp hexpired time htime)
        simp only [decide_eq_true_eq]
        omega
      simp only [Option.filter, hexpired]
      exact hnone.symm
    · simp only [Option.filter, hexpired]
      rfl

/-- What the limiter counts is what the ledger counts. -/
theorem Holds.count (h : Holds windowMs hits (call :: calls) grants)
    (hpast : ∀ grant ∈ grants, grant.now ≤ call.now) :
    (recent (call.now - windowMs) ((hits.get call.key).getD [])).length =
      (timesOf grants call.key).countP (inWindow windowMs call.now) := by
  rw [h call.key call List.mem_cons_self _ le_rfl, recent, ← List.countP_eq_length_filter]
  refine List.countP_congr ?_
  intro time htime
  obtain ⟨grant, hgrant, rfl⟩ := mem_timesOf htime
  have hle := hpast grant hgrant
  simp [inWindow, hle]

/-- The limiter has all of the ledger that can still count. -/
structure Remembers (limit : ℕ) (windowMs : ℤ) (calls : List Acquire) (l : SlidingWindowLimiter)
    (grants : List Acquire) : Prop where
  limit_eq : l.limit = limit
  window_eq : l.windowMs = windowMs
  kept : Kept limit windowMs calls grants
  keys : l.hits.keys.Nodup
  holds : Holds windowMs l.hits calls grants

theorem Remembers.create (hclock : calls.Pairwise fun a b => a.now ≤ b.now) :
    Remembers limit windowMs calls (.create limit windowMs) [] :=
  ⟨rfl, rfl, .start hclock, List.nodup_nil, fun _ _ _ _ _ => rfl⟩

/-- What one key has after a call, for the calls that come later. -/
theorem Holds.set (h : Holds windowMs hits (call :: calls) grants)
    (hclock : ∀ later ∈ calls, call.now ≤ later.now) {made : List Acquire} (newTimes : List ℤ)
    (hnew : timesOf made call.key = timesOf grants call.key ++ newTimes)
    (hother : ∀ key, key ≠ call.key → timesOf made key = timesOf grants key) :
    Holds windowMs (hits.set call.key
      (recent (call.now - windowMs) ((hits.get call.key).getD []) ++ newTimes)) calls made := by
  intro key later hlater cutoff hcutoff
  have hbefore := h key later (List.mem_cons_of_mem _ hlater) cutoff hcutoff
  rw [InsertionMap.get_set]
  split_ifs with hkey
  · subst hkey
    have hle := hclock later hlater
    have hfirst : call.now - windowMs ≤ cutoff := by omega
    rw [Option.getD_some, hnew, recent_append, recent_append, recent_recent hfirst, hbefore]
  · rw [hother key hkey, hbefore]

/-- One call, on a map that has what can still count. -/
theorem Remembers.acquire (h : Remembers limit windowMs (call :: calls) l grants)
    (hkeys : hits.keys.Nodup) (hholds : Holds windowMs hits (call :: calls) grants) :
    (l.acquire hits call).1 = (ledger limit windowMs grants call).1 ∧
      Remembers limit windowMs calls (l.acquire hits call).2
        (ledger limit windowMs grants call).2 := by
  obtain ⟨rfl, rfl, hkept, -, -⟩ := h
  have hcount := hholds.count fun grant hgrant => hkept.past grant hgrant call List.mem_cons_self
  have hclock := (List.pairwise_cons.mp hkept.clock).1
  have hafter := hkept.step
  by_cases hroom : (timesOf grants call.key).countP (inWindow l.windowMs call.now) < l.limit
  · have hledger : ledger l.limit l.windowMs grants call = (true, grants ++ [call]) := if_pos hroom
    have hacquire : l.acquire hits call = (true, ⟨l.limit, l.windowMs, hits.set call.key
        (recent (call.now - l.windowMs) ((hits.get call.key).getD []) ++ [call.now])⟩) :=
      if_neg (by rw [← recent, hcount]; omega)
    rw [hledger] at hafter ⊢
    rw [hacquire]
    refine ⟨rfl, rfl, rfl, hafter, InsertionMap.nodup_keys_set hkeys,
      hholds.set hclock [call.now] ?_ ?_⟩
    · rw [timesOf_append, if_pos rfl]
    · intro key hkey
      rw [timesOf_append, if_neg (Ne.symm hkey), List.append_nil]
  · have hledger : ledger l.limit l.windowMs grants call = (false, grants) := if_neg hroom
    have hacquire : l.acquire hits call = (false, ⟨l.limit, l.windowMs, hits.set call.key
        (recent (call.now - l.windowMs) ((hits.get call.key).getD []))⟩) :=
      if_pos (by rw [← recent, hcount]; omega)
    rw [hledger] at hafter ⊢
    rw [hacquire]
    refine ⟨rfl, rfl, rfl, hafter, InsertionMap.nodup_keys_set hkeys, ?_⟩
    have hset := hholds.set hclock [] (List.append_nil _).symm fun _ _ => rfl
    rwa [List.append_nil] at hset

theorem Remembers.tryAcquireUnpruned (h : Remembers limit windowMs (call :: calls) l grants) :
    (l.tryAcquireUnpruned call).1 = (ledger limit windowMs grants call).1 ∧
      Remembers limit windowMs calls (l.tryAcquireUnpruned call).2
        (ledger limit windowMs grants call).2 :=
  h.acquire h.keys h.holds

theorem Remembers.tryAcquire (h : Remembers limit windowMs (call :: calls) l grants) :
    (l.tryAcquire call).1 = (ledger limit windowMs grants call).1 ∧
      Remembers limit windowMs calls (l.tryAcquire call).2 (ledger limit windowMs grants call).2 := by
  unfold SlidingWindowLimiter.tryAcquire
  rw [h.window_eq]
  split_ifs
  · refine h.acquire (InsertionMap.nodup_keys_deleteWhere h.keys) (h.holds.prune h.keys ?_)
    exact (List.pairwise_cons.mp h.kept.clock).1
  · exact h.acquire h.keys h.holds

/-- What the ledger has granted never exceeds the limit, in any window. -/
theorem Kept.countP_le (h : Kept limit windowMs calls grants) (key : String) (t : ℤ) :
    (timesOf grants key).countP (inWindow windowMs t) ≤ limit :=
  (h.spaced key).countP_le t

end limiter

/-- In no window more calls of a key are granted than the limit; a call is denied only when the
window that ends with it is full; and neither pruning nor forgetting changes an answer. -/
theorem limiter_sound {limit : ℕ} {windowMs : ℤ} {calls : List Acquire}
    (hclock : calls.Pairwise fun a b => a.now ≤ b.now) :
    (∀ key t, (timesOf (accepted SlidingWindowLimiter.tryAcquire (.create limit windowMs) calls)
        key).countP (inWindow windowMs t) ≤ limit) ∧
      (∀ before call later, calls = before ++ call :: later →
        ((after SlidingWindowLimiter.tryAcquire (.create limit windowMs) before).tryAcquire
          call).1 = false →
        (timesOf (accepted SlidingWindowLimiter.tryAcquire (.create limit windowMs) before)
          call.key).countP (inWindow windowMs call.now) = limit) ∧
      answers SlidingWindowLimiter.tryAcquire (.create limit windowMs) calls =
        answers SlidingWindowLimiter.tryAcquireUnpruned (.create limit windowMs) calls ∧
      answers SlidingWindowLimiter.tryAcquire (.create limit windowMs) calls =
        answers (ledger limit windowMs) [] calls := by
  have hstart : Remembers limit windowMs calls (.create limit windowMs) [] := .create hclock
  have hanswers : answers SlidingWindowLimiter.tryAcquire (.create limit windowMs) calls =
      answers (ledger limit windowMs) [] calls :=
    answers_eq_of_simulation (fun _ _ _ _ h => h.tryAcquire.1) (fun _ _ _ _ h => h.tryAcquire.2)
      hstart
  have hunpruned : answers SlidingWindowLimiter.tryAcquireUnpruned (.create limit windowMs) calls =
      answers (ledger limit windowMs) [] calls :=
    answers_eq_of_simulation (fun _ _ _ _ h => h.tryAcquireUnpruned.1)
      (fun _ _ _ _ h => h.tryAcquireUnpruned.2) hstart
  refine ⟨?_, ?_, hanswers.trans hunpruned.symm, hanswers⟩
  · intro key t
    have hend : Remembers limit windowMs []
        (after SlidingWindowLimiter.tryAcquire (.create limit windowMs) calls)
        (after (ledger limit windowMs) [] calls) := by
      refine simulation_after (fun _ _ _ _ h => h.tryAcquire.2) ?_
      rwa [List.append_nil]
    have hgrants := hend.kept.countP_le key t
    rwa [after_ledger, List.nil_append, ← accepted_eq_of_answers hanswers] at hgrants
  · rintro before call later rfl hdenied
    have hthen := simulation_after (fun _ _ _ _ h => h.tryAcquire.2) hstart
    have hstart' : Remembers limit windowMs before (.create limit windowMs) [] :=
      .create (List.pairwise_append.mp hclock).1
    have hbefore : answers SlidingWindowLimiter.tryAcquire (.create limit windowMs) before =
        answers (ledger limit windowMs) [] before :=
      answers_eq_of_simulation (fun _ _ _ _ h => h.tryAcquire.1) (fun _ _ _ _ h => h.tryAcquire.2)
        hstart'
    rw [hthen.tryAcquire.1, after_ledger, List.nil_append, ledger] at hdenied
    rw [accepted_eq_of_answers hbefore]
    have hle := hthen.kept.countP_le call.key call.now
    rw [after_ledger, List.nil_append] at hle
    split_ifs at hdenied with hroom
    omega

/-- Two calls of one key within the window, and one when the first has left it. -/
theorem limiter_sound_burst :
    answers SlidingWindowLimiter.tryAcquire (.create 1 10) [⟨"u", 0⟩, ⟨"v", 5⟩, ⟨"u", 9⟩, ⟨"u", 10⟩] =
        [true, true, false, true] ∧
      answers SlidingWindowLimiter.tryAcquire (.create 1 10)
          [⟨"u", 0⟩, ⟨"v", 5⟩, ⟨"u", 9⟩, ⟨"u", 10⟩] =
        answers SlidingWindowLimiter.tryAcquireUnpruned (.create 1 10)
          [⟨"u", 0⟩, ⟨"v", 5⟩, ⟨"u", 9⟩, ⟨"u", 10⟩] := by
  obtain ⟨-, -, hanswers, -⟩ := @limiter_sound 1 10
    [⟨"u", 0⟩, ⟨"v", 5⟩, ⟨"u", 9⟩, ⟨"u", 10⟩] (by simp)
  exact ⟨by decide +kernel, hanswers⟩

end AiKanban.Invariants
