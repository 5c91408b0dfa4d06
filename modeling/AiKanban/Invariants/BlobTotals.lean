import AiKanban.Server.BlobAccounting

/-!
# The running total against the stored bytes

Between the steps of a put or a delete the total is off by what that call has still to count.
Two deletes that both find one file subtract its bytes twice.
-/
namespace AiKanban.Server

open Domain Transitions

namespace BlobCall

/-- Bytes that are stored and not yet counted. -/
def uncounted : BlobCall → ℕ
  | .written bytes _ => bytes
  | _ => 0

/-- Bytes that are gone and not yet subtracted. -/
def unsubtracted : BlobCall → ℕ
  | .removed bytes => bytes
  | _ => 0

/-- Bytes of a reservation that the total does not count yet. -/
def pledged : BlobCall → ℕ
  | .holding bytes | .writing _ bytes true | .written bytes true => bytes
  | _ => 0

/-- Bytes of a reservation that is still held. -/
def held : BlobCall → ℕ
  | .holding bytes | .writing _ bytes true | .written bytes true | .settled bytes => bytes
  | _ => 0

/-- The key of a file that is about to be removed. -/
def removal? : BlobCall → Option Uuid
  | .removing key _ => some key
  | _ => none

/-- A put without a reservation. -/
def Unreserved : BlobCall → Prop
  | .writing _ _ false | .written _ false => True
  | _ => False

end BlobCall

namespace BlobDirectory

def weigh (weight : BlobCall → ℕ) (calls : List BlobCall) : ℕ := (calls.map weight).sum

@[simp] theorem weigh_cons (weight : BlobCall → ℕ) (call : BlobCall) (calls : List BlobCall) :
    weigh weight (call :: calls) = weight call + weigh weight calls := rfl

theorem weigh_erase {call : BlobCall} {calls : List BlobCall} (h : call ∈ calls)
    (weight : BlobCall → ℕ) : weigh weight calls = weight call + weigh weight (calls.erase call) :=
  (List.sum_map_erase weight h).symm

theorem weigh_eq_zero {weight : BlobCall → ℕ} {calls : List BlobCall}
    (h : ∀ call ∈ calls, weight call = 0) : weigh weight calls = 0 := by
  apply List.sum_eq_zero
  intro bytes hbytes
  obtain ⟨call, hcall, rfl⟩ := List.mem_map.mp hbytes
  exact h call hcall

theorem weigh_le {weight bound : BlobCall → ℕ} {calls : List BlobCall}
    (h : ∀ call ∈ calls, weight call ≤ bound call) : weigh weight calls ≤ weigh bound calls :=
  List.sum_le_sum h

@[simp] theorem storedBytes_append (files : List Blob) (blob : Blob) :
    storedBytes (files ++ [blob]) = storedBytes files + blob.bytes := by
  simp [storedBytes]

theorem mem_of_stat {files : List Blob} {key : Uuid} {bytes : ℕ} (h : stat files key = some bytes) :
    ⟨key, bytes⟩ ∈ files := by
  obtain ⟨blob, hfind, rfl⟩ := Option.map_eq_some_iff.mp h
  obtain rfl : blob.key = key := by simpa using List.find?_some hfind
  exact List.mem_of_find?_eq_some hfind

theorem not_mem_of_stat {files : List Blob} {key : Uuid} (h : stat files key = none) :
    key ∉ files.map (·.key) := by
  intro hmem
  obtain ⟨blob, hblob, rfl⟩ := List.mem_map.mp hmem
  have hnone := List.find?_eq_none.mp (Option.map_eq_none_iff.mp h) blob hblob
  exact hnone (beq_self_eq_true _)

/-- The file that is removed gives up its own bytes. -/
theorem storedBytes_rm {files : List Blob} {blob : Blob} (hkeys : (files.map (·.key)).Nodup)
    (hmem : blob ∈ files) :
    storedBytes files = blob.bytes + storedBytes (rm files blob.key) := by
  induction files with
  | nil => exact absurd hmem List.not_mem_nil
  | cons first files ih =>
    rw [List.map_cons, List.nodup_cons] at hkeys
    obtain ⟨hfirst, hkeys⟩ := hkeys
    rcases List.mem_cons.mp hmem with rfl | hmem
    · have hrest : rm files blob.key = files := by
        apply List.filter_eq_self.mpr
        intro other hother
        have hne : other.key ≠ blob.key := fun h => hfirst (List.mem_map.mpr ⟨other, hother, h⟩)
        simpa using hne
      have hrm : rm (blob :: files) blob.key = rm files blob.key := by simp [rm]
      rw [hrm, hrest]
      rfl
    · have hne : first.key ≠ blob.key := fun h => hfirst (List.mem_map.mpr ⟨blob, hmem, h.symm⟩)
      have hrm : rm (first :: files) blob.key = first :: rm files blob.key := by simp [rm, hne]
      have htail := ih hkeys hmem
      rw [hrm]
      simp only [storedBytes, List.map_cons, List.sum_cons] at htail ⊢
      omega

/-- The write of a put, as the services see it. -/
theorem put_stat (files : List Blob) (key : Uuid) (bytes : ℕ) :
    LocalBlobStore.put key bytes (stat files) =
      if (stat files key).isSome then .error (.failure "EEXIST")
      else .ok (stat (files ++ [⟨key, bytes⟩])) := by
  unfold LocalBlobStore.put
  split_ifs with hfree
  · rfl
  · rw [Bool.not_eq_true, Option.isSome_eq_false_iff, Option.isNone_iff_eq_none] at hfree
    congr 1
    funext other
    by_cases hother : other = key
    · subst hother
      have hnone : files.find? (·.key == other) = none := Option.map_eq_none_iff.mp hfree
      simp [stat, List.find?_append, hnone]
    · have hne : (key == other) = false := beq_false_of_ne (Ne.symm hother)
      simp [stat, List.find?_append, hne, Function.update_of_ne hother]

/-- The removal of a delete, as the services see it. -/
theorem delete_stat (files : List Blob) (key : Uuid) :
    LocalBlobStore.delete key (stat files) = stat (rm files key) := by
  funext other
  unfold LocalBlobStore.delete stat rm
  rw [List.find?_filter]
  by_cases hother : other = key
  · subst hother
    simp
  · rw [Function.update_of_ne hother]
    congr 2
    funext blob
    by_cases h : blob.key = other
    · simp [h, hother]
    · simp [h]

/-- A file that a delete has found is there until that delete removes it, and the total is off
by what the calls under way have still to count. -/
structure Accounted (s : BlobDirectory) : Prop where
  keys : (s.files.map (·.key)).Nodup
  found : ∀ key bytes, .removing key bytes ∈ s.calls → ⟨key, bytes⟩ ∈ s.files
  alone : (s.calls.filterMap BlobCall.removal?).Nodup
  exact : s.total + weigh BlobCall.uncounted s.calls =
    storedBytes s.files + weigh BlobCall.unsubtracted s.calls

/-- The delete does not find a file whose removal by another delete is under way. -/
def RemovesAlone (s : BlobDirectory) : BlobStep → Prop
  | .advance (.deleting key) =>
      key ∈ s.files.map (·.key) → key ∉ s.calls.filterMap BlobCall.removal?
  | _ => True

theorem accounted_scanned {files : List Blob} (h : (files.map (·.key)).Nodup) :
    Accounted (scanned files) where
  keys := h
  found := fun _ _ hmem => absurd hmem List.not_mem_nil
  alone := List.nodup_nil
  exact := rfl

/-- A call that is neither counted nor removing may come and go. -/
theorem Accounted.of_calls {s s' : BlobDirectory} (h : Accounted s) (hfiles : s'.files = s.files)
    (htotal : s'.total = s.total)
    (hremovals : (s'.calls.filterMap BlobCall.removal?).Sublist
      (s.calls.filterMap BlobCall.removal?))
    (hremoving : ∀ key bytes, .removing key bytes ∈ s'.calls → .removing key bytes ∈ s.calls)
    (huncounted : weigh BlobCall.uncounted s'.calls = weigh BlobCall.uncounted s.calls)
    (hunsubtracted : weigh BlobCall.unsubtracted s'.calls = weigh BlobCall.unsubtracted s.calls) :
    Accounted s' where
  keys := hfiles ▸ h.keys
  found := fun key bytes hmem => hfiles ▸ h.found key bytes (hremoving key bytes hmem)
  alone := h.alone.sublist hremovals
  exact := by
    rw [htotal, huncounted, hfiles, hunsubtracted]
    exact h.exact

/-- A call that only waits is taken out. -/
theorem Accounted.dropped {s : BlobDirectory} (h : Accounted s) {call : BlobCall}
    (hmem : call ∈ s.calls) (huncounted : call.uncounted = 0)
    (hunsubtracted : call.unsubtracted = 0) :
    Accounted { s with calls := s.calls.erase call } := by
  have hu := weigh_erase hmem BlobCall.uncounted
  have hv := weigh_erase hmem BlobCall.unsubtracted
  rw [huncounted, Nat.zero_add] at hu
  rw [hunsubtracted, Nat.zero_add] at hv
  exact h.of_calls rfl rfl (List.erase_sublist.filterMap _) (fun _ _ h => List.mem_of_mem_erase h)
    hu.symm hv.symm

theorem Accounted.joined {s : BlobDirectory} (h : Accounted s) (call : BlobCall)
    (huncounted : call.uncounted = 0) (hunsubtracted : call.unsubtracted = 0)
    (hremoval : call.removal? = none) : Accounted { s with calls := call :: s.calls } := by
  refine h.of_calls rfl rfl ?_ ?_ ?_ ?_
  · simp [hremoval]
  · intro key bytes hmem
    rcases List.mem_cons.mp hmem with rfl | hmem
    · cases hremoval
    · exact hmem
  · simp [huncounted]
  · simp [hunsubtracted]

theorem Accounted.settled {s : BlobDirectory} (h : Accounted s) (bytes : ℕ) (held : Bool) :
    Accounted (s.settle bytes held) := by
  cases held
  · exact h
  · exact h.joined (.settled bytes) rfl rfl rfl

theorem accounted_advance {s : BlobDirectory} (h : Accounted s) {call : BlobCall}
    (hmem : call ∈ s.calls) (halone : s.RemovesAlone (.advance call)) :
    Accounted ({ s with calls := s.calls.erase call }.advance call) := by
  have huncounted := weigh_erase hmem BlobCall.uncounted
  have hunsubtracted := weigh_erase hmem BlobCall.unsubtracted
  have hexact := h.exact
  cases call with
  | holding bytes => exact (h.dropped hmem rfl rfl).of_calls rfl rfl (.refl _) (fun _ _ h => h) rfl rfl
  | settled bytes => exact (h.dropped hmem rfl rfl).of_calls rfl rfl (.refl _) (fun _ _ h => h) rfl rfl
  | writing key bytes held =>
    have hdropped := h.dropped hmem rfl rfl
    simp only [advance]
    split
    · exact hdropped.settled bytes held
    · rename_i hfree
      refine ⟨?_, fun k n hk => ?_, ?_, ?_⟩
      · rw [List.map_append, List.nodup_append]
        refine ⟨h.keys, List.nodup_singleton _, ?_⟩
        rintro k hk _ hnew rfl
        obtain rfl := List.mem_singleton.mp hnew
        exact not_mem_of_stat hfree hk
      · have hk : .removing k n ∈ s.calls.erase (.writing key bytes held) := by simpa using hk
        exact List.mem_append_left _ (hdropped.found k n hk)
      · simpa [List.filterMap_cons, BlobCall.removal?] using hdropped.alone
      · have := hdropped.exact
        simp only [weigh_cons, BlobCall.uncounted, BlobCall.unsubtracted, storedBytes_append] at this ⊢
        omega
  | written bytes held =>
    apply Accounted.settled
    refine ⟨h.keys, fun k n hk => h.found k n (List.mem_of_mem_erase hk),
      h.alone.sublist (List.erase_sublist.filterMap _), ?_⟩
    simp only [BlobCall.uncounted, BlobCall.unsubtracted] at huncounted hunsubtracted ⊢
    omega
  | deleting key =>
    have hdropped := h.dropped hmem rfl rfl
    simp only [advance]
    split
    · exact hdropped
    · rename_i bytes hfound
      have hblob := mem_of_stat hfound
      have hkey := halone (List.mem_map.mpr ⟨_, hblob, rfl⟩)
      refine ⟨h.keys, fun k n hk => ?_, ?_, ?_⟩
      · rcases List.mem_cons.mp hk with hk | hk
        · cases hk
          exact hblob
        · exact hdropped.found k n hk
      · rw [List.filterMap_cons]
        refine List.nodup_cons.mpr ⟨fun h => hkey ?_, hdropped.alone⟩
        exact (List.erase_sublist.filterMap _).mem h
      · simpa [BlobCall.uncounted, BlobCall.unsubtracted] using hdropped.exact
  | removing key bytes =>
    have hdropped := h.dropped hmem rfl rfl
    have hblob := h.found key bytes hmem
    have hstored := storedBytes_rm h.keys hblob
    have hothers : key ∉ (s.calls.erase (.removing key bytes)).filterMap BlobCall.removal? := by
      have hperm := (List.perm_cons_erase hmem).filterMap BlobCall.removal?
      exact (List.nodup_cons.mp (hperm.nodup_iff.mp h.alone)).1
    refine ⟨h.keys.sublist (List.filter_sublist.map _), fun k n hk => ?_, ?_, ?_⟩
    · have hk : .removing k n ∈ s.calls.erase (.removing key bytes) := by simpa [advance] using hk
      have hne : k ≠ key := by
        rintro rfl
        exact hothers (List.mem_filterMap.mpr ⟨_, hk, rfl⟩)
      exact List.mem_filter.mpr ⟨hdropped.found k n hk, by simpa using hne⟩
    · simpa [advance, List.filterMap_cons, BlobCall.removal?] using hdropped.alone
    · have := hdropped.exact
      simp only [advance, weigh_cons, BlobCall.uncounted, BlobCall.unsubtracted] at this hstored ⊢
      omega
  | removed bytes =>
    refine ⟨h.keys, fun k n hk => h.found k n (List.mem_of_mem_erase hk),
      h.alone.sublist (List.erase_sublist.filterMap _), ?_⟩
    simp only [advance, BlobCall.uncounted, BlobCall.unsubtracted] at huncounted hunsubtracted ⊢
    omega

theorem accounted_step {highWaterBytes : ℕ} {s : BlobDirectory} (h : Accounted s) {op : BlobStep}
    (hop : s.Admissible op) (halone : s.RemovesAlone op) : Accounted (s.step highWaterBytes op) := by
  cases op with
  | reserve bytes =>
    simp only [step, reserve]
    split_ifs
    · exact h
    · exact (h.joined (.holding bytes) rfl rfl rfl).of_calls rfl rfl (.refl _)
        (fun _ _ h => h) rfl rfl
  | put key bytes held =>
    cases held
    · exact h.joined (.writing key bytes false) rfl rfl rfl
    · exact (h.dropped hop rfl rfl).joined (.writing key bytes true) rfl rfl rfl
  | delete key => exact h.joined (.deleting key) rfl rfl rfl
  | advance call => exact accounted_advance h hop halone

/-- What is counted and what is pledged stay below a bound together. -/
structure Within (bound : ℕ) (s : BlobDirectory) : Prop where
  reserved : s.reserved = weigh BlobCall.held s.calls
  fits : s.total + weigh BlobCall.pledged s.calls ≤ bound
  promised : ∀ call ∈ s.calls, ¬ call.Unreserved

theorem weigh_pledged_le (calls : List BlobCall) :
    weigh BlobCall.pledged calls ≤ weigh BlobCall.held calls := by
  apply weigh_le
  intro call _
  cases call with
  | writing key bytes held => cases held <;> simp [BlobCall.pledged, BlobCall.held]
  | written bytes held => cases held <;> simp [BlobCall.pledged, BlobCall.held]
  | _ => simp [BlobCall.pledged, BlobCall.held]

theorem within_advance {bound : ℕ} {s : BlobDirectory} (h : Within bound s) {call : BlobCall}
    (hmem : call ∈ s.calls) :
    Within bound ({ s with calls := s.calls.erase call }.advance call) := by
  have hreserved := h.reserved
  have hfits := h.fits
  have hheld := weigh_erase hmem BlobCall.held
  have hpledged := weigh_erase hmem BlobCall.pledged
  have hrest : ∀ other ∈ s.calls.erase call, ¬ other.Unreserved := fun other hother =>
    h.promised other (List.mem_of_mem_erase hother)
  have hjoined : ∀ next : BlobCall, ¬ next.Unreserved →
      ∀ other ∈ next :: s.calls.erase call, ¬ other.Unreserved := fun next hnext =>
    List.forall_mem_cons.mpr ⟨hnext, hrest⟩
  cases call with
  | holding bytes =>
    simp only [BlobCall.held, BlobCall.pledged] at hheld hpledged
    refine ⟨?_, ?_, hrest⟩ <;> simp only [advance, release] <;> omega
  | settled bytes =>
    simp only [BlobCall.held, BlobCall.pledged] at hheld hpledged
    refine ⟨?_, ?_, hrest⟩ <;> simp only [advance, release] <;> omega
  | writing key bytes held =>
    cases held with
    | false => exact absurd trivial (h.promised _ hmem)
    | true =>
      simp only [BlobCall.held, BlobCall.pledged] at hheld hpledged
      simp only [advance]
      split
      · refine ⟨?_, ?_, hjoined (.settled bytes) not_false⟩ <;>
          simp only [settle, if_true, List.singleton_append, weigh_cons, BlobCall.held,
            BlobCall.pledged] <;> omega
      · refine ⟨?_, ?_, hjoined (.written bytes true) not_false⟩ <;>
          simp only [weigh_cons, BlobCall.held, BlobCall.pledged] <;> omega
  | written bytes held =>
    cases held with
    | false => exact absurd trivial (h.promised _ hmem)
    | true =>
      simp only [BlobCall.held, BlobCall.pledged] at hheld hpledged
      refine ⟨?_, ?_, hjoined (.settled bytes) not_false⟩ <;>
        simp only [advance, settle, if_true, List.singleton_append, weigh_cons, BlobCall.held,
          BlobCall.pledged] <;> omega
  | deleting key =>
    simp only [BlobCall.held, BlobCall.pledged] at hheld hpledged
    simp only [advance]
    split
    · refine ⟨?_, ?_, hrest⟩ <;> simp only <;> omega
    · rename_i bytes _
      refine ⟨?_, ?_, hjoined (.removing key bytes) not_false⟩ <;>
        simp only [weigh_cons, BlobCall.held, BlobCall.pledged] <;> omega
  | removing key bytes =>
    simp only [BlobCall.held, BlobCall.pledged] at hheld hpledged
    refine ⟨?_, ?_, hjoined (.removed bytes) not_false⟩ <;>
      simp only [advance, weigh_cons, BlobCall.held, BlobCall.pledged] <;> omega
  | removed bytes =>
    simp only [BlobCall.held, BlobCall.pledged] at hheld hpledged
    refine ⟨?_, ?_, hrest⟩ <;> simp only [advance] <;> omega

theorem within_step {highWaterBytes bound : ℕ} (hbound : highWaterBytes ≤ bound)
    {s : BlobDirectory} (h : Within bound s) {op : BlobStep} (hop : s.Admissible op)
    (hreserves : reserves op = true) : Within bound (s.step highWaterBytes op) := by
  have hreserved := h.reserved
  have hfits := h.fits
  cases op with
  | reserve bytes =>
    have hle := weigh_pledged_le s.calls
    simp only [step, reserve]
    split_ifs with hfull
    · exact h
    · refine ⟨?_, ?_, List.forall_mem_cons.mpr ⟨not_false, h.promised⟩⟩ <;>
        simp only [weigh_cons, BlobCall.held, BlobCall.pledged] <;> omega
  | put key bytes held =>
    obtain rfl : held = true := hreserves
    have hheld := weigh_erase hop BlobCall.held
    have hpledged := weigh_erase hop BlobCall.pledged
    simp only [BlobCall.held, BlobCall.pledged] at hheld hpledged
    refine ⟨?_, ?_, List.forall_mem_cons.mpr ⟨not_false, fun other hother =>
      h.promised other (List.mem_of_mem_erase hother)⟩⟩ <;>
      simp only [step, weigh_cons, BlobCall.held, BlobCall.pledged] <;> omega
  | delete key =>
    refine ⟨?_, ?_, List.forall_mem_cons.mpr ⟨not_false, h.promised⟩⟩ <;>
      simp only [step, weigh_cons, BlobCall.held, BlobCall.pledged] <;> omega
  | advance call => exact within_advance h hop

/-- Where no put or delete is under way, nothing is left to count. -/
theorem Accounted.settles {s : BlobDirectory} (h : Accounted s)
    (hidle : ∀ call ∈ s.calls, call.inFlight = false) : s.total = storedBytes s.files := by
  have hexact := h.exact
  have huncounted : weigh BlobCall.uncounted s.calls = 0 := by
    apply weigh_eq_zero
    intro call hcall
    cases call <;> first | rfl | exact nomatch hidle _ hcall
  have hunsubtracted : weigh BlobCall.unsubtracted s.calls = 0 := by
    apply weigh_eq_zero
    intro call hcall
    cases call <;> first | rfl | exact nomatch hidle _ hcall
  omega

/-- Bytes that are stored and not yet counted are still pledged. -/
theorem Within.stored {bound : ℕ} {s : BlobDirectory} (h : Within bound s) (haccounted : Accounted s) :
    storedBytes s.files ≤ bound := by
  have hexact := haccounted.exact
  have hfits := h.fits
  have hle : weigh BlobCall.uncounted s.calls ≤ weigh BlobCall.pledged s.calls := by
    apply weigh_le
    intro call hcall
    cases call with
    | written bytes held =>
      cases held with
      | false => exact absurd trivial (h.promised _ hcall)
      | true => exact le_rfl
    | _ => exact Nat.zero_le _
  omega

/-- Where no delete finds a file that another one is about to remove, the total is the sum of
the stored blobs between the calls; and puts made under reservations stay below the mark. -/
theorem blob_totals {highWaterBytes : ℕ} {files : List Blob} {ops : List BlobStep}
    (hkeys : (files.map (·.key)).Nodup)
    (h : Admitted (step highWaterBytes) (fun s op => s.Admissible op ∧ s.RemovesAlone op)
      (scanned files) ops) :
    ((∀ call ∈ (runAll (step highWaterBytes) (scanned files) ops).calls, call.inFlight = false) →
      (runAll (step highWaterBytes) (scanned files) ops).total =
        storedBytes (runAll (step highWaterBytes) (scanned files) ops).files) ∧
    ((∀ op ∈ ops, reserves op = true) →
      storedBytes (runAll (step highWaterBytes) (scanned files) ops).files ≤
        max highWaterBytes (storedBytes files)) := by
  have haccounted := runAll_induction (I := Accounted)
    (fun s op hs hop => accounted_step hs hop.1 hop.2) (accounted_scanned hkeys) h
  refine ⟨haccounted.settles, fun hreserves => ?_⟩
  have hscanned : Within (max highWaterBytes (storedBytes files)) (scanned files) := by
    refine ⟨rfl, ?_, fun _ hcall => absurd hcall List.not_mem_nil⟩
    simp [scanned, weigh]
  have hall := (h.mono fun _ _ hop => hop.1).and (admitted_of_forall fun _ => hreserves)
  have hwithin := runAll_induction (I := Within (max highWaterBytes (storedBytes files)))
    (fun s op hs hop => within_step (le_max_left _ _) hs hop.1 hop.2) hscanned hall
  exact hwithin.stored haccounted

instance (s : BlobDirectory) : DecidablePred s.Admissible
  | .put _ bytes true => inferInstanceAs (Decidable (.holding bytes ∈ s.calls))
  | .advance call => inferInstanceAs (Decidable (call ∈ s.calls))
  | .put _ _ false | .reserve _ | .delete _ => .isTrue trivial

instance (s : BlobDirectory) : DecidablePred s.RemovesAlone
  | .advance (.deleting key) => inferInstanceAs (Decidable
      (key ∈ s.files.map (·.key) → key ∉ s.calls.filterMap BlobCall.removal?))
  | .advance (.holding _) | .advance (.writing _ _ _) | .advance (.written _ _)
  | .advance (.settled _) | .advance (.removing _ _) | .advance (.removed _)
  | .put _ _ _ | .reserve _ | .delete _ => .isTrue trivial

/-- An upload under a reservation, every step taken at once. -/
def upload (key : Uuid) (bytes : ℕ) : List BlobStep :=
  [.reserve bytes, .put key bytes true, .advance (.writing key bytes true),
    .advance (.written bytes true), .advance (.settled bytes)]

/-- Two deletes of one key, one after the other. -/
def deletesInTurn (key : Uuid) (bytes : ℕ) : List BlobStep :=
  [.delete key, .delete key, .advance (.deleting key), .advance (.removing key bytes),
    .advance (.deleting key), .advance (.removed bytes)]

theorem blob_totals_in_turn :
    (runAll (step 30) (scanned [⟨1, 10⟩]) (upload 2 20 ++ deletesInTurn 1 10)).total = 20 ∧
      storedBytes (runAll (step 30) (scanned [⟨1, 10⟩])
        (upload 2 20 ++ deletesInTurn 1 10)).files ≤ 30 := by
  have hrun : Admitted (step 30) (fun s op => s.Admissible op ∧ s.RemovesAlone op)
      (scanned [⟨1, 10⟩]) (upload 2 20 ++ deletesInTurn 1 10) := by decide +kernel
  have h := blob_totals (by decide) hrun
  constructor
  · rw [h.1 (by decide +kernel)]
    decide +kernel
  · exact h.2 (by decide +kernel)

/-- Both deletes look up the size before either removes the file. -/
def overlappingDeletes (key : Uuid) (bytes : ℕ) : List BlobStep :=
  [.delete key, .delete key, .advance (.deleting key), .advance (.deleting key),
    .advance (.removing key bytes), .advance (.removing key bytes), .advance (.removed bytes),
    .advance (.removed bytes)]

/-- The total falls below zero; it makes room for two uploads where the mark allows one. -/
theorem overlapping_deletes_drift :
    (¬ ∀ (highWaterBytes : ℕ) (files : List Blob) (ops : List BlobStep),
      (files.map (·.key)).Nodup → Admitted (step highWaterBytes) Admissible (scanned files) ops →
      (∀ call ∈ (runAll (step highWaterBytes) (scanned files) ops).calls, call.inFlight = false) →
      (runAll (step highWaterBytes) (scanned files) ops).total =
        storedBytes (runAll (step highWaterBytes) (scanned files) ops).files) ∧
    ¬ ∀ (highWaterBytes : ℕ) (files : List Blob) (ops : List BlobStep),
      (files.map (·.key)).Nodup → Admitted (step highWaterBytes) Admissible (scanned files) ops →
      (∀ op ∈ ops, reserves op = true) →
      storedBytes (runAll (step highWaterBytes) (scanned files) ops).files ≤
        max highWaterBytes (storedBytes files) := by
  constructor
  · intro h
    have htotal := h 10 [⟨1, 10⟩] (overlappingDeletes 1 10) (by decide) (by decide +kernel)
      (by decide +kernel)
    exact absurd htotal (by decide +kernel)
  · intro h
    have hstored := h 10 [⟨1, 10⟩] (overlappingDeletes 1 10 ++ upload 2 10 ++ upload 3 10)
      (by decide) (by decide +kernel) (by decide +kernel)
    exact absurd hstored (by decide +kernel)

end BlobDirectory
end AiKanban.Server
