import AiKanban.Effects.Threads
import AiKanban.Invariants.AttachmentCap
import AiKanban.Server.AttachmentFaults
import AiKanban.Transitions.Runs

/-!
# Attachment rows and their blobs

Wherever a call fails, each active attachment keeps its blob; only a hint that fails after the
commit of an upload drops the blob of a row that stays.
-/
namespace AiKanban.Invariants

open Application Domain Db Effects Relational Services Server Transactions Transitions

section rows

variable {w w' : World Store Tick}

/-- An upload inserts one active row, under the first identifier it draws. -/
theorem attachments_add {actor : Actor} {cardId : ℕ} {raw : AddAttachmentInput} {r : Attachment}
    (h : Runs (AttachmentService.add actor cardId raw) w r w') :
    w'.store.attachments.rows = w.store.attachments.rows ++ [r] ∧ r.storageKey = w.peek.id ∧
      r.deletedAt = none := by
  unfold AttachmentService.add at h
  replace h := runs_bind_iff.mp h
  obtain ⟨input, _, hparse, h⟩ := h
  obtain ⟨-, rfl⟩ := runs_ofExcept_iff.mp hparse
  simp only [UserRepository.findById, AttachmentRepository.listByCard, runs_bind_iff,
    runs_ensure_iff, runs_newId_iff, runs_ensureNotArchived_iff, runs_decidePolicy_iff,
    runs_read_iff, runs_requireFound_iff, runs_clockNow_iff, AttachmentRepository.insert,
    runs_insertRow_iff, table_attachments, put_attachments, runs_pure_iff] at h
  obtain ⟨_, w₀, ⟨-, rfl⟩, key, w₁, ⟨rfl, rfl⟩, card, _, hcard, _, _, ⟨-, rfl⟩, policy, _, hpolicy,
    _, _, ⟨-, rfl⟩, _, _, ⟨-, rfl⟩, _, _, ⟨-, rfl⟩, _, _, ⟨-, rfl⟩, _, w₂, ⟨-, rfl⟩, _, _, ⟨rfl, rfl⟩, _, _,
    ⟨rfl, rfl⟩, _, _, ⟨haccepts, -, rfl⟩, event, w₃, hevent, _, _, happend, hr, rfl⟩ := h
  obtain ⟨rfl, -⟩ := runs_accessibleCard hcard
  obtain rfl := runs_activePolicy hpolicy
  obtain ⟨-, rfl⟩ := runs_makeEvent_iff.mp hevent
  obtain ⟨happended, -, -, -⟩ := runs_append happend
  subst hr
  refine ⟨?_, rfl, rfl⟩
  rw [happended]
  exact Table.rows_insert haccepts

/-- A removal marks one active row, and returns it marked. -/
theorem attachments_remove {actor : Actor} {attachmentId : Uuid} {r : Attachment}
    (h : Runs (AttachmentService.remove actor attachmentId) w r w') :
    ∃ existing ∈ w.store.attachments.rows, existing.deletedAt = none ∧ r.id = existing.id ∧
      r.storageKey = existing.storageKey ∧ r.deletedAt ≠ none ∧
      w'.store.attachments.rows =
        w.store.attachments.rows.map fun x => if x.id = r.id then r else x := by
  simp only [AttachmentService.remove, AttachmentService.requireActive,
    AttachmentRepository.findById, runs_bind_iff, runs_selectKey_iff, runs_requireFound_iff,
    runs_ensure_iff, runs_ensureNotArchived_iff, runs_decidePolicy_iff, runs_clockNow_iff,
    AttachmentRepository.update, runs_modifyRow_iff, table_attachments, put_attachments,
    runs_pure_iff] at h
  obtain ⟨existing, _, ⟨_, _, ⟨rfl, rfl⟩, found, _, ⟨hfound, rfl⟩, _, _, ⟨hactive, rfl⟩, rfl, rfl⟩,
    card, _, hcard, _, _, ⟨-, rfl⟩, policy, _, hpolicy, _, _, ⟨-, rfl⟩, _, _, ⟨rfl, rfl⟩, _, _,
    ⟨row, -, haccepts, -, rfl⟩, event, w₂, hevent, _, _, happend, hr, rfl⟩ := h
  obtain ⟨rfl, -⟩ := runs_accessibleCard hcard
  obtain rfl := runs_activePolicy hpolicy
  obtain ⟨-, rfl⟩ := runs_makeEvent_iff.mp hevent
  obtain ⟨happended, -, -, -⟩ := runs_append happend
  subst hr
  refine ⟨existing, Table.mem_of_find? hfound, Option.isNone_iff_eq_none.mp hactive, rfl, rfl,
    Option.some_ne_none _, ?_⟩
  rw [happended]
  exact Table.rows_update haccepts

end rows

section calls

variable {β : Type} {listeners : ℕ} {fault : Option (Fault β)}

/-- Every active attachment has its blob. -/
def BlobsStored (s : Installation β) : Prop :=
  ∀ a ∈ s.world.store.attachments.rows, a.deletedAt = none → (s.blobs a.storageKey).isSome = true

/-- Every active attachment has a blob of its own. -/
structure BlobsAgree (s : Installation β) : Prop where
  stored : BlobsStored s
  apart : ∀ a ∈ s.world.store.attachments.rows, ∀ b ∈ s.world.store.attachments.rows,
    a.deletedAt = none → b.deletedAt = none → a.storageKey = b.storageKey → a = b

/-- A listener throws at the hint of an upload that gets as far as its hint. -/
def HintFails (listeners : ℕ) (s : Installation β) : FaultyCall β → Prop
  | ⟨.add actor cardId raw content, some (.hint listener)⟩ =>
      listener < listeners ∧ (addAttachment actor cardId raw content s).1.isOk = true
  | _ => False

/-- Every active attachment has its blob, and an upload that returned an error left no row. -/
structure KeepsRows (listeners : ℕ) (s : Installation β) (c : FaultyCall β) : Prop where
  stored : BlobsStored (c.step listeners s)
  unadded : ∀ actor cardId raw content e, c.call = .add actor cardId raw content →
    (c.perform listeners s).1 = .error e →
      (c.step listeners s).world.store.attachments = s.world.store.attachments

theorem forM_ok_iff {f : α → Except DomainError Unit} {xs : List α} :
    xs.forM f = .ok () ↔ ∀ x ∈ xs, f x = .ok () := by
  induction xs with
  | nil => simp [List.forM_nil, pure, Except.pure]
  | cons x xs ih =>
    change (f x >>= fun _ => xs.forM f) = .ok () ↔ _
    rw [List.forall_mem_cons, ← ih]
    cases hx : f x with
    | error e => simp [bind, Except.bind]
    | ok u => simp [bind, Except.bind]

theorem publish_ok_iff :
    Fault.publish fault listeners = .ok () ↔ ∀ n < listeners, fault ≠ some (.hint n) := by
  unfold Fault.publish
  rw [forM_ok_iff]
  simp only [List.mem_range]
  refine forall₂_congr fun n _ => ?_
  unfold Fault.listener?
  constructor
  · rintro h rfl
    simp at h
  · intro h
    split
    · rename_i m
      rw [if_neg]
      rintro rfl
      exact h rfl
    · rfl

/-- All that an upload can come to. -/
inductive AddOutcome (s : Installation β) (actor : Actor) (cardId : ℕ) (raw : AddAttachmentInput)
    (content : β) (listeners : ℕ) (fault : Option (Fault β)) :
    Except DomainError Attachment × Installation β → Prop where
  | rejected (e : DomainError) (s' : Installation β) (store : s'.world.store = s.world.store)
      (blobs : ∀ key, (s.blobs key).isSome = true → s'.blobs key = s.blobs key)
      (refused : ∀ n, fault = some (.hint n) →
        (addAttachment actor cardId raw content s).1.isOk = false) :
      AddOutcome s actor cardId raw content listeners fault (.error e, s')
  | added (a : Attachment) (w : World Store Tick)
      (runs : Runs (AttachmentService.add actor cardId raw) s.world a w)
      (free : s.blobs s.world.peek.id = none) (unheard : ∀ n < listeners, fault ≠ some (.hint n)) :
      AddOutcome s actor cardId raw content listeners fault
        (.ok a, ⟨w, Function.update s.blobs s.world.peek.id (some content)⟩)
  | dropped (e : DomainError) (a : Attachment) (w : World Store Tick) (n : ℕ)
      (runs : Runs (AttachmentService.add actor cardId raw) s.world a w)
      (heard : n < listeners) (hint : fault = some (.hint n))
      (accepted : (addAttachment actor cardId raw content s).1.isOk = true)
      (blobs : LocalBlobStore β) (lost : blobs s.world.peek.id = none) :
      AddOutcome s actor cardId raw content listeners fault (.error e, ⟨w, blobs⟩)

theorem put_ok {key : Uuid} {content : β} {blobs blobs' : LocalBlobStore β}
    (h : blobs.put key content = .ok blobs') :
    blobs key = none ∧ blobs' = Function.update blobs key (some content) := by
  unfold LocalBlobStore.put at h
  split_ifs at h with hfree
  cases h
  exact ⟨by simpa using hfree, rfl⟩

theorem update_of_stored {key key' : Uuid} {left : Option β} {blobs : LocalBlobStore β}
    (hfree : blobs key = none) (hstored : (blobs key').isSome = true) :
    Function.update blobs key left key' = blobs key' := by
  apply Function.update_of_ne
  rintro rfl
  rw [hfree] at hstored
  cases hstored

theorem put?_ok {key : Uuid} {content : β} {blobs blobs' kept : LocalBlobStore β}
    (h : Fault.put? fault key content blobs = (.ok blobs', kept)) :
    blobs.put key content = .ok blobs' := by
  unfold Fault.put? at h
  split at h
  · cases h
  · exact (Prod.mk.inj h).1

theorem put?_error {key : Uuid} {content : β} {blobs kept : LocalBlobStore β} {e : DomainError}
    (h : Fault.put? fault key content blobs = (.error e, kept)) :
    (∀ key', (blobs key').isSome = true → kept key' = blobs key') ∧
      ∀ n, fault = some (.hint n) → blobs.put key content = .error e := by
  unfold Fault.put? at h
  split at h
  · next left =>
    obtain ⟨-, rfl⟩ := Prod.mk.inj h
    refine ⟨fun key' hstored => ?_, fun n hn => by cases hn⟩
    split_ifs with htaken
    · rfl
    · exact update_of_stored (by simpa using htaken) hstored
  · obtain ⟨hput, rfl⟩ := Prod.mk.inj h
    exact ⟨fun _ _ => rfl, fun _ _ => hput⟩

theorem delete?_of_stored {key key' : Uuid} {left : Option β} {blobs : LocalBlobStore β}
    (hfree : blobs key = none) (hstored : (blobs key').isSome = true) :
    Fault.delete? fault key (Function.update blobs key left) key' = blobs key' := by
  unfold Fault.delete?
  split
  · exact update_of_stored hfree hstored
  · unfold LocalBlobStore.delete
    rw [Function.update_idem]
    exact update_of_stored hfree hstored

theorem addOutcome (s : Installation β) (actor : Actor) (cardId : ℕ) (raw : AddAttachmentInput)
    (content : β) (listeners : ℕ) (fault : Option (Fault β)) :
    AddOutcome s actor cardId raw content listeners fault
      (addAttachmentWith listeners fault actor cardId raw content s) := by
  unfold addAttachmentWith
  cases hparse : raw.parse with
  | error e =>
    refine .rejected e s rfl (fun _ _ => rfl) fun n _ => ?_
    simp [addAttachment, hparse, Except.isOk, Except.toBool]
  | ok input =>
    by_cases hsize : AttachmentService.maxAttachmentBytes < input.byteLength
    · simp only [if_pos hsize]
      refine .rejected _ s rfl (fun _ _ => rfl) fun n _ => ?_
      simp [addAttachment, hparse, hsize, Except.isOk, Except.toBool]
    simp only [if_neg hsize]
    rcases hput : Fault.put? fault s.world.peek.id content s.blobs with ⟨e | blobs, kept⟩
    · obtain ⟨hkept, hrefused⟩ := put?_error hput
      refine .rejected e _ rfl hkept fun n hn => ?_
      simp [addAttachment, hparse, hsize, hrefused n hn, Except.isOk, Except.toBool]
    have hstored := put?_ok hput
    obtain ⟨hfree, rfl⟩ := put_ok hstored
    dsimp only
    split
    · next e w hunit =>
      refine .rejected e ⟨w, _⟩ (transactWith_error hunit)
        (fun key hkey => delete?_of_stored hfree hkey) fun n hn => ?_
      subst hn
      have hfailed : transact (AttachmentService.add actor cardId raw) s.world = (.error e, w) := hunit
      simp [addAttachment, hparse, hsize, hstored, hfailed, Except.isOk, Except.toBool]
    · next a w hunit =>
      have hruns := transactWith_ok hunit
      split
      · next e hpublish =>
        obtain ⟨n, hn, rfl⟩ : ∃ n < listeners, fault = some (.hint n) := by
          by_contra hnone
          have hok := publish_ok_iff.mpr fun n hn hfault => hnone ⟨n, hn, hfault⟩
          rw [hpublish] at hok
          cases hok
        have haccepted : (addAttachment actor cardId raw content s).1.isOk = true := by
          simp [addAttachment, hparse, hsize, hstored, transact_ok_iff.mpr hruns, Except.isOk,
            Except.toBool]
        exact .dropped e a w n hruns hn rfl haccepted _ (Function.update_self ..)
      · next hpublish => exact .added a w hruns hfree (publish_ok_iff.mp hpublish)

/-- What keeps each active attachment with a blob of its own. -/
theorem agree_add {s : Installation β} (hs : BlobsAgree s) {actor : Actor} {cardId : ℕ}
    {raw : AddAttachmentInput} {a : Attachment} {w : World Store Tick} (content : β)
    (hruns : Runs (AttachmentService.add actor cardId raw) s.world a w)
    (hfree : s.blobs s.world.peek.id = none) :
    BlobsAgree ⟨w, Function.update s.blobs s.world.peek.id (some content)⟩ := by
  obtain ⟨hrows, hkey, -⟩ := attachments_add hruns
  have hold : ∀ b ∈ s.world.store.attachments.rows, b.deletedAt = none →
      b.storageKey ≠ a.storageKey := by
    intro b hb hactive hsame
    have hstored := hs.stored b hb hactive
    rw [hsame, hkey, hfree] at hstored
    cases hstored
  refine ⟨fun b hb hactive => ?_, fun b hb c hc hbactive hcactive hsame => ?_⟩
  · rw [hrows] at hb
    rcases List.mem_append.mp hb with hb | hb
    · have hstored := hs.stored b hb hactive
      dsimp only
      rwa [update_of_stored hfree hstored]
    · dsimp only
      rw [List.mem_singleton.mp hb, hkey, Function.update_self]
      rfl
  · rw [hrows] at hb hc
    rcases List.mem_append.mp hb with hb | hb
    · rcases List.mem_append.mp hc with hc | hc
      · exact hs.apart b hb c hc hbactive hcactive hsame
      · exact absurd (List.mem_singleton.mp hc ▸ hsame) (hold b hb hbactive)
    · rcases List.mem_append.mp hc with hc | hc
      · exact absurd (List.mem_singleton.mp hb ▸ hsame.symm) (hold c hc hcactive)
      · rw [List.mem_singleton.mp hb, List.mem_singleton.mp hc]

theorem agree_marked {s : Installation β} (hs : BlobsAgree s) {existing r : Attachment}
    {w : World Store Tick} {blobs : LocalBlobStore β}
    (hexisting : existing ∈ s.world.store.attachments.rows) (hactive : existing.deletedAt = none)
    (hid : r.id = existing.id) (hmarked : r.deletedAt ≠ none)
    (hrows : w.store.attachments.rows =
      s.world.store.attachments.rows.map fun x => if x.id = r.id then r else x)
    (hblobs : ∀ key, key ≠ existing.storageKey → blobs key = s.blobs key) :
    BlobsAgree ⟨w, blobs⟩ := by
  -- what is still active was there before, and is another row
  have hbefore : ∀ b ∈ w.store.attachments.rows, b.deletedAt = none →
      b ∈ s.world.store.attachments.rows ∧ b ≠ existing := by
    intro b hb hbactive
    rw [hrows] at hb
    obtain ⟨x, hx, rfl⟩ := List.mem_map.mp hb
    split_ifs at hbactive ⊢ with hsame
    · exact absurd hbactive hmarked
    · exact ⟨hx, fun h => hsame (h ▸ hid.symm)⟩
  refine ⟨fun b hb hbactive => ?_, fun b hb c hc hbactive hcactive hsame => ?_⟩
  · obtain ⟨hmem, hne⟩ := hbefore b hb hbactive
    have hkey : b.storageKey ≠ existing.storageKey := fun hsame =>
      hne (hs.apart b hmem existing hexisting hbactive hactive hsame)
    dsimp only
    rw [hblobs _ hkey]
    exact hs.stored b hmem hbactive
  · exact hs.apart b (hbefore b hb hbactive).1 c (hbefore c hc hcactive).1 hbactive hcactive hsame

theorem BlobsAgree.of_store {s s' : Installation β} (hs : BlobsAgree s)
    (hstore : s'.world.store = s.world.store)
    (hblobs : ∀ key, (s.blobs key).isSome = true → s'.blobs key = s.blobs key) : BlobsAgree s' where
  stored := by
    intro a ha hactive
    rw [hstore] at ha
    have hstored := hs.stored a ha hactive
    rwa [hblobs _ hstored]
  apart := by
    rw [hstore]
    exact hs.apart

theorem agree_remove {s : Installation β} (hs : BlobsAgree s) (listeners : ℕ)
    (fault : Option (Fault β)) (actor : Actor) (attachmentId : Uuid) :
    BlobsAgree (removeAttachmentWith listeners fault actor attachmentId s).2 := by
  unfold removeAttachmentWith
  split
  · next e w hunit => exact hs.of_store (transactWith_error hunit) fun _ _ => rfl
  · next a w hunit =>
    obtain ⟨existing, hmem, hactive, hid, hkey, hmarked, hrows⟩ :=
      attachments_remove (transactWith_ok hunit)
    split
    · exact agree_marked hs hmem hactive hid hmarked hrows fun _ _ => rfl
    · refine agree_marked hs hmem hactive hid hmarked hrows fun key hne => ?_
      unfold Fault.delete? LocalBlobStore.delete
      split
      · rfl
      · exact Function.update_of_ne (hkey ▸ hne) _ _

theorem of_perform {s : Installation β} {c : FaultyCall β}
    (h : BlobsAgree (c.perform listeners s).2 ∧ ∀ e, (c.perform listeners s).1 = .error e →
      (c.perform listeners s).2.world.store.attachments = s.world.store.attachments) :
    BlobsAgree (c.step listeners s) ∧ KeepsRows listeners s c :=
  ⟨h.1, h.1.stored, fun _ _ _ _ e _ he => h.2 e he⟩

/-- A call keeps the rows and their blobs together, unless a hint fails after its commit. -/
theorem agree_step {s : Installation β} (hs : BlobsAgree s) {c : FaultyCall β}
    (hheard : ¬ HintFails listeners s c) :
    BlobsAgree (c.step listeners s) ∧ KeepsRows listeners s c := by
  obtain ⟨call, fault⟩ := c
  cases call with
  | remove actor attachmentId =>
    have hagree := agree_remove hs listeners fault actor attachmentId
    exact ⟨hagree, hagree.stored, fun _ _ _ _ _ h => nomatch h⟩
  | add actor cardId raw content =>
    have houtcome : AddOutcome s actor cardId raw content listeners fault
        (FaultyCall.perform listeners s ⟨.add actor cardId raw content, fault⟩) :=
      addOutcome s actor cardId raw content listeners fault
    refine of_perform ?_
    generalize FaultyCall.perform listeners s ⟨.add actor cardId raw content, fault⟩ = result
      at houtcome ⊢
    cases houtcome with
    | rejected e s' hstore hblobs _ =>
      exact ⟨hs.of_store hstore hblobs, fun _ _ => by rw [hstore]⟩
    | added a w hruns hfree _ =>
      exact ⟨agree_add hs content hruns hfree, fun _ he => nomatch he⟩
    | dropped e a w n hruns hn hfault haccepted blobs hlost =>
      subst hfault
      exact absurd ⟨hn, haccepted⟩ hheard

/-- The blob of a committed row is gone. -/
theorem not_keepsRows {s : Installation β} {c : FaultyCall β} (h : HintFails listeners s c) :
    ¬ KeepsRows listeners s c := by
  rintro ⟨hstored, -⟩
  obtain ⟨_ | _, _ | _ | _ | n | _⟩ := c
  all_goals first | exact h.elim | skip
  rename_i actor cardId raw content
  obtain ⟨hn, haccepted⟩ := h
  have houtcome : AddOutcome s actor cardId raw content listeners (some (.hint n))
      (FaultyCall.perform listeners s ⟨.add actor cardId raw content, some (.hint n)⟩) :=
    addOutcome s actor cardId raw content listeners (some (.hint n))
  unfold FaultyCall.step at hstored
  generalize FaultyCall.perform listeners s ⟨.add actor cardId raw content, some (.hint n)⟩ = result
    at houtcome hstored
  cases houtcome with
  | rejected e s' _ _ hrefused =>
    rw [hrefused n rfl] at haccepted
    cases haccepted
  | added a w _ _ hunheard => exact hunheard n hn rfl
  | dropped e a w m hruns _ _ _ blobs hlost =>
    obtain ⟨hrows, hkey, hactive⟩ := attachments_add hruns
    have hblob := hstored a (by simp [hrows]) hactive
    rw [hkey] at hblob
    dsimp only at hblob
    rw [hlost] at hblob
    cases hblob

theorem agree_run {s : Installation β} (hs : BlobsAgree s) {calls : List (FaultyCall β)}
    (h : Admitted (fun s c => FaultyCall.step listeners s c) (fun s c => ¬ HintFails listeners s c)
      s calls) : BlobsAgree (runAll (fun s c => FaultyCall.step listeners s c) s calls) :=
  runAll_induction (fun _ _ hs hheard => (agree_step hs hheard).1) hs h

/-- After calls none of which lost a hint, a call with a failing step keeps the rows and their
blobs together exactly when the step is not the hint of an upload that was committed. -/
theorem attachments_agree {s : Installation β} (hs : BlobsAgree s) {calls : List (FaultyCall β)}
    (h : Admitted (fun s c => FaultyCall.step listeners s c) (fun s c => ¬ HintFails listeners s c)
      s calls) (c : FaultyCall β) :
    KeepsRows listeners (runAll (fun s c => FaultyCall.step listeners s c) s calls) c ↔
      ¬ HintFails listeners (runAll (fun s c => FaultyCall.step listeners s c) s calls) c :=
  ⟨fun hkeeps hfails => not_keepsRows hfails hkeeps,
    fun hheard => (agree_step (agree_run hs h) hheard).2⟩

end calls

/-- A card without attachments, and no blobs. -/
def bareCard : Installation Unit where
  world := @run samplePlatform (freshlySeeded sampleTicks)
    [.card (.create ⟨101, 102, .sqlite⟩ sampleActor { title := "Pump" } {})]
  blobs _ := none

theorem blobsAgree_bareCard : BlobsAgree bareCard := by
  have hrows : bareCard.world.store.attachments.rows = [] := by decide +kernel
  constructor
  · intro a ha
    rw [hrows] at ha
    cases ha
  · intro a ha
    rw [hrows] at ha
    cases ha

/-- An upload, one whose commit fails, and one the database rejects at its fourth statement. -/
def faultyUploads : List (FaultyCall Unit) :=
  [⟨.add sampleActor 1 sampleFile (), none⟩, ⟨.add sampleActor 1 sampleFile (), some (.unit .commit)⟩,
    ⟨.add sampleActor 1 sampleFile (), some (.unit (.statement 3))⟩]

theorem attachments_agree_uploads :
    KeepsRows 2 (runAll (fun s c => FaultyCall.step 2 s c) bareCard faultyUploads)
      ⟨.add sampleActor 1 sampleFile (), some (.put none)⟩ :=
  (@attachments_agree Unit 2 bareCard blobsAgree_bareCard faultyUploads
    ⟨id, id, id, trivial⟩ ⟨.add sampleActor 1 sampleFile (), some (.put none)⟩).mpr id

/-- A listener throws at the hint of a committed upload: the row stays without its blob, and the
call returns an error. -/
theorem hint_drops_blob : ¬ ∀ (β : Type) (listeners : ℕ) (s : Installation β) (c : FaultyCall β),
    BlobsAgree s → KeepsRows listeners s c := by
  intro h
  have hfails : HintFails 1 bareCard ⟨.add sampleActor 1 sampleFile (), some (.hint 0)⟩ :=
    ⟨by decide, by decide +kernel⟩
  exact not_keepsRows hfails (h Unit 1 bareCard _ blobsAgree_bareCard)

end AiKanban.Invariants
