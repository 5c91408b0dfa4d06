import AiKanban.Services.CardCollaboration

/-!
# The thread a client shows

One level of nesting: the top-level comments, each with its replies, oldest first.
-/
namespace AiKanban.Web

open Domain Db

structure CommentThreadNode where
  comment : Comment
  replies : List Comment
  deriving DecidableEq

def buildCommentThread (comments : List Comment) : List CommentThreadNode :=
  let byCreation := ascendingBy (·.createdAt) comments
  let topLevel := byCreation.filter (·.parentCommentId.isNone)
  topLevel.map fun comment =>
    ⟨comment, byCreation.filter fun candidate => candidate.parentCommentId == some comment.id⟩

/-- The comments of a thread in the order they are shown. -/
def shown (thread : List CommentThreadNode) : List Comment :=
  thread.flatMap fun node => node.comment :: node.replies

/-- A list of comments in which every reply answers a top-level comment of the list. -/
structure TwoLevel (comments : List Comment) : Prop where
  ids : (comments.map (·.id)).Nodup
  parents : ∀ c ∈ comments, ∀ id, c.parentCommentId = some id →
    ∃ p ∈ comments, p.id = id ∧ p.parentCommentId = none

variable {comments : List Comment}

theorem TwoLevel.eq_of_id (h : TwoLevel comments) {a b : Comment} (ha : a ∈ comments)
    (hb : b ∈ comments) (hid : a.id = b.id) : a = b :=
  List.inj_on_of_nodup_map h.ids ha hb hid

theorem nodup_byCreation (h : TwoLevel comments) :
    (ascendingBy (·.createdAt) comments).Nodup :=
  (List.perm_insertionSort _ _).nodup_iff.mpr h.ids.of_map

/-- A comment is shown at its own node or at its parent's. -/
theorem mem_shown {c : Comment} (h : TwoLevel comments) :
    c ∈ shown (buildCommentThread comments) ↔ c ∈ comments := by
  simp only [shown, buildCommentThread, List.mem_flatMap, List.mem_map, List.mem_filter,
    mem_ascendingBy, Option.isNone_iff_eq_none]
  constructor
  · rintro ⟨_, ⟨top, ⟨htop, -⟩, rfl⟩, hc⟩
    rcases List.mem_cons.mp hc with rfl | hreply
    · exact htop
    · exact mem_ascendingBy.mp (List.mem_filter.mp hreply).1
  · intro hc
    cases hparent : c.parentCommentId with
    | none => exact ⟨_, ⟨c, ⟨hc, hparent⟩, rfl⟩, List.mem_cons_self ..⟩
    | some id =>
      obtain ⟨p, hp, hid, htop⟩ := h.parents c hc id hparent
      refine ⟨_, ⟨p, ⟨hp, htop⟩, rfl⟩, List.mem_cons_of_mem _ (List.mem_filter.mpr ⟨?_, ?_⟩)⟩
      · exact mem_ascendingBy.mpr hc
      · simp [hparent, hid]

theorem nodup_shown (h : TwoLevel comments) : (shown (buildCommentThread comments)).Nodup := by
  have hsorted := nodup_byCreation h
  unfold shown buildCommentThread
  rw [List.flatMap_map, List.nodup_flatMap]
  constructor
  · intro top htop
    obtain ⟨-, htop⟩ := List.mem_filter.mp htop
    refine List.nodup_cons.mpr ⟨fun hself => ?_, hsorted.filter _⟩
    have hparent := (List.mem_filter.mp hself).2
    rw [Option.isNone_iff_eq_none.mp htop] at hparent
    cases hparent
  · -- Two nodes have different ids, and a comment has one parent at most.
    refine (hsorted.filter _).imp_of_mem fun {a b} ha hb hne => ?_
    obtain ⟨ha, hatop⟩ := List.mem_filter.mp ha
    obtain ⟨hb, hbtop⟩ := List.mem_filter.mp hb
    have hid : a.id ≠ b.id := fun hid =>
      hne (h.eq_of_id (mem_ascendingBy.mp ha) (mem_ascendingBy.mp hb) hid)
    intro c hca hcb
    rcases List.mem_cons.mp hca with rfl | hca
    · rcases List.mem_cons.mp hcb with rfl | hcb
      · exact hne rfl
      · have hparent := (List.mem_filter.mp hcb).2
        rw [Option.isNone_iff_eq_none.mp hatop] at hparent
        cases hparent
    · have hparent : c.parentCommentId = some a.id := by simpa using (List.mem_filter.mp hca).2
      rcases List.mem_cons.mp hcb with rfl | hcb
      · rw [Option.isNone_iff_eq_none.mp hbtop] at hparent
        cases hparent
      · have hother : c.parentCommentId = some b.id := by simpa using (List.mem_filter.mp hcb).2
        exact hid (Option.some.inj (hparent.symm.trans hother))

/-- Every comment is shown exactly once. -/
theorem perm_shown (h : TwoLevel comments) :
    (shown (buildCommentThread comments)).Perm comments :=
  (List.perm_ext_iff_of_nodup (nodup_shown h) h.ids.of_map).mpr fun _ => mem_shown h

/-- What a thread shows: top-level comments in creation order, and under each one the replies
to it, in creation order. -/
structure Threaded (thread : List CommentThreadNode) : Prop where
  top : ∀ node ∈ thread, node.comment.parentCommentId = none
  order : (thread.map (·.comment.createdAt)).Pairwise (· ≤ ·)
  replies : ∀ node ∈ thread, ∀ reply ∈ node.replies, reply.parentCommentId = some node.comment.id
  repliesOrder : ∀ node ∈ thread, (node.replies.map (·.createdAt)).Pairwise (· ≤ ·)

theorem threaded_buildCommentThread (comments : List Comment) :
    Threaded (buildCommentThread comments) := by
  have hsorted := pairwise_ascendingBy (fun c : Comment => c.createdAt) comments
  unfold buildCommentThread
  refine ⟨?_, ?_, ?_, ?_⟩
  · intro node hnode
    obtain ⟨top, htop, rfl⟩ := List.mem_map.mp hnode
    exact Option.isNone_iff_eq_none.mp (List.mem_filter.mp htop).2
  · rw [List.map_map, List.pairwise_map]
    exact hsorted.filter _
  · intro node hnode reply hreply
    obtain ⟨top, -, rfl⟩ := List.mem_map.mp hnode
    simpa using (List.mem_filter.mp hreply).2
  · intro node hnode
    obtain ⟨top, -, rfl⟩ := List.mem_map.mp hnode
    exact List.pairwise_map.mpr (hsorted.filter _)

end AiKanban.Web
