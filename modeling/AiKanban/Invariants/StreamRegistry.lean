import AiKanban.Server.StreamRoutes
import AiKanban.Transitions.Runs

/-!
# The registry of streams

However streams open and close around the checks that are under way, the lists by user are
exactly the open streams. Only the catalog hint can come too late.
-/
namespace AiKanban.Invariants

open Collections Domain Server StreamServer Transitions

section lists

variable {α β : Type} {l : List α} {i : ℕ}

/-- Changing an element may leave a projection of the list as it is. -/
theorem map_modify_same {f : α → β} {g : α → α} (h : ∀ a, f (g a) = f a) :
    (l.modify i g).map f = l.map f := by
  refine List.ext_getElem? fun j => ?_
  rw [List.getElem?_map, List.getElem?_modify, List.getElem?_map]
  cases l[j]? with
  | none => rfl
  | some a =>
    change some (f (if i = j then g a else a)) = some (f a)
    split_ifs
    · rw [h]
    · rfl

theorem length_filter_ne {l : List ℕ} (hnodup : l.Nodup) (h : i ∈ l) :
    (l.filter (· ≠ i)).length + 1 = l.length := by
  have herase : l.filter (· ≠ i) = l.erase i := by
    rw [hnodup.erase_eq_filter]
    refine List.filter_congr fun j _ => ?_
    by_cases hj : j = i
    · simp [hj]
    · simp [hj]
  rw [herase, List.length_erase_of_mem h]
  have hpos := List.length_pos_of_mem h
  omega

end lists

section registry

variable {x : StreamServer} {user other : Uuid} {s i : ℕ} {stream : Stream}

def isOpen (x : StreamServer) (s : ℕ) : Bool := (x.streams[s]?).any fun stream => !stream.closed

def ownedBy (x : StreamServer) (user : Uuid) (s : ℕ) : Bool :=
  (x.streams[s]?).any fun stream => stream.userId = user

/-- The open streams, in the order of their opening. -/
def allOpen (x : StreamServer) : List ℕ := (List.range x.streams.length).filter (isOpen x)

/-- The open streams of a user. -/
def openOf (x : StreamServer) (user : Uuid) : List ℕ := (allOpen x).filter (ownedBy x user)

/-- The lists by user, the gauge, and the effects of closing. -/
structure Registered (x : StreamServer) : Prop where
  registry : ∀ user, x.handlesOf user = openOf x user
  once : ∀ (s : ℕ) (stream : Stream), x.streams[s]? = some stream →
    stream.closings = if stream.closed then 1 else 0
  gauge : x.openStreams = (allOpen x).length

/-- Nothing but the greeting is written to a closed stream. -/
def Silent (x : StreamServer) : Prop :=
  ∀ ws ∈ x.streams.map (·.written), ∀ w ∈ ws, w.late = true → w.frame = .connected

theorem nodup_allOpen : (allOpen x).Nodup := List.nodup_range.filter _

theorem mem_allOpen : s ∈ allOpen x ↔ isOpen x s = true := by
  unfold allOpen
  rw [List.mem_filter, List.mem_range]
  constructor
  · exact And.right
  · intro h
    refine ⟨?_, h⟩
    by_contra hge
    rw [isOpen, List.getElem?_eq_none (not_lt.mp hge)] at h
    cases h

section closing

theorem close_closed (h : isOpen x s = false) : x.close s = x := by
  unfold isOpen at h
  unfold StreamServer.close
  cases hstream : x.streams[s]? with
  | none => rfl
  | some stream =>
    rw [hstream] at h
    have hclosed : stream.closed = true := by simpa using h
    simp [hclosed]

/-- Closing an open stream. -/
theorem close_open (h : x.streams[s]? = some stream) (hopen : stream.closed = false) :
    x.close s =
      { x with
        streams := x.streams.modify s fun stream =>
          { stream with
            closed := true
            closings := stream.closings + 1
            keepalive := false
            ended := stream.headersSent }
        openStreams := x.openStreams - 1
        streamsByUser :=
          if (x.handlesOf stream.userId).filter (· ≠ s) = [] then
            x.streamsByUser.delete stream.userId
          else x.streamsByUser.set stream.userId ((x.handlesOf stream.userId).filter (· ≠ s)) } := by
  unfold StreamServer.close
  simp only [h, hopen, Bool.false_eq_true, if_false]

theorem handlesOf_close (h : x.streams[s]? = some stream) (hopen : stream.closed = false) :
    (x.close s).handlesOf user =
      if user = stream.userId then (x.handlesOf user).filter (· ≠ s) else x.handlesOf user := by
  rw [close_open h hopen]
  unfold handlesOf
  dsimp only
  by_cases hempty : (x.handlesOf stream.userId).filter (· ≠ s) = []
  · unfold handlesOf at hempty
    rw [if_pos hempty, InsertionMap.get_delete]
    split_ifs with huser
    · rw [huser, hempty]
      rfl
    · rfl
  · unfold handlesOf at hempty
    rw [if_neg hempty, InsertionMap.get_set]
    split_ifs with huser
    · rw [huser]
      rfl
    · rfl

theorem isOpen_close : isOpen (x.close s) i = (isOpen x i && decide (i ≠ s)) := by
  by_cases hopen : isOpen x s = true
  · cases hstream : x.streams[s]? with
    | none => simp [isOpen, hstream] at hopen
    | some stream =>
      have hclosed : stream.closed = false := by simpa [isOpen, hstream] using hopen
      rw [close_open hstream hclosed]
      unfold isOpen
      dsimp only
      rw [List.getElem?_modify]
      by_cases hsame : s = i
      · subst hsame
        simp [hstream]
      · cases x.streams[i]? <;> simp [hsame, Ne.symm hsame]
  · have hfalse : isOpen x s = false := by simpa using hopen
    rw [close_closed hfalse]
    by_cases hsame : i = s
    · simp [hsame, hfalse]
    · simp [hsame]

theorem ownedBy_close : ownedBy (x.close s) user i = ownedBy x user i := by
  by_cases hopen : isOpen x s = true
  · cases hstream : x.streams[s]? with
    | none => simp [isOpen, hstream] at hopen
    | some stream =>
      have hclosed : stream.closed = false := by simpa [isOpen, hstream] using hopen
      rw [close_open hstream hclosed]
      unfold ownedBy
      dsimp only
      rw [List.getElem?_modify]
      cases x.streams[i]? with
      | none => rfl
      | some _ =>
        simp only [Option.map_eq_map, Option.map_some, Option.any_some]
        split_ifs <;> rfl
  · rw [close_closed (by simpa using hopen)]

theorem length_close : (x.close s).streams.length = x.streams.length := by
  unfold StreamServer.close
  split
  · rfl
  · split_ifs
    · rfl
    · exact List.length_modify _ _ _

theorem allOpen_close : allOpen (x.close s) = (allOpen x).filter (· ≠ s) := by
  unfold allOpen
  rw [length_close, List.filter_filter]
  exact List.filter_congr fun i _ => by rw [isOpen_close, Bool.and_comm]

theorem openOf_close : openOf (x.close s) user = (openOf x user).filter (· ≠ s) := by
  unfold openOf
  rw [allOpen_close, List.filter_filter, List.filter_filter]
  exact List.filter_congr fun i _ => by rw [ownedBy_close, Bool.and_comm]

theorem written_close : (x.close s).streams.map (·.written) = x.streams.map (·.written) := by
  unfold StreamServer.close
  split
  · rfl
  · split_ifs
    · rfl
    · exact map_modify_same fun _ => rfl

theorem Silent.close (h : Silent x) : Silent (x.close s) := by
  unfold Silent
  rw [written_close]
  exact h

theorem Registered.close (h : Registered x) : Registered (x.close s) := by
  by_cases hopen : isOpen x s = true
  · cases hstream : x.streams[s]? with
    | none => simp [isOpen, hstream] at hopen
    | some stream =>
      have hclosed : stream.closed = false := by simpa [isOpen, hstream] using hopen
      refine ⟨fun user => ?_, fun i new hnew => ?_, ?_⟩
      · rw [handlesOf_close hstream hclosed, openOf_close, h.registry]
        split_ifs with huser
        · rfl
        · refine (List.filter_eq_self.mpr fun i hi => ?_).symm
          have howned : ownedBy x user i = true := (List.mem_filter.mp hi).2
          refine decide_eq_true fun hsame => ?_
          subst hsame
          have heq : stream.userId = user := by simpa [ownedBy, hstream] using howned
          exact huser heq.symm
      · rw [close_open hstream hclosed] at hnew
        dsimp only at hnew
        rw [List.getElem?_modify, Option.map_eq_map, Option.map_eq_some_iff] at hnew
        obtain ⟨old, hold, rfl⟩ := hnew
        have honce := h.once i old hold
        by_cases hsame : s = i
        · subst hsame
          obtain rfl := Option.some.inj (hstream.symm.trans hold)
          simp [honce, hclosed]
        · simp only [if_neg hsame]
          exact honce
      · have hlength := length_filter_ne nodup_allOpen (mem_allOpen.mpr hopen)
        have hgauge := h.gauge
        rw [allOpen_close, close_open hstream hclosed]
        dsimp only
        omega
  · rw [close_closed (by simpa using hopen)]
    exact h

end closing

section writing

variable {y : StreamServer} {frame : Frame}

/-- What the registry knows of a stream. -/
def mark (stream : Stream) : Uuid × Bool × ℕ := (stream.userId, stream.closed, stream.closings)

theorem Registered.congr (h : Registered x) (hstreams : y.streams.map mark = x.streams.map mark)
    (hmap : y.streamsByUser = x.streamsByUser) (hgauge : y.openStreams = x.openStreams) :
    Registered y := by
  have hmark : ∀ i, (y.streams[i]?).map mark = (x.streams[i]?).map mark := fun i => by
    rw [← List.getElem?_map, hstreams, List.getElem?_map]
  have hopen : ∀ i, isOpen y i = isOpen x i := fun i => by
    have hboth := congrArg (Option.any fun t => !t.2.1) (hmark i)
    rwa [Option.any_map, Option.any_map] at hboth
  have howned : ∀ user i, ownedBy y user i = ownedBy x user i := fun user i => by
    have hboth := congrArg (Option.any fun t => decide (t.1 = user)) (hmark i)
    rwa [Option.any_map, Option.any_map] at hboth
  have hlength : y.streams.length = x.streams.length := by
    simpa using congrArg List.length hstreams
  have hall : allOpen y = allOpen x := by
    unfold allOpen
    rw [hlength]
    exact List.filter_congr fun i _ => hopen i
  refine ⟨fun user => ?_, fun i stream hstream => ?_, ?_⟩
  · have hlist : openOf y user = openOf x user := by
      unfold openOf
      rw [hall]
      exact List.filter_congr fun i _ => howned user i
    rw [hlist, ← h.registry, handlesOf, hmap, handlesOf]
  · have hboth := hmark i
    rw [hstream] at hboth
    obtain ⟨old, hold, hsame⟩ := Option.map_eq_some_iff.mp hboth.symm
    have honce := h.once i old hold
    obtain ⟨-, hclosed, hclosings⟩ : old.userId = stream.userId ∧ old.closed = stream.closed ∧
        old.closings = stream.closings := by simpa [mark] using hsame
    rwa [hclosed, hclosings] at honce
  · rw [hgauge, hall, h.gauge]

theorem Registered.write (h : Registered x) : Registered (x.write s frame) :=
  h.congr (map_modify_same fun _ => rfl) rfl rfl

theorem silent_iff : Silent x ↔ ∀ (i : ℕ) (stream : Stream), x.streams[i]? = some stream →
    ∀ w ∈ stream.written, w.late = true → w.frame = .connected := by
  unfold Silent
  rw [List.forall_mem_map]
  constructor
  · intro h i stream hstream
    exact h stream (List.mem_of_getElem? hstream)
  · intro h stream hstream
    obtain ⟨i, hi⟩ := List.mem_iff_getElem?.mp hstream
    exact h i stream hi

/-- Writing keeps the closed streams quiet unless the stream is one of them. -/
theorem silent_write (h : Silent x) :
    Silent (x.write s frame) ↔ (x.isClosed s = true → frame = .connected) := by
  rw [silent_iff] at h ⊢
  unfold StreamServer.write
  dsimp only
  constructor
  · intro hwrite hclosed
    cases hstream : x.streams[s]? with
    | none => simp [StreamServer.isClosed, hstream] at hclosed
    | some stream =>
      have hlate : stream.closed = true := by simpa [StreamServer.isClosed, hstream] using hclosed
      refine hwrite s _ (by rw [List.getElem?_modify, hstream]; rfl) ⟨frame, stream.closed⟩ ?_ hlate
      simp
  · intro hframe i stream hstream w hw hlate
    rw [List.getElem?_modify, Option.map_eq_map, Option.map_eq_some_iff] at hstream
    obtain ⟨old, hold, rfl⟩ := hstream
    by_cases hsame : s = i
    · subst hsame
      simp only [if_true, List.mem_append, List.mem_singleton] at hw
      rcases hw with hw | rfl
      · exact h s old hold w hw hlate
      · exact hframe (by simpa [StreamServer.isClosed, hold] using hlate)
    · simp only [if_neg hsame] at hw
      exact h i old hold w hw hlate

end writing

section opening

theorem Registered.register (h : Registered x) (boardId : Uuid) :
    Registered (x.register user boardId) ∧
      ∀ other, (x.register user boardId).handlesOf other =
        if other = user then x.handlesOf user ++ [x.streams.length] else x.handlesOf other := by
  have hhandles : ∀ other, (x.register user boardId).handlesOf other =
      if other = user then x.handlesOf user ++ [x.streams.length] else x.handlesOf other := by
    intro other
    unfold handlesOf StreamServer.register
    dsimp only
    rw [InsertionMap.get_set]
    split_ifs
    · rfl
    · rfl
  have hold : ∀ i < x.streams.length,
      (x.register user boardId).streams[i]? = x.streams[i]? := fun i hi =>
    List.getElem?_append_left hi
  have hnew : (x.register user boardId).streams[x.streams.length]? =
      some { userId := user, boardId } := by
    unfold StreamServer.register
    simp
  have hlength : (x.register user boardId).streams.length = x.streams.length + 1 := by
    unfold StreamServer.register
    simp
  have hall : allOpen (x.register user boardId) = allOpen x ++ [x.streams.length] := by
    unfold allOpen
    rw [hlength, List.range_succ, List.filter_append]
    congr 1
    · exact List.filter_congr fun i hi => by
        rw [isOpen, isOpen, hold i (List.mem_range.mp hi)]
    · simp [isOpen, hnew]
  have hlt : ∀ i ∈ allOpen x, i < x.streams.length := fun i hi =>
    List.mem_range.mp (List.mem_filter.mp hi).1
  refine ⟨⟨fun other => ?_, fun i stream hstream => ?_, ?_⟩, hhandles⟩
  · have hkept : (allOpen x).filter (ownedBy (x.register user boardId) other) = openOf x other :=
      List.filter_congr fun i hi => by rw [ownedBy, ownedBy, hold i (hlt i hi)]
    rw [hhandles, openOf, hall, List.filter_append, hkept]
    split_ifs with hother
    · subst hother
      rw [h.registry]
      simp [ownedBy, hnew]
    · rw [h.registry]
      simp [ownedBy, hnew, Ne.symm hother]
  · by_cases hi : i < x.streams.length
    · rw [hold i hi] at hstream
      exact h.once i stream hstream
    · have hin := (List.getElem?_eq_some_iff.mp hstream).1
      obtain rfl : i = x.streams.length := by omega
      rw [hnew] at hstream
      obtain rfl := Option.some.inj hstream
      rfl
  · rw [hall, List.length_append]
    have hgauge := h.gauge
    unfold StreamServer.register
    dsimp only
    rw [hgauge]
    simp

theorem Silent.register (h : Silent x) (boardId : Uuid) : Silent (x.register user boardId) := by
  intro ws hws w hw
  unfold StreamServer.register at hws
  rw [List.map_append, List.mem_append] at hws
  rcases hws with hws | hws
  · exact h ws hws w hw
  · obtain rfl := List.mem_singleton.mp hws
    cases hw

/-- Dropping takes the oldest streams of the user until there are few enough. -/
theorem dropOldest_spec {maxStreams rounds : ℕ} (h : Registered x)
    (hrounds : (x.handlesOf user).length ≤ rounds + maxStreams) :
    Registered (dropOldest maxStreams user rounds x) ∧
      (∀ other, (openOf (dropOldest maxStreams user rounds x) other).Sublist (openOf x other)) ∧
      (dropOldest maxStreams user rounds x).handlesOf user =
        (x.handlesOf user).drop ((x.handlesOf user).length - maxStreams) := by
  induction rounds generalizing x with
  | zero =>
    have hfew : (x.handlesOf user).length - maxStreams = 0 := by omega
    rw [dropOldest, hfew]
    exact ⟨h, fun _ => List.Sublist.refl _, rfl⟩
  | succ rounds ih =>
    rw [dropOldest]
    by_cases hmany : maxStreams < (x.handlesOf user).length
    · rw [if_pos hmany]
      cases hlist : x.handlesOf user with
      | nil =>
        rw [hlist] at hmany
        exact absurd hmany (Nat.not_lt_zero _)
      | cons oldest rest =>
        have hmem : oldest ∈ openOf x user := by
          rw [← h.registry, hlist]
          exact List.mem_cons_self
        have hopen : isOpen x oldest = true := mem_allOpen.mp (List.mem_filter.mp hmem).1
        have hnodup : (oldest :: rest).Nodup := by
          rw [← hlist, h.registry]
          exact nodup_allOpen.filter _
        have hrest : (x.close oldest).handlesOf user = rest := by
          rw [h.close.registry, openOf_close, ← h.registry, hlist, List.filter_cons_of_neg (by simp)]
          refine List.filter_eq_self.mpr fun i hi => decide_eq_true fun hsame => ?_
          exact (List.nodup_cons.mp hnodup).1 (hsame ▸ hi)
        rw [hlist, List.length_cons] at hrounds hmany
        obtain ⟨hregistered, hsub, hdropped⟩ := ih h.close (by rw [hrest]; omega)
        refine ⟨hregistered, fun other => (hsub other).trans ?_, hdropped.trans ?_⟩
        · rw [openOf_close]
          exact List.filter_sublist
        have hlength : (oldest :: rest).length - maxStreams = rest.length - maxStreams + 1 := by
          rw [List.length_cons]
          omega
        rw [hrest, hlength, List.drop_succ_cons]
    · have hfew : (x.handlesOf user).length - maxStreams = 0 := by omega
      rw [if_neg hmany, hfew]
      exact ⟨h, fun _ => List.Sublist.refl _, rfl⟩

theorem Silent.dropOldest {maxStreams rounds : ℕ} (h : Silent x) :
    Silent (x.dropOldest maxStreams user rounds) := by
  induction rounds generalizing x with
  | zero => exact h
  | succ rounds ih =>
    rw [StreamServer.dropOldest]
    split_ifs
    · split
      · exact h
      · exact ih h.close
    · exact h

end opening

section steps

variable {maxStreams : ℕ} {request : StreamRequest}

/-- No user has too many streams. -/
def Bounded (maxStreams : ℕ) (x : StreamServer) : Prop :=
  ∀ user, (x.handlesOf user).length ≤ maxStreams

theorem Bounded.sub {y : StreamServer} (h : Bounded maxStreams x) (hx : Registered x)
    (hy : Registered y) (hsub : ∀ user, (openOf y user).Sublist (openOf x user)) :
    Bounded maxStreams y := by
  intro user
  rw [hy.registry]
  refine (hsub user).length_le.trans ?_
  rw [← hx.registry]
  exact h user

theorem Bounded.close (h : Bounded maxStreams x) (hx : Registered x) :
    Bounded maxStreams (x.close s) := by
  refine h.sub hx hx.close fun user => ?_
  rw [openOf_close]
  exact List.filter_sublist

/-- What opening a stream does to the list of its user. -/
theorem opened_spec (h : Registered x) (hbounded : Bounded maxStreams x) (user boardId : Uuid)
    (destroyed : Bool) :
    Registered (x.opened maxStreams user boardId destroyed) ∧
      Bounded maxStreams (x.opened maxStreams user boardId destroyed) ∧
      (x.opened maxStreams user boardId destroyed).handlesOf user =
        ((x.handlesOf user ++ [x.streams.length]).drop
          ((x.handlesOf user).length + 1 - maxStreams)).filter
            fun s => !(destroyed && s == x.streams.length) := by
  obtain ⟨hregister, hlist⟩ : Registered (x.register user boardId) ∧ _ := h.register boardId
  obtain ⟨hdropped, hsub, htail⟩ := dropOldest_spec hregister
    (show ((x.register user boardId).handlesOf user).length ≤ _ + maxStreams from
      Nat.le_add_right _ _)
  have hfew : Bounded maxStreams (dropOldest maxStreams user
      ((x.register user boardId).handlesOf user).length (x.register user boardId)) := by
    intro other
    by_cases hother : other = user
    · rw [hother, htail, List.length_drop]
      omega
    · rw [hdropped.registry]
      refine (hsub other).length_le.trans ?_
      rw [← hregister.registry, hlist, if_neg hother]
      exact hbounded other
  have hlength : ((x.register user boardId).handlesOf user).length = (x.handlesOf user).length + 1 := by
    rw [hlist, if_pos rfl, List.length_append]
    rfl
  rw [hlength, hlist, if_pos rfl] at htail
  unfold opened
  dsimp only
  rw [hlength] at hdropped hfew ⊢
  cases destroyed with
  | true =>
    rw [if_pos rfl]
    refine ⟨hdropped.close, hfew.close hdropped, ?_⟩
    rw [hdropped.close.registry, openOf_close, ← hdropped.registry, htail]
    refine List.filter_congr fun i _ => ?_
    by_cases hi : i = x.streams.length <;> simp [hi]
  | false =>
    rw [if_neg Bool.false_ne_true]
    refine ⟨hdropped.write, hfew, htail.trans ?_⟩
    exact (List.filter_eq_self.mpr fun _ _ => rfl).symm

/-- What closing keeps, closing many streams keeps. -/
theorem foldl_close {P : StreamServer → Prop} (hclose : ∀ y i, P y → P (y.close i)) (l : List ℕ)
    (h : P x) : P (l.foldl StreamServer.close x) := by
  induction l generalizing x with
  | nil => exact h
  | cons i l ih => exact ih (hclose x i h)

theorem Silent.opened (h : Silent x) (boardId : Uuid) (destroyed : Bool) :
    Silent (x.opened maxStreams user boardId destroyed) := by
  have hdropped : Silent ((x.register user boardId).dropOldest maxStreams user
      ((x.register user boardId).handlesOf user).length) := (h.register boardId).dropOldest
  unfold StreamServer.opened
  cases destroyed with
  | true => exact hdropped.close
  | false => exact (silent_write hdropped).mpr fun _ => rfl

/-- The catalog hint reaches a stream that is still open when the session check is over. -/
def InTime (x : StreamServer) : StreamRequest → Prop
  | .deliveryAuthenticated d .granted => ∀ s,
      x.deliveries[d]? = some ⟨s, .board .boardUpdated, .authenticating⟩ → x.isClosed s = false
  | _ => True

/-- The checks under way differ, the streams do not. -/
structure Aside (x y : StreamServer) : Prop where
  streams : y.streams = x.streams
  map : y.streamsByUser = x.streamsByUser
  gauge : y.openStreams = x.openStreams

theorem aside_deliveries (deliveries : List Delivery) : Aside x { x with deliveries } :=
  ⟨rfl, rfl, rfl⟩

theorem aside_revalidations (revalidations : List Revalidation) :
    Aside x { x with revalidations } :=
  ⟨rfl, rfl, rfl⟩

/-- Apart from opening, a request closes streams or writes to one; of the writes, only that of
the catalog hint does not look whether the stream is open. -/
theorem step_cases (x : StreamServer) (maxStreams : ℕ) (request : StreamRequest) :
    (∃ user boardId destroyed, request = .opened user boardId destroyed) ∨
    ∃ y, Aside x y ∧
      ((InTime x request ∧ ∃ l : List ℕ, x.step maxStreams request = l.foldl close y) ∨
        ∃ s frame, frame ≠ .connected ∧ x.step maxStreams request = y.write s frame ∧
          (InTime x request ↔ x.isClosed s = false)) := by
  have hsame : Aside x x := ⟨rfl, rfl, rfl⟩
  cases request with
  | opened user boardId destroyed => exact Or.inl ⟨user, boardId, destroyed, rfl⟩
  | disconnected s => exact Or.inr ⟨x, hsame, Or.inl ⟨trivial, [s], rfl⟩⟩
  | dispatched hint =>
    refine Or.inr ⟨x.dispatched hint, ?_, Or.inl ⟨trivial, [], rfl⟩⟩
    unfold StreamServer.dispatched
    split_ifs
    · exact ⟨rfl, rfl, rfl⟩
    · exact hsame
  | tick s =>
    refine Or.inr ?_
    rw [StreamServer.step, StreamServer.tick]
    split
    · exact ⟨x, hsame, Or.inl ⟨trivial, [], rfl⟩⟩
    · next stream hstream =>
      split_ifs with hlive
      · have hopen : x.isClosed s = false := by
          rw [StreamServer.isClosed, hstream]
          have hboth := Bool.and_eq_true_iff.mp hlive
          simpa using hboth.2
        exact ⟨_, aside_revalidations (x.revalidations ++ [⟨s, .authenticating⟩]),
          Or.inr ⟨s, .keepalive, by simp, rfl, iff_of_true trivial hopen⟩⟩
      · exact ⟨x, hsame, Or.inl ⟨trivial, [], rfl⟩⟩
  | deliveryAuthenticated d answer =>
    refine Or.inr ?_
    rw [StreamServer.step]
    split
    · next s hint hdelivery =>
      cases answer with
      | granted =>
        rw [StreamServer.deliveryAuthenticated]
        dsimp only
        split_ifs with hcatalog
        · subst hcatalog
          refine ⟨_, aside_deliveries (x.deliveries.set d ⟨s, _, .checkingAccess⟩), Or.inr
            ⟨s, .hint (.board .boardUpdated), by simp, rfl, fun h => h s hdelivery, ?_⟩⟩
          intro hopen s' hdelivery'
          rw [hdelivery] at hdelivery'
          cases hdelivery'
          exact hopen
        · refine ⟨_, aside_deliveries (x.deliveries.set d ⟨s, hint, .checkingAccess⟩),
            Or.inl ⟨fun s' hdelivery' => ?_, [], rfl⟩⟩
          rw [hdelivery] at hdelivery'
          cases hdelivery'
          exact absurd rfl hcatalog
      | refused => exact ⟨_, aside_deliveries (x.deliveries.eraseIdx d), Or.inl ⟨trivial, [s], rfl⟩⟩
      | failed => exact ⟨_, aside_deliveries (x.deliveries.eraseIdx d), Or.inl ⟨trivial, [s], rfl⟩⟩
    · next hother =>
      refine ⟨x, hsame, Or.inl ⟨?_, [], rfl⟩⟩
      cases answer with
      | granted => exact fun s hdelivery => absurd hdelivery (hother s _)
      | refused => trivial
      | failed => trivial
  | deliveryChecked d answer =>
    refine Or.inr ?_
    rw [StreamServer.step]
    split
    · next s hint hdelivery =>
      cases answer with
      | granted =>
        rw [StreamServer.deliveryChecked]
        dsimp only
        split_ifs with hwrites
        · have hopen : x.isClosed s = false := by
            have hboth := Bool.and_eq_true_iff.mp hwrites
            simpa using hboth.1
          exact ⟨_, aside_deliveries (x.deliveries.eraseIdx d),
            Or.inr ⟨s, .hint hint, by simp, rfl, iff_of_true trivial hopen⟩⟩
        · exact ⟨_, aside_deliveries (x.deliveries.eraseIdx d), Or.inl ⟨trivial, [], rfl⟩⟩
      | refused => exact ⟨_, aside_deliveries (x.deliveries.eraseIdx d), Or.inl ⟨trivial, [], rfl⟩⟩
      | failed => exact ⟨_, aside_deliveries (x.deliveries.eraseIdx d), Or.inl ⟨trivial, [s], rfl⟩⟩
    · exact ⟨x, hsame, Or.inl ⟨trivial, [], rfl⟩⟩
  | tickAuthenticated r answer =>
    refine Or.inr ?_
    rw [StreamServer.step]
    split
    · next s hcheck =>
      cases answer with
      | granted => exact ⟨_, aside_revalidations (x.revalidations.set r ⟨s, .checkingAccess⟩),
          Or.inl ⟨trivial, [], rfl⟩⟩
      | refused => exact ⟨_, aside_revalidations (x.revalidations.eraseIdx r), Or.inl ⟨trivial, [s], rfl⟩⟩
      | failed => exact ⟨_, aside_revalidations (x.revalidations.eraseIdx r), Or.inl ⟨trivial, [s], rfl⟩⟩
    · exact ⟨x, hsame, Or.inl ⟨trivial, [], rfl⟩⟩
  | tickChecked r answer =>
    refine Or.inr ?_
    rw [StreamServer.step]
    split
    · next s hcheck =>
      cases answer with
      | granted => exact ⟨_, aside_revalidations (x.revalidations.eraseIdx r), Or.inl ⟨trivial, [], rfl⟩⟩
      | refused => exact ⟨_, aside_revalidations (x.revalidations.eraseIdx r), Or.inl ⟨trivial, [s], rfl⟩⟩
      | failed => exact ⟨_, aside_revalidations (x.revalidations.eraseIdx r), Or.inl ⟨trivial, [s], rfl⟩⟩
    · exact ⟨x, hsame, Or.inl ⟨trivial, [], rfl⟩⟩
  | shutdown =>
    exact Or.inr ⟨{ x with subscribed := false }, ⟨rfl, rfl, rfl⟩,
      Or.inl ⟨trivial, x.streamsByUser.values.flatten, rfl⟩⟩

/-- Everything but the order of writing and closing holds after every request. -/
theorem registered_step (h : Registered x ∧ Bounded maxStreams x) :
    Registered (x.step maxStreams request) ∧ Bounded maxStreams (x.step maxStreams request) := by
  rcases step_cases x maxStreams request with ⟨user, boardId, destroyed, rfl⟩ | ⟨y, haside, hstep⟩
  · obtain ⟨hregistered, hbounded, -⟩ := opened_spec h.1 h.2 user boardId destroyed
    exact ⟨hregistered, hbounded⟩
  · have hy : Registered y ∧ Bounded maxStreams y := by
      refine ⟨h.1.congr (congrArg (List.map mark) haside.streams) haside.map haside.gauge, ?_⟩
      intro user
      rw [handlesOf, haside.map]
      exact h.2 user
    rcases hstep with ⟨-, l, heq⟩ | ⟨s, frame, -, heq, -⟩
    · rw [heq]
      exact foldl_close (P := fun y => Registered y ∧ Bounded maxStreams y)
        (fun z i hz => ⟨hz.1.close, hz.2.close hz.1⟩) l hy
    · rw [heq]
      exact ⟨hy.1.write, hy.2⟩

theorem silent_step_iff (h : Silent x) :
    Silent (x.step maxStreams request) ↔ InTime x request := by
  rcases step_cases x maxStreams request with ⟨user, boardId, destroyed, rfl⟩ | ⟨y, haside, hstep⟩
  · exact iff_of_true (h.opened boardId destroyed) trivial
  · have hy : Silent y := by
      unfold Silent
      rw [haside.streams]
      exact h
    rcases hstep with ⟨hintime, l, heq⟩ | ⟨s, frame, hframe, heq, hiff⟩
    · rw [heq]
      exact iff_of_true (foldl_close (fun z i hz => hz.close) l hy) hintime
    · have hclosed : y.isClosed s = x.isClosed s := by
        unfold StreamServer.isClosed
        rw [haside.streams]
      rw [heq, silent_write hy, hiff, hclosed]
      constructor
      · intro hwrite
        by_contra hclosed
        exact hframe (hwrite (by simpa using hclosed))
      · intro hopen hclosed
        rw [hopen] at hclosed
        cases hclosed

/-- The registry is exact, bounded by dropping the oldest, and closes each stream once; nothing
is written to a stream after it has been closed. -/
structure Sound (maxStreams : ℕ) (x : StreamServer) : Prop where
  registry : ∀ user, x.handlesOf user = openOf x user
  bounded : ∀ user, (x.handlesOf user).length ≤ maxStreams
  opening : ∀ user boardId destroyed,
    (x.step maxStreams (.opened user boardId destroyed)).handlesOf user =
      ((x.handlesOf user ++ [x.streams.length]).drop
        ((x.handlesOf user).length + 1 - maxStreams)).filter
          fun s => !(destroyed && s == x.streams.length)
  once : ∀ (s : ℕ) (stream : Stream), x.streams[s]? = some stream →
    stream.closings = if stream.closed then 1 else 0
  gauge : x.openStreams = (allOpen x).length
  silent : Silent x

theorem sound_iff (h : Registered x ∧ Bounded maxStreams x) : Sound maxStreams x ↔ Silent x := by
  constructor
  · exact Sound.silent
  · intro hquiet
    exact ⟨h.1.registry, h.2, fun user boardId destroyed =>
      (opened_spec h.1 h.2 user boardId destroyed).2.2, h.1.once, h.1.gauge, hquiet⟩

theorem registered_start (maxStreams : ℕ) :
    Registered start ∧ Bounded maxStreams start := by
  refine ⟨⟨fun _ => rfl, fun s stream hstream => ?_, rfl⟩, fun _ => Nat.zero_le _⟩
  cases hstream

/-- A server keeps its streams as it should all along a run iff no catalog hint comes to a stream
that was closed while its session was checked. -/
theorem streams_sound_iff (maxStreams : ℕ) (requests : List StreamRequest) :
    (∀ before, before <+: requests →
      Sound maxStreams (runAll (StreamServer.step maxStreams) start before)) ↔
      Admitted (StreamServer.step maxStreams) InTime start requests := by
  refine forall_prefix_iff (I := fun x => Registered x ∧ Bounded maxStreams x)
    (fun _ _ h => registered_step h) (fun x request h hsound => ?_) (registered_start maxStreams)
      ((sound_iff (registered_start maxStreams)).mpr ?_)
  · rw [sound_iff (registered_step h), silent_step_iff hsound.silent]
  · rintro ws hws
    cases hws

end steps

end registry

/-- A catalog hint is written to a stream whose client left while the session was checked. -/
theorem catalog_hint_late : ¬ Sound 5 (runAll (StreamServer.step 5) start
    [.opened 7 3 false, .dispatched (.board .boardUpdated), .disconnected 0,
      .deliveryAuthenticated 0 .granted]) := by
  intro h
  have hlate := h.silent [⟨.connected, false⟩, ⟨.hint (.board .boardUpdated), true⟩] (by decide +kernel)
    ⟨.hint (.board .boardUpdated), true⟩ (by decide) rfl
  cases hlate

end AiKanban.Invariants
