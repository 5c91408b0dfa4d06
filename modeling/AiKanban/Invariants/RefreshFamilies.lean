import AiKanban.Effects.Issuance
import AiKanban.Transitions.Runs

/-!
# Families of refresh tokens

The tokens of a family belong to one user and one client, one of them is unspent, and they are
revoked together. A family that a replay has ended never comes back.
-/
namespace AiKanban.Invariants.Grants

open Domain Db Effects Effects.Grants Relational Server Transactions Transitions
open Application

/-- What two tokens of a family have in common. -/
structure Kin (r r' : OAuthRefreshToken) : Prop where
  userId : r'.userId = r.userId
  clientId : r'.clientId = r.clientId
  scope : r'.scope = r.scope
  revoked : r'.revokedAt.isSome = r.revokedAt.isSome

theorem Kin.symm {r r' : OAuthRefreshToken} (h : Kin r r') : Kin r' r :=
  ⟨h.userId.symm, h.clientId.symm, h.scope.symm, h.revoked.symm⟩

theorem Kin.trans {r₁ r₂ r₃ : OAuthRefreshToken} (h : Kin r₁ r₂) (h' : Kin r₂ r₃) : Kin r₁ r₃ :=
  ⟨h'.userId.trans h.userId, h'.clientId.trans h.clientId, h'.scope.trans h.scope,
    h'.revoked.trans h.revoked⟩

/-- The families that a list of tokens makes up. -/
structure Families (rows : List OAuthRefreshToken) : Prop where
  kin : ∀ r ∈ rows, ∀ r' ∈ rows, r'.familyId = r.familyId → Kin r r'
  unspent : ∀ r ∈ rows, ∃ r' ∈ rows, r'.familyId = r.familyId ∧ r'.usedAt = none
  single : ∀ r ∈ rows, ∀ r' ∈ rows, r'.familyId = r.familyId → r.usedAt = none →
    r'.usedAt = none → r' = r

theorem families_nil : Families [] := ⟨by simp, by simp, by simp⟩

section lists

variable {rows : List OAuthRefreshToken}

/-- Tokens are revoked by family and by user, so a family is revoked as a whole. -/
theorem Families.stamp (h : Families rows) (stamp : Uuid → Uuid → Option Instant) :
    Families (rows.map (stampRow stamp)) := by
  constructor
  · intro x hx x' hx' hfamily
    obtain ⟨r, hr, rfl⟩ := List.mem_map.mp hx
    obtain ⟨r', hr', rfl⟩ := List.mem_map.mp hx'
    have hkin := h.kin r hr r' hr' hfamily
    have hsame : r'.familyId = r.familyId := hfamily
    refine ⟨hkin.userId, hkin.clientId, hkin.scope, ?_⟩
    simp only [stampRow, Option.isSome_or, hkin.revoked, hsame, hkin.userId]
  · intro x hx
    obtain ⟨r, hr, rfl⟩ := List.mem_map.mp hx
    obtain ⟨r', hr', hfamily, hunspent⟩ := h.unspent r hr
    exact ⟨stampRow stamp r', List.mem_map_of_mem hr', hfamily, hunspent⟩
  · intro x hx x' hx' hfamily hunspent hunspent'
    obtain ⟨r, hr, rfl⟩ := List.mem_map.mp hx
    obtain ⟨r', hr', rfl⟩ := List.mem_map.mp hx'
    rw [h.single r hr r' hr' hfamily hunspent hunspent']

/-- A token of a family of its own. -/
theorem Families.found (h : Families rows) {new : OAuthRefreshToken}
    (hfresh : ∀ r ∈ rows, r.familyId ≠ new.familyId) (hnew : new.usedAt = none) :
    Families (rows ++ [new]) := by
  constructor
  · intro r hr r' hr' hfamily
    rw [List.mem_append, List.mem_singleton] at hr hr'
    rcases hr with hr | rfl <;> rcases hr' with hr' | rfl
    · exact h.kin r hr r' hr' hfamily
    · exact absurd hfamily.symm (hfresh r hr)
    · exact absurd hfamily (hfresh r' hr')
    · exact ⟨rfl, rfl, rfl, rfl⟩
  · intro r hr
    rw [List.mem_append, List.mem_singleton] at hr
    rcases hr with hr | rfl
    · obtain ⟨r', hr', hfamily, hunspent⟩ := h.unspent r hr
      exact ⟨r', List.mem_append_left _ hr', hfamily, hunspent⟩
    · exact ⟨r, by simp, rfl, hnew⟩
  · intro r hr r' hr' hfamily hunspent hunspent'
    rw [List.mem_append, List.mem_singleton] at hr hr'
    rcases hr with hr | rfl <;> rcases hr' with hr' | rfl
    · exact h.single r hr r' hr' hfamily hunspent hunspent'
    · exact absurd hfamily.symm (hfresh r hr)
    · exact absurd hfamily (hfresh r' hr')
    · rfl

/-- Where a token of the new list comes from; one that is unspent is of another family. -/
theorem spendRow_cases (h : Families rows) {row : OAuthRefreshToken} {spentAt : Instant}
    (hrow : row ∈ rows) (hunspent : row.usedAt = none) :
    ∀ x ∈ rows.map (spendRow row spentAt), ∃ r ∈ rows, x.familyId = r.familyId ∧ Kin r x ∧
      (x.usedAt = none → x = r ∧ r.familyId ≠ row.familyId) := by
  intro x hx
  obtain ⟨r, hr, rfl⟩ := List.mem_map.mp hx
  refine ⟨r, hr, ?_⟩
  unfold spendRow
  split_ifs with hid
  · exact ⟨rfl, ⟨rfl, rfl, rfl, rfl⟩, fun hnone => by cases hnone⟩
  · refine ⟨rfl, ⟨rfl, rfl, rfl, rfl⟩, fun hnone => ⟨rfl, fun hsame => hid ?_⟩⟩
    rw [h.single row hrow r hr hsame hunspent hnone]

/-- The unspent token of a live family is spent, and another one takes its place. -/
theorem Families.rotate (h : Families rows) {row new : OAuthRefreshToken} {spentAt : Instant}
    (hrow : row ∈ rows) (hkey : ∀ r ∈ rows, r.id = row.id → r = row) (hunspent : row.usedAt = none)
    (hfamily : new.familyId = row.familyId) (hkin : Kin row new) (hnew : new.usedAt = none) :
    Families (rows.map (spendRow row spentAt) ++ [new]) := by
  have hspent : ∀ x ∈ rows.map (spendRow row spentAt), _ := spendRow_cases h hrow hunspent
  constructor
  · intro x hx x' hx' hsame
    have hof : ∀ y ∈ rows.map (spendRow row spentAt) ++ [new], ∃ r ∈ rows,
        y.familyId = r.familyId ∧ Kin r y := by
      intro y hy
      rw [List.mem_append, List.mem_singleton] at hy
      rcases hy with hy | rfl
      · obtain ⟨r, hr, hfam, hkin, -⟩ := hspent y hy
        exact ⟨r, hr, hfam, hkin⟩
      · exact ⟨row, hrow, hfamily, hkin⟩
    obtain ⟨r, hr, hfam, hkinr⟩ := hof x hx
    obtain ⟨r', hr', hfam', hkinr'⟩ := hof x' hx'
    have hkin₀ := h.kin r hr r' hr' (by rw [← hfam, ← hfam', hsame])
    exact (hkinr.symm.trans hkin₀).trans hkinr'
  · intro x hx
    by_cases hsame : x.familyId = row.familyId
    · exact ⟨new, by simp, by rw [hfamily, hsame], hnew⟩
    · rw [List.mem_append, List.mem_singleton] at hx
      rcases hx with hx | rfl
      · obtain ⟨r, hr, hfam, -, -⟩ := hspent x hx
        obtain ⟨r', hr', hfam', hunspent'⟩ := h.unspent r hr
        refine ⟨r', List.mem_append_left _ (List.mem_map.mpr ⟨r', hr', if_neg ?_⟩), ?_, hunspent'⟩
        · rintro hid
          exact hsame (by rw [hfam, ← hfam', hkey r' hr' hid])
        · rw [hfam, hfam']
      · exact absurd hfamily hsame
  · intro x hx x' hx' hsame hnone hnone'
    rw [List.mem_append, List.mem_singleton] at hx hx'
    rcases hx with hx | rfl <;> rcases hx' with hx' | rfl
    · obtain ⟨r, hr, hfam, -, hstill⟩ := hspent x hx
      obtain ⟨r', hr', hfam', -, hstill'⟩ := hspent x' hx'
      obtain ⟨rfl, -⟩ := hstill hnone
      obtain ⟨rfl, -⟩ := hstill' hnone'
      exact h.single x hr x' hr' hsame hnone hnone'
    · obtain ⟨r, hr, hfam, -, hstill⟩ := hspent x hx
      obtain ⟨rfl, hne⟩ := hstill hnone
      exact absurd (hsame.symm.trans hfamily) hne
    · obtain ⟨r, hr, hfam, -, hstill⟩ := hspent x' hx'
      obtain ⟨rfl, hne⟩ := hstill hnone'
      exact absurd (hsame.trans hfamily) hne
    · rfl

end lists

section runs

def DrawnBefore (w : World Store Tick) (id : Uuid) : Prop := ∃ k < w.drawn, id = (w.inputs k).id

theorem DrawnBefore.advance {w w' : World Store Tick} {id : Uuid} (h : DrawnBefore w id)
    (hadvances : Advances w w') : DrawnBefore w' id := by
  obtain ⟨k, hk, rfl⟩ := h
  exact ⟨k, hk.trans_le hadvances.drawn, by rw [hadvances.inputs]⟩

/-- The invariant of the refresh tokens: the identifier of a family was drawn for it. -/
structure FamilyTree (w : World Store Tick) : Prop where
  ids : Function.Injective fun k => (w.inputs k).id
  families : Families w.store.oauthRefreshTokens.rows
  drawn : ∀ r ∈ w.store.oauthRefreshTokens.rows, DrawnBefore w r.familyId

/-- The family that an exchange starts has no token yet. -/
theorem FamilyTree.fresh {w : World Store Tick} (h : FamilyTree w) {k : ℕ} (hk : w.drawn ≤ k) :
    ¬ DrawnBefore w (w.inputs k).id := by
  rintro ⟨j, hj, hid⟩
  exact absurd (h.ids hid) (by omega)

/-- A database that has just been seeded has granted nothing. -/
theorem start_grants (inputs : ℕ → Tick) :
    (GrantState.start inputs).world.store.oauthAuthorizationCodes.rows = [] ∧
      (GrantState.start inputs).world.store.oauthAccessTokens.rows = [] ∧
      (GrantState.start inputs).world.store.oauthRefreshTokens.rows = [] :=
  ⟨congrArg Table.rows (freshlySeeded_sameTable inputs (by decide) :
      ({} : Store).SameTable .oauthAuthorizationCodes _),
    congrArg Table.rows (freshlySeeded_sameTable inputs (by decide) :
      ({} : Store).SameTable .oauthAccessTokens _),
    congrArg Table.rows (freshlySeeded_sameTable inputs (by decide) :
      ({} : Store).SameTable .oauthRefreshTokens _)⟩

variable [OAuthPlatform] {config : OAuthConfig} {st : GrantState}

theorem FamilyTree.exchange {grant : TokenCodeGrant} {now : Instant} {randoms : TokenRandoms}
    {code : OAuthAuthorizationCode} {w w' : World Store Tick} (htree : FamilyTree w)
    (hadvances : Advances w w') (h : Exchanged config grant now randoms code w w') :
    FamilyTree w' := by
  obtain ⟨k, hle, hlt, hissued⟩ := h.issued
  obtain ⟨id, -, hrows⟩ := hissued.refresh
  have hsame : (withoutCode w.store code.codeHash).oauthRefreshTokens = w.store.oauthRefreshTokens :=
    rfl
  rw [hsame] at hrows
  refine ⟨by rw [hadvances.inputs]; exact htree.ids, ?_, fun r hr => ?_⟩
  · rw [hrows]
    refine htree.families.found (fun r hr hfamily => ?_) rfl
    have hid : r.familyId = (w.inputs k).id := hfamily
    exact htree.fresh hle (hid ▸ htree.drawn r hr)
  · rw [hrows, List.mem_append, List.mem_singleton] at hr
    rcases hr with hr | rfl
    · exact (htree.drawn r hr).advance hadvances
    · exact ⟨k, hlt, by rw [hadvances.inputs]; rfl⟩

theorem FamilyTree.rotate {grant : TokenRefreshGrant} {now : Instant} {randoms : TokenRandoms}
    {row : OAuthRefreshToken} {w w' : World Store Tick} (htree : FamilyTree w)
    (hadvances : Advances w w') (h : Rotated config grant now randoms row w w') :
    FamilyTree w' := by
  obtain ⟨spentAt, s₁, hspent, hissued⟩ := h.issued
  obtain ⟨id, -, hrows⟩ := hissued.refresh
  rw [hspent.refresh] at hrows
  refine ⟨by rw [hadvances.inputs]; exact htree.ids, ?_, fun r hr => ?_⟩
  · rw [hrows]
    refine htree.families.rotate h.presented.stored ?_ h.unspent rfl ?_ rfl
    · exact fun r hr hid => Table.eq_of_key hr h.presented.stored hid
    · exact ⟨rfl, rfl, rfl, by rw [h.presented.unrevoked]; rfl⟩
  · rw [hrows, List.mem_append, List.mem_singleton] at hr
    rcases hr with hr | rfl
    · obtain ⟨r₀, hr₀, hfamily, -⟩ := spendRow_cases htree.families h.presented.stored h.unspent r hr
      rw [hfamily]
      exact (htree.drawn r₀ hr₀).advance hadvances
    · exact (htree.drawn row h.presented.stored).advance hadvances

/-- Every event keeps the families. -/
theorem FamilyTree.step (h : FamilyTree st.world) (e : GrantEvent) :
    FamilyTree (st.step config e).world := by
  have hadvances := (step_advances e : Advances st.world (st.step config e).world)
  cases (step_effect e : GrantEffect config st (st.step config e) e) with
  | waned hwanes =>
    obtain ⟨stamp, hrows⟩ := hwanes.refresh
    refine ⟨by rw [hadvances.inputs]; exact h.ids, ?_, fun r hr => ?_⟩
    · rw [hrows]
      exact h.families.stamp stamp
    · rw [hrows] at hr
      obtain ⟨r₀, hr₀, rfl⟩ := List.mem_map.mp hr
      exact (h.drawn r₀ hr₀).advance hadvances
  | authorized hauthorized =>
    refine ⟨by rw [hadvances.inputs]; exact h.ids, ?_, fun r hr => ?_⟩
    · rw [hauthorized.refresh]
      exact h.families
    · rw [hauthorized.refresh] at hr
      exact (h.drawn r hr).advance hadvances
  | exchanged hexchanged => exact h.exchange hadvances hexchanged
  | rotated hrotated => exact h.rotate hadvances hrotated

theorem familyTree_run {inputs : ℕ → Tick} (hids : Function.Injective fun k => (inputs k).id)
    (events : List GrantEvent) :
    FamilyTree (runAll (GrantState.step config) (GrantState.start inputs) events).world := by
  refine runAll_induction (I := fun st : GrantState => FamilyTree st.world) (P := fun _ _ => True)
    (fun st e hst _ => hst.step e) ?_ (admitted_of_forall fun _ _ _ => trivial)
  obtain ⟨-, -, hrefresh⟩ := start_grants inputs
  refine ⟨?_, by rw [hrefresh]; exact families_nil, by simp [hrefresh]⟩
  rw [show (GrantState.start inputs).world.inputs = inputs from (transact_inputs _ _).1]
  exact hids

/-- In every run, the refresh tokens of a family belong to one user and one client and carry one
scope, exactly one of them is unspent, and either all of them are revoked or none is. -/
theorem families_rotate {inputs : ℕ → Tick} (hids : Function.Injective fun k => (inputs k).id)
    (config : OAuthConfig) (events : List GrantEvent) :
    let rows := (runAll (GrantState.step config) (GrantState.start inputs)
      events).world.store.oauthRefreshTokens.rows
    ∀ r ∈ rows,
      (∃ live ∈ rows, live.familyId = r.familyId ∧ live.usedAt = none ∧
        ∀ r' ∈ rows, r'.familyId = r.familyId → r'.usedAt = none → r' = live) ∧
      ∀ r' ∈ rows, r'.familyId = r.familyId → r'.userId = r.userId ∧ r'.clientId = r.clientId ∧
        r'.scope = r.scope ∧ (r'.revokedAt.isSome ↔ r.revokedAt.isSome) := by
  intro rows r hr
  have hfamilies : Families rows := (familyTree_run hids events).families
  obtain ⟨live, hlive, hfamily, hunspent⟩ := hfamilies.unspent r hr
  refine ⟨⟨live, hlive, hfamily, hunspent, fun r' hr' hsame hunspent' => ?_⟩, fun r' hr' hsame => ?_⟩
  · exact hfamilies.single live hlive r' hr' (hsame.trans hfamily.symm) hunspent hunspent'
  · have hkin := hfamilies.kin r hr r' hr' hsame
    exact ⟨hkin.userId, hkin.clientId, hkin.scope, by rw [hkin.revoked]⟩

end runs

theorem sampleTicks_injective : Function.Injective fun k => (sampleTicks k).id := by
  intro j k h
  have hsame : 100 + j = 100 + k := h
  omega

theorem families_rotate_sample :
    let rows := (runAll (@GrantState.step sampleOAuthPlatform sampleOAuthConfig)
      (GrantState.start sampleTicks) sampleRotation).world.store.oauthRefreshTokens.rows
    rows.length = 2 ∧ ∀ r ∈ rows, ∃ live ∈ rows, live.familyId = r.familyId ∧ live.usedAt = none ∧
      ∀ r' ∈ rows, r'.familyId = r.familyId → r'.usedAt = none → r' = live := by
  intro rows
  refine ⟨by decide +kernel, fun r hr => ?_⟩
  exact (@families_rotate sampleOAuthPlatform sampleTicks sampleTicks_injective sampleOAuthConfig
    sampleRotation r hr).1

section lookups

variable {w : World Store Tick}

/-- The hash of a refresh token is unique. -/
theorem refresh_of_hash {r r' : OAuthRefreshToken} (hr : r ∈ w.store.oauthRefreshTokens.rows)
    (hr' : r' ∈ w.store.oauthRefreshTokens.rows) (hhash : r.tokenHash = r'.tokenHash) : r = r' := by
  by_contra hne
  have hsymm : Std.Symm fun a b : OAuthRefreshToken => Row.clash a b = false :=
    ⟨fun a b h => (Row.clash_symm b a).trans h⟩
  have hclash := w.store.oauthRefreshTokens.distinct.forall hr hr' hne
  simp [Row.clash, hhash] at hclash

theorem find_refresh {r : OAuthRefreshToken} {tokenHash : String}
    (hr : r ∈ w.store.oauthRefreshTokens.rows) (hhash : r.tokenHash = tokenHash) :
    w.store.oauthRefreshTokens.rows.find? (fun r => r.tokenHash == tokenHash) = some r := by
  cases hfound : w.store.oauthRefreshTokens.rows.find? fun r => r.tokenHash == tokenHash with
  | none => exact absurd hhash (by simpa using List.find?_eq_none.mp hfound r hr)
  | some r' =>
    have hhash' : r'.tokenHash = tokenHash := by simpa using List.find?_some hfound
    rw [refresh_of_hash (List.mem_of_find?_eq_some hfound) hr (hhash'.trans hhash.symm)]

/-- The hash of an access token is unique. -/
theorem find_access {r : OAuthAccessToken} {tokenHash : String}
    (hr : r ∈ w.store.oauthAccessTokens.rows) (hhash : r.tokenHash = tokenHash) :
    w.store.oauthAccessTokens.rows.find? (fun r => r.tokenHash == tokenHash) = some r := by
  cases hfound : w.store.oauthAccessTokens.rows.find? fun r => r.tokenHash == tokenHash with
  | none => exact absurd hhash (by simpa using List.find?_eq_none.mp hfound r hr)
  | some r' =>
    have hhash' : r'.tokenHash = tokenHash := by simpa using List.find?_some hfound
    by_contra hne
    have hsymm : Std.Symm fun a b : OAuthAccessToken => Row.clash a b = false :=
      ⟨fun a b h => (Row.clash_symm b a).trans h⟩
    have hclash := w.store.oauthAccessTokens.distinct.forall (List.mem_of_find?_eq_some hfound) hr
      fun h => hne (by rw [h])
    simp [Row.clash, hhash, hhash'] at hclash

end lookups

section endings

variable [OAuthPlatform] {config : OAuthConfig} {st : GrantState}

/-- Every token of the family is revoked. -/
structure Ended (w : World Store Tick) (family : Uuid) : Prop where
  drawn : DrawnBefore w family
  revoked : ∀ r ∈ w.store.oauthRefreshTokens.rows, r.familyId = family → r.revokedAt.isSome

/-- A family that has ended never comes back. -/
theorem Ended.step {family : Uuid} (hids : Function.Injective fun k => (st.world.inputs k).id)
    (h : Ended st.world family) (e : GrantEvent) : Ended (st.step config e).world family := by
  have hadvances : Advances st.world (st.step config e).world := step_advances e
  refine ⟨h.drawn.advance hadvances, fun r hr hfamily => ?_⟩
  cases (step_effect e : GrantEffect config st (st.step config e) e) with
  | waned hwanes =>
    obtain ⟨stamp, hrows⟩ := hwanes.refresh
    rw [hrows] at hr
    obtain ⟨r₀, hr₀, rfl⟩ := List.mem_map.mp hr
    simp [stampRow, h.revoked r₀ hr₀ hfamily]
  | authorized hauthorized =>
    rw [hauthorized.refresh] at hr
    exact h.revoked r hr hfamily
  | exchanged hexchanged =>
    obtain ⟨k, hle, -, hissued⟩ := hexchanged.issued
    obtain ⟨id, -, hrows⟩ := hissued.refresh
    rw [hrows, List.mem_append, List.mem_singleton] at hr
    rcases hr with hr | rfl
    · exact h.revoked r hr hfamily
    · obtain ⟨j, hj, hid⟩ := h.drawn
      have hsame : k = j := hids (hfamily.trans hid)
      omega
  | @rotated grant now randoms row hrotated =>
    obtain ⟨spentAt, s₁, hspent, hissued⟩ := hrotated.issued
    obtain ⟨id, -, hrows⟩ := hissued.refresh
    rw [hrows, hspent.refresh, List.mem_append, List.mem_singleton] at hr
    rcases hr with hr | rfl
    · obtain ⟨r₀, hr₀, rfl⟩ := List.mem_map.mp hr
      unfold spendRow at hfamily ⊢
      split_ifs at hfamily ⊢ with hid
      · exact h.revoked r₀ hr₀ hfamily
      · exact h.revoked r₀ hr₀ hfamily
    · have hrevoked := h.revoked row hrotated.presented.stored hfamily
      rw [hrotated.presented.unrevoked] at hrevoked
      cases hrevoked

theorem ended_run {family : Uuid} (hids : Function.Injective fun k => (st.world.inputs k).id)
    (h : Ended st.world family) (events : List GrantEvent) :
    Ended (runAll (GrantState.step config) st events).world family := by
  induction events generalizing st with
  | nil => exact h
  | cons e events ih =>
    refine ih ?_ (h.step hids e)
    rw [(step_advances e : Advances st.world (st.step config e).world).inputs]
    exact hids

/-- A revoked token is exchanged for nothing. -/
theorem refresh_revoked {row : OAuthRefreshToken} {grant : TokenRefreshGrant}
    (hrow : row ∈ st.world.store.oauthRefreshTokens.rows) (hrevoked : row.revokedAt.isSome)
    (hhash : row.tokenHash = AuthPlatform.sha256 grant.refreshToken) (now : Instant)
    (randoms : TokenRandoms) (response : TokenResponse) :
    (st.token config (.refreshToken grant) now randoms).1 ≠ .ok response := by
  unfold GrantState.token GrantState.after
  rcases ht : transact (TokenService.token config (.refreshToken grant) now randoms) st.world with
    ⟨e | r, w'⟩
  · simp [thrownAfter, Except.bind]
  rcases runs_refreshTokenGrant (transact_ok_iff.mp ht) with ⟨rfl, -⟩ | ⟨-, row', hrotated⟩
  · simp [thrownAfter, Except.bind, Except.mapError]
  · have hsame : row' = row :=
      refresh_of_hash hrotated.presented.stored hrow (hrotated.presented.hash.trans hhash.symm)
    rw [← hsame, hrotated.presented.unrevoked] at hrevoked
    cases hrevoked

/-- No response is given for a token of a family that has ended. -/
theorem Ended.refused {row : OAuthRefreshToken} {grant : TokenRefreshGrant}
    (h : Ended st.world row.familyId) (hrow : row ∈ st.world.store.oauthRefreshTokens.rows)
    (hhash : row.tokenHash = AuthPlatform.sha256 grant.refreshToken) (now : Instant)
    (randoms : TokenRandoms) (response : TokenResponse) :
    (st.token config (.refreshToken grant) now randoms).1 ≠ .ok response :=
  refresh_revoked hrow (h.revoked row hrow rfl) hhash now randoms response

end endings

end AiKanban.Invariants.Grants
