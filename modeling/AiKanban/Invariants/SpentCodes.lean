import AiKanban.Effects.Issuance
import AiKanban.Transactions.Failures
import AiKanban.Transitions.Runs

/-!
# Authorization codes

A code is presented once. Whatever the first answer was, it is gone.
-/
namespace AiKanban.Invariants.Grants

open Domain Db Effects Effects.Grants Relational Server Transactions Transitions
open Application

section platform

variable [OAuthPlatform] {config : OAuthConfig} {st : GrantState} {codeHash : String}

/-- The event draws a code with the digest. -/
def Mints (codeHash : String) : GrantEvent → Prop
  | .authorize _ _ _ random => (mintSecret "" random).hash = codeHash
  | _ => False

def Absent (codeHash : String) (s : Store) : Prop :=
  ∀ code ∈ s.oauthAuthorizationCodes.rows, code.codeHash ≠ codeHash

/-- A code that is not there comes from an authorization only. -/
theorem Absent.step (h : Absent codeHash st.world.store) {e : GrantEvent}
    (he : ¬ Mints codeHash e) : Absent codeHash (st.step config e).world.store := by
  intro code hcode
  cases (step_effect e : GrantEffect config st (st.step config e) e) with
  | waned hwanes => exact h code (hwanes.codes code hcode)
  | authorized hauthorized =>
    rw [hauthorized.codes, List.mem_append, List.mem_singleton] at hcode
    rcases hcode with hcode | rfl
    · exact h code hcode
    · exact he
  | exchanged hexchanged =>
    obtain ⟨k, -, -, hissued⟩ := hexchanged.issued
    rw [hissued.codes] at hcode
    exact h code (Table.mem_remove.mp hcode).1
  | rotated hrotated =>
    obtain ⟨spentAt, s₁, hspent, hissued⟩ := hrotated.issued
    rw [hissued.codes, hspent.codes] at hcode
    exact h code hcode

theorem absent_run (h : Absent codeHash st.world.store) {events : List GrantEvent}
    (hevents : ∀ e ∈ events, ¬ Mints codeHash e) :
    Absent codeHash (runAll (GrantState.step config) st events).world.store := by
  induction events generalizing st with
  | nil => exact h
  | cons e events ih =>
    exact ih (h.step (hevents e (by simp))) fun e' he' => hevents e' (by simp [he'])

def invalidCode : OAuthError := ⟨.invalidGrant, "invalid or used authorization code"⟩

/-- A code that is not there is refused. -/
theorem Absent.refused {grant : TokenCodeGrant}
    (h : Absent (AuthPlatform.sha256 grant.code) st.world.store) (hparse : grant.parse = .ok grant)
    (now : Instant) (randoms : TokenRandoms) :
    (st.token config (.authorizationCode grant) now randoms).1 = .error (.protocol invalidCode) := by
  have hfind : st.world.store.oauthAuthorizationCodes.find? (AuthPlatform.sha256 grant.code) = none :=
    Table.find?_eq_none_iff.mpr h
  have hconsume : Runs (OAuthAuthorizationCodeRepository.consume (AuthPlatform.sha256 grant.code))
      st.world none st.world := by
    refine runs_deleteReturning_iff.mpr ?_
    rw [show (HasTable.table st.world.store : Table OAuthAuthorizationCode).find?
      (AuthPlatform.sha256 grant.code) = none from hfind]
    exact ⟨rfl, rfl⟩
  have hruns : Runs (TokenService.authorizationCodeGrant config grant now randoms) st.world
      (.error invalidCode) st.world := by
    rw [authorizationCodeGrant_eq]
    refine runs_bind_iff.mpr ⟨grant, _, runs_checked_iff.mpr ⟨hparse, rfl⟩, ?_⟩
    refine runs_bind_iff.mpr ⟨none, st.world, runs_selectKey_iff.mpr ⟨hfind.symm, rfl⟩, ?_⟩
    refine runs_bind_iff.mpr ⟨(), st.world, runs_pure_iff.mpr ⟨rfl, rfl⟩, ?_⟩
    exact runs_bind_iff.mpr ⟨none, st.world, hconsume, runs_pure_iff.mpr ⟨rfl, rfl⟩⟩
  have ht : transact (TokenService.token config (.authorizationCode grant) now randoms) st.world =
    (.ok (.error invalidCode), st.world) := transact_ok_iff.mpr hruns
  simp only [GrantState.token, GrantState.after, ht]
  rfl

/-- Nor does a request that the schema would not pass get a response. -/
theorem Absent.unanswered {grant : TokenCodeGrant}
    (h : Absent (AuthPlatform.sha256 grant.code) st.world.store) (now : Instant)
    (randoms : TokenRandoms) (response : TokenResponse) :
    (st.token config (.authorizationCode grant) now randoms).1 ≠ .ok response := by
  unfold GrantState.token GrantState.after
  rcases ht : transact (TokenService.token config (.authorizationCode grant) now randoms) st.world with
    ⟨e | r, w'⟩
  · simp [thrownAfter, Except.bind]
  rcases runs_authorizationCodeGrant (transact_ok_iff.mp ht) with ⟨⟨e, rfl⟩, -⟩ | ⟨-, code, hexchanged⟩
  · simp [thrownAfter, Except.bind, Except.mapError]
  · exact absurd hexchanged.hash (h code hexchanged.stored)

/-- No protocol error is thrown inside the unit of work; they are all returned from it. -/
theorem fails_authorizationCodeGrant (raw : TokenCodeGrant) (now : Instant) (randoms : TokenRandoms) :
    (TokenService.authorizationCodeGrant config raw now randoms).Fails fun e => ∃ d, e = .domain d := by
  have hselect : ∀ {ρ κ : Type} [Row ρ κ] [DecidableEq κ] [HasTable Store Write ρ] (k : κ),
      (selectKey k : OAuthTx (Option ρ)).Fails fun e => ∃ d, e = .domain d :=
    fun k => Program.fails_read _
  have hinsert : ∀ {ρ κ : Type} [Row ρ κ] [DecidableEq κ] [HasTable Store Write ρ] (row : ρ),
      (insertOAuth row).Fails fun e => ∃ d, e = .domain d := by
    intro ρ κ _ _ _ row
    refine Program.fails_write fun v e he => ?_
    split_ifs at he <;> cases he <;> exact ⟨_, rfl⟩
  have hid : (OAuthTx.newId).Fails fun e => ∃ d, e = .domain d :=
    Program.fails_input.bind fun _ => trivial
  rw [authorizationCodeGrant_eq]
  refine Program.Fails.bind ?_ fun grant => (hselect _).bind fun pending => ?_
  · unfold OAuthTx.checked
    cases raw.parse with
    | ok grant => trivial
    | error e => exact ⟨e, rfl⟩
  refine Program.Fails.bind ?_ fun _ => ?_
  · cases pending with
    | none => trivial
    | some row => exact (hselect _).bind fun _ => trivial
  have hconsume : (OAuthAuthorizationCodeRepository.consume (AuthPlatform.sha256 grant.code)).Fails
      fun e => ∃ d, e = .domain d := Program.fails_stmt fun _ => Program.fails_pure _
  refine hconsume.bind fun found => ?_
  cases found with
  | none => trivial
  | some code =>
    dsimp only
    cases TokenService.codeViolation grant code now with
    | some error => trivial
    | none =>
      refine hid.bind fun _ => (hselect _).bind fun credentials => ?_
      split_ifs
      · refine Program.Fails.map ?_ _
        refine hid.bind fun _ => hid.bind fun _ => ?_
        exact (hinsert _).bind fun _ => (hinsert _).bind fun _ => trivial
      · trivial

/-- Unless the schema or the database stands against the request, the code is gone after it. -/
theorem absent_after {grant : TokenCodeGrant} {now : Instant} {randoms : TokenRandoms}
    (hcommitted : ∀ e, (st.token config (.authorizationCode grant) now randoms).1 ≠ .error (.domain e)) :
    Absent (AuthPlatform.sha256 grant.code)
      (st.token config (.authorizationCode grant) now randoms).2.world.store := by
  have hgone : ∀ s : Store, Absent (AuthPlatform.sha256 grant.code)
      (withoutCode s (AuthPlatform.sha256 grant.code)) := by
    intro s code hcode
    simpa using (Table.mem_remove.mp hcode).2
  unfold GrantState.token GrantState.after at hcommitted ⊢
  rcases ht : transact (TokenService.token config (.authorizationCode grant) now randoms) st.world with
    ⟨e | r, w'⟩
  · obtain ⟨d, rfl⟩ := (fails_authorizationCodeGrant grant now randoms).transact ht
    rw [ht] at hcommitted
    exact absurd rfl (hcommitted d)
  · rcases runs_authorizationCodeGrant (transact_ok_iff.mp ht) with ⟨-, hstore⟩ | ⟨-, code, hexchanged⟩
    · rw [hstore]
      exact hgone _
    · obtain ⟨k, -, -, hissued⟩ := hexchanged.issued
      intro code' hcode'
      rw [hissued.codes, hexchanged.hash] at hcode'
      exact hgone st.world.store code' hcode'

/-- However the exchange of a code is answered, short of an error of the schema or of the database,
the code is refused from then on: whatever happens in between, short of another code with the same
digest being drawn, nobody exchanges it again. -/
theorem code_redeemed_once (config : OAuthConfig) (st : GrantState) (grant grant' : TokenCodeGrant)
    (now now' : Instant) (randoms randoms' : TokenRandoms) (between : List GrantEvent)
    (hcommitted : ∀ e, (st.token config (.authorizationCode grant) now randoms).1 ≠ .error (.domain e))
    (hmints : ∀ e ∈ between, ¬ Mints (AuthPlatform.sha256 grant.code) e)
    (hcode : grant'.code = grant.code) (hparse : grant'.parse = .ok grant') :
    ((runAll (GrantState.step config) (st.token config (.authorizationCode grant) now randoms).2
      between).token config (.authorizationCode grant') now' randoms').1 =
        .error (.protocol invalidCode) := by
  have habsent : Absent (AuthPlatform.sha256 grant.code) (runAll (GrantState.step config)
    (st.token config (.authorizationCode grant) now randoms).2 between).world.store :=
    absent_run (absent_after hcommitted) hmints
  rw [← hcode] at habsent
  exact habsent.refused hparse now' randoms'

end platform

/-- A code that was exchanged is presented once more. -/
theorem code_redeemed_once_sample :
    let grant : TokenCodeGrant :=
      ⟨"code", "verifier", "agent", "https://agent.example/callback", none⟩
    let st := runAll (@GrantState.step sampleOAuthPlatform sampleOAuthConfig)
      (GrantState.start sampleTicks) (sampleGrants.take 2)
    (@GrantState.token sampleOAuthPlatform sampleOAuthConfig
      (@GrantState.token sampleOAuthPlatform sampleOAuthConfig st (.authorizationCode grant) 7000
        ⟨"a1", "r1"⟩).2 (.authorizationCode grant) 8000 ⟨"a2", "r2"⟩).1 =
      .error (.protocol invalidCode) := by
  intro grant st
  have hok : (@GrantState.token sampleOAuthPlatform sampleOAuthConfig st (.authorizationCode grant) 7000
      ⟨"a1", "r1"⟩).1.isOk = true := by
    decide +kernel
  refine @code_redeemed_once sampleOAuthPlatform sampleOAuthConfig st grant grant 7000 8000
    ⟨"a1", "r1"⟩ ⟨"a2", "r2"⟩ [] (fun e he => ?_) (by simp) rfl rfl
  rw [he] at hok
  cases hok

end AiKanban.Invariants.Grants
