import QiongQi.FoundingAdmins

/-! `logout` beside the other calls of `AuthService`: a token whose logout has returned is never
accepted again. -/
namespace QiongQi.AuthLogouts
open AuthSessions FoundingAdmins Machines
open List hiding after

variable {service : AuthService} {world next : World} {number token : Nat} {now : Int}

def Returned (world : World) (number : Nat) : Prop :=
  ∃ call, world.calls[number]? = some call ∧ call.phase = .returned

/-- A step leaves the store as it is, or a call that has not returned yet saves it. -/
theorem step_saves (locked : Locked service world) (stepped : step service world action = some next) :
    Locked service next ∧ (∀ number, Returned world number → Returned next number) ∧
      (next.store = world.store ∨ ∃ number work now salt, ¬ Returned world number ∧
        perform service number now salt world.store work = some next.store) := by
  cases action with
  | request request =>
    cases stepped
    refine ⟨locked_begin locked request, fun number done => ?_, .inl ?_⟩
    · obtain ⟨call, found, returned⟩ := done
      have bound := (List.getElem?_eq_some_iff.mp found).1
      unfold begin
      split <;> exact ⟨call, (getElem?_append_left bound).trans found, returned⟩
    · unfold begin
      split <;> rfl
  | advance number now salt fails =>
    simp only [step] at stepped
    split at stepped
    · cases stepped
    rename_i call found
    split at stepped
    · cases stepped
    rename_i after phase advanced
    cases stepped
    obtain ⟨calls, effect⟩ := advance_store advanced
    have running : ¬ Returned world number := by
      rintro ⟨again, held, done⟩
      rw [found] at held
      cases held
      rw [done] at advanced
      cases kind : call.request <;> rw [kind] at advanced <;> cases advanced
    refine ⟨locked_advance locked found advanced, fun other done => ?_, ?_⟩
    · have apart : number ≠ other := by
        rintro rfl
        exact running done
      obtain ⟨old, held, returned⟩ := done
      refine ⟨old, ?_, returned⟩
      show (after.calls.set number _)[other]? = _
      rw [getElem?_set_ne apart, calls, held]
    · rcases effect with ⟨store, -⟩ | ⟨work, saved, saving, rfl, -⟩
      · exact .inl store
      · have own := locked number call found
        rw [saving] at own
        obtain ⟨-, -, clock, drawn, performed⟩ := own
        exact .inr ⟨number, work, clock, drawn, running, performed⟩

/-- A saved session is the call's own, or one that was there and is revoked if it was. -/
theorem perform_sessions
    (performed : perform service number now salt snapshot work = some saved)
    (held : session ∈ saved.sessions) : session.token = number ∨
      ∃ old ∈ snapshot.sessions, old.token = session.token ∧
        (old.revokedAt ≠ none → session.revokedAt ≠ none) := by
  obtain ⟨test, fresh, sessions, own⟩ : ∃ (test : SessionRecord → Bool) (fresh : List SessionRecord),
      saved.sessions = (snapshot.sessions.map fun old =>
        if test old then revokeSession now old else old) ++ fresh ∧
      ∀ session ∈ fresh, session.token = number := by
    cases work with
    | addUser role email password =>
      obtain ⟨user, -, -, sessions⟩ := addUser_some performed
      exact ⟨fun _ => false, _, by simpa using sessions, by simp [createSession]⟩
    | createSession userId =>
      obtain ⟨user, -, rfl⟩ := Option.map_eq_some_iff.mp performed
      exact ⟨fun _ => false, _, by simp; rfl, by simp [createSession]⟩
    | changePassword userId currentPassword newPassword =>
      obtain ⟨_, _, -, -, -, -, -, sessions⟩ := changePassword_some performed
      exact ⟨fun old => old.userId = userId, _, by simpa using sessions, by simp [createSession]⟩
    | logout other =>
      cases performed
      exact ⟨fun old => old.token = other, [], by simp [logout], by simp⟩
  rw [sessions] at held
  rcases mem_append.mp held with old | new
  · obtain ⟨before, heldBefore, rfl⟩ := mem_map.mp old
    refine .inr ⟨before, heldBefore, ?_, fun revoked => ?_⟩
    · unfold revokeSession
      split <;> try split
      all_goals rfl
    · split
      · exact revokeSession_revoked
      · exact revoked
  · exact .inl (own session new)

/-- The call that drew the token has returned, and all sessions of the token are revoked. -/
structure LoggedOut (service : AuthService) (token : Nat) (world : World) : Prop where
  locked : Locked service world
  given : Returned world token
  revoked : ∀ session ∈ world.store.sessions, session.token = token → session.revokedAt ≠ none

theorem loggedOut_step (world : World) (action : Action) (next : World)
    (out : LoggedOut service token world) (stepped : step service world action = some next) :
    LoggedOut service token next := by
  obtain ⟨locked, given, revoked⟩ := out
  obtain ⟨lockedNext, returned, store | ⟨number, work, clock, drawn, running, performed⟩⟩ :=
    step_saves locked stepped
  · exact ⟨lockedNext, returned token given, store ▸ revoked⟩
  · refine ⟨lockedNext, returned token given, fun session held named => ?_⟩
    rcases perform_sessions performed held with new | ⟨old, heldOld, same, keeps⟩
    · rw [← named, new] at given
      exact absurd given running
    · exact keeps (revoked old heldOld (same.trans named))

/-- In every interleaving, from the step in which the logout of a token returns, the token is not
accepted, whatever other calls are under way then or come later. -/
theorem logout_final (service : AuthService) (before later : List Action) (world next final : World)
    (number token salt : Nat) (now at_ : Int)
    (ran : runActions (step service) {} before = some world) (given : Returned world token)
    (saving : world.calls[number]? = some ⟨.logout token, .saving work saved⟩)
    (returns : step service world (.advance number at_ salt false) = some next)
    (ranOn : runActions (step service) next later = some final) :
    verifyToken now token final.store = none := by
  have locked : Locked service world :=
    invariant_always (fun _ _ _ locked stepped => (step_saves locked stepped).1) before
      (fun _ _ found => by simp at found) ran
  obtain ⟨lockedNext, returned, -⟩ := step_saves locked returns
  have begun : LoggedOut service token next := by
    refine ⟨lockedNext, returned token given, fun session held named => ?_⟩
    have own := locked number _ saving
    obtain ⟨direct | ⟨_, _, _, login, -⟩, -, clock, drawn, performed⟩ := own
    · simp only [step, saving] at returns
      cases direct
      cases performed
      cases returns
      obtain ⟨old, -, rfl⟩ := mem_map.mp held
      split
      · exact revokeSession_revoked
      · rename_i other
        rw [if_neg other] at named
        exact absurd named other
    · cases login
  have out := invariant_always loggedOut_step later begun ranOn
  refine Option.eq_none_iff_forall_ne_some.mpr fun user accepted => ?_
  obtain ⟨session, held, named, open_, -⟩ := verifyToken_some accepted
  exact out.revoked session held named open_

/-- A user registers, and logs out. -/
def logoutUnderWay : List Action := whole 0 (.register "a@b.c" "password-1") ++
  [.request (.logout 0), .advance 1 0 0 false, .advance 1 0 0 false]

theorem logout_final_registered :
    ∃ world next, runActions (step shownService) {} logoutUnderWay = some world ∧
      step shownService world (.advance 1 0 0 false) = some next ∧
      (verifyToken 5 0 world.store).isSome ∧ verifyToken 5 0 next.store = none := by
  refine ⟨_, _, rfl, rfl, by decide, ?_⟩
  exact logout_final shownService logoutUnderWay [] _ _ _ 1 0 0 5 0 rfl ⟨_, rfl, rfl⟩ rfl rfl rfl

end QiongQi.AuthLogouts
