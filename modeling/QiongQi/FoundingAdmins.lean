import Mathlib.Data.List.Nodup
import QiongQi.AuthSessions

/-! The users of `AuthService`. `register` looks for the email among all of them, `initialize` only
for an admin, and `login` takes the first one with the email. -/
namespace QiongQi.FoundingAdmins
open Machines RuntimeContracts AuthSessions
open List hiding after below

/-- `initialize`, `register` and `login`. -/
def isEntry : AuthRequest → Bool
  | .initializeStore _ _ | .register _ _ | .login _ _ => true
  | _ => false

/-- The calls are entries, and an `initialize` that saves its admin finds no user with the email. -/
def fair (service : AuthService) (world : World) : Action → Bool
  | .request request => isEntry request
  | .advance number _ _ _ =>
    match world.calls[number]? with
    | some ⟨.initializeStore email _, .saving _ _⟩ =>
      world.store.users.all fun user => some user.email ≠ normalizeEmail service email
    | _ => true

/-- What the users come to, and the calls of `initialize` that have succeeded. -/
structure Founded (service : AuthService) (world : World) : Prop where
  locked : Locked service world
  entries : ∀ call ∈ world.calls, isEntry call.request
  emails : (world.store.users.map UserRecord.email).Nodup
  active : ∀ user ∈ world.store.users, user.status = .active
  single : ∀ one ∈ world.store.users, ∀ two ∈ world.store.users,
    one.role = .admin → two.role = .admin → one.id = two.id
  founders : ∀ (number : Nat) email password,
    world.calls[number]? = some ⟨.initializeStore email password, .returned⟩ →
      ∃ user ∈ world.store.users, user.id = number ∧ user.role = .admin

variable {service : AuthService} {world next : World} {number : Nat} {request : AuthRequest}
variable {now : Int} {salt : Nat} {fails : Bool} {phase : Phase} {work : Work}
variable {snapshot saved : AuthSnapshot} {email password : String} {user : UserRecord}

/-- A call saves the snapshot with a session, and maybe with a user, of its own. -/
inductive Adds (service : AuthService) (number : Nat) (snapshot saved : AuthSnapshot) :
    AuthRequest → Work → Prop
  | user {asked role email password address user now}
      (normal : normalizeEmail service email = some address)
      (free : isTaken snapshot address role = false) (id : user.id = number)
      (address_ : user.email = address) (role_ : user.role = role) (active : user.status = .active)
      (users : saved.users = snapshot.users ++ [user])
      (sessions : saved.sessions = snapshot.sessions ++ [createSession service number number now])
      (own : asked.work = some (.addUser role email password)) :
      Adds service number snapshot saved asked (.addUser role email password)
  | session {email password userId now} (users : saved.users = snapshot.users)
      (sessions : saved.sessions = snapshot.sessions ++ [createSession service number userId now]) :
      Adds service number snapshot saved (.login email password) (.createSession userId)

theorem adds_of_perform (entry : isEntry request) (does : request.Does work)
    (performed : perform service number now salt snapshot work = some saved) :
    Adds service number snapshot saved request work := by
  obtain own | ⟨email, password, userId, rfl, rfl⟩ := does
  · have added : ∃ role email password, work = .addUser role email password := by
      cases request with
      | initializeStore | register =>
        cases own
        exact ⟨_, _, _, rfl⟩
      | login => cases own
      | changePassword | logout | verifyToken => cases entry
    obtain ⟨role, email, password, rfl⟩ := added
    simp only [perform, addUser, Option.bind_eq_bind, Option.bind_eq_some_iff] at performed
    obtain ⟨address, normal, performed⟩ := performed
    split at performed
    · cases performed
    · rename_i free
      obtain ⟨accepted, -, performed⟩ := Option.bind_eq_some_iff.mp performed
      cases performed
      exact .user normal (by simpa using free) rfl rfl rfl rfl rfl rfl own
  · obtain ⟨fresh, found, rfl⟩ := Option.map_eq_some_iff.mp performed
    refine .session rfl (?_ : _ = snapshot.sessions ++ [createSession service number userId now])
    rw [(findActive_some found).2]

/-- A step of a call: it saves, or the store stays as it is and the call does not return. -/
theorem advance_store (advanced : advance service world number now salt fails request phase =
      some (next, after)) :
    next.calls = world.calls ∧ (next.store = world.store ∧ after ≠ .returned ∨
      ∃ work saved, phase = .saving work saved ∧ next.store = saved ∧ after = .returned) := by
  unfold advance at advanced
  split at advanced
  · cases advanced
    exact ⟨rfl, .inl ⟨rfl, nofun⟩⟩
  · cases advanced
    exact ⟨rfl, .inl ⟨rfl, nofun⟩⟩
  · split at advanced <;> cases advanced <;> exact ⟨rfl, .inl ⟨rfl, nofun⟩⟩
  · split at advanced <;> cases advanced
    exact ⟨rfl, .inl ⟨rfl, nofun⟩⟩
  · split at advanced <;> cases advanced <;> exact ⟨rfl, .inl ⟨rfl, nofun⟩⟩
  · split at advanced <;> cases advanced
    · exact ⟨rfl, .inl ⟨rfl, nofun⟩⟩
    · exact ⟨rfl, .inr ⟨_, _, rfl, rfl, rfl⟩⟩
  · cases advanced

section
variable (founded : Founded service world)
include founded

/-- The same with the calls: the other calls stay as they are, and what is saved adds to the
store. -/
theorem step_advance (stepped : step service world (.advance number now salt fails) = some next) :
    Locked service next ∧ ∃ call after, world.calls[number]? = some call ∧
      next.calls = world.calls.set number ⟨call.request, after⟩ ∧
      (next.store = world.store ∧ after ≠ .returned ∨ ∃ work, call.phase = .saving work next.store ∧
        after = .returned ∧ Adds service number world.store next.store call.request work) := by
  simp only [step] at stepped
  split at stepped
  · cases stepped
  · rename_i call found
    split at stepped
    · cases stepped
    · rename_i later after advanced
      cases stepped
      refine ⟨locked_advance founded.locked found advanced, ?_⟩
      obtain ⟨calls, kept | ⟨work, saved, saving, store, rfl⟩⟩ := advance_store advanced
      · exact ⟨call, after, found, by rw [calls], .inl kept⟩
      · have held := founded.locked number call found
        rw [saving] at held
        obtain ⟨does, -, now, salt, performed⟩ := held
        have adds :=
          adds_of_perform (founded.entries call (mem_of_getElem? found)) does performed
        refine ⟨call, _, found, by rw [calls], .inr ⟨work, ?_, rfl, ?_⟩⟩
        · rw [saving, ← store]
        · rw [← store] at adds
          exact adds

theorem founded_begin (entry : isEntry request) : Founded service (begin world request) := by
  obtain ⟨phase, moved, calls, store⟩ : ∃ phase, phase ≠ .returned ∧
      (begin world request).calls = world.calls ++ [⟨request, phase⟩] ∧
      (begin world request).store = world.store := by
    unfold begin
    split
    · exact ⟨.waiting _, nofun, rfl, rfl⟩
    · exact ⟨.loading, nofun, rfl, rfl⟩
  refine ⟨locked_begin founded.locked request, ?_, by rw [store]; exact founded.emails,
    by rw [store]; exact founded.active, by rw [store]; exact founded.single, ?_⟩
  · rw [calls]
    exact forall_mem_append.mpr ⟨founded.entries, forall_mem_singleton.mpr entry⟩
  · intro number email password found
    rw [calls] at found
    rw [store]
    obtain old | last := mem_append.mp (mem_of_getElem? found)
    · by_cases below : number < world.calls.length
      · rw [getElem?_append_left below] at found
        exact founded.founders number email password found
      · rw [getElem?_append_right (by omega)] at found
        have same := mem_singleton.mp (mem_of_getElem? found)
        exact absurd (congrArg Call.phase same).symm moved
    · exact absurd (congrArg Call.phase (mem_singleton.mp last)).symm moved

/-- A user that is saved has an email of its own, and is the only admin if it is one. -/
theorem founded_user (email : user.email ∉
      world.store.users.map UserRecord.email) (active : user.status = .active)
    (alone : user.role = .admin → ∀ other ∈ world.store.users, other.role ≠ .admin) :
    ((world.store.users ++ [user]).map UserRecord.email).Nodup ∧
      (∀ one ∈ world.store.users ++ [user], one.status = .active) ∧
      ∀ one ∈ world.store.users ++ [user], ∀ two ∈ world.store.users ++ [user],
        one.role = .admin → two.role = .admin → one.id = two.id := by
  refine ⟨?_, forall_mem_append.mpr ⟨founded.active, forall_mem_singleton.mpr active⟩, ?_⟩
  · rw [map_append, map_singleton, ← concat_eq_append]
    exact List.Nodup.concat email founded.emails
  · intro one first two second admin admin'
    obtain old | last := mem_append.mp first
    · obtain old' | last' := mem_append.mp second
      · exact founded.single one old two old' admin admin'
      · rw [mem_singleton.mp last'] at admin'
        exact absurd admin (alone admin' one old)
    · rw [mem_singleton.mp last] at admin ⊢
      obtain old' | last' := mem_append.mp second
      · exact absurd admin' (alone admin two old')
      · rw [mem_singleton.mp last']

end

theorem founded_step (world : World) (action : Action) (next : World)
    (founded : Founded service world) (fairly : fair service world action = true)
    (stepped : step service world action = some next) : Founded service next := by
  cases action with
  | request request =>
    cases stepped
    exact founded_begin founded fairly
  | advance number now salt fails =>
    obtain ⟨locked, call, after, found, calls, moved⟩ := step_advance founded stepped
    have entries : ∀ call ∈ next.calls, isEntry call.request := by
      rw [calls]
      intro other held
      obtain old | rfl := mem_or_eq_of_mem_set held
      · exact founded.entries other old
      · exact founded.entries call (mem_of_getElem? found)
    -- A call of `initialize` that has returned before stays with its admin.
    have old : ∀ (other : Nat) email password, other ≠ number →
        next.calls[other]? = some ⟨.initializeStore email password, .returned⟩ →
          ∃ user ∈ world.store.users, user.id = other ∧ user.role = .admin := by
      intro other email password apart held
      rw [calls, getElem?_set_ne apart.symm] at held
      exact founded.founders other email password held
    have own : next.calls[number]? = some ⟨call.request, after⟩ := by
      rw [calls, List.getElem?_set_self (List.getElem?_eq_some_iff.mp found).1]
    obtain ⟨store, away⟩ | ⟨work, saving, rfl, adds⟩ := moved
    · refine ⟨locked, entries, by rw [store]; exact founded.emails,
        by rw [store]; exact founded.active, by rw [store]; exact founded.single, ?_⟩
      intro other email password held
      rw [store]
      by_cases same : other = number
      · rw [same, own] at held
        exact absurd (congrArg Call.phase (Option.some.inj held)) away
      · exact old other email password same held
    · obtain ⟨request, phase⟩ := call
      cases adds with
      | user normal free id address_ role_ active users sessions does =>
        rename_i role email password address user clock
        have new : user.email ∉ world.store.users.map UserRecord.email := by
          rw [address_]
          intro taken
          obtain ⟨other, member, same⟩ := mem_map.mp taken
          cases role with
          | user => simpa [same] using any_eq_false.mp free other member
          | admin =>
            obtain rfl : request = .initializeStore email password := by
              cases request <;> cases does
              rfl
            obtain rfl : phase = _ := saving
            simp only [fair, found, all_eq_true] at fairly
            simpa [same, normal] using fairly other member
        have alone : user.role = .admin → ∀ other ∈ world.store.users, other.role ≠ .admin := by
          rw [role_]
          rintro rfl other member
          simpa using any_eq_false.mp free other member
        obtain ⟨emails, actives, single⟩ := founded_user founded new active alone
        refine ⟨locked, entries, by rwa [users], by rwa [users], by rwa [users], ?_⟩
        intro other email' password' held
        rw [users]
        by_cases same : other = number
        · rw [same, own] at held
          obtain rfl : request = .initializeStore email' password' :=
            congrArg Call.request (Option.some.inj held)
          cases does
          exact ⟨user, mem_append_right _ mem_cons_self, id.trans same.symm, role_⟩
        · obtain ⟨founder, member, known⟩ := old other email' password' same held
          exact ⟨founder, mem_append_left _ member, known⟩
      | session users sessions =>
        refine ⟨locked, entries, by rw [users]; exact founded.emails,
          by rw [users]; exact founded.active, by rw [users]; exact founded.single, ?_⟩
        intro other email' password' held
        rw [users]
        by_cases same : other = number
        · rw [same, own] at held
          cases congrArg Call.request (Option.some.inj held)
        · exact old other email' password' same held

def HasSession (snapshot : AuthSnapshot) (number : Nat) (user : UserRecord) : Prop :=
  ∃ session ∈ snapshot.sessions, session.token = number ∧ session.userId = user.id

/-- Where a login stands that will return a session of the user. -/
def Serves (service : AuthService) (world : World) (number : Nat) (email password : String)
    (user : UserRecord) : Phase → Prop
  | .verifying snapshot => authenticate service email password snapshot = some user
  | .waiting work | .working work _ => work = .createSession user.id
  | .saving work saved => work = .createSession user.id ∧ HasSession saved number user
  | .returned => HasSession world.store number user
  | .loading | .answered _ | .thrown => False

structure LogsIn (service : AuthService) (world : World) (number : Nat) (email password : String)
    (user : UserRecord) (phase : Phase) : Prop where
  found : world.calls[number]? = some ⟨.login email password, phase⟩
  stored : user ∈ world.store.users
  serves : Serves service world number email password user phase

/-- The save of the call does not fail. -/
def Saves (number : Nat) : Action → Prop
  | .advance other _ _ fails => other = number → fails = false
  | .request _ => True

theorem authenticate_user (founded : Founded service world) (held : user ∈ world.store.users)
    (normal : normalizeEmail service email = some user.email)
    (verified : service.passwords.verify password user.passwordHash = true) :
    authenticate service email password world.store = some user := by
  have found : world.store.users.find?
      (fun item => item.email = user.email && item.status = .active) = some user := by
    cases first : world.store.users.find? fun item =>
        item.email = user.email && item.status = .active with
    | none => exact absurd (founded.active user held) (by
        simpa using find?_eq_none.mp first user held)
    | some other =>
      have same : other.email = user.email := by
        have test := find?_some first
        simp only [Bool.and_eq_true, decide_eq_true_eq] at test
        exact test.1
      exact congrArg some (inj_on_of_nodup_map founded.emails
        (mem_of_find?_eq_some first) held same)
  simp [authenticate, normal, found, verified]

theorem Adds.grows (adds : Adds service number snapshot saved request work) :
    snapshot.users ⊆ saved.users ∧ snapshot.sessions ⊆ saved.sessions := by
  cases adds with
  | user _ _ _ _ _ _ users sessions =>
    rw [users, sessions]
    exact ⟨subset_append_left _ _, subset_append_left _ _⟩
  | session users sessions =>
    rw [users, sessions]
    exact ⟨List.Subset.refl _, subset_append_left _ _⟩

theorem LogsIn.moved (logs : LogsIn service world number email password user phase)
    (found : next.calls[number]? = some ⟨.login email password, phase⟩)
    (users : world.store.users ⊆ next.store.users)
    (sessions : world.store.sessions ⊆ next.store.sessions) :
    LogsIn service next number email password user phase := by
  refine ⟨found, users logs.stored, ?_⟩
  have serves := logs.serves
  cases phase with
  | returned =>
    obtain ⟨session, held, own⟩ := serves
    exact ⟨session, sessions held, own⟩
  | verifying | waiting | working | saving => exact serves
  | loading | answered | thrown => cases serves

section
variable (founded : Founded service world)
include founded

theorem perform_session (held : user ∈ world.store.users)
    (now : Int) (salt : Nat) : ∃ saved, perform service number now salt world.store
      (.createSession user.id) = some saved ∧ HasSession saved number user := by
  have present : (findActive world.store user.id).isSome = true := by
    rw [findActive, find?_isSome]
    exact ⟨user, held, by simp [founded.active user held]⟩
  obtain ⟨fresh, found⟩ := Option.isSome_iff_exists.mp present
  refine ⟨_, by rw [perform, found]; rfl, _, mem_append_right _ mem_cons_self, rfl, ?_⟩
  exact (findActive_some found).2

/-- The call can go on unless it has returned or waits behind others, and it stays a login of the
user. -/
theorem logsIn_own
    (logs : LogsIn service world number email password user phase) (now : Int) (salt : Nat) :
    (phase = .returned ∨ (∃ work, phase = .waiting work ∧ world.queue.head? ≠ some number) ∨
      (step service world (.advance number now salt false)).isSome = true) ∧
    ∀ next, step service world (.advance number now salt false) = some next →
      ∃ after, LogsIn service next number email password user after := by
  obtain ⟨found, stored, serves⟩ := logs
  have held := founded.locked number _ found
  have own : ∀ after : Phase, (world.calls.set number ⟨.login email password, after⟩)[number]? =
      some ⟨.login email password, after⟩ :=
    fun after => List.getElem?_set_self (List.getElem?_eq_some_iff.mp found).1
  cases phase with
  | verifying snapshot =>
    have serves : authenticate service email password snapshot = some user := serves
    simp only [step, found, advance, serves]
    refine ⟨.inr (.inr rfl), ?_⟩
    rintro _ ⟨⟩
    exact ⟨.waiting _, own _, stored, rfl⟩
  | waiting work =>
    simp only [step, found, advance]
    by_cases first : world.queue.head? = some number
    · simp only [first, if_true]
      refine ⟨.inr (.inr rfl), ?_⟩
      rintro _ ⟨⟩
      exact ⟨.working _ _, own _, stored, serves⟩
    · simp only [first, if_false]
      refine ⟨.inr (.inl ⟨work, rfl, first⟩), fun _ stepped => ?_⟩
      cases stepped
  | working work snapshot =>
    obtain rfl : work = .createSession user.id := serves
    obtain ⟨-, -, rfl⟩ := held
    obtain ⟨saved, performed, session⟩ := @perform_session _ _ number _ founded stored now salt
    simp only [step, found, advance, performed]
    refine ⟨.inr (.inr rfl), ?_⟩
    rintro _ ⟨⟩
    exact ⟨.saving _ _, own _, stored, rfl, session⟩
  | saving work saved =>
    obtain ⟨rfl, session⟩ := serves
    obtain ⟨does, -, now, salt, performed⟩ := held
    simp only [step, found, advance, Bool.false_eq_true, if_false]
    refine ⟨.inr (.inr rfl), ?_⟩
    rintro _ ⟨⟩
    have entry := founded.entries _ (mem_of_getElem? found)
    exact ⟨.returned, own _, (adds_of_perform entry does performed).grows.1 stored, session⟩
  | returned => exact ⟨.inl rfl, by simp [step, found, advance]⟩
  | loading | answered | thrown => cases serves

theorem logsIn_step (logs : LogsIn service world number email password user phase)
    (saves : Saves number action) (stepped : step service world action = some next) :
    ∃ after, LogsIn service next number email password user after := by
  have below := (List.getElem?_eq_some_iff.mp logs.found).1
  cases action with
  | request request =>
    cases stepped
    have kept : (begin world request).store = world.store ∧
        (begin world request).calls[number]? = world.calls[number]? := by
      unfold begin
      split <;> exact ⟨rfl, getElem?_append_left below⟩
    refine ⟨phase, logs.moved (kept.2.trans logs.found) ?_ ?_⟩ <;> rw [kept.1]
    all_goals exact List.Subset.refl _
  | advance other now salt fails =>
    by_cases same : other = number
    · rw [saves same, same] at stepped
      exact (logsIn_own founded logs now salt).2 next stepped
    · obtain ⟨-, call, after, found, calls, moved⟩ := step_advance founded stepped
      have kept : next.calls[number]? = some ⟨.login email password, phase⟩ := by
        rw [calls, getElem?_set_ne same, logs.found]
      obtain ⟨store, -⟩ | ⟨work, -, -, adds⟩ := moved
      · refine ⟨phase, logs.moved kept ?_ ?_⟩ <;> rw [store]
        all_goals exact List.Subset.refl _
      · exact ⟨phase, logs.moved kept adds.grows.1 adds.grows.2⟩

theorem logsIn_load (found : world.calls[number]? = some ⟨.login email password, .loading⟩)
    (held : user ∈ world.store.users) (normal : normalizeEmail service email = some user.email)
    (verified : service.passwords.verify password user.passwordHash = true)
    (stepped : step service world (.advance number now salt fails) = some next) :
    LogsIn service next number email password user (.verifying world.store) := by
  simp only [step, found, advance] at stepped
  cases stepped
  exact ⟨List.getElem?_set_self (List.getElem?_eq_some_iff.mp found).1, held,
    authenticate_user founded held normal verified⟩

end

theorem logsIn_run : ∀ {world last : World} {phase : Phase},
    Founded service world → LogsIn service world number email password user phase →
      Along (step service) (fun world action => fair service world action = true) world later →
      (∀ action ∈ later, Saves number action) →
      runActions (step service) world later = some last →
        ∃ after, LogsIn service last number email password user after := by
  induction later with
  | nil =>
    intro world last phase _ logs _ _ ran
    cases ran
    exact ⟨phase, logs⟩
  | cons action rest ih =>
    intro world last phase founded logs along saves ran
    obtain ⟨here, saves⟩ := forall_mem_cons.mp saves
    rw [runActions] at ran
    split at ran
    · cases ran
    · rename_i next stepped
      obtain ⟨fairly, along⟩ := along
      rw [stepped] at along
      obtain ⟨after, logs⟩ := logsIn_step founded logs here stepped
      exact ih (founded_step world action next founded fairly stepped) logs along saves ran

/-- Where no admin takes an email that is registered, emails are distinct, `initialize` succeeds at
most once, and a login that has loaded a user with its email and password stays on the way to a
session of that user as long as its own save does not fail. -/
theorem users_founded (service : AuthService) (actions : List Action) (world : World)
    (ran : runActions (step service) {} actions = some world)
    (along :
      Along (step service) (fun world action => fair service world action = true) {} actions) :
    (world.store.users.map UserRecord.email).Nodup ∧
    (∀ (one two : Nat) email password email' password',
      world.calls[one]? = some ⟨.initializeStore email password, .returned⟩ →
      world.calls[two]? = some ⟨.initializeStore email' password', .returned⟩ → one = two) ∧
    ∀ (number : Nat) email password (user : UserRecord),
      world.calls[number]? = some ⟨.login email password, .loading⟩ → user ∈ world.store.users →
      normalizeEmail service email = some user.email →
      service.passwords.verify password user.passwordHash = true →
      ∀ now salt later last,
        runActions (step service) world (.advance number now salt false :: later) = some last →
        Along (step service) (fun world action => fair service world action = true) world
          (.advance number now salt false :: later) →
        (∀ action ∈ later, Saves number action) →
        ∃ phase, LogsIn service last number email password user phase ∧ ∀ now salt, phase = .returned ∨
            (∃ work, phase = .waiting work ∧ last.queue.head? ≠ some number) ∨
            (step service last (.advance number now salt false)).isSome = true := by
  have start : Founded service {} :=
    ⟨fun _ _ found => by simp at found, nofun, .nil, nofun, nofun, fun _ _ _ found => by simp at found⟩
  have founded := invariant_run founded_step actions start along ran
  refine ⟨founded.emails, ?_, ?_⟩
  · intro one two email password email' password' first second
    obtain ⟨user, held, rfl, admin⟩ := founded.founders one email password first
    obtain ⟨other, held', rfl, admin'⟩ := founded.founders two email' password' second
    exact founded.single user held other held' admin admin'
  · intro number email password user found held normal verified now salt later last goes along saves
    rw [runActions] at goes
    split at goes
    · cases goes
    · rename_i next stepped
      have logs := logsIn_load founded found held normal verified stepped
      obtain ⟨fairly, along⟩ := along
      rw [stepped] at along
      have next_founded := founded_step world _ next founded fairly stepped
      obtain ⟨phase, logs⟩ := logsIn_run next_founded logs along saves goes
      have last_founded := invariant_run founded_step later next_founded along goes
      exact ⟨phase, logs, fun now salt => (logsIn_own last_founded logs now salt).1⟩

/-- Hashes that show their passwords. -/
def shownPasswords : Passwords where
  hash := fun password _ => password
  verify := fun password stored => password = stored
  verify_hash := fun _ _ _ => decide_eq_true_iff

def shownService : AuthService := ⟨shownPasswords, id, 1000⟩

/-- A call that runs alone, and does so to its end. -/
def whole (number : Nat) (request : AuthRequest) : List Action :=
  .request request :: List.replicate 3 (.advance number 0 0 false)

def adminThenUser : List Action :=
  whole 0 (.initializeStore "a@b.c" "password-1") ++ whole 1 (.register "d@e.f" "password-2")

theorem users_founded_two : ∃ world, runActions (step shownService) {} adminThenUser = some world ∧
    world.store.users.length = 2 ∧ (world.store.users.map UserRecord.email).Nodup := by
  have ran : ∃ world, runActions (step shownService) {} adminThenUser = some world ∧
      world.store.users.length = 2 := by
    decide
  obtain ⟨world, ran, two⟩ := ran
  have along : Along (step shownService) (fun world action => fair shownService world action = true)
      {} adminThenUser := by
    decide
  exact ⟨world, ran, two, (users_founded shownService adminThenUser world ran along).1⟩

/-- A user registers with the email before the admin does: the admin cannot log in. -/
theorem admin_locked_out : ∃ world, runActions (step shownService) {}
      (whole 0 (.register "a@b.c" "password-1") ++ whole 1 (.initializeStore "a@b.c" "password-2") ++
        [.request (.login "a@b.c" "password-2"), .advance 2 0 0 false, .advance 2 0 0 false]) =
        some world ∧
      world.store.users.map UserRecord.email = ["a@b.c", "a@b.c"] ∧
      world.calls.map Call.phase = [.returned, .returned, .thrown] := by
  decide

end QiongQi.FoundingAdmins
