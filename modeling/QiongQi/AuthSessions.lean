import QiongQi.Machines
import QiongQi.ThreadRecords

/-! `AuthService`: every call that saves the store runs under `withLock`, but `login` checks
the password on a snapshot of its own before it waits for the lock. -/
namespace QiongQi.AuthSessions
open Machines RuntimeContracts ThreadRecords
open List hiding after

inductive UserRole where
  | admin | user
  deriving DecidableEq

inductive UserStatus where
  | active | disabled
  deriving DecidableEq

/-- Random ids and tokens are the numbers of the calls that draw them. -/
structure UserRecord where
  id : Nat
  email : String
  passwordHash : String
  role : UserRole
  status : UserStatus
  createdAt : Int
  updatedAt : Int
  deriving DecidableEq

structure SessionRecord where
  token : Nat
  userId : Nat
  createdAt : Int
  expiresAt : Int
  revokedAt : Option Int := none
  deriving DecidableEq

structure AuthSnapshot where
  users : List UserRecord := []
  sessions : List SessionRecord := []
  deriving DecidableEq

/-- `hashPassword` with its salt, and `verifyPassword`. A hash is that of one password. -/
structure Passwords where
  hash : String → Nat → String
  verify : String → String → Bool
  verify_hash : ∀ password other salt, verify password (hash other salt) = true ↔ password = other

structure AuthService where
  passwords : Passwords
  toLowerCase : String → String
  sessionTtlMs : Int

/-- `/^[^@\s]+@[^@\s]+\.[^@\s]+$/`. -/
def isEmail (text : List Char) : Bool :=
  text.all (fun c => !isJsSpace c) && match text.splitOn '@' with
    | [name, domain] => name ≠ [] && (domain.drop 1).dropLast.contains '.'
    | _ => false

def normalizeEmail (service : AuthService) (email : String) : Option String :=
  let normalized := service.toLowerCase (jsTrim email)
  if isEmail normalized.toList then some normalized else none

def validatePassword (password : String) : Option String :=
  if jsLength password.toList < 8 then none else some password

def createSession (service : AuthService) (number userId : Nat) (now : Int) : SessionRecord where
  token := number
  userId := userId
  createdAt := now
  expiresAt := now + service.sessionTtlMs

inductive AuthRequest where
  | initializeStore (email password : String)
  | register (email password : String)
  | login (email password : String)
  | changePassword (userId : Nat) (currentPassword newPassword : String)
  | logout (token : Nat)
  | verifyToken (token : Nat)
  deriving DecidableEq

/-- What a call does under the lock. -/
inductive Work where
  | addUser (role : UserRole) (email password : String)
  | createSession (userId : Nat)
  | changePassword (userId : Nat) (currentPassword newPassword : String)
  | logout (token : Nat)
  deriving DecidableEq

def isTaken (snapshot : AuthSnapshot) (email : String) : UserRole → Bool
  | .admin => snapshot.users.any (·.role = .admin)
  | .user => snapshot.users.any (·.email = email)

/-- `initialize` and `register`. -/
def addUser (service : AuthService) (number : Nat) (now : Int) (salt : Nat) (role : UserRole)
    (email password : String) (snapshot : AuthSnapshot) : Option AuthSnapshot := do
  let email ← normalizeEmail service email
  if isTaken snapshot email role then none
  else do
    let password ← validatePassword password
    let user : UserRecord :=
      { id := number
        email := email
        passwordHash := service.passwords.hash password salt
        role := role
        status := .active
        createdAt := now
        updatedAt := now }
    some { users := snapshot.users ++ [user]
           sessions := snapshot.sessions ++ [createSession service number number now] }

def findActive (snapshot : AuthSnapshot) (userId : Nat) : Option UserRecord :=
  snapshot.users.find? fun user => user.id = userId && user.status = .active

def revokeSession (now : Int) (session : SessionRecord) : SessionRecord :=
  if session.revokedAt.isSome then session else { session with revokedAt := some now }

def changePassword (service : AuthService) (number : Nat) (now : Int) (salt userId : Nat)
    (currentPassword newPassword : String) (snapshot : AuthSnapshot) : Option AuthSnapshot := do
  let user ← findActive snapshot userId
  if service.passwords.verify currentPassword user.passwordHash then do
    let password ← validatePassword newPassword
    let updatedUser := { user with
      passwordHash := service.passwords.hash password salt
      updatedAt := now }
    some { users := snapshot.users.map fun item =>
             if item.id = updatedUser.id then updatedUser else item
           sessions := snapshot.sessions.map (fun session =>
             if session.userId = updatedUser.id then revokeSession now session else session) ++
               [createSession service number updatedUser.id now] }
  else none

/-- Where the token is not found, the snapshot is not saved; it is the store's own. -/
def logout (now : Int) (token : Nat) (snapshot : AuthSnapshot) : AuthSnapshot :=
  { snapshot with
    sessions := snapshot.sessions.map fun session =>
      if session.token = token then revokeSession now session else session }

/-- What a call saves for the snapshot that it has loaded under the lock, if it does not
throw. -/
def perform (service : AuthService) (number : Nat) (now : Int) (salt : Nat)
    (snapshot : AuthSnapshot) : Work → Option AuthSnapshot
  | .addUser role email password => addUser service number now salt role email password snapshot
  | .createSession userId =>
    (findActive snapshot userId).map fun freshUser =>
      { snapshot with
        sessions := snapshot.sessions ++ [createSession service number freshUser.id now] }
  | .changePassword userId currentPassword newPassword =>
    changePassword service number now salt userId currentPassword newPassword snapshot
  | .logout token => some (logout now token snapshot)

/-- The user that `login` has found and checked the password of. -/
def authenticate (service : AuthService) (email password : String) (snapshot : AuthSnapshot) :
    Option UserRecord := do
  let email ← normalizeEmail service email
  let user ← snapshot.users.find? fun item => item.email = email && item.status = .active
  if service.passwords.verify password user.passwordHash then some user else none

/-- The user whose token it is. -/
def verifyToken (now : Int) (token : Nat) (snapshot : AuthSnapshot) : Option UserRecord := do
  let session ← snapshot.sessions.find? (·.token = token)
  if session.revokedAt.isSome || session.expiresAt ≤ now then none
  else findActive snapshot session.userId

/-- Where a call stands. One that is `waiting` is in the queue of the lock. -/
inductive Phase where
  | loading
  | verifying (snapshot : AuthSnapshot)
  | waiting (work : Work)
  | working (work : Work) (snapshot : AuthSnapshot)
  | saving (work : Work) (next : AuthSnapshot)
  | answered (user : Option UserRecord)
  | returned
  | thrown
  deriving DecidableEq

structure Call where
  request : AuthRequest
  phase : Phase

/-- The first call of the queue has the lock, or is the next to get it. `changes` lists the
users whose password was changed with the calls that did so, the latest first. -/
structure World where
  store : AuthSnapshot := {}
  calls : List Call := []
  queue : List Nat := []
  changes : List (Nat × Nat) := []

inductive Action
  | request (request : AuthRequest)
  | advance (number : Nat) (now : Int) (salt : Nat) (fails : Bool)

/-- The work that a call takes the lock for at once. -/
def AuthRequest.work : AuthRequest → Option Work
  | .initializeStore email password => some (.addUser .admin email password)
  | .register email password => some (.addUser .user email password)
  | .changePassword userId currentPassword newPassword =>
    some (.changePassword userId currentPassword newPassword)
  | .logout token => some (.logout token)
  | .login _ _ | .verifyToken _ => none

def begin (world : World) (request : AuthRequest) : World :=
  match request.work with
  | some work =>
    { world with
      calls := world.calls ++ [⟨request, .waiting work⟩]
      queue := world.queue ++ [world.calls.length] }
  | none => { world with calls := world.calls ++ [⟨request, .loading⟩] }

def Work.changed (number : Nat) : Work → List (Nat × Nat)
  | .changePassword userId _ _ => [(userId, number)]
  | _ => []

/-- What a call does next. One that ends under the lock lets the next one have it; a save
that fails has saved nothing. -/
def advance (service : AuthService) (world : World) (number : Nat) (now : Int) (salt : Nat)
    (fails : Bool) : AuthRequest → Phase → Option (World × Phase)
  | .verifyToken token, .loading => some (world, .answered (verifyToken now token world.store))
  | .login _ _, .loading => some (world, .verifying world.store)
  | .login email password, .verifying snapshot =>
    match authenticate service email password snapshot with
    | none => some (world, .thrown)
    | some user =>
      some ({ world with queue := world.queue ++ [number] }, .waiting (.createSession user.id))
  | _, .waiting work =>
    if world.queue.head? = some number then some (world, .working work world.store) else none
  | _, .working work snapshot =>
    match perform service number now salt snapshot work with
    | none => some ({ world with queue := world.queue.tail }, .thrown)
    | some next => some (world, .saving work next)
  | _, .saving work next =>
    if fails then some ({ world with queue := world.queue.tail }, .thrown)
    else
      some ({ world with
        store := next
        queue := world.queue.tail
        changes := work.changed number ++ world.changes }, .returned)
  | _, _ => none

def step (service : AuthService) (world : World) : Action → Option World
  | .request request => some (begin world request)
  | .advance number now salt fails =>
    match world.calls[number]? with
    | none => none
    | some call =>
      match advance service world number now salt fails call.request call.phase with
      | none => none
      | some (next, phase) =>
        some { next with calls := next.calls.set number ⟨call.request, phase⟩ }

/-- The call that last changed the password of the user. -/
def lastChange (world : World) (userId : Nat) : Option Nat :=
  (world.changes.find? fun change => change.1 = userId).map (·.2)

def requestOf (world : World) (number : Nat) : Option AuthRequest :=
  world.calls[number]?.map (·.request)

/-- The token was created by the change, or by a login that presented the new password. -/
def Entitled (world : World) (change token : Nat) : Prop :=
  token = change ∨ ∃ userId currentPassword newPassword email,
    requestOf world change = some (.changePassword userId currentPassword newPassword) ∧
      requestOf world token = some (.login email newPassword)

/-- A token of a user whose password was changed is accepted only where the last change
entitles to it. -/
def Revoked (world : World) : Prop :=
  ∀ now token user change, verifyToken now token world.store = some user →
    lastChange world user.id = some change → Entitled world change token

/-- A login saves its session while the password that it presented is still that of the
user. -/
def current (service : AuthService) (world : World) : Action → Bool
  | .advance number _ _ false =>
    match world.calls[number]? with
    | some ⟨.login _ password, .saving (.createSession userId) _⟩ =>
      (findActive world.store userId).any fun user =>
        service.passwords.verify password user.passwordHash
    | _ => true
  | _ => true

/-- The work is what the request takes the lock for. -/
def AuthRequest.Does (request : AuthRequest) (work : Work) : Prop :=
  request.work = some work ∨
    ∃ email password userId, request = .login email password ∧ work = .createSession userId

/-- What holds of a call under the lock: it is the first of the queue, and the store is still
what it has loaded. -/
def Held (service : AuthService) (world : World) (number : Nat) (request : AuthRequest) :
    Phase → Prop
  | .waiting work => request.Does work
  | .working work snapshot =>
    request.Does work ∧ world.queue.head? = some number ∧ snapshot = world.store
  | .saving work next =>
    request.Does work ∧ world.queue.head? = some number ∧
      ∃ now salt, perform service number now salt world.store work = some next
  | _ => True

def Locked (service : AuthService) (world : World) : Prop :=
  ∀ (number : Nat) call, world.calls[number]? = some call → Held service world number call.request call.phase

variable {service : AuthService}
variable {next : World} {request : AuthRequest} {phase : Phase} {now : Int} {salt : Nat}

theorem held_other (held : Held service world number request phase) (keeps : world.queue.head? = some number →
      next.queue.head? = some number ∧ next.store = world.store) :
    Held service next number request phase := by
  cases phase with
  | working work snapshot =>
    obtain ⟨does, first, same⟩ := held
    obtain ⟨still, store⟩ := keeps first
    exact ⟨does, still, same.trans store.symm⟩
  | saving work after =>
    obtain ⟨does, first, performed⟩ := held
    obtain ⟨still, store⟩ := keeps first
    refine ⟨does, still, ?_⟩
    rw [store]
    exact performed
  | waiting work => exact held
  | loading | verifying | answered | returned | thrown => trivial

theorem head_append (more : List Nat) (first : queue.head? = some number) :
    (queue ++ more).head? = some number := by
  rw [head?_append, first]
  rfl

/-- The other calls keep what holds of them, and the call has what its new phase needs. -/
theorem locked_set {call : Call} (locked : Locked service world) (calls : next.calls = world.calls)
    (own : Held service { next with calls := next.calls.set number ⟨call.request, phase⟩ } number
      call.request phase) (keeps : ∀ other, other ≠ number → world.queue.head? = some other →
      next.queue.head? = some other ∧ next.store = world.store) :
    Locked service { next with calls := next.calls.set number ⟨call.request, phase⟩ } := by
  intro other found held
  have held : (next.calls.set number ⟨call.request, phase⟩)[other]? = some found := held
  by_cases same : number = other
  · subst same
    rw [getElem?_set_self'] at held
    obtain ⟨-, -, rfl⟩ := Option.map_eq_some_iff.mp held
    exact own
  · rw [getElem?_set_ne same, calls] at held
    exact held_other (locked other found held) (keeps other (Ne.symm same))

theorem advance_cases
    (advanced : advance service world number now salt fails request before = some (next, after)) :
    (next = world ∧ ∀ other, Held service other number request after) ∨
      (∃ email password userId, request = .login email password ∧
        next = { world with queue := world.queue ++ [number] } ∧
        after = .waiting (.createSession userId)) ∨
      (∃ work, before = .waiting work ∧ world.queue.head? = some number ∧ next = world ∧
        after = .working work world.store) ∨
      ((∃ work snapshot, before = .working work snapshot ∨ before = .saving work snapshot) ∧
        next = { world with queue := world.queue.tail } ∧ after = .thrown) ∨
      (∃ work snapshot saved, before = .working work snapshot ∧ next = world ∧
        perform service number now salt snapshot work = some saved ∧ after = .saving work saved) ∨
      ∃ work saved, before = .saving work saved ∧ fails = false ∧ after = .returned ∧ next = { world with
          store := saved
          queue := world.queue.tail
          changes := work.changed number ++ world.changes } := by
  unfold advance at advanced
  split at advanced
  · cases advanced
    exact .inl ⟨rfl, fun _ => trivial⟩
  · cases advanced
    exact .inl ⟨rfl, fun _ => trivial⟩
  · split at advanced
    · cases advanced
      exact .inl ⟨rfl, fun _ => trivial⟩
    · cases advanced
      exact .inr (.inl ⟨_, _, _, rfl, rfl, rfl⟩)
  · split at advanced
    · rename_i first
      cases advanced
      exact .inr (.inr (.inl ⟨_, rfl, first, rfl, rfl⟩))
    · cases advanced
  · split at advanced
    · cases advanced
      exact .inr (.inr (.inr (.inl ⟨⟨_, _, .inl rfl⟩, rfl, rfl⟩)))
    · rename_i saved performed
      cases advanced
      exact .inr (.inr (.inr (.inr (.inl ⟨_, _, _, rfl, rfl, performed, rfl⟩))))
  · split at advanced
    · cases advanced
      exact .inr (.inr (.inr (.inl ⟨⟨_, _, .inr rfl⟩, rfl, rfl⟩)))
    · rename_i saves
      cases advanced
      exact .inr (.inr (.inr (.inr (.inr ⟨_, _, rfl, by simpa using saves, rfl, rfl⟩))))
  · cases advanced

theorem locked_begin (locked : Locked service world) (request : AuthRequest) :
    Locked service (begin world request) := by
  intro number call held
  cases asked : request.work with
  | some work =>
    simp only [begin, asked] at held ⊢
    by_cases old : number < world.calls.length
    · rw [getElem?_append_left old] at held
      exact held_other (locked number call held) fun first => ⟨head_append _ first, rfl⟩
    · rw [getElem?_append_right (by omega)] at held
      rw [mem_singleton.mp (mem_of_getElem? held)]
      exact .inl asked
  | none =>
    simp only [begin, asked] at held ⊢
    by_cases old : number < world.calls.length
    · rw [getElem?_append_left old] at held
      exact held_other (locked number call held) fun first => ⟨first, rfl⟩
    · rw [getElem?_append_right (by omega)] at held
      rw [mem_singleton.mp (mem_of_getElem? held)]
      trivial

theorem locked_advance (locked : Locked service world) (found : world.calls[number]? = some call)
    (advanced : advance service world number now salt fails call.request call.phase = some (next, phase)) :
    Locked service { next with calls := next.calls.set number ⟨call.request, phase⟩ } := by
  have own := locked number call found
  -- A call that gives up the lock was the first of the queue, so no other holds it.
  have alone : ∀ work snapshot, call.phase = .working work snapshot ∨ call.phase = .saving work snapshot →
        world.queue.head? = some number := by
    rintro work snapshot (same | same)
    all_goals
      rw [same] at own
      exact own.2.1
  rcases advance_cases advanced with ⟨rfl, quiet⟩ | ⟨email, password, userId, login, rfl, rfl⟩ |
    ⟨work, before, first, rfl, rfl⟩ | ⟨⟨work, snapshot, before⟩, rfl, rfl⟩ |
    ⟨work, snapshot, saved, before, rfl, performed, rfl⟩ | ⟨work, saved, before, -, rfl, rfl⟩
  · exact locked_set locked rfl (quiet _) fun _ _ first => ⟨first, rfl⟩
  · refine locked_set locked rfl (.inr ⟨email, password, userId, login, rfl⟩) fun _ _ first => ?_
    exact ⟨head_append _ first, rfl⟩
  · rw [before] at own
    exact locked_set locked rfl ⟨own, first, rfl⟩ fun _ _ first => ⟨first, rfl⟩
  · refine locked_set locked rfl trivial fun other apart first => ?_
    rw [alone work snapshot before] at first
    exact absurd (Option.some.inj first).symm apart
  · rw [before] at own
    obtain ⟨does, first, same⟩ := own
    rw [same] at performed
    exact locked_set locked rfl ⟨does, first, now, salt, performed⟩ fun _ _ first => ⟨first, rfl⟩
  · refine locked_set locked rfl trivial fun other apart first => ?_
    rw [alone work saved (.inr before)] at first
    exact absurd (Option.some.inj first).symm apart

/-- What holds of the store: ids are those of calls that have returned, the hash of a user is
that of the last new password, and the sessions that are left are those that the last change
entitles to. -/
structure Stored (service : AuthService) (world : World) : Prop where
  born : ∀ user ∈ world.store.users, ∃ call, world.calls[user.id]? = some call ∧ call.phase = .returned
  known : ∀ change ∈ world.changes, ∃ user ∈ world.store.users, user.id = change.1
  hashed : ∀ user ∈ world.store.users, ∀ change, lastChange world user.id = some change →
    ∃ userId currentPassword newPassword salt,
      requestOf world change = some (.changePassword userId currentPassword newPassword) ∧
        user.passwordHash = service.passwords.hash newPassword salt
  entitled : ∀ session ∈ world.store.sessions, session.revokedAt = none →
    ∀ change, lastChange world session.userId = some change → Entitled world change session.token

theorem entitled_frame (requests : ∀ number request, requestOf world number = some request →
      requestOf next number = some request) (entitled : Entitled world change token) :
    Entitled next change token := by
  rcases entitled with same | ⟨userId, currentPassword, newPassword, email, changed, login⟩
  · exact .inl same
  · exact .inr ⟨userId, currentPassword, newPassword, email, requests _ _ changed, requests _ _ login⟩

theorem stored_frame (stored : Stored service world) (store : next.store = world.store)
    (changes : next.changes = world.changes)
    (requests : ∀ number request, requestOf world number = some request →
      requestOf next number = some request)
    (returned : ∀ (number : Nat) call, world.calls[number]? = some call → call.phase = .returned →
      ∃ later, next.calls[number]? = some later ∧ later.phase = .returned) :
    Stored service next := by
  have last : ∀ userId, lastChange next userId = lastChange world userId := by
    intro userId
    rw [lastChange, changes]
    rfl
  refine ⟨?_, ?_, ?_, ?_⟩
  · intro user held
    rw [store] at held
    obtain ⟨call, found, done⟩ := stored.born user held
    exact returned user.id call found done
  · intro change held
    rw [changes] at held
    rw [store]
    exact stored.known change held
  · intro user held change changed
    rw [store] at held
    rw [last] at changed
    obtain ⟨userId, currentPassword, newPassword, salt, request, hash⟩ :=
      stored.hashed user held change changed
    exact ⟨userId, currentPassword, newPassword, salt, requests _ _ request, hash⟩
  · intro session held open_ change changed
    rw [store] at held
    rw [last] at changed
    exact entitled_frame requests (stored.entitled session held open_ change changed)

theorem requestOf_append (found : requestOf world number = some request) :
    requestOf { world with calls := world.calls ++ calls } number = some request := by
  obtain ⟨call, held, same⟩ := Option.map_eq_some_iff.mp found
  have bound := (List.getElem?_eq_some_iff.mp held).1
  show (world.calls ++ calls)[number]?.map (·.request) = some request
  rw [getElem?_append_left bound, held, Option.map_some, same]

theorem requestOf_set (held : world.calls[number]? = some call) :
    (world.calls.set number ⟨call.request, phase⟩)[other]?.map (·.request) = requestOf world other := by
  unfold requestOf
  by_cases same : number = other
  · subst same
    rw [getElem?_set_self', held]
    rfl
  · rw [getElem?_set_ne same]

theorem findActive_some (found : findActive snapshot userId = some user) :
    user ∈ snapshot.users ∧ user.id = userId := by
  refine ⟨mem_of_find?_eq_some found, ?_⟩
  have test := find?_some found
  simp only [Bool.and_eq_true, decide_eq_true_eq] at test
  exact test.1

theorem revokeSession_revoked : (revokeSession now session).revokedAt ≠ none := by
  unfold revokeSession
  split
  · rename_i revoked
    exact fun same => by simp [same] at revoked
  · simp

theorem addUser_some
    (added : addUser service number now salt role email password snapshot = some saved) :
    ∃ user : UserRecord, user.id = number ∧ saved.users = snapshot.users ++ [user] ∧
      saved.sessions = snapshot.sessions ++ [createSession service number number now] := by
  simp only [addUser, Option.bind_eq_bind, Option.bind_eq_some_iff] at added
  obtain ⟨address, -, added⟩ := added
  split at added
  · cases added
  · obtain ⟨accepted, -, added⟩ := Option.bind_eq_some_iff.mp added
    cases added
    exact ⟨_, rfl, rfl, rfl⟩

theorem changePassword_some
    (changed : changePassword service number now salt userId currentPassword newPassword snapshot =
      some saved) : ∃ user updated : UserRecord, user ∈ snapshot.users ∧ user.id = userId ∧
      updated.id = userId ∧ updated.passwordHash = service.passwords.hash newPassword salt ∧
      saved.users = (snapshot.users.map fun item => if item.id = userId then updated else item) ∧
      saved.sessions = (snapshot.sessions.map fun session =>
        if session.userId = userId then revokeSession now session else session) ++
          [createSession service number userId now] := by
  simp only [changePassword, Option.bind_eq_bind, Option.bind_eq_some_iff] at changed
  obtain ⟨user, found, changed⟩ := changed
  obtain ⟨held, named⟩ := findActive_some found
  split at changed
  · obtain ⟨accepted, valid, changed⟩ := Option.bind_eq_some_iff.mp changed
    have same : newPassword = accepted := by
      unfold validatePassword at valid
      split at valid
      · cases valid
      · exact Option.some.inj valid
    cases changed
    refine ⟨user, { user with
      passwordHash := service.passwords.hash accepted salt
      updatedAt := now }, held, named, named, by rw [same], ?_, ?_⟩
    all_goals simp only [named]
  · cases changed

/-- The state in which a call has saved. -/
def afterSave (world : World) (number : Nat) (request : AuthRequest) (work : Work)
    (saved : AuthSnapshot) : World where
  store := saved
  calls := world.calls.set number ⟨request, .returned⟩
  queue := world.queue.tail
  changes := work.changed number ++ world.changes

section
variable {world : World} {number : Nat} {call : Call}

theorem lastChange_afterSave (unchanged : work.changed number = []) (userId : Nat) :
    lastChange (afterSave world number request work saved) userId = lastChange world userId := by
  show ((work.changed number ++ world.changes).find? _).map _ = _
  rw [unchanged]
  rfl

section
variable (found : world.calls[number]? = some call)
include found

theorem requestOf_afterSave :
    requestOf (afterSave world number call.request work saved) other = requestOf world other :=
  requestOf_set found

theorem asked_afterSave (other : Nat) (request : AuthRequest)
    (asked : requestOf world other = some request) :
    requestOf (afterSave world number call.request work saved) other = some request :=
  (requestOf_afterSave found).trans asked

theorem returned_afterSave {other : Nat}
    (held : world.calls[other]? = some old) (done : old.phase = .returned) :
    ∃ later, (afterSave world number call.request work saved).calls[other]? = some later ∧
      later.phase = .returned := by
  show ∃ later, (world.calls.set number ⟨call.request, .returned⟩)[other]? = some later ∧ _
  by_cases same : number = other
  · subst same
    rw [getElem?_set_self', found]
    exact ⟨_, rfl, rfl⟩
  · rw [getElem?_set_ne same]
    exact ⟨old, held, done⟩

theorem returned_self :
    ∃ later, (afterSave world number call.request work saved).calls[number]? = some later ∧
      later.phase = .returned := by
  show ∃ later, (world.calls.set number ⟨call.request, .returned⟩)[number]? = some later ∧ _
  rw [getElem?_set_self', found]
  exact ⟨_, rfl, rfl⟩

end

section
variable (stored : Stored service world)
include stored

section
variable (found : world.calls[number]? = some call)
include found

theorem unchanged_new (saving : call.phase ≠ .returned) : lastChange world number = none := by
  unfold lastChange
  rw [Option.map_eq_none_iff, find?_eq_none]
  intro change held named
  obtain ⟨user, heldUser, same⟩ := stored.known change held
  obtain ⟨old, foundOld, done⟩ := stored.born user heldUser
  rw [same, of_decide_eq_true named, found] at foundOld
  cases foundOld
  exact saving done

theorem stored_addUser {user : UserRecord} (saving : call.phase ≠ .returned)
    (unchanged : work.changed number = []) (named : user.id = number)
    (users : saved.users = world.store.users ++ [user]) (sessions : saved.sessions =
      world.store.sessions ++ [createSession service number number now]) :
    Stored service (afterSave world number call.request work saved) := by
  have fresh := unchanged_new stored found saving
  refine ⟨?_, ?_, ?_, ?_⟩
  · intro other held
    rcases mem_append.mp (users ▸ held : other ∈ world.store.users ++ [user]) with old | new
    · obtain ⟨before, foundBefore, done⟩ := stored.born other old
      exact returned_afterSave found foundBefore done
    · rw [mem_singleton.mp new, named]
      exact returned_self found
  · intro change held
    have held : change ∈ work.changed number ++ world.changes := held
    rw [unchanged] at held
    obtain ⟨other, heldOther, same⟩ := stored.known change held
    refine ⟨other, ?_, same⟩
    show other ∈ saved.users
    rw [users]
    exact mem_append_left _ heldOther
  · intro other held change changed
    rw [lastChange_afterSave unchanged] at changed
    rcases mem_append.mp (users ▸ held : other ∈ world.store.users ++ [user]) with old | new
    · obtain ⟨userId, currentPassword, newPassword, salt, request, hash⟩ :=
        stored.hashed other old change changed
      exact ⟨userId, currentPassword, newPassword, salt, asked_afterSave found _ _ request, hash⟩
    · rw [mem_singleton.mp new, named, fresh] at changed
      cases changed
  · intro session held open_ change changed
    rw [lastChange_afterSave unchanged] at changed
    rcases mem_append.mp (sessions ▸ held : session ∈ world.store.sessions ++ [_]) with
      old | new
    · exact entitled_frame (asked_afterSave found) (stored.entitled session old open_ change changed)
    · rw [mem_singleton.mp new, createSession, fresh] at changed
      cases changed

/-- A save that adds no user and changes no password leaves the sessions that were there, or
fewer, and those that it is entitled to add. -/
theorem stored_sessions
    (unchanged : work.changed number = []) (users : saved.users = world.store.users)
    (sessions : ∀ session ∈ saved.sessions, session.revokedAt = none →
      session ∈ world.store.sessions ∨ ∀ change, lastChange world session.userId = some change →
        Entitled world change session.token) :
    Stored service (afterSave world number call.request work saved) := by
  refine ⟨?_, ?_, ?_, ?_⟩
  · intro other held
    obtain ⟨before, foundBefore, done⟩ :=
      stored.born other (users ▸ held : other ∈ world.store.users)
    exact returned_afterSave found foundBefore done
  · intro change held
    have held : change ∈ work.changed number ++ world.changes := held
    rw [unchanged] at held
    obtain ⟨other, heldOther, same⟩ := stored.known change held
    exact ⟨other, (users ▸ heldOther : other ∈ saved.users), same⟩
  · intro other held change changed
    rw [lastChange_afterSave unchanged] at changed
    obtain ⟨userId, currentPassword, newPassword, salt, request, hash⟩ :=
      stored.hashed other (users ▸ held : other ∈ world.store.users) change changed
    exact ⟨userId, currentPassword, newPassword, salt, asked_afterSave found _ _ request, hash⟩
  · intro session held open_ change changed
    rw [lastChange_afterSave unchanged] at changed
    rcases sessions session held open_ with old | new
    · exact entitled_frame (asked_afterSave found) (stored.entitled session old open_ change changed)
    · exact entitled_frame (asked_afterSave found) (new change changed)

/-- A change leaves the user no session but its own. -/
theorem stored_changePassword {now : Int}
    (asked : call.request = .changePassword userId currentPassword newPassword)
    (changed : changePassword service number now salt userId currentPassword newPassword
      world.store = some saved) :
    Stored service (afterSave world number call.request
      (.changePassword userId currentPassword newPassword) saved) := by
  obtain ⟨user, updated, heldUser, named, namedUpdated, hash, users, sessions⟩ :=
    changePassword_some changed
  have last : ∀ other, lastChange (afterSave world number call.request
      (.changePassword userId currentPassword newPassword) saved) other =
        if userId = other then some number else lastChange world other := by
    intro other
    show (((userId, number) :: world.changes).find? _).map _ = _
    by_cases same : userId = other
    · simp [same]
    · rw [find?_cons_of_neg (by simpa using same), if_neg same]
      rfl
  have own : requestOf world number = some (.changePassword userId currentPassword newPassword) := by
    rw [requestOf, found, Option.map_some, asked]
  refine ⟨?_, ?_, ?_, ?_⟩
  · intro other held
    have held : other ∈ saved.users := held
    rw [users] at held
    obtain ⟨old, heldOld, made⟩ := mem_map.mp held
    have same : other.id = old.id := by
      rw [← made]
      split
      · rename_i here
        exact namedUpdated.trans here.symm
      · rfl
    rw [same]
    obtain ⟨before, foundBefore, done⟩ := stored.born old heldOld
    exact returned_afterSave found foundBefore done
  · intro change held
    obtain ⟨old, heldOld, same⟩ : ∃ old ∈ world.store.users, old.id = change.1 := by
      rcases mem_cons.mp (held : change ∈ (userId, number) :: world.changes) with here | held
      · rw [here]
        exact ⟨user, heldUser, named⟩
      · exact stored.known change held
    refine ⟨if old.id = userId then updated else old, ?_, ?_⟩
    · show _ ∈ saved.users
      rw [users]
      exact mem_map_of_mem heldOld
    · split
      · rename_i here
        rw [namedUpdated, ← here, same]
      · exact same
  · intro other held change changedLast
    have held : other ∈ saved.users := held
    rw [users] at held
    obtain ⟨old, heldOld, made⟩ := mem_map.mp held
    rw [last] at changedLast
    by_cases here : old.id = userId
    · rw [if_pos here] at made
      rw [← made, if_pos namedUpdated.symm] at changedLast
      cases changedLast
      refine ⟨userId, currentPassword, newPassword, salt, asked_afterSave found _ _ own, ?_⟩
      rw [← made]
      exact hash
    · rw [if_neg here] at made
      rw [← made, if_neg fun same => here same.symm] at changedLast
      obtain ⟨otherId, earlier, later, oldSalt, request, oldHash⟩ :=
        stored.hashed old heldOld change changedLast
      rw [← made]
      exact ⟨otherId, earlier, later, oldSalt, asked_afterSave found _ _ request, oldHash⟩
  · intro session held open_ change changedLast
    rw [last] at changedLast
    have held : session ∈ saved.sessions := held
    rw [sessions] at held
    rcases mem_append.mp held with mapped | new
    · obtain ⟨old, heldOld, made⟩ := mem_map.mp mapped
      by_cases here : old.userId = userId
      · rw [if_pos here] at made
        rw [← made] at open_
        exact absurd open_ revokeSession_revoked
      · rw [if_neg here] at made
        rw [← made, if_neg fun same => here same.symm] at changedLast
        rw [← made] at open_ ⊢
        exact entitled_frame (asked_afterSave found) (stored.entitled old heldOld open_ change changedLast)
    · rw [mem_singleton.mp new] at changedLast ⊢
      rw [createSession, if_pos rfl] at changedLast
      cases changedLast
      exact .inl rfl

end

end

end

theorem stored_save (stored : Stored service world) (found : world.calls[number]? = some call)
    (saving : call.phase = .saving work saved) (does : call.request.Does work)
    (performed : perform service number now salt world.store work = some saved)
    (fair : ∀ at_ salt, current service world (.advance number at_ salt false) = true) :
    Stored service (afterSave world number call.request work saved) := by
  have open_ : call.phase ≠ .returned := by
    rw [saving]
    exact fun same => by cases same
  cases work with
  | addUser role email password =>
    obtain ⟨user, named, users, sessions⟩ := addUser_some performed
    exact stored_addUser stored found open_ rfl named users sessions
  | createSession userId =>
    obtain ⟨freshUser, held, made⟩ := Option.map_eq_some_iff.mp performed
    obtain ⟨heldUser, named⟩ := findActive_some held
    refine stored_sessions stored found rfl (by rw [← made]) fun session heldSession _ => ?_
    rw [← made] at heldSession
    rcases mem_append.mp heldSession with old | new
    · exact .inl old
    · refine .inr fun change changed => ?_
      rw [mem_singleton.mp new] at changed ⊢
      -- The login presented the password that the user still has.
      obtain ⟨email, password, other, login, -⟩ : ∃ email password other,
          call.request = .login email password ∧ Work.createSession userId = .createSession other := by
        rcases does with direct | login
        · cases asked : call.request <;> rw [asked] at direct <;> cases direct
        · exact login
      have presented : service.passwords.verify password freshUser.passwordHash = true := by
        have told := fair 0 0
        obtain ⟨request, phase⟩ := call
        cases saving
        cases login
        simp only [current, found, held, Option.any_some] at told
        exact told
      obtain ⟨changedId, currentPassword, newPassword, oldSalt, request, hash⟩ :=
        stored.hashed freshUser heldUser change changed
      rw [hash, service.passwords.verify_hash] at presented
      refine .inr ⟨changedId, currentPassword, newPassword, email, request, ?_⟩
      show requestOf world number = _
      rw [requestOf, found, Option.map_some, login, presented]
  | changePassword userId currentPassword newPassword =>
    have asked : call.request = .changePassword userId currentPassword newPassword := by
      rcases does with direct | ⟨_, _, _, -, same⟩
      · cases asked : call.request <;> rw [asked] at direct <;> cases direct
        rfl
      · cases same
    exact stored_changePassword stored found asked performed
  | logout token =>
    cases performed
    refine stored_sessions stored found rfl rfl fun session heldSession left => .inl ?_
    obtain ⟨old, heldOld, made⟩ := mem_map.mp heldSession
    split at made
    · rw [← made] at left
      exact absurd left revokeSession_revoked
    · rw [← made]
      exact heldOld

theorem sound_step (world : World) (action : Action) (next : World)
    (sound : Locked service world ∧ Stored service world)
    (fair : current service world action = true)
    (stepped : step service world action = some next) :
    Locked service next ∧ Stored service next := by
  obtain ⟨locked, stored⟩ := sound
  cases action with
  | request request =>
    cases stepped
    refine ⟨locked_begin locked request, ?_⟩
    obtain ⟨calls, made⟩ : ∃ calls, (begin world request).calls = world.calls ++ calls := by
      unfold begin
      split <;> exact ⟨_, rfl⟩
    have store : (begin world request).store = world.store ∧
        (begin world request).changes = world.changes := by
      unfold begin
      split <;> exact ⟨rfl, rfl⟩
    refine stored_frame stored store.1 store.2 (fun number asked found => ?_)
      fun number call found done => ⟨call, ?_, done⟩
    · rw [requestOf, made]
      exact requestOf_append found
    · rw [made, List.getElem?_append_left (List.getElem?_eq_some_iff.mp found).1]
      exact found
  | advance number now salt fails =>
    simp only [step] at stepped
    split at stepped
    · cases stepped
    · rename_i call found
      split at stepped
      · cases stepped
      · rename_i after phase advanced
        cases stepped
        refine ⟨locked_advance locked found advanced, ?_⟩
        by_cases saves : ∃ work saved, call.phase = .saving work saved ∧ fails = false
        · obtain ⟨work, saved, saving, rfl⟩ := saves
          have own := locked number call found
          rw [saving] at own advanced
          obtain ⟨does, -, clock, drawn, performed⟩ := own
          have made : after = { world with
              store := saved
              queue := world.queue.tail
              changes := work.changed number ++ world.changes } ∧ phase = .returned := by
            cases asked : call.request <;> rw [asked] at advanced <;> cases advanced <;>
              exact ⟨rfl, rfl⟩
          rw [made.1, made.2]
          exact stored_save stored found saving does performed fun _ _ => fair
        · -- Nothing is saved.
          have kept : after.store = world.store ∧ after.changes = world.changes ∧
              after.calls = world.calls ∧ call.phase ≠ .returned := by
            have moved : call.phase ≠ .returned := by
              intro done
              rw [done] at advanced
              cases asked : call.request <;> rw [asked] at advanced <;> cases advanced
            rcases advance_cases advanced with ⟨rfl, -⟩ | ⟨_, _, _, -, rfl, -⟩ |
              ⟨_, -, -, rfl, -⟩ | ⟨-, rfl, -⟩ | ⟨_, _, _, -, rfl, -⟩ |
              ⟨work, saved, before, went, -, -⟩
            · exact ⟨rfl, rfl, rfl, moved⟩
            · exact ⟨rfl, rfl, rfl, moved⟩
            · exact ⟨rfl, rfl, rfl, moved⟩
            · exact ⟨rfl, rfl, rfl, moved⟩
            · exact ⟨rfl, rfl, rfl, moved⟩
            · exact absurd ⟨work, saved, before, went⟩ saves
          obtain ⟨store, changes, calls, moved⟩ := kept
          refine stored_frame stored store changes (fun other request asked => ?_)
            fun other old held done => ⟨old, ?_, done⟩
          · show (after.calls.set number _)[other]?.map (·.request) = _
            rw [calls, requestOf_set found]
            exact asked
          · show (after.calls.set number _)[other]? = _
            have apart : number ≠ other := by
              rintro rfl
              rw [found] at held
              cases held
              exact moved done
            rw [calls, getElem?_set_ne apart]
            exact held

theorem verifyToken_some (accepted : verifyToken now token snapshot = some user) :
    ∃ session ∈ snapshot.sessions, session.token = token ∧ session.revokedAt = none ∧
      session.userId = user.id := by
  simp only [verifyToken, Option.bind_eq_bind, Option.bind_eq_some_iff] at accepted
  obtain ⟨session, found, accepted⟩ := accepted
  split at accepted
  · cases accepted
  · rename_i open_
    refine ⟨session, mem_of_find?_eq_some found, by simpa using find?_some found, ?_,
      (findActive_some accepted).2.symm⟩
    simp only [Bool.or_eq_true, not_or] at open_
    simpa using open_.1

/-- In a run in which each login saves its session while the password that it presented is
still the user's, a change of the password revokes all access that it does not give. -/
theorem change_revokes (service : AuthService) (actions : List Action) (final : World)
    (ran : runActions (step service) {} actions = some final)
    (along : Along (step service) (fun world action => current service world action = true) {}
      actions) : Revoked final := by
  have start : Locked service {} ∧ Stored service {} := by
    refine ⟨fun _ _ found => by simp at found, fun _ held => ?_, fun _ held => ?_,
      fun _ held => ?_, fun _ held => ?_⟩ <;> cases held
  obtain ⟨-, stored⟩ := invariant_run sound_step actions start along ran
  intro now token user change accepted changed
  obtain ⟨session, held, named, open_, owner⟩ := verifyToken_some accepted
  rw [← owner] at changed
  rw [← named]
  exact stored.entitled session held open_ change changed

section Example

/-- Hashes that show their passwords. -/
private def plainPasswords : Passwords where
  hash := fun password _ => "scrypt$" ++ password
  verify := fun password stored => stored = "scrypt$" ++ password
  verify_hash := fun password other _ => by
    rw [decide_eq_true_iff]
    constructor
    · intro same
      have texts := congrArg String.toList same
      rw [String.toList_append, String.toList_append] at texts
      exact (String.toList_injective (append_cancel_left texts)).symm
    · exact fun same => by rw [same]

private def plainService : AuthService where
  passwords := plainPasswords
  toLowerCase := id
  sessionTtlMs := 1000

private def registered : List Action :=
  [.request (.register "a@b.c" "password-1"), .advance 0 0 0 false, .advance 0 0 0 false,
    .advance 0 0 0 false]

/-- The password is changed, and the user logs in with the new one. -/
private def changeThenLogin : List Action :=
  registered ++ [.request (.changePassword 0 "password-1" "password-2"), .advance 1 1 0 false,
      .advance 1 1 0 false, .advance 1 1 0 false, .request (.login "a@b.c" "password-2"),
      .advance 2 2 0 false, .advance 2 2 0 false, .advance 2 2 0 false, .advance 2 2 0 false,
      .advance 2 2 0 false]

/-- A login has loaded the users when the password is changed. -/
private def loginInChange : List Action :=
  registered ++ [.request (.login "a@b.c" "password-1"), .advance 1 1 0 false,
      .request (.changePassword 0 "password-1" "password-2"), .advance 1 1 0 false,
      .advance 2 1 0 false, .advance 2 1 0 false, .advance 2 1 0 false, .advance 1 2 0 false,
      .advance 1 2 0 false, .advance 1 2 0 false]

theorem change_revokes_two : ∃ final,
    runActions (step plainService) {} changeThenLogin = some final ∧ Revoked final ∧
      verifyToken 5 0 final.store = none ∧ (verifyToken 5 2 final.store).isSome = true := by
  have ran : ∃ final, runActions (step plainService) {} changeThenLogin = some final ∧
      verifyToken 5 0 final.store = none ∧ (verifyToken 5 2 final.store).isSome = true := by
    decide
  obtain ⟨final, ran, old, new⟩ := ran
  have along : Along (step plainService)
      (fun world action => current plainService world action = true) {} changeThenLogin := by
    decide
  exact ⟨final, ran, change_revokes plainService changeThenLogin final ran along, old, new⟩

/-- The session of the overlapping login, with the old password, outlives the change. -/
theorem login_survives_change : ∃ final, runActions (step plainService) {} loginInChange = some final ∧
      final.calls[2]?.map (·.phase) = some .returned ∧
      (verifyToken 5 1 final.store).map (·.id) = some 0 ∧ lastChange final 0 = some 2 ∧
      ¬ Revoked final := by
  have ran : ∃ final, runActions (step plainService) {} loginInChange = some final ∧
      final.calls[2]?.map (·.phase) = some .returned ∧
      (verifyToken 5 1 final.store).map (·.id) = some 0 ∧ lastChange final 0 = some 2 ∧
      requestOf final 1 = some (.login "a@b.c" "password-1") ∧
      requestOf final 2 = some (.changePassword 0 "password-1" "password-2") := by
    decide
  obtain ⟨final, ran, returned, accepted, changed, login, change⟩ := ran
  refine ⟨final, ran, returned, accepted, changed, fun revoked => ?_⟩
  obtain ⟨user, verified, named⟩ := Option.map_eq_some_iff.mp accepted
  rcases revoked 5 1 user 2 verified (by rw [named]; exact changed) with
    same | ⟨_, _, _, _, asked, presented⟩
  · cases same
  · rw [change] at asked
    rw [login] at presented
    cases asked
    simp at presented

end Example

end QiongQi.AuthSessions
