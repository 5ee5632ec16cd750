import QiongQi.LeaseStores
import QiongQi.MultiAgentRuns

/-! What `FileMultiAgentRunStore` and `InMemoryMultiAgentRunStore` keep for one run: its
content, the version that a conditional update compares, and the lease. Every operation
holds the lock of the run. -/
namespace QiongQi.RunVersions
open AgentGraphs LeaseStores Mailboxes MultiAgentRuns Machines RuntimeContracts

inductive RunStoreKind where
  | file | memory
  deriving DecidableEq

/-- A missing epoch reads as zero. -/
structure RunRecord where
  run : Option MultiAgentRun := none
  version : Option Nat := none
  lease : Option Lease := none
  leaseEpoch : Nat := 0
  deriving DecidableEq

structure UpdateOptions where
  fence : Option LeaseFence := none
  expectedVersion : Option Nat := none

/-- Only the files are named by what they are given. -/
def RunStoreKind.segment : RunStoreKind → String → String → Except Thrown String
  | .file, value, label => safeSegment value label
  | .memory, value, _ => .ok value

def loadVersion (kind : RunStoreKind) (record : RunRecord) : Option Nat :=
  match kind with
  | .file => record.version
  | .memory => record.run.map fun _ => record.version.getD 0

/-- The content is replaced and a version that is there stays. -/
def save (kind : RunStoreKind) (record : RunRecord) (run : MultiAgentRun) : Except Thrown RunRecord := do
  let _ ← kind.segment run.runId.text "runId"
  return { record with run := some run, version := some (record.version.getD 0) }

def assertFence (record : RunRecord) (now : Int) (fence : Option LeaseFence) : Except Thrown Unit :=
  match fence with
  | none => .ok ()
  | some fence =>
    if record.lease.any fun current => now < current.expiresAt && sameFence current fence then .ok ()
    else .error (.error "MultiAgentRun update rejected by stale lease fence")

def assertVersion (record : RunRecord) (expectedVersion : Option Nat) : Except Thrown Unit :=
  match expectedVersion with
  | none => .ok ()
  | some expected =>
    let currentVersion := record.version.getD 0
    if expected = currentVersion then .ok ()
    else .error (.error s!"MultiAgentRun version mismatch: expected {expected}, got {currentVersion}")

def update (kind : RunStoreKind) (runId : String) (record : RunRecord)
    (mutate : MultiAgentRun → Except Thrown MultiAgentRun) (options : UpdateOptions) (now : Int) :
    Except Thrown (MultiAgentRun × RunRecord) := do
  let safeRunId ← kind.segment runId "runId"
  match record.run with
  | none => throw (.error ("MultiAgentRun not found: " ++ safeRunId))
  | some current =>
    assertFence record now options.fence
    assertVersion record options.expectedVersion
    let next ← mutate current
    if next.runId.text ≠ safeRunId then
      throw (.error ("MultiAgentRun update cannot change runId: " ++ next.runId.text ++ " !== " ++ safeRunId))
    return (next, { record with run := some next, version := some (record.version.getD 0 + 1) })

/-- The memory keeps the last epoch where there is one; the files keep the larger. -/
def nextEpoch (kind : RunStoreKind) (record : RunRecord) : Nat :=
  let leased := (record.lease.map Lease.epoch).getD 0
  match kind with
  | .file => max leased record.leaseEpoch + 1
  | .memory => (if record.leaseEpoch = 0 then leased else record.leaseEpoch) + 1

def acquireLease (kind : RunStoreKind) (record : RunRecord) (holderId : String) (ttlMs now : Int)
    (token : String) : Except Thrown (AcquireResult × RunRecord) := do
  let _ ← kind.segment holderId "holderId"
  match record.lease.filter fun current => now < current.expiresAt with
  | some current =>
    if current.holderId = holderId then
      return ({ acquired := true, expiresAt := current.expiresAt, fence := current.toFence }, record)
    else return ({ acquired := false }, record)
  | none =>
    let epoch := nextEpoch kind record
    let lease : Lease := { holderId, expiresAt := expiry now ttlMs, epoch, token }
    return ({ acquired := true, expiresAt := lease.expiresAt, fence := lease.toFence },
      { record with lease := some lease, leaseEpoch := epoch })

/-- In memory a time to live of zero renews nothing. -/
def renewLease (kind : RunStoreKind) (record : RunRecord) (holderId : String)
    (fence : Option LeaseFence) (ttlMs now : Int) : Bool × RunRecord :=
  match record.lease.filter fun current => current.holderId = holderId &&
      fence.all (sameFence current) && now < current.expiresAt with
  | none => (false, record)
  | some current =>
    if kind = .memory ∧ ttlMs = 0 then (false, record)
    else (true, { record with lease := some { current with expiresAt := expiry now ttlMs } })

def releaseLease (record : RunRecord) (holderId : String) (fence : Option LeaseFence) : RunRecord :=
  match record.lease.filter fun current => current.holderId = holderId && fence.all (sameFence current) with
  | none => record
  | some _ => { record with lease := none }

/-- A read leaves no trace. -/
inductive RunStoreAction where
  | save (run : MultiAgentRun)
  | update (mutate : MultiAgentRun → Except Thrown MultiAgentRun) (options : UpdateOptions) (now : Int)
  | acquire (holderId : String) (ttlMs now : Int) (token : String)
  | renew (holderId : String) (fence : Option LeaseFence) (ttlMs now : Int)
  | release (holderId : String) (fence : Option LeaseFence)
  | read

/-- What an operation that throws leaves behind is what was there. -/
def settled (record : RunRecord) : Except Thrown RunRecord → RunRecord
  | .ok next => next
  | .error _ => record

def stepRun (kind : RunStoreKind) (runId : String) (record : RunRecord) : RunStoreAction → Option RunRecord
  | .save run => if run.runId.text = runId then some (settled record (save kind record run)) else none
  | .update mutate options now =>
    some (settled record ((update kind runId record mutate options now).map Prod.snd))
  | .acquire holderId ttlMs now token =>
    some (settled record ((acquireLease kind record holderId ttlMs now token).map Prod.snd))
  | .renew holderId fence ttlMs now => some (renewLease kind record holderId fence ttlMs now).2
  | .release holderId fence => some (releaseLease record holderId fence)
  | .read => some record

/-- A save that changes nothing, or stores the first content of the run. -/
def SavedOnce (record : RunRecord) : RunStoreAction → Prop
  | .save run => record.run = none ∨ record.run = some run
  | _ => True

instance (record : RunRecord) : ∀ action, Decidable (SavedOnce record action)
  | .save _ => inferInstanceAs (Decidable (_ ∨ _))
  | .update .. | .acquire .. | .renew .. | .release .. | .read => .isTrue trivial

variable {kind : RunStoreKind} {runId : String} {record next : RunRecord}

theorem update_changes (updated : update kind runId record mutate options now = .ok (made, next)) :
    (∃ current, record.run = some current) ∧
      (∀ expected ∈ options.expectedVersion, record.version.getD 0 = expected) ∧
      next.run = some made ∧ next.version = some (record.version.getD 0 + 1) := by
  unfold update at updated
  obtain ⟨safeRunId, -, found⟩ := bind_ok updated
  cases stored : record.run with
  | none =>
    simp only [stored] at found
    cases found
  | some current =>
    simp only [stored] at found
    obtain ⟨⟨⟩, -, checked⟩ := bind_ok found
    obtain ⟨⟨⟩, compared, mutated⟩ := bind_ok checked
    obtain ⟨result, -, named⟩ := bind_ok mutated
    split at named
    · cases named
    · cases named
      refine ⟨⟨current, rfl⟩, fun expected wanted => ?_, rfl, rfl⟩
      unfold assertVersion at compared
      rw [Option.mem_def.mp wanted] at compared
      simp only at compared
      split at compared
      · rename_i same
        exact same.symm
      · cases compared

/-- What a step makes of content and version. -/
inductive Steps (record : RunRecord) : RunStoreAction → RunRecord → Prop where
  | kept {action : RunStoreAction} {next : RunRecord} (run : next.run = record.run)
      (version : next.version = record.version) : Steps record action next
  | saved {run : MultiAgentRun} {next : RunRecord} (written : next.run = some run)
      (version : next.version = some (record.version.getD 0)) : Steps record (.save run) next
  | updated {action : RunStoreAction} {next : RunRecord} (held : record.run.isSome)
      (written : next.run.isSome) (version : next.version = some (record.version.getD 0 + 1)) :
      Steps record action next

theorem steps_of_step (taken : stepRun kind runId record action = some next) :
    Steps record action next := by
  cases action with
  | save run =>
    simp only [stepRun] at taken
    split at taken
    · cases taken
      cases written : save kind record run with
      | error thrown => exact .kept rfl rfl
      | ok stored =>
        obtain ⟨name, -, made⟩ := bind_ok written
        cases made
        exact .saved rfl rfl
    · cases taken
  | update mutate options now =>
    cases taken
    cases updated : update kind runId record mutate options now with
    | error thrown => exact .kept rfl rfl
    | ok result =>
      obtain ⟨⟨current, held⟩, -, written, version⟩ := update_changes updated
      exact .updated (by simp [held]) (by simp [settled, Except.map, written]) version
  | acquire holderId ttlMs now token =>
    cases taken
    cases acquired : acquireLease kind record holderId ttlMs now token with
    | error thrown => exact .kept rfl rfl
    | ok result =>
      unfold acquireLease at acquired
      obtain ⟨name, -, leased⟩ := bind_ok acquired
      split at leased
      · split at leased <;> (cases leased; exact .kept rfl rfl)
      · cases leased
        exact .kept rfl rfl
  | renew holderId fence ttlMs now =>
    cases taken
    unfold renewLease
    split
    · exact .kept rfl rfl
    · split <;> exact .kept rfl rfl
  | release holderId fence =>
    cases taken
    unfold releaseLease
    split <;> exact .kept rfl rfl
  | read =>
    cases taken
    exact .kept rfl rfl

/-- Seen from a record with the version: as long as the version is the same, so is the content. -/
structure After (seen : RunRecord) (version : Nat) (record : RunRecord) : Prop where
  stored : record.run.isSome
  version : ∃ current, record.version = some current ∧ version ≤ current ∧
    (current = version → record.run = seen.run)

theorem after_step (after : After seen version record) (once : SavedOnce record action)
    (taken : stepRun kind runId record action = some next) : After seen version next := by
  obtain ⟨stored, current, has, reached, same⟩ := after
  cases steps_of_step taken with
  | kept run versions => exact ⟨run ▸ stored, current, versions ▸ has, reached, fun now => run ▸ same now⟩
  | saved written versions =>
    rename_i run
    rcases once with absent | repeated
    · simp [absent] at stored
    · refine ⟨by simp [written], current, by simp [versions, has], reached, fun now => ?_⟩
      rw [written, ← repeated]
      exact same now
  | updated held written versions =>
    refine ⟨written, current + 1, by simp [versions, has], by omega, fun now => ?_⟩
    omega

/-- From the first save on, a run has a content and a version. -/
def Whole (record : RunRecord) : Prop := record.run.isSome = record.version.isSome

theorem whole_step (whole : Whole record) (taken : stepRun kind runId record action = some next) :
    Whole next := by
  unfold Whole at whole ⊢
  cases steps_of_step taken with
  | kept run versions => rw [run, versions, whole]
  | saved written versions | updated held written versions => rw [written, versions]; rfl

theorem loadVersion_whole (whole : Whole record) : loadVersion kind record = record.version := by
  cases kind with
  | file => rfl
  | memory =>
    unfold Whole at whole
    unfold loadVersion
    cases run : record.run with
    | none =>
      rw [run] at whole
      cases version : record.version with
      | none => rfl
      | some current => simp [version] at whole
    | some content =>
      rw [run] at whole
      cases version : record.version with
      | none => simp [version] at whole
      | some current => rfl

theorem after_self (whole : Whole record) (has : record.version = some version) :
    After record version record where
  stored := by rw [whole, has]; rfl
  version := ⟨version, has, Nat.le_refl _, fun _ => rfl⟩

/-- Where no save puts another content in the place of a stored one, a version names one
content, and an update that expects a version finds what its read saw, unchanged in between. -/
theorem versions_name_contents (kind : RunStoreKind) (runId : String)
    (first between rest : List RunStoreAction) (seen middle current : RunRecord)
    (once : Along (stepRun kind runId) SavedOnce {} (first ++ (between ++ rest)))
    (ranFirst : runActions (stepRun kind runId) {} first = some seen)
    (ranBetween : runActions (stepRun kind runId) seen between = some middle)
    (ranRest : runActions (stepRun kind runId) middle rest = some current) :
    (∀ version, loadVersion kind seen = some version → loadVersion kind current = some version →
        current.run = seen.run) ∧
      ∀ version options mutate now made next, loadVersion kind seen = some version →
        options.expectedVersion = some version →
        update kind runId current mutate options now = .ok (made, next) →
        middle.run = seen.run ∧ current.run = seen.run := by
  obtain ⟨-, onceAfter⟩ := along_append first once ranFirst
  obtain ⟨onceBetween, onceRest⟩ := along_append between onceAfter ranBetween
  have empty : Whole {} := rfl
  have wholeSeen : Whole seen :=
    invariant_always (fun _ _ _ whole taken => whole_step whole taken) first empty ranFirst
  have wholeMiddle : Whole middle :=
    invariant_always (fun _ _ _ whole taken => whole_step whole taken) between wholeSeen ranBetween
  have wholeCurrent : Whole current :=
    invariant_always (fun _ _ _ whole taken => whole_step whole taken) rest wholeMiddle ranRest
  have follow : ∀ {version : Nat} {earlier later : RunRecord} {actions : List RunStoreAction},
      After seen version earlier → Along (stepRun kind runId) SavedOnce earlier actions →
      runActions (stepRun kind runId) earlier actions = some later → After seen version later :=
    fun after along ran =>
      invariant_run (fun _ _ _ after once taken => after_step after once taken) _ after along ran
  constructor
  · intro version read now
    rw [loadVersion_whole wholeSeen] at read
    rw [loadVersion_whole wholeCurrent] at now
    have afterCurrent := follow (follow (after_self wholeSeen read) onceBetween ranBetween) onceRest ranRest
    obtain ⟨-, found, has, -, same⟩ := afterCurrent
    rw [now] at has
    exact same (Option.some.inj has).symm
  · intro version options mutate now made next read expected updated
    rw [loadVersion_whole wholeSeen] at read
    have afterMiddle := follow (after_self wholeSeen read) onceBetween ranBetween
    obtain ⟨-, found, has, reached, same⟩ := follow afterMiddle onceRest ranRest
    obtain ⟨-, compared, -, -⟩ := update_changes updated
    have still : found = version := by simpa [has] using compared version expected
    obtain ⟨storedMiddle, foundMiddle, hasMiddle, reachedMiddle, sameMiddle⟩ := afterMiddle
    -- the versions in between lie between the version that was read and the one that is found
    have kept : After middle foundMiddle current :=
      invariant_run (fun _ _ _ after once taken => after_step after once taken) _
        (after_self wholeMiddle hasMiddle) onceRest ranRest
    obtain ⟨-, last, hasLast, bound, -⟩ := kept
    rw [has] at hasLast
    cases hasLast
    exact ⟨sameMiddle (by omega), same still⟩

def storedRun (status : MultiAgentRuns.RunStatus) : MultiAgentRun where
  runId := named "mar_1"
  status
  graphId := named "graph"
  activeNodeId := named "manager"

def setStatus (status : MultiAgentRuns.RunStatus) (run : MultiAgentRun) : Except Thrown MultiAgentRun :=
  .ok { run with status }

def savedRecord (status : MultiAgentRuns.RunStatus) (version : Nat) : RunRecord :=
  { run := some (storedRun status), version := some version }

def suspendedOnce : List RunStoreAction :=
  [.save (storedRun .running), .update (setStatus .suspended) {} 0]

theorem versions_name_contents_conditional :
    ∃ made next, update .file "mar_1" (savedRecord .suspended 1) (setStatus .completed)
        { expectedVersion := some 1 } 0 = .ok (made, next) ∧
      (savedRecord .suspended 1).run = some (storedRun .suspended) := by
  have once : Along (stepRun .file "mar_1") SavedOnce {} (suspendedOnce ++ ([.read] ++ [.read])) := by
    decide
  have updated : update .file "mar_1" (savedRecord .suspended 1) (setStatus .completed)
      { expectedVersion := some 1 } 0 = .ok (storedRun .completed, savedRecord .completed 2) := by
    decide
  have same := (versions_name_contents .file "mar_1" suspendedOnce [.read] [.read]
    (savedRecord .suspended 1) (savedRecord .suspended 1) (savedRecord .suspended 1) once
    (by decide) rfl rfl).2 1 { expectedVersion := some 1 } (setStatus .completed) 0
    (storedRun .completed) (savedRecord .completed 2) rfl rfl updated
  exact ⟨_, _, updated, same.2⟩

/-- A second save puts another content under the version that was read, and the update that
expects the version goes through. -/
theorem save_keeps_version :
    ¬ ∀ (kind : RunStoreKind) (runId : String) (first rest : List RunStoreAction)
        (seen current : RunRecord),
      runActions (stepRun kind runId) {} first = some seen →
      runActions (stepRun kind runId) seen rest = some current →
      ∀ version options mutate now made next, loadVersion kind seen = some version →
        options.expectedVersion = some version →
        update kind runId current mutate options now = .ok (made, next) → current.run = seen.run := by
  intro unchanged
  have kept := unchanged .file "mar_1" [.save (storedRun .running)] [.save (storedRun .suspended)]
    (savedRecord .running 0) (savedRecord .suspended 0) (by decide) (by decide)
    0 { expectedVersion := some 0 } (setStatus .completed) 0 (storedRun .completed)
    (savedRecord .completed 1) rfl rfl (by decide)
  revert kept
  decide

end QiongQi.RunVersions
