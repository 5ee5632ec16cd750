import QiongQi.Machines
import QiongQi.ThreadRecords

/-! The scopes of one attachment: `persistAttachment` reads the metadata, merges its own scope
into it and writes it back, and an entry with no scope is open to all. -/
namespace QiongQi.AttachmentScopes
open Machines ThreadRecords

/-- What a create was given, or a request for the content. -/
structure Scope where
  threadId : Option String := none
  workspace : Option String := none
  deriving DecidableEq

structure AttachmentMetadata where
  threadIds : List String := []
  workspaces : List String := []
  deriving DecidableEq

def mergeUnique (values : List String) (value : Option String) : List String :=
  match truthy value with
  | some value => if values.contains value then values else values ++ [value]
  | none => values

def mergeScope (metadata : AttachmentMetadata) (input : Scope) : AttachmentMetadata where
  threadIds := mergeUnique metadata.threadIds input.threadId
  workspaces := mergeUnique metadata.workspaces input.workspace

def isAuthorized (metadata : AttachmentMetadata) (scope : Scope) : Bool :=
  (metadata.threadIds = [] && metadata.workspaces = []) ||
    (truthy scope.threadId).any metadata.threadIds.contains ||
    (truthy scope.workspace).any metadata.workspaces.contains

/-- `resolveContent` returns the content. -/
def resolves (stored : Option AttachmentMetadata) (scope : Scope) : Bool :=
  stored.any fun metadata => isAuthorized metadata scope

/-- The file operation that a create comes to next. -/
inductive Phase where
  | getting (scope : Scope)
  | writingContent (scope : Scope) (next : AttachmentMetadata)
  | writingMetadata (scope : Scope) (next : AttachmentMetadata)
  | returned
  | thrown
  deriving DecidableEq

/-- `completed` lists the scopes of the creates that have written their metadata. -/
structure World where
  stored : Option AttachmentMetadata := none
  calls : List Phase := []
  completed : List Scope := []

inductive Action
  | create (scope : Scope)
  | advance (number : Nat) (fails : Bool)

/-- One file operation of a create. A file that cannot be read counts as missing. -/
def advance (world : World) : Phase → Bool → Option (World × Phase)
  | .getting scope, fails =>
    let existing := if fails then none else world.stored
    some (world, .writingContent scope (mergeScope (existing.getD {}) scope))
  | .writingContent scope next, false => some (world, .writingMetadata scope next)
  | .writingMetadata scope next, false =>
    some ({ world with stored := some next, completed := world.completed ++ [scope] }, .returned)
  | .writingContent _ _, true | .writingMetadata _ _, true => some (world, .thrown)
  | .returned, _ | .thrown, _ => none

def step (world : World) : Action → Option World
  | .create scope => some { world with calls := world.calls ++ [.getting scope] }
  | .advance number fails =>
    match world.calls[number]? with
    | none => none
    | some phase =>
      match advance world phase fails with
      | none => none
      | some (next, later) => some { next with calls := next.calls.set number later }

def isScoped (scope : Scope) : Bool :=
  (truthy scope.threadId).isSome || (truthy scope.workspace).isSome

/-- The content resolves with each of the scopes that a create was given, and without one where
it was given none. -/
def Kept (stored : Option AttachmentMetadata) (scope : Scope) : Prop :=
  ((truthy scope.threadId).isSome = true → resolves stored { threadId := scope.threadId } = true) ∧
    ((truthy scope.workspace).isSome = true → resolves stored { workspace := scope.workspace } = true) ∧
    (isScoped scope = false → resolves stored {} = true)

def Authorised (world : World) : Prop :=
  ∀ scope ∈ world.completed, Kept world.stored scope

/-- No scope is kept, so that everybody may read. -/
def isOpen (metadata : AttachmentMetadata) : Bool :=
  metadata.threadIds = [] && metadata.workspaces = []

/-- The metadata that are written are open; or they are those of a create with a scope, no
create without one was completed, and they have each thread and workspace that is stored. -/
def complete (world : World) : Action → Bool
  | .advance number false =>
    match world.calls[number]? with
    | some (.writingMetadata scope next) =>
      isOpen next || (isScoped scope && world.completed.all isScoped &&
          world.stored.all fun metadata =>
            metadata.threadIds.all next.threadIds.contains &&
              metadata.workspaces.all next.workspaces.contains)
    | _ => true
  | _ => true

theorem mem_mergeUnique :
    other ∈ mergeUnique values value ↔ other ∈ values ∨ truthy value = some other := by
  unfold mergeUnique
  cases given : truthy value with
  | none => simp
  | some value =>
    simp only [List.contains_eq_mem, decide_eq_true_eq, Option.some.injEq]
    by_cases held : value ∈ values
    · rw [if_pos held]
      constructor
      · exact .inl
      · rintro (old | rfl)
        · exact old
        · exact held
    · rw [if_neg held, List.mem_append, List.mem_singleton]
      exact or_congr_right eq_comm

theorem truthy_none : truthy none = none := rfl

/-- The metadata have the thread and the workspace of the scope. -/
def Included (scope : Scope) (metadata : AttachmentMetadata) : Prop :=
  (∀ id, truthy scope.threadId = some id → id ∈ metadata.threadIds) ∧
    ∀ path, truthy scope.workspace = some path → path ∈ metadata.workspaces

variable {metadata : AttachmentMetadata}

theorem resolves_thread {id : String} (given : truthy threadId = some id) :
    resolves (some metadata) { threadId } = true ↔ isOpen metadata = true ∨ id ∈ metadata.threadIds := by
  simp [resolves, isAuthorized, isOpen, given, truthy_none]

theorem resolves_workspace (given : truthy workspace = some path) :
    resolves (some metadata) { workspace } = true ↔ isOpen metadata = true ∨ path ∈ metadata.workspaces := by
  simp [resolves, isAuthorized, isOpen, given, truthy_none]

theorem resolves_unscoped : resolves (some metadata) {} = isOpen metadata := by
  simp [resolves, isAuthorized, isOpen, truthy_none]

theorem kept_iff {scope : Scope} : Kept (some metadata) scope ↔
      isOpen metadata = true ∨ isScoped scope = true ∧ Included scope metadata := by
  constructor
  · rintro ⟨thread, workspace, unscoped⟩
    by_cases open_ : isOpen metadata = true
    · exact .inl open_
    · refine .inr ⟨?_, fun id given => ?_, fun path given => ?_⟩
      · by_contra bare
        rw [resolves_unscoped] at unscoped
        exact open_ (unscoped (by simpa using bare))
      · rw [given, resolves_thread given] at thread
        exact (thread rfl).resolve_left open_
      · rw [given, resolves_workspace given] at workspace
        exact (workspace rfl).resolve_left open_
  · intro either
    refine ⟨fun given => ?_, fun given => ?_, fun bare => ?_⟩
    · obtain ⟨id, given⟩ := Option.isSome_iff_exists.mp given
      exact (resolves_thread given).mpr (either.imp_right fun held => held.2.1 id given)
    · obtain ⟨path, given⟩ := Option.isSome_iff_exists.mp given
      exact (resolves_workspace given).mpr (either.imp_right fun held => held.2.2 path given)
    · rw [resolves_unscoped]
      rcases either with open_ | ⟨limited, -⟩
      · exact open_
      · rw [bare] at limited
        cases limited

theorem not_kept_none : ¬ Kept none scope := by
  rintro ⟨thread, workspace, unscoped⟩
  unfold isScoped at unscoped
  cases given : (truthy scope.threadId).isSome with
  | true => exact absurd (thread given) (by simp [resolves])
  | false =>
    cases placed : (truthy scope.workspace).isSome with
    | true => exact absurd (workspace placed) (by simp [resolves])
    | false =>
      rw [given, placed] at unscoped
      exact absurd (unscoped rfl) (by simp [resolves])

/-- Each thread and workspace of the metadata is that of one of the scopes. -/
def From (scopes : List Scope) (metadata : AttachmentMetadata) : Prop :=
  (∀ id ∈ metadata.threadIds, ∃ scope ∈ scopes, truthy scope.threadId = some id) ∧
    ∀ path ∈ metadata.workspaces, ∃ scope ∈ scopes, truthy scope.workspace = some path

theorem From.mono (known : From scopes metadata) (subset : ∀ scope ∈ scopes, scope ∈ more) :
    From more metadata := by
  constructor
  · intro id held
    obtain ⟨scope, found, given⟩ := known.1 id held
    exact ⟨scope, subset scope found, given⟩
  · intro path held
    obtain ⟨scope, found, given⟩ := known.2 path held
    exact ⟨scope, subset scope found, given⟩

theorem mergeScope_from (known : From scopes metadata) (scope : Scope) :
    From (scopes ++ [scope]) (mergeScope metadata scope) := by
  constructor
  · intro id held
    rcases mem_mergeUnique.mp held with old | new
    · obtain ⟨other, found, given⟩ := known.1 id old
      exact ⟨other, List.mem_append_left _ found, given⟩
    · exact ⟨scope, by simp, new⟩
  · intro path held
    rcases mem_mergeUnique.mp held with old | new
    · obtain ⟨other, found, given⟩ := known.2 path old
      exact ⟨other, List.mem_append_left _ found, given⟩
    · exact ⟨scope, by simp, new⟩

theorem mergeScope_included : Included scope (mergeScope metadata scope) :=
  ⟨fun _ given => mem_mergeUnique.mpr (.inr given), fun _ given => mem_mergeUnique.mpr (.inr given)⟩

/-- What a create is about to write has its own scope, and others of completed creates. -/
def Merged (completed : List Scope) : Phase → Prop
  | .writingContent scope next | .writingMetadata scope next =>
    From (completed ++ [scope]) next ∧ Included scope next
  | _ => True

/-- What holds after every run. -/
structure Tracked (world : World) : Prop where
  known : ∀ metadata, world.stored = some metadata → From world.completed metadata
  writer : ∀ metadata, world.stored = some metadata → ∃ scope ∈ world.completed, Included scope metadata
  merged : ∀ (number : Nat) phase, world.calls[number]? = some phase → Merged world.completed phase

theorem merged_mono (merged : Merged completed phase) (subset : ∀ scope ∈ completed, scope ∈ more) :
    Merged more phase := by
  cases phase with
  | writingContent scope next | writingMetadata scope next =>
    refine ⟨merged.1.mono fun other held => ?_, merged.2⟩
    rcases List.mem_append.mp held with old | own
    · exact List.mem_append_left _ (subset other old)
    · exact List.mem_append_right _ own
  | getting | returned | thrown => trivial

theorem tracked_advance (tracked : Tracked world) (found : world.calls[number]? = some phase)
    (advanced : advance world phase fails = some (after, later)) :
    Tracked { after with calls := after.calls.set number later } := by
  have own := tracked.merged number phase found
  -- The other calls keep what holds of them while the completed creates grow.
  have calls : ∀ completed : List Scope, (∀ scope ∈ world.completed, scope ∈ completed) →
      Merged completed later → ∀ (other : Nat) phase,
        (world.calls.set number later)[other]? = some phase → Merged completed phase := by
    intro completed subset here other phase held
    by_cases same : number = other
    · subst same
      rw [List.getElem?_set_self', found] at held
      cases held
      exact here
    · rw [List.getElem?_set_ne same] at held
      exact merged_mono (tracked.merged other phase held) subset
  cases phase with
  | getting scope =>
    cases advanced
    refine ⟨tracked.known, tracked.writer, calls _ (fun _ held => held) ⟨?_, ?_⟩⟩
    · refine mergeScope_from ?_ scope
      cases stored : (if fails then none else world.stored) with
      | none => exact ⟨fun _ held => (by cases held), fun _ held => (by cases held)⟩
      | some metadata =>
        cases fails with
        | true => cases stored
        | false => exact tracked.known metadata stored
    · exact mergeScope_included
  | writingContent scope next =>
    cases fails with
    | true =>
      cases advanced
      exact ⟨tracked.known, tracked.writer, calls _ (fun _ held => held) trivial⟩
    | false =>
      cases advanced
      exact ⟨tracked.known, tracked.writer, calls _ (fun _ held => held) own⟩
  | writingMetadata scope next =>
    cases fails with
    | true =>
      cases advanced
      exact ⟨tracked.known, tracked.writer, calls _ (fun _ held => held) trivial⟩
    | false =>
      cases advanced
      refine ⟨?_, ?_, calls _ (fun other held => List.mem_append_left _ held) trivial⟩
      · intro metadata same
        cases same
        exact own.1
      · intro metadata same
        cases same
        exact ⟨scope, by simp, own.2⟩
  | returned | thrown => cases advanced

theorem tracked_step (world : World) (action : Action) (next : World) (tracked : Tracked world)
    (stepped : step world action = some next) : Tracked next := by
  cases action with
  | create scope =>
    cases stepped
    refine ⟨tracked.known, tracked.writer, fun number phase held => ?_⟩
    rcases List.mem_append.mp (List.mem_of_getElem? held) with old | new
    · obtain ⟨earlier, found⟩ := List.getElem?_of_mem old
      exact tracked.merged earlier phase found
    · rw [List.mem_singleton.mp new]
      trivial
  | advance number fails =>
    simp only [step] at stepped
    split at stepped
    · cases stepped
    · rename_i phase found
      split at stepped
      · cases stepped
      · rename_i after later advanced
        cases stepped
        exact tracked_advance tracked found advanced

/-- The metadata of a completed create with a scope keep it just where they have what is
stored, if nobody was given open access. -/
theorem written_iff (tracked : Tracked world) (authorised : Authorised world)
    (included : Included scope next) :
    (∀ other ∈ world.completed ++ [scope], Kept (some next) other) ↔
      isOpen next = true ∨ isScoped scope = true ∧ (∀ other ∈ world.completed, isScoped other = true) ∧
        ∀ metadata, world.stored = some metadata → (∀ id ∈ metadata.threadIds, id ∈ next.threadIds) ∧
            ∀ path ∈ metadata.workspaces, path ∈ next.workspaces := by
  by_cases open_ : isOpen next = true
  · exact iff_of_true (fun other _ => kept_iff.mpr (.inl open_)) (.inl open_)
  · simp only [kept_iff, open_, Bool.false_eq_true, false_or]
    constructor
    · intro all
      refine ⟨(all scope (by simp)).1, fun other held => (all other (by simp [held])).1,
        fun metadata stored => ⟨fun id held => ?_, fun path held => ?_⟩⟩
      · obtain ⟨other, found, given⟩ := (tracked.known metadata stored).1 id held
        exact (all other (by simp [found])).2.1 id given
      · obtain ⟨other, found, given⟩ := (tracked.known metadata stored).2 path held
        exact (all other (by simp [found])).2.2 path given
    · rintro ⟨own, limited, kept⟩ other held
      rcases List.mem_append.mp held with old | new
      · refine ⟨limited other old, ?_⟩
        have before := authorised other old
        cases stored : world.stored with
        | none =>
          rw [stored] at before
          exact absurd before not_kept_none
        | some metadata =>
          rw [stored, kept_iff] at before
          obtain ⟨threads, workspaces⟩ := kept metadata stored
          -- The create that wrote the metadata had a scope, so they are not open.
          obtain ⟨writer, foundWriter, has⟩ := tracked.writer metadata stored
          have closed : isOpen metadata ≠ true := by
            intro open_
            simp only [isOpen, Bool.and_eq_true, decide_eq_true_eq] at open_
            have given := limited writer foundWriter
            rcases Bool.or_eq_true_iff.mp given with thread | workspace
            · obtain ⟨id, thread⟩ := Option.isSome_iff_exists.mp thread
              have held := has.1 id thread
              rw [open_.1] at held
              cases held
            · obtain ⟨path, workspace⟩ := Option.isSome_iff_exists.mp workspace
              have held := has.2 path workspace
              rw [open_.2] at held
              cases held
          obtain ⟨-, ids, paths⟩ := before.resolve_left closed
          exact ⟨fun id given => threads id (ids id given),
            fun path given => workspaces path (paths path given)⟩
      · rw [List.mem_singleton.mp new]
        exact ⟨own, included⟩

theorem complete_iff (world : World) (action : Action) (next : World)
    (holds : Tracked world ∧ Authorised world) (stepped : step world action = some next) :
    complete world action = true ↔ Tracked next ∧ Authorised next := by
  obtain ⟨tracked, authorised⟩ := holds
  rw [and_iff_right (tracked_step world action next tracked stepped)]
  cases action with
  | create scope =>
    cases stepped
    exact iff_of_true rfl authorised
  | advance number fails =>
    simp only [step] at stepped
    split at stepped
    · cases stepped
    · rename_i phase found
      split at stepped
      · cases stepped
      · rename_i after later advanced
        cases stepped
        cases phase with
        | returned | thrown => cases advanced
        | getting scope =>
          cases advanced
          refine iff_of_true ?_ authorised
          cases fails with
          | true => rfl
          | false => simp only [complete, found]
        | writingContent scope metadata =>
          cases fails with
          | true =>
            cases advanced
            exact iff_of_true rfl authorised
          | false =>
            cases advanced
            exact iff_of_true (by simp only [complete, found]) authorised
        | writingMetadata scope metadata =>
          cases fails with
          | true =>
            cases advanced
            exact iff_of_true rfl authorised
          | false =>
            cases advanced
            have own := (tracked.merged number _ found).2
            refine Iff.trans ?_ (written_iff tracked authorised own).symm
            simp only [complete, found, Bool.or_eq_true, Bool.and_eq_true, List.all_eq_true,
              Option.all_eq_true, List.contains_eq_mem, decide_eq_true_eq, and_assoc]

theorem tracked_empty : Tracked {} where
  known := fun _ same => by cases same
  writer := fun _ same => by cases same
  merged := fun _ _ held => by simp at held

theorem authorised_empty : Authorised {} := fun _ held => by cases held

/-- In a run of creates, each scope that a completed one was given is authorised at every
moment, just where the metadata that each of them writes are complete. -/
theorem creates_authorised_iff (actions : List Action) (final : World)
    (ran : runActions step {} actions = some final) :
    (∀ front back middle, actions = front ++ back →
        runActions step {} front = some middle → Authorised middle) ↔
      Along step (fun world action => complete world action = true) {} actions :=
  along_iff_reached_beside tracked_step complete_iff actions tracked_empty authorised_empty ran

section Example

private def threadScope (threadId : String) : Scope := { threadId := some threadId }

/-- Two creates one after the other, for two threads. -/
private def inTurn : List Action :=
  [.create (threadScope "a"), .advance 0 false, .advance 0 false, .advance 0 false,
    .create (threadScope "b"), .advance 1 false, .advance 1 false, .advance 1 false]

/-- Both read before the first one writes. -/
private def overlapping : List Action :=
  [.create (threadScope "a"), .advance 0 false, .create (threadScope "b"), .advance 1 false,
    .advance 0 false, .advance 0 false, .advance 1 false, .advance 1 false]

/-- A create without a scope, and then one with. -/
private def unscopedFirst : List Action :=
  [.create {}, .advance 0 false, .advance 0 false, .advance 0 false, .create (threadScope "b"),
    .advance 1 false, .advance 1 false, .advance 1 false]

theorem creates_authorised_two : ∃ final, runActions step {} inTurn = some final ∧
    resolves final.stored (threadScope "a") = true ∧
    resolves final.stored (threadScope "b") = true ∧ Authorised final := by
  have ran : ∃ final, runActions step {} inTurn = some final ∧
      resolves final.stored (threadScope "a") = true ∧
      resolves final.stored (threadScope "b") = true := by decide
  obtain ⟨final, ran, first, second⟩ := ran
  have along : Along step (fun world action => complete world action = true) {} inTurn := by
    decide
  exact ⟨final, ran, first, second, (creates_authorised_iff inTurn final ran).mpr along inTurn []
    final (List.append_nil _).symm ran⟩

/-- A completed create loses its access, to an overlapping one and to a later one. -/
theorem creates_lose_access : (∃ final, runActions step {} overlapping = some final ∧
      final.calls = [.returned, .returned] ∧ resolves final.stored (threadScope "a") = false ∧
      ¬ Authorised final) ∧
    ∃ final, runActions step {} unscopedFirst = some final ∧
      final.calls = [.returned, .returned] ∧ resolves final.stored {} = false ∧
      ¬ Authorised final := by
  constructor
  · have ran : ∃ final, runActions step {} overlapping = some final ∧ final.calls = [.returned, .returned] ∧
        resolves final.stored (threadScope "a") = false ∧
        final.completed = [threadScope "a", threadScope "b"] := by decide
    obtain ⟨final, ran, calls, refused, completed⟩ := ran
    refine ⟨final, ran, calls, refused, fun authorised => ?_⟩
    have kept := (authorised (threadScope "a") (by rw [completed]; simp)).1 (by decide)
    have same : ({ threadId := (threadScope "a").threadId } : Scope) = threadScope "a" := rfl
    rw [same, refused] at kept
    cases kept
  · have ran : ∃ final, runActions step {} unscopedFirst = some final ∧
        final.calls = [.returned, .returned] ∧ resolves final.stored {} = false ∧
        final.completed = [{}, threadScope "b"] := by decide
    obtain ⟨final, ran, calls, refused, completed⟩ := ran
    refine ⟨final, ran, calls, refused, fun authorised => ?_⟩
    have kept := (authorised {} (by rw [completed]; simp)).2.2 (by decide)
    rw [refused] at kept
    cases kept

end Example

end QiongQi.AttachmentScopes
