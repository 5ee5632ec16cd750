import QiongQi.ItemLogs

/-! An interrupted turn that is discarded: `discardTurnItems` loads the items of the thread
and rewrites `messages.jsonl` from them, while other calls append to the file. -/
namespace QiongQi.TurnDiscards
open Machines KeyedMaps RewrittenLogs TurnItems ItemLogs
open List hiding after

def isUserMessage (item : TurnItem) : Bool :=
  match item.body with
  | .userMessage .. => true
  | _ => false

/-- What a discard of the turn leaves. -/
def keeps (turnId : String) (item : TurnItem) : Bool :=
  item.turnId ≠ turnId || isUserMessage item

/-- What the discards of the turns leave. -/
def kept (discarded : List String) (item : TurnItem) : Bool :=
  !discarded.contains item.turnId || isUserMessage item

/-- The operation that a call of `applyItem` or `interruptTurn` comes to next. -/
inductive Phase
  | appending (item : TurnItem)
  | projecting
  | recording (turnId : String) (discard : Bool)
  | loading (turnId : String)
  | rewriting (turnId : String) (items : List TurnItem)
  | upserting
  | returned
  | thrown
  deriving DecidableEq

/-- `appended` lists the lines as their appends took place, and `discarded` the turns whose
items have been rewritten. -/
structure World where
  log : List TurnItem
  calls : List Phase
  appended : List TurnItem
  discarded : List String
  deriving DecidableEq

inductive Action
  | applyItem (item : TurnItem)
  | interruptTurn (turnId : String) (discard : Bool)
  | advance (number : Nat) (fails : Bool)

/-- One awaited operation of a call. One that fails has written nothing. -/
def advance (world : World) : Phase → Option (World × Phase)
  | .appending item =>
    some ({ world with log := world.log ++ [item], appended := world.appended ++ [item] }, .projecting)
  | .projecting | .upserting => some (world, .returned)
  | .recording turnId discard => some (world, if discard then .loading turnId else .upserting)
  | .loading turnId => some (world, .rewriting turnId (loadItems world.log))
  | .rewriting turnId items =>
    some ({ world with
      log := items.filter (keeps turnId)
      discarded := turnId :: world.discarded }, .upserting)
  | .returned | .thrown => none

def step (world : World) : Action → Option World
  | .applyItem item => some { world with calls := world.calls ++ [.appending item] }
  | .interruptTurn turnId discard =>
    some { world with calls := world.calls ++ [.recording turnId discard] }
  | .advance number fails =>
    match world.calls[number]? with
    | none => none
    | some phase =>
      match advance world phase with
      | none => none
      | some (next, later) =>
        if fails then some { world with calls := world.calls.set number .thrown }
        else some { next with calls := world.calls.set number later }

/-- The session has the items that were appended for turns that have not been discarded, each
with its latest content and in their order, and of the discarded turns the user messages. -/
def Cleared (world : World) : Prop :=
  loadItems world.log = loadItems (world.appended.filter (kept world.discarded))

/-- No id stands both for an item that a discard of the turn leaves and for one that it does
not. -/
def idsApart (world : World) (turnId : String) : Bool :=
  (world.appended.filter (kept world.discarded)).all fun item =>
    (world.appended.filter (kept world.discarded)).all fun other =>
      item.id ≠ other.id || keeps turnId item = keeps turnId other

/-- An item is appended whose turn has not been discarded, and a log is rewritten that still
has the items that were loaded from it. -/
def timely (world : World) : Action → Bool
  | .advance number false =>
    match world.calls[number]? with
    | some (.appending item) => kept world.discarded item
    | some (.rewriting turnId items) =>
      items.filter (keeps turnId) = (loadItems world.log).filter (keeps turnId) &&
        idsApart world turnId
    | _ => true
  | _ => true

theorem loadItems_contents (raw : List TurnItem) : loadItems raw = contents TurnItem.id raw :=
  loadItems_eq raw

theorem loadItems_append (raw : List TurnItem) (item : TurnItem) :
    loadItems (raw ++ [item]) = setEntry TurnItem.id item (loadItems raw) := by
  rw [loadItems_contents, loadItems_contents, contents_append]

theorem loadItems_filter : loadItems ((loadItems raw).filter p) = (loadItems raw).filter p := by
  have distinct : ((loadItems raw).map TurnItem.id).Nodup := by
    rw [loadItems_contents, keys_contents]
    exact nodup_byFirst _
  rw [loadItems_contents, contents_nodup]
  exact distinct.sublist (filter_sublist.map TurnItem.id)

theorem kept_cons :
    kept (turnId :: discarded) item = (keeps turnId item && kept discarded item) := by
  unfold kept keeps
  by_cases same : item.turnId = turnId
  · simp [same]
    cases isUserMessage item <;> simp
  · simp [same]

/-- What a timely operation of a call leaves of a cleared session. -/
theorem advance_cleared (cleared : Cleared world) (found : world.calls[number]? = some phase)
    (fair : timely world (.advance number false) = true)
    (advanced : advance world phase = some (after, later)) : Cleared after := by
  unfold Cleared at cleared
  cases phase with
  | appending item =>
    cases advanced
    have open_ : kept world.discarded item = true := by simpa only [timely, found] using fair
    show loadItems (world.log ++ [item]) =
      loadItems ((world.appended ++ [item]).filter (kept world.discarded))
    rw [filter_append, filter_cons_of_pos open_, filter_nil, loadItems_append, loadItems_append, cleared]
  | rewriting turnId items =>
    cases advanced
    simp only [timely, found, Bool.and_eq_true, decide_eq_true_eq] at fair
    obtain ⟨current, apart⟩ := fair
    have alike : ∀ item ∈ world.appended.filter (kept world.discarded),
        ∀ other ∈ world.appended.filter (kept world.discarded), item.id = other.id →
          keeps turnId item = keeps turnId other := by
      intro item held other heldOther named
      have told := all_eq_true.mp (all_eq_true.mp apart item held) other heldOther
      simpa [named] using told
    calc loadItems (items.filter (keeps turnId))
        = (loadItems world.log).filter (keeps turnId) := by rw [current, loadItems_filter]
      _ = (loadItems (world.appended.filter (kept world.discarded))).filter (keeps turnId) := by
        rw [cleared]
      _ = loadItems ((world.appended.filter (kept world.discarded)).filter (keeps turnId)) := by
        rw [loadItems_contents, loadItems_contents, contents_filter alike]
      _ = loadItems (world.appended.filter (kept (turnId :: world.discarded))) := by
        rw [filter_filter]
        congr 1
        exact filter_congr fun item _ => kept_cons.symm
  | projecting | recording | loading | upserting =>
    cases advanced
    exact cleared
  | returned | thrown => cases advanced

theorem cleared_step (world : World) (action : Action) (next : World) (cleared : Cleared world)
    (fair : timely world action = true) (stepped : step world action = some next) :
    Cleared next := by
  cases action with
  | applyItem item | interruptTurn turnId discard =>
    cases stepped
    exact cleared
  | advance number fails =>
    simp only [step] at stepped
    split at stepped
    · cases stepped
    · rename_i phase found
      split at stepped
      · cases stepped
      · rename_i after later advanced
        cases fails with
        | true =>
          cases stepped
          exact cleared
        | false =>
          have left : Cleared after := advance_cleared cleared found fair advanced
          cases stepped
          exact left

/-- In a run of timely steps the session has, in every state that is reached, the items that
were appended and of the discarded turns only the user messages. -/
theorem discard_cleared (log : List TurnItem) (calls : List Phase) (actions : List Action)
    (final : World) (ran : runActions step ⟨log, calls, log, []⟩ actions = some final)
    (along : Along step (fun world action => timely world action = true) ⟨log, calls, log, []⟩
      actions) : Cleared final := by
  refine invariant_run cleared_step actions ?_ along ran
  show loadItems log = loadItems (log.filter (kept []))
  rw [filter_eq_self.mpr]
  intro item _
  simp [kept]

section Example

private def promptOf (turnId : String) : TurnItem :=
  { id := s!"item_{turnId}_user", turnId, status := .completed, body := .userMessage "go" [] }

private def replyOf (turnId : String) : TurnItem :=
  { id := s!"item_{turnId}_text", turnId, status := .completed, body := .assistantText "so" }

private def emptySession : World := ⟨[], [], [], []⟩

/-- Two turns have begun, the first has answered and is interrupted. -/
private def firstInterrupted : List Action :=
  [.applyItem (promptOf "t1"), .advance 0 false, .applyItem (promptOf "t2"), .advance 1 false,
    .applyItem (replyOf "t1"), .advance 2 false, .interruptTurn "t1" true, .advance 3 false]

/-- The other turn answers when the discard is over. -/
private def discardThenReply : List Action :=
  firstInterrupted ++ [.advance 3 false, .advance 3 false, .applyItem (replyOf "t2"), .advance 4 false]

/-- The other turn answers while the discard has loaded the items. -/
private def replyInDiscard : List Action :=
  firstInterrupted ++ [.advance 3 false, .applyItem (replyOf "t2"), .advance 4 false, .advance 3 false,
      .advance 3 false]

/-- The interrupted turn answers once more when the discard is over. -/
private def replyAfterDiscard : List Action :=
  firstInterrupted ++ [.advance 3 false, .advance 3 false, .advance 3 false, .applyItem (replyOf "t1"),
      .advance 4 false]

theorem discard_cleared_two : ∃ final, runActions step emptySession discardThenReply = some final ∧
    final.log = [promptOf "t1", promptOf "t2", replyOf "t2"] ∧ Cleared final := by
  have ran : runActions step emptySession discardThenReply =
      some ⟨[promptOf "t1", promptOf "t2", replyOf "t2"],
        [.projecting, .projecting, .projecting, .upserting, .projecting],
        [promptOf "t1", promptOf "t2", replyOf "t1", replyOf "t2"], ["t1"]⟩ := by
    decide
  have along : Along step (fun world action => timely world action = true) emptySession
      discardThenReply := by decide
  exact ⟨_, ran, rfl, discard_cleared [] [] discardThenReply _ ran along⟩

/-- The answer of the other turn is lost, and an answer of the interrupted turn comes back. -/
theorem discard_loses_and_revives :
    (∃ final, runActions step emptySession replyInDiscard = some final ∧
      final.calls[3]? = some .returned ∧ final.appended.getLast? = some (replyOf "t2") ∧
      final.log = [promptOf "t1", promptOf "t2"] ∧ ¬ Cleared final) ∧
    ∃ final, runActions step emptySession replyAfterDiscard = some final ∧
      final.calls[3]? = some .returned ∧ replyOf "t1" ∈ loadItems final.log ∧ ¬ Cleared final := by
  refine ⟨⟨⟨[promptOf "t1", promptOf "t2"], [.projecting, .projecting, .projecting, .returned, .projecting],
      [promptOf "t1", promptOf "t2", replyOf "t1", replyOf "t2"], ["t1"]⟩, ?_, rfl, rfl, rfl, ?_⟩,
    ⟨[promptOf "t1", promptOf "t2", replyOf "t1"],
      [.projecting, .projecting, .projecting, .returned, .projecting],
      [promptOf "t1", promptOf "t2", replyOf "t1", replyOf "t1"], ["t1"]⟩, ?_, rfl, ?_, ?_⟩
  · decide
  · unfold Cleared
    decide
  · decide
  · decide
  · unfold Cleared
    decide

end Example

end QiongQi.TurnDiscards
