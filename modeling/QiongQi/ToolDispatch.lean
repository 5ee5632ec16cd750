import QiongQi.JsonTexts
import QiongQi.TurnItems

/-! `ToolCallCoordinator.dispatch`: the calls of a model response are executed one after the
other, read-only ones in parallel batches, and what they answer is persisted in the order of
the calls. -/
namespace QiongQi.ToolDispatch
open JsonValues JsonTexts TurnItems List

inductive ToolKind where
  | toolCall | commandExecution | fileChange
  deriving DecidableEq

inductive ToolProviderKind where
  | builtIn | mcp | web | skill | memory | gui | delegation
  deriving DecidableEq

inductive ApprovalPolicy where
  | onRequest | untrusted | never | auto | suggest
  deriving DecidableEq

/-- `arguments` is the text of the arguments with their keys sorted. -/
structure ToolCallLike where
  callId : String
  toolName : String
  toolKind : Option ToolKind := none
  arguments : String := ""

structure RecentToolCall where
  name : String
  args : String
  readOnly : Bool

structure ToolStormBreaker where
  windowSize : Nat := 8
  threshold : Nat := 3
  recent : List RecentToolCall := []

def mutatingToolNames : List String := ["write", "edit", "edit_diff", "apply_patch", "delete", "move"]

def stormExemptToolNames : List String := ["request_user_input", "user_input"]

def isMutatingToolCall (call : ToolCallLike) : Bool :=
  call.toolKind = some .fileChange || mutatingToolNames.contains call.toolName

def stormReason (name : String) (count : Nat) : String :=
  s!"{name} was called with identical arguments {count + 1} times in this turn; " ++
    "repeat-loop guard suppressed the duplicate. " ++
    "Choose a narrower query or explain why another identical call is needed."

/-- The reason to suppress the call, if any, and the guard after it has seen the call. -/
def ToolStormBreaker.inspect (breaker : ToolStormBreaker) (call : ToolCallLike) :
    Option String × ToolStormBreaker :=
  if stormExemptToolNames.contains call.toolName then (none, breaker)
  else
    let readOnly := !isMutatingToolCall call
    let recent := if readOnly then breaker.recent else breaker.recent.filter (!·.readOnly)
    let count := recent.countP fun entry => entry.name = call.toolName && entry.args = call.arguments
    if count ≥ breaker.threshold - 1 then
      (some (stormReason call.toolName count), { breaker with recent })
    else
      let grown := recent ++ [⟨call.toolName, call.arguments, readOnly⟩]
      (none, { breaker with recent := grown.drop (grown.length - breaker.windowSize) })

/-- A call with what befalls it: what the tool host answers or throws, and whether the turn
is aborted when it throws. -/
structure Request where
  call : ToolCallLike
  answer : Except String TurnItem
  aborted : Bool := false

/-- What `dispatch` is given beside the calls. -/
structure Turn where
  turnId : String
  approvalPolicy : ApprovalPolicy
  toolProviderKinds : String → Option ToolProviderKind
  now : String

def makeToolResultItem (turn : Turn) (id : String) (call : ToolCallLike) (output : Json)
    (isError : Bool) : TurnItem where
  id := id
  turnId := turn.turnId
  status := .completed
  createdAt := turn.now
  finishedAt := some turn.now
  body := .toolResult call.toolName call.callId (stringify output) isError

def includes (text part : String) : Bool :=
  text.toList.tails.any fun rest => part.toList.isPrefixOf rest

def isRecoverableToolDispatchError (message : String) : Bool :=
  "unknown tool:".toList.isPrefixOf message.toList ||
    [" is not provided by ", " is not advertised", " is disabled by policy"].any (includes message)

def dispatchRejected (message : String) : Json :=
  .object [("code", .string "tool_dispatch_rejected"), ("error", .string message),
    ("guidance", .string "Use only tools advertised in the current turn context.")]

/-- A dispatch error is answered for the tool; any other error is thrown. -/
def executeToolCall (turn : Turn) (request : Request) : Except String TurnItem :=
  match request.answer with
  | .ok item => .ok item
  | .error message =>
    if request.aborted || !isRecoverableToolDispatchError message then .error message
    else .ok (makeToolResultItem turn ("item_" ++ request.call.callId) request.call
      (dispatchRejected message) true)

def parallelReadOnlyToolNames : List String := ["read", "grep", "find", "ls"]

def maxParallelToolCalls : Nat := 3

def isParallelSafeToolCall (turn : Turn) (call : ToolCallLike) : Bool :=
  parallelReadOnlyToolNames.contains call.toolName &&
    (call.toolKind.isNone || call.toolKind = some .toolCall) &&
    turn.approvalPolicy ≠ .untrusted && turn.approvalPolicy ≠ .never &&
    turn.toolProviderKinds call.toolName = some .builtIn

/-- What `dispatch` does for the session, in this order. -/
inductive DispatchRecord where
  | executed (request : Request)
  | suppressed (request : Request)
  | updateItem (id : String) (status : ItemStatus)
  | applyItem (item : TurnItem)
  | stormSuppressed (itemId callId message : String)

inductive Ending where
  | continue | aborted
  | threw (message : String)

structure Dispatched where
  log : List DispatchRecord
  ending : Ending

def Dispatched.after (earlier : List DispatchRecord) (later : Dispatched) : Dispatched where
  log := earlier ++ later.log
  ending := later.ending

def callItemId (turn : Turn) (call : ToolCallLike) : String :=
  "item_tool_" ++ turn.turnId ++ "_" ++ call.callId

def isFailedResult (item : TurnItem) : Bool :=
  match item.body with
  | .toolResult _ _ _ isError => isError
  | _ => false

def persistToolCallResult (turn : Turn) (call : ToolCallLike) (item : TurnItem) : List DispatchRecord :=
  [.updateItem (callItemId turn call) (if isFailedResult item then .failed else .completed), .applyItem item]

def persistSuppressedToolCall (turn : Turn) (request : Request) (reason : String) :
    List DispatchRecord :=
  let item := makeToolResultItem turn ("item_" ++ request.call.callId ++ "_storm") request.call
    (.object [("error", .string reason)]) true
  [.suppressed request, .updateItem (callItemId turn request.call) .failed, .applyItem item,
    .stormSuppressed item.id request.call.callId reason]

/-- The loop over the settled members of a batch: the first that was rejected ends it. -/
def persistSettled (turn : Turn) : List Request → Dispatched
  | [] => ⟨[], .continue⟩
  | request :: rest =>
    match executeToolCall turn request with
    | .error message => ⟨[], .threw message⟩
    | .ok item => (persistSettled turn rest).after (persistToolCallResult turn request.call item)

variable {σ : Type} (turn : Turn) (inspect : σ → ToolCallLike → Option String × σ)

/-- The calls that join a batch, the one that was suppressed on the way, and what is left. -/
structure BatchTail (σ : Type) where
  more : List Request
  suppressed : Option (Request × String)
  breaker : σ
  rest : List Request

def batchTail : Nat → σ → List Request → BatchTail σ
  | 0, breaker, requests => ⟨[], none, breaker, requests⟩
  | _ + 1, breaker, [] => ⟨[], none, breaker, []⟩
  | room + 1, breaker, next :: rest =>
    if !isParallelSafeToolCall turn next.call then ⟨[], none, breaker, next :: rest⟩
    else
      match inspect breaker next.call with
      | (some reason, breaker) => ⟨[], some (next, reason), breaker, rest⟩
      | (none, breaker) =>
        let tail := batchTail room breaker rest
        { tail with more := next :: tail.more }

def persistSuppressedAfter (turn : Turn) : Option (Request × String) → List DispatchRecord
  | none => []
  | some (request, reason) => persistSuppressedToolCall turn request reason

/-- `aborted index` is the signal as the loop finds it at that index. Each pass takes at
least one call, so as many passes as there are calls are enough. -/
def dispatchFrom (aborted : Nat → Bool) : Nat → Nat → σ → List Request → Dispatched
  | 0, _, _, _ => ⟨[], .continue⟩
  | _ + 1, _, _, [] => ⟨[], .continue⟩
  | passes + 1, index, breaker, request :: rest =>
    if aborted index then ⟨[], .aborted⟩
    else
      match inspect breaker request.call with
      | (some reason, breaker) =>
        (dispatchFrom aborted passes (index + 1) breaker rest).after
          (persistSuppressedToolCall turn request reason)
      | (none, breaker) =>
        if !isParallelSafeToolCall turn request.call then
          match executeToolCall turn request with
          | .error message => ⟨[.executed request], .threw message⟩
          | .ok item =>
            (dispatchFrom aborted passes (index + 1) breaker rest).after
              (.executed request :: persistToolCallResult turn request.call item)
        else
          let tail := batchTail turn inspect (maxParallelToolCalls - 1) breaker rest
          let batch := request :: tail.more
          let settled := persistSettled turn batch
          let taken := batch.length + tail.suppressed.toList.length
          match settled.ending with
          | .continue =>
            (dispatchFrom aborted passes (index + taken) tail.breaker tail.rest).after
              (batch.map .executed ++ settled.log ++ persistSuppressedAfter turn tail.suppressed)
          | ending => ⟨batch.map .executed ++ settled.log, ending⟩

def dispatch (aborted : Nat → Bool) (breaker : σ) (requests : List Request) : Dispatched :=
  dispatchFrom turn inspect aborted requests.length 0 breaker requests

/-- What one pass of the loop takes from the calls. -/
structure Round where
  start : Nat
  executed : List Request
  suppressed : Option (Request × String)

def roundsFrom : Nat → Nat → σ → List Request → List Round
  | 0, _, _, _ => []
  | _ + 1, _, _, [] => []
  | passes + 1, index, breaker, request :: rest =>
    match inspect breaker request.call with
    | (some reason, breaker) =>
      ⟨index, [], some (request, reason)⟩ :: roundsFrom passes (index + 1) breaker rest
    | (none, breaker) =>
      if !isParallelSafeToolCall turn request.call then
        ⟨index, [request], none⟩ :: roundsFrom passes (index + 1) breaker rest
      else
        let tail := batchTail turn inspect (maxParallelToolCalls - 1) breaker rest
        let batch := request :: tail.more
        ⟨index, batch, tail.suppressed⟩ ::
          roundsFrom passes (index + (batch.length + tail.suppressed.toList.length)) tail.breaker
            tail.rest

/-- The passes that the loop makes over the calls if it is not stopped. -/
def rounds (breaker : σ) (requests : List Request) : List Round :=
  roundsFrom turn inspect requests.length 0 breaker requests

/-- The rounds before the first at whose start the turn is aborted. -/
def begun (aborted : Nat → Bool) (rounds : List Round) : List Round :=
  rounds.takeWhile fun round => !aborted round.start

/-- The call's execution answers it: with a tool result under its id. -/
def resultCallId (item : TurnItem) : Option String :=
  match item.body with
  | .toolResult _ callId _ _ => some callId
  | _ => none

def Answers (turn : Turn) (request : Request) : Prop :=
  ∃ item, executeToolCall turn request = .ok item ∧ resultCallId item = some request.call.callId

def performRound (turn : Turn) (round : Round) : Dispatched :=
  let settled := persistSettled turn round.executed
  match settled.ending with
  | .continue => ⟨round.executed.map .executed ++ settled.log ++
      persistSuppressedAfter turn round.suppressed, .continue⟩
  | ending => ⟨round.executed.map .executed ++ settled.log, ending⟩

def performRounds (turn : Turn) (aborted : Nat → Bool) : List Round → Dispatched
  | [] => ⟨[], .continue⟩
  | round :: rest =>
    if aborted round.start then ⟨[], .aborted⟩
    else
      match (performRound turn round).ending with
      | .continue => (performRounds turn aborted rest).after (performRound turn round).log
      | _ => performRound turn round

variable {turn} {inspect} {aborted : Nat → Bool}

theorem dispatchFrom_eq : ∀ (index : Nat) (breaker : σ) (requests : List Request),
    dispatchFrom turn inspect aborted passes index breaker requests =
      performRounds turn aborted (roundsFrom turn inspect passes index breaker requests) := by
  induction passes with
  | zero => exact fun _ _ _ => rfl
  | succ passes ih =>
    intro index breaker requests
    cases requests with
    | nil => rfl
    | cons request rest =>
      unfold dispatchFrom roundsFrom
      rcases inspect breaker request.call with ⟨_ | reason, seen⟩
      · by_cases safe : isParallelSafeToolCall turn request.call = true
        · simp only [safe, Bool.not_true, Bool.false_eq_true, if_false, performRounds]
          split
          · rfl
          · cases ending : (persistSettled turn (request ::
                (batchTail turn inspect (maxParallelToolCalls - 1) seen rest).more)).ending with
            | «continue» => simp only [performRound, ending, ih]
            | aborted | threw message => simp only [performRound, ending]
        · simp only [safe, Bool.not_false, if_true, performRounds]
          split
          · rfl
          · cases executed : executeToolCall turn request with
            | error message =>
              simp only [performRound, persistSettled, executed, map_cons, map_nil, append_nil]
            | ok item =>
              simp only [performRound, persistSettled, executed, ih, Dispatched.after,
                persistSuppressedAfter, map_cons, map_nil, append_nil,
                singleton_append]
      · simp only [performRounds, performRound, persistSettled, persistSuppressedAfter, ih,
          map_nil, nil_append]

/-- The calls that were executed or suppressed. -/
def taken (log : List DispatchRecord) : List ToolCallLike :=
  log.filterMap fun
    | .executed request => some request.call
    | .suppressed request => some request.call
    | _ => none

def executedIn (log : List DispatchRecord) : List Request :=
  log.filterMap fun
    | .executed request => some request
    | _ => none

/-- The call ids of the tool results, in the order in which they were persisted. -/
def results (log : List DispatchRecord) : List String :=
  log.filterMap fun
    | .applyItem item => resultCallId item
    | _ => none

/-- The calls are taken in their order, each that is taken has one result under its id, the
results are in the order of the calls, and what an execution answered is persisted. -/
structure AnsweredInOrder (turn : Turn) (requests : List Request) (log : List DispatchRecord) :
    Prop where
  inOrder : taken log <+: requests.map Request.call
  each : results log = (taken log).map ToolCallLike.callId
  kept : ∀ request ∈ executedIn log, ∀ item, executeToolCall turn request = .ok item → .applyItem item ∈ log

@[simp] theorem taken_append (first second : List DispatchRecord) :
    taken (first ++ second) = taken first ++ taken second :=
  filterMap_append

@[simp] theorem results_append (first second : List DispatchRecord) :
    results (first ++ second) = results first ++ results second :=
  filterMap_append

@[simp] theorem executedIn_append (first second : List DispatchRecord) :
    executedIn (first ++ second) = executedIn first ++ executedIn second :=
  filterMap_append

@[simp] theorem taken_executed (batch : List Request) :
    taken (batch.map .executed) = batch.map Request.call := by
  induction batch with
  | nil => rfl
  | cons request rest ih => exact congrArg (request.call :: ·) ih

@[simp] theorem results_executed (batch : List Request) : results (batch.map .executed) = [] := by
  induction batch with
  | nil => rfl
  | cons request rest ih => exact ih

@[simp] theorem executedIn_executed (batch : List Request) :
    executedIn (batch.map .executed) = batch := by
  induction batch with
  | nil => rfl
  | cons request rest ih => exact congrArg (request :: ·) ih

@[simp] theorem taken_persist (turn : Turn) (call : ToolCallLike) (item : TurnItem) :
    taken (persistToolCallResult turn call item) = [] := rfl

@[simp] theorem executedIn_persist (turn : Turn) (call : ToolCallLike) (item : TurnItem) :
    executedIn (persistToolCallResult turn call item) = [] := rfl

@[simp] theorem results_persist (turn : Turn) (call : ToolCallLike) (item : TurnItem) :
    results (persistToolCallResult turn call item) = (resultCallId item).toList := by
  unfold persistToolCallResult results
  cases found : resultCallId item <;> simp [found]

theorem suppressed_answered (turn : Turn) (suppressed : Option (Request × String)) :
    results (persistSuppressedAfter turn suppressed) =
        (taken (persistSuppressedAfter turn suppressed)).map ToolCallLike.callId ∧
      taken (persistSuppressedAfter turn suppressed) = suppressed.toList.map (fun pair => pair.1.call) ∧
      executedIn (persistSuppressedAfter turn suppressed) = [] := by
  rcases suppressed with _ | ⟨request, reason⟩ <;> exact ⟨rfl, rfl, rfl⟩

theorem settled_silent (turn : Turn) (batch : List Request) :
    taken (persistSettled turn batch).log = [] ∧ executedIn (persistSettled turn batch).log = [] := by
  induction batch with
  | nil => exact ⟨rfl, rfl⟩
  | cons request rest ih =>
    unfold persistSettled
    split
    · exact ⟨rfl, rfl⟩
    · simp [Dispatched.after, ih]

theorem settled_results_le (turn : Turn) (batch : List Request) :
    (results (persistSettled turn batch).log).length ≤ batch.length := by
  induction batch with
  | nil => exact Nat.le_refl 0
  | cons request rest ih =>
    unfold persistSettled
    split
    · exact Nat.zero_le _
    · rename_i item _
      have one : (resultCallId item).toList.length ≤ 1 := by
        cases resultCallId item <;> simp
      simp only [Dispatched.after, results_append, results_persist, length_append, length_cons]
      omega

/-- The results of a batch are those of its calls exactly when each of them is answered. -/
theorem settled_answered_iff :
    results (persistSettled turn batch).log = batch.map (fun request => request.call.callId) ↔
      ∀ request ∈ batch, Answers turn request := by
  induction batch with
  | nil => simp [persistSettled, results]
  | cons request rest ih =>
    have bound := settled_results_le turn rest
    rw [map_cons, forall_mem_cons, ← ih]
    unfold Answers
    cases executed : executeToolCall turn request with
    | error message => simp [persistSettled, executed, results]
    | ok item =>
      simp only [persistSettled, executed, Dispatched.after, results_append, results_persist, Except.ok.injEq,
        exists_eq_left']
      cases found : resultCallId item with
      | none =>
        refine ⟨fun same => ?_, fun both => by cases both.1⟩
        have lengths := congrArg List.length same
        simp only [Option.toList_none, nil_append, length_cons, length_map] at lengths
        omega
      | some callId =>
        rw [Option.toList_some, singleton_append, List.cons.injEq, Option.some.injEq]

/-- A batch whose members all return goes on, and has persisted what they returned. -/
theorem settled_continues (answered : ∀ request ∈ batch, Answers turn request) :
    (persistSettled turn batch).ending = .continue ∧ ∀ request ∈ batch, ∀ item,
      executeToolCall turn request = .ok item → .applyItem item ∈ (persistSettled turn batch).log := by
  induction batch with
  | nil => exact ⟨rfl, fun _ found => by cases found⟩
  | cons request rest ih =>
    obtain ⟨⟨item, executed, -⟩, others⟩ := forall_mem_cons.mp answered
    obtain ⟨ending, persisted⟩ := ih others
    simp only [persistSettled, executed, Dispatched.after]
    refine ⟨ending, fun other found answer returned => mem_append.mpr ?_⟩
    rcases mem_cons.mp found with rfl | found
    · rw [executed] at returned
      cases returned
      exact .inl (by simp [persistToolCallResult])
    · exact .inr (persisted other found answer returned)

def Round.calls (round : Round) : List ToolCallLike :=
  round.executed.map Request.call ++ round.suppressed.toList.map fun pair => pair.1.call

theorem performRound_results_le (turn : Turn) (round : Round) :
    (results (performRound turn round).log).length ≤ (taken (performRound turn round).log).length := by
  have bound := settled_results_le turn round.executed
  obtain ⟨silent, -⟩ := settled_silent turn round.executed
  obtain ⟨same, -, -⟩ := suppressed_answered turn round.suppressed
  have lengths := congrArg List.length same
  rw [length_map] at lengths
  unfold performRound
  dsimp only
  split <;> simp only [results_append, taken_append, results_executed, taken_executed, silent,
    length_append, length_map, length_nil] <;> omega

variable {round : Round}

theorem performRound_answered_iff : results (performRound turn round).log =
        (taken (performRound turn round).log).map ToolCallLike.callId ↔
      ∀ request ∈ round.executed, Answers turn request := by
  rw [← settled_answered_iff]
  obtain ⟨silent, -⟩ := settled_silent turn round.executed
  obtain ⟨same, -, -⟩ := suppressed_answered turn round.suppressed
  unfold performRound
  dsimp only
  split <;> simp only [results_append, taken_append, results_executed, taken_executed, silent, same,
    map_append, map_map, nil_append, append_nil, append_cancel_right_eq] <;>
    exact Iff.rfl

theorem performRound_answers (answered : ∀ request ∈ round.executed, Answers turn request) :
    (performRound turn round).ending = .continue ∧ taken (performRound turn round).log = round.calls ∧
      executedIn (performRound turn round).log = round.executed ∧
      ∀ request ∈ round.executed, ∀ item, executeToolCall turn request = .ok item →
        .applyItem item ∈ (performRound turn round).log := by
  obtain ⟨ending, persisted⟩ := settled_continues answered
  obtain ⟨silent, unexecuted⟩ := settled_silent turn round.executed
  obtain ⟨-, calls, none⟩ := suppressed_answered turn round.suppressed
  simp only [performRound, ending]
  refine ⟨trivial, ?_, ?_, fun request found item returned => ?_⟩
  · simp only [taken_append, taken_executed, silent, calls, Round.calls, append_nil]
  · simp only [executedIn_append, executedIn_executed, unexecuted, none, append_nil]
  · exact mem_append_left _ (mem_append_right _ (persisted request found item returned))

theorem performRound_taken : taken (performRound turn round).log <+: round.calls := by
  obtain ⟨silent, -⟩ := settled_silent turn round.executed
  obtain ⟨-, calls, -⟩ := suppressed_answered turn round.suppressed
  unfold performRound
  dsimp only
  split <;> simp only [taken_append, taken_executed, silent, calls, Round.calls, append_nil]
  · exact prefix_rfl
  · exact prefix_append _ _

/-- A round after which the loop goes on has taken all of its calls. -/
theorem performRound_continued (going : (performRound turn round).ending = .continue) :
    taken (performRound turn round).log = round.calls := by
  obtain ⟨silent, -⟩ := settled_silent turn round.executed
  obtain ⟨-, calls, -⟩ := suppressed_answered turn round.suppressed
  unfold performRound at going ⊢
  dsimp only at going ⊢
  split at going
  · simp only [taken_append, taken_executed, silent, calls, Round.calls, append_nil]
  · rename_i stopped
    exact absurd going stopped

theorem performRound_stopped (stopped : (performRound turn round).ending ≠ .continue) :
    ¬ ∀ request ∈ round.executed, Answers turn request :=
  fun answered => stopped (performRound_answers answered).1

theorem performRounds_results_le (turn : Turn) (aborted : Nat → Bool) (rounds : List Round) :
    (results (performRounds turn aborted rounds).log).length ≤
      (taken (performRounds turn aborted rounds).log).length := by
  induction rounds with
  | nil => exact Nat.le_refl 0
  | cons round rest ih =>
    have first := performRound_results_le turn round
    unfold performRounds
    split
    · exact Nat.le_refl 0
    · split
      · simp only [Dispatched.after, results_append, taken_append, length_append]
        omega
      · exact first

/-- So the rounds answer what they took exactly when every round that begins does. -/
theorem performRounds_answered_iff (rounds : List Round) :
    results (performRounds turn aborted rounds).log =
        (taken (performRounds turn aborted rounds).log).map ToolCallLike.callId ↔
      ∀ round ∈ begun aborted rounds, ∀ request ∈ round.executed, Answers turn request := by
  induction rounds with
  | nil => simp [performRounds, begun, results, taken]
  | cons round rest ih =>
    cases stop : aborted round.start with
    | true => simp [performRounds, begun, stop, results, taken]
    | false =>
      have more : begun aborted (round :: rest) = round :: begun aborted rest := by
        simp [begun, stop]
      rw [more, forall_mem_cons, ← ih, ← performRound_answered_iff]
      simp only [performRounds, stop, Bool.false_eq_true, if_false]
      split
      · have first := performRound_results_le turn round
        simp only [Dispatched.after, results_append, taken_append, map_append]
        refine ⟨fun same => ?_, fun both => by rw [both.1, both.2]⟩
        have later := performRounds_results_le turn aborted rest
        have lengths := congrArg List.length same
        simp only [length_append, length_map] at lengths
        exact append_inj same (by rw [length_map]; omega)
      · rename_i stopped
        refine ⟨fun same => ?_, fun both => both.1⟩
        exact absurd (performRound_answered_iff.mp same) (performRound_stopped stopped)

theorem performRounds_taken (rounds : List Round) :
    taken (performRounds turn aborted rounds).log <+: rounds.flatMap Round.calls := by
  induction rounds with
  | nil => exact prefix_rfl
  | cons round rest ih =>
    rw [flatMap_cons]
    unfold performRounds
    split
    · exact nil_prefix
    · split
      · rename_i going
        have whole := performRound_continued going
        simp only [Dispatched.after, taken_append, whole]
        exact (prefix_append_right_inj _).mpr ih
      · exact performRound_taken.trans (prefix_append _ _)

theorem batchTail_calls : ∀ (breaker : σ) (requests : List Request),
    (batchTail turn inspect room breaker requests).more ++
        (batchTail turn inspect room breaker requests).suppressed.toList.map Prod.fst ++
        (batchTail turn inspect room breaker requests).rest = requests := by
  induction room with
  | zero => exact fun _ _ => rfl
  | succ room ih =>
    intro breaker requests
    cases requests with
    | nil => rfl
    | cons next rest =>
      unfold batchTail
      split
      · rfl
      · rcases inspect breaker next.call with ⟨_ | reason, seen⟩
        · exact congrArg (next :: ·) (ih seen rest)
        · rfl

/-- The rounds take all of the calls, in their order. -/
theorem roundsFrom_calls : ∀ (index : Nat) (breaker : σ) (requests : List Request), requests.length ≤ passes →
      (roundsFrom turn inspect passes index breaker requests).flatMap Round.calls =
        requests.map Request.call := by
  induction passes with
  | zero =>
    intro index breaker requests few
    rw [length_eq_zero_iff.mp (Nat.le_zero.mp few)]
    rfl
  | succ passes ih =>
    intro index breaker requests few
    cases requests with
    | nil => rfl
    | cons request rest =>
      have fewer : rest.length ≤ passes := Nat.le_of_succ_le_succ few
      unfold roundsFrom
      rcases inspect breaker request.call with ⟨_ | reason, seen⟩
      · dsimp only
        split
        · rw [flatMap_cons, ih _ _ _ fewer]
          rfl
        · have whole : (batchTail turn inspect (maxParallelToolCalls - 1) seen rest).more ++
              (batchTail turn inspect (maxParallelToolCalls - 1) seen rest).suppressed.toList.map
                Prod.fst ++
              (batchTail turn inspect (maxParallelToolCalls - 1) seen rest).rest = rest :=
            batchTail_calls _ _
          have left : (batchTail turn inspect (maxParallelToolCalls - 1) seen rest).rest.length ≤ passes := by
            have lengths := congrArg List.length whole
            simp only [length_append] at lengths
            omega
          rw [flatMap_cons, ih _ _ _ left]
          have calls := congrArg (List.map Request.call) whole
          simp only [map_append, map_map] at calls
          simp only [Round.calls, map_cons, cons_append, append_assoc] at calls ⊢
          exact congrArg (request.call :: ·) calls
      · rw [flatMap_cons, ih _ _ _ fewer]
        rfl

theorem performRounds_kept {rounds : List Round} (answered : ∀ round ∈ begun aborted rounds,
      ∀ request ∈ round.executed, Answers turn request) :
    ∀ request ∈ executedIn (performRounds turn aborted rounds).log, ∀ item,
      executeToolCall turn request = .ok item →
        .applyItem item ∈ (performRounds turn aborted rounds).log := by
  induction rounds with
  | nil => exact fun _ found => by cases found
  | cons round rest ih =>
    intro request found item returned
    cases stop : aborted round.start with
    | true =>
      simp only [performRounds, stop, if_true] at found
      cases found
    | false =>
      have more : begun aborted (round :: rest) = round :: begun aborted rest := by
        simp [begun, stop]
      rw [more, forall_mem_cons] at answered
      obtain ⟨going, -, executed, persisted⟩ := performRound_answers answered.1
      simp only [performRounds, stop, Bool.false_eq_true, if_false, going, Dispatched.after,
        executedIn_append, executed, mem_append] at found ⊢
      rcases found with found | found
      · exact .inl (persisted request found item returned)
      · exact .inr (ih answered.2 request found item returned)

/-- Every call that is taken gets its one result, in the order of the calls and without a loss,
exactly when every call that a round executes before an abort is answered. -/
theorem dispatch_answers_iff (turn : Turn) (inspect : σ → ToolCallLike → Option String × σ)
    (aborted : Nat → Bool) (breaker : σ) (requests : List Request) :
    AnsweredInOrder turn requests (dispatch turn inspect aborted breaker requests).log ↔
      ∀ round ∈ begun aborted (rounds turn inspect breaker requests),
        ∀ request ∈ round.executed, Answers turn request := by
  unfold dispatch
  rw [dispatchFrom_eq, ← performRounds_answered_iff]
  refine ⟨AnsweredInOrder.each, fun each => ⟨?_, each, ?_⟩⟩
  · rw [← roundsFrom_calls 0 breaker requests (Nat.le_refl _)]
    exact performRounds_taken _
  · exact performRounds_kept ((performRounds_answered_iff _).mp each)

def readCall (callId path : String) : ToolCallLike where
  callId := callId
  toolName := "read"
  arguments := path

def sampleTurn : Turn where
  turnId := "turn"
  approvalPolicy := .auto
  toolProviderKinds _ := some .builtIn
  now := "2024-01-01T00:00:00.000Z"

/-- Two reads in one batch: the first throws, the second has read its file. -/
def throwingBatch : List Request :=
  [{ call := readCall "call_1" "a", answer := .error "disk failure" },
   { call := readCall "call_2" "b"
     answer := .ok (makeToolResultItem sampleTurn "item_call_2" (readCall "call_2" "b") .null false) }]

/-- The result of the second is dropped. -/
theorem finished_result_dropped : ¬ AnsweredInOrder sampleTurn throwingBatch
      (dispatch sampleTurn ToolStormBreaker.inspect (fun _ => false) {} throwingBatch).log := by
  intro answered
  have each := answered.each
  revert each
  decide

end QiongQi.ToolDispatch
