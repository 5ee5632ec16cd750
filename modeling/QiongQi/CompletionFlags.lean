import QiongQi.ProtocolMarkers

/-! The flag of a completion that says whether its tool calls are complete, beside what the
chunks of the stream tell of each call. -/
namespace QiongQi.CompletionFlags
open JsonValues KeyedMaps Machines ModelProposals ProtocolMarkers RuntimeContracts
open List hiding drop

/-- The id of the call that a chunk is about. -/
def callIdOf : ModelStreamChunk → Option String
  | .toolCallDelta callId .. => some callId
  | .toolCallComplete callId .. => some callId
  | _ => none

/-- The call that a chunk completes. -/
def intentOf : ModelStreamChunk → Option ToolIntent
  | .toolCallComplete callId toolName (.object arguments) =>
    if callId = "" ∨ toolName = "" then none else some { callId, toolName, arguments }
  | _ => none

/-- A chunk that should complete a call, and has no id, no name or no object for it. -/
def IsMalformed (chunk : ModelStreamChunk) : Prop :=
  (∃ callId toolName arguments, chunk = .toolCallComplete callId toolName arguments) ∧ intentOf chunk = none

def lastComplete (callId : String) (input : List ModelStreamChunk) : Option ToolIntent :=
  (input.filterMap intentOf).reverse.find? (·.callId = callId)

def deltasOf (callId : String) (input : List ModelStreamChunk) : String :=
  String.join <| input.map fun chunk =>
    match chunk with
    | .toolCallDelta other _ argumentsDelta => if other = callId then argumentsDelta.getD "" else ""
    | _ => ""

def readPieces (callId : String) (pieces : Option PendingCall) (chunk : ModelStreamChunk) :
    Option PendingCall :=
  match chunk with
  | .toolCallDelta other toolName argumentsDelta =>
    if other = callId then
      let current := pieces.getD { callId }
      some { current with
        toolName := (toolName.filter (· ≠ "")).or current.toolName
        arguments := current.arguments ++ argumentsDelta.getD "" }
    else pieces
  | chunk => if (intentOf chunk).any (·.callId = callId) then none else pieces

/-- The pieces of a call that came after it was completed last. -/
def openPieces (callId : String) (input : List ModelStreamChunk) : Option PendingCall :=
  input.foldl (readPieces callId) none

/-- Pieces that make a call. -/
def Formed (call : PendingCall) : Prop :=
  ∃ toolName arguments, call.toolName = some toolName ∧
    JsonTexts.parse call.arguments = some (.object arguments)

/-- The arguments of the chunk that completes the call, or else those its deltas spell. -/
def ArgumentsOf (callId : String) (input : List ModelStreamChunk) (arguments : List (String × Json)) : Prop :=
  (∃ intent, lastComplete callId input = some intent ∧ arguments = intent.arguments) ∨
    lastComplete callId input = none ∧ JsonTexts.parse (deltasOf callId input) = some (.object arguments)

/-- The flag is set just when no call was malformed and every call has its intent, under its id
as the schema trims it, and the intents have the arguments of their calls. -/
structure Exact (input : List ModelStreamChunk) (completion : NormalizedModelCompletion) :
    Prop where
  flag : completion.integrity.completeToolCalls = true ↔ completion.integrity.malformedToolCall = false ∧
      ∀ chunk ∈ input, ∀ callId, callIdOf chunk = some callId →
        ∃ intent ∈ completion.toolIntents, intent.callId.text = jsTrim callId
  arguments : ∀ intent ∈ completion.toolIntents, ∃ callId, intent.callId.text = jsTrim callId ∧
    ArgumentsOf callId input intent.arguments

/-- No call is left in pieces, or some call is malformed. -/
def Settled (input : List ModelStreamChunk) : Prop :=
  (∀ callId, openPieces callId input = none) ∨ (∃ chunk ∈ input, IsMalformed chunk) ∨
    ∃ callId call, openPieces callId input = some call ∧ ¬ Formed call

/-- The state has of each call what the chunks tell of it. -/
structure Told (input : List ModelStreamChunk) (state : NormalizerState) : Prop where
  pendingKeyed : Keyed PendingCall.callId state.pending
  intentsKeyed : Keyed ToolIntent.callId state.intents
  pending : ∀ callId, find PendingCall.callId callId state.pending = openPieces callId input
  intents : ∀ callId, find ToolIntent.callId callId state.intents = lastComplete callId input
  malformed : state.malformedToolCall = true ↔ ∃ chunk ∈ input, IsMalformed chunk

theorem openPieces_append :
    openPieces callId (input ++ [chunk]) = readPieces callId (openPieces callId input) chunk := by
  simp [openPieces]

theorem lastComplete_append : lastComplete callId (input ++ [chunk]) =
      ((intentOf chunk).filter (·.callId = callId)).or (lastComplete callId input) := by
  cases intent : intentOf chunk with
  | none => simp [intent, lastComplete]
  | some intent' =>
    by_cases same : intent'.callId = callId <;> simp [intent, same, lastComplete, Option.filter]

theorem malformed_append : (∃ other ∈ input ++ [chunk], IsMalformed other) ↔
      (∃ other ∈ input, IsMalformed other) ∨ IsMalformed chunk := by
  simp [or_and_right, exists_or]

theorem openPieces_named (found : openPieces callId input = some call) : call.callId = callId := by
  induction input using List.reverseRecOn generalizing call with
  | nil => cases found
  | append_singleton front chunk ih =>
    rw [openPieces_append] at found
    unfold readPieces at found
    split at found
    · split at found
      · cases found
        cases earlier : openPieces callId front with
        | none => rfl
        | some current =>
          have named := ih earlier
          exact named
      · exact ih found
    · split at found
      · cases found
      · exact ih found

section
variable (told : Told input state)
include told

theorem told_other {next : NormalizerState}
    (pending : next.pending = state.pending) (intents : next.intents = state.intents)
    (none_ : intentOf chunk = none) (pieces : ∀ callId pieces, readPieces callId pieces chunk = pieces)
    (malformed : next.malformedToolCall = true ↔
      state.malformedToolCall = true ∨ IsMalformed chunk) : Told (input ++ [chunk]) next := by
  constructor
  · rw [pending]
    exact told.pendingKeyed
  · rw [intents]
    exact told.intentsKeyed
  · intro callId
    rw [pending, openPieces_append, pieces, told.pending]
  · intro callId
    rw [intents, lastComplete_append, none_, told.intents]
    rfl
  · rw [malformed, malformed_append, told.malformed]

theorem told_delta :
    Told (input ++ [.toolCallDelta callId toolName argumentsDelta])
      (state.read (.toolCallDelta callId toolName argumentsDelta)) := by
  have current : state.pending.find? (·.callId = callId) = openPieces callId input :=
    told.pending callId
  obtain ⟨call, pieces, named, next⟩ : ∃ call, readPieces callId (openPieces callId input)
        (.toolCallDelta callId toolName argumentsDelta) = some call ∧ call.callId = callId ∧
      state.read (.toolCallDelta callId toolName argumentsDelta) =
        { state with pending := setEntry PendingCall.callId call state.pending } := by
    refine ⟨_, by rw [readPieces, if_pos rfl], ?_, by simp only [NormalizerState.read, current]⟩
    cases found : openPieces callId input with
    | none => rfl
    | some call =>
      have same := openPieces_named found
      exact same
  rw [next]
  constructor
  · exact keyed_setEntry told.pendingKeyed
  · exact told.intentsKeyed
  · intro other
    rw [openPieces_append]
    by_cases same : callId = other
    · rw [← same, pieces, ← named]
      exact find_setEntry_self call told.pendingKeyed
    · rw [find_setEntry_other told.pendingKeyed (by rwa [named]), told.pending, readPieces, if_neg same]
  · intro other
    rw [lastComplete_append, told.intents]
    rfl
  · rw [malformed_append, told.malformed]
    simp [IsMalformed]

theorem told_complete (full : ¬ (callId = "" ∨ toolName = "")) :
    Told (input ++ [.toolCallComplete callId toolName (.object arguments)])
      (state.read (.toolCallComplete callId toolName (.object arguments))) := by
  have intent : intentOf (.toolCallComplete callId toolName (.object arguments)) =
      some { callId, toolName, arguments } := by rw [intentOf, if_neg full]
  simp only [NormalizerState.read, if_neg full]
  constructor
  · exact keyed_drop told.pendingKeyed
  · exact keyed_setEntry told.intentsKeyed
  · intro other
    have pieces : readPieces other (openPieces other input)
        (.toolCallComplete callId toolName (.object arguments)) =
          if callId = other then none else openPieces other input := by
      show (if (intentOf _).any _ then none else _) = _
      rw [intent]
      simp
    show find _ other (drop PendingCall.callId callId state.pending) = _
    rw [openPieces_append, pieces]
    by_cases same : callId = other
    · rw [if_pos same, ← same, find_drop_self]
    · rw [if_neg same, find_drop_other (Ne.symm same), told.pending]
  · intro other
    rw [lastComplete_append, intent, ← told.intents]
    by_cases same : callId = other
    · rw [← same, find_setEntry_self (ToolIntent.mk callId toolName arguments) told.intentsKeyed]
      simp [Option.filter]
    · rw [find_setEntry_other told.intentsKeyed same]
      simp [same, Option.filter]
  · rw [malformed_append, told.malformed]
    simp [IsMalformed, intent]

theorem told_read : Told (input ++ [chunk]) (state.read chunk) := by
  cases chunk with
  | toolCallDelta callId toolName argumentsDelta => exact told_delta told
  | toolCallComplete callId toolName arguments =>
    by_cases full : ∃ fields, arguments = .object fields ∧ ¬ (callId = "" ∨ toolName = "")
    · obtain ⟨fields, rfl, full⟩ := full
      exact told_complete told full
    · have refused : intentOf (.toolCallComplete callId toolName arguments) = none := by
        cases arguments with
        | object fields =>
          rw [intentOf, if_pos (by_contra fun filled => full ⟨fields, rfl, filled⟩)]
        | _ => rfl
      have next : state.read (.toolCallComplete callId toolName arguments) =
          { state with malformedToolCall := true } := by
        cases arguments with
        | object fields =>
          rw [NormalizerState.read, if_pos (by_contra fun filled => full ⟨fields, rfl, filled⟩)]
        | _ => rfl
      rw [next]
      refine told_other told rfl rfl refused (fun other pieces => ?_) (by simp [IsMalformed, refused])
      show (if (intentOf _).any _ then none else _) = _
      rw [refused]
      rfl
  | _ => exact told_other told rfl rfl rfl (fun _ _ => rfl) (by simp [IsMalformed, NormalizerState.read])

end

theorem told_all (input : List ModelStreamChunk) : Told input (input.foldl NormalizerState.read {}) := by
  induction input using List.reverseRecOn with
  | nil => exact ⟨nofun, nofun, fun _ => rfl, fun _ => rfl, by simp⟩
  | append_singleton front chunk ih =>
    rw [foldl_append]
    exact told_read ih

theorem finishCalls_pending (calls : List PendingCall) (state : NormalizerState) :
    (calls.foldl NormalizerState.finishCall state).pending = state.pending := by
  induction calls generalizing state with
  | nil => rfl
  | cons call rest ih =>
    rw [foldl_cons, ih, NormalizerState.finishCall]
    split <;> rfl

theorem finishCall_formed (formed : Formed call) (state : NormalizerState) : ∃ intent,
    intent.callId = call.callId ∧ state.finishCall call =
      { state with intents := setEntry ToolIntent.callId intent state.intents } := by
  obtain ⟨toolName, arguments, named, parsed⟩ := formed
  refine ⟨{ callId := call.callId, toolName, arguments }, rfl, ?_⟩
  rw [NormalizerState.finishCall, named, parsed]

theorem finishCall_unformed (unformed : ¬ Formed call) (state : NormalizerState) :
    state.finishCall call = { state with malformedToolCall := true } := by
  unfold NormalizerState.finishCall
  split
  · rename_i toolName arguments named parsed
    exact absurd ⟨toolName, arguments, named, parsed⟩ unformed
  · rfl

theorem finishCalls_malformed (calls : List PendingCall) :
    (calls.foldl NormalizerState.finishCall state).malformedToolCall = true ↔
      state.malformedToolCall = true ∨ ∃ call ∈ calls, ¬ Formed call := by
  induction calls generalizing state with
  | nil => simp
  | cons call rest ih =>
    rw [foldl_cons, ih, exists_mem_cons_iff]
    by_cases formed : Formed call
    · obtain ⟨intent, -, next⟩ := finishCall_formed formed state
      simp [next, formed]
    · simp [finishCall_unformed formed, formed]

/-- Formed pieces get an intent, and an intent that is there stays there for its id. -/
theorem finishCalls_intents {calls : List PendingCall} (formed : ∀ call ∈ calls, Formed call)
    (held : (∃ call ∈ calls, call.callId = callId) ∨ ∃ intent ∈ state.intents, intent.callId = callId) :
    ∃ intent ∈ (calls.foldl NormalizerState.finishCall state).intents, intent.callId = callId := by
  induction calls generalizing state with
  | nil => simpa using held
  | cons call rest ih =>
    refine ih (fun other found => formed other (mem_cons_of_mem _ found)) ?_
    obtain ⟨intent, named, next⟩ := finishCall_formed (formed call mem_cons_self) state
    rw [next]
    rcases held with ⟨other, found, same⟩ | ⟨old, found, same⟩
    · rcases mem_cons.mp found with rfl | found
      · exact .inr ⟨intent, mem_setEntry.mpr (.inl rfl), named.trans same⟩
      · exact .inl ⟨other, found, same⟩
    · by_cases again : intent.callId = callId
      · exact .inr ⟨intent, mem_setEntry.mpr (.inl rfl), again⟩
      · exact .inr ⟨old, mem_setEntry.mpr (.inr ⟨found, fun other => again (other ▸ same)⟩), same⟩

theorem parse_parts {intent : ToolIntent} {other : ModelToolIntent} (parsed : intent.parse = some other) :
    other.callId.text = jsTrim intent.callId ∧ other.arguments = intent.arguments := by
  obtain ⟨callId, named, parsed⟩ := Option.bind_eq_some_iff.mp parsed
  obtain ⟨toolName, -, parsed⟩ := Option.bind_eq_some_iff.mp parsed
  cases parsed
  unfold NonEmptyString.parse at named
  split at named
  · cases named
    exact ⟨rfl, rfl⟩
  · cases named

theorem parseAll_mem {intents : List ToolIntent} (parsed : intents.mapM ToolIntent.parse = some others) :
    (∀ intent ∈ intents, ∃ other ∈ others, intent.parse = some other) ∧
      ∀ other ∈ others, ∃ intent ∈ intents, intent.parse = some other := by
  induction intents generalizing others with
  | nil =>
    cases parsed
    exact ⟨nofun, nofun⟩
  | cons intent rest ih =>
    rw [mapM_cons] at parsed
    obtain ⟨first, here, parsed⟩ := Option.bind_eq_some_iff.mp parsed
    obtain ⟨later, behind, parsed⟩ := Option.bind_eq_some_iff.mp parsed
    cases parsed
    obtain ⟨there, back⟩ := ih behind
    refine ⟨forall_mem_cons.mpr ⟨⟨first, mem_cons_self, here⟩, ?_⟩,
      forall_mem_cons.mpr ⟨⟨intent, mem_cons_self, here⟩, ?_⟩⟩
    · intro other found
      obtain ⟨same, held, parsed⟩ := there other found
      exact ⟨same, mem_cons_of_mem _ held, parsed⟩
    · intro other found
      obtain ⟨same, held, parsed⟩ := back other found
      exact ⟨same, mem_cons_of_mem _ held, parsed⟩

/-- A chunk completes the call or leaves its pieces. -/
theorem readPieces_kept (callId : String) (chunk : ModelStreamChunk) :
    ((intentOf chunk).filter (·.callId = callId)).isSome ∨
      (pieces.isSome → (readPieces callId pieces chunk).isSome) := by
  unfold readPieces
  split
  · refine .inr fun some_ => ?_
    split
    · rfl
    · exact some_
  · cases intentOf chunk with
    | none => exact .inr fun some_ => some_
    | some intent =>
      by_cases same : intent.callId = callId
      · exact .inl (by simp [Option.filter, same])
      · exact .inr fun some_ => by simpa [same] using some_

/-- Where no chunk is malformed, a call that occurs is in pieces or was completed. -/
theorem told_of_call (formed : ∀ chunk ∈ input, ¬ IsMalformed chunk) (found : chunk ∈ input)
    (about : callIdOf chunk = some callId) :
    (openPieces callId input).isSome ∨ (lastComplete callId input).isSome := by
  induction input using List.reverseRecOn with
  | nil => cases found
  | append_singleton front last ih =>
    have formedLast := formed last (by simp)
    rw [openPieces_append, lastComplete_append, Option.isSome_or]
    rcases mem_append.mp found with earlier | final
    · have told := ih (fun other held => formed other (mem_append_left _ held)) earlier
      rcases readPieces_kept callId last with completes | kept
      · simp [completes]
      · rcases told with pieces | completed
        · exact .inl (kept pieces)
        · simp [completed]
    · cases mem_singleton.mp final
      cases chunk with
      | toolCallDelta other toolName argumentsDelta =>
        cases about
        exact .inl (by simp [readPieces])
      | toolCallComplete other toolName arguments =>
        cases about
        cases intent : intentOf (.toolCallComplete callId toolName arguments) with
        | none => exact absurd ⟨⟨_, _, _, rfl⟩, intent⟩ formedLast
        | some intent' =>
          have named : intent'.callId = callId := by
            cases arguments with
            | object fields =>
              rw [intentOf] at intent
              split at intent
              · cases intent
              · cases intent
                rfl
            | _ => cases intent
          exact .inr (by simp [Option.filter, named])
      | _ => cases about

/-- What makes a completion malformed. -/
theorem finished_malformed (told : Told input state) :
    (state.pending.foldl NormalizerState.finishCall state).malformedToolCall = true ↔
      (∃ chunk ∈ input, IsMalformed chunk) ∨
        ∃ callId call, openPieces callId input = some call ∧ ¬ Formed call := by
  rw [finishCalls_malformed, told.malformed]
  refine or_congr_right ⟨?_, ?_⟩
  · rintro ⟨call, held, unformed⟩
    exact ⟨call.callId, call, told.pending _ ▸ find_keyed told.pendingKeyed held, unformed⟩
  · rintro ⟨callId, call, pieces, unformed⟩
    rw [← told.pending] at pieces
    exact ⟨call, (find_mem pieces).1, unformed⟩

/-- The flag is exact if and only if no call is left in pieces at the end of the stream, or some
call is malformed. -/
theorem exact_iff {input : List ModelStreamChunk} {options : ModelProtocolNormalizerOptions}
    {completion : NormalizedModelCompletion}
    (normalized : normalizeModelCompletion input options = some completion) :
    Exact input completion ↔ Settled input := by
  have told := told_all input
  simp only [normalizeModelCompletion] at normalized
  generalize input.foldl NormalizerState.read {} = streamed at told normalized
  have malformed := finished_malformed told
  have kept := finishCalls_pending streamed.pending streamed
  have reached := fun callId formed => @finishCalls_intents callId streamed streamed.pending formed
  have still : streamed.pending = [] →
      streamed.pending.foldl NormalizerState.finishCall streamed = streamed := fun none_ => by
    rw [none_, List.foldl_nil]
  generalize streamed.pending.foldl NormalizerState.finishCall streamed = finished at *
  obtain ⟨intents, parsed, same⟩ := Option.bind_eq_some_iff.mp normalized
  obtain rfl := Option.some.inj same
  rw [NormalizerState.toolIntents] at parsed
  by_cases broken : finished.malformedToolCall = true
  · rw [if_pos broken] at parsed
    cases parsed
    exact iff_of_true ⟨by simp [broken], nofun⟩ (.inr (malformed.mp broken))
  · rw [if_neg broken] at parsed
    obtain ⟨there, back⟩ := parseAll_mem parsed
    obtain ⟨wellFormed, formed⟩ := not_or.mp fun either => broken (malformed.mpr either)
    have allFormed : ∀ call ∈ streamed.pending, Formed call := by
      intro call held
      by_contra unformed
      exact formed ⟨call.callId, call, told.pending _ ▸ find_keyed told.pendingKeyed held, unformed⟩
    have answered : ∀ chunk ∈ input, ∀ callId, callIdOf chunk = some callId →
        ∃ intent ∈ intents, intent.callId.text = jsTrim callId := by
      intro chunk found callId about
      have held : (∃ call ∈ streamed.pending, call.callId = callId) ∨
          ∃ intent ∈ streamed.intents, intent.callId = callId := by
        rcases told_of_call (fun other held bad => wellFormed ⟨other, held, bad⟩) found about with
          pieces | completed
        · rw [← told.pending, Option.isSome_iff_exists] at pieces
          obtain ⟨call, held⟩ := pieces
          exact .inl ⟨call, find_mem held⟩
        · rw [← told.intents, Option.isSome_iff_exists] at completed
          obtain ⟨intent, held⟩ := completed
          exact .inr ⟨intent, find_mem held⟩
      obtain ⟨intent, held, named⟩ := reached callId allFormed held
      obtain ⟨other, among, parsed⟩ := there intent held
      exact ⟨other, among, by rw [(parse_parts parsed).1, named]⟩
    have unbroken : finished.malformedToolCall = false := by simpa using broken
    constructor
    · intro exact_
      have flag := exact_.flag.mpr ⟨unbroken, answered⟩
      have none_ : streamed.pending = [] := by
        simp only [unbroken, Bool.not_false, Bool.and_true, List.isEmpty_iff] at flag
        rw [← kept, flag]
      refine .inl fun callId => ?_
      rw [← told.pending, none_]
      rfl
    · intro settled
      have whole : ∀ callId, openPieces callId input = none := by
        rcases settled with none_ | bad | bad
        · exact none_
        · exact absurd bad wellFormed
        · exact absurd bad formed
      have none_ : streamed.pending = [] := by
        refine List.eq_nil_iff_forall_not_mem.mpr fun call held => ?_
        have found := find_keyed told.pendingKeyed held
        rw [told.pending, whole] at found
        cases found
      refine ⟨iff_of_true (by simp [kept, none_, unbroken]) ⟨unbroken, answered⟩, ?_⟩
      intro other held
      obtain ⟨intent, among, parsed⟩ := back other held
      obtain ⟨named, arguments⟩ := parse_parts parsed
      rw [still none_] at among
      refine ⟨intent.callId, named, .inl ⟨intent, ?_, arguments⟩⟩
      rw [← told.intents]
      exact find_keyed told.intentsKeyed among

theorem exact_completed : Exact [.toolCallComplete "c1" "read" (.object [])]
      ⟨.normal, none, none, none, none, ⟨false, false, true⟩, "", "", [⟨named "c1", named "read", []⟩]⟩ := by
  have normalized : normalizeModelCompletion [.toolCallComplete "c1" "read" (.object [])] {} = some
      ⟨.normal, none, none, none, none, ⟨false, false, true⟩, "", "",
        [⟨named "c1", named "read", []⟩]⟩ := by rfl
  refine (exact_iff normalized).mpr (.inl fun callId => ?_)
  by_cases same : "c1" = callId <;> simp [openPieces, readPieces, intentOf, same]

/-- A call that came in pieces has its intent, and the completion says that calls are missing. -/
theorem pieced_call_incomplete : ∃ completion, normalizeModelCompletion
        [.toolCallDelta "c1" (some "read") (some "\x7b\x7d")] {} = some completion ∧
      completion.integrity = ⟨false, false, false⟩ ∧
      completion.toolIntents.map (·.callId.text) = ["c1"] ∧
      ¬ Exact [.toolCallDelta "c1" (some "read") (some "\x7b\x7d")] completion := by
  refine ⟨⟨.normal, none, none, none, none, ⟨false, false, false⟩, "", "",
    [⟨named "c1", named "read", []⟩]⟩, by rfl, rfl, by decide, fun exact_ => ?_⟩
  have flag := exact_.flag.mpr ⟨rfl, fun chunk found callId about => ?_⟩
  · cases flag
  · cases mem_singleton.mp found
    cases about
    exact ⟨_, mem_singleton_self _, by decide⟩

end QiongQi.CompletionFlags
