import Mathlib.Algebra.Order.Ring.Rat
import QiongQi.AcceptedCommands
import QiongQi.KernelInvariants
import QiongQi.KernelNodeResults
import QiongQi.UsageLedgers

/-! The budget a run state carries, as a ledger: the entries its usage ids stand
for, and the tool calls they add up to. -/
namespace QiongQi.BudgetAccounts
open JsonValues RuntimeContracts MiddlewareCommands ExecutionGraphs RuntimeKernels KernelReducers
  KernelDurability KernelReplay TaskStates UsageLedgers
open List hiding after

/-- What commands count under usage ids: the tool calls of each. -/
def usageEntries (commands : List MiddlewareCommand) : List (String × ℚ) :=
  commands.filterMap fun
    | .addBudget delta (some usageId) => some (usageId.text, deltaFor delta .toolCallsUsed)
    | _ => none

/-- The value is a task state as its schema writes it. -/
def IsTask (value : JsValue) : Prop := ∃ task, value = (taskStateV1.write task).toJs

/-- The command leaves the accounting to `add-budget` with a usage id, and the
restored task a task. -/
def Orderly : MiddlewareCommand → Prop
  | .setBudget _ => False
  | .setMiddlewareState id _ => id.text ≠ "budget-accounting"
  | .addBudget _ usageId => usageId.isSome
  | .setNodeData nodeId value => nodeId.text = "restore-task" → IsTask value.toJs
  | _ => True

theorem deltaFor_nonneg : 0 ≤ deltaFor delta key := by
  unfold deltaFor
  cases delta.find? fun entry => entry.key = key with
  | none => exact le_refl _
  | some entry =>
    have valid := entry.valid
    simp only [validBudgetValue, Bool.and_eq_true, decide_eq_true_eq] at valid
    exact valid.1

variable {commands : List MiddlewareCommand}

theorem usageEntries_nonneg : ∀ entry ∈ usageEntries commands, 0 ≤ entry.2 := by
  intro entry found
  obtain ⟨command, _, counted⟩ := mem_filterMap.mp found
  split at counted
  · cases counted
    exact deltaFor_nonneg
  · cases counted

@[simp] theorem BudgetState.get_set (budgets : BudgetState) (key other : BudgetKey) (value : ℚ) :
    BudgetState.get (BudgetState.set budgets key value) other =
      if other = key then value else BudgetState.get budgets other := by
  cases key <;> cases other <;> rfl

private theorem addBudgetKey_get (added : addBudgetKey delta budgets key = .ok after) :
    after = BudgetState.set budgets key (BudgetState.get budgets key + deltaFor delta key) := by
  simp only [addBudgetKey] at added
  split at added <;> split at added <;> cases added <;> rfl

private theorem addBudgetKeys_get {keys : List BudgetKey} :
    ∀ {budgets after : BudgetState}, keys.Nodup →
      keys.foldlM (addBudgetKey delta) budgets = .ok after → ∀ key, BudgetState.get after key =
          BudgetState.get budgets key + if key ∈ keys then deltaFor delta key else 0 := by
  induction keys with
  | nil =>
    intro budgets after _ added key
    cases added
    simp
  | cons first rest ih =>
    intro budgets after distinct added key
    obtain ⟨fresh, distinct⟩ := nodup_cons.mp distinct
    obtain ⟨middle, one, others⟩ := except_bind added
    rw [ih distinct others key, addBudgetKey_get one, BudgetState.get_set]
    by_cases here : key = first
    · simp [here, fresh]
    · simp [here]

theorem addBudgets_get {budgets after : BudgetState}
    (added : budgetKeys.foldlM (addBudgetKey delta) budgets = .ok after) (key : BudgetKey) :
    BudgetState.get after key = BudgetState.get budgets key + deltaFor delta key := by
  have every : key ∈ budgetKeys := by cases key <;> decide
  rw [addBudgetKeys_get (by decide) added key, if_pos every]

private theorem usageIdsOf_written (ids : List String) :
    usageIdsOf (.object [("processedUsageIds", .array (ids.map Json.string))]) =
      if "" ∈ ids then none else some ids := by
  simp only [usageIdsOf, lookup_cons, beq_self_eq_true]
  induction ids with
  | nil => rfl
  | cons id rest ih =>
    rw [map_cons, mapM_cons, ih]
    by_cases blank : id = ""
    · simp [blank]
    · by_cases others : "" ∈ rest
      · simp [blank, others]
      · simp [blank, Ne.symm blank, others]

theorem usageIds_accounting {ids : List String} (nonblank : "" ∉ ids)
    (stored : state.middleware.lookup "budget-accounting" = some (budgetAccounting ids)) :
    budgetUsageIdSet state = .ok (ids.insertionSort (· ≤ ·)).dedup := by
  have sorted : "" ∉ ids.insertionSort (· ≤ ·) := by simpa using nonblank
  have read : usageIdsOf (budgetAccounting ids).data = some (ids.insertionSort (· ≤ ·)) := by
    rw [budgetAccounting, usageIdsOf_written, if_neg sorted]
  simp only [budgetUsageIdSet, stored]
  rw [if_neg (by simp [budgetAccounting]), if_pos (by simp [hasUsageIdArray, budgetAccounting]), read]

private theorem usageIdsOf_nonblank {ids : List String} (read : usageIdsOf data = some ids) :
    "" ∉ ids := by
  unfold usageIdsOf at read
  split at read
  next fields =>
    split at read
    next items held =>
      clear held
      induction items generalizing ids with
      | nil =>
        cases read
        simp
      | cons item rest ih =>
        rw [mapM_cons] at read
        obtain ⟨id, first, read⟩ := Option.bind_eq_some_iff.mp read
        obtain ⟨others, remaining, read⟩ := Option.bind_eq_some_iff.mp read
        cases read
        have nonblank : "" ≠ id := by
          split at first
          · split at first
            · cases first
            next nonempty =>
              cases first
              exact Ne.symm nonempty
          · cases first
        simp only [mem_cons, not_or]
        exact ⟨nonblank, ih remaining⟩
    · cases read
  · cases read

theorem usageIds_nonblank {ids : List String} (read : budgetUsageIdSet state = .ok ids) :
    "" ∉ ids := by
  unfold budgetUsageIdSet at read
  split at read
  · cases read
    simp
  split at read
  · cases read
  split at read
  · split at read
    next found parsed =>
      cases read
      rw [mem_dedup]
      exact usageIdsOf_nonblank parsed
    · cases read
  · cases read

/-- The state has counted these entries, each id once. -/
structure Accounts (state : RunStateV3) (applied : List (String × ℚ)) : Prop where
  version : state.graphVersion = productionV3
  counted : ∃ used, budgetUsageIdSet state = .ok used ∧ used.Nodup ∧ ∀ id, id ∈ used ↔ id ∈ ids applied
  used : state.budgets.toolCallsUsed = total applied
  task : ∀ field ∈ state.nodeData, field.1 = "restore-task" → IsTask field.2

variable {applied : List (String × ℚ)}

theorem Accounts.congr (accounts : Accounts state applied)
    (version : next_.graphVersion = state.graphVersion) (middleware : next_.middleware = state.middleware)
    (budgets : next_.budgets = state.budgets) (nodeData : next_.nodeData = state.nodeData) :
    Accounts next_ applied := by
  obtain ⟨production, counted, used, task⟩ := accounts
  refine ⟨version.trans production, ?_, budgets ▸ used, nodeData ▸ task⟩
  unfold budgetUsageIdSet at counted ⊢
  rw [middleware]
  exact counted

theorem Accounts.withOutcome (accounts : Accounts state applied) (outcome : RunOutcome)
    (now : NonEmptyString) : Accounts (withOutcome state outcome now) applied := by
  unfold RuntimeKernels.withOutcome
  split
  · exact accounts
  · exact accounts.congr rfl rfl rfl rfl

theorem mem_assign (found : field ∈ assign fields key value) :
    field ∈ fields ∨ field = (key, value) := by
  unfold assign at found
  split at found
  · obtain ⟨old, member, same⟩ := mem_map.mp found
    split at same
    · exact .inr same.symm
    · exact .inl (same ▸ member)
  · rcases mem_append.mp found with found | found
    · exact .inl found
    · exact .inr (mem_singleton.mp found)

private theorem mem_serialized (found : field ∈ fieldsToJs (serializeFields fields)) :
    ∃ original ∈ fields, original.1 = field.1 ∧ original.2.serialize.map Json.toJs = some field.2 := by
  induction fields with
  | nil => cases found
  | cons first rest ih =>
    obtain ⟨key, value⟩ := first
    unfold serializeFields at found
    cases written : value.serialize with
    | none =>
      rw [written] at found
      obtain ⟨original, member, same⟩ := ih found
      exact ⟨original, mem_cons_of_mem _ member, same⟩
    | some document =>
      rw [written] at found
      rcases mem_cons.mp found with rfl | found
      · exact ⟨(key, value), mem_cons_self, rfl, by rw [written]; rfl⟩
      · obtain ⟨original, member, same⟩ := ih found
        exact ⟨original, mem_cons_of_mem _ member, same⟩

theorem Accounts.persist (accounts : Accounts state applied)
    (persisted : RunStateV3.persist state = some stored) : Accounts stored applied := by
  obtain ⟨graphVersion, nodeId, outcome, parsed, _, _, rfl⟩ :=
    RunStateV3.persist_some_iff.mp persisted
  obtain ⟨version, counted, used, task⟩ := accounts
  refine ⟨?_, counted, used, ?_⟩
  · rw [version] at parsed
    have known : NonEmptyString.parse productionV3 = some ⟨productionV3, by decide, by decide⟩ := by
      decide
    cases parsed
    rfl
  · intro field found name
    obtain ⟨original, member, same, written⟩ := mem_serialized found
    obtain ⟨restored, held⟩ := task original member (same.trans name)
    rw [held, serialize_toJs] at written
    exact ⟨restored, (Option.some.inj written).symm⟩

/-- The ids that `applyCommands` caches are those of the state. -/
def CachedIds (applied : List (String × ℚ)) (processed : Option (List String)) : Prop :=
  ∀ used, processed = some used → used.Nodup ∧ "" ∉ used ∧ ∀ id, id ∈ used ↔ id ∈ ids applied

private theorem processedIds (accounts : Accounts state applied)
    (cached : CachedIds applied processed) (read : processedUsageIds state processed = .ok used) :
    used.Nodup ∧ "" ∉ used ∧ ∀ id, id ∈ used ↔ id ∈ ids applied := by
  cases processed with
  | some found =>
    cases read
    exact cached used rfl
  | none =>
    obtain ⟨found, known, distinct, same⟩ := accounts.counted
    have read : budgetUsageIdSet state = .ok used := read
    rw [known] at read
    cases read
    exact ⟨distinct, usageIds_nonblank known, same⟩

private theorem addBudget_accounts (accounts : Accounts state applied)
    (known : used.Nodup ∧ "" ∉ used ∧ ∀ id, id ∈ used ↔ id ∈ ids applied)
    (added : addBudget state delta (some usageId) used = .ok (next_, extended)) :
    Accounts next_ (applied ++ [(usageId.text, deltaFor delta .toolCallsUsed)]) ∧
      extended.Nodup ∧ "" ∉ extended ∧
      ∀ id, id ∈ extended ↔ id ∈ ids (applied ++ [(usageId.text, deltaFor delta .toolCallsUsed)]) := by
  obtain ⟨distinct, nonblank, same⟩ := known
  simp only [addBudget] at added
  split at added
  next seen =>
    cases added
    have seen : usageId.text ∈ ids applied := (same _).mp (by simpa using seen)
    have members : ∀ id, id ∈ ids (applied ++ [(usageId.text, deltaFor delta .toolCallsUsed)]) ↔
        id ∈ ids applied := by
      intro id
      simp only [ids_append, ids_cons, ids_nil, mem_append, mem_singleton]
      constructor
      · rintro (found | rfl)
        · exact found
        · exact seen
      · exact .inl
    obtain ⟨version, ⟨found, read, unique, agree⟩, calls, task⟩ := accounts
    refine ⟨⟨version, ⟨found, read, unique, fun id => (agree id).trans (members id).symm⟩, ?_, task⟩,
      distinct, nonblank, fun id => (same id).trans (members id).symm⟩
    rw [total_concat, if_pos seen, calls]
  next fresh =>
    obtain ⟨budgets, summed, final⟩ := except_bind added
    cases final
    have fresh : usageId.text ∉ used := by simpa using fresh
    have clean : "" ∉ used ++ [usageId.text] := by
      intro found
      rcases mem_append.mp found with found | found
      · exact nonblank found
      · have blank : "" = usageId.text := mem_singleton.mp found
        exact usageId.nonblank (by rw [← blank]; rfl)
    have members : ∀ id, id ∈ used ++ [usageId.text] ↔
        id ∈ ids (applied ++ [(usageId.text, deltaFor delta .toolCallsUsed)]) := by
      intro id
      simp only [ids_append, ids_cons, ids_nil, mem_append, mem_singleton, same id]
    refine ⟨⟨accounts.version, ?_, ?_, accounts.task⟩, ?_, clean, members⟩
    · refine ⟨_, usageIds_accounting clean (lookup_assign _ _ _), nodup_dedup _, fun id => ?_⟩
      rw [mem_dedup, mem_insertionSort]
      exact members id
    · rw [total_concat, if_neg (mt (same _).mpr fresh), ← accounts.used]
      exact addBudgets_get summed .toolCallsUsed
    · exact nodup_append.mpr ⟨distinct, nodup_singleton _, by
        rintro left found right last rfl
        rw [mem_singleton.mp last] at found
        exact fresh found⟩

private theorem applyCommand_accounts (accounts : Accounts state applied)
    (cached : CachedIds applied processed) (orderly : Orderly command)
    (done : applyCommand state processed command = .ok (next_, after)) :
    Accounts next_ (applied ++ usageEntries [command]) ∧
      CachedIds (applied ++ usageEntries [command]) after := by
  cases command with
  | setBudget entry => exact absurd orderly id
  | addBudget delta usageId =>
    cases usageId with
    | none => cases orderly
    | some usageId =>
      obtain ⟨used, read, rest⟩ := except_bind done
      obtain ⟨⟨added, extended⟩, found, final⟩ := except_bind rest
      cases final
      obtain ⟨accounted, distinct, nonblank, same⟩ :=
        addBudget_accounts accounts (processedIds accounts cached read) found
      exact ⟨accounted, fun _ held => by cases held; exact ⟨distinct, nonblank, same⟩⟩
  | setMiddlewareState id state =>
    cases done
    have other : id.text ≠ "budget-accounting" := orderly
    simp only [if_neg other, usageEntries, filterMap_cons, filterMap_nil, append_nil]
    refine ⟨⟨accounts.version, ?_, accounts.used, accounts.task⟩, cached⟩
    have counted := accounts.counted
    unfold budgetUsageIdSet at counted ⊢
    rw [lookup_assign_other (Ne.symm other)]
    exact counted
  | setNodeData nodeId value =>
    cases done
    simp only [usageEntries, filterMap_cons, filterMap_nil, append_nil]
    refine ⟨⟨accounts.version, accounts.counted, accounts.used, ?_⟩, cached⟩
    intro field found name
    rcases mem_assign found with old | rfl
    · exact accounts.task field old name
    · exact orderly name
  | setTaskRevision revision =>
    simp only [applyCommand] at done
    split at done <;> cases done
    simp only [usageEntries, filterMap_cons, filterMap_nil, append_nil]
    exact ⟨accounts.congr rfl rfl rfl rfl, cached⟩
  | _ =>
    cases done
    simp only [usageEntries, filterMap_cons, filterMap_nil, append_nil]
    exact ⟨accounts.congr rfl rfl rfl rfl, cached⟩

private theorem applyCommandList_accounts :
    ∀ {state next : RunStateV3} {applied : List (String × ℚ)} {processed : Option (List String)},
      Accounts state applied → CachedIds applied processed →
      (∀ command ∈ commands, Orderly command) →
      applyCommandList state processed commands = .ok next →
      Accounts next (applied ++ usageEntries commands) := by
  induction commands with
  | nil =>
    intro state next applied processed accounts _ _ done
    cases done
    simpa [usageEntries] using accounts
  | cons command rest ih =>
    intro state next applied processed accounts cached orderly done
    obtain ⟨⟨middle, after⟩, first, others⟩ := except_bind done
    obtain ⟨accounted, kept⟩ := applyCommand_accounts accounts cached
      (orderly command mem_cons_self) first
    have whole := ih accounted kept (fun other found => orderly other (mem_cons_of_mem _ found))
      others
    have split : usageEntries (command :: rest) = usageEntries [command] ++ usageEntries rest := by
      simp only [usageEntries, ← filterMap_append, singleton_append]
    rw [split, ← append_assoc]
    exact whole

theorem applyCommands_accounts (accounts : Accounts state applied)
    (orderly : ∀ command ∈ commands, Orderly command)
    (done : applyCommands state commands = .ok next_) :
    Accounts next_ (applied ++ usageEntries commands) := by
  rw [applyCommands_eq] at done
  exact applyCommandList_accounts accounts (fun _ absent => by cases absent) orderly done

variable {Ext : Type} {ExtAnswer : Ext → Type}

/-- A completion whose commands and value keep the accounts in order. -/
structure OrderlyCompletion (payload : CompletedNodePayload) : Prop where
  commands : ∀ command ∈ payload.commands, Orderly command
  value : payload.nodeId = "restore-task" → ∀ value, payload.value = some value → IsTask value

private theorem withNodeValue_accounts (accounts : Accounts state applied)
    (orderly : nodeId = "restore-task" → ∀ found, value = some found → IsTask found) :
    Accounts (withNodeValue state nodeId value) applied := by
  cases value with
  | none => exact accounts
  | some found =>
    refine ⟨accounts.version, accounts.counted, accounts.used, fun field member name => ?_⟩
    rcases mem_assign member with old | rfl
    · exact accounts.task field old name
    · exact orderly name found rfl

theorem reduceCompletedNode_accounts (accounts : Accounts state applied)
    (orderly : OrderlyCompletion payload) (named : payload.nodeId = node.id)
    (reduced : reduceCompletedNode kernel state node payload seq now = .ok next_) :
    Accounts next_ (applied ++ usageEntries payload.commands) := by
  obtain ⟨commanded, commands, rest⟩ := except_bind reduced
  have accounted := applyCommands_accounts accounts orderly.commands commands
  have valued := withNodeValue_accounts accounted (named ▸ orderly.value)
  cases present : payload.outcome with
  | some outcome =>
    rw [present] at rest
    cases rest
    exact (valued.withOutcome outcome now).congr rfl rfl rfl rfl
  | none =>
    rw [present] at rest
    obtain ⟨target, _, rest⟩ := except_bind rest
    obtain ⟨_, _, final⟩ := except_bind rest
    cases final
    exact valued.congr rfl rfl rfl rfl

/-- A command that counts nothing, either. -/
def Plain (command : MiddlewareCommand) : Prop := Orderly command ∧ usageEntries [command] = []

theorem usageEntries_plain (plain : ∀ command ∈ commands, Plain command) :
    usageEntries commands = [] := by
  rw [usageEntries, filterMap_eq_nil_iff]
  intro command found
  have silent := (plain command found).2
  simpa [usageEntries] using silent

theorem applyCommands_plain (accounts : Accounts state applied)
    (plain : ∀ command ∈ commands, Plain command) (done : applyCommands state commands = .ok next_) :
    Accounts next_ applied := by
  have accounted := applyCommands_accounts accounts (fun command found => (plain command found).1) done
  rwa [usageEntries_plain plain, append_nil] at accounted

theorem reduceAfterMiddleware_accounts (accounts : Accounts state applied)
    (plain : ∀ command ∈ payload.commands, Plain command)
    (reduced : reduceAfterMiddleware kernel state payload seq now = .ok next_) :
    Accounts next_ applied := by
  obtain ⟨outcomed, first, rest⟩ := except_bind reduced
  obtain ⟨moved, second, final⟩ := except_bind rest
  cases final
  have outcomedAccounts : Accounts outcomed applied := by
    simp only [afterMiddlewareState] at first
    split at first
    · cases first
      exact accounts
    · obtain ⟨commanded, commands, final⟩ := except_bind first
      cases final
      have accounted := applyCommands_plain accounts plain commands
      split
      · exact accounted.withOutcome _ now
      · exact accounted
  have movedAccounts : Accounts moved applied := by
    simp only [afterMiddlewareCursor] at second
    split at second
    · cases second
      exact outcomedAccounts
    · simp only [applyControl] at second
      split at second
      · cases second
        exact outcomedAccounts
      · obtain ⟨_, _, final⟩ := except_bind second
        cases final
        exact outcomedAccounts.congr rfl rfl rfl rfl
  exact movedAccounts.congr rfl rfl rfl rfl

end QiongQi.BudgetAccounts
