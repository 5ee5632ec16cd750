import Mathlib.Data.List.TakeWhile
import QiongQi.HandoffDelivery

/-! A worker whose claim ran out and whose message another worker claimed. Its fence is
compared when the completion of the message goes out, and the run has moved on by then. -/
namespace QiongQi.StaleWorkers
open AgentGraphs Mailboxes MultiAgentRuns MultiAgentStores MultiAgentInterleavings ActiveAgents
open HandoffDelivery Machines RuntimeContracts

variable {platform : Platform} {graph : AgentGraph}

/-- A lease of at least this epoch, or the end of the task. -/
def PastEpoch (epoch : Nat) (message : MailboxMessage) : Prop :=
  (∃ lease ∈ message.claimLease, epoch ≤ lease.epoch) ∨ (¬ message.IsOpen ∧ message.claimLease = none)

/-- The mailbox has the file, and no message of it from before the epoch. -/
structure Reached (file : NonEmptyString × String) (epoch : Nat) (mailbox : Mailbox) : Prop where
  there : ∃ message ∈ mailbox, message.file = file
  past : ∀ message ∈ mailbox, message.file = file → PastEpoch epoch message

variable {mailbox after : Mailbox} {world : World}
variable {run : MultiAgentRun} {input : AgentTaskCompletion}

theorem descends_past (descends : Descends mailbox message)
    (past : ∀ message ∈ mailbox, message.file = file → PastEpoch epoch message)
    (same : message.file = file) : PastEpoch epoch message := by
  cases descends with
  | kept held => exact past message held same
  | claimed held isOpen grows =>
    rcases past _ held same with ⟨lease, known, later⟩ | ⟨closed, -⟩
    · obtain ⟨next, written, grown⟩ := grows lease known
      exact .inl ⟨next, written, later.trans grown⟩
    · exact absurd isOpen closed
  | completed held status =>
    refine .inr ⟨?_, rfl⟩
    cases status with
    | completed | failed | aborted => simp [MailboxMessage.IsOpen, TaskStatus.toMailbox]

theorem put_there (there : ∃ message ∈ mailbox, message.file = file) :
    ∃ message ∈ put MailboxMessage.file item mailbox, message.file = file := by
  obtain ⟨message, held, same⟩ := there
  by_cases replaced : message.file = item.file
  · exact ⟨item, mem_put.mpr (.inl rfl), replaced.symm.trans same⟩
  · exact ⟨message, mem_put.mpr (.inr ⟨held, replaced⟩), same⟩

theorem enqueue_reached (reached : Reached file epoch mailbox)
    (queued : incoming.status = .queued) (enqueued : enqueue mailbox incoming = .ok after) :
    Reached file epoch after := by
  constructor
  · rcases enqueue_ok queued enqueued with ⟨-, rfl⟩ | ⟨existing, -, rfl⟩
    all_goals exact put_there reached.there
  · intro message held same
    rcases enqueue_descends queued enqueued message held with descends | ⟨rfl, absent⟩
    · exact descends_past descends reached.past same
    · obtain ⟨known, heldKnown, sameKnown⟩ := reached.there
      have missing := List.find?_eq_none.mp absent known heldKnown
      simp [sameKnown, same] at missing

theorem complete_reached (reached : Reached file epoch mailbox)
    (completed : complete mailbox messageId status fence = .ok after) :
    Reached file epoch after := by
  constructor
  · rcases complete_found completed with rfl | ⟨current, -, -, -, rfl⟩
    · exact reached.there
    · exact put_there reached.there
  · intro message held same
    exact descends_past (complete_descends completed message held) reached.past same

theorem claimNext_reached (reached : Reached file epoch mailbox)
    (claimed : claimNext platform.localeCompare mailbox agentId options now token = .ok (claim, after)) :
    Reached file epoch after := by
  constructor
  · rcases claimNext_ok claimed with ⟨-, rfl⟩ | ⟨queued, delivered, -, -, -, -, rfl⟩
    · exact reached.there
    · exact put_there reached.there
  · intro message held same
    exact descends_past (claimNext_descends claimed message held) reached.past same

theorem step_reached (sound : Sound world) (reached : Reached file epoch world.mailbox)
    (taken : step platform graph world action = some next) : Reached file epoch next.mailbox := by
  cases stepped_of_step taken with
  | start => exact reached
  | mutate => exact reached
  | @deliver runId stored kind mailbox loaded held delivered =>
    cases kind with
    | mailboxEnqueue incoming =>
      have draft := sound.drafts stored (load_mem loaded).1 incoming held
      exact enqueue_reached reached draft.queued delivered
    | mailboxComplete messageId status fence => exact complete_reached reached delivered
  | claim claimed => exact claimNext_reached reached claimed

theorem run_reached (sound : Sound world) (reached : Reached file epoch world.mailbox)
    (ran : runActions (step platform graph) world actions = some final) :
    Reached file epoch final.mailbox := by
  have keeps : ∀ state action next, Sound state ∧ Reached file epoch state.mailbox →
      step platform graph state action = some next → Sound next ∧ Reached file epoch next.mailbox :=
    fun _ _ _ holds taken => ⟨step_sound holds.1 taken, step_reached holds.1 holds.2 taken⟩
  exact (invariant_always keeps actions ⟨sound, reached⟩ ran).2

/-- `first` is what one worker was handed and `second` what another one was handed of the
same message afterwards, both with leases; anything may have happened before and since. -/
inductive Overtaken (platform : Platform) (graph : AgentGraph) (first second : MailboxMessage) :
    World → Prop where
  | intro {start middle final : World} {firstBox secondBox : Mailbox}
      {firstAgent secondAgent : String} {firstOptions secondOptions : MailboxClaimOptions}
      {firstNow secondNow : Int} {firstToken secondToken : NonEmptyString}
      (between later : List Action)
      (reached : Reachable platform graph start)
      (claimed : claimNext platform.localeCompare start.mailbox firstAgent (some firstOptions) firstNow
        firstToken = .ok (some first, firstBox))
      (went : runActions (step platform graph) { start with mailbox := firstBox } between = some middle)
      (again : claimNext platform.localeCompare middle.mailbox secondAgent (some secondOptions) secondNow
        secondToken = .ok (some second, secondBox))
      (same : second.file = first.file)
      (goes : runActions (step platform graph) { middle with mailbox := secondBox } later = some final) :
      Overtaken platform graph first second final

/-- A claim with a lease is one epoch past the claim before, and what the mailbox has now. -/
theorem leased_claim
    (claimed : claimNext platform.localeCompare mailbox agentId (some options) now token =
      .ok (some delivered, after)) :
    ∃ queued ∈ mailbox, ∃ lease, queued.file = delivered.file ∧ queued.IsOpen ∧
      delivered.claimLease = some lease ∧ (∀ old ∈ queued.claimLease, old.epoch < lease.epoch) ∧
      ∀ epoch ≤ lease.epoch, Reached delivered.file epoch after := by
  rcases claimNext_ok claimed with ⟨none, -⟩ | ⟨queued, handed, same, held, free, written, rfl⟩
  · cases none
  · cases same
    obtain ⟨lease, rfl, -, leased⟩ := deliver_ok written
    obtain ⟨granted, rfl, later⟩ := leased rfl
    refine ⟨queued, held, granted, rfl, claimable_open free, rfl, later, fun epoch reached => ?_⟩
    constructor
    · exact ⟨_, mem_put.mpr (.inl rfl), rfl⟩
    · intro message member file
      rcases mem_put.mp member with rfl | ⟨-, apart⟩
      · exact .inl ⟨granted, rfl, reached⟩
      · exact absurd file apart

/-- Whatever happens, the overtaken worker's lease is not the current one any more. -/
theorem overtaken_lease (overtaken : Overtaken platform graph first second world) :
    ∀ message ∈ world.mailbox, message.file = first.file → message.claimLease ≠ first.claimLease := by
  cases overtaken with
  | @intro start middle final firstBox secondBox _ _ firstOptions _ firstNow _ firstToken _ between later
      reached claimed went again same goes =>
    obtain ⟨-, -, firstLease, -, -, firstLeased, -, firstReached⟩ := leased_claim claimed
    obtain ⟨queued, held, secondLease, file, isOpen, -, grown, secondReached⟩ := leased_claim again
    have afterFirst := reached.claim claimed
    have afterSecond := (afterFirst.run went).claim again
    have middlePast := run_reached (reachable_sound afterFirst) (firstReached _ (le_refl _)) went
    have passed : firstLease.epoch < secondLease.epoch := by
      rcases middlePast.past queued held (file.trans same) with ⟨lease, known, past⟩ | ⟨closed, -⟩
      · exact lt_of_le_of_lt past (grown lease known)
      · exact absurd isOpen closed
    have finalPast := run_reached (reachable_sound afterSecond) (same ▸ secondReached (firstLease.epoch + 1) passed) goes
    intro message member own
    rw [firstLeased]
    rcases finalPast.past message member own with ⟨lease, known, past⟩ | ⟨-, none⟩
    · rw [Option.mem_def.mp known]
      intro equal
      cases equal
      omega
    · rw [none]
      simp

/-- The walk from the node ends before the stack does. -/
def arrives (graph : AgentGraph) (branchStatus : List (NonEmptyString × BranchStatus)) :
    (depth : Nat) → List (NonEmptyString × Nat) → NonEmptyString → Bool
  | 0, _, _ => false
  | depth + 1, retryCounters, nodeId =>
    match requireGraphNode graph nodeId with
    | .error _ => false
    | .ok node =>
      match node.kind with
      | .join requiredBranchIds =>
        match joinExit graph branchStatus node.id requiredBranchIds with
        | some next => arrives graph branchStatus depth retryCounters next
        | none => true
      | .retry maxAttempts =>
        match retryExit graph retryCounters node.id maxAttempts with
        | some next => arrives graph branchStatus depth (countAttempt retryCounters node.id) next
        | none => true
      | _ => true

theorem enterGraphNode_iff_arrives : ∀ {run : MultiAgentRun} {nodeId : NonEmptyString},
      (∃ next, enterGraphNode graph depth run nodeId = .ok next) ↔
        arrives graph run.branchStatus depth run.retryCounters nodeId = true := by
  induction depth with
  | zero => simp [enterGraphNode, arrives]
  | succ depth ih =>
    intro run nodeId
    unfold enterGraphNode arrives
    cases found : requireGraphNode graph nodeId with
    | error thrown => simp [bind, Except.bind]
    | ok node =>
      cases kind : node.kind with
      | join requiredBranchIds =>
        simp only [bind, Except.bind, kind]
        cases joinExit graph run.branchStatus node.id requiredBranchIds with
        | none => simp [pure, Except.pure]
        | some next =>
          exact ih
      | retry maxAttempts =>
        simp only [bind, Except.bind, kind]
        cases retryExit graph run.retryCounters node.id maxAttempts with
        | none => simp [pure, Except.pure]
        | some next =>
          exact ih
      | agent _ | handoff _ | tool _ | judge _ | wait _ | terminate =>
        simp [bind, Except.bind, kind, pure, Except.pure]

theorem latestAgentRunIndex_iff : (∃ index, latestAgentRunIndex run agentId nodeId = .ok index) ↔
      run.agentRuns.any (AgentRun.isOf agentId nodeId) = true := by
  unfold latestAgentRunIndex
  split
  · rename_i missing
    simp only [reduceCtorEq, exists_false, false_iff, List.any_eq_true, not_exists, not_and]
    intro agentRun held isOf
    obtain ⟨index, bound, rfl⟩ := List.mem_iff_getElem.mp held
    have unseen := List.find?_eq_none.mp missing index (by simpa using bound)
    simp [List.getElem?_eq_getElem bound, isOf] at unseen
  · rename_i index found
    simp only [Except.ok.injEq, exists_eq', true_iff, List.any_eq_true]
    have seen := List.find?_some found
    obtain ⟨agentRun, held, isOf⟩ := (Option.any_eq_true _ _).mp seen
    exact ⟨agentRun, List.mem_of_getElem? held, isOf⟩

/-- The run lets the agent complete its task: the fence has no say in it. -/
def acceptsCompletion (platform : Platform) (graph : AgentGraph) (run : MultiAgentRun)
    (input : AgentTaskCompletion) : Bool :=
  match requireGraphNode graph run.activeNodeId with
  | .error _ => false
  | .ok node =>
    match node.kind with
    | .agent agentId =>
      agentId.text = input.agentId && run.agentRuns.any (AgentRun.isOf agentId node.id) &&
        (nextNodeForCondition graph node.id input.outcome).any
          (arrives graph run.branchStatus platform.stackDepth run.retryCounters)
    | _ => false

theorem ensureMailboxComplete_total (named : (NonEmptyString.parse completion.messageId).isSome) :
    ∃ next, ensureMailboxCompleteOutboxIntent run completion = .ok next := by
  obtain ⟨messageId, parsed⟩ := Option.isSome_iff_exists.mp named
  unfold ensureMailboxCompleteOutboxIntent
  rw [parsed]
  split
  · exact ⟨_, rfl⟩
  · exact ⟨_, rfl⟩

theorem accepts_of_completed (completed : completeTask platform graph run input = .ok next) :
    acceptsCompletion platform graph run input = true := by
  obtain ⟨node, found, checked⟩ := bind_ok completed
  unfold acceptsCompletion
  simp only [found]
  cases kind : node.kind with
  | agent agentId =>
    simp only [kind] at checked
    by_cases own : agentId.text = input.agentId
    · simp only [if_neg (not_not.mpr own)] at checked
      split at checked
      · cases checked
      · rename_i nextNodeId edge
        obtain ⟨agentRunIndex, latest, recorded⟩ := bind_ok checked
        obtain ⟨advanced, entered, -⟩ := bind_ok recorded
        have worked := latestAgentRunIndex_iff.mp ⟨agentRunIndex, latest⟩
        have walked := enterGraphNode_iff_arrives.mp ⟨advanced, entered⟩
        simp only [own, decide_true, worked, edge, Option.any_some, Bool.true_and]
        exact walked
    · rw [if_pos own] at checked
      cases checked
  | _ =>
    simp only [kind] at checked
    cases checked

theorem completed_of_accepts (named : ∀ completion ∈ input.mailboxCompletion,
      (NonEmptyString.parse completion.messageId).isSome)
    (accepted : acceptsCompletion platform graph run input = true) :
    ∃ next, completeTask platform graph run input = .ok next := by
  unfold acceptsCompletion at accepted
  split at accepted
  · cases accepted
  · rename_i node found
    split at accepted
    · rename_i agentId kind
      simp only [Bool.and_eq_true, decide_eq_true_eq] at accepted
      obtain ⟨⟨own, worked⟩, walks⟩ := accepted
      obtain ⟨nextNodeId, edge, walked⟩ := (Option.any_eq_true _ _).mp walks
      obtain ⟨agentRunIndex, latest⟩ := latestAgentRunIndex_iff.mpr worked
      obtain ⟨advanced, entered⟩ : ∃ advanced, enterGraphNode graph platform.stackDepth
          (recordOutcome run input agentRunIndex node.id agentId) nextNodeId = .ok advanced :=
        enterGraphNode_iff_arrives.mpr walked
      unfold completeTask
      simp only [found, bind, Except.bind, kind, own, ne_eq, not_true_eq_false, if_false, edge, latest,
        entered]
      cases asked : input.mailboxCompletion with
      | none => exact ⟨advanced, rfl⟩
      | some completion => exact ensureMailboxComplete_total (named completion asked)
    · cases accepted

/-- The stored run lets the agent complete its task. -/
def StoredRunAccepts (platform : Platform) (graph : AgentGraph) (world : World)
    (input : AgentTaskCompletion) : Prop :=
  safeSegment input.runId "runId" = .ok input.runId ∧
    (world.load input.runId).any (fun stored => acceptsCompletion platform graph stored.run input) = true

theorem flushIntents_version : ∀ (latest : MultiAgentRun) {world : World} {stored : StoredRun},
      world.load runId = some stored →
      ∃ later, (flushIntents runId intents latest world).1.load runId = some later ∧
        stored.version ≤ later.version := by
  induction intents with
  | nil => exact fun _ _ stored loaded => ⟨stored, loaded, le_refl _⟩
  | cons intent rest ih =>
    intro latest world stored loaded
    unfold flushIntents
    cases handed : deliverIntent world.mailbox intent.kind with
    | error thrown => exact ⟨stored, loaded, le_refl _⟩
    | ok mailbox =>
      simp only
      cases written : update { world with mailbox } runId
          fun run => .ok (markOutboxPublished run intent.outboxId) with
      | error thrown => exact ⟨stored, loaded, le_refl _⟩
      | ok result =>
        obtain ⟨next, saved⟩ := result
        obtain ⟨current, found, -, own, -, rfl⟩ := update_ok written
        have unchanged : current = stored := Option.some.inj (found.symm.trans loaded)
        subst unchanged
        subst own
        have savedRun : ((World.save { world with mailbox }
            { run := next, version := current.version + 1 }).load next.runId.text) =
              some { run := next, version := current.version + 1 } := load_save_self
        obtain ⟨later, kept, newer⟩ := ih next savedRun
        exact ⟨later, kept, (Nat.le_succ _).trans newer⟩

theorem completion_changes (named : ∀ completion ∈ input.mailboxCompletion,
      (NonEmptyString.parse completion.messageId).isSome)
    (accepted : StoredRunAccepts platform graph world input) :
    (completeAgentTask platform graph world input true).1 ≠ world := by
  obtain ⟨safe, accepts⟩ := accepted
  obtain ⟨stored, loaded, accepts⟩ := (Option.any_eq_true _ _).mp accepts
  obtain ⟨next, completed⟩ := completed_of_accepts named accepts
  obtain ⟨-, own⟩ := load_mem loaded
  have kept : next.runId.text = input.runId := by
    rw [(mutates_extends (.completeTask completed)).runId, own]
  have written : update world input.runId (fun current => completeTask platform graph current input) =
      .ok (next, world.save { run := next, version := stored.version + 1 }) :=
    update_of_mutate safe loaded completed kept
  have saved : (world.save { run := next, version := stored.version + 1 }).load input.runId =
      some { run := next, version := stored.version + 1 } := by
    rw [← kept]
    exact load_save_self
  obtain ⟨later, final, newer⟩ : ∃ later,
      (completeAgentTask platform graph world input true).1.load input.runId = some later ∧
        stored.version + 1 ≤ later.version := by
    simp only [completeAgentTask, withRunMutationLease, if_true, written]
    cases input.mailboxCompletion with
    | none => exact ⟨_, saved, le_refl _⟩
    | some completion =>
      simp only [flushPendingOutboxUnlocked, kept, saved]
      exact flushIntents_version next saved
  intro same
  rw [same, loaded] at final
  cases final
  omega

theorem refusal_keeps (refused : acquired = false ∨ ¬ StoredRunAccepts platform graph world input) :
    (completeAgentTask platform graph world input acquired).1 = world := by
  unfold completeAgentTask withRunMutationLease
  split
  · rename_i leased
    cases written : update world input.runId fun current => completeTask platform graph current input with
    | error thrown => rfl
    | ok result =>
      obtain ⟨stored, loaded, completed, -, safe, -⟩ := update_ok written
      rcases refused with unleased | refused
      · rw [leased] at unleased
        cases unleased
      · have accepts := accepts_of_completed completed
        exact absurd ⟨safe, by rw [loaded]; exact accepts⟩ refused
  · rfl

theorem jsTrim_ne_empty (starts : text.toList.head? = some first)
    (solid : isJsSpace first = false) : jsTrim text ≠ "" := by
  obtain ⟨rest, chars⟩ : ∃ rest, text.toList = first :: rest := by
    cases chars : text.toList with
    | nil => simp [chars] at starts
    | cons head rest =>
      rw [chars] at starts
      cases starts
      exact ⟨rest, rfl⟩
  intro blank
  have trimmed : trimChars text.toList = [] := by
    simpa [jsTrim] using congrArg String.toList blank
  unfold trimChars at trimmed
  rw [chars, List.dropWhile_cons_of_neg (by simp [solid]), List.reverse_eq_nil_iff,
    List.dropWhile_eq_nil_iff] at trimmed
  have space := trimmed first (by simp)
  rw [solid] at space
  cases space

theorem message_named : (NonEmptyString.parse ("msg_" ++ key)).isSome := by
  have solid : jsTrim ("msg_" ++ key) ≠ "" :=
    jsTrim_ne_empty (show _ = some 'm' by simp) (by decide)
  simp [NonEmptyString.parse, solid]

theorem overtaken_named (overtaken : Overtaken platform graph first second world) :
    (NonEmptyString.parse first.messageId).isSome := by
  cases overtaken with
  | intro between later reached claimed went again same goes =>
    obtain ⟨queued, held, -, file, -⟩ := leased_claim claimed
    have sound := reachable_sound reached
    obtain ⟨stored, member, draft, drafted, sameFile⟩ := sound.origins queued held
    obtain ⟨key, name, -⟩ := (sound.drafts stored member draft drafted).named
    have named : first.messageId = draft.messageId := congrArg Prod.snd (sameFile.trans file).symm
    rw [named, name]
    exact message_named

/-- A worker that was overtaken holds a lease that is not the current one. Its completion still
leaves the stores as they are only where the run refuses it, whatever its fence. -/
theorem stale_completion_harmless_iff (platform : Platform) (graph : ValidGraph)
    (first second : MailboxMessage) (world : World)
    (overtaken : Overtaken platform graph.graph first second world) (input : AgentTaskCompletion)
    (status : TaskStatus) (acquired : Bool)
    (fenced : input.mailboxCompletion =
      some { messageId := first.messageId, status, fence := first.claimLease }) :
    (∀ message ∈ world.mailbox, message.file = first.file → message.claimLease ≠ first.claimLease) ∧
      ((completeAgentTask platform graph.graph world input acquired).1 = world ↔
        acquired = false ∨ ¬ StoredRunAccepts platform graph.graph world input) := by
  refine ⟨overtaken_lease overtaken, ?_⟩
  have named : ∀ completion ∈ input.mailboxCompletion,
      (NonEmptyString.parse completion.messageId).isSome := by
    intro completion asked
    rw [fenced] at asked
    cases asked
    exact overtaken_named overtaken
  constructor
  · intro unchanged
    by_cases leased : acquired = false
    · exact .inl leased
    · refine .inr fun accepted => ?_
      rw [Bool.not_eq_false] at leased
      subst leased
      exact completion_changes named accepted unchanged
  · exact refusal_keeps

def handedLoop : World :=
  (handoff plainPlatform researchLoop.graph startedLoop (handsOver "draft") "t1" true).1

def lateToken : NonEmptyString := named "token_2"

def claimAs (holderId : String) (now : Int) (token : NonEmptyString) (world : World) :
    Except Thrown (Option MailboxMessage × Mailbox) :=
  claimNext plainPlatform.localeCompare world.mailbox "researcher" (some { holderId, ttlMs := 10 }) now
    token

/-- The message as the first worker gets it, and as the second one does after ten milliseconds. -/
def firstClaim : Option MailboxMessage × Mailbox :=
  (claimAs "worker_a" 0 researcherToken handedLoop).toOption.getD (none, [])

def secondClaim : Option MailboxMessage × Mailbox :=
  (claimAs "worker_b" 20 lateToken { handedLoop with mailbox := firstClaim.2 }).toOption.getD (none, [])

def overtakenWorld : World := { handedLoop with mailbox := secondClaim.2 }

theorem overtakenWorld_overtaken : ∃ first second, firstClaim.1 = some first ∧
      Overtaken plainPlatform researchLoop.graph first second overtakenWorld := by
  obtain ⟨first, one⟩ := Option.isSome_iff_exists.mp (show firstClaim.1.isSome by decide +kernel)
  obtain ⟨second, two⟩ := Option.isSome_iff_exists.mp (show secondClaim.1.isSome by decide +kernel)
  have claimed : claimAs "worker_a" 0 researcherToken handedLoop = .ok (some first, firstClaim.2) := by
    rw [← one]
    decide +kernel
  have again : claimAs "worker_b" 20 lateToken { handedLoop with mailbox := firstClaim.2 } =
      .ok (some second, secondClaim.2) := by
    rw [← two]
    decide +kernel
  have same : secondClaim.1.map MailboxMessage.file = firstClaim.1.map MailboxMessage.file := by
    decide +kernel
  rw [one, two] at same
  exact ⟨first, second, one, .intro [] [] (handoff_reachable startedLoop_reachable)
    claimed rfl again (Option.some.inj same) rfl⟩

/-- The completion that the first worker sends with its old lease. -/
def lateCompletion (message : MailboxMessage) (agentId : String) : AgentTaskCompletion where
  runId := "mar_1"
  agentId
  mailboxCompletion := some { messageId := message.messageId, status := .completed, fence := message.claimLease }

theorem stale_completion_harmless_elsewhere : ∃ message, firstClaim.1 = some message ∧
      (completeAgentTask plainPlatform researchLoop.graph overtakenWorld
        (lateCompletion message "writer") true).1 = overtakenWorld := by
  obtain ⟨first, second, one, overtaken⟩ := overtakenWorld_overtaken
  refine ⟨first, one, ((stale_completion_harmless_iff plainPlatform researchLoop first second
    overtakenWorld overtaken (lateCompletion first "writer") .completed true rfl).2).mpr (.inr ?_)⟩
  rintro ⟨-, accepts⟩
  have refused : (overtakenWorld.load "mar_1").any (fun stored => acceptsCompletion plainPlatform
      researchLoop.graph stored.run (lateCompletion first "writer")) = false := by
    have any : ∀ message ∈ firstClaim.1, (overtakenWorld.load "mar_1").any (fun stored =>
        acceptsCompletion plainPlatform researchLoop.graph stored.run
          (lateCompletion message "writer")) = false := by
      decide +kernel
    exact any first one
  exact absurd (refused.symm.trans accepts) (by simp)

/-- The first worker comes back after the second one has claimed the message. The mailbox turns
its completion down; the run has left the researcher by then. -/
theorem stale_worker_moves_run :
    ∃ first second world, Overtaken plainPlatform researchLoop.graph first second world ∧
      (completeAgentTask plainPlatform researchLoop.graph world
        (lateCompletion first "researcher") true).2 =
          .error (.error "Mailbox complete rejected by stale mailbox claim") ∧
      (world.load "mar_1").map (fun stored => stored.run.activeNodeId.text) = some "researcher" ∧
      ((completeAgentTask plainPlatform researchLoop.graph world
        (lateCompletion first "researcher") true).1.load "mar_1").map
          (fun stored => stored.run.activeNodeId.text) = some "manager" := by
  obtain ⟨first, second, one, overtaken⟩ := overtakenWorld_overtaken
  have late : ∀ message ∈ firstClaim.1, (completeAgentTask plainPlatform researchLoop.graph overtakenWorld
        (lateCompletion message "researcher") true).2 =
          .error (.error "Mailbox complete rejected by stale mailbox claim") ∧
      (overtakenWorld.load "mar_1").map (fun stored => stored.run.activeNodeId.text) = some "researcher" ∧
      ((completeAgentTask plainPlatform researchLoop.graph overtakenWorld
        (lateCompletion message "researcher") true).1.load "mar_1").map
          (fun stored => stored.run.activeNodeId.text) = some "manager" := by
    decide +kernel
  exact ⟨first, second, overtakenWorld, overtaken, late first one⟩

end QiongQi.StaleWorkers
