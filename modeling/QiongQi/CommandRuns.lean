import QiongQi.CommandLedgers
import QiongQi.KernelTerminal
import QiongQi.RunConclusions

/-! A kernel's run against the account of its commands: whatever the run's surroundings do,
every state that it saves is what the account says at that point. -/
namespace QiongQi.CommandRuns
open JsonValues Programs Histories RuntimeContracts MiddlewareCommands ExecutionGraphs
  RuntimeKernels KernelRuns KernelReducers KernelDurability KernelReplay KernelSteps
  KernelTerminal CommandLedgers RunConclusions
open List hiding after
open KernelLive (startedState savedIn)
open KernelInvariants (attemptRun_within)

variable {Ext : Type} {ExtAnswer : Ext → Type}

/-- The stores of a run, and what has been seen of it. -/
abbrev Seen (Ext : Type) : Type := RunWorld Ext × List Note

/-- A stored end that did not fail is the account's, with no completion left to be replayed. -/
def Fine (ledger : Ledger) (world : RunWorld Ext) : Prop :=
  Unfinished world ∨ ledger.ended = true ∧ ledger.Settled ∧
    ∀ rest, ledger.queue = some rest → ∀ event ∈ rest, event.eventType ≠ "node.completed"

def Opened (kernel : RuntimeKernel ExtAnswer) (identity : RunIdentity) (seen : Seen Ext) : Prop :=
  ∃ ledger, Books kernel identity seen.2 ledger ∧ Fine ledger seen.1

/-- The state in memory is what an account of what was seen says. -/
def Holds (kernel : RuntimeKernel ExtAnswer) (identity : RunIdentity) (live : RunStateV3)
    (good : Ledger → Prop) (seen : Seen Ext) : Prop :=
  ∃ ledger, good ledger ∧ Books kernel identity seen.2 ledger ∧ Agrees live ledger ∧ Fine ledger seen.1

/-- It will hold that of the state once a list that it was given has been checked. -/
def Offers (kernel : RuntimeKernel ExtAnswer) (identity : RunIdentity) (live : RunStateV3)
    (result : Except String α) (meets : α → Ledger → Prop) (seen : Seen Ext) : Prop :=
  Opened kernel identity seen ∧ ∀ value, result = .ok value → Holds kernel identity live (meets value) seen

/-- It will hold that of the next state once a record has been read and reduced. -/
def Reduces (kernel : RuntimeKernel ExtAnswer) (identity : RunIdentity) (parsed : Except String α)
    (reduce : α → NonEmptyString → Except String RunStateV3)
    (meets : RunStateV3 → Ledger → Prop) (seen : Seen Ext) : Prop :=
  Opened kernel identity seen ∧ ∀ payload now next, parsed = .ok payload →
    reduce payload now = .ok next → Holds kernel identity next (meets next) seen

/-- Where a run throws. Only a lease that is gone reports an outcome. -/
def Broken (kernel : RuntimeKernel ExtAnswer) (identity : RunIdentity) (error : RuntimeError)
    (seen : Seen Ext) : Prop :=
  (seen.2 = [] ∨ Opened kernel identity seen) ∧
    ∀ outcome, error = .leaseLost (some outcome) → Note.lost ∈ seen.2

/-- Where it is cut short. -/
def Cut (kernel : RuntimeKernel ExtAnswer) (identity : RunIdentity) (seen : Seen Ext) : Prop :=
  seen.2 = [] ∨ ∃ ledger, Books kernel identity seen.2 ledger

/-- The condition looks at nothing of the stores but the snapshot. -/
def Steady (condition : Seen Ext → Prop) : Prop :=
  ∀ before after notes, after.snapshot = before.snapshot → condition (before, notes) →
    condition (after, notes)

section

theorem Fine.going (fine : Fine ledger world) (going : ledger.ended = false) :
    Unfinished world := by
  refine fine.elim id fun ended => ?_
  rw [ended.1] at going
  cases going

theorem steady_fine : Steady fun seen : Seen Ext => Fine ledger seen.1 := by
  intro before after notes same fine
  refine fine.imp_left fun unfinished state found => unfinished state ?_
  rw [← same]
  exact found

theorem steady_opened : Steady (@Opened Ext ExtAnswer kernel identity) := by
  rintro before after notes same ⟨ledger, books, fine⟩
  exact ⟨ledger, books, steady_fine before after notes same fine⟩

theorem steady_holds : Steady (@Holds Ext ExtAnswer kernel identity live good) := by
  rintro before after notes same ⟨ledger, holds, books, agrees, fine⟩
  exact ⟨ledger, holds, books, agrees, steady_fine before after notes same fine⟩

theorem steady_offers : Steady (@Offers Ext ExtAnswer α kernel identity live result meets) :=
  fun before after notes same holds => ⟨steady_opened before after notes same holds.1,
    fun value read => steady_holds before after notes same (holds.2 value read)⟩

theorem steady_reduces {parsed : Except String α}
    {reduce : α → NonEmptyString → Except String RunStateV3} {meets : RunStateV3 → Ledger → Prop} :
    Steady (@Reduces Ext ExtAnswer α kernel identity parsed reduce meets) :=
  fun before after notes same holds => ⟨steady_opened before after notes same holds.1,
    fun payload now next read reduced =>
      steady_holds before after notes same (holds.2 payload now next read reduced)⟩

theorem Holds.opened (holds : Holds kernel identity live good seen) : Opened kernel identity seen :=
  holds.elim fun ledger held => ⟨ledger, held.2.1, held.2.2.2⟩

theorem Holds.imp {other : Ledger → Prop} (holds : Holds kernel identity live good seen)
    (weaker : ∀ ledger, good ledger → other ledger) : Holds kernel identity live other seen :=
  holds.elim fun ledger held => ⟨ledger, weaker ledger held.1, held.2⟩

theorem Opened.cut (opened : Opened kernel identity seen) : Cut kernel identity seen :=
  .inr (opened.elim fun ledger held => ⟨ledger, held.1⟩)

theorem Opened.broken (opened : Opened kernel identity seen) (error : ForeignError) :
    Broken kernel identity (.foreign error) seen :=
  ⟨.inr opened, fun _ lost => by cases lost⟩

end

section
variable {around : Surroundings ExtAnswer} {identity : RunIdentity}
variable {kernel : RuntimeKernel ExtAnswer} {pre : Seen Ext → Prop}

/-- An execution of the program by a run whose operations are noted. -/
abbrev Tells (around : Surroundings ExtAnswer) (identity : RunIdentity)
    (kernel : RuntimeKernel ExtAnswer) (pre : Seen Ext → Prop) (program : KernelProgram ExtAnswer α)
    (post : α → Seen Ext → Prop) : Prop :=
  Triple (noting (runHost around identity) note) pre program post (Broken kernel identity)
    (Cut kernel identity)

theorem note_rejected :
    note op (Except.error error : Except RuntimeError (RuntimeAnswer ExtAnswer op)) = [] := by
  cases op <;> rfl

variable {op : RuntimeOp Ext} {post : α → Seen Ext → Prop}
variable {state : RunStateV3} {commands : List MiddlewareCommand} {notes : List Note}
variable {event : RunEventEnvelope} {outcome : Option RunOutcome}

theorem perform_snapshot (unsaved : ∀ state fence, op ≠ .save state fence) :
    (perform around identity world op).2.snapshot = world.snapshot := by
  cases op with
  | save state fence => exact absurd rfl (unsaved state fence)
  | append event fence =>
    simp only [perform, performAppend]
    split
    · rfl
    · split <;> rfl
  | external call =>
    exact recordEffects_snapshot identity (around.nowIso world.clock)
      (around.effects world.clock) (world.observe (.called call))
  | _ => rfl

theorem performed_snapshot (unsaved : ∀ state fence, op ≠ .save state fence)
    (performed : perform around identity world op = (answer, after)) :
    after.snapshot = world.snapshot := by
  have same : (perform around identity world op).2.snapshot = world.snapshot :=
    perform_snapshot unsaved
  rw [performed] at same
  exact same

theorem performed_refused
    (performed : perform around identity world op = (.error error, after)) :
    after.snapshot = world.snapshot := by
  cases op with
  | save state fence =>
    simp only [perform, performSave] at performed
    split at performed
    · cases performed
      rfl
    · split at performed
      · cases performed
        rfl
      · cases performed
  | _ => exact performed_snapshot (by simp) performed

theorem tells_await {post : RuntimeAnswer ExtAnswer op → Seen Ext → Prop}
    (opened : ∀ seen, pre seen → Opened kernel identity seen)
    (answered : ∀ world notes answer after, pre (world, notes) →
      perform around identity world op = (.ok answer, after) →
        post answer (after, notes ++ note op (.ok answer))) :
    Tells around identity kernel pre (await op) post := by
  refine triple_noted (fun seen holds => (opened seen holds).cut) answered ?_
  intro world notes error after holds performed
  have rejected : (perform around identity world op).1 = .error error :=
    congrArg Prod.fst performed
  have same : after.snapshot = world.snapshot := performed_refused performed
  obtain ⟨foreign, rfl⟩ := perform_rejects rejected
  rw [note_rejected, append_nil]
  exact (steady_opened world after notes same (opened _ holds)).broken foreign

theorem tells_unnoted (unnoted : ∀ answer : RuntimeAnswer ExtAnswer op, note op (.ok answer) = [])
    (kept : ∀ world notes, pre (world, notes) → pre ((perform around identity world op).2, notes))
    (opened : ∀ seen, pre seen → Opened kernel identity seen) :
    Tells around identity kernel pre (await op) fun _ => pre := by
  refine tells_await opened fun world notes answer after holds performed => ?_
  rw [unnoted, append_nil]
  have held := kept world notes holds
  rw [performed] at held
  exact held

theorem Steady.kept (steady : Steady pre) (unsaved : ∀ state fence, op ≠ .save state fence)
    (world : RunWorld Ext) (notes : List Note) (holds : pre (world, notes)) :
    pre ((perform around identity world op).2, notes) :=
  steady world _ notes (perform_snapshot unsaved) holds

theorem tells_quiet (unnoted : ∀ answer : RuntimeAnswer ExtAnswer op, note op (.ok answer) = [])
    (unsaved : ∀ state fence, op ≠ .save state fence) (steady : Steady pre)
    (opened : ∀ seen, pre seen → Opened kernel identity seen) :
    Tells around identity kernel pre (await op) fun _ => pre :=
  tells_unnoted unnoted (steady.kept unsaved) opened

theorem tells_pure {value : α} (holds : ∀ seen, pre seen → post value seen) :
    Tells around identity kernel pre (pure value) post :=
  triple_pure holds

theorem tells_throw {error : ForeignError} (opened : ∀ seen, pre seen → Opened kernel identity seen) :
    Tells around identity kernel pre (Program.throw (.foreign error)) post :=
  triple_throw fun seen holds => (opened seen holds).broken error

theorem tells_lift {result : Except String α} {next : α → KernelProgram ExtAnswer β}
    {post : β → Seen Ext → Prop} (opened : ∀ seen, pre seen → Opened kernel identity seen)
    (ok : ∀ value, result = .ok value → Tells around identity kernel pre (next value) post) :
    Tells around identity kernel pre (lift result >>= next) post := by
  cases result with
  | ok value => exact ok value rfl
  | error message => exact triple_throw fun seen holds => (opened seen holds).broken _

theorem tells_weaken {program : KernelProgram ExtAnswer α} {pre' : Seen Ext → Prop}
    {post' : α → Seen Ext → Prop} (proved : Tells around identity kernel pre program post)
    (weaker : ∀ seen, pre' seen → pre seen)
    (stronger : ∀ value seen, post value seen → post' value seen) :
    Tells around identity kernel pre' program post' :=
  triple_consequence proved weaker stronger (fun _ _ => id) fun _ => id

theorem tells_nowIso (steady : Steady pre) (opened : ∀ seen, pre seen → Opened kernel identity seen) :
    Tells around identity kernel pre (await .nowIso) fun _ => pre :=
  tells_quiet (fun _ => rfl) (by simp) steady opened

theorem tells_renewed (kept : ∀ world notes, pre (world, notes) →
      pre ((perform around identity world (.renew fence)).2, notes))
    (opened : ∀ seen, pre seen → Opened kernel identity seen) :
    Tells around identity kernel pre (assertLeaseHealthy fence state) fun _ => pre := by
  have asked : Tells around identity kernel pre (await (.renew fence)) fun renewed seen =>
      if renewed then pre seen else Opened kernel identity seen ∧ Note.lost ∈ seen.2 := by
    refine tells_await opened fun world notes answer after holds performed => ?_
    have held := kept world notes holds
    rw [performed] at held
    cases answer with
    | true =>
      show pre (after, notes ++ [])
      rw [append_nil]
      exact held
    | false =>
      obtain ⟨ledger, books, fine⟩ := opened _ held
      exact ⟨⟨ledger, books.lost, fine⟩, mem_append_right _ mem_cons_self⟩
  refine triple_bind asked fun renewed => ?_
  cases renewed with
  | true => exact triple_pure fun _ => id
  | false => exact triple_throw fun seen gone => ⟨.inr gone.1, fun _ _ => gone.2⟩

theorem tells_healthy {fence : Option LeaseFence} (steady : Steady pre)
    (opened : ∀ seen, pre seen → Opened kernel identity seen) :
    Tells around identity kernel pre (assertLeaseHealthy fence state) fun _ => pre :=
  tells_renewed (steady.kept (by simp)) opened

theorem tells_crashPoint (steady : Steady pre) (opened : ∀ seen, pre seen → Opened kernel identity seen) :
    Tells around identity kernel pre (reachCrashPoint point) fun _ => pre := by
  refine triple_catching (tells_quiet (fun _ => rfl) (by simp) steady opened) fun error => ?_
  cases error with
  | foreign error => exact triple_throw fun seen broken => ⟨broken.1, fun _ lost => by cases lost⟩
  | kernelCrash original | leaseLost outcome => exact triple_throw fun _ => id

theorem tells_issue (steady : Steady pre) (opened : ∀ seen, pre seen → Opened kernel identity seen) :
    Tells around identity kernel pre (issue program) fun _ => pre := by
  induction program with
  | pure value => exact triple_pure fun _ => id
  | throw error => exact tells_throw opened
  | stop => exact triple_stop fun seen holds => (opened seen holds).cut
  | call op next ih =>
    unfold issue
    have performed : ∀ seen : Seen Ext, pre seen → (noting (runHost around identity) note).alive seen = true →
        pre ((noting (runHost around identity) note).perform seen (.external op)).2 := by
      intro seen holds _
      have unnoted : ∀ answer : Except RuntimeError (RuntimeAnswer ExtAnswer (.external op)),
          note (.external op) answer = [] := by
        intro answer
        cases answer <;> rfl
      show pre (_, seen.2 ++ note (.external op) _)
      rw [unnoted, append_nil]
      exact steady seen.1 _ seen.2 (perform_snapshot (by simp)) holds
    intro seen holds
    rw [execute]
    split
    next alive =>
      have kept := performed seen holds alive
      rcases answered : ((noting (runHost around identity) note).perform seen
        (.external op)).1 with error | answer
      · obtain ⟨foreign, rfl⟩ := perform_rejects answered
        exact ih (.error foreign) _ kept
      · exact ih (.ok answer) _ kept
    next => exact (opened seen holds).cut

/-- So many events are left, and no list waits. -/
def Quiet (rest : List RunEventEnvelope) (ledger : Ledger) : Prop :=
  ledger.queue = some rest ∧ ledger.waiting = []

/-- The list waits, and the run has not ended. -/
def Waits (commands : List MiddlewareCommand) (ledger : Ledger) : Prop :=
  ledger.queue = some [] ∧ ledger.waiting = commands ∧ ledger.ended = false

variable {live : RunStateV3}

theorem tells_offered {result : Except String α} {meets : α → Ledger → Prop}
    {next : α → KernelProgram ExtAnswer β} {post : β → Seen Ext → Prop}
    (goesOn : ∀ value, result = .ok value → Tells around identity kernel
      (Holds kernel identity live (meets value)) (next value) post) :
    Tells around identity kernel (Offers kernel identity live result meets)
      (assertLeaseHealthy fence state >>= fun _ => lift result >>= next) post := by
  refine triple_bind (tells_healthy steady_offers fun _ => And.left) fun _ => ?_
  refine tells_lift (fun _ => And.left) fun value read => ?_
  exact tells_weaken (goesOn value read) (fun seen holds => holds.2 value read) fun _ _ => id

theorem tells_hook {context : MiddlewareContext} {meets : List MiddlewareCommand → Ledger → Prop}
    (state : context.state = live)
    (answered : ∀ world notes ledger result commands, good ledger →
      Books kernel identity notes ledger → Agrees live ledger → Fine ledger world →
      acceptedCommands result = .ok commands → Holds kernel identity live (meets commands)
        (world, notes ++ [.answered context result])) :
    Tells around identity kernel (Holds kernel identity live good)
      (await (.middleware context)) fun result =>
        Offers kernel identity live (acceptedCommands result) meets := by
  refine tells_await (fun _ => Holds.opened) fun world notes result after holds performed => ?_
  have same : after.snapshot = world.snapshot := performed_snapshot (by simp) performed
  obtain ⟨ledger, held, books, agrees, fine⟩ := holds
  cases accepted : acceptedCommands result with
  | ok commands =>
    have holds := answered world notes ledger result commands held books agrees fine accepted
    refine steady_offers world after _ same ⟨holds.opened, fun found same_ => ?_⟩
    cases same_
    exact holds
  | error message =>
    have invalid : ∀ commands, acceptedCommands result ≠ .ok commands := by
      rw [accepted]
      exact fun _ => nofun
    have kept : Fine ledger after := steady_fine world after notes same fine
    exact ⟨⟨ledger, books.ignored (state ▸ agrees.data) (.inr (.inl invalid)), kept⟩, fun _ => nofun⟩

theorem tells_afterRunIf : Tells around identity kernel (Holds kernel identity live good)
      (afterRunIf condition live) fun _ => Holds kernel identity live good := by
  unfold afterRunIf
  split
  · refine triple_bind (tells_await (fun _ => Holds.opened) fun world notes result after holds
      performed => ?_) fun _ => tells_pure fun _ => id
    have same : after.snapshot = world.snapshot := performed_snapshot (by simp) performed
    obtain ⟨ledger, held, books, agrees, fine⟩ := holds
    exact ⟨ledger, held, books.ignored agrees.data (.inl rfl), agrees,
      steady_fine world after notes same fine⟩
  · exact tells_pure fun _ => id

/-- A record is noted with its own event; the numbering before it changes no account. -/
theorem tells_record {nodeId eventType : String} {payload : JsValue}
    {post : RunEventEnvelope → Seen Ext → Prop}
    (listed : ∀ ledger, good ledger → ∃ rest, ledger.queue = some rest)
    (steady : ∀ event, Steady (post event))
    (recorded : ∀ world notes ledger event, good ledger → Books kernel identity notes ledger →
      Agrees live ledger → Fine ledger world → event.eventType = eventType →
      event.payload = payload → post event (world, notes ++ [.recorded event])) :
    Tells around identity kernel (Holds kernel identity live good)
      (recordEvent identity live nodeId eventType payload fence) post := by
  have numbered : Tells around identity kernel (Holds kernel identity live good)
      (await (.listAfter 0)) fun _ => Holds kernel identity live good := by
    refine tells_await (fun _ => Holds.opened) fun world notes events after holds performed => ?_
    have same : after.snapshot = world.snapshot := performed_snapshot (by simp) performed
    obtain ⟨ledger, held, books, agrees, fine⟩ := holds
    obtain ⟨rest, queue⟩ := listed ledger held
    exact ⟨ledger, held, books.listedAgain queue, agrees, steady_fine world after notes same fine⟩
  refine triple_bind numbered fun existing => ?_
  refine triple_bind (tells_nowIso steady_holds fun _ => Holds.opened) fun now => ?_
  refine tells_await (fun _ => Holds.opened) fun world notes answer after holds performed => ?_
  have same : after.snapshot = world.snapshot := performed_snapshot (by simp) performed
  obtain ⟨ledger, held, books, agrees, fine⟩ := holds
  have own := congrArg Prod.fst performed
  simp only [perform, performAppend] at own
  split at own
  · cases own
  · split at own
    · cases own
    · cases own
      refine steady _ world after _ same ?_
      exact recorded world notes ledger _ held books agrees fine rfl rfl

theorem tells_save {post : Seen Ext → Prop} (opened : ∀ seen, pre seen → Opened kernel identity seen)
    (saved : ∀ seen, pre seen → ∃ ledger, Books kernel identity seen.2 ledger ∧ Quiet [] ledger ∧
      dataOf state = ledger.data ∧ isTerminal state = ledger.ended ∧
      state.cursor.checkpointSeq = ledger.checkpoint ∧
      ∀ world, Books kernel identity (seen.2 ++ [.saved state]) { ledger with saved := true } →
        Fine { ledger with saved := true } world → post (world, seen.2 ++ [.saved state])) :
    Tells around identity kernel pre (await (.save state fence)) fun _ => post := by
  refine tells_await opened fun world notes answer after holds performed => ?_
  obtain ⟨ledger, books, ⟨queue, waiting⟩, data, ended, checkpoint, posted⟩ :=
    saved (world, notes) holds
  refine posted after (books.saved data ended checkpoint waiting queue) ?_
  simp only [perform, performSave] at performed
  split at performed
  · cases performed
  · split at performed
    · cases performed
    · rename_i stored persisted
      cases performed
      obtain ⟨version, nodeId, outcome, _, _, _, same⟩ :=
        RunStateV3.persist_some_iff.mp persisted
      cases terminal : isTerminal state with
      | true =>
        refine .inr ⟨ended.symm.trans terminal, ⟨rfl, waiting⟩, fun rest found => ?_⟩
        rw [queue] at found
        cases found
        exact fun _ absurdity => absurd absurdity not_mem_nil
      | false =>
        refine .inl fun found shown stopped => ?_
        cases shown
        rw [same] at stopped
        have again : isTerminal state = true := stopped
        rw [terminal] at again
        cases again

theorem tells_saveHeld (data : dataOf state = dataOf live) (status : isTerminal state = isTerminal live)
    (checkpoint : state.cursor.checkpointSeq = live.cursor.checkpointSeq) :
    Tells around identity kernel (Holds kernel identity live (Quiet []))
      (await (.save state fence)) fun _ => Holds kernel identity live fun ledger =>
        Quiet [] ledger ∧ ledger.saved = true := by
  refine tells_save (fun _ => Holds.opened) ?_
  rintro seen ⟨ledger, quiet, books, agrees, -⟩
  refine ⟨ledger, books, quiet, data.trans agrees.data, status.trans agrees.ended,
    checkpoint.trans agrees.checkpoint, ?_⟩
  intro world books fine
  exact ⟨{ ledger with saved := true }, ⟨quiet, rfl⟩, books, agrees.aside _ _ _, fine⟩

/-- In a run that began where an earlier one had ended, the store has the account as long as
the checkpoint has not moved. -/
def Kept (floor : Option Nat) (live : RunStateV3) (ledger : Ledger) : Prop :=
  ∀ checkpoint, floor = some checkpoint →
    checkpoint < live.cursor.checkpointSeq ∨ ledger.saved = true ∧ ledger.ended = true

theorem Kept.going {floor : Option Nat} {ledger after : Ledger} {next : RunStateV3}
    (kept : Kept floor live ledger) (going : ledger.ended = false)
    (forward : live.cursor.checkpointSeq ≤ next.cursor.checkpointSeq) : Kept floor next after := by
  intro checkpoint found
  rcases kept checkpoint found with before | ⟨-, ended⟩
  · exact .inl (by omega)
  · rw [going] at ended
    cases ended

theorem Kept.forward (kept : Kept floor live ledger)
    (forward : live.cursor.checkpointSeq ≤ next_.cursor.checkpointSeq) : Kept floor next_ ledger :=
  fun checkpoint found => (kept checkpoint found).imp_left fun before => by omega

variable {floor : Option Nat} {rest : List RunEventEnvelope}

/-- What `afterNode` said waits to be recorded, unless the run has ended. -/
private def Answered (floor : Option Nat) (rest : List RunEventEnvelope) (live : RunStateV3)
    (commands : List MiddlewareCommand) (ledger : Ledger) : Prop :=
  ledger.queue = some rest ∧ Kept floor live ledger ∧
    (ledger.ended = true ∧ ledger.waiting = [] ∨ ledger.ended = false ∧ ledger.waiting = commands)

private theorem tells_afterHook : Tells around identity kernel
      (Holds kernel identity live fun ledger => Quiet rest ledger ∧ Kept floor live ledger)
      (await (.middleware (afterContext live pending))) fun result =>
        Offers kernel identity live (acceptedCommands result) (Answered floor rest live) := by
  refine tells_hook rfl ?_
  rintro world notes ledger result commands ⟨⟨queue, waiting⟩, kept⟩ books agrees fine accepted
  cases ended : ledger.ended with
  | true =>
    exact ⟨ledger, ⟨queue, kept, .inl ⟨ended, waiting⟩⟩,
      books.ignored agrees.data (.inr (.inr ⟨rfl, ended⟩)), agrees, fine⟩
  | false =>
    exact ⟨{ ledger with waiting := commands }, ⟨queue, kept, .inr ⟨ended, rfl⟩⟩,
      books.answered agrees.data waiting accepted (.inr (.inl ⟨rfl, ended⟩)),
      agrees.aside _ _ _, .inl (fine.going ended)⟩

private theorem answered_recorded {pending : PendingAfterMiddleware} {world : RunWorld Ext}
    {ledger : Ledger} (answered : Answered floor rest live commands ledger)
    (books : Books kernel identity notes ledger) (agrees : Agrees live ledger)
    (fine : Fine ledger world) (kind : event.eventType = "node.after_middleware")
    (carried : event.payload = (afterPayload pending commands).toJs) :
    Reduces kernel identity (parseAfterMiddlewarePayload event.payload)
      (fun payload => reduceAfterMiddleware kernel live payload event.seq)
      (fun next ledger => Quiet rest ledger ∧ Kept floor next ledger)
      (world, notes ++ [.recorded event]) := by
  obtain ⟨queue, kept, waits⟩ := answered
  rcases waits with ⟨ended, waiting⟩ | ⟨going, waiting⟩
  · have recorded := books.recorded_silent waiting (.late kind ended)
    have fine : Fine { ledger with
        checkpoint := max ledger.checkpoint event.seq, waiting := [] } world :=
      fine.imp_right fun done => ⟨done.1, ⟨done.2.1.saved, rfl⟩, done.2.2⟩
    refine ⟨⟨_, recorded, fine⟩, fun payload now next _ reduced => ?_⟩
    have late := agrees.late ended reduced
    have forward := reduceAfterMiddleware_checkpoint reduced
    exact ⟨{ ledger with checkpoint := max ledger.checkpoint event.seq, waiting := [] },
      ⟨⟨queue, rfl⟩, kept.forward (by omega)⟩, recorded,
      late.aside _ _ _, fine⟩
  · have unfinished : Unfinished world := fine.going going
    constructor
    · by_cases posted : ∃ next, Posts ledger event ledger.waiting next
      · obtain ⟨next, posts⟩ := posted
        exact ⟨_, books.recorded posts, .inl unfinished⟩
      · exact ⟨ledger, books.unread fun next posts => posted ⟨next, posts⟩, .inl unfinished⟩
    · intro payload now next parsed reduced
      have same : payload = afterPayload pending commands :=
        parseAfterMiddlewarePayload_toJs (carried ▸ parsed)
      obtain ⟨after, posts, agreed, queued, -⟩ := agrees.answer going kind parsed reduced
      have forward := reduceAfterMiddleware_checkpoint reduced
      have own : payload.commands = ledger.waiting := by
        rw [same, waiting]
        rfl
      rw [own] at posts
      exact ⟨{ after with waiting := [] },
        ⟨⟨queued.trans queue, rfl⟩, kept.going going (by omega)⟩, books.recorded posts,
        agreed.aside _ _ _, .inl unfinished⟩

theorem tells_commit : Tells around identity kernel
      (Holds kernel identity live fun ledger => Quiet rest ledger ∧ Kept floor live ledger)
      (commitAfterMiddleware kernel identity fence live pending) fun next =>
        Holds kernel identity next fun ledger => Quiet rest ledger ∧ Kept floor next ledger := by
  have opened : ∀ (live : RunStateV3) (good : Ledger → Prop) (seen : Seen Ext),
      Holds kernel identity live good seen → Opened kernel identity seen :=
    fun _ _ _ => Holds.opened
  refine triple_bind (tells_healthy steady_holds (opened _ _)) fun _ => ?_
  refine triple_bind tells_afterHook fun result =>
    tells_offered fun commands accepted => ?_
  refine tells_lift (opened _ _) fun _ _ => ?_
  refine triple_bind (tells_crashPoint steady_holds (opened _ _)) fun _ => ?_
  have canonical : canonicalizeJsonObject (afterPayload pending commands).toJs =
      (afterPayload pending commands).toJs :=
    canonicalizeJsonObject_survives (afterPayload_survives pending commands)
  have committed : Tells around identity kernel
      (Holds kernel identity live (Answered floor rest live commands))
      (recordEvent identity live pending.node.id "node.after_middleware"
        (canonicalizeJsonObject (afterPayload pending commands).toJs) fence) fun event =>
        Reduces kernel identity (parseAfterMiddlewarePayload event.payload)
          (fun payload => reduceAfterMiddleware kernel live payload event.seq)
          fun next ledger => Quiet rest ledger ∧ Kept floor next ledger := by
    refine tells_record (fun ledger answered => ⟨rest, answered.1⟩) (fun _ => steady_reduces) ?_
    intro world notes ledger event answered books agrees fine kind carried
    exact answered_recorded answered books agrees fine kind (carried.trans canonical)
  refine triple_bind committed fun event => ?_
  refine tells_lift (fun _ => And.left) fun payload parsed => ?_
  refine tells_lift (fun _ => And.left) fun _ _ => ?_
  refine triple_bind (tells_nowIso steady_reduces fun _ => And.left) fun now => ?_
  refine tells_lift (fun _ => And.left) fun next reduced => ?_
  refine tells_weaken (?_ : Tells around identity kernel
    (Holds kernel identity next fun ledger => Quiet rest ledger ∧ Kept floor next ledger) _ _)
    (fun seen holds => holds.2 payload now next parsed reduced) fun _ _ => id
  refine triple_bind (tells_crashPoint steady_holds (opened _ _)) fun _ => ?_
  exact tells_pure fun _ => id

theorem tells_saveIf : Tells around identity kernel (Holds kernel identity live (Quiet []))
      (saveIf fence condition live) fun _ => Holds kernel identity live fun ledger =>
        Quiet [] ledger ∧ (condition = true → ledger.saved = true) := by
  unfold saveIf
  split
  · exact tells_weaken (tells_saveHeld rfl rfl rfl) (fun _ => id) fun _ _ holds =>
      holds.imp fun _ quiet => ⟨quiet.1, fun _ => quiet.2⟩
  · rename_i unsaved
    exact tells_pure fun _ holds => holds.imp fun _ quiet =>
      ⟨quiet, fun condition => absurd condition unsaved⟩

theorem tells_startNode : Tells around identity kernel (Holds kernel identity live (Waits []))
      (startNode identity fence live node) fun next => Holds kernel identity next (Waits []) := by
  refine triple_bind (tells_healthy steady_holds fun _ => Holds.opened) fun _ => ?_
  have saved : Tells around identity kernel (Holds kernel identity live (Waits []))
      (saveIf fence (checkpointsBefore node) live) fun _ =>
        Holds kernel identity live (Waits []) := by
    unfold saveIf
    split
    · refine tells_save (fun _ => Holds.opened) ?_
      rintro seen ⟨ledger, ⟨queue, waiting, going⟩, books, agrees, -⟩
      refine ⟨ledger, books, ⟨queue, waiting⟩, agrees.data, agrees.ended, agrees.checkpoint, ?_⟩
      intro world books fine
      exact ⟨{ ledger with saved := true }, ⟨queue, waiting, going⟩, books, agrees.aside _ _ _, fine⟩
    · exact tells_pure fun _ => id
  refine triple_bind saved fun _ => ?_
  have started : ∀ event : RunEventEnvelope, Steady fun seen : Seen Ext => ∀ now,
      Holds kernel identity (startedState live event.seq now) (Waits []) seen :=
    fun event before after notes same holds now =>
      steady_holds before after notes same (holds now)
  have recorded : Tells around identity kernel (Holds kernel identity live (Waits []))
      (recordEvent identity live node.id "node.started" (.object [("nodeId", .string node.id),
          ("stepIndex", .number (.finite live.cursor.stepIndex))]) fence)
      fun event seen => ∀ now, Holds kernel identity (startedState live event.seq now) (Waits []) seen := by
    refine tells_record (fun ledger waits => ⟨[], waits.1⟩) (fun event => started event) ?_
    rintro world notes ledger event ⟨queue, waiting, going⟩ books agrees fine kind - now
    exact ⟨{ ledger with checkpoint := event.seq, waiting := [] }, ⟨queue, rfl, going⟩,
      books.recorded_silent waiting (.started kind (.inl rfl)),
      ⟨agrees.data, agrees.ended, agrees.version, rfl⟩, .inl (fine.going going)⟩
  refine triple_bind recorded fun event => ?_
  refine triple_bind (tells_nowIso (started event) fun seen holds =>
    (holds live.updatedAt).opened) fun now => ?_
  exact tells_pure fun seen holds => holds now

private theorem tells_leave {nodeId : String} {result : Option RuntimeNodeResult}
    {before : List MiddlewareCommand} :
    Tells around identity kernel (Holds kernel identity live (Waits before))
      (await (.leave nodeId result)) fun _ =>
        Offers kernel identity live (nodeCommands before result) Waits := by
  refine tells_await (fun _ => Holds.opened) fun world notes answer after holds performed => ?_
  have same : after.snapshot = world.snapshot := performed_snapshot (by simp) performed
  obtain ⟨ledger, ⟨queue, waiting, going⟩, books, agrees, fine⟩ := holds
  have unfinished : Fine ledger after := steady_fine world after notes same fine
  by_cases accepted : ∃ own, nodeCommands [] result = .ok own
  · obtain ⟨own, accepted⟩ := accepted
    have holds : Holds kernel identity live (Waits (before ++ own))
        (after, notes ++ [.handled nodeId result]) :=
      ⟨{ ledger with waiting := ledger.waiting ++ own },
        ⟨queue, congrArg (· ++ own) waiting, going⟩, books.handled accepted, agrees.aside _ _ _,
        .inl (unfinished.going going)⟩
    refine ⟨holds.opened, fun commands valid => ?_⟩
    obtain ⟨again, same_, rfl⟩ := nodeCommands_split.mp valid
    rw [accepted] at same_
    cases same_
    exact holds
  · refine ⟨⟨ledger, books.refused fun own found => accepted ⟨own, found⟩, unfinished⟩, ?_⟩
    intro commands valid
    obtain ⟨own, found, -⟩ := nodeCommands_split.mp valid
    exact absurd ⟨own, found⟩ accepted

private theorem completion_recorded {node : RuntimeNode} {result : Option RuntimeNodeResult}
    {world : RunWorld Ext} {ledger : Ledger} (waits : Waits commands ledger)
    (books : Books kernel identity notes ledger) (agrees : Agrees live ledger)
    (fine : Fine ledger world) (kind : event.eventType = "node.completed")
    (carried : event.payload = (completedPayload live node result commands).toJs) :
    Reduces kernel identity (parseCompletedNodePayload event.payload)
      (fun payload => reduceCompletedNode kernel live node payload event.seq)
      (fun _ => Quiet []) (world, notes ++ [.recorded event]) := by
  obtain ⟨queue, waiting, going⟩ := waits
  have unfinished : Unfinished world := fine.going going
  constructor
  · by_cases posted : ∃ next, Posts ledger event ledger.waiting next
    · obtain ⟨next, posts⟩ := posted
      exact ⟨_, books.recorded posts, .inl unfinished⟩
    · exact ⟨ledger, books.unread fun next posts => posted ⟨next, posts⟩, .inl unfinished⟩
  · intro payload now next parsed reduced
    have same : payload = completedPayload live node result commands :=
      parseCompletedNodePayload_toJs (carried ▸ parsed)
    have named : payload.nodeId = node.id := by
      rw [same]
      rfl
    have own : payload.commands = ledger.waiting := by
      rw [same, waiting]
      rfl
    obtain ⟨after, posts, agreed, queued, -⟩ := agrees.completion kind parsed named reduced
    rw [own] at posts
    exact ⟨{ after with waiting := [] }, ⟨queued.trans queue, rfl⟩, books.recorded posts,
      agreed.aside _ _ _, .inl unfinished⟩

/-- What an outcome of the run says of the account. -/
def Done (kernel : RuntimeKernel ExtAnswer) (identity : RunIdentity) (outcome : RunOutcome)
    (seen : Seen Ext) : Prop :=
  ∃ ledger, Books kernel identity seen.2 ledger ∧ Fine ledger seen.1 ∧
    (outcome.status = .failed ∨ ledger.Settled)

/-- Nothing is left to be applied or to be saved. -/
def Closed (kernel : RuntimeKernel ExtAnswer) (identity : RunIdentity) (seen : Seen Ext) : Prop :=
  ∃ ledger, Books kernel identity seen.2 ledger ∧ Fine ledger seen.1 ∧ ledger.Settled

theorem Closed.done (closed : Closed kernel identity seen) (outcome : RunOutcome) :
    Done kernel identity outcome seen :=
  closed.imp fun _ held => ⟨held.1, held.2.1, .inr held.2.2⟩

/-- After a pass the run goes on from a state that has not ended, or is done. -/
def AfterPass (kernel : RuntimeKernel ExtAnswer) (identity : RunIdentity) : Pass → Seen Ext → Prop
  | .goOn next => Holds kernel identity next (Waits [])
  | .done outcome => Done kernel identity outcome

theorem tells_completeNode {node : RuntimeNode} {handler : RuntimeNodeHandler ExtAnswer}
    {before : List MiddlewareCommand} :
    Tells around identity kernel (Holds kernel identity live (Waits before))
      (completeNode kernel identity fence live node before handler)
      (AfterPass kernel identity) := by
  refine triple_bind (tells_quiet (fun _ => rfl) (by simp) steady_holds fun _ => Holds.opened)
    fun _ => ?_
  refine triple_bind (tells_issue steady_holds fun _ => Holds.opened) fun result => ?_
  refine triple_bind tells_leave fun _ => tells_offered fun commands valid => ?_
  refine tells_lift (fun _ => Holds.opened) fun _ _ => ?_
  refine triple_bind (tells_record (fun ledger waits => ⟨[], waits.1⟩) (fun _ => steady_reduces)
    fun world notes ledger event waits books agrees fine kind carried =>
      completion_recorded waits books agrees fine kind carried) fun event => ?_
  refine triple_bind (tells_crashPoint steady_reduces fun _ => And.left) fun _ => ?_
  refine tells_lift (fun _ => And.left) fun payload parsed => ?_
  refine triple_bind (tells_nowIso steady_reduces fun _ => And.left) fun now => ?_
  refine tells_lift (fun _ => And.left) fun reduced reduces => ?_
  refine tells_weaken (?_ : Tells around identity kernel
    (Holds kernel identity reduced fun ledger => Quiet [] ledger ∧ Kept none reduced ledger) _ _)
    (fun seen holds => (holds.2 payload now reduced parsed reduces).imp fun ledger quiet =>
      ⟨quiet, fun checkpoint found => by cases found⟩) fun _ _ => id
  refine triple_bind tells_commit fun next => ?_
  refine tells_weaken (?_ : Tells around identity kernel
    (Holds kernel identity next (Quiet [])) _ _)
    (fun seen holds => holds.imp fun _ quiet => quiet.1) fun _ _ => id
  refine triple_bind tells_saveIf fun _ => ?_
  refine triple_bind tells_afterRunIf fun _ => ?_
  refine tells_pure fun seen holds => ?_
  obtain ⟨ledger, ⟨⟨queue, waiting⟩, saved⟩, books, agrees, fine⟩ := holds
  cases terminal : isTerminal next with
  | true =>
    rw [terminal] at saved
    exact ⟨ledger, books, fine, .inr ⟨saved (by simp), waiting⟩⟩
  | false => exact ⟨ledger, ⟨queue, waiting, agrees.ended.symm.trans terminal⟩, books, agrees, fine⟩

theorem tells_endRun {outcome : RunOutcome} (said : commandOutcome commands = some outcome) :
    Tells around identity kernel (Holds kernel identity live (Waits commands))
      (endRun fence live commands outcome) (Done kernel identity) := by
  refine tells_lift (fun _ => Holds.opened) fun applied done => ?_
  refine triple_bind (tells_nowIso steady_holds fun _ => Holds.opened) fun now => ?_
  have saved : Tells around identity kernel (Holds kernel identity live (Waits commands))
      (await (.save (withOutcome applied outcome now) fence)) fun _ => Closed kernel identity := ?_
  · exact triple_bind saved fun _ => tells_pure fun _ closed => closed.done outcome
  refine tells_save (fun _ => Holds.opened) ?_
  rintro seen ⟨ledger, ⟨queue, waiting, going⟩, books, agrees, fine⟩
  have applies : Applies ledger.waiting ledger.data (dataOf applied) := by
    rw [waiting, ← agrees.data]
    exact applies_of_applied done
  have checkpoint : (withOutcome applied outcome now).cursor.checkpointSeq = ledger.checkpoint := by
    rw [withOutcome_cursor, (applyCommands_header done).cursor]
    exact agrees.checkpoint
  refine ⟨_, books.ended (waiting ▸ said) applies, ⟨queue, rfl⟩, withOutcome_data _ _ _,
    withOutcome_ends _ _ _, checkpoint, fun world books fine => ?_⟩
  exact ⟨_, books, fine, rfl, rfl⟩

theorem tells_runNode : Tells around identity kernel (Holds kernel identity live (Waits []))
      (runNode kernel identity fence live) (AfterPass kernel identity) := by
  refine tells_lift (fun _ => Holds.opened) fun node _ => ?_
  refine triple_bind tells_startNode fun next => ?_
  have asked : Tells around identity kernel (Holds kernel identity next (Waits []))
      (await (.middleware { state := next, hook := .beforeNode, node := some node }))
      fun result => Offers kernel identity next (acceptedCommands result) Waits := by
    refine tells_hook rfl ?_
    rintro world notes ledger result commands ⟨queue, waiting, going⟩ books agrees fine accepted
    exact ⟨{ ledger with waiting := commands }, ⟨queue, rfl, going⟩,
      books.answered agrees.data waiting accepted (.inl rfl), agrees.aside _ _ _,
      .inl (fine.going going)⟩
  refine triple_bind asked fun result => tells_offered fun commands accepted => ?_
  cases said : commandOutcome commands with
  | some outcome =>
    exact triple_bind (tells_endRun said) fun _ => tells_pure fun _ => id
  | none =>
    cases kernel.nodes node.id with
    | none => exact tells_throw fun _ => Holds.opened
    | some handler => exact tells_completeNode

theorem tells_runNodes : ∀ live : RunStateV3,
    Tells around identity kernel (Holds kernel identity live (Waits []))
      (runNodes kernel identity fence passes live) (Done kernel identity) := by
  induction passes with
  | zero => exact fun live => triple_stop fun _ holds => holds.opened.cut
  | succ passes ih =>
    refine fun live => triple_bind tells_runNode fun pass => ?_
    cases pass with
    | done outcome => exact tells_pure fun _ => id
    | goOn next => exact ih next

private theorem Fine.next {ledger : Ledger} {world : RunWorld Ext} {reached : Nat}
    (fine : Fine ledger world) (queue : ledger.queue = some (event :: rest)) :
    Fine { ledger with checkpoint := reached, queue := some rest } world := by
  refine fine.imp_right fun done => ⟨done.1, ⟨done.2.1.saved, done.2.1.waiting⟩, ?_⟩
  intro others found other member
  cases found
  exact done.2.2 _ queue other (mem_cons_of_mem _ member)

theorem Holds.replay {pending after : Option PendingAfterMiddleware} (holds : Holds kernel identity live
      (fun ledger => Quiet (event :: rest) ledger ∧ Kept floor live ledger) seen)
    (later : ∀ checkpoint, floor = some checkpoint → checkpoint < event.seq)
    (replayed : replayEvent kernel live pending event now = .ok (next_, after)) :
    Holds kernel identity next_ (fun ledger => Quiet rest ledger ∧ Kept floor next_ ledger) seen := by
  obtain ⟨ledger, ⟨⟨queue, waiting⟩, kept⟩, books, agrees, fine⟩ := holds
  have checkpoint := replayEvent_checkpoint replayed
  have forward : live.cursor.checkpointSeq ≤ next_.cursor.checkpointSeq := by
    rw [checkpoint]
    split <;> omega
  rcases replayEvent_cases replayed with ⟨kind, rfl, -⟩ |
    ⟨kind, completed, node, parsed, -, known, reduced, -⟩ |
    ⟨kind, waits, payload, -, parsed, -, reduced, -⟩ | ⟨other, rfl, -⟩
  · refine ⟨{ ledger with checkpoint := max ledger.checkpoint event.seq, queue := some rest },
      ⟨⟨rfl, waiting⟩, kept.forward forward⟩,
      books.replayed waiting queue (.started kind (.inr rfl)),
      ⟨agrees.data, agrees.ended, agrees.version, ?_⟩, fine.next queue⟩
    rw [← agrees.checkpoint]
    rfl
  · have unfinished : Unfinished seen.1 :=
      fine.resolve_right fun done => done.2.2 _ queue event mem_cons_self kind
    obtain ⟨posted, posts, agreed, -, waited⟩ :=
      agrees.completion kind parsed (nodeFor_mem known).2.symm reduced
    refine ⟨{ posted with queue := some rest }, ⟨⟨rfl, waited.trans waiting⟩, ?_⟩,
      books.replayed waiting queue posts, agreed.aside _ _ _,
      .inl unfinished⟩
    intro floored found
    have above := later floored found
    have reached := reduceCompletedNode_checkpoint reduced
    exact .inl (by omega)
  · cases ended : ledger.ended with
    | true =>
      have late := agrees.late ended reduced
      exact ⟨{ ledger with checkpoint := max ledger.checkpoint event.seq, queue := some rest },
        ⟨⟨rfl, waiting⟩, kept.forward forward⟩,
        books.replayed waiting queue (.late kind ended), late.aside _ _ _,
        fine.next queue⟩
    | false =>
      obtain ⟨posted, posts, agreed, -, waited⟩ := agrees.answer ended kind parsed reduced
      exact ⟨{ posted with queue := some rest }, ⟨⟨rfl, waited.trans waiting⟩, kept.going ended forward⟩,
        books.replayed waiting queue posts, agreed.aside _ _ _,
        .inl (fine.going ended)⟩
  · exact ⟨{ ledger with queue := some rest }, ⟨⟨rfl, waiting⟩, kept⟩,
      books.replayed waiting queue (.other other),
      agrees.aside _ _ _, fine.next queue⟩

theorem tells_commitPending : Tells around identity kernel
      (Holds kernel identity live fun ledger => Quiet rest ledger ∧ Kept floor live ledger)
      (commitPending kernel identity fence live pending) fun next =>
        Holds kernel identity next fun ledger => Quiet rest ledger ∧ Kept floor next ledger := by
  cases pending with
  | none => exact tells_pure fun _ => id
  | some waiting => exact tells_commit

/-- The loop takes in the events after the checkpoint it started from, and no other. -/
theorem tells_replayLoop (later : ∀ floored, floor = some floored → floored ≤ checkpoint) :
    ∀ (live : RunStateV3) (pending : Option PendingAfterMiddleware),
      Tells around identity kernel (Holds kernel identity live fun ledger =>
          Quiet (events.filter fun event => checkpoint < event.seq) ledger ∧ Kept floor live ledger)
        (replayLoop kernel identity fence checkpoint live pending events) fun replayed =>
          Holds kernel identity replayed.1 fun ledger =>
            Quiet [] ledger ∧ Kept floor replayed.1 ledger := by
  induction events with
  | nil => exact fun live pending => tells_pure fun _ => id
  | cons event events ih =>
    intro live pending
    refine tells_lift (fun _ => Holds.opened) fun _ _ => ?_
    by_cases before : event.seq < checkpoint
    · rw [if_pos before, filter_cons_of_neg (by simp; omega)]
      exact ih live pending
    rw [if_neg before]
    by_cases current : event.seq = checkpoint
    · rw [if_pos current, filter_cons_of_neg (by simp; omega)]
      split
      · exact tells_lift (fun _ => Holds.opened) fun waiting _ => ih live (some waiting)
      · exact ih live pending
    rw [if_neg current, filter_cons_of_pos (by simp; omega)]
    refine triple_bind tells_commitPending fun state => ?_
    refine triple_bind (tells_nowIso steady_holds fun _ => Holds.opened) fun now => ?_
    refine tells_lift (fun _ => Holds.opened) fun stepped replayed => ?_
    refine tells_weaken (ih stepped.1 stepped.2) (fun seen holds => ?_) fun _ _ => id
    refine holds.replay (fun floored found => ?_) replayed
    have below := later floored found
    omega

/-- The account is that of the stored state, or of the first one where none is stored. -/
structure Loaded (kernel : RuntimeKernel ExtAnswer) (identity : RunIdentity) (live : RunStateV3)
    (seen : Seen Ext) : Prop where
  books : Books kernel identity seen.2 (.opened live)
  stored : seen.1.snapshot = none ∨ seen.1.snapshot = some live
  concluded : Concluded seen.1

theorem Loaded.keep (loaded : Loaded kernel identity live (before, notes))
    (snapshot : after.snapshot = before.snapshot) (events : after.events = before.events) :
    Loaded kernel identity live (after, notes) := by
  obtain ⟨books, stored, concluded⟩ := loaded
  refine ⟨books, snapshot ▸ stored, ?_⟩
  unfold Concluded Unfinished at concluded ⊢
  rw [snapshot, events]
  exact concluded

/-- What is stored has failed, or it is the account and has taken in every completion. -/
theorem Loaded.cases {seen : Seen Ext} (loaded : Loaded kernel identity live seen) :
    Unfinished seen.1 ∨ isTerminal live = true ∧ ∀ event ∈ seen.1.events, event.eventType = "node.completed" →
        event.seq ≤ live.cursor.checkpointSeq := by
  rcases loaded.stored with none_ | found
  · exact .inl fun state shown => by
      rw [none_] at shown
      cases shown
  · cases terminal : isTerminal live with
    | true => exact loaded.concluded.imp_right fun behind => ⟨rfl, behind live found⟩
    | false =>
      refine .inl fun state shown stopped => ?_
      rw [found] at shown
      cases shown
      rw [terminal] at stopped
      cases stopped

theorem Loaded.opened {seen : Seen Ext} (loaded : Loaded kernel identity live seen) :
    Opened kernel identity seen :=
  ⟨_, loaded.books, loaded.cases.imp_right fun behind =>
    ⟨behind.1, ⟨rfl, rfl⟩, fun _ queue => by cases queue⟩⟩

/-- Replay takes in the part of the log after the checkpoint, each event once. -/
theorem tells_replayAfterCheckpoint (floor : Option Nat) (floored : ∀ checkpoint, floor = some checkpoint →
      checkpoint = live.cursor.checkpointSeq ∧ isTerminal live = true) :
    Tells around identity kernel (Loaded kernel identity live)
      (replayAfterCheckpoint kernel identity fence live) fun next =>
        Holds kernel identity next fun ledger => Quiet [] ledger ∧ Kept floor next ledger := by
  have listed : Tells around identity kernel (Loaded kernel identity live)
      (await (.listAfter (live.cursor.checkpointSeq - 1))) fun events =>
        Holds kernel identity live fun ledger => Quiet ((sortEvents events).filter fun event =>
          live.cursor.checkpointSeq < event.seq) ledger ∧ Kept floor live ledger := by
    refine tells_await (fun _ => Loaded.opened) fun world notes events after loaded performed => ?_
    have same : after.snapshot = world.snapshot := performed_snapshot (by simp) performed
    have found := congrArg Prod.fst performed
    simp only [perform, performListAfter] at found
    split at found
    · cases found
    · cases found
      refine ⟨_, ⟨⟨rfl, rfl⟩, fun checkpoint started => ?_⟩, loaded.books.listed rfl,
        ⟨rfl, rfl, rfl, rfl⟩, ?_⟩
      · exact .inr ⟨rfl, (floored checkpoint started).2⟩
      · refine steady_fine world after notes same (loaded.cases.imp_right fun behind =>
          ⟨behind.1, ⟨rfl, rfl⟩, fun rest queue event member completed => ?_⟩)
        cases queue
        obtain ⟨sorted, above⟩ := mem_filter.mp member
        have stored := (mem_filter.mp ((mem_insertionSort _).mp sorted)).1
        have below := behind.2 event stored completed
        have later : live.cursor.checkpointSeq < event.seq := of_decide_eq_true above
        omega
  have replayed : Tells around identity kernel (Loaded kernel identity live)
      (replayEvents kernel identity fence live) fun replayed =>
        Holds kernel identity replayed.1 fun ledger =>
          Quiet [] ledger ∧ Kept floor replayed.1 ledger :=
    triple_bind listed fun events => tells_replayLoop
      (fun checkpoint started => (floored checkpoint started).1.le) live none
  exact triple_bind replayed fun result => tells_commitPending

theorem tells_rerunTerminal (terminal : isTerminal live = true) :
    Tells around identity kernel (Loaded kernel identity live)
      (rerunTerminal kernel identity fence live) (Done kernel identity) := by
  refine triple_bind (tells_replayAfterCheckpoint (some live.cursor.checkpointSeq)
    fun checkpoint found => ⟨(Option.some.inj found).symm, terminal⟩) fun replayed => ?_
  refine triple_bind tells_afterRunIf fun _ => ?_
  obtain ⟨data, status, checkpoint⟩ := migrateTerminal_data kernel replayed
  have saved : Tells around identity kernel (Holds kernel identity replayed fun ledger =>
      Quiet [] ledger ∧ Kept (some live.cursor.checkpointSeq) replayed ledger)
      (saveIf fence (upgradable replayed.graphVersion kernel.graph.version ||
        decide (replayed.cursor.checkpointSeq > live.cursor.checkpointSeq))
        (migrateTerminalGraphMetadata kernel replayed)) fun _ => Closed kernel identity := by
    unfold saveIf
    split
    · refine tells_weaken (tells_saveHeld data status checkpoint)
        (fun seen holds => holds.imp fun _ => And.left) fun _ seen holds => ?_
      obtain ⟨ledger, ⟨⟨queue, waiting⟩, saved⟩, books, -, fine⟩ := holds
      exact ⟨ledger, books, fine, saved, waiting⟩
    · rename_i unmoved
      refine tells_pure fun seen holds => ?_
      obtain ⟨ledger, ⟨⟨queue, waiting⟩, kept⟩, books, -, fine⟩ := holds
      simp only [Bool.or_eq_true, decide_eq_true_eq, not_or] at unmoved
      rcases kept _ rfl with moved | ⟨saved, -⟩
      · exact absurd moved unmoved.2
      · exact ⟨ledger, books, fine, saved, waiting⟩
  exact triple_bind saved fun _ => tells_pure fun _ closed => closed.done _

theorem tells_settle : Tells around identity kernel (Holds kernel identity live (Quiet []))
      (settleReplayed kernel fence checkpoint live) (Done kernel identity) := by
  obtain ⟨data, status, checkpoint⟩ := migrateTerminal_data kernel live
  refine triple_bind tells_afterRunIf fun _ => ?_
  refine triple_bind (tells_saveHeld data status checkpoint) fun _ => ?_
  refine tells_pure fun seen holds => ?_
  obtain ⟨ledger, ⟨⟨queue, waiting⟩, saved⟩, books, -, fine⟩ := holds
  exact ⟨ledger, books, fine, .inr ⟨saved, waiting⟩⟩

private theorem tells_beforeRun (going : isTerminal live = false) :
    Tells around identity kernel (Holds kernel identity live (Quiet []))
      (await (.middleware { state := live, hook := .beforeRun })) fun result =>
        Offers kernel identity live (acceptedCommands result) fun commands =>
          Waits (if (commandOutcome commands).isSome then commands else []) := by
  refine tells_hook rfl ?_
  rintro world notes ledger result commands ⟨queue, waiting⟩ books agrees fine accepted
  have unended : ledger.ended = false := agrees.ended.symm.trans going
  have unfinished : Unfinished world := fine.going unended
  cases said : commandOutcome commands with
  | some outcome =>
    exact ⟨{ ledger with waiting := commands }, ⟨queue, rfl, unended⟩,
      books.answered agrees.data waiting accepted (.inr (.inr ⟨rfl, said ▸ rfl⟩)),
      agrees.aside _ _ _, .inl unfinished⟩
  | none =>
    exact ⟨{ ledger with data := ledger.data, saved := false }, ⟨queue, waiting, unended⟩,
      books.leftOpen agrees.data rfl accepted said (.inl rfl),
      agrees.aside _ _ _, .inl unfinished⟩

theorem tells_startRun (going : isTerminal live = false) :
    Tells around identity kernel (Holds kernel identity live (Quiet []))
      (startRun kernel identity fence passes live) (Done kernel identity) := by
  refine triple_bind (tells_nowIso steady_holds fun _ => Holds.opened) fun now => ?_
  refine tells_lift (fun _ => Holds.opened) fun migrated moved => ?_
  have status : isTerminal migrated = false :=
    (isTerminal_congr (migrateGraphState_header moved).1).trans going
  refine tells_weaken (?_ : Tells around identity kernel
    (Holds kernel identity migrated (Quiet [])) _ _) (fun seen holds => ?_) fun _ _ => id
  swap
  · obtain ⟨ledger, quiet, books, agrees, fine⟩ := holds
    have unended : ledger.ended = false := agrees.ended.symm.trans going
    exact ⟨{ ledger with
        data := dataOf migrated, version := migrated.graphVersion, saved := false },
      quiet, books.migrated agrees.data agrees.version moved,
      ⟨rfl, status.trans unended.symm, rfl, (migrateGraphState_header moved).2.trans agrees.checkpoint⟩,
      .inl (fine.going unended)⟩
  refine triple_bind (tells_saveHeld rfl rfl rfl) fun _ => ?_
  refine triple_bind (tells_nowIso steady_holds fun _ => Holds.opened) fun now => ?_
  have running : isTerminal (mark .running now migrated) = false := rfl
  refine tells_weaken (?_ : Tells around identity kernel
    (Holds kernel identity (mark .running now migrated) (Quiet [])) _ _)
    (fun seen holds => ?_) fun _ _ => id
  swap
  · obtain ⟨ledger, quiet, books, agrees, fine⟩ := holds
    exact ⟨ledger, quiet.1, books,
      ⟨agrees.data, running.trans (status.symm.trans agrees.ended), agrees.version, agrees.checkpoint⟩, fine⟩
  refine triple_bind (tells_saveHeld rfl rfl rfl) fun _ => ?_
  refine triple_bind (tells_weaken (tells_beforeRun running) (fun seen holds =>
    holds.imp fun _ => And.left) fun _ _ => id) fun result =>
      tells_offered fun commands accepted => ?_
  cases said : commandOutcome commands with
  | some outcome => exact tells_endRun said
  | none => exact tells_runNodes _

theorem graphCompatibility_fails {outcome : RunOutcome}
    (refused : graphCompatibility kernel state = some outcome) : outcome.status = .failed := by
  unfold graphCompatibility at refused
  split at refused
  · cases refused
  · split at refused <;> cases refused
    rfl

theorem tells_resumeRun : Tells around identity kernel (Loaded kernel identity live)
      (resumeRun kernel identity fence passes live) (Done kernel identity) := by
  unfold resumeRun
  split
  · rename_i outcome refused
    refine tells_pure fun seen loaded => ?_
    obtain ⟨ledger, books, fine⟩ := loaded.opened
    exact ⟨ledger, books, fine, .inl (graphCompatibility_fails refused)⟩
  · refine triple_bind (tells_replayAfterCheckpoint none
      fun checkpoint found => by cases found) fun replayed => ?_
    refine tells_weaken (?_ : Tells around identity kernel
      (Holds kernel identity replayed (Quiet [])) _ _)
      (fun seen holds => holds.imp fun _ => And.left) fun _ _ => id
    split
    · exact tells_settle
    · rename_i unended
      exact tells_startRun (Bool.eq_false_of_not_eq_true unended)

theorem tells_loadState :
    Tells around identity kernel (fun seen => seen.2 = [] ∧ Concluded seen.1)
      (loadState kernel identity) fun live => Loaded kernel identity live := by
  have loaded : Tells around identity kernel
      (fun seen => seen.2 = [] ∧ Concluded seen.1) (await .load) fun stored seen =>
        seen.2 = [.loaded stored] ∧ seen.1.snapshot = stored ∧ Concluded seen.1 := by
    refine triple_noted (fun seen begun => .inl begun.1) ?_ ?_
    · rintro world notes answer after ⟨none_, concluded⟩ performed
      cases performed
      dsimp only at none_
      exact ⟨by rw [none_]; rfl, rfl, concluded⟩
    · intro world notes error after begun performed
      cases performed
  refine triple_bind loaded fun stored => ?_
  cases stored with
  | some state =>
    refine tells_pure fun seen found => ?_
    obtain ⟨notes, snapshot, concluded⟩ := found
    refine ⟨?_, .inr snapshot, concluded⟩
    rw [notes]
    exact .loaded (some state) state.updatedAt
  | none =>
    have begins : ∀ now, Books kernel identity [.loaded none]
        (.opened (initialState kernel identity now)) := fun now => .loaded none now
    refine triple_bind (tells_unnoted (fun _ => rfl) ?_ ?_) fun now =>
      tells_pure fun seen found => ?_
    · rintro world notes ⟨noted, snapshot, concluded⟩
      exact ⟨noted, snapshot, concluded⟩
    · rintro seen ⟨noted, snapshot, -⟩
      refine ⟨_, noted ▸ begins (around.nowIso 0), .inl fun state shown => ?_⟩
      rw [snapshot] at shown
      cases shown
    · obtain ⟨noted, snapshot, concluded⟩ := found
      exact ⟨noted ▸ begins now, .inl snapshot, concluded⟩

theorem tells_runHeld :
    Tells around identity kernel (fun seen => seen.2 = [] ∧ Concluded seen.1)
      (runHeld kernel identity fence passes) (Done kernel identity) := by
  refine triple_bind tells_loadState fun state => ?_
  refine tells_lift (fun _ => Loaded.opened) fun _ _ => ?_
  refine triple_bind (tells_renewed (fun world notes loaded => loaded.keep rfl rfl)
    fun _ => Loaded.opened) fun _ => ?_
  split
  · rename_i terminal
    exact tells_rerunTerminal terminal
  · exact tells_resumeRun

/-- What a run does after an error: it looks at the store, tells its middleware, and may save
the failure. -/
def Closing : Note → Prop
  | .loaded _ => True
  | .answered context _ => context.hook = .onError
  | .saved state => state.status = .failed
  | _ => False

/-- Up to an error everything is in the account, and nothing after it concerns commands. -/
def Reports (kernel : RuntimeKernel ExtAnswer) (identity : RunIdentity) (seen : Seen Ext) : Prop :=
  ∃ body tail, seen.2 = body ++ tail ∧ (∀ noted ∈ tail, Closing noted) ∧
    (body = [] ∨ Opened kernel identity (seen.1, body))

/-- What was seen of a run, and the outcome it returned, if it did: all that was answered
before an error is in the account, which is settled unless the run failed or lost its lease. -/
def Told (kernel : RuntimeKernel ExtAnswer) (identity : RunIdentity) (outcome : Option RunOutcome)
    (notes : List Note) : Prop :=
  ∃ body tail, notes = body ++ tail ∧ (∀ noted ∈ tail, Closing noted) ∧
    (body = [] ∨ ∃ ledger, Books kernel identity body ledger ∧ ∀ returned, outcome = some returned →
        returned.status = .failed ∨ Note.lost ∈ notes ∨ ledger.Settled)

theorem steady_reports : Steady (@Reports Ext ExtAnswer kernel identity) := by
  rintro before after notes same ⟨body, tail, split, closing, opened⟩
  exact ⟨body, tail, split, closing, opened.imp_right fun opened =>
    steady_opened before after body same opened⟩

theorem Reports.note (reports : Reports kernel identity (world, notes)) (closing : Closing noted) :
    Reports kernel identity (world, notes ++ [noted]) := by
  obtain ⟨body, tail, split, others, opened⟩ := reports
  refine ⟨body, tail ++ [noted], ?_, fun other found => ?_, opened⟩
  · dsimp only at split ⊢
    rw [split, append_assoc]
  · rcases mem_append.mp found with found | found
    · exact others other found
    · rw [mem_singleton.mp found]
      exact closing

theorem Reports.told (reports : Reports kernel identity seen) (failed : ∀ returned, outcome = some returned →
      returned.status = .failed) : Told kernel identity outcome seen.2 := by
  obtain ⟨body, tail, split, closing, opened⟩ := reports
  exact ⟨body, tail, split, closing, opened.imp_right fun opened =>
    opened.imp fun ledger held => ⟨held.1, fun returned found => .inl (failed returned found)⟩⟩

/-- A stored end that the run reports is either a failure or the account. -/
theorem Reports.stored (reports : Reports kernel identity seen)
    (found : seen.1.snapshot = some state) (terminal : isTerminal state = true) :
    Told kernel identity (some (outcomeFromTerminalState state)) seen.2 := by
  obtain ⟨body, tail, split, closing, opened⟩ := reports
  refine ⟨body, tail, split, closing, opened.imp_right fun opened => ?_⟩
  obtain ⟨ledger, books, fine⟩ := opened
  refine ⟨ledger, books, fun returned reported => ?_⟩
  cases reported
  rcases fine with unfinished | done
  · exact .inl (unfinished state found terminal)
  · exact .inr (.inr done.2.1)

/-- After an error. -/
abbrev Closes (around : Surroundings ExtAnswer) (identity : RunIdentity)
    (kernel : RuntimeKernel ExtAnswer) (pre : Seen Ext → Prop)
    (program : KernelProgram ExtAnswer α) (post : α → Seen Ext → Prop) : Prop :=
  Triple (noting (runHost around identity) note) pre program post
    (fun _ => Reports kernel identity) (fun seen => Told kernel identity none seen.2)

theorem Reports.cut (reports : Reports kernel identity seen) : Told kernel identity none seen.2 :=
  reports.told fun _ found => by cases found

theorem closes_await {post : RuntimeAnswer ExtAnswer op → Seen Ext → Prop}
    (reports : ∀ seen, pre seen → Reports kernel identity seen)
    (answered : ∀ world notes answer after, pre (world, notes) →
      perform around identity world op = (.ok answer, after) →
        post answer (after, notes ++ note op (.ok answer))) :
    Closes around identity kernel pre (await op) post := by
  refine triple_noted (fun seen holds => (reports seen holds).cut) answered ?_
  intro world notes error after holds performed
  have rejected : (perform around identity world op).1 = .error error :=
    congrArg Prod.fst performed
  have same : after.snapshot = world.snapshot := performed_refused performed
  rw [note_rejected, append_nil]
  exact steady_reports world after notes same (reports _ holds)

theorem closes_load : Closes around identity kernel (Reports kernel identity) (await .load)
      fun stored seen => Reports kernel identity seen ∧ seen.1.snapshot = stored := by
  refine closes_await (fun _ => id) fun world notes answer after reports performed => ?_
  cases performed
  exact ⟨steady_reports world _ _ rfl (reports.note trivial), rfl⟩

theorem closes_reportStored :
    Closes around identity kernel (Reports kernel identity) reportStored
      fun outcome seen => Told kernel identity (some outcome) seen.2 := by
  refine triple_bind closes_load fun stored => ?_
  cases stored with
  | none =>
    refine triple_pure fun seen loaded => loaded.1.told fun returned found => ?_
    cases found
    rfl
  | some state =>
    dsimp only
    split
    · rename_i terminal
      exact triple_pure fun seen loaded => loaded.1.stored loaded.2 terminal
    · refine triple_pure fun seen loaded => loaded.1.told fun returned found => ?_
      cases found
      rfl

theorem closes_reportFailure :
    Closes around identity kernel (Reports kernel identity) (reportFailure fence error)
      fun outcome seen => Told kernel identity (some outcome) seen.2 := by
  have failed : ∀ seen : Seen Ext, Reports kernel identity seen →
      Told kernel identity (some (failedOutcome error)) seen.2 := fun seen reports =>
    reports.told fun returned found => by
      cases found
      rfl
  refine triple_bind closes_load fun stored => ?_
  cases stored with
  | none => exact triple_pure fun seen loaded => failed seen loaded.1
  | some state =>
    have told : Closes around identity kernel
        (fun seen => Reports kernel identity seen ∧ seen.1.snapshot = some state)
        (await (.middleware { state, hook := .onError, error := some error })) fun _ seen =>
          Reports kernel identity seen ∧ seen.1.snapshot = some state := by
      refine closes_await (fun _ => And.left) fun world notes answer after holds performed => ?_
      have same : after.snapshot = world.snapshot := performed_snapshot (by simp) performed
      exact ⟨steady_reports world after _ same (holds.1.note rfl), same.trans holds.2⟩
    refine triple_bind told fun _ => ?_
    split
    · rename_i terminal
      exact triple_pure fun seen holds => holds.1.stored holds.2 terminal
    rename_i going
    have dated : Closes around identity kernel
        (fun seen => Reports kernel identity seen ∧ seen.1.snapshot = some state)
        (await .nowIso) fun _ seen => Reports kernel identity seen := by
      refine closes_await (fun _ => And.left) fun world notes answer after holds performed => ?_
      cases performed
      show Reports kernel identity (_, notes ++ [])
      rw [append_nil]
      exact steady_reports world _ _ rfl holds.1
    refine triple_bind dated fun now => ?_
    have saved : Closes around identity kernel (Reports kernel identity)
        (await (.save (withOutcome state (failedOutcome error) now) fence)) fun _ seen =>
          Told kernel identity (some (failedOutcome error)) seen.2 := by
      refine closes_await (fun _ => id) fun world notes answer after reports performed => ?_
      have closing : Closing (.saved (withOutcome state (failedOutcome error) now)) := by
        unfold withOutcome
        rw [if_neg going]
        rfl
      exact failed (world, notes ++ [_]) (reports.note closing)
    refine triple_bind (triple_catching saved fun _ => triple_pure failed) fun _ => ?_
    exact triple_pure fun _ => id

theorem Broken.reports (broken : Broken kernel identity error seen) :
    Reports kernel identity seen :=
  ⟨seen.2, [], (append_nil _).symm, fun _ found => absurd found not_mem_nil, broken.1⟩

theorem Cut.told (cut : Cut kernel identity seen) : Told kernel identity none seen.2 := by
  refine ⟨seen.2, [], (append_nil _).symm, fun _ found => absurd found not_mem_nil,
    cut.imp_right fun books => books.imp fun ledger books => ⟨books, fun _ found => ?_⟩⟩
  cases found

theorem Done.told {outcome : RunOutcome} (done : Done kernel identity outcome seen) :
    Told kernel identity (some outcome) seen.2 := by
  obtain ⟨ledger, books, -, ends⟩ := done
  refine ⟨seen.2, [], (append_nil _).symm, fun _ found => absurd found not_mem_nil,
    .inr ⟨ledger, books, fun returned found => ?_⟩⟩
  cases found
  exact ends.imp_right .inr

theorem Told.cut (told : Told kernel identity outcome notes) : Told kernel identity none notes := by
  obtain ⟨body, tail, split, closing, opened⟩ := told
  refine ⟨body, tail, split, closing, opened.imp_right fun opened =>
    opened.imp fun ledger held => ⟨held.1, fun _ found => ?_⟩⟩
  cases found

private theorem closes_recover (error : RuntimeError) :
    Triple (noting (runHost around identity) note) (Broken kernel identity error)
      (recover fence error) (fun outcome seen => Told kernel identity (some outcome) seen.2)
      (fun _ seen => Told kernel identity none seen.2)
      fun seen => Told kernel identity none seen.2 := by
  have reported : Closes around identity kernel (Broken kernel identity error)
      reportStored fun outcome seen => Told kernel identity (some outcome) seen.2 :=
    triple_consequence closes_reportStored (fun _ => Broken.reports) (fun _ _ => id) (fun _ _ => id)
      fun _ => id
  cases error with
  | kernelCrash original => exact triple_throw fun _ broken => broken.reports.cut
  | leaseLost outcome =>
    cases outcome with
    | some outcome =>
      refine triple_pure fun seen broken => ?_
      obtain ⟨body, tail, split, closing, opened⟩ := broken.reports.cut
      refine ⟨body, tail, split, closing, opened.imp_right fun opened =>
        opened.imp fun ledger held => ⟨held.1, fun _ _ => .inr (.inl (broken.2 outcome rfl))⟩⟩
    | none =>
      exact triple_consequence reported (fun _ => id) (fun _ _ => id)
        (fun _ _ reports => reports.cut) fun _ => id
  | foreign error =>
    have asked : Closes around identity kernel (Broken kernel identity (.foreign error))
        (await .isLost) fun _ => Reports kernel identity := by
      refine closes_await (fun _ => Broken.reports) fun world notes answer after broken
        performed => ?_
      cases performed
      show Reports kernel identity (_, notes ++ [])
      rw [append_nil]
      exact steady_reports world _ _ rfl broken.reports
    have recovered : Closes around identity kernel
        (Broken kernel identity (.foreign error)) (recover fence (.foreign error))
        fun outcome seen => Told kernel identity (some outcome) seen.2 := by
      refine triple_bind asked fun lost => ?_
      split
      · exact closes_reportStored
      · exact closes_reportFailure
    exact triple_consequence recovered (fun _ => id) (fun _ _ => id)
      (fun _ _ reports => reports.cut) fun _ => id

private theorem keeps_release : Triple (noting (runHost around identity) note)
      (fun seen : Seen Ext => Told kernel identity outcome seen.2) (release fence)
      (fun _ seen => Told kernel identity outcome seen.2) (fun _ _ => False)
      fun seen => Told kernel identity none seen.2 := by
  have released : Triple (noting (runHost around identity) note)
      (fun seen : Seen Ext => Told kernel identity outcome seen.2) (await (.release fence))
      (fun _ seen => Told kernel identity outcome seen.2) (fun _ _ => False)
      fun seen => Told kernel identity none seen.2 := by
    refine triple_noted (fun _ => Told.cut) ?_ ?_
    · intro world notes answer after told performed
      show Told kernel identity outcome (notes ++ [])
      rw [append_nil]
      exact told
    · intro world notes error after told performed
      cases performed
  exact triple_catching released fun _ => triple_pure fun _ absurdity => absurdity.elim

/-- Whatever happens in a run, what was seen of it is told by an account. -/
theorem told_run : Triple (noting (runHost around identity) note)
      (fun seen : Seen Ext => seen.2 = [] ∧ Concluded seen.1) (run kernel identity passes)
      (fun outcome seen => Told kernel identity (some outcome) seen.2)
      (fun _ seen => Told kernel identity none seen.2)
      fun seen => Told kernel identity none seen.2 := by
  have nothing : ∀ outcome, Told kernel identity outcome [] := fun outcome =>
    ⟨[], [], rfl, fun _ found => absurd found not_mem_nil, .inl rfl⟩
  have leased : Triple (noting (runHost around identity) note)
      (fun seen : Seen Ext => seen.2 = [] ∧ Concluded seen.1) (await .acquire)
      (fun _ seen => seen.2 = [] ∧ Concluded seen.1)
      (fun _ seen => Told kernel identity none seen.2)
      fun seen => Told kernel identity none seen.2 := by
    refine triple_noted (fun seen begun => begun.1 ▸ nothing none) ?_ ?_
    · rintro world notes answer after ⟨none_, concluded⟩ performed
      cases performed
      exact ⟨(append_nil _).trans none_, concluded⟩
    · intro world notes error after begun performed
      cases performed
  refine triple_bind leased fun lease => ?_
  split
  · refine triple_finallyDo ?_ (fun _ => keeps_release) fun _ => keeps_release
    have held : Triple (noting (runHost around identity) note) _
        (runHeld kernel identity lease.fence passes)
        (fun outcome seen => Told kernel identity (some outcome) seen.2)
        (Broken kernel identity) (fun seen => Told kernel identity none seen.2) :=
      triple_consequence tells_runHeld (fun _ => id) (fun _ _ => Done.told)
        (fun _ _ => id) fun _ => Cut.told
    exact triple_catching held closes_recover
  · exact triple_pure fun seen begun => begun.1 ▸ nothing _

theorem Told.rising (told : Told kernel identity outcome notes) (header : RunStateV3) :
    (revisionsIn notes).Pairwise (· ≤ ·) := by
  obtain ⟨body, tail, rfl, closing, opened⟩ := told
  have silent : revisionsIn tail = [] := by
    refine filterMap_eq_nil_iff.mpr fun noted found => ?_
    have closes := closing noted found
    cases noted with
    | answered context result => exact if_pos closes
    | saved state => exact if_pos closes
    | _ => rfl
  rw [revisionsIn_append, silent, append_nil]
  rcases opened with rfl | ⟨ledger, books, -⟩
  · exact List.Pairwise.nil
  · exact (books.rising header).rising

def outcomeOf : Ending RuntimeError RunOutcome → Option RunOutcome
  | .returned outcome => some outcome
  | _ => none

/-- A run that somebody takes notes of. -/
def watched (kernel : RuntimeKernel ExtAnswer) (identity : RunIdentity) (world : RunWorld Ext)
    (attempt : RunAttempt ExtAnswer) : Ending RuntimeError RunOutcome × Seen Ext :=
  execute (noting (runHost attempt.surroundings identity) note)
    (run kernel identity attempt.passes) ({ world with clock := 0 }, [])

/-- It is the run itself. -/
theorem watched_run :
    execute (runHost attempt.surroundings identity) (run kernel identity attempt.passes)
        { world with clock := 0 } =
      ((watched kernel identity world attempt).1, (watched kernel identity world attempt).2.1) := by
  obtain ⟨ending, after⟩ := @execute_noting _ _ _ _ _ _ (runHost attempt.surroundings identity)
    note (run kernel identity attempt.passes) { world with clock := 0 } []
  rw [watched, ending, after]

theorem told_watched (concluded : Concluded world) :
    Told kernel identity (outcomeOf (watched kernel identity world attempt).1)
      (watched kernel identity world attempt).2.2 := by
  have ran : Ending.Holds (fun outcome seen => Told kernel identity (some outcome) seen.2)
      (fun _ seen => Told kernel identity none seen.2)
      (fun seen => Told kernel identity none seen.2) (watched kernel identity world attempt) :=
    told_run ({ world with clock := 0 }, []) ⟨rfl, concluded⟩
  rcases found : watched kernel identity world attempt with ⟨ending, seen⟩
  rw [found] at ran
  cases ending with
  | returned outcome => exact ran
  | threw error => exact ran
  | stopped => exact ran

/-- Every list of commands that a run is given goes into its account once and in its order,
and the states that the run saves are the account's. What is left of the account at the end
of a run is nothing, unless it failed, lost its lease or was cut short. -/
theorem commands_accounted (kernel : RuntimeKernel ExtAnswer) (identity : RunIdentity)
    (runs : List (RuntimeKernel ExtAnswer × RunAttempt ExtAnswer))
    (attempt : RunAttempt ExtAnswer) :
    Told kernel identity
        (outcomeOf (watched kernel identity (runsOf identity ({} : RunWorld Ext) runs) attempt).1)
        (watched kernel identity (runsOf identity ({} : RunWorld Ext) runs) attempt).2.2 ∧
      (revisionsIn (watched kernel identity
        (runsOf identity ({} : RunWorld Ext) runs) attempt).2.2).Pairwise (· ≤ ·) ∧
      (savedIn (attemptRun kernel identity (runsOf identity ({} : RunWorld Ext) runs)
        attempt).trace).Pairwise fun earlier later =>
          earlier.taskRevision.value ≤ later.taskRevision.value := by
  have sound : Sound (runsOf identity ({} : RunWorld Ext) runs) := runsOf_sound sound_empty runs
  have begun : Concluded { runsOf identity ({} : RunWorld Ext) runs with clock := 0 } :=
    sound.concluded
  have told : Told kernel identity
      (outcomeOf (watched kernel identity (runsOf identity ({} : RunWorld Ext) runs) attempt).1)
      (watched kernel identity (runsOf identity ({} : RunWorld Ext) runs) attempt).2.2 :=
    told_watched begun
  refine ⟨told, ?_, ?_⟩
  · exact told.rising (initialState kernel identity (attempt.surroundings.nowIso 0))
  · exact (attemptRun_within keeps_sound sound).rising

end

def revisionCommand : JsValue :=
  .object [("type", .string "set-task-revision"), ("revision", .number (.finite 5))]

/-- Middleware that raises the revision after the last node. -/
def raising (attempt : RunAttempt ExtAnswer) : RunAttempt ExtAnswer :=
  { attempt with
    surroundings := { attempt.surroundings with
      middleware := fun _ context =>
        if context.hook = .afterNode ∧ (context.node.map RuntimeNode.id) = some "second" then
          .ok (some { commands := some (.array [revisionCommand]) })
        else .ok none } }

/-- The revision that an answer sets, where that is all it commands. -/
def revisionSet : Note → Option SafeNat
  | .answered _ result =>
    match acceptedCommands result with
    | .ok [.setTaskRevision revision] => some revision
    | _ => none
  | _ => none

theorem revisionSet_some (found : revisionSet noted = some revision) :
    ∃ context result, noted = .answered context result ∧
      acceptedCommands result = .ok [.setTaskRevision revision] := by
  cases noted with
  | answered context result =>
    refine ⟨context, result, rfl, ?_⟩
    dsimp only [revisionSet] at found
    split at found
    · rename_i accepted
      cases found
      exact accepted
    · cases found
  | _ => cases found

/-- What `afterNode` says of a run that has ended is not applied. -/
theorem late_commands_left_out :
    ¬ ∀ (kernel : RuntimeKernel fun _ : Empty => Unit) (identity : RunIdentity)
      (attempt : RunAttempt fun _ : Empty => Unit) (returned : RunOutcome),
      outcomeOf (watched kernel identity ({} : RunWorld Empty) attempt).1 = some returned →
      returned.status ≠ .failed →
      ∀ context result revision, Note.answered context result ∈
          (watched kernel identity ({} : RunWorld Empty) attempt).2.2 →
        acceptedCommands result = .ok [.setTaskRevision revision] →
        ∃ saved ∈ savedIn (watched kernel identity ({} : RunWorld Empty) attempt).2.1.trace,
          saved.taskRevision = revision := by
  intro claimed
  have run : ((outcomeOf (watched (twoNodeKernel (.ok ())) sampleIdentity ({} : RunWorld Empty)
      (raising calmRun)).1).map RunOutcome.status = some .completed ∧
    (watched (twoNodeKernel (.ok ())) sampleIdentity ({} : RunWorld Empty)
      (raising calmRun)).2.2.filterMap (fun noted => (revisionSet noted).map SafeNat.value) = [5] ∧
    (savedIn (watched (twoNodeKernel (.ok ())) sampleIdentity ({} : RunWorld Empty)
      (raising calmRun)).2.1.trace).map (fun saved => saved.taskRevision.value) = [0, 0, 0]) := by
    decide +kernel
  obtain ⟨ended, raised, saved⟩ := run
  obtain ⟨returned, outcome, status⟩ := Option.map_eq_some_iff.mp ended
  obtain ⟨noted, found, set⟩ := mem_filterMap.mp (raised ▸ mem_singleton_self 5)
  obtain ⟨revision, command, five⟩ := Option.map_eq_some_iff.mp set
  obtain ⟨context, result, rfl, accepted⟩ := revisionSet_some command
  obtain ⟨state, kept, same⟩ := claimed _ _ _ returned outcome
    (by rw [status]; decide) context result revision found accepted
  have none_ := saved ▸ mem_map_of_mem kept
  rw [same, five] at none_
  simp at none_

end QiongQi.CommandRuns
