import QiongQi.EventStreams

/-! Delivery of a thread's events to its clients. Where numbers are given in the
order of publication and no client connects around an append, each client has every
stored event once and in order. -/
namespace QiongQi.StreamDelivery
open Machines SessionLogs EventRecorders EventNumbers EventStreams List

variable {compaction : UsageEventCompaction} {world next : RecorderWorld}

/-- The numbers still claimed are above every stored and every published one. -/
structure Sequenced (world : RecorderWorld) : Prop where
  inOrder : InOrder world
  counted : ∀ left ∈ world.calls, ∀ right ∈ world.calls, left.id ≠ right.id →
    ∀ persistedSeq ∈ lookedSeq left, (lookedSeq right).isSome = true → persistedSeq < left.allocatedSeq
  ahead : ∀ call ∈ world.calls, publishedEvent call = none → ∀ number, claimed call = some number →
    highestSeq world.log < number
  behind : ∀ left ∈ world.calls, ∀ event, publishedEvent left = some event →
    ∀ right ∈ world.calls, publishedEvent right = none →
      ∀ number, claimed right = some number → event.seq < number
  logged : ∀ event ∈ world.log, ∃ id, .appended id event ∈ world.trace
  distinct : world.log.Pairwise fun left right => left.seq ≠ right.seq

variable {call old : RecordCall} {event : RuntimeEvent}
variable {stream after : StreamWorld} {client : StreamClient}

private theorem published_claimed (staged : Staged world call)
    (published : publishedEvent call = some event) : claimed call = some event.seq := by
  cases stage : call.stage with
  | published persistedSeq other =>
    simp only [publishedEvent, stage, Option.some.injEq] at published
    subst published
    exact staged.stamped persistedSeq other stage
  | _ => simp [publishedEvent, stage] at published

private theorem claimed_looked (claims : claimed call = some number) :
    ∃ persistedSeq, lookedSeq call = some persistedSeq ∧
      number = max call.allocatedSeq (persistedSeq + 1) := by
  obtain ⟨persistedSeq, looked, same⟩ := Option.map_eq_some_iff.mp claims
  exact ⟨persistedSeq, looked, same.symm⟩

private theorem Sequenced.claimed_counter (sequenced : Sequenced world)
    (found : call ∈ world.calls) (held : other ∈ world.calls) (different : call.id ≠ other.id)
    (claims : claimed call = some number) (looked : (lookedSeq other).isSome = true) :
    number = call.allocatedSeq := by
  obtain ⟨persistedSeq, read, rfl⟩ := claimed_looked claims
  have below := sequenced.counted call found other held different persistedSeq read looked
  omega

/-- A call that goes on claims what it did, or nothing. -/
structure GoesOn (old call : RecordCall) : Prop where
  id : call.id = old.id
  allocated : call.allocatedSeq = old.allocatedSeq
  stage : lookedSeq call = none ∨ lookedSeq call = lookedSeq old ∧ publishedEvent call = publishedEvent old

private theorem GoesOn.refl (call : RecordCall) : GoesOn call call :=
  ⟨rfl, rfl, .inr ⟨rfl, rfl⟩⟩

private theorem GoesOn.claims (goesOn : GoesOn old call) (claims : claimed call = some number) :
    claimed old = some number ∧ publishedEvent call = publishedEvent old := by
  obtain ⟨persistedSeq, looked, rfl⟩ := claimed_looked claims
  rcases goesOn.stage with lost | ⟨same, published⟩
  · rw [lost] at looked
    cases looked
  · refine ⟨?_, published⟩
    simp only [claimed, ← same, looked, goesOn.allocated, Option.map_some]

private theorem published_looked (published : publishedEvent call = some event) :
    (lookedSeq call).isSome = true := by
  cases stage : call.stage with
  | published persistedSeq other => simp [lookedSeq, stage]
  | _ => simp [publishedEvent, stage] at published

private theorem GoesOn.published (goesOn : GoesOn old call)
    (published : publishedEvent call = some event) : publishedEvent old = some event := by
  rcases goesOn.stage with lost | ⟨-, same⟩
  · have looked := published_looked published
    rw [lost] at looked
    cases looked
  · rw [← same]
    exact published

private theorem GoesOn.looked (goesOn : GoesOn old call)
    (looked : lookedSeq call = some persistedSeq) : lookedSeq old = some persistedSeq := by
  rcases goesOn.stage with lost | ⟨same, -⟩
  · rw [lost] at looked
    cases looked
  · rw [← same]
    exact looked

private theorem Sequenced.carried (sequenced : Sequenced world) (inOrder : InOrder next)
    (goOn : ∀ call ∈ next.calls, ∃ old ∈ world.calls, GoesOn old call)
    (log : next.log.Sublist world.log) (highest : highestSeq next.log ≤ highestSeq world.log)
    (trace : ∀ id event, .appended id event ∈ world.trace → .appended id event ∈ next.trace) :
    Sequenced next where
  inOrder := inOrder
  counted := by
    intro left foundLeft right foundRight different persistedSeq looked some
    obtain ⟨oldLeft, heldLeft, goesLeft⟩ := goOn left foundLeft
    obtain ⟨oldRight, heldRight, goesRight⟩ := goOn right foundRight
    obtain ⟨other, lookedRight⟩ := Option.isSome_iff_exists.mp some
    rw [goesLeft.allocated]
    refine sequenced.counted oldLeft heldLeft oldRight heldRight ?_ persistedSeq
      (goesLeft.looked looked) ?_
    · rw [← goesLeft.id, ← goesRight.id]
      exact different
    · rw [goesRight.looked lookedRight]
      rfl
  ahead := by
    intro call found unpublished number claims
    obtain ⟨old, held, goes⟩ := goOn call found
    obtain ⟨claimsOld, same⟩ := goes.claims claims
    exact lt_of_le_of_lt highest (sequenced.ahead old held (same ▸ unpublished) number claimsOld)
  behind := by
    intro left foundLeft event published right foundRight unpublished number claims
    obtain ⟨oldLeft, heldLeft, goesLeft⟩ := goOn left foundLeft
    obtain ⟨oldRight, heldRight, goesRight⟩ := goOn right foundRight
    obtain ⟨claimsOld, same⟩ := goesRight.claims claims
    exact sequenced.behind oldLeft heldLeft event (goesLeft.published published) oldRight heldRight
      (same ▸ unpublished) number claimsOld
  logged := by
    intro event found
    obtain ⟨id, appended⟩ := sequenced.logged event (log.mem found)
    exact ⟨id, trace id event appended⟩
  distinct := sequenced.distinct.sublist log

private theorem goOn_put {stage : RecordStage} (found : call ∈ world.calls)
    (goes : GoesOn call { call with stage }) :
    ∀ other ∈ put RecordCall.id { call with stage } world.calls, ∃ old ∈ world.calls, GoesOn old other := by
  intro other held
  rcases mem_put.mp held with rfl | ⟨held, -⟩
  · exact ⟨call, found, goes⟩
  · exact ⟨other, held, GoesOn.refl other⟩

private theorem goOn_drop (id : Nat) : ∀ other ∈ drop RecordCall.id id world.calls,
    ∃ old ∈ world.calls, GoesOn old other :=
  fun other held => ⟨other, (mem_drop.mp held).1, GoesOn.refl other⟩

private theorem orderly_of_smooth (smooth : Smooth stream (.record action)) :
    Orderly stream.recorder action := by
  cases action with
  | readHighest id =>
    intro call found named other held persistedSeq looked
    exact (smooth call found named other held persistedSeq looked).1
  | begin draft => exact smooth
  | writeCompacted id nowIso => exact smooth
  | _ => trivial

private theorem Sequenced.look (sequenced : Sequenced world)
    (inOrder : InOrder (world.advance call (.looked (highestSeq world.log))))
    (inTurn : InTurn world call) :
    Sequenced (world.advance call (.looked (highestSeq world.log))) := by
  have claim : ∀ number, claimed { call with stage := .looked (highestSeq world.log) } =
      some number → number = max call.allocatedSeq (highestSeq world.log + 1) := by
    intro number claims
    simpa [claimed, lookedSeq, eq_comm] using claims
  refine ⟨inOrder, ?_, ?_, ?_, sequenced.logged, sequenced.distinct⟩
  · intro left foundLeft right foundRight different persistedSeq looked some
    rcases mem_put.mp foundLeft with rfl | ⟨heldLeft, -⟩
    · rcases mem_put.mp foundRight with rfl | ⟨heldRight, -⟩
      · exact absurd rfl different
      · obtain ⟨read, lookedRight⟩ := Option.isSome_iff_exists.mp some
        have turn := inTurn right heldRight read lookedRight
        have same : highestSeq world.log = persistedSeq := by simpa [lookedSeq] using looked
        rw [← same]
        exact turn.1.1
    · rcases mem_put.mp foundRight with rfl | ⟨heldRight, -⟩
      · exact (inTurn left heldLeft persistedSeq looked).1.2
      · exact sequenced.counted left heldLeft right heldRight different persistedSeq looked some
  · intro other held unpublished number claims
    rcases mem_put.mp held with rfl | ⟨held, -⟩
    · have := claim number claims
      show highestSeq world.log < number
      omega
    · exact sequenced.ahead other held unpublished number claims
  · intro left foundLeft event published right foundRight unpublished number claims
    rcases mem_put.mp foundLeft with rfl | ⟨heldLeft, apart⟩
    · simp [publishedEvent] at published
    rcases mem_put.mp foundRight with rfl | ⟨heldRight, -⟩
    · have claimsLeft := published_claimed (sequenced.inOrder.staged left heldLeft) published
      obtain ⟨read, looked, number_eq⟩ := claimed_looked claimsLeft
      obtain ⟨⟨-, below⟩, before⟩ := inTurn left heldLeft read looked
      have := claim number claims
      omega
    · exact sequenced.behind left heldLeft event published right heldRight unpublished number claims

private theorem Sequenced.publish (sequenced : Sequenced world)
    (inOrder : InOrder ({ world with bus }.advance call
      (.published persistedSeq (stampEvent call persistedSeq nowIso))))
    (found : call ∈ world.calls) (stage : call.stage = .looked persistedSeq)
    (first : FirstToPublish world call) :
    Sequenced ({ world with bus }.advance call
      (.published persistedSeq (stampEvent call persistedSeq nowIso))) := by
  have looked : lookedSeq call = some persistedSeq := by simp [lookedSeq, stage]
  have claims : claimed call = some (stampEvent call persistedSeq nowIso).seq := by
    simp [claimed, looked, stampEvent, stampedSeq, sequenced.inOrder.numbered.drafts call found]
  refine ⟨inOrder, ?_, ?_, ?_, sequenced.logged, sequenced.distinct⟩
  · intro left foundLeft right foundRight different read lookedLeft some
    rcases mem_put.mp foundLeft with rfl | ⟨heldLeft, -⟩
    · rcases mem_put.mp foundRight with rfl | ⟨heldRight, -⟩
      · exact absurd rfl different
      · have same : persistedSeq = read := by simpa [lookedSeq] using lookedLeft
        exact sequenced.counted call found right heldRight different read (same ▸ looked) some
    · rcases mem_put.mp foundRight with rfl | ⟨heldRight, -⟩
      · refine sequenced.counted left heldLeft call found different read lookedLeft ?_
        rw [looked]
        rfl
      · exact sequenced.counted left heldLeft right heldRight different read lookedLeft some
  · intro other held unpublished number claimsOther
    rcases mem_put.mp held with rfl | ⟨held, -⟩
    · simp [publishedEvent] at unpublished
    · exact sequenced.ahead other held unpublished number claimsOther
  · intro left foundLeft event published right foundRight unpublished number claimsRight
    rcases mem_put.mp foundRight with rfl | ⟨heldRight, apart⟩
    · simp [publishedEvent] at unpublished
    rcases mem_put.mp foundLeft with rfl | ⟨heldLeft, -⟩
    · have same : stampEvent call persistedSeq nowIso = event := by
        simpa [publishedEvent] using published
      subst same
      -- both are numbered by the counter, which `call` asked first
      obtain ⟨read, lookedRight, -⟩ := claimed_looked claimsRight
      have someRight : (lookedSeq right).isSome = true := by rw [lookedRight]; rfl
      have someLeft : (lookedSeq call).isSome = true := by rw [looked]; rfl
      have apart : right.id ≠ call.id := apart
      have left_eq := sequenced.claimed_counter found heldRight apart.symm claims someRight
      have right_eq := sequenced.claimed_counter heldRight found apart claimsRight someLeft
      have earlier := first right heldRight someRight unpublished
      have different := sequenced.inOrder.numbered.allocated call found right heldRight apart.symm
      omega
    · exact sequenced.behind left heldLeft event published right heldRight unpublished number
        claimsRight

private theorem Sequenced.append (sequenced : Sequenced world)
    (inOrder : InOrder (({ world with log := world.log ++ [event] }.advance call
      (.appended event)).observe (.appended call.id event))) (found : call ∈ world.calls)
    (stage : call.stage = .published persistedSeq event) :
    Sequenced (({ world with log := world.log ++ [event] }.advance call
      (.appended event)).observe (.appended call.id event)) := by
  have published : publishedEvent call = some event := by simp [publishedEvent, stage]
  have claims := published_claimed (sequenced.inOrder.staged call found) published
  have goOn := @goOn_put world call (.appended event) found ⟨rfl, rfl, .inl rfl⟩
  refine ⟨inOrder, ?_, ?_, ?_, ?_, ?_⟩
  · intro left foundLeft right foundRight different read looked some
    obtain ⟨oldLeft, heldLeft, goesLeft⟩ := goOn left foundLeft
    obtain ⟨oldRight, heldRight, goesRight⟩ := goOn right foundRight
    obtain ⟨other, lookedRight⟩ := Option.isSome_iff_exists.mp some
    rw [goesLeft.allocated]
    refine sequenced.counted oldLeft heldLeft oldRight heldRight ?_ read (goesLeft.looked looked) ?_
    · rw [← goesLeft.id, ← goesRight.id]
      exact different
    · rw [goesRight.looked lookedRight]
      rfl
  · intro other held unpublished number claimsOther
    show highestSeq (world.log ++ [event]) < number
    rw [highestSeq_append]
    rcases mem_put.mp held with rfl | ⟨held, -⟩
    · cases claimsOther
    · have below := sequenced.ahead other held unpublished number claimsOther
      have after := sequenced.behind call found event published other held unpublished number
        claimsOther
      omega
  · intro left foundLeft shown publishedLeft right foundRight unpublished number claimsRight
    obtain ⟨oldLeft, heldLeft, goesLeft⟩ := goOn left foundLeft
    obtain ⟨oldRight, heldRight, goesRight⟩ := goOn right foundRight
    obtain ⟨claimsOld, same⟩ := goesRight.claims claimsRight
    exact sequenced.behind oldLeft heldLeft shown (goesLeft.published publishedLeft) oldRight
      heldRight (same ▸ unpublished) number claimsOld
  · intro shown held
    rcases mem_append.mp held with held | held
    · obtain ⟨id, appended⟩ := sequenced.logged shown held
      exact ⟨id, mem_append_left _ appended⟩
    · rw [mem_singleton.mp held]
      exact ⟨call.id, mem_append_right _ mem_cons_self⟩
  · refine pairwise_append.mpr ⟨sequenced.distinct, pairwise_singleton _ _, ?_⟩
    intro shown held last same
    rw [mem_singleton.mp same]
    obtain ⟨id, appended⟩ := sequenced.logged shown held
    exact sequenced.inOrder.numbered.window call found event.seq claims id shown appended

theorem step_sequenced (sequenced : Sequenced stream.recorder) (smooth : Smooth stream (.record action))
    (stepped : stepRecorder compaction stream.recorder action = some next) : Sequenced next := by
  have inOrder := step_inOrder sequenced.inOrder (orderly_of_smooth smooth) stepped
  have appended : ∀ observation id event, RecorderObservation.appended id event ∈
      stream.recorder.trace → .appended id event ∈ stream.recorder.trace ++ [observation] :=
    fun _ _ _ shown => mem_append_left _ shown
  cases stepRecorder_stepped stepped with
  | begin draft =>
    refine ⟨inOrder, ?_, ?_, ?_, ?_, sequenced.distinct⟩
    · intro left foundLeft right foundRight different read looked some
      rcases mem_cons.mp foundLeft with rfl | heldLeft
      · cases looked
      rcases mem_cons.mp foundRight with rfl | heldRight
      · cases some
      · exact sequenced.counted left heldLeft right heldRight different read looked some
    · intro call found unpublished number claims
      rcases mem_cons.mp found with rfl | found
      · cases claims
      · exact sequenced.ahead call found unpublished number claims
    · intro left foundLeft event published right foundRight unpublished number claims
      rcases mem_cons.mp foundLeft with rfl | heldLeft
      · cases published
      rcases mem_cons.mp foundRight with rfl | heldRight
      · cases claims
      · exact sequenced.behind left heldLeft event published right heldRight unpublished number
          claims
    · intro event found
      obtain ⟨id, shown⟩ := sequenced.logged event found
      exact ⟨id, appended _ id event shown⟩
  | heartbeat =>
    exact sequenced.carried inOrder (fun call found => ⟨call, found, GoesOn.refl call⟩)
      (List.Sublist.refl _) (le_refl _) fun _ _ => id
  | restart =>
    exact sequenced.carried inOrder (fun _ found => by cases found) (List.Sublist.refl _)
      (le_refl _) fun _ _ => id
  | readHighest call found stage =>
    exact sequenced.look inOrder (smooth call found rfl)
  | publish call nowIso persistedSeq found stage =>
    exact sequenced.publish inOrder found stage (smooth.2 call found rfl)
  | append call persistedSeq event found stage => exact sequenced.append inOrder found stage
  | readForCompaction call event found stage usage =>
    exact sequenced.carried inOrder (goOn_put found ⟨rfl, rfl, .inl rfl⟩) (List.Sublist.refl _)
      (le_refl _) fun _ _ => id
  | writeCompacted call nowIso event contents found stage =>
    have settled : contents = stream.recorder.log ∧ UsageInOrder stream.recorder.log := by
      have settled := smooth call found rfl
      simpa [Settled, stage] using settled
    obtain ⟨rfl, ordered⟩ := settled
    exact sequenced.carried inOrder (goOn_put found ⟨rfl, rfl, .inl rfl⟩)
      (compactedLog_sublist compaction _ nowIso) (le_of_eq (highestSeq_compacted nowIso ordered))
      fun _ _ => id
  | finish call event found stage =>
    exact sequenced.carried inOrder (goOn_drop call.id) (List.Sublist.refl _) (le_refl _)
      (appended _)
  | fail call found =>
    exact sequenced.carried inOrder (goOn_drop call.id) (List.Sublist.refl _) (le_refl _)
      fun _ _ => id

theorem step_keyed (inOrder : InOrder world) (keyed : Keyed RecordCall.id world.calls)
    (stepped : stepRecorder compaction world action = some next) :
    Keyed RecordCall.id next.calls := by
  cases stepRecorder_stepped stepped with
  | begin draft =>
    refine keyed_cons keyed fun other found => ?_
    exact Nat.ne_of_lt (inOrder.numbered.fresh other found)
  | heartbeat => exact keyed
  | restart => exact fun _ found => by cases found
  | readHighest call found stage | publish call nowIso persistedSeq found stage
  | append call persistedSeq event found stage
  | readForCompaction call event found stage usage
  | writeCompacted call nowIso event contents found stage => exact keyed_put keyed
  | finish call event found stage | fail call found => exact keyed_drop keyed

/-- The events that are stored or about to be. -/
def Outgoing (world : RecorderWorld) (event : RuntimeEvent) : Prop :=
  event ∈ world.log ∨ ∃ call ∈ world.calls, publishedEvent call = some event

/-- A number no later event is going to have. -/
def Passed (world : RecorderWorld) (seq : Nat) : Prop :=
  seq ≤ highestSeq world.log ∨
    ∃ call ∈ world.calls, ∃ event, publishedEvent call = some event ∧ event.seq = seq

/-- The client is past the read of its backlog. -/
def CaughtUp (client : StreamClient) : Prop :=
  match client.connection with
  | some (.loaded _) => True
  | some (.subscribed _) => True
  | _ => False

/-- What the client has received and is going to receive. -/
def line (client : StreamClient) : List RuntimeEvent :=
  eventsOf (client.received ++ upcoming client)

structure Following (world : RecorderWorld) (client : StreamClient) : Prop where
  sorted : (line client).Pairwise fun left right => left.seq < right.seq
  passed : ∀ event ∈ line client, Passed world event.seq
  covered : CaughtUp client → ∀ event, Outgoing world event → client.start < event.seq → event ∈ line client
  unskipped : ∀ event, Outgoing world event → client.start < event.seq →
    event ∈ eventsOf client.received ∨ ∀ shown ∈ eventsOf client.received, shown.seq < event.seq
  resuming : ∀ since, client.connection = some (.loading since) →
    (∀ shown ∈ eventsOf client.received, shown.seq ≤ since) ∧
      (since = client.start ∨ ∃ shown ∈ eventsOf client.received, shown.seq = since)

theorem eventsOf_append : eventsOf (left ++ right) = eventsOf left ++ eventsOf right :=
  filterMap_append

theorem eventsOf_events : eventsOf (events.map StreamMessage.event) = events := by
  simp [eventsOf, filterMap_map]

private theorem Following.carried (following : Following world client)
    (outgoing : ∀ event, Outgoing next event → Outgoing world event)
    (passed : ∀ seq, Passed world seq → Passed next seq) : Following next client where
  sorted := following.sorted
  passed := fun event found => passed event.seq (following.passed event found)
  covered := fun caughtUp event out => following.covered caughtUp event (outgoing event out)
  unskipped := fun event out => following.unskipped event (outgoing event out)
  resuming := following.resuming

private theorem unskipped_front {front back : List RuntimeEvent}
    (sorted : (front ++ back).Pairwise fun left right => left.seq < right.seq)
    (found : event ∈ front ++ back) : event ∈ front ∨ ∀ shown ∈ front, shown.seq < event.seq := by
  rcases mem_append.mp found with found | found
  · exact .inl found
  · exact .inr fun shown before => (pairwise_append.mp sorted).2.2 shown before event found

/-- A step that publishes nothing. -/
structure Quiet (world next : RecorderWorld) : Prop where
  outgoing : ∀ event, Outgoing next event → Outgoing world event
  passed : ∀ seq, Passed world seq → Passed next seq

private theorem quiet_put (keyed : Keyed RecordCall.id world.calls) (found : call ∈ world.calls)
    (silent : publishedEvent { call with stage } = none)
    (kept : ∀ event, publishedEvent call = some event → event ∈ next.log)
    (outgoing : ∀ event ∈ next.log, Outgoing world event)
    (highest : highestSeq world.log ≤ highestSeq next.log)
    (calls : next.calls = put RecordCall.id { call with stage } world.calls) :
    Quiet world next := by
  constructor
  · intro event out
    rcases out with stored | ⟨other, held, published⟩
    · exact outgoing event stored
    · rw [calls] at held
      rcases mem_put.mp held with rfl | ⟨held, -⟩
      · rw [silent] at published
        cases published
      · exact .inr ⟨other, held, published⟩
  · intro seq passed
    rcases passed with below | ⟨other, held, event, published, same⟩
    · exact .inl (le_trans below highest)
    · by_cases mine : other.id = call.id
      · have stored := kept event (keyed other held call found mine ▸ published)
        refine .inl ?_
        rw [← same]
        exact seq_le_highestSeq stored
      · refine .inr ⟨other, ?_, event, published, same⟩
        rw [calls]
        exact mem_put.mpr (.inr ⟨held, mine⟩)

private theorem quiet_drop (keyed : Keyed RecordCall.id world.calls) (found : call ∈ world.calls)
    (silent : publishedEvent call = none) (log : next.log = world.log)
    (calls : next.calls = drop RecordCall.id call.id world.calls) : Quiet world next := by
  constructor
  · intro event out
    rcases out with stored | ⟨other, held, published⟩
    · exact .inl (log ▸ stored)
    · rw [calls] at held
      exact .inr ⟨other, (mem_drop.mp held).1, published⟩
  · intro seq passed
    rcases passed with below | ⟨other, held, event, published, same⟩
    · exact .inl (log ▸ below)
    · by_cases mine : other.id = call.id
      · rw [keyed other held call found mine, silent] at published
        cases published
      · refine .inr ⟨other, ?_, event, published, same⟩
        rw [calls]
        exact mem_drop.mpr ⟨held, mine⟩

private theorem publishedBy_step :
    (∀ id nowIso, action ≠ .publish id nowIso) → publishedBy world action = none := by
  intro other
  cases action with
  | publish id nowIso => exact absurd rfl (other id nowIso)
  | _ => rfl

private theorem step_quiet (keyed : Keyed RecordCall.id stream.recorder.calls)
    (smooth : Smooth stream (.record action)) (other : ∀ id nowIso, action ≠ .publish id nowIso)
    (stepped : stepRecorder compaction stream.recorder action = some next) :
    Quiet stream.recorder next := by
  have stored : ∀ event ∈ stream.recorder.log, Outgoing stream.recorder event :=
    fun _ found => .inl found
  have nothing : ∀ {call : RecordCall}, publishedEvent call = none →
      ∀ log : List RuntimeEvent, ∀ event, publishedEvent call = some event → event ∈ log := by
    intro call silent log event published
    rw [silent] at published
    cases published
  cases stepRecorder_stepped stepped with
  | begin draft =>
    constructor
    · intro event out
      rcases out with found | ⟨call, held, published⟩
      · exact .inl found
      · rcases mem_cons.mp held with rfl | held
        · cases published
        · exact .inr ⟨call, held, published⟩
    · intro seq passed
      rcases passed with below | ⟨call, held, published⟩
      · exact .inl below
      · exact .inr ⟨call, mem_cons_of_mem _ held, published⟩
  | heartbeat => exact ⟨fun _ => id, fun _ => id⟩
  | restart =>
    constructor
    · intro event out
      rcases out with found | ⟨call, held, published⟩
      · exact .inl found
      · cases held
    · intro seq passed
      rcases passed with below | ⟨call, held, event, published, -⟩
      · exact .inl below
      · rw [smooth call held] at published
        cases published
  | readHighest call found stage =>
    refine quiet_put keyed found rfl (nothing ?_ _) stored (le_refl _) rfl
    simp [publishedEvent, stage]
  | publish call nowIso persistedSeq found stage => exact absurd rfl (other call.id nowIso)
  | append call persistedSeq event found stage =>
    refine quiet_put keyed found rfl ?_ ?_ ?_ rfl
    · intro shown published
      have same : event = shown := by simpa [publishedEvent, stage] using published
      rw [← same]
      exact mem_append_right _ mem_cons_self
    · intro shown held
      rcases mem_append.mp held with held | held
      · exact .inl held
      · rw [mem_singleton.mp held]
        exact .inr ⟨call, found, by simp [publishedEvent, stage]⟩
    · show highestSeq stream.recorder.log ≤ highestSeq (stream.recorder.log ++ [event])
      rw [highestSeq_append]
      exact le_max_left _ _
  | readForCompaction call event found stage usage =>
    refine quiet_put keyed found rfl (nothing ?_ _) stored (le_refl _) rfl
    simp [publishedEvent, stage]
  | writeCompacted call nowIso event contents found stage =>
    have settled : contents = stream.recorder.log ∧ UsageInOrder stream.recorder.log := by
      have settled := smooth call found rfl
      simpa [Settled, stage] using settled
    obtain ⟨rfl, ordered⟩ := settled
    refine quiet_put keyed found rfl (nothing ?_ _) ?_ ?_ rfl
    · simp [publishedEvent, stage]
    · exact fun shown held => .inl ((compactedLog_sublist compaction _ nowIso).mem held)
    · exact le_of_eq (highestSeq_compacted nowIso ordered).symm
  | finish call event found stage =>
    refine quiet_drop keyed found ?_ rfl rfl
    simp [publishedEvent, stage]
  | fail call found => exact quiet_drop keyed found (smooth call found rfl) rfl rfl

/-- A step that publishes an event above everything passed. -/
structure Publishes (world next : RecorderWorld) (event : RuntimeEvent) : Prop where
  outgoing : ∀ other, Outgoing next other → Outgoing world other ∨ other = event
  passed : ∀ seq, Passed world seq → Passed next seq
  newest : Passed next event.seq
  above : ∀ seq, Passed world seq → seq < event.seq

private theorem publish_publishes (sequenced : Sequenced world)
    (keyed : Keyed RecordCall.id world.calls) (found : call ∈ world.calls)
    (stage : call.stage = .looked persistedSeq) :
    Publishes world ({ world with bus }.advance call
      (.published persistedSeq (stampEvent call persistedSeq nowIso)))
      (stampEvent call persistedSeq nowIso) := by
  have silent : publishedEvent call = none := by simp [publishedEvent, stage]
  have claims : claimed call = some (stampEvent call persistedSeq nowIso).seq := by
    simp [claimed, lookedSeq, stage, stampEvent, stampedSeq, sequenced.inOrder.numbered.drafts call found]
  refine ⟨?_, ?_, ?_, ?_⟩
  · intro other out
    rcases out with stored | ⟨holder, held, published⟩
    · exact .inl (.inl stored)
    · rcases mem_put.mp held with rfl | ⟨held, -⟩
      · right
        simpa [publishedEvent, eq_comm] using published
      · exact .inl (.inr ⟨holder, held, published⟩)
  · intro seq passed
    rcases passed with below | ⟨holder, held, event, published, same⟩
    · exact .inl below
    · refine .inr ⟨holder, mem_put.mpr (.inr ⟨held, fun mine => ?_⟩), event, published, same⟩
      rw [keyed holder held call found mine, silent] at published
      cases published
  · exact .inr ⟨_, mem_put.mpr (.inl rfl), _, rfl, rfl⟩
  · intro seq passed
    rcases passed with below | ⟨holder, held, event, published, same⟩
    · exact lt_of_le_of_lt below (sequenced.ahead call found silent _ claims)
    · rw [← same]
      exact sequenced.behind holder held event published call found silent _ claims

private theorem Following.published (following : Following world client)
    (publishes : Publishes world next event)
    (notLoaded : ∀ backlog, client.connection ≠ some (.loaded backlog)) :
    Following next (enqueue (.event event) client) := by
  have after : ∀ shown ∈ line client, shown.seq < event.seq :=
    fun shown held => publishes.above shown.seq (following.passed shown held)
  have received : ∀ shown ∈ eventsOf client.received, shown ∈ line client := by
    intro shown held
    rw [line, eventsOf_append]
    exact mem_append_left _ held
  have unskipped : ∀ other, Outgoing next other → client.start < other.seq →
      other ∈ eventsOf client.received ∨ ∀ shown ∈ eventsOf client.received, shown.seq < other.seq := by
    intro other out later
    rcases publishes.outgoing other out with before | rfl
    · exact following.unskipped other before later
    · exact .inr fun shown held => after shown (received shown held)
  have passed : ∀ shown ∈ line client, Passed next shown.seq :=
    fun shown held => publishes.passed shown.seq (following.passed shown held)
  cases connection : client.connection with
  | none =>
    have same : enqueue (.event event) client = client := by simp [enqueue, connection]
    rw [same]
    exact ⟨following.sorted, passed, fun caughtUp => by simp [CaughtUp, connection] at caughtUp,
      unskipped, following.resuming⟩
  | some state =>
    cases state with
    | loading since =>
      have same : enqueue (.event event) client = client := by simp [enqueue, connection]
      rw [same]
      exact ⟨following.sorted, passed, fun caughtUp => by simp [CaughtUp, connection] at caughtUp,
        unskipped, following.resuming⟩
    | loaded backlog => exact absurd connection (notLoaded backlog)
    | subscribed queue =>
      have longer : line (enqueue (.event event) client) = line client ++ [event] := by
        simp [line, enqueue, upcoming, connection, eventsOf]
      have same : (enqueue (.event event) client).received = client.received ∧
          (enqueue (.event event) client).start = client.start := by
        simp [enqueue, connection]
      have caughtUp : CaughtUp client := by simp [CaughtUp, connection]
      refine ⟨?_, ?_, ?_, ?_, ?_⟩
      · rw [longer]
        refine pairwise_append.mpr ⟨following.sorted, pairwise_singleton _ _, ?_⟩
        intro shown held last only
        rw [mem_singleton.mp only]
        exact after shown held
      · intro shown held
        rw [longer] at held
        rcases mem_append.mp held with held | held
        · exact passed shown held
        · rw [mem_singleton.mp held]
          exact publishes.newest
      · intro _ other out later
        rw [longer]
        rw [same.2] at later
        rcases publishes.outgoing other out with before | rfl
        · exact mem_append_left _ (following.covered caughtUp other before later)
        · exact mem_append_right _ mem_cons_self
      · rw [same.1, same.2]
        exact unskipped
      · intro since loading
        simp [enqueue, connection] at loading

private theorem received_line (held : shown ∈ eventsOf client.received) : shown ∈ line client := by
  rw [line, eventsOf_append]
  exact mem_append_left _ held

private theorem Following.hungUp (following : Following world client) :
    Following world (hangUp client) := by
  have shorter : line (hangUp client) = eventsOf client.received := by
    simp [line, hangUp, upcoming]
  have whole := following.sorted
  rw [line, eventsOf_append] at whole
  refine ⟨?_, ?_, fun caughtUp => ?_, following.unskipped, fun since loading => ?_⟩
  · rw [shorter]
    exact (pairwise_append.mp whole).1
  · rw [shorter]
    exact fun event held => following.passed event (received_line held)
  · simp [CaughtUp, hangUp] at caughtUp
  · simp [hangUp] at loading

private theorem Following.moved {moved : StreamClient} (following : Following world client)
    (start : moved.start = client.start) (same : line moved = line client)
    (front : ∃ back, line moved = eventsOf moved.received ++ back) (caughtUp : CaughtUp client)
    (open_ : ∀ since, moved.connection ≠ some (.loading since)) : Following world moved := by
  have covered : ∀ event, Outgoing world event → moved.start < event.seq → event ∈ line moved := by
    intro event out later
    rw [same]
    rw [start] at later
    exact following.covered caughtUp event out later
  have sorted := following.sorted
  rw [← same] at sorted
  refine ⟨sorted, ?_, fun _ => covered, ?_, fun since loading => absurd loading (open_ since)⟩
  · rw [same]
    exact following.passed
  · intro event out later
    have found := covered event out later
    obtain ⟨back, split⟩ := front
    rw [split] at found sorted
    exact unskipped_front sorted found

private theorem line_front : ∃ back, line client = eventsOf client.received ++ back :=
  ⟨eventsOf (upcoming client), eventsOf_append⟩

private theorem following_new (id start : Nat) :
    Following world { id, start, connection := some (.loading start) } := by
  refine ⟨List.Pairwise.nil, fun _ held => (by cases held), fun caughtUp => caughtUp.elim, ?_, ?_⟩
  · exact fun event _ _ => .inr fun _ held => by cases held
  · rintro since ⟨⟩
    exact ⟨fun _ held => (by cases held), .inl rfl⟩

private theorem line_idle (idle : client.connection = none) :
    line client = eventsOf client.received := by
  simp [line, upcoming, idle]

private theorem received_le_lastId (following : Following world client)
    (atEvent : ∀ last ∈ client.received.getLast?, ∃ event, last = .event event) :
    (∀ shown ∈ eventsOf client.received, shown.seq ≤ lastId client) ∧ (lastId client = client.start ∨
        ∃ shown ∈ eventsOf client.received, shown.seq = lastId client) := by
  have sorted := following.sorted
  rw [line, eventsOf_append] at sorted
  have sorted := (pairwise_append.mp sorted).1
  cases last : client.received.getLast? with
  | none =>
    have nothing : client.received = [] := getLast?_eq_none_iff.mp last
    refine ⟨fun shown held => ?_, .inl (by simp [lastId, nothing])⟩
    rw [nothing] at held
    cases held
  | some message =>
    obtain ⟨event, rfl⟩ := atEvent message last
    obtain ⟨before, split⟩ := getLast?_eq_some_iff.mp last
    have known : lastId client = event.seq := by simp [lastId, last, StreamMessage.seq]
    have events : eventsOf client.received = eventsOf before ++ [event] := by
      rw [split, eventsOf_append]
      rfl
    rw [events] at sorted ⊢
    refine ⟨?_, .inr ⟨event, mem_append_right _ mem_cons_self, known.symm⟩⟩
    intro shown held
    rcases mem_append.mp held with held | held
    · have := (pairwise_append.mp sorted).2.2 shown held event mem_cons_self
      omega
    · rw [mem_singleton.mp held, known]

private theorem Following.reconnect (following : Following world client)
    (idle : client.connection = none) (resumes : ResumesAtEvent client since) :
    Following world { client with connection := some (.loading since) } := by
  obtain ⟨rfl, atEvent⟩ := resumes
  have same : line { client with connection := some (.loading (lastId client)) } = line client := by
    rw [line_idle idle]
    simp [line, upcoming]
  refine ⟨?_, ?_, fun caughtUp => caughtUp.elim, following.unskipped, ?_⟩
  · rw [same]
    exact following.sorted
  · rw [same]
    exact following.passed
  · rintro since ⟨⟩
    have known := received_le_lastId following atEvent
    exact known

private theorem loadEventsSince_sorted
    (distinct : log.Pairwise fun left right => left.seq ≠ right.seq) :
    (loadEventsSince log since).Pairwise fun left right => left.seq < right.seq := by
  have ordered : (loadEventsSince log since).Pairwise fun left right => left.seq ≤ right.seq :=
    pairwise_insertionSort (fun left right : RuntimeEvent => left.seq ≤ right.seq) _
  have apart : (loadEventsSince log since).Pairwise fun left right => left.seq ≠ right.seq := by
    have selected := distinct.sublist (filter_sublist (p := fun event => since < event.seq))
    exact selected.perm (perm_insertionSort _ _).symm fun different => different.symm
  exact ordered.imp₂ (fun _ _ below different => lt_of_le_of_ne below different) apart

private theorem Following.load (following : Following world client) (sequenced : Sequenced world)
    (loading : client.connection = some (.loading since)) (nothing : NothingPublished world) :
    Following world
      { client with connection := some (.loaded (loadEventsSince world.log since)) } := by
  obtain ⟨below, known⟩ := following.resuming since loading
  have before : line client = eventsOf client.received := by simp [line, upcoming, loading]
  have longer : line { client with connection := some (.loaded (loadEventsSince world.log since)) } =
      eventsOf client.received ++ loadEventsSince world.log since := by
    simp only [line, upcoming, eventsOf_append, eventsOf_events]
  refine ⟨?_, ?_, ?_, following.unskipped, fun _ absurdity => (by cases absurdity)⟩
  · rw [longer]
    refine pairwise_append.mpr ⟨before ▸ following.sorted, loadEventsSince_sorted sequenced.distinct, ?_⟩
    intro shown held event loaded
    have early := below shown held
    have late := (mem_loadEventsSince.mp loaded).2
    omega
  · rw [longer]
    intro event held
    rcases mem_append.mp held with held | held
    · exact following.passed event (received_line held)
    · exact .inl (seq_le_highestSeq (mem_loadEventsSince.mp held).1)
  · intro _ event out later
    rw [longer]
    have stored : event ∈ world.log := by
      rcases out with stored | ⟨call, held, published⟩
      · exact stored
      · rw [nothing call held] at published
        cases published
    by_cases fresh : since < event.seq
    · exact mem_append_right _ (mem_loadEventsSince.mpr ⟨stored, fresh⟩)
    · apply mem_append_left
      have later : client.start < event.seq := later
      rcases following.unskipped event (.inl stored) later with received | above
      · exact received
      · rcases known with rfl | ⟨shown, held, rfl⟩
        · omega
        · have := above shown held
          omega

structure Streaming (stream : StreamWorld) : Prop where
  sequenced : Sequenced stream.recorder
  keyed : Keyed RecordCall.id stream.recorder.calls
  following : ∀ client ∈ stream.clients, Following stream.recorder client

private theorem record_streaming (streaming : Streaming stream) (smooth : Smooth stream (.record action))
    (stepped : stepRecorder compaction stream.recorder action = some next) :
    Streaming { recorder := next, clients := clientsAfter stream action } := by
  have sequenced := step_sequenced streaming.sequenced smooth stepped
  have keyed := step_keyed streaming.sequenced.inOrder streaming.keyed stepped
  refine ⟨sequenced, keyed, ?_⟩
  by_cases publication : ∃ id nowIso, action = .publish id nowIso
  · obtain ⟨id, nowIso, rfl⟩ := publication
    cases stepRecorder_stepped stepped with
    | publish call _ persistedSeq found stage =>
      have event : publishedBy stream.recorder (.publish call.id nowIso) =
          some (stampEvent call persistedSeq nowIso) := by
        simp [publishedBy, find_keyed streaming.keyed found, stage]
      intro client held
      simp only [clientsAfter, event] at held
      obtain ⟨old, heldOld, rfl⟩ := mem_map.mp held
      refine (streaming.following old heldOld).published ?_ (smooth.1 old heldOld)
      exact publish_publishes streaming.sequenced streaming.keyed found stage
  · have other : ∀ id nowIso, action ≠ .publish id nowIso :=
      fun id nowIso same => publication ⟨id, nowIso, same⟩
    have quiet := step_quiet streaming.keyed smooth other stepped
    intro client held
    by_cases fresh : action = .restart
    · subst fresh
      obtain ⟨old, heldOld, rfl⟩ := mem_map.mp held
      exact ((streaming.following old heldOld).hungUp).carried quiet.outgoing quiet.passed
    · have same : clientsAfter stream action = stream.clients := by
        simp [clientsAfter, publishedBy_step other]
      simp only [same] at held
      exact (streaming.following client held).carried quiet.outgoing quiet.passed

private theorem heartbeat_streaming (compaction : UsageEventCompaction)
    (streaming : Streaming stream) : Streaming { stream with
      recorder := { stream.recorder with bus := stream.recorder.bus.allocateSeq } } := by
  have stepped : stepRecorder compaction stream.recorder .heartbeat =
      some { stream.recorder with bus := stream.recorder.bus.allocateSeq } := rfl
  have smooth : Smooth stream (.record .heartbeat) := trivial
  exact record_streaming streaming smooth stepped

private theorem Streaming.update (streaming : Streaming stream)
    (following : Following stream.recorder client) : Streaming (stream.update client) := by
  refine ⟨streaming.sequenced, streaming.keyed, ?_⟩
  intro other held
  rcases mem_put.mp held with rfl | ⟨held, -⟩
  · exact following
  · exact streaming.following other held

private theorem stepClient_streaming (compaction : UsageEventCompaction) {action : StreamAction}
    (streaming : Streaming stream) (held : client ∈ stream.clients)
    (resumes : ∀ id fromQuery fromHeader, action = .connect id fromQuery fromHeader →
      ResumesAtEvent client (sinceSeq fromQuery fromHeader))
    (nothing : ∀ id, action = .loadBacklog id → NothingPublished stream.recorder)
    (stepped : stepClient stream client action = some after) : Streaming after := by
  have following := streaming.following client held
  cases action with
  | record recording => cases stepped
  | connect id fromQuery fromHeader =>
    simp only [stepClient] at stepped
    split at stepped
    · rename_i idle
      cases stepped
      exact streaming.update (following.reconnect idle (resumes id fromQuery fromHeader rfl))
    · cases stepped
  | loadBacklog id =>
    simp only [stepClient] at stepped
    split at stepped
    · rename_i since loading
      cases stepped
      exact streaming.update (following.load streaming.sequenced loading (nothing id rfl))
    · cases stepped
  | subscribe id =>
    simp only [stepClient] at stepped
    split at stepped
    · rename_i backlog loaded
      cases stepped
      refine streaming.update (following.moved rfl ?_ line_front ?_ fun _ => ?_)
      · simp [line, upcoming, loaded]
      · simp [CaughtUp, loaded]
      · simp
    · cases stepped
  | heartbeat id =>
    simp only [stepClient] at stepped
    split at stepped
    · rename_i queue subscribed
      cases stepped
      have beaten := heartbeat_streaming compaction streaming
      refine beaten.update ((beaten.following client held).moved rfl ?_ line_front ?_ fun _ => ?_)
      · simp [line, upcoming, subscribed, eventsOf]
      · simp [CaughtUp, subscribed]
      · simp
    · cases stepped
  | receive id =>
    simp only [stepClient] at stepped
    split at stepped
    · rename_i message queue subscribed
      cases stepped
      refine streaming.update (following.moved rfl ?_ line_front ?_ fun _ => ?_)
      · simp [line, upcoming, subscribed]
      · simp [CaughtUp, subscribed]
      · simp
    · cases stepped
  | disconnect id =>
    cases stepped
    exact streaming.update following.hungUp

private theorem named {action : StreamAction} {id : Nat}
    (stepped : (match find StreamClient.id id stream.clients with
      | none => none
      | some client => stepClient stream client action) = some after) :
    ∃ client ∈ stream.clients, client.id = id ∧ stepClient stream client action = some after := by
  cases held : find StreamClient.id id stream.clients with
  | none =>
    rw [held] at stepped
    cases stepped
  | some client =>
    rw [held] at stepped
    obtain ⟨found, same⟩ := find_mem held
    exact ⟨client, found, same, stepped⟩

theorem step_streaming {action : StreamAction} (streaming : Streaming stream)
    (smooth : Smooth stream action) (stepped : stepStream compaction stream action = some after) :
    Streaming after := by
  have others : ∀ {client : StreamClient}, client ∈ stream.clients →
      (∀ id fromQuery fromHeader, action ≠ .connect id fromQuery fromHeader) →
      stepClient stream client action = some after → Streaming after := by
    intro client held notConnect moved
    refine stepClient_streaming compaction streaming held ?_ ?_ moved
    · exact fun id fromQuery fromHeader same => absurd same (notConnect id fromQuery fromHeader)
    · rintro id rfl
      exact smooth
  cases action with
  | record recording =>
    obtain ⟨recorder, moved, rfl⟩ := Option.map_eq_some_iff.mp stepped
    exact record_streaming streaming smooth moved
  | connect id fromQuery fromHeader =>
    simp only [stepStream] at stepped
    split at stepped
    · cases stepped
      exact streaming.update (following_new id _)
    · rename_i client found
      obtain ⟨held, same⟩ := find_mem found
      refine stepClient_streaming compaction streaming held ?_ (fun _ absurdity => (by cases absurdity)) stepped
      rintro _ _ _ ⟨⟩
      exact smooth client held same
  | loadBacklog id | subscribe id | heartbeat id | receive id | disconnect id =>
    obtain ⟨client, held, -, moved⟩ := named stepped
    exact others held (fun _ _ _ absurdity => by cases absurdity) moved

private theorem streaming_start : Streaming {} where
  sequenced := by
    refine ⟨inOrder_start, ?_, ?_, ?_, ?_, List.Pairwise.nil⟩
    all_goals exact fun _ found => by cases found
  keyed := fun _ found => by cases found
  following := fun _ found => by cases found

theorem delivered_of_following (following : Following world client) :
    Delivered world.log client where
  increasing := following.sorted
  unskipped := by
    intro event stored later reached
    obtain ⟨shown, held, below⟩ := reached
    rcases following.unskipped event (.inl stored) later with received | above
    · exact received
    · have := above shown held
      omega
  whole := by
    intro queue subscribed event stored later
    have caughtUp : CaughtUp client := by simp [CaughtUp, subscribed]
    have found := following.covered caughtUp event (.inl stored) later
    simpa [line, upcoming, subscribed] using found

/-- In every run of smooth steps each client gets the stored events after its starting
point, each once, in increasing order and without a gap. -/
theorem events_reach_every_client (compaction : UsageEventCompaction) (actions : List StreamAction)
    (smooth : Along (stepStream compaction) Smooth {} actions) {final : StreamWorld}
    (ran : runActions (stepStream compaction) {} actions = some final) :
    ∀ client ∈ final.clients, Delivered final.recorder.log client := by
  have streaming : Streaming final :=
    invariant_run (fun _ _ _ holds fair stepped => step_streaming holds fair stepped) actions
      streaming_start smooth ran
  exact fun client held => delivered_of_following (streaming.following client held)

/-- All the steps of a call of `record`. -/
def recordAlone (id : Nat) : List StreamAction :=
  [.record (.begin turnStarted), .record (.readHighest id), .record (.publish id ""),
    .record (.append id), .record (.finish id)]

/-- A client connects after the first event, leaves after the second and is back after
the third. -/
def leaveAndReturn : List StreamAction :=
  recordAlone 0 ++ [.connect 7 0 0, .loadBacklog 7, .subscribe 7, .receive 7] ++ recordAlone 1 ++
    [.heartbeat 7, .receive 7, .disconnect 7] ++ recordAlone 2 ++
    [.connect 7 0 2, .loadBacklog 7, .subscribe 7, .receive 7]

def receivedSeqs (world : StreamWorld) : List (List Nat) :=
  world.clients.map fun client => client.received.map StreamMessage.seq

/-- The heartbeat took the number 3. -/
theorem events_reach_every_client_returning :
    ∃ final, runActions (stepStream undated) {} leaveAndReturn = some final ∧
      receivedSeqs final = [[1, 2, 4]] ∧
      ∀ client ∈ final.clients, Delivered final.recorder.log client := by
  have seqs : (runActions (stepStream undated) {} leaveAndReturn).map receivedSeqs =
      some [[1, 2, 4]] := by decide
  obtain ⟨final, ran, received⟩ := Option.map_eq_some_iff.mp seqs
  refine ⟨final, ran, received, ?_⟩
  exact events_reach_every_client undated leaveAndReturn (by decide) ran

/-- A client connects between the publication of an event and its append. -/
def connectAroundAppend : List StreamAction :=
  [.record (.begin turnStarted), .record (.readHighest 0), .record (.publish 0 ""),
    .connect 7 0 0, .loadBacklog 7, .subscribe 7, .record (.append 0), .record (.finish 0)]

/-- It never gets the event: it is subscribed, with nothing to receive. -/
theorem event_missed_around_append :
    ∃ final, runActions (stepStream undated) {} connectAroundAppend = some final ∧
      ∃ client ∈ final.clients, ¬ Delivered final.recorder.log client := by
  have shape : (runActions (stepStream undated) {} connectAroundAppend).map
      (fun world => (world.clients, world.recorder.log.map RuntimeEvent.seq)) =
      some ([{ id := 7, start := 0, connection := some (.subscribed []) }], [1]) := by
    decide
  obtain ⟨final, ran, same⟩ := Option.map_eq_some_iff.mp shape
  obtain ⟨clients, seqs⟩ := Prod.mk.inj same
  refine ⟨final, ran, { id := 7, start := 0, connection := some (.subscribed []) }, ?_, ?_⟩
  · rw [clients]
    exact mem_cons_self
  · intro delivered
    obtain ⟨event, only, numbered⟩ := map_eq_singleton_iff.mp seqs
    have stored : event ∈ final.recorder.log := by
      rw [only]
      exact mem_cons_self
    have later : 0 < event.seq := by omega
    have found := delivered.whole [] rfl event stored later
    cases found

end QiongQi.StreamDelivery
