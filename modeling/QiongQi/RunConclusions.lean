import QiongQi.KernelInvariants
import QiongQi.CommandLedgers

/-! What a stored end of a run is worth: after a snapshot that ended well there is no
completion that a later run would take in, and no snapshot has a lower task revision than
one that was stored before it. -/
namespace QiongQi.RunConclusions
open JsonValues Programs RuntimeContracts MiddlewareCommands ExecutionGraphs RuntimeKernels
  KernelRuns KernelReducers KernelDurability KernelReplay KernelSteps KernelLive KernelInvariants
  CommandLedgers

variable {Ext : Type} {ExtAnswer : Ext → Type}

/-- The stored run, if it has ended, has failed. -/
def Unfinished (world : RunWorld Ext) : Prop :=
  ∀ state, world.snapshot = some state → isTerminal state = true →
    (outcomeFromTerminalState state).status = .failed

/-- If it has not, its snapshot has taken in every completion. -/
def Concluded (world : RunWorld Ext) : Prop :=
  Unfinished world ∨ ∀ state, world.snapshot = some state →
    ∀ event ∈ world.events, event.eventType = "node.completed" → event.seq ≤ state.cursor.checkpointSeq

structure Sound (world : RunWorld Ext) : Prop where
  ascending : world.events.Pairwise fun left right => left.seq < right.seq
  concluded : Concluded world
  rising : (savedIn world.trace).Pairwise fun earlier later =>
    earlier.taskRevision.value ≤ later.taskRevision.value
  latest : ∀ saved ∈ savedIn world.trace, ∃ state, world.snapshot = some state ∧
    saved.taskRevision.value ≤ state.taskRevision.value

/-- The state in memory has taken in every completion but those still to be replayed; where
the stored run has ended well it has ended too, and none is left. -/
structure Held (live : RunStateV3) (rest : List RunEventEnvelope) (world : RunWorld Ext) :
    Prop where
  sound : Sound world
  behind : ∀ event ∈ world.events, event.eventType = "node.completed" →
    event.seq ≤ live.cursor.checkpointSeq ∨ event ∈ rest
  closed : Unfinished world ∨ isTerminal live = true ∧ ∀ event ∈ rest, event.eventType ≠ "node.completed"
  ahead : ∀ saved ∈ savedIn world.trace, saved.taskRevision.value ≤ live.taskRevision.value

structure Onward (before after : RunStateV3) : Prop where
  revision : before.taskRevision.value ≤ after.taskRevision.value
  checkpoint : before.cursor.checkpointSeq ≤ after.cursor.checkpointSeq

theorem onward_of_data (data : dataOf after = dataOf before)
    (checkpoint : before.cursor.checkpointSeq ≤ after.cursor.checkpointSeq) : Onward before after :=
  ⟨(congrArg (fun data => data.taskRevision.value) data).ge, checkpoint⟩

section

theorem applyCommands_onward (applied : applyCommands live commands = .ok next) :
    Onward live next :=
  ⟨applyCommands_revision applied,
    (congrArg RunCursor.checkpointSeq (applyCommands_header applied).cursor).ge⟩

theorem reduceCompletedNode_onward
    (reduced : reduceCompletedNode kernel live node payload seq now = .ok next) :
    Onward live next := by
  have checkpoint := reduceCompletedNode_checkpoint reduced
  refine ⟨?_, by omega⟩
  obtain ⟨applied, commands, rest⟩ := except_bind reduced
  have kept : (dataOf (withNodeValue applied node.id payload.value)).taskRevision = applied.taskRevision := by
    rw [withNodeValue_data, RunData.keep_revision]
    rfl
  have raised : live.taskRevision.value ≤ (withNodeValue applied node.id payload.value).taskRevision.value :=
    (applyCommands_revision commands).trans (congrArg SafeNat.value kept).ge
  cases outcome : payload.outcome with
  | some found =>
    rw [outcome] at rest
    cases rest
    have data := withOutcome_data (withNodeValue applied node.id payload.value) found now
    exact raised.trans (congrArg (fun data => data.taskRevision.value) data).ge
  | none =>
    rw [outcome] at rest
    obtain ⟨target, -, rest⟩ := except_bind rest
    obtain ⟨-, -, final⟩ := except_bind rest
    cases final
    exact raised

theorem reduceAfterMiddleware_onward
    (reduced : reduceAfterMiddleware kernel live payload seq now = .ok next) :
    Onward live next := by
  have checkpoint := reduceAfterMiddleware_checkpoint reduced
  refine ⟨?_, by omega⟩
  obtain ⟨outcomed, first, rest⟩ := except_bind reduced
  obtain ⟨moved, second, final⟩ := except_bind rest
  cases final
  have data := congrArg (fun data => data.taskRevision.value) (afterMiddlewareCursor_data second).1
  refine le_trans ?_ data.ge
  unfold afterMiddlewareState at first
  split at first
  · cases first
    exact le_rfl
  · obtain ⟨applied, commands, ending⟩ := except_bind first
    have raised := applyCommands_revision commands
    cases ending
    split
    · exact raised.trans (congrArg (fun data => data.taskRevision.value)
        (withOutcome_data _ _ _)).ge
    · exact raised

end

theorem savedIn_append : savedIn (left ++ right) = savedIn left ++ savedIn right :=
  List.filterMap_append

section
variable {world : RunWorld Ext} {live next state stored : RunStateV3}
variable {event : RunEventEnvelope} {now : NonEmptyString}

theorem respects_sound : Respects (@Sound Ext) := by
  rintro before after snapshot events trace ⟨ascending, concluded, rising, latest⟩
  refine ⟨events ▸ ascending, ?_, trace ▸ rising, ?_⟩
  · unfold Concluded Unfinished at concluded ⊢
    rw [snapshot, events]
    exact concluded
  · rw [trace, snapshot]
    exact latest

theorem respects_held : Respects (@Held Ext live rest) := by
  rintro before after snapshot events trace ⟨sound, behind, closed, ahead⟩
  refine ⟨respects_sound.keep sound snapshot events trace, events ▸ behind, ?_, trace ▸ ahead⟩
  unfold Unfinished at closed ⊢
  rw [snapshot]
  exact closed

theorem Sound.observe (sound : Sound world) (unsaved : savedIn [observation] = []) :
    Sound (world.observe observation) := by
  obtain ⟨ascending, concluded, rising, latest⟩ := sound
  have same : savedIn (world.observe observation).trace = savedIn world.trace := by
    rw [RunWorld.observe, savedIn_append, unsaved, List.append_nil]
  exact ⟨ascending, concluded, same ▸ rising, same ▸ latest⟩

theorem Held.observe (held : Held live rest world) (unsaved : savedIn [observation] = []) :
    Held live rest (world.observe observation) := by
  refine ⟨held.sound.observe unsaved, held.behind, held.closed, ?_⟩
  rw [RunWorld.observe, savedIn_append, unsaved, List.append_nil]
  exact held.ahead

theorem Sound.record (sound : Sound world) (seq : event.seq = nextSeq world.events)
    (open_ : event.eventType = "node.completed" → Unfinished world) :
    Sound (recordedWorld world event) := by
  obtain ⟨ascending, concluded, rising, latest⟩ := sound
  have same : savedIn (recordedWorld world event).trace = savedIn world.trace :=
    savedIn_append.trans (List.append_nil _)
  refine ⟨?_, ?_, same ▸ rising, same ▸ latest⟩
  · refine List.pairwise_append.mpr ⟨ascending, List.pairwise_singleton _ _, ?_⟩
    intro left found right last
    rw [List.mem_singleton.mp last]
    exact (seq_lt_nextSeq found).trans_eq seq.symm
  · by_cases completed : event.eventType = "node.completed"
    · exact .inl (open_ completed)
    · refine concluded.imp_right fun behind state found other member kind => ?_
      rcases List.mem_append.mp member with member | last
      · exact behind state found other member kind
      · rw [List.mem_singleton.mp last] at kind
        exact absurd kind completed

theorem Held.moves (held : Held live rest world) (onward : Onward live next)
    (ends : isTerminal live = true → isTerminal next = true) : Held next rest world := by
  obtain ⟨sound, behind, closed, ahead⟩ := held
  refine ⟨sound, fun event found kind => ?_, closed.imp_right fun done => ⟨ends done.1, done.2⟩,
    fun saved found => (ahead saved found).trans onward.revision⟩
  exact (behind event found kind).imp_left fun before => before.trans onward.checkpoint

theorem Held.record (held : Held live rest world) (seq : event.seq = nextSeq world.events)
    (onward : Onward live next) (ends : isTerminal live = true → isTerminal next = true)
    (taken : event.eventType = "node.completed" → Unfinished world ∧ event.seq ≤ next.cursor.checkpointSeq) :
    Held next rest (recordedWorld world event) := by
  obtain ⟨-, behind, closed, ahead⟩ := held.moves onward ends
  refine ⟨held.sound.record seq fun kind => (taken kind).1, ?_, closed, ?_⟩
  · intro other found kind
    rcases List.mem_append.mp found with found | last
    · exact behind other found kind
    · rw [List.mem_singleton.mp last] at kind ⊢
      exact .inl (taken kind).2
  · have same : savedIn (recordedWorld world event).trace = savedIn world.trace :=
      savedIn_append.trans (List.append_nil _)
    rw [same]
    exact ahead

theorem Held.start (held : Held live [] world) (now : NonEmptyString)
    (seq : event.seq = nextSeq world.events) (kind : event.eventType = "node.started") :
    Held (startedState live event.seq now) [] (recordedWorld world event) := by
  have other : event.eventType ≠ "node.completed" := by
    rw [kind]
    decide
  have same : savedIn (recordedWorld world event).trace = savedIn world.trace :=
    savedIn_append.trans (List.append_nil _)
  refine ⟨held.sound.record seq fun completed => absurd completed other, ?_, held.closed, ?_⟩
  · intro found member completed
    rcases List.mem_append.mp member with member | last
    · have below := seq_lt_nextSeq member
      refine .inl ?_
      show found.seq ≤ event.seq
      omega
    · rw [List.mem_singleton.mp last] at completed
      exact absurd completed other
  · rw [same]
    exact held.ahead

theorem Held.replay (held : Held live (event :: rest) world) (onward : Onward live next)
    (ends : event.eventType ≠ "node.completed" → isTerminal live = true → isTerminal next = true)
    (taken : event.eventType = "node.completed" → event.seq ≤ next.cursor.checkpointSeq) :
    Held next rest world := by
  obtain ⟨sound, behind, closed, ahead⟩ := held
  refine ⟨sound, fun other found kind => ?_, ?_, fun saved found => (ahead saved found).trans onward.revision⟩
  · rcases behind other found kind with before | left
    · exact .inl (before.trans onward.checkpoint)
    · rcases List.mem_cons.mp left with rfl | left
      · exact .inl (taken kind)
      · exact .inr left
  · refine closed.imp_right fun done => ⟨?_, fun other found => ?_⟩
    · exact ends (done.2 event List.mem_cons_self) done.1
    · exact done.2 other (List.mem_cons_of_mem _ found)

theorem persisted_onward (persisted : RunStateV3.persist state = some stored) :
    stored.taskRevision = state.taskRevision ∧ stored.cursor.checkpointSeq = state.cursor.checkpointSeq ∧
      isTerminal stored = isTerminal state := by
  obtain ⟨version, nodeId, outcome, -, -, -, rfl⟩ := RunStateV3.persist_some_iff.mp persisted
  exact ⟨rfl, rfl, rfl⟩

theorem Sound.save (sound : Sound world) (concluded : Concluded (savedWorld world stored))
    (ahead : ∀ saved ∈ savedIn world.trace, saved.taskRevision.value ≤ stored.taskRevision.value) :
    Sound (savedWorld world stored) := by
  have added : savedIn (savedWorld world stored).trace = savedIn world.trace ++ [stored] :=
    savedIn_append
  refine ⟨sound.ascending, concluded, ?_, ?_⟩
  · rw [added]
    refine List.pairwise_append.mpr ⟨sound.rising, List.pairwise_singleton _ _, ?_⟩
    intro earlier found later last
    rw [List.mem_singleton.mp last]
    exact ahead earlier found
  · rw [added]
    intro saved found
    refine ⟨stored, rfl, ?_⟩
    rcases List.mem_append.mp found with found | last
    · exact ahead saved found
    · rw [List.mem_singleton.mp last]

theorem Held.save (held : Held live [] world) (persisted : RunStateV3.persist live = some stored) :
    Held live [] (savedWorld world stored) := by
  obtain ⟨revision, checkpoint, status⟩ := persisted_onward persisted
  obtain ⟨sound, behind, -, ahead⟩ := held
  have behind_ : ∀ event ∈ world.events, event.eventType = "node.completed" →
      event.seq ≤ live.cursor.checkpointSeq := fun event found kind =>
    (behind event found kind).resolve_right List.not_mem_nil
  have concluded : Concluded (savedWorld world stored) := by
    refine .inr fun state found event member kind => ?_
    cases found
    rw [checkpoint]
    exact behind_ event member kind
  refine ⟨sound.save concluded fun saved found => revision ▸ ahead saved found, behind, ?_, ?_⟩
  · cases terminal : isTerminal live with
    | true => exact .inr ⟨rfl, fun _ found => absurd found List.not_mem_nil⟩
    | false =>
      refine .inl fun state found stopped => ?_
      cases found
      rw [status, terminal] at stopped
      cases stopped
  · intro saved found
    rcases List.mem_append.mp (savedIn_append ▸ found) with found | last
    · exact ahead saved found
    · rw [List.mem_singleton.mp last, revision]

theorem Sound.failed (sound : Sound world) (found : world.snapshot = some state)
    (going : isTerminal state = false) (failed : outcome.status = .failed)
    (persisted : RunStateV3.persist (withOutcome state outcome now) = some stored) :
    Sound (savedWorld world stored) := by
  have revision : stored.taskRevision = state.taskRevision :=
    (persisted_onward persisted).1.trans
      (congrArg RunData.taskRevision (withOutcome_data state outcome now))
  refine sound.save (.inl fun shown same _ => ?_) fun saved member => ?_
  · cases same
    obtain ⟨version, nodeId, kept, -, -, parsed, rfl⟩ :=
      RunStateV3.persist_some_iff.mp persisted
    have ended : (withOutcome state outcome now).outcome = some outcome := by
      simp only [withOutcome, going, Bool.false_eq_true, if_false]
    rw [ended] at parsed
    rcases optionalField_some_iff.mp parsed with ⟨absurdity, -⟩ |
      ⟨value, result, first, second, rfl⟩
    · cases absurdity
    · cases first
      obtain ⟨itemId, -, rfl⟩ := RunOutcome.persist_some_iff.mp second
      exact failed
  · obtain ⟨latest, same, below⟩ := sound.latest saved member
    rw [found] at same
    cases same
    rw [revision]
    exact below

/-- A stored run is held again with the completions after its checkpoint still to come. -/
theorem Sound.loaded (sound : Sound world) (found : world.snapshot = some state) :
    Held state (world.events.filter fun event => state.cursor.checkpointSeq < event.seq) world := by
  refine ⟨sound, fun event member _ => ?_, ?_, fun saved member => ?_⟩
  · by_cases before : event.seq ≤ state.cursor.checkpointSeq
    · exact .inl before
    · exact .inr (List.mem_filter.mpr ⟨member, by simpa using Nat.lt_of_not_le before⟩)
  · cases terminal : isTerminal state with
    | false =>
      refine .inl fun stored same stopped => ?_
      rw [found] at same
      cases same
      rw [terminal] at stopped
      cases stopped
    | true =>
      refine sound.concluded.imp_right fun behind => ⟨rfl, fun event left kind => ?_⟩
      obtain ⟨member, later⟩ := List.mem_filter.mp left
      have before := behind state found event member kind
      have above : state.cursor.checkpointSeq < event.seq := of_decide_eq_true later
      omega
  · obtain ⟨latest, same, below⟩ := sound.latest saved member
    rw [found] at same
    cases same
    exact below

theorem Sound.fresh (sound : Sound world) (none_ : world.snapshot = none) :
    Held (initialState kernel identity now) (world.events.filter fun event => 0 < event.seq)
      world := by
  refine ⟨sound, fun event member _ => ?_, .inl fun state found => ?_, fun saved member => ?_⟩
  · rcases Nat.eq_zero_or_pos event.seq with first | positive
    · exact .inl first.le
    · exact .inr (List.mem_filter.mpr ⟨member, by simpa using positive⟩)
  · rw [none_] at found
    cases found
  · obtain ⟨state, found, -⟩ := sound.latest saved member
    rw [none_] at found
    cases found

end

section
variable {identity : RunIdentity}

theorem reduceAfterMiddleware_ends
    (reduced : reduceAfterMiddleware kernel live payload seq now = .ok next)
    (terminal : isTerminal live = true) : isTerminal next = true :=
  (isTerminal_congr (reduceAfterMiddleware_terminal terminal reduced).1).trans terminal

theorem Held.replayed (held : Held live (event :: rest) world)
    (replayed : replayEvent kernel live pending event now = .ok (next, after)) :
    Held next rest world := by
  rcases replayEvent_cases replayed with ⟨kind, rfl, -⟩ |
    ⟨kind, completed, node, -, -, -, reduced, -⟩ |
    ⟨kind, waiting, payload, -, -, -, reduced, -⟩ | ⟨other, rfl, -⟩
  · refine held.replay ⟨le_rfl, le_max_left _ _⟩ (fun _ => id) fun completed => ?_
    rw [kind] at completed
    simp at completed
  · have checkpoint := reduceCompletedNode_checkpoint reduced
    exact held.replay (reduceCompletedNode_onward reduced)
      (fun uncompleted => absurd kind uncompleted) fun _ => by omega
  · refine held.replay (reduceAfterMiddleware_onward reduced)
      (fun _ => reduceAfterMiddleware_ends reduced) fun completed => ?_
    rw [kind] at completed
    simp at completed
  · refine held.replay ⟨le_rfl, le_rfl⟩ (fun _ => id) fun completed => ?_
    simp [isNodeEvent, completed] at other

/-- Neither a stored end nor a stored revision is ever taken back. -/
theorem keeps_sound : KeepsWithin kernel identity around (fun _ _ _ => True) Sound Held
      fun live _ => Held live [] where
  idle_respects := respects_sound
  held_respects _ _ := respects_held
  inside_respects _ _ := respects_held
  cut held := held.sound
  cutInside held := held.sound
  ascending sound := sound.ascending
  returns _ _ := returns_anything _
  entered held _ := held.observe rfl
  called _ held := held.observe rfl
  effect := by
    intro live node world effect now held
    refine held.record rfl ⟨le_rfl, le_rfl⟩ id fun completed => ?_
    cases found : effect.1 <;> simp [found, EffectEventType.name] at completed
  left _ held := held.observe rfl
  hooked _ held := held.observe rfl
  failing sound _ _ _ := sound.observe rfl
  failed sound found going failed persisted := sound.failed found going failed persisted
  finished sound := sound.observe rfl
  loaded sound found := sound.loaded found
  fresh _ sound none_ := sound.fresh none_
  replayed held replayed := held.replayed replayed
  started := by
    intro live world event now held seq kind
    exact held.start now seq kind
  completed := by
    intro live world node result commands event held going completion seq kind carried
    have open_ : Unfinished world := held.closed.resolve_right fun ended => by
      rw [going] at ended
      cases ended.1
    refine ⟨held.sound.record seq fun _ => open_, fun _ now next reduced => ?_⟩
    have checkpoint := reduceCompletedNode_checkpoint reduced
    refine held.record seq (reduceCompletedNode_onward reduced) (fun ended => ?_)
      fun _ => ⟨open_, by omega⟩
    rw [going] at ended
    cases ended
  committed := by
    intro live rest world pending answer commands event held _ _ seq kind carried
    have other : event.eventType ≠ "node.completed" := by
      rw [kind]
      decide
    refine ⟨held.sound.record seq fun completed => absurd completed other, fun _ now next reduced => ?_⟩
    exact held.record seq (reduceAfterMiddleware_onward reduced)
      (reduceAfterMiddleware_ends reduced) fun completed => absurd completed other
  saved held persisted := held.save persisted
  ended := by
    intro live applied world commands outcome now held _ done
    have onward := applyCommands_onward done
    refine held.moves ⟨?_, ?_⟩ fun _ => withOutcome_ends applied outcome now
    · exact onward.revision.trans (congrArg (fun data => data.taskRevision.value)
        (withOutcome_data applied outcome now)).ge
    · rw [withOutcome_cursor]
      exact onward.checkpoint
  migrated := by
    intro live next world now held moved
    obtain ⟨status, checkpoint⟩ := migrateGraphState_header moved
    exact held.moves ⟨(congrArg SafeNat.value (migrateGraphState_revision moved)).ge,
      checkpoint.ge⟩ fun ended => (isTerminal_congr status).trans ended
  relabelled := by
    intro live world held
    obtain ⟨data, status, checkpoint⟩ := migrateTerminal_data kernel live
    exact held.moves (onward_of_data data checkpoint.ge) fun ended => status.trans ended
  marked now held going := by
    refine held.moves ⟨le_rfl, le_rfl⟩ fun ended => ?_
    rw [going] at ended
    cases ended

/-- Runs of the identity one after another, each by a kernel of its own. -/
def runsOf (identity : RunIdentity) (world : RunWorld Ext)
    (runs : List (RuntimeKernel ExtAnswer × RunAttempt ExtAnswer)) : RunWorld Ext :=
  runs.foldl (fun world run => attemptRun run.1 identity world run.2) world

theorem runsOf_sound (sound : Sound world) (runs : List (RuntimeKernel ExtAnswer × RunAttempt ExtAnswer)) :
    Sound (runsOf identity world runs) := by
  induction runs generalizing world with
  | nil => exact sound
  | cons run rest ih => exact ih (attemptRun_within keeps_sound sound)

theorem sound_empty : Sound ({} : RunWorld Ext) := by
  refine ⟨List.Pairwise.nil, .inl fun state found _ => ?_, List.Pairwise.nil, fun saved found => ?_⟩
  · cases found
  · cases found

end

end QiongQi.RunConclusions
