import QiongQi.HandoffDelivery
import QiongQi.MailboxStores

/-! The intents of an outbox by name: each has an identifier of its own, and an operation
adds one intent at most, behind all others. -/
namespace QiongQi.OutboxIntents
open AgentGraphs Mailboxes MultiAgentRuns MultiAgentStores MultiAgentInterleavings
open HandoffDelivery Machines RuntimeContracts

def hexDigits : List Char := "0123456789abcdef".toList

def IsHex (text : String) : Prop := ∀ c ∈ text.toList, c ∈ hexDigits

instance (text : String) : Decidable (IsHex text) := List.decidableBAll (· ∈ hexDigits) text.toList

/-- `createHash('sha256').digest('hex')` is written in the sixteen hex digits. -/
def HexDigest (platform : Platform) : Prop := ∀ parts, IsHex (platform.sha256Hex parts)

theorem key_isHex (hex : HexDigest platform) (run : MultiAgentRun) (input : HandoffInput) :
    IsHex (handoffIdempotencyKey platform run input) := by
  intro c held
  unfold handoffIdempotencyKey at held
  rw [String.toList_ofList] at held
  exact hex _ c (List.mem_of_mem_take held)

theorem jsTrim_of_solid (solid : ∀ c ∈ text.toList, isJsSpace c = false) : jsTrim text = text := by
  have kept : ∀ chars : List Char, (∀ c ∈ chars, isJsSpace c = false) → chars.dropWhile isJsSpace = chars := by
    intro chars all
    cases chars with
    | nil => rfl
    | cons c rest => simp [List.dropWhile, all c (by simp)]
  unfold jsTrim trimChars
  rw [kept _ solid, kept _ fun c held => solid c (List.mem_reverse.mp held), List.reverse_reverse,
    String.ofList_toList]

private theorem solid_of_all {chars : List Char} (all : chars.all (isJsSpace · = false) = true) :
    ∀ c ∈ chars, isJsSpace c = false :=
  fun c held => of_decide_eq_true (List.all_eq_true.mp all c held)

theorem hex_solid {c : Char} (hex : c ∈ hexDigits) : isJsSpace c = false := by
  have all : ∀ c ∈ hexDigits, isJsSpace c = false := solid_of_all (by decide)
  exact all c hex

theorem jsTrim_named (solid : ∀ c ∈ label.toList, isJsSpace c = false) (hex : IsHex key) :
    jsTrim (label ++ key) = label ++ key := by
  apply jsTrim_of_solid
  intro c held
  rw [String.toList_append, List.mem_append] at held
  rcases held with held | held
  · exact solid c held
  · exact hex_solid (hex c held)

/-- A digest never reads as the name of a completion. -/
theorem outbox_names_apart (hex : IsHex key) : "outbox_" ++ key ≠ "outbox_complete_" ++ rest := by
  intro same
  have split : "outbox_complete_" ++ rest = "outbox_" ++ ("complete_" ++ rest) := by
    rw [← String.append_assoc]
    rfl
  rw [split, String.append_right_inj] at same
  have member : 'o' ∈ key.toList := by
    rw [same, String.toList_append]
    exact List.mem_append_left _ (by decide)
  have digit := hex 'o' member
  revert digit
  decide

/-- The identifier of an intent says which handoff it delivers, or which message it completes. -/
def WellNamed (intent : OutboxIntent) : Prop :=
  ∃ key, IsHex key ∧ match intent.kind with
    | .mailboxEnqueue message => intent.outboxId = "outbox_" ++ key ∧
      message.messageId = "msg_" ++ key ∧ message.envelopeId = "env_" ++ key
    | .mailboxComplete messageId _ _ =>
      intent.outboxId = "outbox_complete_" ++ messageId ∧ messageId = "msg_" ++ key

theorem wellNamed_publish (named : WellNamed intent) :
    WellNamed (publishIntent outboxId intent) := by
  unfold publishIntent
  split
  · exact named
  · exact named

/-- What an operation makes of an outbox: nothing, or one more intent, which is pending and
has a name of its own. -/
inductive OutboxGrowth (before : List OutboxIntent) : List OutboxIntent → Prop where
  | kept : OutboxGrowth before before
  | added (intent : OutboxIntent) (pending : intent.status = .pending) (named : WellNamed intent)
      (fresh : ∀ other ∈ before, other.outboxId ≠ intent.outboxId) :
      OutboxGrowth before (before ++ [intent])

theorem ensureHandoff_growth (hex : HexDigest platform) (named : ∀ intent ∈ run.outbox, WellNamed intent)
    (ensured : ensureHandoffOutboxIntent platform run input now = .ok next) :
    OutboxGrowth run.outbox next.outbox := by
  rcases ensureHandoffOutboxIntent_ok ensured with ⟨-, rfl⟩ | ⟨unknown, message, created, rfl⟩
  · exact .kept
  · obtain ⟨name, envelope, -, -, -⟩ := createHandoffMessage_ok created
    have digest := key_isHex hex run input
    refine .added _ rfl ⟨_, digest, rfl, name, envelope⟩ fun other held same => ?_
    obtain ⟨key, hexKey, names⟩ := named other held
    cases kind : other.kind with
    | mailboxEnqueue known =>
      simp only [kind] at names
      have sameKey : key = handoffIdempotencyKey platform run input := by
        rwa [names.1, String.append_right_inj] at same
      have enqueues : run.outbox.any
          (OutboxIntent.enqueuesEnvelope (handoffEnvelopeId platform run input)) = true := by
        apply List.any_eq_true.mpr
        refine ⟨other, held, ?_⟩
        simp [OutboxIntent.enqueuesEnvelope, kind, names.2.2, handoffEnvelopeId, sameKey]
      rw [unknown] at enqueues
      cases enqueues
    | mailboxComplete messageId status fence =>
      simp only [kind] at names
      rw [names.1] at same
      exact outbox_names_apart digest same.symm

theorem ensureComplete_growth (hex : IsHex key) (ownName : completion.messageId = "msg_" ++ key)
    (named : ∀ intent ∈ run.outbox, WellNamed intent)
    (ensured : ensureMailboxCompleteOutboxIntent run completion = .ok next) :
    OutboxGrowth run.outbox next.outbox ∧ ∀ kind ∈ kindsOf next,
      kind ∈ kindsOf run ∨ kind = .mailboxComplete completion.messageId completion.status completion.fence := by
  rcases ensureMailboxCompleteOutboxIntent_new ensured with rfl | ⟨unknown, messageId, parsed, rfl⟩
  · exact ⟨.kept, fun kind held => .inl held⟩
  · have trimmed : jsTrim completion.messageId = completion.messageId := by
      rw [ownName]
      exact jsTrim_named (solid_of_all (by decide)) hex
    have whole : messageId.text = completion.messageId := by
      unfold NonEmptyString.parse at parsed
      split at parsed
      · cases parsed
        exact trimmed
      · cases parsed
    have outboxName : jsTrim ("outbox_complete_" ++ completion.messageId) =
        "outbox_complete_" ++ completion.messageId := by
      rw [ownName, ← String.append_assoc]
      exact jsTrim_named (solid_of_all (by decide)) hex
    constructor
    · refine .added _ rfl ⟨key, hex, by rw [outboxName, whole], by rw [whole, ownName]⟩ ?_
      intro other held same
      obtain ⟨otherKey, hexKey, names⟩ := named other held
      rw [outboxName] at same
      cases kind : other.kind with
      | mailboxEnqueue known =>
        simp only [kind] at names
        rw [names.1] at same
        exact outbox_names_apart hexKey same
      | mailboxComplete known status fence =>
        simp only [kind] at names
        have sameId : known = completion.messageId := by
          rwa [names.1, String.append_right_inj] at same
        have completes : run.outbox.any (OutboxIntent.completesMessage completion.messageId) = true := by
          apply List.any_eq_true.mpr
          exact ⟨other, held, by simp [OutboxIntent.completesMessage, kind, sameId]⟩
        rw [unknown] at completes
        cases completes
    · intro kind held
      unfold kindsOf at held
      rw [List.map_append] at held
      rcases List.mem_append.mp held with old | new
      · exact .inl old
      · cases List.mem_singleton.mp new
        exact .inr (by rw [whole])

/-- The operations of the runtime and the claims; deliveries and marks belong to a flush. -/
def IsOperation : Action → Prop
  | .deliver .. | .mark .. => False
  | _ => True

/-- The completion of a message that comes with an action. -/
def completionOf : Action → Option MailboxCompletion
  | .completeTask input => input.mailboxCompletion
  | _ => none

theorem mutates_growth (mutates : Mutates platform graph action runId current next)
    (operation : IsOperation action) (hex : HexDigest platform)
    (named : ∀ intent ∈ current.outbox, WellNamed intent)
    (own : ∀ completion ∈ completionOf action, ∃ key, IsHex key ∧ completion.messageId = "msg_" ++ key) :
    OutboxGrowth current.outbox next.outbox ∧ ∀ messageId status fence,
      .mailboxComplete messageId status fence ∈ kindsOf next →
      .mailboxComplete messageId status fence ∈ kindsOf current ∨
        ∃ completion ∈ completionOf action, completion.messageId = messageId := by
  cases mutates with
  | handoff applied =>
    obtain ⟨node, moved, -, ensured, way⟩ := applyHandoff_ok applied
    obtain ⟨-, -, same⟩ := moved_extends way
    have step := ensureHandoff_growth hex (same ▸ named) ensured
    rw [same] at step
    refine ⟨step, fun messageId status fence held => .inl ?_⟩
    unfold kindsOf
    rw [← same]
    rcases ensureHandoffOutboxIntent_ok ensured with ⟨-, rfl⟩ | ⟨-, message, -, rfl⟩
    · exact held
    · unfold kindsOf at held
      rw [List.map_append] at held
      rcases List.mem_append.mp held with old | new
      · exact old
      · cases List.mem_singleton.mp new
  | completeTask completed =>
    obtain ⟨recorded, advanced, -, sameOutbox, lands, ends⟩ := completeTask_ok completed
    have same : advanced.outbox = current.outbox := lands.outbox.trans sameOutbox
    rcases ends with rfl | ⟨completion, given, ensured⟩
    · rw [kindsOf, kindsOf, same]
      exact ⟨.kept, fun _ _ _ held => .inl held⟩
    · obtain ⟨key, digest, ownName⟩ := own completion given
      obtain ⟨step, kinds⟩ := ensureComplete_growth digest ownName (same ▸ named) ensured
      rw [same] at step
      refine ⟨step, fun messageId status fence held => ?_⟩
      rcases kinds _ held with old | new
      · rw [kindsOf, same] at old
        exact .inl old
      · cases new
        exact .inr ⟨completion, given, rfl⟩
  | completeExternal completed =>
    obtain ⟨recorded, -, sameOutbox, lands⟩ := completeExternal_ok completed
    have same : next.outbox = current.outbox := lands.outbox.trans sameOutbox
    rw [kindsOf, kindsOf, same]
    exact ⟨.kept, fun _ _ _ held => .inl held⟩
  | mark => exact absurd operation id

section
variable {before after : List OutboxIntent}

section
variable (growth : OutboxGrowth before after)
include growth

theorem grown_named (named : ∀ intent ∈ before, WellNamed intent) :
    ∀ intent ∈ after, WellNamed intent := by
  intro intent held
  cases growth with
  | kept => exact named intent held
  | added new pending namedNew fresh =>
    rcases List.mem_append.mp held with old | added
    · exact named intent old
    · cases List.mem_singleton.mp added
      exact namedNew

theorem grown_distinct
    (distinct : (before.map OutboxIntent.outboxId).Nodup) : (after.map OutboxIntent.outboxId).Nodup := by
  cases growth with
  | kept => exact distinct
  | added new pending namedNew fresh =>
    rw [List.map_append, List.nodup_append]
    refine ⟨distinct, by simp, fun name old other added same => ?_⟩
    obtain ⟨intent, held, rfl⟩ := List.mem_map.mp old
    simp only [List.map_cons, List.map_nil, List.mem_singleton] at added
    exact fresh intent held (same.trans added)

theorem grown_keeps (held : intent ∈ before) : intent ∈ after := by
  cases growth with
  | kept => exact held
  | added new pending namedNew fresh => exact List.mem_append_left _ held

theorem grown_published (held : intent ∈ after)
    (published : intent.status = .published) : intent ∈ before := by
  cases growth with
  | kept => exact held
  | added new pending namedNew fresh =>
    rcases List.mem_append.mp held with old | added
    · exact old
    · cases List.mem_singleton.mp added
      rw [pending] at published
      cases published

end

end

@[simp] theorem publishIntent_outboxId (outboxId : String) (intent : OutboxIntent) :
    (publishIntent outboxId intent).outboxId = intent.outboxId := by
  unfold publishIntent
  split <;> rfl

theorem publishIntent_published (published : (publishIntent outboxId intent).status = .published) :
    intent.status = .published ∨ intent.outboxId = outboxId := by
  unfold publishIntent at published
  split at published
  · rename_i own
    exact .inr own
  · exact .inl published

theorem published_publishIntent (due : intent.status = .published ∨ intent.outboxId = outboxId) :
    (publishIntent outboxId intent).status = .published := by
  unfold publishIntent
  split
  · rfl
  · rename_i other
    exact due.resolve_right other

theorem mark_distinct (outboxId : String) (distinct : (run.outbox.map OutboxIntent.outboxId).Nodup) :
    ((markOutboxPublished run outboxId).outbox.map OutboxIntent.outboxId).Nodup := by
  simpa [markOutboxPublished, Function.comp_def] using distinct

theorem mark_named (outboxId : String) (named : ∀ intent ∈ run.outbox, WellNamed intent) :
    ∀ intent ∈ (markOutboxPublished run outboxId).outbox, WellNamed intent := by
  intro intent held
  obtain ⟨source, heldSource, rfl⟩ := List.mem_map.mp held
  exact wellNamed_publish (named source heldSource)

end QiongQi.OutboxIntents
