import QiongQi.KeyedMaps

/-! `InMemoryApprovalGate`: approval requests and the resolvers of their promises, both in
maps under an id that `LocalToolHost` takes from the tool call alone. -/
namespace QiongQi.ApprovalGates
open Machines KeyedMaps

inductive ApprovalDecision where
  | allow | deny
  deriving DecidableEq

inductive ApprovalStatus where
  | pending | allowed | denied | expired
  deriving DecidableEq

structure ApprovalRequest where
  id : String
  threadId : String
  turnId : String
  toolName : String
  summary : String
  status : ApprovalStatus
  createdAt : String
  decidedAt : Option String := none
  reason : Option String := none
  deriving DecidableEq

/-- The tool call that needs an approval, in its thread and turn. -/
structure ApprovalCall where
  threadId : String
  turnId : String
  callId : String
  toolName : String
  summary : String
  createdAt : String

/-- `createApprovalRequest` as `LocalToolHost` calls it. -/
def createApprovalRequest (call : ApprovalCall) : ApprovalRequest :=
  { id := s!"appr_{call.callId}"
    threadId := call.threadId
    turnId := call.turnId
    toolName := call.toolName
    summary := call.summary
    status := .pending
    createdAt := call.createdAt }

def ApprovalDecision.status : ApprovalDecision → ApprovalStatus
  | .allow => .allowed
  | .deny => .denied

def resolveApprovalRequest (request : ApprovalRequest) (decision : ApprovalDecision)
    (reason : Option String) (decidedAt : String) : ApprovalRequest :=
  { request with status := decision.status, reason, decidedAt := some decidedAt }

/-- The promises are numbered as they are made; a resolver is the number of its promise. -/
structure Gate where
  approvals : List ApprovalRequest := []
  resolvers : List (String × Nat) := []
  promises : List (Option ApprovalDecision) := []

def Gate.request (gate : Gate) (approval : ApprovalRequest) : Gate where
  approvals := setEntry ApprovalRequest.id approval gate.approvals
  resolvers := setEntry Prod.fst (approval.id, gate.promises.length) gate.resolvers
  promises := gate.promises ++ [none]

/-- `resolver?.resolve(decision)`. -/
def resolvePromise (promises : List (Option ApprovalDecision)) (decision : ApprovalDecision) :
    Option (String × Nat) → List (Option ApprovalDecision)
  | none => promises
  | some (_, number) => promises.set number (some decision)

/-- The gate after a decision, and whether it knew the id. -/
def Gate.decide (gate : Gate) (approvalId : String) (decision : ApprovalDecision)
    (reason : Option String) (decidedAt : String) : Gate × Bool :=
  match find ApprovalRequest.id approvalId gate.approvals with
  | none => (gate, false)
  | some approval =>
    ({ approvals := setEntry ApprovalRequest.id
          (resolveApprovalRequest approval decision reason decidedAt) gate.approvals
       resolvers := drop Prod.fst approvalId gate.resolvers
       promises := resolvePromise gate.promises decision
          (find Prod.fst approvalId gate.resolvers) }, true)

/-- `requests` lists what was requested, and `decisions` what was decided and for which of
the requests. -/
structure World where
  gate : Gate := {}
  requests : List ApprovalRequest := []
  decisions : List (Nat × ApprovalDecision) := []

/-- A decision is made for one request, but `decide` is called with no more than its id. -/
inductive Action
  | request (call : ApprovalCall)
  | decide (number : Nat) (decision : ApprovalDecision) (reason : Option String)
      (decidedAt : String)

def step (world : World) : Action → Option World
  | .request call =>
    some { world with
      gate := world.gate.request (createApprovalRequest call)
      requests := world.requests ++ [createApprovalRequest call] }
  | .decide number decision reason decidedAt =>
    world.requests[number]?.map fun request =>
      { world with
        gate := (world.gate.decide request.id decision reason decidedAt).1
        decisions := world.decisions ++ [(number, decision)] }

/-- The first decision that was made for a request. -/
def firstDecision (world : World) (number : Nat) : Option ApprovalDecision :=
  (world.decisions.find? fun entry => entry.1 = number).map (·.2)

def statusAfter : Option ApprovalDecision → ApprovalStatus
  | none => .pending
  | some decision => decision.status

def storedStatus (world : World) (approvalId : String) : Option ApprovalStatus :=
  (find ApprovalRequest.id approvalId world.gate.approvals).map (·.status)

/-- The promise of each request is open until the request is decided and has the first
decision that was made for it, and the stored status says the same. -/
def Served (world : World) : Prop :=
  ∀ (number : Nat) request, world.requests[number]? = some request →
    world.gate.promises[number]? = some (firstDecision world number) ∧
      storedStatus world request.id = some (statusAfter (firstDecision world number))

/-- A request whose id no decided request has; or a decision for a request that has its id
alone and is undecided, or one that says what was decided. -/
def apart (world : World) : Action → Prop
  | .request call => ∀ number < world.requests.length,
      (world.requests[number]?.map (·.id)) = some (createApprovalRequest call).id →
        firstDecision world number = none
  | .decide number decision _ _ =>
    firstDecision world number = some decision ∨ firstDecision world number = none ∧
      ∀ other < world.requests.length,
        world.requests[other]?.map (·.id) = world.requests[number]?.map (·.id) → other = number

instance (world : World) : ∀ action, Decidable (apart world action)
  | .request _ => inferInstanceAs (Decidable (∀ number < world.requests.length, _ → _))
  | .decide _ _ _ _ => inferInstanceAs (Decidable (_ ∨ _ ∧ _))

/-- No request after this one has its id. -/
def Last (world : World) (number : Nat) (approvalId : String) : Prop :=
  ∀ (later : Nat) request, number < later → world.requests[later]? = some request → request.id ≠ approvalId

/-- What holds after every run: a resolver is that of the last request with its id and its
promise is open, and the last request with an id has its resolver until it is decided. -/
structure Wired (world : World) : Prop where
  counted : world.gate.promises.length = world.requests.length
  keyedApprovals : Keyed ApprovalRequest.id world.gate.approvals
  keyedResolvers : Keyed Prod.fst world.gate.resolvers
  stored : ∀ (number : Nat) request, world.requests[number]? = some request →
    (find ApprovalRequest.id request.id world.gate.approvals).isSome = true
  resolving : ∀ approvalId number, (approvalId, number) ∈ world.gate.resolvers →
    world.requests[number]?.map (·.id) = some approvalId ∧
      world.gate.promises[number]? = some none ∧ Last world number approvalId
  resolvable : ∀ (number : Nat) request, world.requests[number]? = some request →
    Last world number request.id →
      (request.id, number) ∈ world.gate.resolvers ∨ world.gate.promises[number]? ≠ some none
  decided : ∀ entry ∈ world.decisions, entry.1 < world.requests.length

theorem wired_empty : Wired {} where
  counted := rfl
  keyedApprovals := fun _ held => by cases held
  keyedResolvers := fun _ held => by cases held
  stored := fun _ _ held => by simp at held
  resolving := fun _ _ held => by cases held
  resolvable := fun _ _ held => by simp at held
  decided := fun _ held => by cases held

variable {decision : ApprovalDecision}

theorem wired_request (wired : Wired world) (stepped : step world (.request call) = some next) :
    Wired next := by
  cases stepped
  generalize createApprovalRequest call = approval
  have counted := wired.counted
  refine ⟨?_, keyed_setEntry wired.keyedApprovals, keyed_setEntry wired.keyedResolvers, ?_, ?_, ?_, ?_⟩
  · simp [Gate.request, counted]
  · intro number request found
    show (find ApprovalRequest.id request.id
      (setEntry ApprovalRequest.id approval world.gate.approvals)).isSome = true
    by_cases same : approval.id = request.id
    · rw [← same, find_setEntry_self _ wired.keyedApprovals]
      rfl
    · rw [find_setEntry_other wired.keyedApprovals same]
      rcases List.mem_append.mp (List.mem_of_getElem? found) with held | last
      · obtain ⟨earlier, held⟩ := List.getElem?_of_mem held
        exact wired.stored earlier request held
      · exact absurd (congrArg ApprovalRequest.id (List.mem_singleton.mp last)).symm same
  · intro approvalId number held
    rcases mem_setEntry.mp held with made | ⟨held, other⟩
    · cases made
      refine ⟨by simp [counted], by simp [Gate.request], ?_⟩
      intro later request after found
      have bound := (List.getElem?_eq_some_iff.mp found).1
      rw [List.length_append, List.length_singleton] at bound
      omega
    · obtain ⟨named, open_, last⟩ := wired.resolving approvalId number held
      have bound : number < world.requests.length := by
        obtain ⟨request, found, -⟩ := Option.map_eq_some_iff.mp named
        exact (List.getElem?_eq_some_iff.mp found).1
      refine ⟨?_, ?_, ?_⟩
      · show ((world.requests ++ [approval])[number]?.map (·.id)) = some approvalId
        rw [List.getElem?_append_left bound]
        exact named
      · show (world.gate.promises ++ [none])[number]? = some none
        rw [List.getElem?_append_left (by omega)]
        exact open_
      · intro later request after found
        by_cases old : later < world.requests.length
        · refine last later request after ?_
          rwa [List.getElem?_append_left old] at found
        · rw [List.getElem?_append_right (by omega)] at found
          have made := List.mem_singleton.mp (List.mem_of_getElem? found)
          rw [made]
          exact fun same => other same.symm
  · intro number request found last
    by_cases old : number < world.requests.length
    · have held : world.requests[number]? = some request := by
        rwa [List.getElem?_append_left old] at found
      have apart_ : approval.id ≠ request.id := by
        refine last world.requests.length approval old ?_
        simp
      have before : Last world number request.id := by
        intro later other after foundOther
        have bound := (List.getElem?_eq_some_iff.mp foundOther).1
        refine last later other after ?_
        rw [List.getElem?_append_left bound]
        exact foundOther
      rcases wired.resolvable number request held before with resolver | settled
      · exact .inl (mem_setEntry.mpr (.inr ⟨resolver, fun same => apart_ same.symm⟩))
      · refine .inr ?_
        show (world.gate.promises ++ [none])[number]? ≠ some none
        rw [List.getElem?_append_left (by omega)]
        exact settled
    · have bound := (List.getElem?_eq_some_iff.mp found).1
      rw [List.length_append, List.length_singleton] at bound
      have here : number = world.requests.length := by omega
      subst here
      have made : request = approval := by simpa using found.symm
      subst made
      refine .inl (mem_setEntry.mpr (.inl ?_))
      rw [counted]
  · intro entry held
    rw [List.length_append]
    exact Nat.lt_add_right _ (wired.decided entry held)

/-- A resolver that is found settles its promise and no other. -/
theorem resolvePromise_other (other : ∀ entry, resolver = some entry → entry.2 ≠ number) :
    (resolvePromise promises decision resolver)[number]? = promises[number]? := by
  cases resolver with
  | none => rfl
  | some entry => exact List.getElem?_set_ne (other entry rfl)

theorem length_resolvePromise :
    (resolvePromise promises decision resolver).length = promises.length := by
  cases resolver with
  | none => rfl
  | some entry => exact List.length_set

theorem step_decide (wired : Wired world)
    (stepped : step world (.decide number decision reason decidedAt) = some next) :
    ∃ request approval, world.requests[number]? = some request ∧ approval.id = request.id ∧
      next = ⟨⟨setEntry ApprovalRequest.id
          (resolveApprovalRequest approval decision reason decidedAt) world.gate.approvals,
        drop Prod.fst request.id world.gate.resolvers,
        resolvePromise world.gate.promises decision
          (find Prod.fst request.id world.gate.resolvers)⟩,
        world.requests, world.decisions ++ [(number, decision)]⟩ := by
  obtain ⟨request, found, made⟩ := Option.map_eq_some_iff.mp stepped
  obtain ⟨approval, held⟩ := Option.isSome_iff_exists.mp (wired.stored number request found)
  refine ⟨request, approval, found, (find_mem held).2, ?_⟩
  rw [← made, Gate.decide, held]

theorem wired_decide (wired : Wired world)
    (stepped : step world (.decide number decision reason decidedAt) = some next) : Wired next := by
  obtain ⟨request, approval, found, named, rfl⟩ := step_decide wired stepped
  -- A resolver under another id is not the one that is called.
  have other : ∀ approvalId number, (approvalId, number) ∈ world.gate.resolvers →
      approvalId ≠ request.id → ∀ entry,
        find Prod.fst request.id world.gate.resolvers = some entry → entry.2 ≠ number := by
    intro approvalId number held apart_ entry called same
    obtain ⟨heldEntry, namedEntry⟩ := find_mem called
    have left := (wired.resolving approvalId number held).1
    have right := (wired.resolving entry.1 entry.2 heldEntry).1
    rw [same, left] at right
    exact apart_ ((Option.some.inj right).trans namedEntry)
  refine ⟨?_, keyed_setEntry wired.keyedApprovals, keyed_drop wired.keyedResolvers, ?_, ?_, ?_, ?_⟩
  · exact length_resolvePromise.trans wired.counted
  · intro earlier old held
    show (find ApprovalRequest.id old.id (setEntry ApprovalRequest.id _ _)).isSome = true
    by_cases same : request.id = old.id
    · have sameId : (resolveApprovalRequest approval decision reason decidedAt).id = old.id :=
        named.trans same
      rw [← sameId, find_setEntry_self _ wired.keyedApprovals]
      rfl
    · have apart_ : (resolveApprovalRequest approval decision reason decidedAt).id ≠ old.id :=
        fun sameId => same (named.symm.trans sameId)
      rw [find_setEntry_other wired.keyedApprovals apart_]
      exact wired.stored earlier old held
  · intro approvalId earlier held
    obtain ⟨held, apart_⟩ := mem_drop.mp held
    obtain ⟨sameId, open_, last⟩ := wired.resolving approvalId earlier held
    refine ⟨sameId, ?_, last⟩
    exact (resolvePromise_other (other approvalId earlier held apart_)).trans open_
  · intro earlier old held last
    show _ ∈ drop Prod.fst request.id world.gate.resolvers ∨
      (resolvePromise world.gate.promises decision _)[earlier]? ≠ some none
    rcases wired.resolvable earlier old held last with resolver | settled
    · by_cases same : old.id = request.id
      · have called : find Prod.fst request.id world.gate.resolvers = some (old.id, earlier) := by
          rw [← same]
          exact find_keyed wired.keyedResolvers resolver
        have bound : earlier < world.gate.promises.length := by
          rw [wired.counted]
          exact (List.getElem?_eq_some_iff.mp held).1
        refine .inr ?_
        rw [called]
        show (world.gate.promises.set earlier (some decision))[earlier]? ≠ some none
        rw [List.getElem?_set_self bound]
        simp
      · exact .inl (mem_drop.mpr ⟨resolver, same⟩)
    · refine .inr fun open_ => ?_
      cases called : find Prod.fst request.id world.gate.resolvers with
      | none =>
        rw [called] at open_
        exact settled open_
      | some entry =>
        rw [called] at open_
        by_cases here : entry.2 = earlier
        · have set_ : (world.gate.promises.set entry.2 (some decision))[earlier]? = some none :=
            open_
          rw [here, List.getElem?_set] at set_
          simp at set_
        · rw [resolvePromise_other fun _ same => Option.some.inj same ▸ here] at open_
          exact settled open_
  · intro entry held
    rcases List.mem_append.mp held with old | last
    · exact wired.decided entry old
    · rw [List.mem_singleton.mp last]
      exact (List.getElem?_eq_some_iff.mp found).1

theorem firstDecision_append (world : World) (decision : ApprovalDecision) :
    firstDecision { world with decisions := decisions ++ [(number, decision)] } other =
      (firstDecision { world with decisions } other).or
        (if number = other then some decision else none) := by
  unfold firstDecision
  rw [List.find?_append]
  cases (decisions.find? fun entry => entry.1 = other) with
  | some entry => rfl
  | none =>
    by_cases same : number = other
    · simp [same]
    · simp [same]

theorem statusAfter_injective {left right : Option ApprovalDecision}
    (same : statusAfter left = statusAfter right) : left = right := by
  rcases left with _ | _ | _ <;> rcases right with _ | _ | _ <;> first | rfl | cases same

theorem undecided_new (wired : Wired world) : firstDecision world world.requests.length = none := by
  have missing : (world.decisions.find? fun entry => entry.1 = world.requests.length) = none := by
    refine List.find?_eq_none.mpr fun entry held => ?_
    have bound := wired.decided entry held
    simp only [decide_eq_true_eq]
    omega
  rw [firstDecision, missing]
  rfl

theorem request_iff (wired : Wired world) (served : Served world)
    (stepped : step world (.request call) = some next) :
    apart world (.request call) ↔ Served next := by
  cases stepped
  have counted := wired.counted
  have pending : (createApprovalRequest call).status = .pending := rfl
  simp only [apart]
  generalize createApprovalRequest call = approval at *
  have status_same : storedStatus
      { world with
        gate := world.gate.request approval
        requests := world.requests ++ [approval] } approval.id = some .pending := by
    show (find ApprovalRequest.id approval.id (setEntry _ approval _)).map (·.status) = _
    rw [find_setEntry_self _ wired.keyedApprovals, Option.map_some, pending]
  constructor
  · intro fair number request found
    by_cases old : number < world.requests.length
    · have held : world.requests[number]? = some request := by
        rwa [List.getElem?_append_left old] at found
      obtain ⟨promise, status⟩ := served number request held
      refine ⟨?_, ?_⟩
      · show (world.gate.promises ++ [none])[number]? = some (firstDecision world number)
        rw [List.getElem?_append_left (by omega)]
        exact promise
      · by_cases same : approval.id = request.id
        · have undecided := fair number old (by rw [held, Option.map_some, same])
          show _ = some (statusAfter (firstDecision world number))
          rw [← same, undecided]
          exact status_same
        · show (find ApprovalRequest.id request.id (setEntry _ approval _)).map (·.status) = _
          rw [find_setEntry_other wired.keyedApprovals same]
          exact status
    · have bound := (List.getElem?_eq_some_iff.mp found).1
      rw [List.length_append, List.length_singleton] at bound
      have here : number = world.requests.length := by omega
      subst here
      have made : request = approval := by simpa using found.symm
      subst made
      have undecided := undecided_new wired
      refine ⟨?_, ?_⟩
      · show (world.gate.promises ++ [none])[world.requests.length]? =
          some (firstDecision world world.requests.length)
        rw [undecided, ← counted]
        simp
      · show _ = some (statusAfter (firstDecision world world.requests.length))
        rw [undecided]
        exact status_same
  · intro after number old named
    obtain ⟨request, held, same⟩ := Option.map_eq_some_iff.mp named
    obtain ⟨-, status⟩ := after number request (by rw [List.getElem?_append_left old]; exact held)
    rw [same, status_same] at status
    exact statusAfter_injective (Option.some.inj status).symm

theorem decide_iff (wired : Wired world) (served : Served world)
    (stepped : step world (.decide number decision reason decidedAt) = some next) :
    apart world (.decide number decision reason decidedAt) ↔ Served next := by
  obtain ⟨request, approval, found, named, made⟩ := step_decide wired stepped
  have bound := (List.getElem?_eq_some_iff.mp found).1
  have requests_same : next.requests = world.requests := by rw [made]
  have first : ∀ other, firstDecision next other =
      (firstDecision world other).or (if number = other then some decision else none) := by
    intro other
    rw [made]
    exact firstDecision_append world decision
  have status_here : storedStatus next request.id = some decision.status := by
    have sameId : (resolveApprovalRequest approval decision reason decidedAt).id = request.id :=
      named
    rw [made]
    show (find ApprovalRequest.id request.id (setEntry _ _ _)).map (·.status) = _
    rw [← sameId, find_setEntry_self _ wired.keyedApprovals]
    rfl
  have status_other : ∀ approvalId, request.id ≠ approvalId →
      storedStatus next approvalId = storedStatus world approvalId := by
    intro approvalId apart_
    have other : (resolveApprovalRequest approval decision reason decidedAt).id ≠ approvalId :=
      fun sameId => apart_ (named.symm.trans sameId)
    rw [made]
    show (find ApprovalRequest.id approvalId (setEntry _ _ _)).map (·.status) = _
    rw [find_setEntry_other wired.keyedApprovals other]
    rfl
  have promises_next : next.gate.promises = resolvePromise world.gate.promises decision
      (find Prod.fst request.id world.gate.resolvers) := by rw [made]
  obtain ⟨promise_number, status_number⟩ := served number request found
  simp only [apart]
  constructor
  · rintro (again | ⟨undecided, alone⟩) other old held
    · have silent : find Prod.fst request.id world.gate.resolvers = none := by
        -- A resolver under the id would be that of an undecided request.
        cases called : find Prod.fst request.id world.gate.resolvers with
        | none => rfl
        | some entry =>
          obtain ⟨heldEntry, namedEntry⟩ := find_mem called
          obtain ⟨sameId, open_, -⟩ := wired.resolving entry.1 entry.2 heldEntry
          obtain ⟨waiting, heldWaiting, namedWaiting⟩ := Option.map_eq_some_iff.mp sameId
          obtain ⟨promise, status⟩ := served entry.2 waiting heldWaiting
          rw [open_] at promise
          rw [namedWaiting, namedEntry, status_number, ← Option.some.inj promise, again] at status
          exact absurd (statusAfter_injective (Option.some.inj status)) (by simp)
      rw [requests_same] at held
      obtain ⟨promise, status⟩ := served other old held
      have same : firstDecision next other = firstDecision world other := by
        rw [first]
        by_cases here : number = other
        · rw [← here, again, if_pos rfl]
          rfl
        · rw [if_neg here, Option.or_none]
      rw [same]
      refine ⟨?_, ?_⟩
      · rw [promises_next, silent]
        exact promise
      · by_cases sameId : request.id = old.id
        · rw [← sameId, status_here]
          rw [← sameId, status_number, again] at status
          exact status
        · rw [status_other old.id sameId]
          exact status
    · have last : Last world number request.id := by
        intro later candidate after heldLater sameId
        have here := alone later (List.getElem?_eq_some_iff.mp heldLater).1
          (by rw [heldLater, found, Option.map_some, Option.map_some, sameId])
        omega
      have called : find Prod.fst request.id world.gate.resolvers = some (request.id, number) := by
        rcases wired.resolvable number request found last with resolver | settled
        · exact find_keyed wired.keyedResolvers resolver
        · rw [promise_number, undecided] at settled
          exact absurd rfl settled
      rw [requests_same] at held
      by_cases here : number = other
      · subst here
        have same : old = request := Option.some.inj (held.symm.trans found)
        have decided : firstDecision next number = some decision := by
          rw [first, undecided, if_pos rfl]
          rfl
        rw [decided, same]
        refine ⟨?_, status_here⟩
        have counted := wired.counted
        rw [promises_next, called]
        exact List.getElem?_set_self (by omega)
      · obtain ⟨promise, status⟩ := served other old held
        have apart_ : request.id ≠ old.id := by
          intro sameId
          refine here (alone other (List.getElem?_eq_some_iff.mp held).1 ?_).symm
          rw [held, found, Option.map_some, Option.map_some, sameId]
        rw [first, if_neg here, Option.or_none, status_other old.id apart_, promises_next, called,
          resolvePromise_other fun _ same => Option.some.inj same ▸ here]
        exact ⟨promise, status⟩
  · intro after
    have status_after : ∀ other old, world.requests[other]? = some old → old.id = request.id →
        firstDecision next other = some decision := by
      intro other old held sameId
      obtain ⟨-, status⟩ := after other old (by rw [requests_same]; exact held)
      rw [sameId, status_here] at status
      exact (@statusAfter_injective (some decision) _ (Option.some.inj status)).symm
    cases decided : firstDecision world number with
    | some earlier =>
      have same := status_after number request found rfl
      rw [first, decided] at same
      exact .inl same
    | none =>
      refine .inr ⟨rfl, fun other inside sameId => ?_⟩
      by_contra elsewhere
      rw [found, Option.map_some] at sameId
      obtain ⟨old, held, sameId⟩ := Option.map_eq_some_iff.mp sameId
      have same := status_after other old held sameId
      rw [first, if_neg fun here => elsewhere here.symm, Option.or_none] at same
      obtain ⟨-, status⟩ := served other old held
      rw [sameId, status_number, decided, same] at status
      exact absurd (statusAfter_injective (Option.some.inj status)) (by simp)

theorem apart_iff (world : World) (action : Action) (next : World)
    (holds : Wired world ∧ Served world) (stepped : step world action = some next) :
    apart world action ↔ Wired next ∧ Served next := by
  obtain ⟨wired, served⟩ := holds
  cases action with
  | request call =>
    rw [request_iff wired served stepped]
    exact (and_iff_right (wired_request wired stepped)).symm
  | decide number decision reason decidedAt =>
    rw [decide_iff wired served stepped]
    exact (and_iff_right (wired_decide wired stepped)).symm

theorem wired_step (world : World) (action : Action) (next : World) (wired : Wired world)
    (stepped : step world action = some next) : Wired next := by
  cases action with
  | request call => exact wired_request wired stepped
  | decide number decision reason decidedAt => exact wired_decide wired stepped

theorem served_empty : Served {} := fun _ _ found => by simp at found

/-- In a run, every request has its own first decision at every moment, just where each
request has an id that no decided request has and each decision is for a request that has its
id alone or says again what was decided. -/
theorem decisions_served_iff (actions : List Action) (final : World)
    (ran : runActions step {} actions = some final) :
    (∀ front back middle, actions = front ++ back → runActions step {} front = some middle → Served middle) ↔
      Along step apart {} actions :=
  along_iff_reached_beside wired_step apart_iff actions wired_empty served_empty ran

section Example

private def callOf (threadId : String) : ApprovalCall where
  threadId := threadId
  turnId := s!"turn_{threadId}"
  callId := "call_0"
  toolName := "bash"
  summary := "Run bash"
  createdAt := "2026-01-01T00:00:00Z"

private def secondCall : ApprovalCall :=
  { callOf "thread_b" with callId := "call_1" }

private def decidedInTurn : List Action :=
  [.request (callOf "thread_a"), .request secondCall, .decide 1 .deny none "2026-01-01T00:00:01Z",
    .decide 0 .allow none "2026-01-01T00:00:02Z", .decide 0 .allow none "2026-01-01T00:00:03Z"]

theorem decisions_served_two : ∃ final, runActions step {} decidedInTurn = some final ∧
    final.gate.promises = [some .allow, some .deny] ∧ Served final := by
  have ran : ∃ final, runActions step {} decidedInTurn = some final ∧
      final.gate.promises = [some .allow, some .deny] := by decide
  obtain ⟨final, ran, promises⟩ := ran
  have along : Along step apart {} decidedInTurn := by decide
  exact ⟨final, ran, promises, (decisions_served_iff decidedInTurn final ran).mpr along
    decidedInTurn [] final (List.append_nil _).symm ran⟩

private def sameCallIds : List Action :=
  [.request (callOf "thread_a"), .request (callOf "thread_b"), .decide 0 .deny none "2026-01-01T00:00:01Z"]

private def decidedTwice : List Action :=
  [.request (callOf "thread_a"), .decide 0 .deny none "2026-01-01T00:00:01Z",
    .decide 0 .allow none "2026-01-01T00:00:02Z"]

/-- The decision for one thread's request goes to the other thread's, and a second decision
changes what is stored of the first. -/
theorem decision_reaches_other :
    (∃ final, runActions step {} sameCallIds = some final ∧ final.decisions = [(0, .deny)] ∧
      final.gate.promises = [none, some .deny] ∧ ¬ Served final) ∧
    ∃ final, runActions step {} decidedTwice = some final ∧ final.gate.promises = [some .deny] ∧
      storedStatus final "appr_call_0" = some .allowed ∧ ¬ Served final := by
  constructor
  · have ran : ∃ final, runActions step {} sameCallIds = some final ∧
        final.decisions = [(0, .deny)] ∧ final.gate.promises = [none, some .deny] ∧
        final.requests = [createApprovalRequest (callOf "thread_a"),
          createApprovalRequest (callOf "thread_b")] := by decide
    obtain ⟨final, ran, decisions, promises, requests⟩ := ran
    refine ⟨final, ran, decisions, promises, fun served => ?_⟩
    obtain ⟨promise, -⟩ := served 0 _ (by rw [requests]; rfl)
    rw [promises, firstDecision, decisions] at promise
    cases promise
  · have ran : ∃ final, runActions step {} decidedTwice = some final ∧
        final.decisions = [(0, .deny), (0, .allow)] ∧ final.gate.promises = [some .deny] ∧
        storedStatus final "appr_call_0" = some .allowed ∧
        final.requests = [createApprovalRequest (callOf "thread_a")] := by decide
    obtain ⟨final, ran, decisions, promises, stored, requests⟩ := ran
    refine ⟨final, ran, promises, stored, fun served => ?_⟩
    obtain ⟨-, status⟩ := served 0 _ (by rw [requests]; rfl)
    have named : (createApprovalRequest (callOf "thread_a")).id = "appr_call_0" := by decide
    rw [named, stored, firstDecision, decisions] at status
    cases status

end Example

end QiongQi.ApprovalGates
