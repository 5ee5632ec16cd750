import QiongQi.StableOrders

/-! `middleware-chain.ts`: the order in which a chain runs its middleware. Anchors are edges of a
graph; a queue that is kept in the order of registration holds what has no edge left to it. -/
namespace QiongQi.MiddlewareChains
open StableOrders List

structure RuntimeMiddleware where
  id : String
  before : Option (List String) := none
  after : Option (List String) := none

/-- The keys of `byId`, in the order of insertion. -/
def registerIds : List RuntimeMiddleware → List String → Except String (List String)
  | [], byId => .ok byId
  | item :: rest, byId =>
    if item.id ∈ byId then .error s!"duplicate middleware: {item.id}"
    else registerIds rest (byId ++ [item.id])

structure Edges where
  indegree : String → Int := fun _ => 0
  outgoing : String → List String := fun _ => []

def addEdge (byId : List String) (edges : Edges) (source target : String) : Except String Edges :=
  if source ∉ byId then .error s!"unknown middleware anchor: {source}"
  else if target ∉ byId then .error s!"unknown middleware anchor: {target}"
  else if source = target then .error s!"middleware anchor cycle: {source}"
  else if target ∈ edges.outgoing source then .ok edges
  else .ok {
    indegree := Function.update edges.indegree target (edges.indegree target + 1)
    outgoing := Function.update edges.outgoing source (edges.outgoing source ++ [target]) }

def addAnchors (byId : List String) (edges : Edges) (item : RuntimeMiddleware) :
    Except String Edges := do
  let edges ← (item.before.getD []).foldlM
    (fun edges target => addEdge byId edges item.id target) edges
  (item.after.getD []).foldlM (fun edges target => addEdge byId edges target item.id) edges

structure Queue where
  indegree : String → Int
  ready : List String

/-- Before the first candidate that was registered later. -/
def insertReady (byId : List String) (target : String) : List String → List String
  | [] => [target]
  | candidate :: rest =>
    if byId.idxOf candidate > byId.idxOf target then target :: candidate :: rest
    else candidate :: insertReady byId target rest

def release (byId : List String) (queue : Queue) (target : String) : Queue :=
  let next := queue.indegree target - 1
  { indegree := Function.update queue.indegree target next
    ready := if next = 0 then insertReady byId target queue.ready else queue.ready }

/-- The loop while something is ready; every round puts another one into the order. -/
def drain (byId : List String) (outgoing : String → List String) : Nat → Queue → List String
  | 0, _ => []
  | more + 1, queue =>
    match queue.ready with
    | [] => []
    | id :: rest =>
      id :: drain byId outgoing more
        ((outgoing id).foldl (release byId) { queue with ready := rest })

/-- `new MiddlewareChain(middleware).ordered` -/
def newMiddlewareChain (middleware : List RuntimeMiddleware) :
    Except String (List RuntimeMiddleware) := do
  let byId ← registerIds middleware []
  let edges ← middleware.foldlM (addAnchors byId) {}
  let ready := byId.filter fun id => edges.indegree id = 0
  let order := drain byId edges.outgoing middleware.length ⟨edges.indegree, ready⟩
  if order.length ≠ middleware.length then .error "middleware anchor cycle"
  else .ok (order.filterMap fun id => middleware.find? fun item => item.id = id)

def ids (middleware : List RuntimeMiddleware) : List String := middleware.map RuntimeMiddleware.id

/-- The edges of one entry, in the order in which they are added. -/
def anchorsOf (item : RuntimeMiddleware) : List (String × String) :=
  (item.before.getD []).map (fun target => (item.id, target)) ++
    (item.after.getD []).map fun target => (target, item.id)

/-- An anchor puts the one before the other. -/
def Anchored (middleware : List RuntimeMiddleware) (one two : String) : Prop :=
  ∃ item ∈ middleware, item.id = one ∧ two ∈ item.before.getD [] ∨ item.id = two ∧ one ∈ item.after.getD []

/-- An anchor that is not registered. -/
def Unknown (middleware : List RuntimeMiddleware) : Prop :=
  ∃ item ∈ middleware, ∃ target ∈ item.before.getD [] ++ item.after.getD [], target ∉ ids middleware

def Cyclic (middleware : List RuntimeMiddleware) : Prop :=
  ∃ id, Relation.TransGen (Anchored middleware) id id

def Satisfies (middleware order : List RuntimeMiddleware) : Prop :=
  ∀ one two, Anchored middleware one two → (ids order).idxOf one < (ids order).idxOf two

/-- The places of registration, in the order of the chain. -/
def registration (middleware order : List RuntimeMiddleware) : List Nat :=
  places (ids middleware) (ids order)

theorem registerIds_eq :
    ∀ byId, byId.Nodup → (∃ message, registerIds middleware byId = .error message ∧
        ¬ (byId ++ ids middleware).Nodup) ∨
      registerIds middleware byId = .ok (byId ++ ids middleware) ∧ (byId ++ ids middleware).Nodup := by
  induction middleware with
  | nil =>
    intro byId distinct
    refine .inr ⟨?_, ?_⟩
    · rw [registerIds, ids, map_nil, append_nil]
    · rwa [ids, map_nil, append_nil]
  | cons item rest ih =>
    intro byId distinct
    rw [registerIds]
    split
    · rename_i held
      refine .inl ⟨_, rfl, fun apart => ?_⟩
      exact (nodup_append.mp apart).2.2 item.id held item.id mem_cons_self rfl
    · rename_i fresh
      have later := ih (byId ++ [item.id]) ?_
      · rw [append_assoc] at later
        exact later
      · rw [← concat_eq_append]
        exact distinct.concat fresh

/-- Both ends are registered and they differ. -/
def Proper (byId : List String) (edge : String × String) : Prop :=
  edge.1 ∈ byId ∧ edge.2 ∈ byId ∧ edge.1 ≠ edge.2

/-- What the maps hold for the edges added so far. -/
structure Held (byId : List String) (edges : Edges) (added : List (String × String)) : Prop where
  targets : ∀ one two, two ∈ edges.outgoing one ↔ (one, two) ∈ added
  distinct : ∀ one, (edges.outgoing one).Nodup
  counts : ∀ two, edges.indegree two = byId.countP fun one => two ∈ edges.outgoing one
  proper : ∀ edge ∈ added, Proper byId edge

theorem countP_without {byId : List String} (distinct : byId.Nodup) {id : String} (held : id ∈ byId) :
    byId.countP p = byId.countP (fun other => p other && other ≠ id) + if p id then 1 else 0 := by
  induction byId with
  | nil => cases held
  | cons first rest ih =>
    obtain ⟨fresh, later⟩ := nodup_cons.mp distinct
    rw [countP_cons, countP_cons]
    obtain rfl | inside := mem_cons.mp held
    · have same : rest.countP p = rest.countP fun other => p other && other ≠ id := by
        refine countP_congr fun other member => ?_
        have apart : other ≠ id := fun same => fresh (same ▸ member)
        simp [apart]
      rw [same]
      simp
    · have apart : first ≠ id := fun same => fresh (same ▸ inside)
      rw [ih later inside]
      simp [apart]
      omega

/-- The edges of all entries, in the order in which they are added. -/
def edgesOf (middleware : List RuntimeMiddleware) : List (String × String) :=
  middleware.flatMap anchorsOf

theorem foldlM_addAnchors : ∀ edges, middleware.foldlM (addAnchors byId) edges =
      (edgesOf middleware).foldlM (fun edges edge => addEdge byId edges edge.1 edge.2) edges := by
  induction middleware with
  | nil => exact fun _ => rfl
  | cons item rest ih =>
    intro edges
    simp only [edgesOf, flatMap_cons, foldlM_append, foldlM_cons, anchorsOf, foldlM_map, ih]
    rfl

variable {middleware : List RuntimeMiddleware}

theorem anchored_iff : Anchored middleware one two ↔ (one, two) ∈ edgesOf middleware := by
  simp only [Anchored, edgesOf, anchorsOf, mem_flatMap, mem_append, mem_map, Prod.mk.injEq]
  refine exists_congr fun item => and_congr_right fun _ => or_congr ?_ ?_
  · exact ⟨fun ⟨same, held⟩ => ⟨two, held, same, rfl⟩, fun ⟨_, held, same, ends⟩ => ⟨same, ends ▸ held⟩⟩
  · exact ⟨fun ⟨same, held⟩ => ⟨one, held, rfl, same⟩, fun ⟨_, held, ends, same⟩ => ⟨same, ends ▸ held⟩⟩

theorem addEdge_held {byId : List String} (distinct : byId.Nodup) (held : Held byId edges added)
    (proper : Proper byId (source, target)) : ∃ next,
    addEdge byId edges source target = .ok next ∧ Held byId next (added ++ [(source, target)]) := by
  have both : ∀ edge ∈ added ++ [(source, target)], Proper byId edge :=
    forall_mem_append.mpr ⟨held.proper, forall_mem_singleton.mpr proper⟩
  obtain ⟨known, known', apart⟩ := proper
  rw [addEdge, if_neg (not_not_intro known), if_neg (not_not_intro known'), if_neg apart]
  split
  · rename_i twice
    refine ⟨_, rfl, fun one two => ?_, held.distinct, held.counts, both⟩
    rw [held.targets, mem_append, mem_singleton, Prod.mk.injEq]
    refine ⟨Or.inl, fun inside => inside.elim id ?_⟩
    rintro ⟨rfl, rfl⟩
    exact (held.targets one two).mp twice
  · rename_i fresh
    refine ⟨_, rfl, fun one two => ?_, fun one => ?_, fun two => ?_, both⟩
    · rw [mem_append, mem_singleton, Prod.mk.injEq, ← held.targets]
      obtain rfl | other := eq_or_ne one source
      · simp
      · simp [other]
    · obtain rfl | other := eq_or_ne one source
      · simp only [Function.update_self, ← concat_eq_append]
        exact (held.distinct one).concat fresh
      · simp only [Function.update_of_ne other]
        exact held.distinct one
    · rw [countP_without distinct known]
      have others : (byId.countP fun other => decide (two ∈ Function.update edges.outgoing source
          (edges.outgoing source ++ [target]) other) && decide (other ≠ source)) =
          byId.countP fun other => decide (two ∈ edges.outgoing other) && decide (other ≠ source) :=
        countP_congr fun other _ => by
          obtain rfl | away := eq_or_ne other source
          · simp
          · simp [Function.update_of_ne away]
      have before := held.counts two
      rw [countP_without distinct known] at before
      obtain rfl | elsewhere := eq_or_ne two target
      · simp only [others, Function.update_self, before, mem_append, mem_singleton, fresh]
        simp
      · simp only [others, Function.update_self, Function.update_of_ne elsewhere, before,
          mem_append, mem_singleton, elsewhere, or_false]

theorem addEdges_held (distinct : byId.Nodup) : ∀ edges added, Held byId edges added →
    (∃ message, pending.foldlM (fun edges edge => addEdge byId edges edge.1 edge.2) edges =
        .error message ∧ ∃ edge ∈ pending, ¬ Proper byId edge) ∨
      ∃ next, pending.foldlM (fun edges edge => addEdge byId edges edge.1 edge.2) edges =
        .ok next ∧ Held byId next (added ++ pending) := by
  induction pending with
  | nil => exact fun edges added held => .inr ⟨edges, rfl, by rwa [append_nil]⟩
  | cons edge rest ih =>
    intro edges added held
    rw [foldlM_cons]
    by_cases proper : Proper byId edge
    · obtain ⟨next, stepped, held⟩ := addEdge_held distinct held proper
      rw [stepped]
      obtain ⟨message, failed, late, inside, wrong⟩ | ⟨last, reached, held⟩ := ih next _ held
      · exact .inl ⟨message, failed, late, mem_cons_of_mem _ inside, wrong⟩
      · exact .inr ⟨last, reached, by rwa [append_assoc] at held⟩
    · have failed : ∃ message, addEdge byId edges edge.1 edge.2 = .error message := by
        unfold addEdge
        split
        · exact ⟨_, rfl⟩
        · rename_i known
          split
          · exact ⟨_, rfl⟩
          · rename_i known'
            split
            · exact ⟨_, rfl⟩
            · rename_i apart
              exact absurd ⟨not_not.mp known, not_not.mp known', apart⟩ proper
      obtain ⟨message, failed⟩ := failed
      rw [failed]
      exact .inl ⟨message, rfl, edge, mem_cons_self, proper⟩

section
variable {byId : List String}

theorem mem_insertReady {id : String} :
    id ∈ insertReady byId target ready ↔ id = target ∨ id ∈ ready := by
  induction ready with
  | nil => rw [insertReady, mem_singleton, or_iff_left not_mem_nil]
  | cons candidate rest ih =>
    rw [insertReady]
    split
    · exact mem_cons
    · rw [mem_cons, ih, mem_cons, or_left_comm]

/-- In the order of registration. -/
def Sorted (byId ready : List String) : Prop :=
  ready.Pairwise fun one two => byId.idxOf one < byId.idxOf two

theorem insertReady_sorted (known : target ∈ byId) (fresh : target ∉ ready)
    (sorted : Sorted byId ready) : Sorted byId (insertReady byId target ready) := by
  induction ready with
  | nil => exact pairwise_singleton _ _
  | cons candidate rest ih =>
    obtain ⟨least, later⟩ := pairwise_cons.mp sorted
    obtain ⟨apart, fresh⟩ := ne_and_not_mem_of_not_mem_cons fresh
    rw [insertReady]
    split
    · rename_i less
      refine pairwise_cons.mpr ⟨fun other inside => ?_, sorted⟩
      obtain rfl | behind := mem_cons.mp inside
      · exact less
      · exact less.trans (least other behind)
    · rename_i notLess
      refine pairwise_cons.mpr ⟨fun other inside => ?_, ih fresh later⟩
      obtain rfl | behind := mem_insertReady.mp inside
      · have distinct : byId.idxOf candidate ≠ byId.idxOf other :=
          fun same => apart ((idxOf_inj known).mp same.symm)
        omega
      · exact least other behind

theorem foldl_release {targets : List String} : ∀ {queue : Queue}, targets.Nodup →
    (∀ target ∈ targets, target ∈ byId ∧ target ∉ queue.ready) → Sorted byId queue.ready →
    (∀ id, (targets.foldl (release byId) queue).indegree id =
      queue.indegree id - if id ∈ targets then 1 else 0) ∧
    (∀ id, id ∈ (targets.foldl (release byId) queue).ready ↔
      id ∈ queue.ready ∨ id ∈ targets ∧ queue.indegree id = 1) ∧
    Sorted byId (targets.foldl (release byId) queue).ready := by
  induction targets with
  | nil => exact fun _ _ sorted => ⟨by simp, by simp, sorted⟩
  | cons target rest ih =>
    intro queue distinct apart sorted
    obtain ⟨single, distinct⟩ := nodup_cons.mp distinct
    obtain ⟨⟨known, fresh⟩, others⟩ := forall_mem_cons.mp apart
    have ready : ∀ id, id ∈ (release byId queue target).ready ↔
        id ∈ queue.ready ∨ id = target ∧ queue.indegree target = 1 := by
      intro id
      rw [release]
      by_cases last : queue.indegree target = 1
      · simp [last, mem_insertReady, or_comm]
      · have more : queue.indegree target - 1 ≠ 0 := by omega
        simp [last, more]
    have sorted : Sorted byId (release byId queue target).ready := by
      rw [release]
      by_cases last : queue.indegree target - 1 = 0
      · simp only [last, if_true]
        exact insertReady_sorted known fresh sorted
      · simp only [last, if_false]
        exact sorted
    have away : ∀ id ∈ rest, id ∈ byId ∧ id ∉ (release byId queue target).ready := by
      intro id inside
      refine ⟨(others id inside).1, fun held => ?_⟩
      obtain held | ⟨rfl, -⟩ := (ready id).mp held
      · exact (others id inside).2 held
      · exact single inside
    obtain ⟨counts, members, sorted⟩ := ih distinct away sorted
    have count : ∀ id, (release byId queue target).indegree id =
        queue.indegree id - if id = target then 1 else 0 := by
      intro id
      obtain rfl | other := eq_or_ne id target
      · simp [release]
      · simp [release, other]
    rw [foldl_cons]
    refine ⟨fun id => ?_, fun id => ?_, sorted⟩
    · rw [counts, count]
      obtain rfl | other := eq_or_ne id target
      · simp [single]
      · simp [other]
    · rw [members, ready, count]
      obtain rfl | other := eq_or_ne id target
      · simp [single]
      · simp [other]

variable {outgoing : String → List String}

/-- The edges into a node from what is not done. -/
def remaining (byId : List String) (outgoing : String → List String) (done : List String)
    (id : String) : Nat :=
  byId.countP fun other => decide (id ∈ outgoing other) && decide (other ∉ done)

/-- What a chain has in its order and in its queue at the head of the loop. -/
structure Drained (byId : List String) (outgoing : String → List String) (done : List String)
    (queue : Queue) : Prop where
  picked : Picked byId (fun one two => two ∈ outgoing one) done
  ready : queue.ready = available byId (fun one two => two ∈ outgoing one) done
  counts : ∀ id, id ∉ done → queue.indegree id = remaining byId outgoing done id

variable {done : List String}

theorem available_iff {id : String} : id ∈ available byId (fun one two => two ∈ outgoing one) done ↔
      id ∈ byId ∧ id ∉ done ∧ remaining byId outgoing done id = 0 := by
  rw [mem_available, remaining, countP_eq_zero]
  simp

theorem remaining_next (distinct : byId.Nodup) {node : String} (known : node ∈ byId)
    (fresh : node ∉ done) (id : String) : remaining byId outgoing done id =
      remaining byId outgoing (done ++ [node]) id + if id ∈ outgoing node then 1 else 0 := by
  rw [remaining, countP_without distinct known, remaining]
  congr 1
  · refine countP_congr fun other _ => ?_
    simp [and_assoc]
  · simp [fresh]

section
variable (distinct : byId.Nodup)
variable (outgoing_nodup : ∀ one, (outgoing one).Nodup)
variable (known : ∀ one, ∀ two ∈ outgoing one, two ∈ byId)
include distinct outgoing_nodup known

theorem drain_step (drained : Drained byId outgoing done queue) (here : queue.ready = node :: rest) :
    Drained byId outgoing (done ++ [node])
      ((outgoing node).foldl (release byId) { queue with ready := rest }) := by
  have starts := drained.ready.symm.trans here
  have first := head?_eq_some_iff.mpr ⟨rest, starts⟩
  have picked := drained.picked.next first
  obtain ⟨inside, fresh, alone⟩ := available_iff.mp (mem_of_head? first)
  have sorted : (available byId (fun one two => two ∈ outgoing one) done).Pairwise _ :=
    available_sorted distinct done
  rw [starts] at sorted
  obtain ⟨least, sorted⟩ := pairwise_cons.mp sorted
  have count := @remaining_next byId outgoing done distinct node inside fresh
  -- A target of the node still waits for it.
  have waits : ∀ id ∈ outgoing node, id ∉ done ++ [node] ∧ id ∉ rest := by
    intro id edge
    refine ⟨fun held => ?_, fun held => ?_⟩
    · have less := (picked.earlier inside held edge).2
      have low := idxOf_lt_length_of_mem held
      rw [idxOf_append_of_notMem fresh, idxOf_cons_self] at less
      rw [length_append, length_singleton] at low
      omega
    · have free := (available_iff.mp (starts ▸ mem_cons_of_mem node held)).2.2
      rw [count, if_pos edge] at free
      omega
  let taken : Queue := { queue with ready := rest }
  have apart : ∀ id ∈ outgoing node, id ∈ byId ∧ id ∉ taken.ready :=
    fun id edge => ⟨known node id edge, (waits id edge).2⟩
  obtain ⟨counts, members, sorted⟩ := foldl_release (outgoing_nodup node) apart sorted
  refine ⟨picked, ?_, fun id away => ?_⟩
  · -- Both are in the order of registration, and have the same members.
    have sorted' :
        Sorted byId (available byId (fun one two => two ∈ outgoing one) (done ++ [node])) :=
      available_sorted distinct _
    have less : ∀ {ready : List String}, Sorted byId ready → ready.Nodup :=
      fun sorted => sorted.imp fun less same => (same ▸ less).false
    refine List.Perm.eq_of_pairwise (fun one two _ _ low high => (low.asymm high).elim)
      sorted sorted' ?_
    refine (perm_ext_iff_of_nodup (less sorted) (less sorted')).mpr fun id => ?_
    rw [members, available_iff]
    constructor
    · rintro (held | ⟨edge, last⟩)
      · obtain ⟨member, open_, free⟩ := available_iff.mp (starts ▸ mem_cons_of_mem node held)
        have apart : id ≠ node := fun same => (least id held).ne (same ▸ rfl)
        rw [count] at free
        exact ⟨member, by simp [open_, apart], by omega⟩
      · have last : queue.indegree id = 1 := last
        have away := (waits id edge).1
        have left := drained.counts id fun held => away (mem_append_left _ held)
        rw [count, if_pos edge] at left
        exact ⟨known node id edge, away, by omega⟩
    · rintro ⟨member, away, free⟩
      have open_ : id ∉ done := fun held => away (mem_append_left _ held)
      by_cases edge : id ∈ outgoing node
      · have left := drained.counts id open_
        rw [count, if_pos edge, free] at left
        exact .inr ⟨edge, left⟩
      · have ready : id ∈ available byId (fun one two => two ∈ outgoing one) done :=
          available_iff.mpr ⟨member, open_, by rw [count, if_neg edge, free]⟩
        rw [starts] at ready
        obtain rfl | later := mem_cons.mp ready
        · exact absurd (mem_append_right _ mem_cons_self) away
        · exact .inl later
  · rw [counts, drained.counts id fun held => away (mem_append_left _ held), count]
    split <;> simp

theorem drain_picked : ∀ more done queue,
    Drained byId outgoing done queue → done.length + more = byId.length →
      Picked byId (fun one two => two ∈ outgoing one) (done ++ drain byId outgoing more queue) ∧
      available byId (fun one two => two ∈ outgoing one)
        (done ++ drain byId outgoing more queue) = [] := by
  intro more
  induction more with
  | zero =>
    intro done queue drained whole
    rw [drain, append_nil]
    refine ⟨drained.picked, eq_nil_iff_forall_not_mem.mpr fun id ready => ?_⟩
    obtain ⟨member, open_, -⟩ := mem_available.mp ready
    have all := (drained.picked.nodup.subperm drained.picked.mem).perm_of_length_le
      (Nat.le_of_eq whole.symm)
    exact open_ (all.mem_iff.mpr member)
  | succ more ih =>
    intro done queue drained whole
    rw [drain]
    split
    · rename_i empty
      rw [append_nil]
      exact ⟨drained.picked, drained.ready ▸ empty⟩
    · rename_i node rest here
      have stepped := ih _ _ (drain_step distinct outgoing_nodup known drained here)
        (by rw [length_append, length_singleton]; omega)
      rwa [append_assoc] at stepped

end

end

theorem bind_ok (value : α) (next : α → Except String β) :
    (Except.ok value >>= next) = next value := rfl

theorem find_entry {id : String} (known : id ∈ ids middleware) :
    ∃ item, middleware.find? (fun item => item.id = id) = some item ∧ item.id = id := by
  obtain ⟨item, member, same⟩ := mem_map.mp known
  cases found : middleware.find? fun item => item.id = id with
  | none => exact absurd same (by simpa using find?_eq_none.mp found item member)
  | some entry => exact ⟨entry, rfl, by simpa using find?_some found⟩

theorem ids_entries {order : List String} (known : ∀ id ∈ order, id ∈ ids middleware) :
    ids (order.filterMap fun id => middleware.find? fun item => item.id = id) = order := by
  induction order with
  | nil => rfl
  | cons id rest ih =>
    obtain ⟨here, later⟩ := forall_mem_cons.mp known
    obtain ⟨item, found, same⟩ := find_entry here
    rw [filterMap_cons, found, ids, map_cons, same, ← ids, ih later]

theorem entries_ids (distinct : (ids middleware).Nodup) :
    ((ids middleware).filterMap fun id => middleware.find? fun item => item.id = id) = middleware := by
  rw [ids, filterMap_map]
  refine (filterMap_congr fun item member => ?_).trans filterMap_some
  obtain ⟨entry, found, same⟩ := find_entry (mem_map_of_mem member)
  rw [Function.comp_apply, found, inj_on_of_nodup_map distinct (mem_of_find?_eq_some found) member same]

theorem unknown_or_cyclic (added : edge ∈ edgesOf middleware)
    (wrong : ¬ Proper (ids middleware) edge) : Unknown middleware ∨ Cyclic middleware := by
  have anchored := anchored_iff.mpr added
  by_cases same : edge.1 = edge.2
  · exact .inr ⟨edge.1, .single (same ▸ anchored)⟩
  · obtain ⟨item, member, ⟨source, target⟩ | ⟨target, source⟩⟩ := anchored
    · have known : edge.1 ∈ ids middleware := source ▸ mem_map_of_mem member
      exact .inl ⟨item, member, edge.2, mem_append_left _ target, fun known' => wrong ⟨known, known', same⟩⟩
    · have known : edge.2 ∈ ids middleware := target ▸ mem_map_of_mem member
      exact .inl ⟨item, member, edge.1, mem_append_right _ source, fun known' => wrong ⟨known', known, same⟩⟩

theorem proper_known (proper : ∀ edge ∈ edgesOf middleware, Proper (ids middleware) edge) :
    ¬ Unknown middleware := by
  rintro ⟨item, member, target, anchor, missing⟩
  obtain before | after := mem_append.mp anchor
  · exact missing (proper (item.id, target)
      (anchored_iff.mp ⟨item, member, .inl ⟨rfl, before⟩⟩)).2.1
  · exact missing (proper (target, item.id) (anchored_iff.mp ⟨item, member, .inr ⟨rfl, after⟩⟩)).1

/-- The constructor throws at an id that is registered twice, at an anchor that is not registered
and at a cycle of anchors. Else the chain keeps to the anchors, and to the order of registration
where they leave a choice. -/
theorem newMiddlewareChain_order (middleware : List RuntimeMiddleware) :
    ((∃ message, newMiddlewareChain middleware = .error message) ↔
      ¬ (ids middleware).Nodup ∨ Unknown middleware ∨ Cyclic middleware) ∧
    ∀ order, newMiddlewareChain middleware = .ok order → order.Perm middleware ∧ Satisfies middleware order ∧
      ∀ other : List RuntimeMiddleware, other.Perm middleware → Satisfies middleware other →
        registration middleware order ≤ registration middleware other := by
  obtain ⟨message, failed, twice⟩ | ⟨registered, distinct⟩ :=
    registerIds_eq [] nodup_nil
  · have thrown : newMiddlewareChain middleware = .error message := by
      rw [newMiddlewareChain, failed]
      rfl
    rw [thrown]
    exact ⟨⟨fun _ => .inl twice, fun _ => ⟨message, rfl⟩⟩, nofun⟩
  rw [nil_append] at registered distinct
  have start : Held (ids middleware) {} [] :=
    ⟨by simp, by simp, by simp, forall_mem_nil _⟩
  obtain ⟨message, failed, edge, added, wrong⟩ | ⟨edges, built, held⟩ :=
    addEdges_held distinct {} [] start
  · have thrown : newMiddlewareChain middleware = .error message := by
      rw [newMiddlewareChain, registered]
      simp only [foldlM_addAnchors]
      rw [bind_ok, failed]
      rfl
    rw [thrown]
    exact ⟨⟨fun _ => .inr (unknown_or_cyclic added wrong), fun _ => ⟨message, rfl⟩⟩, nofun⟩
  have edge_iff : ∀ one two, Anchored middleware one two ↔ two ∈ edges.outgoing one := by
    intro one two
    rw [held.targets, nil_append, anchored_iff]
  have proper : ∀ one, ∀ two ∈ edges.outgoing one, Proper (ids middleware) (one, two) :=
    fun one two edge => held.proper _ ((held.targets one two).mp edge)
  let ready := (ids middleware).filter fun id => edges.indegree id = 0
  have drained : Drained (ids middleware) edges.outgoing [] ⟨edges.indegree, ready⟩ := by
    have counts : ∀ id, edges.indegree id = remaining (ids middleware) edges.outgoing [] id := by
      intro id
      rw [held.counts, remaining]
      simp
    refine ⟨.start, filter_congr fun id member => ?_, fun id _ => counts id⟩
    rw [decide_eq_decide, counts, remaining, Int.natCast_eq_zero, countP_eq_zero]
    simp
  obtain ⟨picked, stuck⟩ := drain_picked distinct held.distinct
    (fun one two edge => (proper one two edge).2.1) middleware.length [] _ drained
    (by rw [ids, length_map, length_nil, Nat.zero_add])
  generalize ordered : drain (ids middleware) edges.outgoing middleware.length
    ⟨edges.indegree, ready⟩ = order at picked stuck
  have result : newMiddlewareChain middleware =
      if order.length ≠ middleware.length then .error "middleware anchor cycle"
      else .ok (order.filterMap fun id => middleware.find? fun item => item.id = id) := by
    rw [newMiddlewareChain, registered]
    simp only [foldlM_addAnchors]
    rw [bind_ok, built]
    simp only [bind_ok]
    rw [ordered]
  have relation : Anchored middleware = fun one two => two ∈ edges.outgoing one :=
    funext fun one => funext fun two => propext (edge_iff one two)
  have length : (ids middleware).length = middleware.length := length_map _
  rw [result]
  split
  · rename_i short
    refine ⟨⟨fun _ => .inr (.inr ?_), fun _ => ⟨_, rfl⟩⟩, nofun⟩
    by_contra acyclic
    rw [Cyclic, relation] at acyclic
    have whole := perm_of_stuck distinct (not_exists.mp acyclic) picked stuck
    exact short (whole.length_eq.trans length)
  · rename_i full
    have whole : order.Perm (ids middleware) :=
      (picked.nodup.subperm picked.mem).perm_of_length_le
        (Nat.le_of_eq (length.trans (not_not.mp full).symm))
    have keeps := keeps_of_picked picked whole
    have entries := ids_entries fun id member => whole.mem_iff.mp member
    refine ⟨⟨nofun, fun wrong => ?_⟩, ?_⟩
    · obtain twice | unknown | ⟨id, cycle⟩ := wrong
      · exact absurd distinct twice
      · exact absurd unknown (proper_known held.proper)
      · rw [relation] at cycle
        exact absurd cycle (acyclic_of_keeps (fun one two edge =>
          ⟨(proper one two edge).1, (proper one two edge).2.1⟩) keeps id)
    · rintro _ ⟨⟩
      refine ⟨?_, fun one two anchored => ?_, fun other another satisfied => ?_⟩
      · have same := whole.filterMap fun id => middleware.find? fun item => item.id = id
        rwa [entries_ids distinct] at same
      · rw [entries]
        have edge := (edge_iff one two).mp anchored
        exact keeps one (proper one two edge).1 two (proper one two edge).2.1 edge
      · rw [registration, registration, entries]
        exact places_le distinct picked whole (another.map _) fun one _ two _ edge =>
          satisfied one two ((edge_iff one two).mpr edge)

end QiongQi.MiddlewareChains
