import Mathlib.Algebra.BigOperators.Group.List.Basic
import Mathlib.Algebra.Ring.Nat
import QiongQi.Machines

/-! Calls that each have a list of effects to perform, one after the other, on a state that
they share: between two effects of a call any other call can perform its own. -/
namespace QiongQi.EffectCalls
open Machines List

/-- The effects that a request sets out to perform when its call opens, and what one effect
makes of the state. -/
structure Protocol (Request Effect State : Type) where
  effects : Request → State → List Effect
  perform : State → Effect → State

structure Call (Request Effect : Type) where
  request : Request
  effects : List Effect
  remaining : List Effect

/-- The calls stay listed in the order in which they were opened. -/
structure World (Request Effect State : Type) where
  state : State
  performed : List Effect := []
  calls : List (Call Request Effect) := []

inductive Action (Request : Type) where
  | open (request : Request)
  | proceed (index : Nat)

section
variable {Request Effect State : Type}

def step (protocol : Protocol Request Effect State) (world : World Request Effect State) :
    Action Request → Option (World Request Effect State)
  | .open request =>
    let effects := protocol.effects request world.state
    some { world with calls := world.calls ++ [⟨request, effects, effects⟩] }
  | .proceed index =>
    match world.calls[index]? with
    | some ⟨request, effects, effect :: rest⟩ =>
      some
        { state := protocol.perform world.state effect
          performed := world.performed ++ [effect]
          calls := world.calls.set index ⟨request, effects, rest⟩ }
    | _ => none

/-- Every call has performed all of its effects. -/
def World.Settled (world : World Request Effect State) : Prop :=
  ∀ call ∈ world.calls, call.remaining = []

instance (world : World Request Effect State) [DecidableEq Effect] : Decidable world.Settled :=
  inferInstanceAs (Decidable (∀ call ∈ world.calls, call.remaining = []))

variable {protocol : Protocol Request Effect State} {initial : State}
  {world middle next : World Request Effect State}

theorem step_cases {action : Action Request} (stepped : step protocol world action = some next_) :
    (∃ request, action = .open request ∧ next_ = { world with calls := world.calls ++ [⟨request,
        protocol.effects request world.state, protocol.effects request world.state⟩] }) ∨
    ∃ front back request effects effect rest,
      world.calls = front ++ ⟨request, effects, effect :: rest⟩ :: back ∧
      next_ =
        { state := protocol.perform world.state effect
          performed := world.performed ++ [effect]
          calls := front ++ ⟨request, effects, rest⟩ :: back } := by
  cases action with
  | «open» request => exact .inl ⟨request, rfl, (Option.some.inj stepped).symm⟩
  | proceed index =>
    simp only [step] at stepped
    split at stepped
    · rename_i request effects effect rest found
      cases stepped
      obtain ⟨within, here⟩ := List.getElem?_eq_some_iff.mp found
      refine .inr ⟨world.calls.take index, world.calls.drop (index + 1), request, effects, effect,
        rest, ?_, ?_⟩
      · rw [← here, getElem_cons_drop within, take_append_drop]
      · rw [set_eq_take_append_cons_drop, if_pos within]
    · cases stepped

/-- How many of the effects that the calls set out to perform are of a kind. -/
def World.due (world : World Request Effect State) (kind : Effect → Bool) : Nat :=
  (world.calls.map fun call => call.effects.countP kind).sum

/-- How many of those are still to be performed. -/
def World.left (world : World Request Effect State) (kind : Effect → Bool) : Nat :=
  (world.calls.map fun call => call.remaining.countP kind).sum

/-- The state is what the performed effects make of the first one, and each effect that a call
set out to perform is performed or still to be performed. -/
structure Accounted (protocol : Protocol Request Effect State) (initial : State)
    (world : World Request Effect State) : Prop where
  state : world.state = world.performed.foldl protocol.perform initial
  opened : ∀ call ∈ world.calls, ∃ state, call.effects = protocol.effects call.request state
  count : ∀ kind, world.performed.countP kind + world.left kind = world.due kind

theorem accounted_step (accounted : Accounted protocol initial world)
    (stepped : step protocol world action = some next_) : Accounted protocol initial next_ := by
  rcases step_cases stepped with ⟨request, -, rfl⟩ |
    ⟨front, back, request, effects, effect, rest, calls, rfl⟩
  · constructor
    · exact accounted.state
    · intro call member
      rcases mem_append.mp member with earlier | last
      · exact accounted.opened call earlier
      · cases mem_singleton.mp last
        exact ⟨world.state, rfl⟩
    · intro kind
      have before := accounted.count kind
      simp only [World.left, World.due, map_append, map_cons, map_nil,
        sum_append, sum_cons, sum_nil] at before ⊢
      omega
  · have opened := accounted.opened
    rw [calls] at opened
    constructor
    · rw [foldl_append, ← accounted.state]
      rfl
    · intro call member
      rcases mem_append.mp member with earlier | later
      · exact opened call (mem_append_left _ earlier)
      · rcases mem_cons.mp later with rfl | later
        · obtain ⟨state, same⟩ := opened ⟨request, effects, effect :: rest⟩ (by simp)
          exact ⟨state, same⟩
        · exact opened call (by simp [later])
    · intro kind
      have before := accounted.count kind
      simp only [World.left, World.due, calls, map_append, map_cons, sum_append,
        sum_cons, countP_append, countP_cons, countP_nil] at before ⊢
      omega

theorem accounted_run (ran : runActions (step protocol) { state := initial } actions = some world) :
    Accounted protocol initial world :=
  invariant_always (fun _ _ _ accounted stepped => accounted_step accounted stepped) actions
    ⟨rfl, by simp, fun _ => rfl⟩ ran

theorem count_settled (accounted : Accounted protocol initial world) (settled : world.Settled) :
    world.performed.countP kind = world.due kind := by
  have none : world.left kind = 0 := by
    apply sum_eq_zero
    intro count held
    obtain ⟨call, member, rfl⟩ := mem_map.mp held
    rw [settled call member]
    rfl
  have count := accounted.count kind
  omega

/-- Where each request sets out to perform one effect of a kind or none, as many are due as there
are calls of the requests that do. -/
theorem due_eq {does : Request → Bool} (one : ∀ request state, (protocol.effects request state).countP kind =
      if does request then 1 else 0) (accounted : Accounted protocol initial world) :
    world.due kind = world.calls.countP fun call => does call.request := by
  have opened := accounted.opened
  unfold World.due
  generalize world.calls = calls at opened ⊢
  induction calls with
  | nil => rfl
  | cons call rest ih =>
    obtain ⟨state, effects⟩ := opened call mem_cons_self
    rw [map_cons, sum_cons, countP_cons, effects, one,
      ih fun other held => opened other (mem_cons_of_mem _ held)]
    omega

/-- A run goes on from what has been performed. -/
theorem performed_prefix {actions : List (Action Request)}
    (ran : runActions (step protocol) middle actions = some world) :
    ∃ later, world.performed = middle.performed ++ later ∧
      world.state = later.foldl protocol.perform middle.state := by
  have keeps : ∀ world action next, (∃ later, world.performed = middle.performed ++ later ∧
      world.state = later.foldl protocol.perform middle.state) →
      step protocol world action = some next →
      ∃ later, next.performed = middle.performed ++ later ∧
        next.state = later.foldl protocol.perform middle.state := by
    rintro world action next ⟨later, performed, state⟩ stepped
    rcases step_cases stepped with ⟨request, -, rfl⟩ |
      ⟨front, back, request, effects, effect, rest, calls, rfl⟩
    · exact ⟨later, performed, state⟩
    · refine ⟨later ++ [effect], ?_, ?_⟩
      · simp [performed]
      · simp [state, foldl_append]
  exact invariant_always keeps actions ⟨[], by simp, rfl⟩ ran

end

end QiongQi.EffectCalls
