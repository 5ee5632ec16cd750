/-! Sequential programs over an interface of operations, as an asynchronous
function that awaits one operation after another and may throw. A host answers
the operations; it can also end the process before any of them, so an unfinished
execution is an ordinary result. A triple says what holds
of the state in each of the three cases: returned, threw, stopped. -/
namespace QiongQi.Programs

/-- A program issues operations and continues with their answers; an operation
may be rejected with an error. -/
inductive Program (Op : Type) (Answer : Op → Type) (ε : Type) (α : Type) where
  | pure (value : α)
  | throw (error : ε)
  | stop
  | call (op : Op) (next : Except ε (Answer op) → Program Op Answer ε α)

variable {Op : Type} {Answer : Op → Type} {ε σ α β : Type}

namespace Program

def bind : Program Op Answer ε α → (α → Program Op Answer ε β) → Program Op Answer ε β
  | .pure value, next => next value
  | .throw error, _ => .throw error
  | .stop, _ => .stop
  | .call op rest, next => .call op fun answer => (rest answer).bind next

/-- `try { body } catch (error) { recover(error) }`. -/
def catching : Program Op Answer ε α → (ε → Program Op Answer ε α) → Program Op Answer ε α
  | .pure value, _ => .pure value
  | .throw error, recover => recover error
  | .stop, _ => .stop
  | .call op rest, recover => .call op fun answer => (rest answer).catching recover

/-- `await op`. -/
def await (op : Op) : Program Op Answer ε (Answer op) :=
  .call op fun
    | .ok answer => .pure answer
    | .error error => .throw error

/-- A computation that performs no operation. -/
def lift : Except ε α → Program Op Answer ε α
  | .ok value => .pure value
  | .error error => .throw error

instance : Monad (Program Op Answer ε) where
  pure := .pure
  bind := .bind

/-- `try { body } finally { cleanup }` where the cleanup never throws. -/
def finallyDo (body : Program Op Answer ε α) (cleanup : Program Op Answer ε Unit) :
    Program Op Answer ε α :=
  (body.bind fun value => cleanup.bind fun _ => .pure value).catching
    fun error => cleanup.bind fun _ => .throw error

end Program

/-- How an execution leaves off. -/
inductive Ending (ε α : Type) where
  | returned (value : α)
  | threw (error : ε)
  | stopped

/-- A host keeps a state, ends the process when `alive` fails, and answers
every other operation. -/
structure Host (Op : Type) (Answer : Op → Type) (ε σ : Type) where
  alive : σ → Bool
  perform : σ → (op : Op) → Except ε (Answer op) × σ

def execute (host : Host Op Answer ε σ) : Program Op Answer ε α → σ → Ending ε α × σ
  | .pure value, state => (.returned value, state)
  | .throw error, state => (.threw error, state)
  | .stop, state => (.stopped, state)
  | .call op next, state =>
    if host.alive state then
      execute host (next (host.perform state op).1) (host.perform state op).2
    else (.stopped, state)

variable {host : Host Op Answer ε σ} {pre : σ → Prop}
variable {returns : α → σ → Prop} {throws : ε → σ → Prop} {stops : σ → Prop}

example : execute host (.stop : Program Op Answer ε α) state = (.stopped, state) := by rw [execute]

theorem execute_bind (program : Program Op Answer ε α) (next : α → Program Op Answer ε β) (state : σ) :
    execute host (program.bind next) state = match execute host program state with
      | (.returned value, after) => execute host (next value) after
      | (.threw error, after) => (.threw error, after)
      | (.stopped, after) => (.stopped, after) := by
  induction program generalizing state with
  | pure value => rfl
  | throw error => rfl
  | stop => rfl
  | call op rest ih =>
    simp only [Program.bind, execute]
    split
    · exact ih _ _
    · rfl

theorem execute_catching (recover : ε → Program Op Answer ε α) (state : σ) :
    execute host (program.catching recover) state = match execute host program state with
      | (.returned value, after) => (.returned value, after)
      | (.threw error, after) => execute host (recover error) after
      | (.stopped, after) => (.stopped, after) := by
  induction program generalizing state with
  | pure value => rfl
  | throw error => rfl
  | stop => rfl
  | call op rest ih =>
    simp only [Program.catching, execute]
    split
    · exact ih _ _
    · rfl

theorem execute_await (alive : host.alive state = true)
    (performed : host.perform state op = (.ok answer, after)) :
    execute host (Program.await op >>= next) state = execute host (next answer) after := by
  show execute host ((Program.await op).bind next) state = _
  simp only [execute_bind, Program.await, execute, alive, performed, if_true]

variable {next : α → Program Op Answer ε β} {value : α} {program : Program Op Answer ε α}

theorem execute_lift (ok : result = .ok value) :
    execute host (Program.lift result >>= next) state = execute host (next value) state := by
  subst ok
  rfl

/-- What holds of the state an execution leaves, by how it leaves off. -/
def Ending.Holds (returns : α → σ → Prop) (throws : ε → σ → Prop) (stops : σ → Prop) :
    Ending ε α × σ → Prop
  | (.returned value, state) => returns value state
  | (.threw error, state) => throws error state
  | (.stopped, state) => stops state

/-- Every execution from a state in `pre` ends as the three conditions say. -/
def Triple (host : Host Op Answer ε σ) (pre : σ → Prop) (program : Program Op Answer ε α)
    (returns : α → σ → Prop) (throws : ε → σ → Prop) (stops : σ → Prop) : Prop :=
  ∀ state, pre state → Ending.Holds returns throws stops (execute host program state)

theorem triple_pure (holds : ∀ state, pre state → returns value state) :
    Triple host pre (pure value) returns throws stops :=
  holds

theorem triple_throw (holds : ∀ state, pre state → throws error state) :
    Triple host pre (Program.throw error) returns throws stops :=
  holds

theorem triple_stop (holds : ∀ state, pre state → stops state) :
    Triple host pre Program.stop returns throws stops :=
  holds

theorem triple_lift (ok : ∀ value, result = .ok value → ∀ state, pre state → returns value state)
    (error : ∀ reason, result = .error reason → ∀ state, pre state → throws reason state) :
    Triple host pre (Program.lift result) returns throws stops := by
  cases result with
  | ok value => exact ok value rfl
  | error reason => exact error reason rfl

/-- An operation either finds the process gone or goes on with some answer. -/
theorem triple_call {next : Except ε (Answer op) → Program Op Answer ε α}
    (stopped : ∀ state, pre state → host.alive state = false → stops state)
    (performed : ∀ state, pre state → host.alive state = true → mid (host.perform state op).2)
    (goesOn : ∀ answer, Triple host mid (next answer) returns throws stops) :
    Triple host pre (Program.call op next) returns throws stops := by
  intro state holds
  unfold execute
  split
  next alive => exact goesOn _ _ (performed state holds alive)
  next dead => exact stopped state holds (by simpa using dead)

/-- An awaited operation returns or throws what the host answers. -/
theorem triple_await {returns : Answer op → σ → Prop}
    (stopped : ∀ state, pre state → host.alive state = false → stops state)
    (answered : ∀ state, pre state → host.alive state = true → ∀ answer after,
      host.perform state op = (.ok answer, after) → returns answer after)
    (rejected : ∀ state, pre state → host.alive state = true → ∀ error after,
      host.perform state op = (.error error, after) → throws error after) :
    Triple host pre (Program.await op) returns throws stops := by
  intro state holds
  unfold Program.await execute
  split
  next alive =>
    rcases performed : host.perform state op with ⟨answer | answer, after⟩
    · exact rejected state holds alive _ _ performed
    · exact answered state holds alive _ _ performed
  next dead => exact stopped state holds (by simpa using dead)

/-- Sequencing: the second program starts where the first one returned. -/
theorem triple_bind {returns : β → σ → Prop} (first : Triple host pre program mid throws stops)
    (second : ∀ value, Triple host (mid value) (next value) returns throws stops) :
    Triple host pre (program >>= next) returns throws stops := by
  intro state holds
  have reached := first state holds
  show Ending.Holds returns throws stops (execute host (program.bind next) state)
  rw [execute_bind]
  rcases ran : execute host program state with ⟨ending, after⟩
  rw [ran] at reached
  cases ending with
  | returned value => exact second value after reached
  | threw error => exact reached
  | stopped => exact reached

/-- `try`: the handler starts where the body threw. -/
theorem triple_catching (body : Triple host pre program returns mid stops)
    (handled : ∀ error, Triple host (mid error) (recover error) returns throws stops) :
    Triple host pre (program.catching recover) returns throws stops := by
  intro state holds
  have reached := body state holds
  rw [execute_catching]
  rcases ran : execute host program state with ⟨ending, after⟩
  rw [ran] at reached
  cases ending with
  | returned value => exact reached
  | threw error => exact handled error after reached
  | stopped => exact reached

/-- `finally`: the cleanup runs on both ways out, and keeps what held there. -/
theorem triple_finallyDo (body : Triple host pre program returns throws stops)
    (afterReturn : ∀ value, Triple host (returns value) cleanup (fun _ => returns value)
      (fun _ _ => False) stops)
    (afterThrow : ∀ error, Triple host (throws error) cleanup (fun _ => throws error)
      (fun _ _ => False) stops) :
    Triple host pre (program.finallyDo cleanup) returns throws stops := by
  intro state holds
  have reached := body state holds
  unfold Program.finallyDo
  rw [execute_catching, execute_bind]
  rcases ran : execute host program state with ⟨ending, after⟩
  rw [ran] at reached
  cases ending with
  | stopped => exact reached
  | returned value =>
    have cleaned := afterReturn value after reached
    simp only [execute_bind]
    rcases ran : execute host cleanup after with ⟨ending, last⟩
    rw [ran] at cleaned
    cases ending with
    | returned _ => exact cleaned
    | threw error => exact cleaned.elim
    | stopped => exact cleaned
  | threw error =>
    have cleaned := afterThrow error after reached
    simp only [execute_bind]
    rcases ran : execute host cleanup after with ⟨ending, last⟩
    rw [ran] at cleaned
    cases ending with
    | returned _ => exact cleaned
    | threw error => exact cleaned.elim
    | stopped => exact cleaned

theorem triple_consequence (proved : Triple host pre program returns throws stops)
    (weaker : ∀ state, pre' state → pre state)
    (returned : ∀ value state, returns value state → returns' value state)
    (threw : ∀ error state, throws error state → throws' error state)
    (stopped : ∀ state, stops state → stops' state) :
    Triple host pre' program returns' throws' stops' := by
  intro state holds
  have reached := proved state (weaker state holds)
  rcases ran : execute host program state with ⟨ending, after⟩
  rw [ran] at reached
  cases ending with
  | returned value => exact returned value after reached
  | threw error => exact threw error after reached
  | stopped => exact stopped after reached

theorem triple_of_fact (proved : fact → Triple host pre program returns throws stops) :
    Triple host (fun state => pre state ∧ fact) program returns throws stops :=
  fun state holds => proved holds.2 state holds.1

/-- Whatever its operations answer, the program never leaves off, its operations
cost at most the limit, and what it returns is good. -/
def Settles (cost : Op → Nat) (good : α → Prop) : Nat → Program Op Answer ε α → Prop
  | _, .pure value => good value
  | _, .throw _ => True
  | _, .stop => False
  | limit, .call op next => cost op ≤ limit ∧ ∀ answer, Settles cost good (limit - cost op) (next answer)

section

theorem settles_pure (holds : good value) :
    Settles cost good limit (pure value : Program Op Answer ε α) := by
  cases limit <;> exact holds

theorem settles_throw : Settles cost good limit (Program.throw error : Program Op Answer ε α) := by
  cases limit <;> exact trivial

theorem settles_more (le : limit ≤ larger) (settles : Settles cost good limit program) :
    Settles cost good larger program := by
  induction program generalizing limit larger with
  | pure value => exact settles_pure (by cases limit <;> exact settles)
  | throw error => exact settles_throw
  | stop => cases limit <;> exact absurd settles id
  | call op next ih =>
    obtain ⟨paid, goesOn⟩ : cost op ≤ limit ∧
        ∀ answer, Settles cost good (limit - cost op) (next answer) := by
      cases limit <;> exact settles
    have step : cost op ≤ larger ∧ ∀ answer, Settles cost good (larger - cost op) (next answer) :=
      ⟨by omega, fun answer => ih answer (by omega) (goesOn answer)⟩
    cases larger <;> exact step

theorem settles_await {good : Answer op → Prop} (paid : cost op ≤ limit) (holds : ∀ answer, good answer) :
    Settles cost good limit (Program.await op : Program Op Answer ε (Answer op)) := by
  have step : cost op ≤ limit ∧ ∀ answer : Except ε (Answer op),
      Settles cost good (limit - cost op) (match answer with
        | .ok answer => Program.pure answer
        | .error error => Program.throw error : Program Op Answer ε (Answer op)) := by
    refine ⟨paid, fun answer => ?_⟩
    cases answer with
    | ok answer => exact settles_pure (holds answer)
    | error error => exact settles_throw
  cases limit <;> exact step

theorem settles_lift (holds : ∀ value, result = .ok value → good value) :
    Settles cost good limit (Program.lift result : Program Op Answer ε α) := by
  cases result with
  | ok value => exact settles_pure (holds value rfl)
  | error error => exact settles_throw

theorem settles_bind {good : β → Prop} (first : Settles cost mid limit program)
    (second : ∀ value, mid value → Settles cost good further (next value)) :
    Settles cost good (limit + further) (program >>= next) := by
  show Settles cost good (limit + further) (program.bind next)
  induction program generalizing limit with
  | pure value =>
    exact settles_more (by omega) (second value (by cases limit <;> exact first))
  | throw error => exact settles_throw
  | stop => cases limit <;> exact absurd first id
  | call op rest ih =>
    obtain ⟨paid, goesOn⟩ : cost op ≤ limit ∧ ∀ answer, Settles cost mid (limit - cost op) (rest answer) := by
      cases limit <;> exact first
    have step : cost op ≤ limit + further ∧ ∀ answer,
        Settles cost good (limit + further - cost op) ((rest answer).bind next) := by
      refine ⟨by omega, fun answer => ?_⟩
      have kept := ih answer (goesOn answer)
      rwa [show limit - cost op + further = limit + further - cost op by omega] at kept
    cases whole : limit + further <;> rw [whole] at step <;> exact step

/-- What comes before costs nothing. -/
theorem settles_seq {good : β → Prop} (first : Settles cost mid 0 program)
    (second : ∀ value, mid value → Settles cost good limit (next value)) :
    Settles cost good limit (program >>= next) := by
  have whole := settles_bind first second
  rwa [Nat.zero_add] at whole

theorem settles_free {next : Answer op → Program Op Answer ε β} {good : β → Prop}
    (free : cost op = 0) (goesOn : ∀ answer, Settles cost good limit (next answer)) :
    Settles cost good limit (Program.await op >>= next) :=
  settles_seq (settles_await (by omega) fun _ => trivial) fun answer _ => goesOn answer

theorem settles_catching (body : Settles cost good limit program)
    (handled : ∀ error, Settles cost good further (recover error)) :
    Settles cost good (limit + further) (program.catching recover) := by
  induction program generalizing limit with
  | pure value => exact settles_pure (by cases limit <;> exact body)
  | throw error => exact settles_more (by omega) (handled error)
  | stop => cases limit <;> exact absurd body id
  | call op rest ih =>
    obtain ⟨paid, goesOn⟩ : cost op ≤ limit ∧
        ∀ answer, Settles cost good (limit - cost op) (rest answer) := by
      cases limit <;> exact body
    have step : cost op ≤ limit + further ∧ ∀ answer,
        Settles cost good (limit + further - cost op) ((rest answer).catching recover) := by
      refine ⟨by omega, fun answer => ?_⟩
      have kept := ih answer (goesOn answer)
      rwa [show limit - cost op + further = limit + further - cost op by omega] at kept
    cases whole : limit + further <;> rw [whole] at step <;> exact step

end

/-- Whatever its operations answer, what the program returns is good. -/
def Returns (good : α → Prop) : Program Op Answer ε α → Prop
  | .pure value => good value
  | .throw _ => True
  | .stop => True
  | .call _ next => ∀ answer, Returns good (next answer)

theorem returns_anything (program : Program Op Answer ε α) : Returns (fun _ => True) program := by
  induction program with
  | call op next ih => exact ih
  | _ => exact trivial

theorem returns_bind (first : Returns mid program) (second : ∀ value, mid value → Returns good (next value)) :
    Returns good (program >>= next) := by
  show Returns good (program.bind next)
  induction program with
  | pure value => exact second value first
  | throw error => exact trivial
  | stop => exact trivial
  | call op rest ih => exact fun answer => ih answer (first answer)

/-- What comes before does not matter. -/
theorem returns_seq (second : ∀ value, Returns good (next value)) :
    Returns good (program >>= next) :=
  returns_bind (returns_anything program) fun value _ => second value

theorem execute_returned (returns : Returns good program)
    (ran : execute host program state = (.returned value, after)) : good value := by
  induction program generalizing state with
  | pure result =>
    cases ran
    exact returns
  | throw error => cases ran
  | stop => cases ran
  | call op next ih =>
    unfold execute at ran
    split at ran
    · exact ih _ (returns _) ran
    · cases ran

theorem settles_returns (settles : Settles cost good limit program) : Returns good program := by
  induction program generalizing limit with
  | pure value => cases limit <;> exact settles
  | throw error => exact trivial
  | stop => exact trivial
  | call op next ih =>
    intro answer
    cases limit <;> exact ih answer (settles.2 answer)

/-- The execution keeps an invariant of the state, whichever way it leaves off;
what it returns is `good`, what it throws is one of `errors`, and it ends
unfinished only where it `mayStop`. -/
def Maintains (host : Host Op Answer ε σ) (inv : σ → Prop) (errors : ε → Prop) (mayStop : Prop)
    (program : Program Op Answer ε α) (good : α → Prop) : Prop :=
  Triple host inv program (fun value state => inv state ∧ good value)
    (fun error state => inv state ∧ errors error) (fun state => inv state ∧ mayStop)

variable {inv : σ → Prop}

theorem maintains_pure (holds : good value) : Maintains host inv errors mayStop (pure value) good :=
  triple_pure fun _ kept => ⟨kept, holds⟩

theorem maintains_throw (tolerable : errors error) :
    Maintains host inv errors mayStop (Program.throw error) good :=
  triple_throw fun _ kept => ⟨kept, tolerable⟩

theorem maintains_await {good : Answer op → Prop} (stays : ∀ state, inv state → inv (host.perform state op).2)
    (answers : ∀ state answer, inv state → (host.perform state op).1 = .ok answer → good answer)
    (rejects : ∀ state error, inv state → (host.perform state op).1 = .error error → errors error)
    (stops : ∀ state, inv state → host.alive state = false → mayStop) :
    Maintains host inv errors mayStop (Program.await op) good := by
  refine triple_await (fun state kept dead => ⟨kept, stops state kept dead⟩) ?_ ?_
  · intro state kept _ answer after performed
    have kept' := stays state kept
    have holds := answers state answer kept (by rw [performed])
    rw [performed] at kept'
    exact ⟨kept', holds⟩
  · intro state kept _ error after performed
    have kept' := stays state kept
    have tolerable := rejects state error kept (by rw [performed])
    rw [performed] at kept'
    exact ⟨kept', tolerable⟩

theorem maintains_bind (first : Maintains host inv errors mayStop program good)
    (second : ∀ value, good value → Maintains host inv errors mayStop (next value) good') :
    Maintains host inv errors mayStop (program >>= next) good' :=
  triple_bind first fun value => triple_of_fact (second value)

theorem maintains_catching (body : Maintains host inv inner_ mayStop program good)
    (handled : ∀ error, inner_ error → Maintains host inv errors mayStop (recover error) good) :
    Maintains host inv errors mayStop (program.catching recover) good :=
  triple_catching body fun error => triple_of_fact (handled error)

theorem maintains_finallyDo (body : Maintains host inv errors mayStop program good)
    (quiet : Maintains host inv (fun _ => False) mayStop cleanup fun _ => True) :
    Maintains host inv errors mayStop (program.finallyDo cleanup) good := by
  refine triple_finallyDo body ?_ ?_
  · refine fun value => triple_of_fact fun holds => ?_
    exact triple_consequence quiet (fun _ => id) (fun _ _ kept => ⟨kept.1, holds⟩)
      (fun _ _ kept => kept.2) fun _ => id
  · refine fun error => triple_of_fact fun tolerable => ?_
    exact triple_consequence quiet (fun _ => id) (fun _ _ kept => ⟨kept.1, tolerable⟩)
      (fun _ _ kept => kept.2) fun _ => id

/-- What every operation preserves, every execution preserves. -/
theorem execute_preserves (step : ∀ state op, inv state → inv (host.perform state op).2)
    (program : Program Op Answer ε α) (state : σ) (kept : inv state) :
    inv (execute host program state).2 := by
  induction program generalizing state with
  | pure value => exact kept
  | throw error => exact kept
  | stop => exact kept
  | call op next ih =>
    unfold execute
    split
    · exact ih _ _ (step state op kept)
    · exact kept

end QiongQi.Programs
