import QiongQi.Programs

/-! A host that also takes notes. What it answers and what becomes of its state is the
first host's doing; the notes are a second component of the state, so a triple can speak of
what was asked and answered although the first host forgets it. -/
namespace QiongQi.Histories
open Programs

variable {Op : Type} {Answer : Op → Type} {ε σ Note α β : Type}

/-- The host with the notes taken of each operation and its answer. -/
def noting (host : Host Op Answer ε σ) (note : (op : Op) → Except ε (Answer op) → List Note) :
    Host Op Answer ε (σ × List Note) where
  alive state := host.alive state.1
  perform state op :=
    ((host.perform state.1 op).1, (host.perform state.1 op).2, state.2 ++ note op (host.perform state.1 op).1)

variable {host : Host Op Answer ε σ} {note : (op : Op) → Except ε (Answer op) → List Note}

theorem execute_noting_call : execute (noting host note) (.call op next) (state, notes) =
      if host.alive state then
        execute (noting host note) (next (host.perform state op).1)
          ((host.perform state op).2, notes ++ note op (host.perform state op).1)
      else (.stopped, (state, notes)) := rfl

/-- Taking notes changes nothing of an execution. -/
theorem execute_noting (program : Program Op Answer ε α) (state : σ) (notes : List Note) :
    (execute (noting host note) program (state, notes)).1 = (execute host program state).1 ∧
      (execute (noting host note) program (state, notes)).2.1 = (execute host program state).2 := by
  induction program generalizing state notes with
  | pure value => exact ⟨rfl, rfl⟩
  | throw error => exact ⟨rfl, rfl⟩
  | stop => exact ⟨rfl, rfl⟩
  | call op next ih =>
    rw [execute_noting_call, execute]
    split
    · exact ih _ _ _
    · exact ⟨rfl, rfl⟩

theorem triple_noted (stopped : ∀ state, pre state → stops state)
    (answered : ∀ state notes answer after, pre (state, notes) → host.perform state op = (.ok answer, after) →
        returns answer (after, notes ++ note op (.ok answer)))
    (rejected : ∀ state notes error after, pre (state, notes) →
      host.perform state op = (.error error, after) → throws error (after, notes ++ note op (.error error))) :
    Triple (noting host note) pre (Program.await op) returns throws stops := by
  refine triple_await (fun state holds _ => stopped state holds) ?_ ?_
  · rintro ⟨state, notes⟩ holds - answer after performed
    obtain ⟨said, rest⟩ := Prod.mk.inj performed
    rw [← rest, said]
    exact answered state notes answer _ holds (Prod.ext said rfl)
  · rintro ⟨state, notes⟩ holds - error after performed
    obtain ⟨said, rest⟩ := Prod.mk.inj performed
    rw [← rest, said]
    exact rejected state notes error _ holds (Prod.ext said rfl)

end QiongQi.Histories
