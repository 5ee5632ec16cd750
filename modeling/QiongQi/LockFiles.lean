/-! Lock files: a file that one client at a time can create, that its creator removes, and
that others remove where they judged it to be left behind.

The file system tells the incarnations of a lock file apart by nothing; here each has a
number. A client holds the incarnation that it created until it has removed it or is gone. A
client judges an incarnation and removes the file later, which need not be the same one by
then. -/
namespace QiongQi.LockFiles

variable {ι : Type}

structure Locks (ι : Type) where
  file : Option Nat
  made : Nat
  holds : ι → Nat → Prop
  judged : ι → Nat → Prop

/-- What a step does to the lock. A judged incarnation is held by nobody, and a removal finds
the incarnation that was judged, or no file. -/
inductive Moves (locks next : Locks ι) : Prop
  | stays (file : next.file = locks.file) (made : next.made = locks.made)
    (holds : ∀ client serial, next.holds client serial → locks.holds client serial)
    (judged : ∀ client serial, next.judged client serial → locks.judged client serial)
  | creates (owner : ι) (free : locks.file = none) (file : next.file = some locks.made)
    (made : next.made = locks.made + 1)
    (holds : ∀ client serial, next.holds client serial →
      locks.holds client serial ∨ client = owner ∧ serial = locks.made)
    (judged : ∀ client serial, next.judged client serial → locks.judged client serial)
  | judges (judge : ι) (found : Nat) (there : locks.file = some found)
    (idle : ∀ client, ¬ locks.holds client found) (file : next.file = locks.file)
    (made : next.made = locks.made)
    (holds : ∀ client serial, next.holds client serial → locks.holds client serial)
    (judged : ∀ client serial, next.judged client serial →
      locks.judged client serial ∨ client = judge ∧ serial = found)
  | removes (judge : ι) (found : Nat) (before : locks.judged judge found)
    (same : locks.file = none ∨ locks.file = some found) (file : next.file = none)
    (made : next.made = locks.made)
    (holds : ∀ client serial, next.holds client serial → locks.holds client serial)
    (judged : ∀ client serial, next.judged client serial → locks.judged client serial)
  | releases (owner : ι) (serial : Nat) (held : locks.holds owner serial)
    (file : next.file = none) (made : next.made = locks.made)
    (holds : ∀ client serial, next.holds client serial → locks.holds client serial ∧ client ≠ owner)
    (judged : ∀ client serial, next.judged client serial → locks.judged client serial)

/-- What such steps keep. -/
structure Guarded (locks : Locks ι) : Prop where
  inPlace : ∀ client serial, locks.holds client serial → locks.file = some serial
  sole : ∀ left right serial, locks.holds left serial → locks.holds right serial → left = right
  made : ∀ serial, locks.file = some serial → serial < locks.made
  judged : ∀ client serial, locks.judged client serial →
    serial < locks.made ∧ ∀ other, ¬ locks.holds other serial

namespace Guarded

theorem exclusive (guarded : Guarded locks) (leftHolds : locks.holds left first)
    (rightHolds : locks.holds right second) : left = right := by
  have same : first = second := Option.some.inj
    ((guarded.inPlace left first leftHolds).symm.trans (guarded.inPlace right second rightHolds))
  subst same
  exact guarded.sole left right first leftHolds rightHolds

/-- Where a judged incarnation is removed, no client holds the lock. -/
theorem nobody (guarded : Guarded locks) (before : locks.judged judge found)
    (same : locks.file = none ∨ locks.file = some found) (client : ι) (serial : Nat) :
    ¬ locks.holds client serial := by
  intro held
  have there := guarded.inPlace client serial held
  rcases same with none | some
  · rw [none] at there
    cases there
  · have one : found = serial := Option.some.inj (some.symm.trans there)
    subst one
    exact (guarded.judged judge found before).2 client held

theorem none_held (guarded : Guarded locks) (free : locks.file = none) (client : ι)
    (serial : Nat) : ¬ locks.holds client serial := by
  intro held
  rw [guarded.inPlace client serial held] at free
  cases free

theorem gone {next : Locks ι} (guarded : Guarded locks) (nobody : ∀ client serial, ¬ next.holds client serial)
    (file : next.file = none) (made : next.made = locks.made)
    (judged : ∀ client serial, next.judged client serial → locks.judged client serial) :
    Guarded next := by
  refine ⟨fun client serial held => absurd held (nobody client serial),
    fun left _ serial first _ => absurd first (nobody left serial), fun serial there => ?_,
    fun client serial before => ?_⟩
  · rw [file] at there
    cases there
  · obtain ⟨old, -⟩ := guarded.judged client serial (judged client serial before)
    exact ⟨made ▸ old, fun other => nobody other serial⟩

theorem moves (guarded : Guarded locks) (moved : Moves locks next) : Guarded next := by
  cases moved with
  | stays file made holds judged =>
    refine ⟨fun client serial held => ?_, fun left right serial first second => ?_,
      fun serial there => ?_, fun client serial before => ?_⟩
    · rw [file]
      exact guarded.inPlace client serial (holds client serial held)
    · exact guarded.sole left right serial (holds left serial first) (holds right serial second)
    · rw [made]
      exact guarded.made serial (file ▸ there)
    · obtain ⟨old, idle⟩ := guarded.judged client serial (judged client serial before)
      exact ⟨made ▸ old, fun other held => idle other (holds other serial held)⟩
  | creates owner free file made holds judged =>
    have own : ∀ client serial, next.holds client serial → client = owner ∧ serial = locks.made :=
      fun client serial held => (holds client serial held).resolve_left
        (guarded.none_held free client serial)
    refine ⟨fun client serial held => ?_, fun left right serial first second => ?_,
      fun serial there => ?_, fun client serial before => ?_⟩
    · rw [file, (own client serial held).2]
    · exact (own left serial first).1.trans (own right serial second).1.symm
    · rw [file] at there
      cases there
      omega
    · have old := (guarded.judged client serial (judged client serial before)).1
      refine ⟨by omega, fun other held => ?_⟩
      have new := (own other serial held).2
      omega
  | judges judge found there idle file made holds judged =>
    refine ⟨fun client serial held => ?_, fun left right serial first second => ?_,
      fun serial at_ => ?_, fun client serial before => ?_⟩
    · rw [file]
      exact guarded.inPlace client serial (holds client serial held)
    · exact guarded.sole left right serial (holds left serial first) (holds right serial second)
    · rw [made]
      exact guarded.made serial (file ▸ at_)
    · rcases judged client serial before with before | ⟨rfl, rfl⟩
      · obtain ⟨old, idle⟩ := guarded.judged client serial before
        exact ⟨made ▸ old, fun other held => idle other (holds other serial held)⟩
      · exact ⟨made ▸ guarded.made serial there, fun other held => idle other (holds other serial held)⟩
  | removes judge found before same file made holds judged =>
    exact guarded.gone (fun client serial held => guarded.nobody before same client serial
      (holds client serial held)) file made judged
  | releases owner own held file made holds judged =>
    refine guarded.gone (fun client serial other => ?_) file made judged
    obtain ⟨before, apart⟩ := holds client serial other
    exact apart (guarded.exclusive before held)

end Guarded

end QiongQi.LockFiles
