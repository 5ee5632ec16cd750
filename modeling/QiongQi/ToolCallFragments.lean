import Mathlib.Data.List.Basic
import Mathlib.Data.List.Induction
import Mathlib.Data.List.Nodup

/-! Tool calls that arrive in fragments, in any interleaving: what is open after a part of
the fragments, and that everything has arrived after all of them. -/
namespace QiongQi.ToolCallFragments
open List

structure ToolCall where
  index : Nat
  id : String
  name : String
  arguments : String
  id_filled : id ≠ ""
  name_filled : name ≠ ""

instance : DecidableEq ToolCall := fun left right =>
  decidable_of_iff (left.index = right.index ∧ left.id = right.id ∧ left.name = right.name ∧
    left.arguments = right.arguments) (by cases left; cases right; simp)

inductive Fragment where
  /-- The first fragment tells the id, the name and the index. -/
  | first (call : ToolCall) (part : String)
  | more (index : Nat) (part : String)
  /-- All arguments once again. -/
  | whole (call : ToolCall)
  | closed (call : ToolCall)
  deriving DecidableEq

def Fragment.index : Fragment → Nat
  | .first call _ | .whole call | .closed call => call.index
  | .more index _ => index

def Fragment.part : Fragment → String
  | .first _ part | .more _ part => part
  | .whole _ | .closed _ => ""

def Fragment.started : Fragment → Option ToolCall
  | .first call _ => some call
  | _ => none

def Fragment.ended : Fragment → Option ToolCall
  | .closed call => some call
  | _ => none

/-- The arguments in parts, and after them at most one event of either kind at the end. -/
def IsFragmentation (call : ToolCall) (fragments : List Fragment) : Prop :=
  ∃ part parts ends, fragments = .first call part :: (parts.map (Fragment.more call.index) ++ ends) ∧
    String.join (part :: parts) = call.arguments ∧ ends.Sublist [.whole call, .closed call]

/-- The fragments of each call are a fragmentation of it, in whatever order the calls take turns. -/
structure Interleaves (calls : List ToolCall) (fragments : List Fragment) : Prop where
  ids : (calls.map ToolCall.id).Nodup
  indexes : (calls.map ToolCall.index).Nodup
  own : ∀ fragment ∈ fragments, fragment.index ∈ calls.map ToolCall.index
  each : ∀ call ∈ calls, IsFragmentation call (fragments.filter fun fragment => fragment.index = call.index)

def startedCalls (fragments : List Fragment) : List ToolCall := fragments.filterMap Fragment.started

def closedCalls (fragments : List Fragment) : List ToolCall := fragments.filterMap Fragment.ended

def openCalls (fragments : List Fragment) : List ToolCall :=
  (startedCalls fragments).filter fun call => call ∉ closedCalls fragments

/-- The arguments of a call as far as they have arrived. -/
def gathered (index : Nat) (fragments : List Fragment) : String :=
  String.join ((fragments.filter fun fragment => fragment.index = index).map Fragment.part)

theorem startedCalls_append :
    startedCalls (front ++ back) = startedCalls front ++ startedCalls back := by
  simp [startedCalls]

theorem closedCalls_append :
    closedCalls (front ++ back) = closedCalls front ++ closedCalls back := by
  simp [closedCalls]

theorem gathered_append :
    gathered index (front ++ back) = gathered index front ++ gathered index back := by
  simp [gathered]

variable {call : ToolCall} {fragments front : List Fragment} {fragment : Fragment}
variable {calls : List ToolCall}

theorem mem_startedCalls :
    call ∈ startedCalls fragments ↔ ∃ part, .first call part ∈ fragments := by
  simp only [startedCalls, mem_filterMap]
  constructor
  · rintro ⟨fragment, held, started⟩
    cases fragment with
    | first other part =>
      cases started
      exact ⟨part, held⟩
    | more _ _ => cases started
    | whole _ => cases started
    | closed _ => cases started
  · rintro ⟨part, held⟩
    exact ⟨_, held, rfl⟩

theorem mem_closedCalls : call ∈ closedCalls fragments ↔ .closed call ∈ fragments := by
  simp only [closedCalls, mem_filterMap]
  constructor
  · rintro ⟨fragment, held, ended⟩
    cases fragment with
    | first _ _ => cases ended
    | more _ _ => cases ended
    | whole _ => cases ended
    | closed other =>
      cases ended
      exact held
  · exact fun held => ⟨_, held, rfl⟩

theorem mem_openCalls : call ∈ openCalls fragments ↔
      (∃ part, .first call part ∈ fragments) ∧ .closed call ∉ fragments := by
  rw [openCalls, mem_filter, mem_startedCalls, decide_eq_true_eq, mem_closedCalls]

/-- A fragment that fits what has arrived before it. -/
inductive Legal (calls : List ToolCall) (front : List Fragment) : Fragment → Prop where
  | first {call : ToolCall} {part : String} (known : call ∈ calls)
      (fresh : ∀ fragment ∈ front, fragment.index ≠ call.index) : Legal calls front (.first call part)
  | more {call : ToolCall} {part : String} (running : call ∈ openCalls front) :
      Legal calls front (.more call.index part)
  | whole {call : ToolCall} (running : call ∈ openCalls front)
      (complete : gathered call.index front = call.arguments) : Legal calls front (.whole call)
  | closed {call : ToolCall} (running : call ∈ openCalls front)
      (complete : gathered call.index front = call.arguments) : Legal calls front (.closed call)

/-- Where a fragment of a call stands among the fragments of this call. -/
inductive Place (call : ToolCall) (parts : List String) : List Fragment → Fragment → Prop where
  | first {part : String} : Place call parts [] (.first call part)
  | more {part next : String} {done : List String} :
      Place call parts (.first call part :: done.map (.more call.index)) (.more call.index next)
  | whole {part : String} :
      Place call parts (.first call part :: parts.map (.more call.index)) (.whole call)
  | closed {part : String} {ends : List Fragment} (before : ends.Sublist [.whole call]) :
      Place call parts (.first call part :: (parts.map (.more call.index) ++ ends)) (.closed call)

/-- The end of a fragmentation: the whole arguments come before the closing. -/
theorem place_in_ends {ends before after : List Fragment}
    (sub : ends.Sublist [.whole call, .closed call]) (split : ends = before ++ fragment :: after) :
    (fragment = .whole call ∧ before = []) ∨ (fragment = .closed call ∧ before.Sublist [.whole call]) := by
  rw [split] at sub
  have member : fragment ∈ [Fragment.whole call, .closed call] :=
    sub.subset (mem_append_right _ mem_cons_self)
  have front : (before ++ [fragment]).Sublist [.whole call, .closed call] :=
    ((List.Sublist.refl before).append (singleton_sublist.mpr mem_cons_self)).trans sub
  rcases mem_cons.mp member with rfl | member
  · left
    refine ⟨rfl, ?_⟩
    have alone : (before ++ [Fragment.whole call]).Sublist [.whole call] := by
      have reversed := front.reverse
      simp only [reverse_append, reverse_cons, reverse_nil, nil_append, singleton_append] at reversed
      cases reversed with
      | cons _ later => simpa using later.reverse
    have short := alone.length_le
    simpa using short
  · rw [mem_singleton] at member
    subst member
    right
    refine ⟨rfl, ?_⟩
    have reversed := front.reverse
    simp only [reverse_append, reverse_cons, reverse_nil, nil_append, singleton_append] at reversed
    cases reversed with
    | cons _ later =>
      have closing := later.subset mem_cons_self
      simp at closing
    | cons_cons _ later => simpa using later.reverse

theorem place_of_split (sub : ends.Sublist [.whole call, .closed call])
    (split : .first call part :: (parts.map (Fragment.more call.index) ++ ends) = front ++ fragment :: back) :
    Place call parts front fragment := by
  cases front with
  | nil =>
    cases split
    exact .first
  | cons head front =>
    rw [cons_append, List.cons.injEq] at split
    obtain ⟨rfl, split⟩ := split
    rcases append_eq_append_iff.mp split with ⟨middle, rfl, ends_split⟩ | ⟨middle, parts_split, rest⟩
    · rcases place_in_ends sub ends_split with ⟨rfl, rfl⟩ | ⟨rfl, before⟩
      · rw [append_nil]
        exact .whole
      · exact .closed before
    · cases middle with
      | nil =>
        rw [append_nil] at parts_split
        rw [nil_append] at rest
        rcases @place_in_ends call fragment ends [] back sub rest.symm with ⟨rfl, -⟩ | ⟨rfl, -⟩
        · rw [← parts_split]
          exact .whole
        · rw [← parts_split, ← append_nil (parts.map _)]
          exact .closed (nil_sublist _)
      | cons next middle =>
        rw [cons_append, List.cons.injEq] at rest
        obtain ⟨done, later, -, rfl, later_split⟩ := map_eq_append_iff.mp parts_split
        obtain ⟨text, rest', -, same, -⟩ := map_eq_cons_iff.mp later_split
        rw [rest.1, ← same]
        exact .more

theorem gathered_of_filter (same : front.filter (fun fragment => fragment.index = index) = own) :
    gathered index front = String.join (own.map Fragment.part) := by
  rw [gathered, same]

theorem join_more (parts : List String) :
    (parts.map (Fragment.more index)).map Fragment.part = parts := by
  rw [map_map]
  exact map_id parts

theorem join_quiet (quiet : ∀ text ∈ texts, text = "") : String.join texts = "" := by
  induction texts with
  | nil => rfl
  | cons text rest ih =>
    rw [String.join_cons, quiet text mem_cons_self, ih fun other held => quiet other (mem_cons_of_mem _ held)]
    rfl

theorem mem_of_filter {index : Nat} (same : fragment.index = index) :
    fragment ∈ front ↔ fragment ∈ front.filter fun fragment => fragment.index = index := by
  rw [mem_filter, decide_eq_true_eq]
  exact ⟨fun held => ⟨held, same⟩, And.left⟩

/-- A call that has started and is not among the closed ones is open. -/
theorem open_of_filter
    (same : front.filter (fun fragment => fragment.index = call.index) = .first call part :: own)
    (running : .closed call ∉ own) : call ∈ openCalls front := by
  rw [mem_openCalls]
  constructor
  · exact ⟨part, (mem_of_filter rfl).mpr (same ▸ mem_cons_self)⟩
  · rw [@mem_of_filter front (.closed call) call.index rfl, same]
    simpa using running

theorem legal_of_interleaves {back : List Fragment}
    (interleaves : Interleaves calls (front ++ fragment :: back)) : Legal calls front fragment := by
  have held : fragment ∈ front ++ fragment :: back :=
    mem_append_right _ mem_cons_self
  obtain ⟨call, known, index⟩ := mem_map.mp (interleaves.own fragment held)
  obtain ⟨part, parts, ends, script, whole, sub⟩ := interleaves.each call known
  have passes : decide (fragment.index = call.index) = true := decide_eq_true index.symm
  rw [filter_append, filter_cons, if_pos passes] at script
  generalize own : front.filter (fun fragment => fragment.index = call.index) = done at script
  have place := place_of_split sub script.symm
  -- parts of the fragments of one call that repeat or end it add nothing to its arguments
  cases place with
  | first =>
    apply Legal.first known
    intro other inside same
    have again : other ∈ front.filter fun fragment => fragment.index = call.index :=
      (mem_of_filter same).mp inside
    rw [own] at again
    cases again
  | more =>
    apply Legal.more
    apply open_of_filter own
    simp
  | @whole first =>
    have start : first = part := by
      simp only [cons_append, List.cons.injEq, Fragment.first.injEq] at script
      exact script.1.2
    apply Legal.whole
    · apply open_of_filter own
      simp
    · rw [gathered_of_filter own, map_cons, join_more, ← whole, start]
      rfl
  | @closed first ends before =>
    have start : first = part := by
      simp only [cons_append, List.cons.injEq, Fragment.first.injEq] at script
      exact script.1.2
    have quiet : ∀ other ∈ ends, other = .whole call := fun other held => by
      simpa using before.subset held
    apply Legal.closed
    · apply open_of_filter own
      rw [mem_append, not_or]
      refine ⟨by simp, fun closing => ?_⟩
      cases quiet _ closing
    · have nothing : String.join (ends.map Fragment.part) = "" := by
        apply join_quiet
        intro text held
        obtain ⟨other, inside, rfl⟩ := mem_map.mp held
        rw [quiet other inside]
        rfl
      rw [gathered_of_filter own, map_cons, map_append, join_more, ← whole, start,
        ← cons_append, String.join_append, nothing, String.append_empty]
      rfl

/-- Fragments that have come one after the other, each of them fitting. -/
inductive Arrived (calls : List ToolCall) : List Fragment → Prop where
  | none : Arrived calls []
  | next {front : List Fragment} {fragment : Fragment} (before : Arrived calls front)
      (legal : Legal calls front fragment) : Arrived calls (front ++ [fragment])

theorem arrived_of_interleaves (interleaves : Interleaves calls fragments) :
    ∀ {front back : List Fragment}, fragments = front ++ back → Arrived calls front := by
  intro front
  induction front using List.reverseRecOn with
  | nil => exact fun _ => .none
  | append_singleton front fragment ih =>
    intro back split
    rw [append_assoc, singleton_append] at split
    exact .next (ih split) (legal_of_interleaves (split ▸ interleaves))

theorem startedCalls_next :
    startedCalls (front ++ [fragment]) = startedCalls front ++ fragment.started.toList := by
  rw [startedCalls_append]
  cases fragment <;> rfl

theorem Arrived.started (arrived : Arrived calls fragments) :
    (∀ call ∈ startedCalls fragments, call ∈ calls) ∧ (startedCalls fragments).Nodup := by
  induction arrived with
  | none => exact ⟨fun _ held => absurd held not_mem_nil, nodup_nil⟩
  | @next front fragment before legal ih =>
    rw [startedCalls_next]
    cases legal with
    | @first call part known fresh =>
      constructor
      · intro other held
        rcases mem_append.mp held with inside | new
        · exact ih.1 other inside
        · rw [mem_singleton.mp new]
          exact known
      · rw [Fragment.started, Option.toList_some, nodup_append_comm, singleton_append, nodup_cons]
        refine ⟨fun again => ?_, ih.2⟩
        obtain ⟨earlier, inside⟩ := mem_startedCalls.mp again
        exact fresh _ inside rfl
    | more | whole | closed => simpa [Fragment.started] using ih

theorem closedCalls_next :
    closedCalls (front ++ [fragment]) = closedCalls front ++ fragment.ended.toList := by
  rw [closedCalls_append]
  cases fragment <;> rfl

theorem Arrived.closed (arrived : Arrived calls fragments) :
    (∀ call ∈ closedCalls fragments, call ∈ startedCalls fragments) ∧ (closedCalls fragments).Nodup := by
  induction arrived with
  | none => exact ⟨fun _ held => absurd held not_mem_nil, nodup_nil⟩
  | @next front fragment before legal ih =>
    rw [closedCalls_next, startedCalls_next]
    have kept : ∀ call ∈ closedCalls front, call ∈ startedCalls front ++ fragment.started.toList :=
      fun call held => mem_append_left _ (ih.1 call held)
    cases legal with
    | @closed call running complete =>
      rw [mem_openCalls] at running
      constructor
      · intro other held
        rcases mem_append.mp held with inside | new
        · exact kept other inside
        · rw [mem_singleton.mp new]
          exact mem_append_left _ (mem_startedCalls.mpr running.1)
      · rw [Fragment.ended, Option.toList_some, nodup_append_comm, singleton_append,
          nodup_cons, mem_closedCalls]
        exact ⟨running.2, ih.2⟩
    | first | more | whole =>
      simp only [Fragment.ended, Option.toList_none, append_nil]
      exact ⟨kept, ih.2⟩

theorem Arrived.closed_or_open (arrived : Arrived calls fragments) :
    (closedCalls fragments ++ openCalls fragments).Perm (startedCalls fragments) := by
  obtain ⟨started, once⟩ := arrived.closed
  have ended : (closedCalls fragments).Perm
      ((startedCalls fragments).filter fun call => call ∈ closedCalls fragments) := by
    rw [perm_ext_iff_of_nodup once (arrived.started.2.filter _)]
    intro call
    rw [mem_filter, decide_eq_true_eq]
    exact ⟨fun held => ⟨started call held, held⟩, And.right⟩
  have split := filter_append_perm (fun call => decide (call ∈ closedCalls fragments))
    (startedCalls fragments)
  simp only [← decide_not] at split
  exact (ended.append_right _).trans split

/-- After all fragments every call has started and its arguments are whole. -/
theorem Interleaves.all_arrived (interleaves : Interleaves calls fragments) :
    (startedCalls fragments).Perm calls ∧ ∀ call ∈ calls, gathered call.index fragments = call.arguments := by
  have arrived := @arrived_of_interleaves fragments calls interleaves fragments []
    (append_nil _).symm
  obtain ⟨known, once⟩ := arrived.started
  constructor
  · rw [perm_ext_iff_of_nodup once (List.Nodup.of_map _ interleaves.ids)]
    intro call
    refine ⟨known call, fun held => ?_⟩
    obtain ⟨part, parts, ends, script, -, -⟩ := interleaves.each call held
    have first : .first call part ∈ fragments.filter fun fragment => fragment.index = call.index :=
      script ▸ mem_cons_self
    exact mem_startedCalls.mpr ⟨part, (mem_filter.mp first).1⟩
  · intro call held
    obtain ⟨part, parts, ends, script, whole, sub⟩ := interleaves.each call held
    have quiet : String.join (ends.map Fragment.part) = "" := by
      apply join_quiet
      intro text inside
      obtain ⟨other, within, rfl⟩ := mem_map.mp inside
      have kind : other = .whole call ∨ other = .closed call := by
        simpa using sub.subset within
      rcases kind with rfl | rfl <;> rfl
    rw [gathered_of_filter script, map_cons, map_append, join_more, ← whole,
      ← cons_append, String.join_append, quiet, String.append_empty]
    rfl

theorem gathered_next : gathered index (front ++ [fragment]) =
      gathered index front ++ if fragment.index = index then fragment.part else "" := by
  rw [gathered_append]
  congr 1
  by_cases same : fragment.index = index
  all_goals simp [gathered, same]

theorem gathered_own (front : List Fragment) (fragment : Fragment) :
    gathered fragment.index (front ++ [fragment]) = gathered fragment.index front ++ fragment.part := by
  rw [gathered_next, if_pos rfl]

theorem openCalls_first (fresh : ∀ fragment ∈ front, fragment.index ≠ call.index) :
    openCalls (front ++ [.first call part]) = openCalls front ++ [call] := by
  have apart : call ∉ closedCalls front := fun held => fresh _ (mem_closedCalls.mp held) rfl
  rw [openCalls, startedCalls_next, closedCalls_next]
  simp only [Fragment.started, Fragment.ended, Option.toList_some, Option.toList_none,
    append_nil, filter_append]
  rw [filter_cons_of_pos (by simpa using apart)]
  rfl

theorem openCalls_kept (started : fragment.started = none) (ended : fragment.ended = none) :
    openCalls (front ++ [fragment]) = openCalls front := by
  rw [openCalls, startedCalls_next, closedCalls_next, started, ended]
  simp [openCalls]

theorem openCalls_closed :
    openCalls (front ++ [.closed call]) = (openCalls front).filter fun other => other ≠ call := by
  rw [openCalls, startedCalls_next, closedCalls_next, openCalls, filter_filter]
  simp only [Fragment.started, Fragment.ended, Option.toList_none, Option.toList_some, append_nil,
    mem_append, mem_singleton, not_or, Bool.decide_and]
  apply filter_congr
  intro other _
  exact Bool.and_comm _ _

theorem openCalls_known (arrived : Arrived calls fragments) :
    (∀ call ∈ openCalls fragments, call ∈ calls) ∧ (openCalls fragments).Nodup :=
  ⟨fun call held => arrived.started.1 call (mem_of_mem_filter held), arrived.started.2.filter _⟩

end QiongQi.ToolCallFragments
