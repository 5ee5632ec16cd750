import Mathlib.Data.List.Chain
import Mathlib.Data.List.DropRight
import QiongQi.PlanTodos

/-! Patching a plan's checkbox. The patch finds the line of a todo among all task lines,
the extraction numbers those with a content; the patched text is joined with one kind of
break, and what stands behind the text of the patched line is dropped. -/
namespace QiongQi.PlanPatches
open TextLines RuntimeContracts ThreadRecords ThreadTodos PlanTodos List

variable {c : Char} {chars rest gap : List Char} {task : TaskLine}

theorem takeWhile_blanks (rest : List Char) (blank : ∀ d ∈ blanks, isJsSpace d = true)
    (visible : isJsSpace c = false) :
    (blanks ++ c :: rest).takeWhile isJsSpace = blanks ∧
      (blanks ++ c :: rest).dropWhile isJsSpace = c :: rest := by
  rw [takeWhile_append_of_pos blank, dropWhile_append_of_pos blank]
  simp [visible]

theorem visible_of_dropWhile (starts : chars.dropWhile isJsSpace = c :: rest) :
    isJsSpace c = false := by
  have stops := head?_dropWhile_not isJsSpace chars
  rw [starts] at stops
  simpa using stops

theorem trimEndChars_append :
    trimEndChars chars ++ chars.drop (trimEndChars chars).length = chars := by
  have front : trimEndChars chars <+: chars := by
    have suffix := dropWhile_suffix isJsSpace (l := chars.reverse)
    simpa [trimEndChars] using List.reverse_prefix.mpr suffix
  exact prefix_iff_eq_append.mp front

theorem trimEndChars_idem : trimEndChars (trimEndChars chars) = trimEndChars chars := by
  unfold trimEndChars
  rw [reverse_reverse, dropWhile_idempotent]

theorem trimEndChars_cons (seen : isJsSpace c = false) :
    trimEndChars (c :: rest) = c :: trimEndChars rest := by
  unfold trimEndChars
  rw [reverse_cons, dropWhile_append]
  split
  · rename_i blank
    rw [isEmpty_iff.mp blank]
    simp [seen]
  · simp

/-- What the end of a task line is read as: blanks, then a text that is blank itself or
begins and ends with something to see. -/
structure TaskEnd (rest gap text trailing : List Char) : Prop where
  whole : gap ++ (text ++ trailing) = rest
  blanks : ∀ c ∈ gap, isJsSpace c = true
  some_ : gap ≠ []
  shown : (∀ c ∈ text, isJsSpace c = true) ∨
    (∃ c more, text = c :: more ∧ isJsSpace c = false) ∧ trimEndChars text = text ∧
      text.any isLineTerminator = false

theorem taskText_end (read : taskText rest = some (gap, text, trailing)) :
    TaskEnd rest gap text trailing := by
  have parts : rest.takeWhile isJsSpace ++ rest.dropWhile isJsSpace = rest :=
    takeWhile_append_dropWhile
  have blank : ∀ c ∈ rest.takeWhile isJsSpace, isJsSpace c = true :=
    fun c found => mem_takeWhile_imp found
  unfold taskText at read
  dsimp only at read
  split at read
  · rename_i empty
    rw [empty, append_nil] at parts
    rw [parts] at read blank
    unfold blankText at read
    split at read
    · cases read
    · rename_i first others
      have cut : others.reverse.takeWhile isLineTerminator ++
          others.reverse.dropWhile isLineTerminator = others.reverse :=
        takeWhile_append_dropWhile
      split at read
      · cases read
      · rename_i c before last
        cases read
        rw [last] at cut
        have whole : others =
            before.reverse ++ ([c] ++ (others.reverse.takeWhile isLineTerminator).reverse) := by
          have turned := congrArg List.reverse cut
          simpa using turned.symm
        have within : ∀ d ∈ others, isJsSpace d = true :=
          fun d found => blank d (mem_cons_of_mem _ found)
        refine ⟨?_, ?_, cons_ne_nil _ _, .inl ?_⟩
        · rw [cons_append, ← whole]
        · intro d found
          rcases mem_cons.mp found with rfl | found
          · exact blank d mem_cons_self
          · exact within d (by rw [whole]; exact mem_append_left _ found)
        · intro d found
          refine within d ?_
          rw [whole]
          exact mem_append_right _ (mem_append_left _ found)
  · rename_i visible
    split at read
    · cases read
    · rename_i accepted
      cases read
      simp only [Bool.or_eq_true, decide_eq_true_eq, not_or, Bool.not_eq_true] at accepted
      refine ⟨?_, blank, accepted.1, .inr ⟨?_, trimEndChars_idem, accepted.2⟩⟩
      · rw [trimEndChars_append, parts]
      · obtain ⟨c, more, starts⟩ := exists_cons_of_ne_nil visible
        have seen := visible_of_dropWhile starts
        rw [starts, trimEndChars_cons seen]
        exact ⟨c, _, rfl, seen⟩

theorem taskText_again (blanks : ∀ d ∈ gap, isJsSpace d = true) (some_ : gap ≠ [])
    (starts : text = c :: more) (seen : isJsSpace c = false) (trimmed : trimEndChars text = text)
    (single : text.any isLineTerminator = false) :
    taskText (gap ++ text) = some (gap, text, []) := by
  obtain ⟨front, back⟩ := takeWhile_blanks more blanks seen
  rw [← starts] at front back
  unfold taskText
  dsimp only
  rw [front, back, trimmed, drop_length, if_neg (by rw [starts]; exact cons_ne_nil _ _),
    if_neg (by simp [some_, single])]

/-- All characters of a task line. -/
def taskChars (task : TaskLine) : List Char :=
  task.lead ++ task.marker :: (task.gap ++ (task.text ++ task.trailing))

/-- How a task line is read: its indent, its bullet and blanks, its box and its text. -/
structure TaskRead (line : List Char) (task : TaskLine) (indent : List Char) (bullet : Char)
    (blanks gap : List Char) : Prop where
  indented : ∀ c ∈ indent, isJsSpace c = true
  bulleted : isBullet bullet = true
  spaced : ∀ c ∈ blanks, isJsSpace c = true
  some_ : blanks ≠ []
  lead : task.lead = indent ++ bullet :: blanks ++ ['[']
  box : task.gap = ']' :: gap
  marks : isMarker task.marker = true
  ends : TaskEnd (gap ++ (task.text ++ task.trailing)) gap task.text task.trailing
  whole : taskChars task = line

theorem taskBox_some (read : taskBox lead rest = some task) :
    ∃ gap tail, rest = '[' :: task.marker :: ']' :: tail ∧ isMarker task.marker = true ∧
      taskText tail = some (gap, task.text, task.trailing) ∧ task.lead = lead ++ ['['] ∧
      task.gap = ']' :: gap := by
  unfold taskBox at read
  split at read
  · rename_i marker tail
    split at read
    · rename_i marks
      obtain ⟨⟨gap, text, trailing⟩, found, rfl⟩ := Option.map_eq_some_iff.mp read
      exact ⟨gap, tail, rfl, marks, found, rfl, rfl⟩
    · cases read
  · cases read

theorem taskLine_read (read : taskLine line = some task) :
    ∃ indent bullet blanks gap, TaskRead line task indent bullet blanks gap := by
  have parts : line.takeWhile isJsSpace ++ line.dropWhile isJsSpace = line :=
    takeWhile_append_dropWhile
  unfold taskLine at read
  split at read
  · rename_i bullet rest starts
    dsimp only at read
    split at read
    · rename_i opened
      rw [Bool.and_eq_true, decide_eq_true_eq] at opened
      obtain ⟨gap, tail, boxed, marks, found, lead, box⟩ := taskBox_some read
      have inner : rest.takeWhile isJsSpace ++ rest.dropWhile isJsSpace = rest :=
        takeWhile_append_dropWhile
      have ends := taskText_end found
      refine ⟨line.takeWhile isJsSpace, bullet, rest.takeWhile isJsSpace, gap,
        fun c found => mem_takeWhile_imp found, opened.1,
        fun c found => mem_takeWhile_imp found, opened.2, lead, box, marks, ?_, ?_⟩
      · exact ⟨rfl, ends.blanks, ends.some_, ends.shown⟩
      · calc taskChars task = line.takeWhile isJsSpace ++ bullet :: (rest.takeWhile isJsSpace ++
                '[' :: task.marker :: ']' :: (gap ++ (task.text ++ task.trailing))) := by
              simp [taskChars, lead, box]
          _ = line.takeWhile isJsSpace ++ bullet :: rest := by rw [ends.whole, ← boxed, inner]
          _ = line := by rw [← starts, parts]
    · cases read
  · cases read

/-- A patched line is a task line with the new marker and nothing behind its text. -/
theorem TaskRead.marked {line : List Char} {indent blanks : List Char} {bullet : Char}
    (read : TaskRead line task indent bullet blanks gap) {marker : Char}
    (marks : isMarker marker = true) (shown : ∃ c ∈ task.text, isJsSpace c = false) :
    taskLine (task.patched marker) = some { task with marker, trailing := [] } := by
  have visible : isJsSpace bullet = false := by
    have bulleted := read.bulleted
    simp only [isBullet, Bool.or_eq_true, decide_eq_true_eq] at bulleted
    rcases bulleted with (rfl | rfl) | rfl <;> rfl
  have text : taskText (gap ++ task.text) = some (gap, task.text, []) := by
    rcases read.ends.shown with blank | ⟨⟨c, more, starts, seen⟩, trimmed, single⟩
    · obtain ⟨c, found, seen⟩ := shown
      rw [blank c found] at seen
      cases seen
    · exact taskText_again read.ends.blanks read.ends.some_ starts seen trimmed single
  have chars : task.patched marker =
      indent ++ bullet :: (blanks ++ '[' :: marker :: ']' :: (gap ++ task.text)) := by
    simp [TaskLine.patched, read.lead, read.box]
  obtain ⟨outer, inner⟩ := takeWhile_blanks
    (blanks ++ '[' :: marker :: ']' :: (gap ++ task.text)) read.indented visible
  obtain ⟨front, back⟩ := takeWhile_blanks (c := '[')
    (marker :: ']' :: (gap ++ task.text)) read.spaced rfl
  have opened : (isBullet bullet && decide (blanks ≠ [])) = true := by
    rw [read.bulleted, decide_eq_true read.some_, Bool.and_self]
  unfold taskLine
  rw [chars, outer, inner]
  dsimp only
  rw [front, back, if_pos opened]
  rw [taskBox.eq_1, if_pos marks, text, Option.map_some, read.lead, read.box, append_assoc, cons_append]

/-- No two blanks stand together, and each of them is a space. -/
structure Collapsed (chars : List Char) : Prop where
  apart : chars.IsChain fun c next => isJsSpace c = true → isJsSpace next = false
  spaces : ∀ c ∈ chars, isJsSpace c = true → c = ' '

theorem collapseSpaces_cons_cons : collapseSpaces (c :: d :: rest) = if isJsSpace c then
        if isJsSpace d then collapseSpaces (d :: rest)
        else ' ' :: collapseSpaces (d :: rest)
      else c :: collapseSpaces (d :: rest) := rfl

theorem collapseSpaces_collapsed (chars : List Char) : Collapsed (collapseSpaces chars) ∧
      ∀ c ∈ (collapseSpaces chars).head?, ∀ first ∈ chars.head?, isJsSpace c = isJsSpace first := by
  induction chars with
  | nil => exact ⟨⟨.nil, nofun⟩, nofun⟩
  | cons c rest ih =>
    obtain ⟨⟨apart, spaces⟩, starts⟩ := ih
    have placed : ∀ d : Char, (isJsSpace d = true → d = ' ' ∧ ∀ e ∈ rest.head?, isJsSpace e = false) →
        Collapsed (d :: collapseSpaces rest) := by
      intro d single
      refine ⟨isChain_cons.mpr ⟨fun e found blank => ?_, apart⟩, fun e found blank => ?_⟩
      · cases rest with
        | nil => cases found
        | cons next more => rw [starts e found next rfl, (single blank).2 next rfl]
      · rcases mem_cons.mp found with rfl | found
        · exact (single blank).1
        · exact spaces e found blank
    by_cases blank : isJsSpace c = true
    · cases rest with
      | nil =>
        have alone : collapseSpaces [c] = [' '] := by simp [collapseSpaces, blank]
        rw [alone]
        exact ⟨placed ' ' fun _ => ⟨rfl, nofun⟩, by simp [blank]; rfl⟩
      | cons next more =>
        rw [collapseSpaces_cons_cons, if_pos blank]
        split
        · rename_i again
          refine ⟨⟨apart, spaces⟩, fun d found first same => ?_⟩
          rw [starts d found next rfl, again, ← Option.some.inj same, blank]
        · rename_i visible
          refine ⟨placed ' ' fun _ => ⟨rfl, ?_⟩, ?_⟩
          · simpa using visible
          · simp [blank]
            rfl
    · have kept : collapseSpaces (c :: rest) = c :: collapseSpaces rest := by
        cases rest with
        | nil => simp [collapseSpaces, blank]
        | cons next more => rw [collapseSpaces_cons_cons, if_neg blank]
      rw [kept]
      refine ⟨placed c fun found => absurd found blank, ?_⟩
      simp

theorem collapseSpaces_mem (found : c ∈ collapseSpaces chars) : c ∈ chars ∨ c = ' ' := by
  induction chars with
  | nil => cases found
  | cons first rest ih =>
    have later : c ∈ collapseSpaces rest → c ∈ first :: rest ∨ c = ' ' := fun found =>
      (ih found).imp (mem_cons_of_mem first) id
    cases rest with
    | nil =>
      unfold collapseSpaces at found
      split at found
      · exact .inr (mem_singleton.mp found)
      · exact .inl found
    | cons next more =>
      rw [collapseSpaces_cons_cons] at found
      split at found
      · split at found
        · exact later found
        · exact (mem_cons.mp found).elim .inr later
      · exact (mem_cons.mp found).elim (fun same => .inl (same ▸ mem_cons_self)) later

theorem collapseSpaces_self (collapsed : Collapsed chars) : collapseSpaces chars = chars := by
  induction chars with
  | nil => rfl
  | cons c rest ih =>
    have kept := ih ⟨collapsed.apart.tail, fun d found =>
      collapsed.spaces d (mem_cons_of_mem _ found)⟩
    have single := collapsed.spaces c mem_cons_self
    cases rest with
    | nil => 
      by_cases blank : isJsSpace c = true
      · rw [single blank]
        rfl
      · simp [collapseSpaces, blank]
    | cons next more =>
      rw [collapseSpaces_cons_cons, kept]
      have apart := (isChain_cons_cons.mp collapsed.apart).1
      split
      · rename_i blank
        rw [if_neg (by simp [apart blank]), single blank]
      · rfl

theorem trimChars_infix (chars : List Char) : trimChars chars <:+: chars := by
  have front : trimChars chars <+: chars.dropWhile isJsSpace := by
    have suffix := dropWhile_suffix isJsSpace (l := (chars.dropWhile isJsSpace).reverse)
    simpa [trimChars] using List.reverse_prefix.mpr suffix
  exact front.isInfix.trans (dropWhile_suffix isJsSpace).isInfix

theorem normalizeTodoContent_idem :
    normalizeTodoContent (normalizeTodoContent value) = normalizeTodoContent value := by
  have collapsed := (collapseSpaces_collapsed value.toList).1
  have inside := trimChars_infix (collapseSpaces value.toList)
  have apart := List.IsChain.infix collapsed.apart inside
  have kept : collapseSpaces (trimChars (collapseSpaces value.toList)) =
      trimChars (collapseSpaces value.toList) :=
    collapseSpaces_self ⟨apart, fun c found => collapsed.spaces c (inside.subset found)⟩
  unfold normalizeTodoContent
  rw [String.toList_ofList, kept, trimChars_idem]

/-- A content is not blank, so there is something to see in the text. -/
theorem TaskLine.shown (some_ : task.content ≠ "") : ∃ c ∈ task.text, isJsSpace c = false := by
  by_contra hidden
  have blank : ∀ c ∈ task.text, isJsSpace c = true := fun c found => by
    by_contra seen
    exact hidden ⟨c, found, by simpa using seen⟩
  have spaces : ∀ c ∈ collapseSpaces task.text, isJsSpace c = true := fun c found =>
    (collapseSpaces_mem found).elim (blank c) fun same => same ▸ rfl
  refine some_ ?_
  unfold TaskLine.content normalizeTodoContent trimChars
  rw [String.toList_ofList, dropWhile_eq_nil_iff.mpr spaces]
  rfl

section
variable {toLowerCase : String → String}

theorem contentHashOf_content : contentHashOf toLowerCase task.content = task.hash toLowerCase := by
  unfold TaskLine.hash contentHashOf todoContentHash TaskLine.content
  rw [normalizeTodoContent_idem]

/-- The task line of a plan's line, unless its content is blank. -/
def shownTask (line : BrokenLine) : Option TaskLine :=
  (taskLine line.1).filter fun task => task.content ≠ ""

def shownTasks (lines : List BrokenLine) : List TaskLine := lines.filterMap shownTask

variable {line : BrokenLine} {place : PlanPlace} {markdown text : String}
variable {ordinal index : Nat} {before after : List BrokenLine} {status : ThreadTodoStatus}

theorem shownTask_some (shown : shownTask line = some task) :
    taskLine line.1 = some task ∧ task.content ≠ "" := by
  simpa [shownTask, Option.filter_eq_some_iff] using shown

theorem extractFrom_eq : extractFrom toLowerCase place ordinal (lines.map Prod.fst) =
      ((shownTasks lines).zipIdx ordinal).map fun (task, ordinal) =>
        planTodo toLowerCase place ordinal task := by
  induction lines generalizing ordinal with
  | nil => rfl
  | cons line rest ih =>
    rw [map_cons, extractFrom]
    split
    · rename_i none_
      have hidden : shownTask line = none := by simp [shownTask, none_]
      rw [shownTasks, filterMap_cons_none hidden, ih]
      rfl
    · rename_i task found
      split
      · rename_i blank
        have hidden : shownTask line = none := by simp [shownTask, found, blank]
        rw [shownTasks, filterMap_cons_none hidden, ih]
        rfl
      · rename_i some_
        have shown : shownTask line = some task := by simp [shownTask, found, some_]
        rw [shownTasks, filterMap_cons_some shown, ih]
        rfl

/-- A line of the plan that is the place of an item: what stands before and behind it, and
as which task line it is read. -/
structure ItemLine (markdown : String) (ordinal : Nat) (before : List BrokenLine)
    (line : BrokenLine) (task : TaskLine) (after : List BrokenLine) : Prop where
  cut : splitBreaks markdown.toList = before ++ line :: after
  read : taskLine line.1 = some task
  content : task.content ≠ ""
  place : (shownTasks before).length = ordinal

theorem extracted_line (extracted : item ∈ extractPlanTodos toLowerCase place markdown) :
    ∃ before line task after, ItemLine markdown item.source.ordinal before line task after ∧
      item = planTodo toLowerCase place item.source.ordinal task := by
  rw [extractPlanTodos, splitLines, extractFrom_eq] at extracted
  obtain ⟨⟨task, ordinal⟩, found, rfl⟩ := mem_map.mp extracted
  obtain ⟨inside, named⟩ := mem_zipIdx' found
  have parts : (shownTasks (splitBreaks markdown.toList)) =
      (shownTasks (splitBreaks markdown.toList)).take ordinal ++
        (shownTasks (splitBreaks markdown.toList))[ordinal] ::
          (shownTasks (splitBreaks markdown.toList)).drop (ordinal + 1) := by
    rw [← drop_eq_getElem_cons, take_append_drop]
  obtain ⟨before, later, cut, first, second⟩ := filterMap_eq_append_iff.mp parts
  obtain ⟨hidden, line, after, split, none_, shown, -⟩ := filterMap_eq_cons_iff.mp second
  obtain ⟨read, content⟩ := shownTask_some shown
  rw [← named] at read content
  refine ⟨before ++ hidden, line, task, after, ⟨?_, read, content, ?_⟩, rfl⟩
  · rw [cut, split, append_assoc]
  · rw [shownTasks, filterMap_append, first, filterMap_eq_nil_iff.mpr none_,
      append_nil, length_take, Nat.min_eq_left inside.le]
    rfl

theorem ItemLine.place_behind (item : ItemLine markdown ordinal before line task after)
    (more : List BrokenLine) : (shownTasks (before ++ line :: more)).length ≠ ordinal := by
  have shown : shownTask line = some task := by simp [shownTask, item.read, item.content]
  rw [shownTasks, filterMap_append, filterMap_cons_some shown, length_append,
    length_cons, ← item.place, shownTasks]
  omega

theorem ItemLine.unique (first : ItemLine markdown ordinal before line task after)
    (second : ItemLine markdown ordinal before' line' task' after') :
    before = before' ∧ line = line' ∧ task = task' ∧ after = after' := by
  have same : before = before' ∧ line :: after = line' :: after' := by
    rcases append_eq_append_iff.mp (first.cut.symm.trans second.cut) with
      ⟨more, whole, split⟩ | ⟨more, whole, split⟩
    · cases more with
      | nil => exact ⟨by simpa using whole.symm, split⟩
      | cons next more =>
        rw [(cons_eq_cons.mp split).1.symm] at whole
        exact absurd (whole ▸ second.place) (first.place_behind more)
    · cases more with
      | nil => exact ⟨by simpa using whole, split.symm⟩
      | cons next more =>
        rw [(cons_eq_cons.mp split).1.symm] at whole
        exact absurd (whole ▸ first.place) (second.place_behind more)
  obtain ⟨front, rest⟩ := same
  obtain ⟨own, back⟩ := cons_eq_cons.mp rest
  have read := first.read
  rw [own, second.read] at read
  exact ⟨front, own, (Option.some.inj read).symm, back⟩

def tasksOf (lines : List BrokenLine) : List TaskLine := lines.filterMap fun line => taskLine line.1

/-- The patch finds the item's line: no task line before it is blank, which would shift the
numbers, or none has its hash. -/
def Foremost (toLowerCase : String → String) (before : List BrokenLine) (task : TaskLine) : Prop :=
  (∀ other ∈ tasksOf before, other.content ≠ "") ∨
    ∀ other ∈ tasksOf before, other.hash toLowerCase ≠ task.hash toLowerCase

/-- The task line that it finds otherwise: the one at the item's number if it has the hash,
else the first that has it. -/
def rival (toLowerCase : String → String) (before : List BrokenLine) (ordinal : Nat)
    (task : TaskLine) : Option TaskLine :=
  ((tasksOf before)[ordinal]?.filter fun other =>
      other.hash toLowerCase = task.hash toLowerCase) <|>
    (tasksOf before).find? fun other => other.hash toLowerCase = task.hash toLowerCase

theorem find?_zipIdx (p : α → Bool) (items : List α) (start place : Nat) :
    ((items.zipIdx start).find? fun entry => entry.2 = start + place && p entry.1).map Prod.fst =
      items[place]?.filter p := by
  induction items generalizing start place with
  | nil => rfl
  | cons first rest ih =>
    cases place with
    | zero =>
      have later : ((rest.zipIdx (start + 1)).find? fun entry => entry.2 = start + 0 && p entry.1) =
          none := by
        refine find?_eq_none.mpr fun entry found => ?_
        have bound := le_snd_of_mem_zipIdx found
        simp only [Bool.and_eq_true, decide_eq_true_eq, not_and]
        omega
      rw [zipIdx_cons, find?_cons, later]
      cases accepted : p first <;> simp [accepted, Option.filter]
    | succ place =>
      have behind : start + (place + 1) = start + 1 + place := by omega
      rw [behind, zipIdx_cons, find?_cons_of_neg, ih, getElem?_cons_succ]
      simp only [Bool.and_eq_true, decide_eq_true_eq, not_and]
      omega

theorem taskLines_split (read : taskLine line.1 = some task) :
    ∃ earlier later, taskLines ((before ++ line :: after).map Prod.fst) =
        earlier ++ (before.length, task) :: later ∧ earlier.map Prod.snd = tasksOf before ∧
      ∀ entry ∈ earlier, ∃ other, before[entry.1]? = some other ∧ taskLine other.1 = some entry.2 := by
  let named : List Char × Nat → Option (Nat × TaskLine) := fun entry =>
    (taskLine entry.1).map fun task => (entry.2, task)
  have own : named (line.1, before.length) = some (before.length, task) := by simp [named, read]
  refine ⟨(before.map Prod.fst).zipIdx.filterMap named,
    ((after.map Prod.fst).zipIdx (before.length + 1)).filterMap named, ?_, ?_, ?_⟩
  · rw [taskLines, map_append, map_cons, zipIdx_append, filterMap_append,
      length_map, Nat.zero_add, zipIdx_cons]
    exact congrArg (_ ++ ·) (filterMap_cons_some own)
  · have forgets : ∀ entry, (named entry).map Prod.snd = taskLine entry.1 := by
      intro entry
      simp [named, Function.comp_def]
    rw [map_filterMap, funext forgets]
    calc ((before.map Prod.fst).zipIdx.filterMap fun entry => taskLine entry.1)
        = ((before.map Prod.fst).zipIdx.map Prod.fst).filterMap taskLine := by
          rw [filterMap_map]
          rfl
      _ = (before.map Prod.fst).filterMap taskLine := by rw [zipIdx_map_fst]
      _ = tasksOf before := by
          rw [filterMap_map]
          rfl
  · intro entry found
    obtain ⟨⟨chars, index⟩, held, named⟩ := mem_filterMap.mp found
    obtain ⟨task, accepted, rfl⟩ := Option.map_eq_some_iff.mp named
    have placed := mem_zipIdx_iff_getElem?.mp held
    obtain ⟨other, at_, rfl⟩ := Option.map_eq_some_iff.mp
      ((getElem?_map (f := Prod.fst)).symm.trans placed)
    exact ⟨other, at_, accepted⟩

theorem shownTasks_eq :
    shownTasks lines = (tasksOf lines).filter fun task => task.content ≠ "" := by
  rw [shownTasks, tasksOf, filter_filterMap]
  rfl

theorem orElse_some (found : (first <|> second) = some value) :
    (first <|> second <|> third) = some value := by
  cases first with
  | some _ => exact found
  | none =>
    cases second with
    | some _ => exact found
    | none => cases found

/-- The first two lookups of the patch, the numbered one without its count. -/
theorem patchTarget_some (found : ((tasks[source.ordinal]?.filter fun entry =>
        entry.2.hash toLowerCase = source.contentHash) <|>
      tasks.find? fun entry => entry.2.hash toLowerCase = source.contentHash) = some target) :
    patchTarget toLowerCase tasks source = some target := by
  have first := find?_zipIdx (fun entry : Nat × TaskLine =>
    decide (entry.2.hash toLowerCase = source.contentHash)) tasks 0 source.ordinal
  rw [Nat.zero_add] at first
  rw [← first] at found
  exact orElse_some found

/-- The line that is patched for an item: its own or, in front of it, the rival. -/
theorem patchTarget_eq (item : ItemLine markdown ordinal before line task after)
    (number : source.ordinal = ordinal) (hash : source.contentHash = task.hash toLowerCase) :
    (Foremost toLowerCase before task ∧
        patchTarget toLowerCase (taskLines (splitLines markdown.toList)) source =
          some (before.length, task)) ∨
      ¬ Foremost toLowerCase before task ∧
        ∃ index other chars, rival toLowerCase before ordinal task = some other ∧
          before[index]? = some chars ∧ taskLine chars.1 = some other ∧
          patchTarget toLowerCase (taskLines (splitLines markdown.toList)) source = some (index, other) := by
  obtain ⟨earlier, later, whole, names, placed⟩ := taskLines_split item.read
  have bound : (shownTasks before).length ≤ (tasksOf before).length := by
    rw [shownTasks_eq]
    exact length_filter_le _ _
  have length : (tasksOf before).length = earlier.length := by rw [← names, length_map]
  rw [splitLines, item.cut, whole]
  have own : decide (task.hash toLowerCase = source.contentHash) = true := by simp [hash]
  by_cases shown : ∀ other ∈ tasksOf before, other.content ≠ ""
  · refine .inl ⟨.inl shown, patchTarget_some ?_⟩
    have all : (shownTasks before).length = earlier.length := by
      rw [shownTasks_eq, filter_eq_self.mpr (by simpa using shown), length]
    rw [number, ← item.place, all, getElem?_append_right le_rfl, Nat.sub_self,
      getElem?_cons_zero, Option.filter_some, if_pos own]
    rfl
  · have inside : ordinal < earlier.length := by
      rw [← item.place, ← length, shownTasks_eq]
      refine length_filter_lt_length_iff_exists.mpr ?_
      simpa using shown
    by_cases differs : ∀ other ∈ tasksOf before, other.hash toLowerCase ≠ task.hash toLowerCase
    · refine .inl ⟨.inr differs, patchTarget_some ?_⟩
      have apart : ∀ entry ∈ earlier, ¬ decide (entry.2.hash toLowerCase = source.contentHash) = true := by
        intro entry found
        rw [hash, decide_eq_true_eq]
        exact differs _ (names ▸ mem_map_of_mem found)
      have next : (((before.length, task) :: later).find? fun entry =>
          decide (entry.2.hash toLowerCase = source.contentHash)) = some (before.length, task) :=
        find?_cons_of_pos own
      rw [number, getElem?_append_left inside, getElem?_eq_getElem inside,
        Option.filter_some, if_neg (apart _ (getElem_mem inside)), find?_append,
        find?_eq_none.mpr apart, next]
      rfl
    · refine .inr ⟨fun foremost => foremost.elim shown differs, ?_⟩
      simp only [not_forall, not_not] at differs
      obtain ⟨twin, held, alike⟩ := differs
      rw [← names] at held
      obtain ⟨first, within, rfl⟩ := mem_map.mp held
      have some_ : (earlier.find? fun entry =>
          decide (entry.2.hash toLowerCase = source.contentHash)).isSome := by
        rw [find?_isSome]
        exact ⟨first, within, by simpa [hash] using alike⟩
      obtain ⟨second, found⟩ := Option.isSome_iff_exists.mp some_
      obtain ⟨entry, chosen, among⟩ : ∃ entry, ((earlier[ordinal]?.filter fun entry =>
          decide (entry.2.hash toLowerCase = source.contentHash)) <|> some second) = some entry ∧
            entry ∈ earlier := by
        cases numbered : earlier[ordinal]?.filter fun entry =>
            decide (entry.2.hash toLowerCase = source.contentHash) with
        | none => exact ⟨second, rfl, mem_of_find?_eq_some found⟩
        | some entry =>
          exact ⟨entry, rfl, mem_of_getElem? (Option.filter_eq_some_iff.mp numbered).1⟩
      obtain ⟨chars, placedAt, read⟩ := placed entry among
      refine ⟨entry.1, entry.2, chars, ?_, placedAt, read, patchTarget_some ?_⟩
      · unfold rival
        rw [← names, ← hash, getElem?_map, find?_map, Option.filter_map,
          Option.orElse_eq_orElse, Option.orElse_eq_or]
        have forgotten := congrArg (Option.map Prod.snd) chosen
        rw [← found, Option.orElse_eq_orElse, Option.orElse_eq_or, Option.map_or] at forgotten
        exact forgotten
      · rw [number, getElem?_append_left inside, find?_append, found]
        exact chosen

/-- The status that a checkbox shows for a todo's. -/
def shownStatus (status : ThreadTodoStatus) : ThreadTodoStatus :=
  if status = .completed then .completed else .pending

/-- An extracted todo with the status to show. -/
def asked (item : ExtractedPlanTodo) (status : ThreadTodoStatus) : ThreadTodoItem :=
  { id := item.id
    content := item.content
    status
    source := some item.source
    createdAt := item.createdAt
    updatedAt := item.updatedAt }

/-- The text is the plan's but for the character in the box of the item's line. -/
def BoxOnly (markdown : String) (ordinal : Nat) (text : String) : Prop :=
  ∃ before line task after marker, ItemLine markdown ordinal before line task after ∧ isMarker marker = true ∧
      text.toList = joinBreaks (before ++ (taskChars { task with marker }, line.2) :: after)

/-- The items of the patched text are the plan's but for the status of one, and the texts
differ in one checkbox. -/
structure PatchesOnly (toLowerCase : String → String) (place : PlanPlace) (markdown : String)
    (item : ExtractedPlanTodo) (status : ThreadTodoStatus) : Prop where
  items : extractPlanTodos toLowerCase place
      (patchPlanTodoStatus toLowerCase markdown (asked item status)).markdown =
    (extractPlanTodos toLowerCase place markdown).modify item.source.ordinal
      fun other => { other with status := shownStatus status }
  text : BoxOnly markdown item.source.ordinal
    (patchPlanTodoStatus toLowerCase markdown (asked item status)).markdown

/-- All breaks of the text are alike. -/
def OneBreak (markdown : String) : Prop :=
  ∃ ending, ∀ line ∈ splitBreaks markdown.toList, line.2 = ending ∨ line.2 = []

/-- The box shows the status already or the text is kept when its lines are joined; and the
item's line is found, or it and the one found instead show the status. -/
structure Patchable (toLowerCase : String → String) (markdown : String) (ordinal : Nat)
    (before : List BrokenLine) (task : TaskLine) (status : ThreadTodoStatus) : Prop where
  kept : task.marked (markerFor status) = true ∨ OneBreak markdown ∧ task.trailing = []
  found : Foremost toLowerCase before task ∨ task.marked (markerFor status) = true ∧
    ∀ other ∈ rival toLowerCase before ordinal task, other.marked (markerFor status) = true

theorem modify_append :
    (front ++ item :: back).modify front.length f = front ++ f item :: back := by
  induction front with
  | nil => rfl
  | cons first rest ih => exact congrArg (first :: ·) ih

/-- The todos of the plan with that of one line among them. -/
theorem extractFrom_split : ∃ front back, front.length = (shownTasks before).length ∧
      ∀ {line : BrokenLine} {task : TaskLine}, shownTask line = some task →
        extractFrom toLowerCase place 0 ((before ++ line :: after).map Prod.fst) =
          front ++ planTodo toLowerCase place (shownTasks before).length task :: back := by
  refine ⟨(shownTasks before).zipIdx.map fun (task, ordinal) =>
      planTodo toLowerCase place ordinal task,
    ((shownTasks after).zipIdx ((shownTasks before).length + 1)).map fun (task, ordinal) =>
      planTodo toLowerCase place ordinal task, by simp, ?_⟩
  intro line task shown
  have parts : shownTasks (before ++ line :: after) = shownTasks before ++ task :: shownTasks after := by
    rw [shownTasks, filterMap_append, filterMap_cons_some shown]
    rfl
  rw [extractFrom_eq, parts, zipIdx_append, map_append, Nat.zero_add, zipIdx_cons, map_cons]

theorem extractFrom_replaced (shown : shownTask line = some task)
    (after_ : shownTask other = some next_) (text : next_.text = task.text)
    (shows : taskMarkerToStatus next_.marker = status) :
    extractFrom toLowerCase place 0 ((before ++ other :: after).map Prod.fst) =
      (extractFrom toLowerCase place 0 ((before ++ line :: after).map Prod.fst)).modify
        (shownTasks before).length fun todo => { todo with status } := by
  obtain ⟨front, back, length, split⟩ :=
    extractFrom_split
  rw [split shown, split after_, ← length, modify_append]
  unfold planTodo TaskLine.content
  rw [text, ← shows]

theorem isMarker_markerFor (status : ThreadTodoStatus) : isMarker (markerFor status) = true := by
  unfold markerFor
  split <;> rfl

theorem marked_iff (marks : isMarker task.marker = true) (status : ThreadTodoStatus) :
    task.marked (markerFor status) = true ↔ taskMarkerToStatus task.marker = shownStatus status := by
  simp only [isMarker, Bool.or_eq_true, decide_eq_true_eq] at marks
  unfold TaskLine.marked markerFor taskMarkerToStatus shownStatus
  rcases marks with (marker | marker) | marker <;> rw [marker] <;> cases status <;> decide

theorem marked_of_same (same : task.marker = markerFor status) :
    task.marked (markerFor status) = true := by
  unfold TaskLine.marked
  rw [same]
  cases status <;> rfl

theorem lineEnding_kind (text : List Char) :
    lineEnding text = ['\n'] ∨ lineEnding text = ['\r', '\n'] := by
  unfold lineEnding
  split
  · exact .inr rfl
  · exact .inl rfl

theorem lineEnding_one (one : OneBreak markdown) : ∀ line ∈ splitBreaks markdown.toList,
      line.2 = lineEnding markdown.toList ∨ line.2 = [] := by
  obtain ⟨ending, alike⟩ := one
  intro line found
  unfold lineEnding
  split
  · rename_i returned
    obtain ⟨first, among, ends⟩ := (hasReturnBreak_iff _).mp returned
    have same := alike first among
    rw [ends] at same
    rw [same.resolve_right nofun]
    exact alike line found
  · rename_i plain
    obtain ⟨index, at_⟩ := getElem?_of_mem found
    rcases (splitBreaks_broken markdown.toList).loose.ending at_ with ⟨-, ends⟩ | ⟨-, ends | ends⟩
    · exact .inr ends
    · exact .inl ends
    · exact absurd ((hasReturnBreak_iff _).mpr ⟨line, found, ends⟩) plain

theorem patched_append : task.patched marker ++ task.trailing = taskChars { task with marker } := by
  simp [TaskLine.patched, taskChars]

theorem marker_clean (read : taskLine line.1 = some task) (clean : '\n' ∉ line.1)
    (marks : isMarker marker = true) : '\n' ∉ taskChars { task with marker } := by
  obtain ⟨indent, bullet, blanks, gap, read⟩ := taskLine_read read
  rw [← read.whole] at clean
  have own : '\n' ≠ marker := by
    rintro rfl
    cases marks
  simp only [taskChars, mem_append, mem_cons, not_or] at clean ⊢
  exact ⟨clean.1, own, clean.2.2⟩

/-- A text that is joined from the lines with one of them patched has the patched line
there, in front of a return at most. -/
theorem patched_segment {other : BrokenLine} {lines : List BrokenLine}
    (held : (splitBreaks markdown.toList)[index]? = some line) (read : taskLine line.1 = some task)
    (loose : Loose lines) (same : joinLines (lineEnding markdown.toList)
      ((splitLines markdown.toList).set index (task.patched (markerFor status))) =
        joinBreaks lines) {place : Nat} (found : lines[place]? = some other) :
    ∃ own, ((splitLines markdown.toList).set index (task.patched (markerFor status)))[place]? = some own ∧
      own ++ (if place + 1 = lines.length then [] else (lineEnding markdown.toList).dropLast) =
        segment other := by
  have cleans := (splitBreaks_broken markdown.toList).clean
  refine joined_segment (lineEnding_kind _) ?_ ?_ loose same found
  · intro chars among
    rcases mem_or_eq_of_mem_set among with among | rfl
    · obtain ⟨first, within, rfl⟩ := mem_map.mp among
      exact (cleans first within).1
    · have clean := marker_clean read (cleans line (mem_of_getElem? held)).1
        (isMarker_markerFor status)
      rw [← patched_append] at clean
      exact fun found => clean (mem_append_left _ found)
  · intro empty
    have none_ : splitLines markdown.toList = [] := by
      simpa [← length_eq_zero_iff] using empty
    exact splitBreaks_ne_nil _ (map_eq_nil_iff.mp none_)

section
variable (item : ItemLine markdown ordinal before line task after)
include item

theorem ItemLine.loose (marks : isMarker marker = true) :
    Loose (before ++ (taskChars { task with marker }, line.2) :: after) := by
  have broken := splitBreaks_broken markdown.toList
  rw [item.cut] at broken
  have clean := (broken.clean line (mem_append_right _ mem_cons_self)).1
  exact broken.loose.replaced (marker_clean item.read clean marks)

/-- What stands behind an item's text with the return of its break is a return at most. -/
theorem trailing_of_break
    (tail : (lineEnding markdown.toList).dropLast = task.trailing ++ line.2.dropLast)
    (ends : line.2 = ['\n'] ∨ line.2 = ['\r', '\n']) :
    task.trailing = [] ∧ (line.2 = lineEnding markdown.toList ∨ line.2 = []) := by
  rcases ends with ends | ends
  · rcases lineEnding_kind markdown.toList with kind | kind <;> rw [kind, ends] at tail
    · exact ⟨by simpa using tail, .inl (ends.trans kind.symm)⟩
    · -- The return would belong to the line's break.
      have broken := splitBreaks_broken markdown.toList
      rw [item.cut] at broken
      have bare := (broken.clean line (mem_append_right _ mem_cons_self)).2 ends
      obtain ⟨indent, bullet, blanks, gap, parts⟩ := taskLine_read item.read
      have trailing : task.trailing = ['\r'] := by simpa using tail.symm
      rw [← parts.whole, taskChars, trailing] at bare
      exact absurd (by simp [getLast?_append, getLast?_cons]) bare
  · rcases lineEnding_kind markdown.toList with kind | kind <;> rw [kind, ends] at tail
    · simp at tail
    · exact ⟨by simpa using tail, .inl (ends.trans kind.symm)⟩

/-- The item's line behind the box, when the text has another character there alone. -/
theorem boxed_kept (joined : text.toList = joinLines (lineEnding markdown.toList)
      ((splitLines markdown.toList).set before.length (task.patched (markerFor status))))
    (box : BoxOnly markdown ordinal text) : OneBreak markdown ∧ task.trailing = [] := by
  obtain ⟨before', line', task', after', marker, item', marks, text'⟩ := box
  obtain ⟨rfl, rfl, rfl, rfl⟩ := item.unique item'
  have held : (splitBreaks markdown.toList)[before.length]? = some line := by simp [item.cut]
  have loose := item.loose marks
  have count : (splitLines markdown.toList).length =
      (before ++ (taskChars { task with marker }, line.2) :: after).length := by
    rw [splitLines, length_map, item.cut]
    simp
  have segments := fun {place : Nat} {other : BrokenLine} =>
    @patched_segment _ _ _ _ status other _ held item.read loose (joined.symm.trans text') place
  have own : task.trailing = [] ∧ (line.2 = lineEnding markdown.toList ∨ line.2 = []) := by
    have at_ : (before ++ (taskChars { task with marker }, line.2) :: after)[before.length]? =
        some (taskChars { task with marker }, line.2) := by simp
    obtain ⟨chars, set, same⟩ := segments at_
    rw [getElem?_set_self (by rw [count]; simp)] at set
    cases set
    simp only [TextLines.segment, TaskLine.patched, taskChars, append_assoc, cons_append] at same
    have behind := tail_eq_of_cons_eq (append_cancel_left same)
    have tail : (if before.length + 1 =
          (before ++ (taskChars { task with marker }, line.2) :: after).length then []
        else (lineEnding markdown.toList).dropLast) = task.trailing ++ line.2.dropLast :=
      append_cancel_left (append_cancel_left behind)
    rcases loose.ending at_ with ⟨last, ends⟩ | ⟨more, ends⟩
    · have ends : line.2 = [] := ends
      rw [if_pos last, ends] at tail
      exact ⟨by simpa using tail, .inr ends⟩
    · rw [if_neg more] at tail
      exact trailing_of_break item tail ends
  refine ⟨⟨lineEnding markdown.toList, fun other found => ?_⟩, own.1⟩
  obtain ⟨place, at_⟩ := getElem?_of_mem found
  by_cases here : place = before.length
  · rw [here, held] at at_
    cases at_
    exact own.2
  · have kept : (before ++ (taskChars { task with marker }, line.2) :: after)[place]? = some other := by
      have swapped : before ++ (taskChars { task with marker }, line.2) :: after =
          (before ++ line :: after).set before.length (taskChars { task with marker }, line.2) := by
        simp
      rw [swapped, getElem?_set_ne (Ne.symm here), ← item.cut, at_]
    obtain ⟨chars, set, same⟩ := segments kept
    rw [getElem?_set_ne (Ne.symm here), splitLines, getElem?_map, at_] at set
    cases set
    have tail := append_cancel_left same
    rcases loose.ending kept with ⟨-, ends⟩ | ⟨more, ends⟩
    · exact .inr ends
    · rw [if_neg more] at tail
      rcases lineEnding_kind markdown.toList with kind | kind <;> rcases ends with ends | ends <;>
        rw [kind, ends] at tail ⊢ <;> first | exact .inl rfl | cases tail

end

theorem boxed_elsewhere (item : ItemLine markdown ordinal before line task after)
    (held : before[index]? = some own) (read : taskLine own.1 = some other)
    (joined : text.toList = joinLines (lineEnding markdown.toList)
      ((splitLines markdown.toList).set index (other.patched (markerFor status))))
    (box : BoxOnly markdown ordinal text) : other.marked (markerFor status) = true := by
  obtain ⟨before', line', task', after', marker, item', marks, text'⟩ := box
  obtain ⟨rfl, rfl, rfl, rfl⟩ := item.unique item'
  obtain ⟨inside, -⟩ := List.getElem?_eq_some_iff.mp held
  have whole : (splitBreaks markdown.toList)[index]? = some own := by
    rw [item.cut, getElem?_append_left inside, held]
  have kept : (before ++ (taskChars { task with marker }, line.2) :: after)[index]? = some own := by
    rw [getElem?_append_left inside, held]
  obtain ⟨chars, set, same⟩ :=
    patched_segment whole read (item.loose marks) (joined.symm.trans text') kept
  obtain ⟨indent, bullet, blanks, gap, parts⟩ := taskLine_read read
  have placed : index < (splitLines markdown.toList).length := by
    rw [splitLines, length_map]
    exact (List.getElem?_eq_some_iff.mp whole).1
  rw [getElem?_set_self placed] at set
  cases set
  rw [TextLines.segment, ← parts.whole] at same
  simp only [TaskLine.patched, taskChars, append_assoc, cons_append] at same
  have behind := append_cancel_left same
  exact marked_of_same (head_eq_of_cons_eq behind).symm

section
variable (item : ItemLine markdown ordinal before line task after)
include item

/-- A plan whose breaks are alike and whose line ends with its text is patched in place. -/
theorem patched_in_place (one : OneBreak markdown) (ends : task.trailing = [])
    (joined : text.toList = joinLines (lineEnding markdown.toList)
      ((splitLines markdown.toList).set before.length (task.patched (markerFor status)))) :
    (extractPlanTodos toLowerCase place text = (extractPlanTodos toLowerCase place markdown).modify ordinal
          fun todo => { todo with status := shownStatus status }) ∧
      BoxOnly markdown ordinal text := by
  have broken := splitBreaks_broken markdown.toList
  have marks := isMarker_markerFor status
  obtain ⟨indent, bullet, blanks, gap, read⟩ := taskLine_read item.read
  let chars := taskChars { task with marker := markerFor status }
  have patched : task.patched (markerFor status) = chars := by
    simp [chars, TaskLine.patched, taskChars, ends]
  have lines : (splitLines markdown.toList).set before.length (task.patched (markerFor status)) =
      (before ++ (chars, line.2) :: after).map Prod.fst := by
    rw [splitLines, item.cut, patched]
    simp
  have alike : ∀ other ∈ before ++ (chars, line.2) :: after,
      other.2 = lineEnding markdown.toList ∨ other.2 = [] := by
    have own := lineEnding_one one
    rw [item.cut] at own
    intro other found
    rcases mem_append.mp found with found | found
    · exact own other (mem_append_left _ found)
    · rcases mem_cons.mp found with rfl | found
      · exact own line (mem_append_right _ mem_cons_self)
      · exact own other (mem_append_right _ (mem_cons_of_mem _ found))
  have whole : text.toList = joinBreaks (before ++ (chars, line.2) :: after) := by
    rw [joined, lines, joinLines_eq, withBreak_same (item.loose marks) alike]
  refine ⟨?_, before, line, task, after, markerFor status, item, marks, whole⟩
  have cut : splitBreaks text.toList = before ++ (chars, line.2) :: after := by
    rw [whole]
    refine splitBreaks_joinBreaks ?_
    rw [item.cut] at broken
    have clean := (broken.clean line (mem_append_right _ mem_cons_self)).1
    refine broken.replaced (marker_clean item.read clean marks) ?_
    rw [← read.whole]
    simp [chars, taskChars, ends, read.box, getLast?_append, getLast?_cons]
  have shown : shownTask line = some task := by simp [shownTask, item.read, item.content]
  have next : shownTask (chars, line.2) = some { task with marker := markerFor status, trailing := [] } := by
    have again := read.marked marks (TaskLine.shown item.content)
    rw [patched] at again
    rw [shownTask, again, Option.filter_some, if_pos]
    exact decide_eq_true item.content
  rw [extractPlanTodos, extractPlanTodos, splitLines, splitLines, cut, item.cut, ← item.place]
  refine extractFrom_replaced shown next rfl ?_
  cases status <;> rfl

theorem unpatched_iff : (extractPlanTodos toLowerCase place markdown =
        (extractPlanTodos toLowerCase place markdown).modify ordinal
          fun todo => { todo with status := shownStatus status }) ↔
      task.marked (markerFor status) = true := by
  obtain ⟨indent, bullet, blanks, gap, read⟩ := taskLine_read item.read
  have shown : shownTask line = some task := by simp [shownTask, item.read, item.content]
  obtain ⟨front, back, length, split⟩ :=
    extractFrom_split
  rw [extractPlanTodos, splitLines, item.cut, split shown, ← item.place, ← length, modify_append,
    marked_iff read.marks]
  constructor
  · intro same
    have todo := head_eq_of_cons_eq (append_cancel_left same)
    exact congrArg ExtractedPlanTodo.status todo
  · intro same
    rw [← same]
    rfl

theorem boxOnly_self : BoxOnly markdown ordinal markdown := by
  obtain ⟨indent, bullet, blanks, gap, read⟩ := taskLine_read item.read
  refine ⟨before, line, task, after, task.marker, item, read.marks, ?_⟩
  have whole : taskChars { task with marker := task.marker } = line.1 := read.whole
  rw [whole, ← item.cut, joinBreaks_splitBreaks]

end

theorem patchPlanTodoStatus_eq (status : ThreadTodoStatus)
    (target : patchTarget toLowerCase (taskLines (splitLines markdown.toList)) item.source =
      some (index, task)) :
    (patchPlanTodoStatus toLowerCase markdown (asked item status)).markdown =
      if task.marked (markerFor status) then markdown
      else String.ofList (joinLines (lineEnding markdown.toList)
        ((splitLines markdown.toList).set index (task.patched (markerFor status)))) := by
  unfold patchPlanTodoStatus asked
  dsimp only
  rw [target]
  dsimp only
  split <;> rfl

theorem patches_only_iff {place : PlanPlace} {markdown : String} {item : ExtractedPlanTodo}
    (extracted : item ∈ extractPlanTodos toLowerCase place markdown) (status : ThreadTodoStatus) :
    PatchesOnly toLowerCase place markdown item status ↔
      ∃ before line task after, ItemLine markdown item.source.ordinal before line task after ∧
        Patchable toLowerCase markdown item.source.ordinal before task status := by
  obtain ⟨before, line, task, after, at_, own⟩ := extracted_line extracted
  have hash : item.source.contentHash = task.hash toLowerCase := by
    rw [own, ← contentHashOf_content]
    rfl
  have single : (∃ before line task after, ItemLine markdown item.source.ordinal before line task after ∧
        Patchable toLowerCase markdown item.source.ordinal before task status) ↔
      Patchable toLowerCase markdown item.source.ordinal before task status := by
    constructor
    · rintro ⟨before', line', task', after', at', patchable⟩
      obtain ⟨rfl, -, rfl, -⟩ := at_.unique at'
      exact patchable
    · exact fun patchable => ⟨before, line, task, after, at_, patchable⟩
  rw [single]
  rcases patchTarget_eq at_ rfl hash with ⟨foremost, target⟩ |
    ⟨behind, index, other, chars, rival_, held, read, target⟩
  · have result := patchPlanTodoStatus_eq status target
    by_cases marked : task.marked (markerFor status) = true
    · rw [if_pos marked] at result
      refine ⟨fun _ => ⟨.inl marked, .inl foremost⟩, fun _ => ⟨?_, ?_⟩⟩
      · rw [result]
        exact (unpatched_iff at_).mpr marked
      · rw [result]
        exact boxOnly_self at_
    · rw [if_neg marked] at result
      have joined := congrArg String.toList result
      rw [String.toList_ofList] at joined
      constructor
      · intro only
        exact ⟨.inr (boxed_kept at_ joined only.text), .inl foremost⟩
      · intro patchable
        obtain ⟨one, ends⟩ := patchable.kept.resolve_left marked
        obtain ⟨items, text⟩ := patched_in_place at_ one ends joined
        exact ⟨items, text⟩
  · have result := patchPlanTodoStatus_eq status target
    by_cases marked : other.marked (markerFor status) = true
    · rw [if_pos marked] at result
      constructor
      · intro only
        have items := only.items
        rw [result] at items
        have own := (unpatched_iff at_).mp items
        refine ⟨.inl own, .inr ⟨own, fun found same => ?_⟩⟩
        rw [rival_] at same
        cases same
        exact marked
      · intro patchable
        obtain ⟨own, -⟩ := patchable.found.resolve_left behind
        refine ⟨?_, ?_⟩
        · rw [result]
          exact (unpatched_iff at_).mpr own
        · rw [result]
          exact boxOnly_self at_
    · rw [if_neg marked] at result
      have joined := congrArg String.toList result
      rw [String.toList_ofList] at joined
      constructor
      · exact fun only => absurd (boxed_elsewhere at_ held read joined only.text) marked
      · intro patchable
        exact absurd ((patchable.found.resolve_left behind).2 other rival_) marked

end

def releasePlan : PlanPlace :=
  { planId := "plan-1", relativePath := ".qiongqisdd/plan/release.md", now := "monday" }

def tagTask (marker : Char) : TaskLine :=
  { lead := "- [".toList, marker, gap := "] ".toList, text := "Tag".toList, trailing := [] }

theorem single_line_patched : PatchesOnly id releasePlan "- [ ] Tag"
    (planTodo id releasePlan 0 (tagTask ' ')) .completed :=
  (patches_only_iff (by decide +kernel) .completed).mpr
    ⟨[], ("- [ ] Tag".toList, []), tagTask ' ', [],
      ⟨by decide, by decide, by decide, rfl⟩,
      ⟨.inr ⟨⟨[], by decide⟩, rfl⟩, .inl (.inl fun _ found => absurd found not_mem_nil)⟩⟩

/-- A blank task line is numbered by the patch alone, and the content stands twice. -/
def twinPlan : String := "- [ ] Tag\n- [ ]  \n- [ ] Tag"

theorem first_twin_patched :
    planTodo id releasePlan 1 (tagTask ' ') ∈ extractPlanTodos id releasePlan twinPlan ∧
      ¬ PatchesOnly id releasePlan twinPlan (planTodo id releasePlan 1 (tagTask ' '))
        .completed := by
  refine ⟨by decide +kernel, fun only => ?_⟩
  have second := congrArg (fun items => items[1]?.map ExtractedPlanTodo.status) only.items
  exact absurd second (by decide)

end QiongQi.PlanPatches
