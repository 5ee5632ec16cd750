import QiongQi.JsonValues

/-! Schemas in the manner of `z.object({ ... })`: how a value of some type is
written as a JSON document, what the schema's `safeParse` makes of a JavaScript
value, and that a written value parses back to itself. An object schema is built
field by field, in the order the source lists its fields. -/
namespace QiongQi.JsonSchemas
open JsonValues List

/-- A schema accepts everything that it writes. -/
structure Schema (α : Type) where
  write : α → Json
  safeParse : JsValue → Option α
  parse_write : ∀ value, safeParse (write value).toJs = some value

attribute [simp] Schema.parse_write

namespace Schema

/-- `z.string()`. -/
def text : Schema String where
  write := .string
  safeParse
    | .string value => some value
    | _ => none
  parse_write _ := rfl

/-- `z.boolean()`. -/
def flag : Schema Bool where
  write := .bool
  safeParse
    | .bool value => some value
    | _ => none
  parse_write _ := rfl

/-- The finite numbers; further checks are a `refine`. -/
def number : Schema ℚ where
  write := .number
  safeParse
    | .number (.finite value) => some value
    | .number .negativeZero => some 0
    | _ => none
  parse_write _ := rfl

/-- `z.record(z.string(), z.unknown())` of a value that came from JSON. -/
def record : Schema (List (String × Json)) where
  write := .object
  safeParse
    | .object fields => some (serializeFields fields)
    | _ => none
  parse_write fields := by simp [Json.toJs]

/-- Further checks and transformations of a parsed value. -/
def refine (schema : Schema α) (check : α → Option β) (back : β → α)
    (accepted : ∀ value, check (back value) = some value) : Schema β where
  write value := schema.write (back value)
  safeParse value := (schema.safeParse value).bind check
  parse_write value := by simp [accepted]

/-- The same values under another name. -/
def imap (schema : Schema α) (to_ : α → β) (back : β → α)
    (same : ∀ value, to_ (back value) = value) : Schema β :=
  schema.refine (fun value => some (to_ value)) back fun value => congrArg some (same value)

private theorem mapM_written (schema : Schema α) (values : List α) :
    (listToJs (values.map schema.write)).mapM schema.safeParse = some values := by
  induction values with
  | nil => rfl
  | cons value rest ih => simp [listToJs, mapM_cons, ih]

/-- `schema.array()`. -/
def array (schema : Schema α) : Schema (List α) where
  write values := .array (values.map schema.write)
  safeParse
    | .array items => items.mapM schema.safeParse
    | _ => none
  parse_write values := mapM_written schema values

/-- `schema.nullable()` for a schema that refuses `null`. -/
def nullable (schema : Schema α) (refuses : ∀ value, (schema.write value).toJs ≠ .null) :
    Schema (Option α) where
  write
    | none => .null
    | some value => schema.write value
  safeParse
    | .null => some none
    | value => (schema.safeParse value).map some
  parse_write
    | none => rfl
    | some value => by
      have notNull := refuses value
      cases written : (schema.write value).toJs with
      | null => exact absurd written notNull
      | _ => simp [← written]

/-- `z.enum([...])`: the names of an enumeration, each member by its own. -/
def enum (name : α → String) (members : List α)
    (named : ∀ member, members.find? (fun other => name other = name member) = some member) :
    Schema α where
  write member := .string (name member)
  safeParse
    | .string text => members.find? fun member => name member = text
    | _ => none
  parse_write := named

end Schema

/-- The fields of an object schema. Fields under other keys do not disturb it. -/
structure Shape (α : Type) where
  keys : List String
  write : α → List (String × Json)
  parse : List (String × JsValue) → Option α
  write_keys : ∀ value, ∀ field ∈ write value, field.1 ∈ keys
  parse_write : ∀ value before, (∀ field ∈ before, field.1 ∉ keys) →
    parse (before ++ fieldsToJs (write value)) = some value

theorem lookup_absent {fields : List (String × α)} (absent : ∀ field ∈ fields, field.1 ≠ key) :
    fields.lookup key = none := by
  rw [lookup_eq_none_iff]
  intro field found
  simpa using (absent field found).symm

private theorem lookup_behind {before rest : List (String × JsValue)}
    (absent : ∀ field ∈ before, field.1 ≠ key) : (before ++ rest).lookup key = rest.lookup key := by
  rw [lookup_append, lookup_absent absent, Option.none_or]

private theorem written_keys {shape : Shape α} (found : field ∈ fieldsToJs (shape.write value)) :
    field.1 ∈ shape.keys := by
  rw [fieldsToJs_map] at found
  obtain ⟨written, member, rfl⟩ := mem_map.mp found
  exact shape.write_keys value written member

theorem toJs_defined (document : Json) : document.toJs ≠ .undefined := by
  cases document <;> exact fun same => by cases same

private theorem parse_after {rest : Shape β} (fresh : key ∉ rest.keys) (others : β)
    (first : JsValue) (foreign : ∀ field ∈ before, field.1 ∉ rest.keys) :
    rest.parse (before ++ (key, first) :: fieldsToJs (rest.write others)) = some others := by
  rw [append_cons]
  refine rest.parse_write others (before ++ [(key, first)]) fun field found member => ?_
  rcases mem_append.mp found with found | found
  · exact foreign field found member
  · rw [mem_singleton.mp found] at member
    exact fresh member

namespace Shape

/-- No further field. -/
def done : Shape Unit where
  keys := []
  write _ := []
  parse _ := some ()
  write_keys _ _ found := by cases found
  parse_write _ _ _ := rfl

/-- `key: schema`. A missing field is `undefined`. -/
def required (key : String) (schema : Schema α) (rest : Shape β)
    (fresh : key ∉ rest.keys := by decide) : Shape (α × β) where
  keys := key :: rest.keys
  write value := (key, schema.write value.1) :: rest.write value.2
  parse fields := do
    let first ← schema.safeParse ((fields.lookup key).getD .undefined)
    let others ← rest.parse fields
    some (first, others)
  write_keys value field found := by
    rcases mem_cons.mp found with rfl | found
    · exact mem_cons_self
    · exact mem_cons_of_mem _ (rest.write_keys value.2 field found)
  parse_write value before foreign := by
    have absent : ∀ field ∈ before, field.1 ≠ key :=
      fun field found same => foreign field found (same ▸ mem_cons_self)
    have others := parse_after fresh value.2 (schema.write value.1).toJs
      fun field found member => foreign field found (mem_cons_of_mem _ member)
    simp only [fieldsToJs, lookup_behind absent, lookup_cons_self, Option.getD_some,
      Schema.parse_write, others]
    rfl

/-- `key: schema.optional()`. -/
def optional (key : String) (schema : Schema α) (rest : Shape β)
    (fresh : key ∉ rest.keys := by decide) : Shape (Option α × β) where
  keys := key :: rest.keys
  write value := (value.1.map fun first => (key, schema.write first)).toList ++ rest.write value.2
  parse fields := do
    let first ← match fields.lookup key with
      | none | some .undefined => some none
      | some value => (schema.safeParse value).map some
    let others ← rest.parse fields
    some (first, others)
  write_keys value field found := by
    rcases mem_append.mp found with found | found
    · obtain ⟨first, _, rfl⟩ := Option.map_eq_some_iff.mp (Option.mem_toList.mp found)
      exact mem_cons_self
    · exact mem_cons_of_mem _ (rest.write_keys value.2 field found)
  parse_write value before foreign := by
    obtain ⟨first, others⟩ := value
    have absent : ∀ field ∈ before, field.1 ≠ key :=
      fun field found same => foreign field found (same ▸ mem_cons_self)
    have beyond : ∀ field ∈ before, field.1 ∉ rest.keys :=
      fun field found member => foreign field found (mem_cons_of_mem _ member)
    cases first with
    | none =>
      have missing : (fieldsToJs (rest.write others)).lookup key = none :=
        lookup_absent fun field found same => fresh (same ▸ written_keys found)
      simp only [Option.map_none, Option.toList_none, nil_append, lookup_behind absent,
        missing, rest.parse_write others before beyond]
      rfl
    | some first =>
      have written := schema.parse_write first
      have present := toJs_defined (schema.write first)
      simp only [Option.map_some, Option.toList_some, singleton_append, fieldsToJs,
        lookup_behind absent, lookup_cons_self, parse_after fresh others _ beyond]
      generalize (schema.write first).toJs = document at written present
      cases document with
      | undefined => exact absurd rfl present
      | _ =>
        simp only [written]
        rfl

/-- `key: schema.default(value)`. -/
def defaulted (key : String) (schema : Schema α) (missing : α) (rest : Shape β)
    (fresh : key ∉ rest.keys := by decide) : Shape (α × β) where
  keys := key :: rest.keys
  write value := (key, schema.write value.1) :: rest.write value.2
  parse fields := do
    let first ← match fields.lookup key with
      | none => some missing
      | some value => schema.safeParse value
    let others ← rest.parse fields
    some (first, others)
  write_keys := (required key schema rest fresh).write_keys
  parse_write value before foreign := by
    have absent : ∀ field ∈ before, field.1 ≠ key :=
      fun field found same => foreign field found (same ▸ mem_cons_self)
    have whole := (required key schema rest fresh).parse_write value before foreign
    simp only [required, fieldsToJs, lookup_behind absent, lookup_cons_self, Option.getD_some] at whole ⊢
    exact whole

private theorem parse_alone (shape : Shape α) (value : α) :
    shape.parse (fieldsToJs (shape.write value)) = some value :=
  shape.parse_write value [] fun _ found => by cases found

/-- `z.object({ ... })`: fields beyond the schema's are dropped. -/
def object (shape : Shape α) : Schema α where
  write value := .object (shape.write value)
  safeParse
    | .object fields => shape.parse fields
    | _ => none
  parse_write value := parse_alone shape value

/-- `z.object({ ... }).strict()`: fields beyond the schema's are refused. -/
def strict (shape : Shape α) : Schema α where
  write value := .object (shape.write value)
  safeParse
    | .object fields =>
      if fields.all fun field => shape.keys.contains field.1 then shape.parse fields else none
    | _ => none
  parse_write value := by
    have known : (fieldsToJs (shape.write value)).all
        (fun field => shape.keys.contains field.1) = true := by
      rw [all_eq_true]
      exact fun field found => by simpa using written_keys found
    show (if _ then _ else _) = _
    rw [if_pos known]
    exact parse_alone shape value

end Shape

end QiongQi.JsonSchemas
