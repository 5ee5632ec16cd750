import Mathlib.Data.Rat.Defs

/-! JavaScript values and the JSON documents they serialize to. A value in
memory can hold what no document holds (`undefined`, `NaN`, a function, an
object with its own `toJSON`); writing it out and reading it back keeps a
document's values and changes every other one. -/
namespace QiongQi.JsonValues
open List

/-- A JSON document, as `JSON.parse` returns it. -/
inductive Json where
  | null
  | bool (value : Bool)
  | number (value : ℚ)
  | string (value : String)
  | array (items : List Json)
  | object (fields : List (String × Json))

/-- A JavaScript number. Rounding is not modelled; the values that JSON text
cannot spell are. -/
inductive JsNumber where
  | finite (value : ℚ)
  | negativeZero
  | nan
  | infinity (negative : Bool)

/-- A JavaScript value. `callable` covers functions and symbols; `custom` is an
object that serializes as something else than its own properties (`Date`,
`Map`, a class with `toJSON`). -/
inductive JsValue where
  | undefined
  | null
  | bool (value : Bool)
  | number (value : JsNumber)
  | string (value : String)
  | array (items : List JsValue)
  | object (fields : List (String × JsValue))
  | callable
  | custom (serialized : Option Json)

mutual
/-- The value `JSON.parse` builds for a document. -/
def Json.toJs : Json → JsValue
  | .null => .null
  | .bool value => .bool value
  | .number value => .number (.finite value)
  | .string value => .string value
  | .array items => .array (listToJs items)
  | .object fields => .object (fieldsToJs fields)

def listToJs : List Json → List JsValue
  | [] => []
  | item :: rest => item.toJs :: listToJs rest

def fieldsToJs : List (String × Json) → List (String × JsValue)
  | [] => []
  | (key, value) :: rest => (key, value.toJs) :: fieldsToJs rest
end

/-- What a number becomes in JSON text. -/
def JsNumber.toJson : JsNumber → Json
  | .finite value => .number value
  | .negativeZero => .number 0
  | .nan | .infinity _ => .null

mutual
/-- `JSON.parse(JSON.stringify(value))`; `none` when `JSON.stringify` answers
`undefined`. -/
def JsValue.serialize : JsValue → Option Json
  | .undefined | .callable => none
  | .null => some .null
  | .bool value => some (.bool value)
  | .number value => some value.toJson
  | .string value => some (.string value)
  | .array items => some (.array (serializeItems items))
  | .object fields => some (.object (serializeFields fields))
  | .custom serialized => serialized

/-- An array keeps its length: an element with no JSON form becomes `null`. -/
def serializeItems : List JsValue → List Json
  | [] => []
  | item :: rest => item.serialize.getD .null :: serializeItems rest

/-- An object loses the properties whose value has no JSON form. -/
def serializeFields : List (String × JsValue) → List (String × Json)
  | [] => []
  | (key, value) :: rest =>
    match value.serialize with
    | none => serializeFields rest
    | some document => (key, document) :: serializeFields rest
end

mutual
@[simp] theorem serialize_toJs : ∀ document : Json, document.toJs.serialize = some document
  | .null | .bool _ | .number _ | .string _ => rfl
  | .array items => by simp only [Json.toJs, JsValue.serialize, serializeItems_toJs items]
  | .object fields => by simp only [Json.toJs, JsValue.serialize, serializeFields_toJs fields]

@[simp] theorem serializeItems_toJs : ∀ items : List Json, serializeItems (listToJs items) = items
  | [] => rfl
  | item :: rest => by
    simp only [listToJs, serializeItems, serialize_toJs item, serializeItems_toJs rest, Option.getD_some]

@[simp] theorem serializeFields_toJs : ∀ fields : List (String × Json),
    serializeFields (fieldsToJs fields) = fields
  | [] => rfl
  | (key, value) :: rest => by
    simp only [fieldsToJs, serializeFields, serialize_toJs value, serializeFields_toJs rest]
end

theorem fieldsToJs_map : fieldsToJs fields = fields.map fun field => (field.1, field.2.toJs) := by
  induction fields with
  | nil => rfl
  | cons field rest ih => simp only [fieldsToJs, ih, map_cons]

theorem listToJs_map : listToJs items = items.map Json.toJs := by
  induction items with
  | nil => rfl
  | cons item rest ih => simp only [listToJs, ih, map_cons]

/-- A value that survives being written as JSON and read back. -/
def JsValue.Survives (value : JsValue) : Prop :=
  value.serialize.map Json.toJs = some value

theorem survives_iff : value.Survives ↔ ∃ document : Json, value = document.toJs := by
  constructor
  · intro survives
    obtain ⟨document, _, same⟩ := Option.map_eq_some_iff.mp survives
    exact ⟨document, same.symm⟩
  · rintro ⟨document, rfl⟩
    simp [JsValue.Survives]

/-- `{ ...fields, [key]: value }`: an existing key keeps its place. -/
def assign (fields : List (String × α)) (key : String) (value : α) : List (String × α) :=
  if fields.any (fun field => field.1 == key) then
    fields.map fun field => if field.1 == key then (key, value) else field
  else fields ++ [(key, value)]

theorem lookup_field (rest : List (String × α)) (key : String) :
    (field :: rest).lookup key = if key == field.1 then some field.2 else rest.lookup key := by
  obtain ⟨name, value⟩ := field
  rw [lookup_cons]
  cases key == name <;> rfl

variable {value : α} {fields : List (String × α)} {key other : String}

theorem lookup_append_other (different : other ≠ key) :
    (fields ++ [(key, value)]).lookup other = fields.lookup other := by
  induction fields with
  | nil => simp [different]
  | cons field rest ih =>
    simp only [cons_append, lookup_field]
    split
    · rfl
    · exact ih

private theorem lookup_append_fresh (fresh : fields.any (fun field => field.1 == key) = false) :
    (fields ++ [(key, value)]).lookup key = some value := by
  induction fields with
  | nil => simp
  | cons field rest ih =>
    simp only [any_cons, Bool.or_eq_false_iff] at fresh
    have apart : (key == field.1) = false := by
      simpa [beq_eq_false_iff_ne, ne_comm] using fresh.1
    rw [cons_append, lookup_field, apart]
    exact ih fresh.2

private theorem lookup_replaced (present : fields.any (fun field => field.1 == key) = true) :
    (fields.map fun field => if field.1 == key then (key, value) else field).lookup key = some value := by
  induction fields with
  | nil => simp at present
  | cons field rest ih =>
    by_cases same : field.1 = key
    · simp [same]
    · have apart : (key == field.1) = false := by simpa [beq_eq_false_iff_ne] using Ne.symm same
      have later : rest.any (fun field => field.1 == key) = true := by
        simpa [any_cons, same] using present
      simp only [map_cons, beq_iff_eq, same, if_false, lookup_field, apart]
      simpa using ih later

private theorem lookup_replaced_other (different : other ≠ key) :
    (fields.map fun field => if field.1 == key then (key, value) else field).lookup other =
      fields.lookup other := by
  induction fields with
  | nil => rfl
  | cons field rest ih =>
    by_cases same : field.1 = key
    · simp only [map_cons, beq_iff_eq, same, if_true, lookup_field]
      simpa [different] using ih
    · simp only [map_cons, beq_iff_eq, same, if_false, lookup_field]
      split
      · rfl
      · simpa using ih

@[simp] theorem lookup_assign (fields : List (String × α)) (key : String) (value : α) :
    (assign fields key value).lookup key = some value := by
  unfold assign
  split
  next present => exact lookup_replaced present
  next absent => exact lookup_append_fresh (Bool.eq_false_iff.mpr absent)

theorem lookup_assign_other (different : other ≠ key) :
    (assign fields key value).lookup other = fields.lookup other := by
  unfold assign
  split
  · exact lookup_replaced_other different
  · exact lookup_append_other different

theorem map_assign (f : α → β) (fields : List (String × α)) (key : String) (value : α) :
    (assign fields key value).map (fun field => (field.1, f field.2)) =
      assign (fields.map fun field => (field.1, f field.2)) key (f value) := by
  unfold assign
  have keys : (fields.map fun field => (field.1, f field.2)).any (fun field => field.1 == key) =
      fields.any (fun field => field.1 == key) := by
    simp [any_map, Function.comp_def]
  rw [keys]
  split
  · simp only [map_map]
    apply map_congr_left
    intro field _
    by_cases same : field.1 = key <;> simp [same]
  · simp

end QiongQi.JsonValues
