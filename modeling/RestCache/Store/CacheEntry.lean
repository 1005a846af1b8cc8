import RestCache.Foundation.JsonParse

/-!
# Stored entries

The text that a response is stored as, and what is read from a stored text.
-/

namespace RestCache
namespace Store

open Foundation

structure CacheEntry where
  data : JsonValue
  type : Option JsString
deriving DecidableEq

def keptType (type : Option JsString) : Option JsString :=
  type.filter (fun text => text ≠ [])

/-!
## Writing
-/

def entryProps (data : JsonValue) (type : Option JsString) :
    List (JsString × JsValue) :=
  match keptType type with
  | none => [("data".toList, data.value)]
  | some type => [("data".toList, data.value), ("type".toList, JsValue.str type)]

theorem entryProps_ordered (data : JsonValue) (type : Option JsString) :
    (JsValue.obj (entryProps data type)).Ordered := by
  unfold entryProps
  cases keptType type with
  | none =>
      apply JsValue.Ordered.obj
      · exact List.pairwise_singleton _ "data".toList
      intro p hp
      rw [List.mem_singleton.mp hp]
      exact data.ordered
  | some text =>
      apply JsValue.Ordered.obj
      · show JsValue.OwnKeys ["data".toList, "type".toList]
        unfold JsValue.OwnKeys
        decide
      · intro p hp
        rcases List.mem_cons.mp hp with rfl | hp
        · exact data.ordered
        · rw [List.mem_singleton.mp hp]
          exact JsValue.Ordered.str text

def serialize (data : JsonValue) (type : Option JsString) : JsString :=
  JsonValue.stringify ⟨JsValue.obj (entryProps data type),
    entryProps_ordered data type⟩

/-!
## Reading
-/

/-- A type that is no string, or empty, is dropped. -/
def entryType (v : JsonValue) : Option JsString :=
  match (v.property "type".toList).map JsonValue.value with
  | some (JsValue.str text) => keptType (some text)
  | _ => none

/--
The entry that a value spells, `none` for `null`, of which no property can be
read.  Missing data count as `null`.
-/
def entryOf (v : JsonValue) : Option CacheEntry :=
  if v = JsonValue.null then none
  else some {
    data := (v.property "data".toList).getD JsonValue.null
    type := entryType v }

/-- `none` where reading the text throws. -/
def deserializeEntry (text : JsString) : Option (Option CacheEntry) :=
  if text = [] then some none
  else ((JsonValue.parse text).bind entryOf).map some

theorem keptType_keptType (type : Option JsString) :
    keptType (keptType type) = keptType type := by
  cases type with
  | none => rfl
  | some text =>
      by_cases h : text = []
      · rw [h]
        rfl
      · simp [keptType]

theorem entryOf_props {v data : JsonValue} {type : Option JsString}
    (h : v.value = JsValue.obj (entryProps data type)) :
    entryOf v = some { data, type := keptType type } := by
  have hnull : v ≠ JsonValue.null := by
    intro hnull
    rw [hnull] at h
    exact absurd h (by simp [JsonValue.null])
  have hprops : v.props = entryProps data type := by
    rw [JsonValue.props, h]
  have hdata : v.property "data".toList = some data := by
    apply JsonValue.property_eq_some
    rw [hprops, entryProps]
    cases keptType type with
    | none => rfl
    | some text => rfl
  have htype : entryType v = keptType type := by
    have hagain := keptType_keptType type
    have hvalue := JsonValue.property_value v "type".toList
    rw [hprops, entryProps] at hvalue
    rw [entryType, hvalue]
    cases hkept : keptType type with
    | none => rfl
    | some text =>
        rw [hkept] at hagain
        exact hagain
  rw [entryOf, if_neg hnull, hdata, htype, Option.getD_some]

/-- An entry is read as it was written. -/
theorem deserializeEntry_serialize (data : JsonValue) (type : Option JsString) :
    deserializeEntry (serialize data type) =
      some (some { data, type := keptType type }) := by
  rw [deserializeEntry, serialize, if_neg (JsonValue.stringify_ne_nil _),
    JsonValue.parse_stringify, Option.bind_some, entryOf_props rfl,
    Option.map_some]

end Store
end RestCache
