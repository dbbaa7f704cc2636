import Mathlib.Data.List.Basic

/-!
# JSON values

`serde_json::Value`.  The fields of an object have different names, and numbers are kept
as their text.
-/

namespace Spacegate.Foundation

inductive Json where
  | null
  | bool (value : Bool)
  | number (text : String)
  | string (value : String)
  | array (items : List Json)
  | object (fields : List (String × Json))

namespace Json

def getField (name : String) : List (String × Json) → Option Json
  | [] => none
  | (key, value) :: fields => if key = name then some value else getField name fields

/-- `Value::get` with a name. -/
def get (value : Json) (name : String) : Option Json :=
  match value with
  | .object fields => getField name fields
  | _ => none

/-- `Value::as_str`. -/
def asStr : Json → Option String
  | .string value => some value
  | _ => none

/-- `Map::remove` on the fields of an object. -/
def remove (value : Json) (name : String) : Json :=
  match value with
  | .object fields => .object (fields.filter (·.1 ≠ name))
  | _ => value

theorem sizeOf_getField_lt {name : String} {fields : List (String × Json)} {value : Json}
    (h : getField name fields = some value) : sizeOf value < sizeOf fields := by
  induction fields with
  | nil => cases h
  | cons field fields ih =>
    obtain ⟨key, first⟩ := field
    unfold getField at h
    split_ifs at h with hKey
    · cases h
      simp only [List.cons.sizeOf_spec, Prod.mk.sizeOf_spec]
      omega
    · have hLt := ih h
      simp only [List.cons.sizeOf_spec]
      omega

theorem get_ne_self (value : Json) (name : String) : value.get name ≠ some value := by
  intro h
  cases value with
  | object fields =>
    have hf : getField name fields = some (.object fields) := h
    have hLt := sizeOf_getField_lt hf
    simp only [object.sizeOf_spec] at hLt
    omega
  | null | bool _ | number _ | string _ | array _ => cases h

end Json
end Spacegate.Foundation
