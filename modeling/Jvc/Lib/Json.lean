import Mathlib.Tactic.Common

namespace json

/-- A parsed JSON document, over a type of strings. A float is given by its value, where
it is finite; objects are maps from keys, so that their order is not seen. -/
inductive Value (S : Type)
  | null
  | bool (b : Bool)
  | int (n : Int)
  | float (value : Option Rat)
  | str (s : S)
  | list (items : List (Value S))
  | dict (fields : S → Option (Value S))

namespace Value

variable {S : Type}

/-- `isinstance(value, dict)` -/
def isDict : Value S → Bool
  | .dict _ => true
  | _ => false

/-- The text of a string. -/
def str? : Value S → Option S
  | .str s => some s
  | _ => none

/-- `isinstance(value, int)`, with the number; a bool is one. -/
def int? : Value S → Option Int
  | .bool b => some (if b then 1 else 0)
  | .int n => some n
  | _ => none

/-- `type(value) is int`, with the number. -/
def exactInt? : Value S → Option Int
  | .int n => some n
  | _ => none

/-- `value == n` -/
def equalsInt (n : Int) : Value S → Bool
  | .bool b => (if b then 1 else 0) == n
  | .int m => m == n
  | .float (some q) => q == n
  | _ => false

/-- `value == s` -/
def equalsStr [DecidableEq S] (s : S) : Value S → Bool
  | .str t => t == s
  | _ => false

/-- A value that a set can hold. -/
def hashable : Value S → Bool
  | .list _ | .dict _ => false
  | _ => true

/-- `type(value).__name__`, of what cannot be hashed. -/
def typeName : Value S → String
  | .list _ => "list"
  | .dict _ => "dict"
  | _ => ""

/-- `value.get(key)` on an object, and a missing key. -/
def find (key : S) : Value S → Option (Value S)
  | .dict fields => fields key
  | _ => none

def get (key : S) (value : Value S) : Value S := (value.find key).getD .null

/-- `value[key] = field` -/
def set [DecidableEq S] (value : Value S) (key : S) (field : Value S) : Value S :=
  match value with
  | .dict fields => .dict fun k => if k = key then some field else fields k
  | value => value

/-- The object with the given fields, the last of them counting. -/
def ofFields [DecidableEq S] (fields : List (S × Value S)) : Value S :=
  .dict fun key => fields.reverse.lookup key

@[simp] theorem find_set [DecidableEq S] (fields : S → Option (Value S)) (key k : S)
    (field : Value S) :
    (set (.dict fields) key field).find k = if k = key then some field else fields k := rfl

theorem find_ofFields [DecidableEq S] (fields : List (S × Value S)) (key : S) :
    (ofFields fields).find key = fields.reverse.lookup key := rfl

theorem mem_of_find_ofFields [DecidableEq S] {fields : List (S × Value S)} {key : S}
    (h : ((ofFields fields).find key).isSome = true) : key ∈ fields.map Prod.fst := by
  obtain ⟨field, hfield⟩ := Option.isSome_iff_exists.mp h
  rw [find_ofFields, List.lookup_eq_some_iff] at hfield
  obtain ⟨front, back, heq, -⟩ := hfield
  have hmem : (key, field) ∈ fields := by
    rw [← List.mem_reverse, heq]
    simp
  exact List.mem_map.mpr ⟨_, hmem, rfl⟩

theorem lookup_cons [DecidableEq S] (key k : S) (field : Value S) (fields : List (S × Value S)) :
    ((k, field) :: fields).lookup key = if key = k then some field else fields.lookup key := by
  rw [List.lookup_cons]
  by_cases h : key = k
  · rw [if_pos h, beq_iff_eq.mpr h]
  · rw [if_neg h, beq_eq_false_iff_ne.mpr h]

@[simp] theorem isDict_set [DecidableEq S] (key : S) (field value : Value S) :
    (set value key field).isDict = value.isDict := by
  cases value <;> rfl

theorem find_set_dict [DecidableEq S] {value : Value S} (h : value.isDict = true) (key k : S)
    (field : Value S) : (value.set key field).find k = if k = key then some field else value.find k := by
  cases value with
  | dict fields => exact find_set fields key k field
  | _ => cases h

theorem get_set_dict [DecidableEq S] {value : Value S} (h : value.isDict = true) (key k : S)
    (field : Value S) : (value.set key field).get k = if k = key then field else value.get k := by
  rw [get, find_set_dict h]
  split
  · rfl
  · rfl

theorem equalsStr_iff [DecidableEq S] {s : S} {value : Value S} :
    value.equalsStr s = true ↔ value = .str s := by
  cases value <;> simp [equalsStr]

theorem str?_eq_some {s : S} {value : Value S} : value.str? = some s ↔ value = .str s := by
  cases value <;> simp [str?]

end Value

end json
