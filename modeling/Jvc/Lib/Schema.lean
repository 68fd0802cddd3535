import Jvc.Lib.Json
import Mathlib.Data.Rat.Defs

namespace json

/-- A JSON schema, as the instances that satisfy it. A keyword constrains the instances of
its own types and holds of all others. -/
abbrev Schema (S : Type) := Value S → Prop

namespace Value

variable {S : Type}

/-- The number that a value is, whether it is written as an integer or not. A bool is none. -/
def number? : Value S → Option Rat
  | .int n => some n
  | .float q => q
  | _ => none

/-- A value equals a literal that is no array and no object. -/
def Same (literal value : Value S) : Prop :=
  literal = value ∨ ∃ q, literal.number? = some q ∧ value.number? = some q

/-- The names of the types; a number without a fraction is an integer. -/
inductive Kind
  | object
  | array
  | string
  | integer
  | null
  deriving DecidableEq, Repr

def Kind.Has : Kind → Schema S
  | .object, value => value.isDict = true
  | .array, value => ∃ items, value = .list items
  | .string, value => ∃ s, value = .str s
  | .integer, value => ∃ n : Int, value.number? = some (n : Rat)
  | .null, value => value = .null

theorem same_str {s : S} {value : Value S} : (Value.str s).Same value ↔ value = .str s := by
  rw [Same]
  constructor
  · rintro (rfl | ⟨q, hq, -⟩)
    · rfl
    · cases hq
  · rintro rfl
    exact .inl rfl

theorem same_int {n : Int} {value : Value S} :
    (Value.int n).Same value ↔ value.number? = some (n : Rat) := by
  rw [Same]
  constructor
  · rintro (rfl | ⟨q, hq, hvalue⟩)
    · rfl
    · rw [hvalue, ← hq]
      rfl
  · intro h
    exact .inr ⟨n, rfl, h⟩

end Value

namespace schema

variable {A S : Type}

/-- All keywords of a schema object hold. -/
def all (keywords : List (Schema S)) : Schema S := fun value => ∀ keyword ∈ keywords, keyword value

def type (kinds : List Value.Kind) : Schema S := fun value => ∃ kind ∈ kinds, kind.Has value

def const (literal : Value S) : Schema S := literal.Same

def enum (literals : List (Value S)) : Schema S := fun value => ∃ literal ∈ literals, literal.Same value

def minLength (n : Nat) : Schema (List A) := fun value => ∀ s, value = .str s → n ≤ s.length

def pattern (Matches : S → Prop) : Schema S := fun value => ∀ s, value = .str s → Matches s

def minimum (n : Int) : Schema S := fun value => ∀ q, value.number? = some q → (n : Rat) ≤ q

def items (item : Schema S) : Schema S := fun value => ∀ l, value = .list l → ∀ x ∈ l, item x

def minItems (n : Nat) : Schema S := fun value => ∀ l, value = .list l → n ≤ l.length

def required (keys : List S) : Schema S :=
  fun value => value.isDict = true → ∀ key ∈ keys, (value.find key).isSome = true

def properties (fields : List (S × Schema S)) : Schema S :=
  fun value => ∀ field ∈ fields, ∀ x, value.find field.1 = some x → field.2 x

/-- `"additionalProperties": false` beside the given properties. -/
def closed (fields : List (S × Schema S)) : Schema S :=
  fun value => ∀ key, (value.find key).isSome = true → key ∈ fields.map Prod.fst

variable {value : Value S}

@[simp] theorem all_nil : all [] value ↔ True := by simp [all]

@[simp] theorem all_cons {keyword : Schema S} {keywords : List (Schema S)} :
    all (keyword :: keywords) value ↔ keyword value ∧ all keywords value :=
  List.forall_mem_cons

theorem type_single {kind : Value.Kind} : type [kind] value ↔ kind.Has value := by
  simp [type]

/-- An object whose properties are all required. -/
theorem required_properties {fields : List (S × Schema S)} (hdict : value.isDict = true) :
    required (fields.map Prod.fst) value ∧ properties fields value ↔
      ∀ field ∈ fields, (value.find field.1).isSome = true ∧ field.2 (value.get field.1) := by
  simp only [required, properties, hdict, forall_const, List.forall_mem_map]
  constructor
  · rintro ⟨hrequired, hproperties⟩ field hfield
    obtain ⟨x, hx⟩ := Option.isSome_iff_exists.mp (hrequired field hfield)
    rw [Value.get, hx]
    exact ⟨rfl, hproperties field hfield x hx⟩
  · intro hfields
    refine ⟨fun field hfield => (hfields field hfield).1, fun field hfield x hx => ?_⟩
    have hschema := (hfields field hfield).2
    rwa [Value.get, hx] at hschema

/-- A field is there if the value under its key is more than a missing one. -/
theorem present {key : S} {schema : Schema S} (hnull : ¬ schema .null) :
    ((value.find key).isSome = true ∧ schema (value.get key)) ↔ schema (value.get key) := by
  rw [Value.get]
  cases value.find key with
  | none => simp [hnull]
  | some x => simp

end schema

end json
