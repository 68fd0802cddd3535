import Jvc.Configuration
import Jvc.Contracts.Grammar
import Jvc.Lib.Schema

open json (Value Schema)

namespace jvc.contracts

open authority (PyStr scalars)

section Published

/-- `[a-z0-9]+(?:-[a-z0-9]+)*` on a whole text. -/
def id_pattern (s : PyStr) : Prop := ∃ id, s = scalars id ∧ matchId false id = true

/-- A text of at least so many characters. -/
def text_schema (n : Nat) : Schema PyStr :=
  json.schema.all [json.schema.type [.string], json.schema.minLength n]

def enum_schema (allowed : List String) : Schema PyStr :=
  json.schema.enum (allowed.map fun s => .str (lit s))

def strings_schema : Schema PyStr :=
  json.schema.all [json.schema.type [.array], json.schema.items (json.schema.type [.string])]

/-- `"$defs": { "check": … }` -/
def check_fields : List (PyStr × Schema PyStr) :=
  [(lit "argv", json.schema.all [json.schema.type [.array], json.schema.minItems 1,
      json.schema.items (text_schema 1)]),
    (lit "timeout_seconds", json.schema.all [json.schema.type [.integer], json.schema.minimum 1]),
    (lit "expected_exit", json.schema.const (.int 0)),
    (lit "expected_contains", json.schema.type [.string])]

def check_schema : Schema PyStr :=
  json.schema.all [json.schema.type [.object, .null],
    json.schema.required
      [lit "argv", lit "timeout_seconds", lit "expected_exit", lit "expected_contains"],
    json.schema.properties check_fields, json.schema.closed check_fields]

def runtime_fields : List (PyStr × Schema PyStr) :=
  [(lit "kind", enum_schema ["python", "none"]),
    (lit "candidates", json.schema.all [json.schema.type [.array], json.schema.items strings_schema]),
    (lit "probe_argv", strings_schema)]

def runtime_schema : Schema PyStr :=
  json.schema.all [json.schema.type [.object],
    json.schema.required [lit "kind", lit "candidates", lit "probe_argv"],
    json.schema.properties runtime_fields, json.schema.closed runtime_fields]

def contract_fields : List (PyStr × Schema PyStr) :=
  [(lit "schema_version", json.schema.const (.int 1)),
    (lit "project_id", json.schema.all [json.schema.type [.string], json.schema.pattern id_pattern]),
    (lit "cwd", text_schema 1),
    (lit "persistence", enum_schema ["git", "onedrive", "local"]),
    (lit "privacy", enum_schema ["standard", "private-content", "restricted-tooling"]),
    (lit "permission_class", enum_schema ["read-test", "private-structure-only", "docs-only"]),
    (lit "runtime", runtime_schema),
    (lit "preflight", check_schema),
    (lit "verify", check_schema),
    (lit "write_policy", text_schema 1)]

/-- `schemas/icm-execution-contract.schema.json` -/
def contract_schema : Schema PyStr :=
  json.schema.all [json.schema.type [.object],
    json.schema.required [lit "schema_version", lit "project_id", lit "cwd", lit "persistence",
      lit "privacy", lit "permission_class", lit "runtime", lit "preflight", lit "verify",
      lit "write_policy"],
    json.schema.properties contract_fields, json.schema.closed contract_fields]

end Published

section Demands

/-- One of some texts. -/
def Listed (allowed : List String) (value : Json) : Prop :=
  ∃ s ∈ allowed, value = .str (lit s)

/-- A list of texts, and a list of these. -/
def Texts (value : Json) : Prop := ∃ l, value = .list l ∧ ∀ x ∈ l, x.str?.isSome = true

def TextLists (value : Json) : Prop := ∃ l, value = .list l ∧ ∀ x ∈ l, Texts x

/-- What the validator and the schema both ask of a check. -/
structure Command (check : Json) : Prop where
  argv : array_of nonempty_str (field "argv" check) = true
  timeout_seconds : ∃ n : Int, 1 ≤ n ∧ (field "timeout_seconds" check).number? = some (n : Rat)
  expected_exit : (field "expected_exit" check).number? = some 0
  expected_contains : (field "expected_contains" check).str?.isSome = true

/-- A check is declared, and null or an object that gives a command. -/
def Declared (name : String) (contract : Json) : Prop :=
  (contract.find (lit name)).isSome = true ∧
    (field name contract = .null ∨
      (field name contract).isDict = true ∧ Command (field name contract))

def runtime_kind (contract : Json) : Json := field "kind" (field "runtime" contract)

/-- What the validator and the schema both ask of a contract. -/
structure Common (contract : Json) : Prop where
  schema_version : (field "schema_version" contract).number? = some 1
  project_id : nonempty_str (field "project_id" contract) = true
  cwd : nonempty_str (field "cwd" contract) = true
  persistence : Listed ALLOWED_PERSISTENCE (field "persistence" contract)
  privacy : Listed ALLOWED_PRIVACY (field "privacy" contract)
  permission_class : Listed ALLOWED_PERMISSION_CLASSES (field "permission_class" contract)
  write_policy : nonempty_str (field "write_policy" contract) = true
  runtime : (field "runtime" contract).isDict = true
  kind : Listed ["python", "none"] (runtime_kind contract)
  candidates : runtime_kind contract = .str (lit "python") →
    TextLists (field "candidates" (field "runtime" contract))
  probe_argv : runtime_kind contract = .str (lit "python") →
    Texts (field "probe_argv" (field "runtime" contract))
  preflight : Declared "preflight" contract
  verify : Declared "verify" contract

/-- The numbers of a check are written as integers. -/
def Whole (check : Json) : Prop :=
  check.isDict = true → (field "timeout_seconds" check).exactInt?.isSome = true ∧
    (field "expected_exit" check).exactInt?.isSome = true

/-- What the validator alone asks: integers written as such, a write policy that is not only
whitespace, and for python a candidate, no empty candidate or argument, and a probe. -/
structure Strict (contract : Json) : Prop where
  schema_version : (field "schema_version" contract).exactInt?.isSome = true
  write_policy : filled_str (field "write_policy" contract) = true
  candidates : runtime_kind contract = .str (lit "python") →
    array_of (array_of nonempty_str) (field "candidates" (field "runtime" contract)) = true
  probe_argv : runtime_kind contract = .str (lit "python") →
    field "probe_argv" (field "runtime" contract) ≠ .list []
  preflight : Whole (field "preflight" contract)
  verify : Whole (field "verify" contract)

/-- No other fields than the given ones. -/
def Only (names : List String) (value : Json) : Prop :=
  ∀ key, (value.find key).isSome = true → key ∈ names.map lit

/-- What the schema alone asks: a project id of its pattern, no further fields, and the
candidates and the probe also where no runtime is needed. -/
structure Closed (contract : Json) : Prop where
  project_id : ∃ id, field "project_id" contract = .str (scalars id) ∧ matchId false id = true
  fields : Only ["schema_version", "project_id", "cwd", "persistence", "privacy",
    "permission_class", "runtime", "preflight", "verify", "write_policy"] contract
  runtime : Only ["kind", "candidates", "probe_argv"] (field "runtime" contract)
  candidates : runtime_kind contract = .str (lit "none") →
    TextLists (field "candidates" (field "runtime" contract))
  probe_argv : runtime_kind contract = .str (lit "none") →
    Texts (field "probe_argv" (field "runtime" contract))
  preflight : Only ["argv", "timeout_seconds", "expected_exit", "expected_contains"]
    (field "preflight" contract)
  verify : Only ["argv", "timeout_seconds", "expected_exit", "expected_contains"]
    (field "verify" contract)

end Demands

section Validator

theorem require_nil {holds : Bool} {error : String} : require holds error = [] ↔ holds = true := by
  cases holds <;> simp [require]

theorem member_true {allowed : List String} {value : Json} :
    member allowed value = .ok true ↔ Listed allowed value := by
  have hany : (allowed.any fun s => value.equalsStr (lit s)) = true ↔ Listed allowed value := by
    simp only [List.any_eq_true, Value.equalsStr_iff]
    exact Iff.rfl
  rw [member]
  split
  · rw [Except.ok.injEq, hany]
  · rename_i hhash
    constructor
    · intro h
      cases h
    · rintro ⟨s, -, rfl⟩
      exact absurd rfl hhash

theorem array_of_iff {item : Json → Bool} {value : Json} :
    array_of item value = true ↔ ∃ l, value = .list l ∧ l ≠ [] ∧ ∀ x ∈ l, item x = true := by
  cases value <;> simp [array_of]

theorem exactInt_iff {value : Json} {n : Int} :
    value.exactInt? = some n ↔ value.exactInt?.isSome = true ∧ value.number? = some (n : Rat) := by
  cases value <;> simp [Value.exactInt?, Value.number?]

theorem check_runtime_nil {runtime : Json} : check_runtime runtime = .ok [] ↔
    runtime.isDict = true ∧ Listed ["python", "none"] (field "kind" runtime) ∧
      (field "kind" runtime = .str (lit "python") →
        array_of (array_of nonempty_str) (field "candidates" runtime) = true ∧
          array_of (fun arg => arg.str?.isSome) (field "probe_argv" runtime) = true) := by
  rw [check_runtime, ← member_true]
  cases hdict : runtime.isDict with
  | false => simp
  | true =>
    cases hmember : member ["python", "none"] (field "kind" runtime) with
    | error e => simp [bind, Except.bind]
    | ok known =>
      cases known with
      | false => simp [bind, Except.bind, pure, Except.pure]
      | true =>
        rw [← Value.equalsStr_iff]
        cases hpython : (field "kind" runtime).equalsStr (lit "python") with
        | false => simp [bind, Except.bind, pure, Except.pure]
        | true => simp [bind, Except.bind, pure, Except.pure, require_nil]

theorem check_command_nil {name : String} {check : Json} :
    check_command name check = [] ↔ Command check ∧
      (field "timeout_seconds" check).exactInt?.isSome = true ∧
        (field "expected_exit" check).exactInt?.isSome = true := by
  simp only [check_command, List.append_eq_nil_iff, require_nil, decide_eq_true_eq]
  rw [exactInt_iff, Option.any_eq_true]
  constructor
  · rintro ⟨⟨⟨hargv, n, hn, hpos⟩, hwhole, hexit⟩, hcontains⟩
    rw [exactInt_iff] at hn
    exact ⟨⟨hargv, ⟨n, of_decide_eq_true hpos, hn.2⟩, hexit, hcontains⟩, hn.1, hwhole⟩
  · rintro ⟨⟨hargv, ⟨n, hpos, hn⟩, hexit, hcontains⟩, htimeout, hwhole⟩
    exact ⟨⟨⟨hargv, n, exactInt_iff.mpr ⟨htimeout, hn⟩, decide_eq_true hpos⟩, hwhole, hexit⟩,
      hcontains⟩

theorem check_declared_nil {name : String} {contract : Json} :
    check_declared name contract = [] ↔ Declared name contract ∧ Whole (field name contract) := by
  rw [check_declared, Declared, field, Value.get]
  cases hfind : contract.find (lit name) with
  | none => simp
  | some check =>
    simp only [Option.isSome_some, Option.getD_some, true_and]
    cases check with
    | null => simp [Whole, Value.isDict]
    | dict fields =>
      rw [show (Value.dict fields : Json).isDict = true from rfl]
      simp only [if_true, check_command_nil, Whole, reduceCtorEq, false_or, true_and, forall_const,
        Value.isDict]
    | _ => simp [Whole, Value.isDict]

theorem nonempty_str_iff {value : Json} : nonempty_str value = true ↔ ∃ s, value = .str s ∧ s ≠ [] := by
  rw [nonempty_str, Option.any_eq_true]
  simp only [Value.str?_eq_some, decide_eq_true_eq]

theorem texts_of_nonempty {value : Json} (h : array_of nonempty_str value = true) : Texts value := by
  obtain ⟨l, rfl, -, hall⟩ := array_of_iff.mp h
  refine ⟨l, rfl, fun x hx => ?_⟩
  obtain ⟨s, rfl, -⟩ := nonempty_str_iff.mp (hall x hx)
  rfl

theorem textLists_of_nonempty {value : Json} (h : array_of (array_of nonempty_str) value = true) :
    TextLists value := by
  obtain ⟨l, rfl, -, hall⟩ := array_of_iff.mp h
  exact ⟨l, rfl, fun x hx => texts_of_nonempty (hall x hx)⟩

theorem array_of_text {value : Json} :
    array_of (fun arg => arg.str?.isSome) value = true ↔ Texts value ∧ value ≠ .list [] := by
  rw [array_of_iff]
  constructor
  · rintro ⟨l, rfl, hne, hall⟩
    exact ⟨⟨l, rfl, hall⟩, fun h => hne (Value.list.inj h)⟩
  · rintro ⟨⟨l, rfl, hall⟩, hne⟩
    exact ⟨l, rfl, fun h => hne (by rw [h]), hall⟩

theorem nonempty_of_filled {value : Json} (h : filled_str value = true) : nonempty_str value = true := by
  rw [filled_str, Option.any_eq_true] at h
  obtain ⟨s, hs, hfilled⟩ := h
  refine nonempty_str_iff.mpr ⟨s, Value.str?_eq_some.mp hs, ?_⟩
  rintro rfl
  cases hfilled

variable [Platform]

theorem validate_contract_nil {contract : Json} (hdict : contract.isDict = true)
    (project_id : Option PyStr) (root : Option Path) :
    validate_contract contract project_id root = .ok [] ↔
      (field "schema_version" contract).exactInt? = some 1 ∧
      check_project_id project_id contract = [] ∧ check_cwd root contract = [] ∧
      member ALLOWED_PERSISTENCE (field "persistence" contract) = .ok true ∧
      member ALLOWED_PRIVACY (field "privacy" contract) = .ok true ∧
      member ALLOWED_PERMISSION_CLASSES (field "permission_class" contract) = .ok true ∧
      filled_str (field "write_policy" contract) = true ∧
      check_runtime (field "runtime" contract) = .ok [] ∧
      check_declared "preflight" contract = [] ∧ check_declared "verify" contract = [] := by
  rw [validate_contract, hdict, Bool.not_true, if_neg Bool.false_ne_true]
  cases member ALLOWED_PERSISTENCE (field "persistence" contract) with
  | error e => simp [bind, Except.bind]
  | ok persistence =>
    cases member ALLOWED_PRIVACY (field "privacy" contract) with
    | error e => simp [bind, Except.bind]
    | ok privacy =>
      cases member ALLOWED_PERMISSION_CLASSES (field "permission_class" contract) with
      | error e => simp [bind, Except.bind]
      | ok permission_class =>
        cases check_runtime (field "runtime" contract) with
        | error e => simp [bind, Except.bind]
        | ok runtime =>
          simp only [bind, Except.bind, pure, Except.pure, Except.ok.injEq, List.append_eq_nil_iff,
            require_nil, decide_eq_true_eq]
          tauto

/-- What the validator asks of an object. -/
theorem valid_iff {contract : Json} (hdict : contract.isDict = true) :
    Valid contract ↔ Common contract ∧ Strict contract := by
  rw [Valid, validate_contract_nil hdict, check_project_id, check_cwd, require_nil, require_nil,
    member_true, member_true, member_true, exactInt_iff, check_runtime_nil, check_declared_nil,
    check_declared_nil, array_of_text]
  constructor
  · rintro ⟨-, ⟨hwhole, hversion⟩, hid, hcwd, hpersistence, hprivacy, hclass, hpolicy,
      ⟨hruntime, hkind, hpython⟩, ⟨hpreflight, hwhole_preflight⟩, hverify, hwhole_verify⟩
    refine ⟨⟨hversion, hid, hcwd, hpersistence, hprivacy, hclass, nonempty_of_filled hpolicy,
      hruntime, hkind, fun h => ?_, fun h => ?_, hpreflight, hverify⟩,
      ⟨hwhole, hpolicy, fun h => (hpython h).1, fun h => (hpython h).2.2, hwhole_preflight,
        hwhole_verify⟩⟩
    · exact textLists_of_nonempty (hpython h).1
    · exact (hpython h).2.1
  · rintro ⟨hcommon, hstrict⟩
    exact ⟨hdict, ⟨hstrict.schema_version, hcommon.schema_version⟩, hcommon.project_id, hcommon.cwd,
      hcommon.persistence, hcommon.privacy, hcommon.permission_class, hstrict.write_policy,
      ⟨hcommon.runtime, hcommon.kind, fun h =>
        ⟨hstrict.candidates h, hcommon.probe_argv h, hstrict.probe_argv h⟩⟩,
      ⟨hcommon.preflight, hstrict.preflight⟩, hcommon.verify, hstrict.verify⟩

end Validator

section Instances

open json.schema

theorem text_schema_one {value : Json} : text_schema 1 value ↔ nonempty_str value = true := by
  rw [text_schema, all_cons, type_single, all_cons, nonempty_str_iff]
  constructor
  · rintro ⟨⟨s, rfl⟩, hlength, -⟩
    refine ⟨s, rfl, ?_⟩
    rintro rfl
    exact absurd (hlength [] rfl) (by decide)
  · rintro ⟨s, rfl, hne⟩
    refine ⟨⟨s, rfl⟩, fun s' hs => ?_, all_nil.mpr trivial⟩
    cases hs
    exact List.length_pos_of_ne_nil hne

theorem enum_schema_iff {allowed : List String} {value : Json} :
    enum_schema allowed value ↔ Listed allowed value := by
  rw [enum_schema, enum, Listed]
  simp only [List.mem_map, exists_exists_and_eq_and, Value.same_str]

theorem strings_schema_iff {value : Json} : strings_schema value ↔ Texts value := by
  rw [strings_schema, all_cons, type_single, all_cons, items, Texts]
  have htext (x : Json) : json.schema.type [.string] x ↔ x.str?.isSome = true := by
    rw [type_single, Option.isSome_iff_exists]
    simp only [Value.str?_eq_some]
    exact Iff.rfl
  simp only [htext, all_nil, and_true]
  constructor
  · rintro ⟨⟨l, rfl⟩, hall⟩
    exact ⟨l, rfl, hall l rfl⟩
  · rintro ⟨l, rfl, hall⟩
    refine ⟨⟨l, rfl⟩, fun l' hl => ?_⟩
    cases hl
    exact hall

theorem candidates_schema_iff {value : Json} :
    json.schema.all [json.schema.type [.array], items strings_schema] value ↔ TextLists value := by
  rw [all_cons, type_single, all_cons, items, TextLists]
  simp only [strings_schema_iff, all_nil, and_true]
  constructor
  · rintro ⟨⟨l, rfl⟩, hall⟩
    exact ⟨l, rfl, hall l rfl⟩
  · rintro ⟨l, rfl, hall⟩
    refine ⟨⟨l, rfl⟩, fun l' hl => ?_⟩
    cases hl
    exact hall

theorem argv_schema_iff {value : Json} :
    json.schema.all [json.schema.type [.array], minItems 1, items (text_schema 1)] value ↔
      array_of nonempty_str value = true := by
  rw [all_cons, type_single, all_cons, all_cons, minItems, items, array_of_iff]
  simp only [text_schema_one, all_nil, and_true]
  constructor
  · rintro ⟨⟨l, rfl⟩, hlength, hall⟩
    exact ⟨l, rfl, List.ne_nil_of_length_pos (hlength l rfl), hall l rfl⟩
  · rintro ⟨l, rfl, hne, hall⟩
    refine ⟨⟨l, rfl⟩, fun l' hl => ?_, fun l' hl => ?_⟩
    · cases hl
      exact List.length_pos_of_ne_nil hne
    · cases hl
      exact hall

theorem timeout_schema_iff {value : Json} :
    json.schema.all [json.schema.type [.integer], minimum 1] value ↔
      ∃ n : Int, 1 ≤ n ∧ value.number? = some (n : Rat) := by
  rw [all_cons, type_single, all_cons, minimum]
  simp only [all_nil, and_true]
  constructor
  · rintro ⟨⟨n, hn⟩, hminimum⟩
    exact ⟨n, Rat.intCast_le_intCast.mp (hminimum n hn), hn⟩
  · rintro ⟨n, hpos, hn⟩
    refine ⟨⟨n, hn⟩, fun q hq => ?_⟩
    rw [hn] at hq
    cases hq
    exact Rat.intCast_le_intCast.mpr hpos

theorem text_type_iff {value : Json} :
    json.schema.type [.string] value ↔ value.str?.isSome = true := by
  rw [type_single, Option.isSome_iff_exists]
  simp only [Value.str?_eq_some]
  exact Iff.rfl

/-- What the schema of a check asks of an object, its further fields apart. -/
theorem check_properties_iff {check : Json} (hdict : check.isDict = true) :
    required (check_fields.map Prod.fst) check ∧ properties check_fields check ↔ Command check := by
  have hargv := @present PyStr check (lit "argv")
    (json.schema.all [json.schema.type [.array], minItems 1, items (text_schema 1)])
    (by rw [argv_schema_iff]; decide)
  have htimeout := @present PyStr check (lit "timeout_seconds")
    (json.schema.all [json.schema.type [.integer], minimum 1])
    (by rw [timeout_schema_iff]; rintro ⟨n, -, hn⟩; cases hn)
  have hexit := @present PyStr check (lit "expected_exit") (const (.int 0))
    (by rw [const, Value.same_int]; intro h; cases h)
  have hcontains := @present PyStr check (lit "expected_contains") (json.schema.type [.string])
    (by rw [text_type_iff]; decide)
  rw [required_properties hdict]
  simp only [check_fields, List.forall_mem_cons, hargv, htimeout, hexit, hcontains,
    List.not_mem_nil, false_implies, implies_true, and_true]
  rw [argv_schema_iff, timeout_schema_iff, const, Value.same_int, text_type_iff]
  exact ⟨fun ⟨hargv, htimeout, hexit, hcontains⟩ => ⟨hargv, htimeout, hexit, hcontains⟩,
    fun h => ⟨h.argv, h.timeout_seconds, h.expected_exit, h.expected_contains⟩⟩

theorem check_schema_iff {check : Json} : check_schema check ↔
    (check = .null ∨ check.isDict = true ∧ Command check) ∧
      Only ["argv", "timeout_seconds", "expected_exit", "expected_contains"] check := by
  have htype : json.schema.type [.object, .null] check ↔ check.isDict = true ∨ check = .null := by
    simp [json.schema.type, Value.Kind.Has]
  rw [check_schema, all_cons, all_cons, all_cons, all_cons, htype]
  have hclosed : closed check_fields check ↔
      Only ["argv", "timeout_seconds", "expected_exit", "expected_contains"] check := Iff.rfl
  rw [hclosed]
  by_cases hnull : check = .null
  · subst hnull
    simp [required, properties, Value.isDict, Value.find]
  cases hdict : check.isDict with
  | false => simp [hnull]
  | true =>
    have hproperties := check_properties_iff hdict
    have hrequired : required [lit "argv", lit "timeout_seconds", lit "expected_exit",
        lit "expected_contains"] check ↔ required (check_fields.map Prod.fst) check := Iff.rfl
    rw [← hproperties, hrequired]
    simp only [hnull, true_or, true_and, false_or, all_nil, and_true, and_assoc]

theorem runtime_properties_iff {runtime : Json} (hdict : runtime.isDict = true) :
    required (runtime_fields.map Prod.fst) runtime ∧ properties runtime_fields runtime ↔
      Listed ["python", "none"] (field "kind" runtime) ∧ TextLists (field "candidates" runtime) ∧
        Texts (field "probe_argv" runtime) := by
  have hkind := @present PyStr runtime (lit "kind") (enum_schema ["python", "none"])
    (by rw [enum_schema_iff]; rintro ⟨s, -, hs⟩; cases hs)
  have hcandidates := @present PyStr runtime (lit "candidates")
    (json.schema.all [json.schema.type [.array], items strings_schema])
    (by rw [candidates_schema_iff]; rintro ⟨l, hl, -⟩; cases hl)
  have hprobe := @present PyStr runtime (lit "probe_argv") strings_schema
    (by rw [strings_schema_iff]; rintro ⟨l, hl, -⟩; cases hl)
  rw [required_properties hdict]
  simp only [runtime_fields, List.forall_mem_cons, hkind, hcandidates, hprobe,
    List.not_mem_nil, false_implies, implies_true, and_true]
  rw [enum_schema_iff, candidates_schema_iff, strings_schema_iff]
  exact Iff.rfl

/-- What the schema asks of a runtime. -/
theorem runtime_schema_iff {runtime : Json} : runtime_schema runtime ↔ runtime.isDict = true ∧
    (Listed ["python", "none"] (field "kind" runtime) ∧ TextLists (field "candidates" runtime) ∧
      Texts (field "probe_argv" runtime)) ∧ Only ["kind", "candidates", "probe_argv"] runtime := by
  rw [runtime_schema, all_cons, all_cons, all_cons, all_cons, all_nil, and_true, type_single]
  apply and_congr_right
  intro hdict
  rw [← runtime_properties_iff hdict, and_assoc]
  exact Iff.rfl

theorem id_schema_iff {value : Json} :
    json.schema.all [json.schema.type [.string], json.schema.pattern id_pattern] value ↔
      ∃ id, value = .str (scalars id) ∧ matchId false id = true := by
  rw [all_cons, type_single, all_cons, json.schema.pattern, all_nil, and_true]
  constructor
  · rintro ⟨⟨s, rfl⟩, hmatch⟩
    obtain ⟨id, rfl, hid⟩ := hmatch s rfl
    exact ⟨id, rfl, hid⟩
  · rintro ⟨id, rfl, hid⟩
    refine ⟨⟨_, rfl⟩, fun s hs => ?_⟩
    cases hs
    exact ⟨id, rfl, hid⟩

theorem nonempty_of_id {value : Json}
    (h : ∃ id, value = .str (scalars id) ∧ matchId false id = true) : nonempty_str value = true := by
  obtain ⟨id, rfl, hid⟩ := h
  refine nonempty_str_iff.mpr ⟨_, rfl, ?_⟩
  intro hnil
  rw [scalars, List.map_eq_nil_iff] at hnil
  rw [hnil] at hid
  cases hid

theorem contract_properties_iff {contract : Json} (hdict : contract.isDict = true) :
    required (contract_fields.map Prod.fst) contract ∧ properties contract_fields contract ↔
      (field "schema_version" contract).number? = some ((1 : Int) : Rat) ∧
      (∃ id, field "project_id" contract = .str (scalars id) ∧ matchId false id = true) ∧
      nonempty_str (field "cwd" contract) = true ∧
      Listed ALLOWED_PERSISTENCE (field "persistence" contract) ∧
      Listed ALLOWED_PRIVACY (field "privacy" contract) ∧
      Listed ALLOWED_PERMISSION_CLASSES (field "permission_class" contract) ∧
      runtime_schema (field "runtime" contract) ∧
      ((contract.find (lit "preflight")).isSome = true ∧ check_schema (field "preflight" contract)) ∧
      ((contract.find (lit "verify")).isSome = true ∧ check_schema (field "verify" contract)) ∧
      nonempty_str (field "write_policy" contract) = true := by
  have hversion := @present PyStr contract (lit "schema_version") (const (.int 1))
    (by rw [const, Value.same_int]; intro h; cases h)
  have hid := @present PyStr contract (lit "project_id")
    (json.schema.all [json.schema.type [.string], json.schema.pattern id_pattern])
    (by rw [id_schema_iff]; rintro ⟨id, hid, -⟩; cases hid)
  have htext (key : String) := @present PyStr contract (lit key) (text_schema 1)
    (by rw [text_schema_one]; decide)
  have henum (key : String) (allowed : List String) := @present PyStr contract (lit key)
    (enum_schema allowed) (by rw [enum_schema_iff]; rintro ⟨s, -, hs⟩; cases hs)
  have hruntime := @present PyStr contract (lit "runtime") runtime_schema
    (by rw [runtime_schema_iff]; rintro ⟨hdict, -⟩; cases hdict)
  rw [required_properties hdict]
  simp only [contract_fields, List.forall_mem_cons, hversion, hid, htext, henum, hruntime,
    List.not_mem_nil, false_implies, implies_true, and_true]
  rw [const, Value.same_int, id_schema_iff, text_schema_one, enum_schema_iff, enum_schema_iff,
    enum_schema_iff, text_schema_one]
  exact Iff.rfl

/-- What the schema asks of an object. -/
theorem contract_schema_iff {contract : Json} (hdict : contract.isDict = true) :
    contract_schema contract ↔ Common contract ∧ Closed contract := by
  have hclosed : closed contract_fields contract ↔ Only ["schema_version", "project_id", "cwd",
      "persistence", "privacy", "permission_class", "runtime", "preflight", "verify",
      "write_policy"] contract := Iff.rfl
  have hrequired : required [lit "schema_version", lit "project_id", lit "cwd", lit "persistence",
      lit "privacy", lit "permission_class", lit "runtime", lit "preflight", lit "verify",
      lit "write_policy"] contract ↔ required (contract_fields.map Prod.fst) contract := Iff.rfl
  have hobject : Value.Kind.object.Has contract ↔ True := iff_true_intro hdict
  have hproperties := contract_properties_iff hdict
  rw [runtime_schema_iff, check_schema_iff, check_schema_iff] at hproperties
  rw [contract_schema, all_cons, all_cons, all_cons, all_cons, all_nil, and_true, type_single,
    hobject, true_and, hrequired, hclosed, ← and_assoc, hproperties]
  have hpython : runtime_kind contract = .str (lit "python") ∨ runtime_kind contract = .str (lit "none") ↔
      Listed ["python", "none"] (runtime_kind contract) := by
    simp [Listed]
  constructor
  · rintro ⟨⟨hversion, hid, hcwd, hpersistence, hprivacy, hclass,
      ⟨hruntime, ⟨hkind, hcandidates, hprobe⟩, honly⟩, ⟨hpreflight, hcommand, hchecks⟩,
      ⟨hverify, hcommand', hchecks'⟩, hpolicy⟩, hfields⟩
    exact ⟨⟨hversion, nonempty_of_id hid, hcwd, hpersistence, hprivacy, hclass, hpolicy, hruntime,
      hkind, fun _ => hcandidates, fun _ => hprobe, ⟨hpreflight, hcommand⟩, ⟨hverify, hcommand'⟩⟩,
      ⟨hid, hfields, honly, fun _ => hcandidates, fun _ => hprobe, hchecks, hchecks'⟩⟩
  · rintro ⟨hcommon, hclosed⟩
    have hcandidates : TextLists (field "candidates" (field "runtime" contract)) := by
      rcases hpython.mpr hcommon.kind with h | h
      · exact hcommon.candidates h
      · exact hclosed.candidates h
    have hprobe : Texts (field "probe_argv" (field "runtime" contract)) := by
      rcases hpython.mpr hcommon.kind with h | h
      · exact hcommon.probe_argv h
      · exact hclosed.probe_argv h
    exact ⟨⟨hcommon.schema_version, hclosed.project_id, hcommon.cwd, hcommon.persistence,
      hcommon.privacy, hcommon.permission_class,
      ⟨hcommon.runtime, ⟨hcommon.kind, hcandidates, hprobe⟩, hclosed.runtime⟩,
      ⟨hcommon.preflight.1, hcommon.preflight.2, hclosed.preflight⟩,
      ⟨hcommon.verify.1, hcommon.verify.2, hclosed.verify⟩, hcommon.write_policy⟩, hclosed.fields⟩

end Instances

section Agreement

variable [Platform]

/-- The validator reports no error on an object exactly if the published schema holds of it. -/
def SchemaAgrees (contract : Json) : Prop :=
  validate_contract contract none none = .ok [] ↔ contract_schema contract

/-- The validator and the schema agree on an object that lacks something both ask, and else
exactly where what the validator alone asks and what the schema alone asks hold together or
fail together. -/
theorem schema_agrees_iff (fields : PyStr → Option Json) :
    SchemaAgrees (.dict fields) ↔
      (Common (.dict fields) → (Strict (.dict fields) ↔ Closed (.dict fields))) := by
  have hvalid : validate_contract (.dict fields) none none = .ok [] ↔
      Common (.dict fields) ∧ Strict (.dict fields) := by
    rw [← valid_iff rfl, Valid]
    exact ⟨fun h => ⟨rfl, h⟩, fun h => h.2⟩
  rw [SchemaAgrees, hvalid, contract_schema_iff rfl]
  exact and_congr_right_iff

end Agreement

section Sample

attribute [local instance] unreadable

/-- A contract of a project that only has documents. -/
def docs (runtime : List (PyStr × Json)) (write_policy : String) : Json :=
  .ofFields [(lit "schema_version", .int 1), (lit "project_id", .str (lit "docs")),
    (lit "cwd", .str (lit "/srv/docs")), (lit "persistence", .str (lit "git")),
    (lit "privacy", .str (lit "standard")), (lit "permission_class", .str (lit "docs-only")),
    (lit "runtime", .ofFields runtime), (lit "preflight", .null), (lit "verify", .null),
    (lit "write_policy", .str (lit write_policy))]

theorem only_ofFields {names : List String} {fields : List (PyStr × Json)}
    (h : fields.map Prod.fst = names.map lit) : Only names (.ofFields fields) := by
  intro key hkey
  rw [← h]
  exact Value.mem_of_find_ofFields hkey

/-- A runtime that is not needed passes the validator without candidates and not the schema;
a blank write policy passes the schema and not the validator. -/
theorem schema_disagrees :
    ¬ SchemaAgrees (docs [(lit "kind", .str (lit "none"))] "direct") ∧
      ¬ SchemaAgrees (docs [(lit "kind", .str (lit "none")), (lit "candidates", .list []),
        (lit "probe_argv", .list [])] " ") := by
  constructor
  · intro h
    have hschema := h.mp (by decide +kernel)
    have hclosed := ((contract_schema_iff rfl).mp hschema).2
    obtain ⟨l, hl, -⟩ := hclosed.candidates rfl
    cases hl
  · intro h
    have hempty : TextLists (.list []) ∧ Texts (.list []) :=
      ⟨⟨[], rfl, fun x hx => by cases hx⟩, ⟨[], rfl, fun x hx => by cases hx⟩⟩
    have hcommon : Common (docs [(lit "kind", .str (lit "none")), (lit "candidates", .list []),
        (lit "probe_argv", .list [])] " ") :=
      { schema_version := rfl
        project_id := rfl
        cwd := rfl
        persistence := ⟨"git", by decide, rfl⟩
        privacy := ⟨"standard", by decide, rfl⟩
        permission_class := ⟨"docs-only", by decide, rfl⟩
        write_policy := rfl
        runtime := rfl
        kind := ⟨"none", by decide, rfl⟩
        candidates := fun _ => hempty.1
        probe_argv := fun _ => hempty.2
        preflight := ⟨rfl, .inl rfl⟩
        verify := ⟨rfl, .inl rfl⟩ }
    have hnone (names : List String) : Only names .null := fun key hkey => by cases hkey
    have hvalid := h.mpr ((contract_schema_iff rfl).mpr ⟨hcommon,
      { project_id := ⟨"docs".toList, rfl, by decide⟩
        fields := only_ofFields rfl
        runtime := only_ofFields rfl
        candidates := fun _ => hempty.1
        probe_argv := fun _ => hempty.2
        preflight := hnone _
        verify := hnone _ }⟩)
    revert hvalid
    decide +kernel

end Sample

end jvc.contracts
