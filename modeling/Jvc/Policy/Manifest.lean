import Jvc.Lib.Effects
import Jvc.Policy.Prewrite

open json (Value)
open program

namespace jvc.prewrite

open authority (PyStr CodePoint characters)
open contracts (Json lit field member filled_str)
open guard (Failure)

section Texts

theorem lit_inj {s t : String} : lit s = lit t ↔ s = t := by
  constructor
  · intro h
    have hinj : Function.Injective CodePoint.scalar := fun a b hab => by cases hab; rfl
    exact String.toList_injective (hinj.list_map h)
  · rintro rfl
    rfl

theorem characters_lit (s : String) : characters (lit s) = some s.toList := by
  rw [lit, authority.scalars]
  induction s.toList with
  | nil => rfl
  | cons c cs ih => rw [List.map_cons, characters, ih, Option.map_some]

@[simp] theorem length_lit (s : String) : (lit s).length = s.length := by
  rw [lit, authority.scalars, List.length_map, String.length_toList]

theorem mem_allowed {allowed : List String} {value : Json} :
    (allowed.any fun s => value.equalsStr (lit s)) = true ↔ ∃ s ∈ allowed, value = .str (lit s) := by
  simp only [List.any_eq_true, Value.equalsStr_iff]

theorem member_true {allowed : List String} {value : Json} :
    member allowed value = .ok true ↔ ∃ s ∈ allowed, value = .str (lit s) := by
  rw [← mem_allowed, member]
  split
  · rw [Except.ok.injEq]
  · rename_i hhash
    constructor
    · intro h
      cases h
    · intro h
      obtain ⟨s, -, rfl⟩ := mem_allowed.mp h
      exact absurd rfl hhash

theorem member_false {allowed : List String} {value : Json} :
    member allowed value = .ok false ↔
      value.hashable = true ∧ ∀ s ∈ allowed, value ≠ .str (lit s) := by
  have hany : (allowed.any fun s => value.equalsStr (lit s)) = false ↔
      ∀ s ∈ allowed, value ≠ .str (lit s) := by
    rw [← Bool.not_eq_true, mem_allowed]
    push Not
    rfl
  rw [← hany, member]
  split
  · rename_i hhash
    rw [Except.ok.injEq]
    exact ⟨fun h => ⟨hhash, h⟩, fun h => h.2⟩
  · rename_i hhash
    constructor
    · intro h
      cases h
    · intro h
      exact absurd h.1 hhash

end Texts

section Reading

variable {Bytes : Type}

/-- The operations that change nothing. -/
def Reading : Op Bytes → Prop
  | .is_dir _ | .is_file _ | .read_bytes _ => True
  | _ => False

theorem Reading.step {w u : World Bytes} (i : Pid) (op : Op Bytes) (hop : Reading op)
    (h : u = w) : ((machine Bytes).step i op u).2 = w := by
  cases op with
  | is_dir p => exact h
  | is_file p => exact h
  | read_bytes p => exact h
  | _ => exact absurd hop not_false

/-- A program that only reads. -/
def Reads {α : Type} (p : Guarded Bytes α) : Prop := p.Within Reading fun _ => True

theorem Reads.run {α : Type} {p : Guarded Bytes α} (hp : Reads p) (i : Pid) (w : World Bytes) :
    (p.run (machine Bytes) i w).2 = w :=
  Prog.Within.run (I := fun u => u = w) hp (fun op _ hop h => Reading.step i op hop h) rfl

theorem Reads.ret {α : Type} (a : α) : Reads (.ret a : Guarded Bytes α) :=
  Prog.Within.ret trivial

theorem Reads.fail {α : Type} (failure : Failure) : Reads (.fail failure : Guarded Bytes α) :=
  Prog.Within.fail failure

theorem Reads.ofExcept {α : Type} (r : Except Failure α) :
    Reads (Prog.ofExcept r : Guarded Bytes α) := Prog.Within.ofExcept fun _ _ => trivial

theorem Reads.seq {α β : Type} {p : Guarded Bytes α} {f : α → Guarded Bytes β} (hp : Reads p)
    (hf : ∀ a, Reads (f a)) : Reads (p >>= f) := Prog.Within.seq hp fun a _ => hf a

theorem Reads.os {α : Type} {p : Jvc Bytes α} (hp : p.Within Reading fun _ => True) :
    Reads (prewrite.os p) := by
  induction hp with
  | ret _ => exact .ret _
  | fail e => exact .fail _
  | act hop _ ih => exact Prog.Within.act hop ih

theorem reads_is_file (p : Path) : Reads (os (is_file p) : Guarded Bytes Bool) :=
  Prog.Within.act trivial fun _ => .ret trivial

theorem reads_exists_path (p : Path) : Reads (os (exists_path p) : Guarded Bytes Bool) := by
  refine Reads.os (.act trivial fun directory => ?_)
  cases directory with
  | true => exact .ret trivial
  | false => exact .act trivial fun _ => .ret trivial

theorem reads_read_bytes (p : Path) : Reads (os (read_bytes p) : Guarded Bytes Bytes) := by
  refine Reads.os (.act trivial fun found => ?_)
  cases found with
  | none => exact .fail _
  | some data => exact .ret trivial

variable [Text] [Texts] [Host Bytes] [Artifacts Bytes]

theorem reads_read_json (path : Path) : Reads (read_json path : Guarded Bytes Json) := by
  refine Reads.seq (Prog.Within.act trivial fun found => ?_) fun data => ?_
  · cases found with
    | none => exact .fail _
    | some data => exact .ret trivial
  · split
    · exact .fail _
    · split
      · exact .ret _
      · exact .fail _

omit [Artifacts Bytes] in
theorem reads_inspect_entry (root : Path) (strict : Bool) (entry : Json) :
    Reads (inspect_entry root strict entry : Guarded Bytes Tally) := by
  refine Reads.seq (.ofExcept _) fun found => ?_
  obtain ⟨target, canonical_rel⟩ := found
  dsimp only
  split
  · refine Reads.seq (reads_exists_path target) fun created => ?_
    split
    · exact Reads.seq (reads_read_bytes target) fun data => .ret _
    · exact .ret _
  · refine Reads.seq (reads_is_file target) fun file => ?_
    split
    · exact .ret _
    · exact Reads.seq (reads_read_bytes target) fun data => .ret _

omit [Artifacts Bytes] in
theorem reads_inspect_entries (root : Path) (strict : Bool) (entries : List Json) :
    Reads (inspect_entries root strict entries : Guarded Bytes Tally) := by
  induction entries with
  | nil => exact .ret _
  | cons entry rest ih =>
    exact Reads.seq (reads_inspect_entry root strict entry) fun tally => Reads.seq ih fun _ => .ret _

theorem reads_examine (root manifest_path output_receipt : Path) :
    Reads (examine root manifest_path output_receipt : Guarded Bytes (Examined Bytes)) := by
  refine Reads.seq (.ofExcept _) fun _ => Reads.seq (reads_exists_path _) fun occupied => ?_
  split
  · exact .fail _
  refine Reads.seq (reads_read_bytes _) fun before => Reads.seq (reads_read_json _) fun manifest =>
    Reads.seq (.ofExcept _) fun entries => ?_
  split
  · exact .fail _
  · exact Reads.seq (reads_inspect_entries _ _ _) fun tally => .ret _

end Reading

section Validation

variable [Text] [Texts]

/-- The state that an entry was captured in, with the preimage that goes with it. -/
def Preimage (entry : Json) : Prop :=
  (field "expected_state" entry = .str (lit "present") ∧ is_hash (field "sha256" entry) = true ∧
      ((field "byte_length" entry).int?.any fun n => 0 ≤ n) = true) ∨
    (field "expected_state" entry = .str (lit "absent") ∧ entry.find (lit "sha256") = none ∧
      entry.find (lit "byte_length") = none)

/-- An entry that the validator has nothing against, but for repeated paths. -/
structure Checked (root : Path) (entry : Json) (c : PyStr) : Prop where
  dict : entry.isDict = true
  path : ∃ raw t, field "path" entry = .str raw ∧ filled_str (.str raw) = true ∧
    target root raw = .ok (t, c)
  plain : secret c = false ∧ control c = false
  preimage : Preimage entry
  expected : field "expected_sha256" entry = .null ∨ is_hash (field "expected_sha256" entry) = true

omit [Text] [Texts] in
theorem check_preimage_ok {shown : String} {entry : Json} :
    check_preimage shown entry = .ok () ↔ Preimage entry := by
  have hstates : ∀ value : Json, (∃ s ∈ ["present", "absent"], value = .str (lit s)) ↔
      value = .str (lit "present") ∨ value = .str (lit "absent") := by
    intro value
    simp
  have hne : lit "absent" ≠ lit "present" := fun h => absurd (lit_inj.mp h) (by decide)
  rw [check_preimage]
  split
  · rename_i err herr
    constructor
    · intro h
      cases h
    · intro h
      have hmember := member_true.mpr ((hstates _).mpr (h.imp (·.1) (·.1)))
      rw [herr] at hmember
      cases hmember
  · rename_i known hknown
    cases known with
    | false =>
      have hother := (member_false.mp hknown).2
      constructor
      · intro h
        cases h
      · rintro (h | h)
        · exact absurd h.1 (hother "present" (by simp))
        · exact absurd h.1 (hother "absent" (by simp))
    | true =>
      rw [Bool.not_true, if_neg Bool.false_ne_true]
      obtain hstate | hstate := (hstates _).mp (member_true.mp hknown)
      · rw [if_pos (Value.equalsStr_iff.mpr hstate), Preimage, hstate]
        simp only [Value.str.injEq, hne.symm, false_and, or_false, true_and]
        cases is_hash (field "sha256" entry) with
        | false => simp
        | true =>
          cases (field "byte_length" entry).int?.any fun n => 0 ≤ n with
          | false => simp
          | true => simp
      · rw [Preimage, hstate, if_neg fun h => hne (Value.str.inj (Value.equalsStr_iff.mp h))]
        simp only [Value.str.injEq, hne, false_and, false_or, true_and]
        cases entry.find (lit "sha256") with
        | some value => simp
        | none =>
          cases entry.find (lit "byte_length") with
          | some value => simp
          | none => simp

omit [Text] [Texts] in
theorem check_expected_ok {shown : String} {entry : Json} : check_expected shown entry = .ok () ↔
    field "expected_sha256" entry = .null ∨ is_hash (field "expected_sha256" entry) = true := by
  rw [check_expected]
  split
  · rename_i h
    exact ⟨fun _ => .inl h, fun _ => rfl⟩
  · rename_i h
    cases hhash : is_hash (field "expected_sha256" entry) with
    | true => simp
    | false =>
      simp only [Bool.false_eq_true, if_false, or_false, reduceCtorEq, false_iff]
      exact h

theorem check_entry_ok {root : Path} {seen seen' : List PyStr} {entry : Json} :
    check_entry root seen entry = .ok seen' ↔
      ∃ c, Checked root entry c ∧ c ∉ seen ∧ seen' = c :: seen := by
  rw [check_entry]
  generalize Texts.shown (field "path" entry) = shown
  constructor
  · intro h
    split at h
    · cases h
    rename_i hdict
    split at h
    · cases h
    rename_i hfilled
    rw [Bool.not_eq_true', Bool.not_eq_false] at hdict hfilled
    split at h
    · cases h
    rename_i t c htarget
    split at h
    · cases h
    rename_i hfresh
    split at h
    · cases h
    rename_i hsecret
    split at h
    · cases h
    rename_i hcontrol
    rw [Bool.not_eq_true] at hsecret hcontrol
    cases hpreimage : check_preimage shown entry with
    | error failure =>
      rw [hpreimage] at h
      cases h
    | ok _ =>
      cases hexpected : check_expected shown entry with
      | error failure =>
        rw [hpreimage, hexpected] at h
        cases h
      | ok _ =>
        rw [hpreimage, hexpected] at h
        cases h
        cases hpath : (field "path" entry).str? with
        | none =>
          rw [filled_str, hpath] at hfilled
          cases hfilled
        | some raw =>
          rw [hpath] at htarget
          rw [Value.str?_eq_some] at hpath
          rw [hpath] at hfilled
          exact ⟨c, ⟨hdict, ⟨raw, t, hpath, hfilled, htarget⟩, ⟨hsecret, hcontrol⟩,
            check_preimage_ok.mp hpreimage, check_expected_ok.mp hexpected⟩, hfresh, rfl⟩
  · rintro ⟨c, ⟨hdict, ⟨raw, t, hpath, hfilled, htarget⟩, ⟨hsecret, hcontrol⟩, hpreimage, hexpected⟩,
      hfresh, rfl⟩
    rw [hdict, hpath, hfilled, Value.str?, Option.getD_some, htarget]
    simp only [Bool.not_true, Bool.false_eq_true, if_false, if_neg hfresh, hsecret, hcontrol,
      check_preimage_ok.mpr hpreimage, check_expected_ok.mpr hexpected]
    rfl

theorem check_entries_ok {root : Path} {seen : List PyStr} {entries : List Json} :
    check_entries root seen entries = .ok () ↔
      ∃ cs, List.Forall₂ (Checked root) entries cs ∧ cs.Nodup ∧ ∀ c ∈ cs, c ∉ seen := by
  induction entries generalizing seen with
  | nil =>
    refine ⟨fun _ => ⟨[], .nil, List.nodup_nil, fun c hc => by cases hc⟩, fun _ => rfl⟩
  | cons entry rest ih =>
    rw [check_entries]
    constructor
    · intro h
      cases hentry : check_entry root seen entry with
      | error failure =>
        rw [hentry] at h
        cases h
      | ok seen' =>
        rw [hentry] at h
        obtain ⟨c, hchecked, hfresh, rfl⟩ := check_entry_ok.mp hentry
        obtain ⟨cs, hrest, hnodup, hseen⟩ := ih.mp h
        refine ⟨c :: cs, .cons hchecked hrest, List.nodup_cons.mpr ⟨fun hc => ?_, hnodup⟩, ?_⟩
        · exact hseen c hc List.mem_cons_self
        · intro d hd
          rcases List.mem_cons.mp hd with rfl | hd
          · exact hfresh
          · exact fun h => hseen d hd (List.mem_cons_of_mem c h)
    · rintro ⟨cs, hall, hnodup, hseen⟩
      cases hall with
      | @cons _ c _ cs hchecked hrest =>
        obtain ⟨hc, hnodup⟩ := List.nodup_cons.mp hnodup
        rw [check_entry_ok.mpr ⟨c, hchecked, hseen c List.mem_cons_self, rfl⟩]
        refine ih.mpr ⟨cs, hrest, hnodup, fun d hd h => ?_⟩
        rcases List.mem_cons.mp h with rfl | h
        · exact hc hd
        · exact hseen d (List.mem_cons_of_mem c hd) h

/-- The states in which a strict-write manifest must have bound its intent. -/
def UnderWay (state : Json) : Prop :=
  state = .str (lit "approved") ∨ state = .str (lit "applied") ∨ state = .str (lit "verified")

/-- The intent of a manifest is bound if it has to be. -/
def IntentBound (manifest : Json) (entries : List Json) : Prop :=
  field "guard_mode" manifest = .str (lit "strict-write") →
    (field "lifecycle_state" manifest).hashable = true ∧
      (UnderWay (field "lifecycle_state" manifest) →
        field "intent_state" manifest = .str (lit "bound") ∧
          ∀ entry ∈ entries, entry.find (lit "expected_sha256") ≠ none)

omit [Text] [Texts] in
theorem check_intent_ok {manifest : Json} {entries : List Json} :
    check_intent manifest entries = .ok () ↔ IntentBound manifest entries := by
  have hstates : ∀ value : Json,
      (∃ s ∈ ["approved", "applied", "verified"], value = .str (lit s)) ↔ UnderWay value := by
    intro value
    simp [UnderWay]
  have hmode : (!(field "guard_mode" manifest).equalsStr (lit "strict-write")) = true ↔
      ¬ field "guard_mode" manifest = .str (lit "strict-write") := by
    rw [Bool.not_eq_true', ← Bool.not_eq_true, Value.equalsStr_iff]
  rw [check_intent, IntentBound]
  by_cases hstrict : field "guard_mode" manifest = .str (lit "strict-write")
  · rw [if_neg fun h => hmode.mp h hstrict]
    split
    · rename_i err herr
      constructor
      · intro h
        cases h
      · intro h
        rw [member, if_pos (h hstrict).1] at herr
        cases herr
    · rename_i under_way hmember
      cases under_way with
      | false =>
        obtain ⟨hhash, hother⟩ := member_false.mp hmember
        rw [Bool.not_false, if_pos rfl]
        refine ⟨fun _ _ => ⟨hhash, fun h => ?_⟩, fun _ => rfl⟩
        obtain ⟨s, hs, heq⟩ := (hstates _).mpr h
        exact absurd heq (hother s hs)
      | true =>
        have hunder := (hstates _).mp (member_true.mp hmember)
        have hhash : (field "lifecycle_state" manifest).hashable = true := by
          obtain h | h | h := hunder
          all_goals rw [h]; rfl
        have hmissing : (entries.any fun entry => (entry.find (lit "expected_sha256")).isNone) = true ↔
            ¬ ∀ entry ∈ entries, entry.find (lit "expected_sha256") ≠ none := by
          simp only [List.any_eq_true, Option.isNone_iff_eq_none]
          push Not
          rfl
        rw [Bool.not_true, if_neg Bool.false_ne_true]
        split
        · rename_i hintent
          rw [Bool.not_eq_true', ← Bool.not_eq_true, Value.equalsStr_iff] at hintent
          constructor
          · intro h
            cases h
          · intro h
            exact absurd ((h hstrict).2 hunder).1 hintent
        · rename_i hintent
          rw [Bool.not_eq_true', Bool.not_eq_false, Value.equalsStr_iff] at hintent
          split
          · rename_i hany
            constructor
            · intro h
              cases h
            · intro h
              exact absurd ((h hstrict).2 hunder).2 (hmissing.mp hany)
          · rename_i hany
            rw [hmissing, not_not] at hany
            exact ⟨fun _ _ => ⟨hhash, fun _ => ⟨hintent, hany⟩⟩, fun _ => rfl⟩
  · rw [if_pos (hmode.mpr hstrict)]
    exact ⟨fun _ h => absurd h hstrict, fun _ => rfl⟩

/-- What `_validate_entries` asks of a manifest. -/
structure WellFormed (root : Path) (manifest : Json) (entries : List Json) : Prop where
  schema_version : (field "schema_version" manifest).equalsInt guard.SCHEMA_VERSION = true
  listed : field "entries" manifest = .list entries
  nonempty : entries ≠ []
  checked : ∃ cs, List.Forall₂ (Checked root) entries cs ∧ cs.Nodup
  intent : IntentBound manifest entries

theorem validate_entries_ok {root : Path} {manifest : Json} {entries : List Json} :
    validate_entries root manifest = .ok entries ↔ WellFormed root manifest entries := by
  have hentries : ∀ es, check_entries root [] es = .ok () ↔
      ∃ cs, List.Forall₂ (Checked root) es cs ∧ cs.Nodup := by
    intro es
    rw [check_entries_ok]
    simp
  rw [validate_entries]
  constructor
  · intro h
    split at h
    · cases h
    rename_i hversion
    rw [Bool.not_eq_true', Bool.not_eq_false] at hversion
    split at h
    · rename_i entry rest hlist
      cases hcheck : check_entries root [] (entry :: rest) with
      | error failure =>
        rw [hcheck] at h
        cases h
      | ok _ =>
        cases hintent : check_intent manifest (entry :: rest) with
        | error failure =>
          rw [hcheck, hintent] at h
          cases h
        | ok _ =>
          rw [hcheck, hintent] at h
          cases h
          exact ⟨hversion, hlist, List.cons_ne_nil _ _, (hentries _).mp hcheck,
            check_intent_ok.mp hintent⟩
    · cases h
  · intro h
    obtain ⟨entry, rest, rfl⟩ := List.exists_cons_of_ne_nil h.nonempty
    rw [h.schema_version, Bool.not_true, if_neg Bool.false_ne_true, h.listed]
    simp only [(hentries _).mpr h.checked, check_intent_ok.mpr h.intent]
    rfl

end Validation

end jvc.prewrite
