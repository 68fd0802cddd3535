import Jvc.Contracts.Contract
import Jvc.Policy.Respelling

open json (Value)

namespace jvc.contracts

/-- One START marker and one END marker, in this order, with `middle` between them. -/
structure Block (text middle : List Char) : Prop where
  start_once : markers.Once START_MARKER text
  end_once : markers.Once END_MARKER text
  between : ∃ front back, text = front ++ START_MARKER ++ middle ++ END_MARKER ++ back

/-- The body is `inner`, or has it in a fence. -/
inductive Fenced : List Char → List Char → Prop
  | bare (inner : List Char) : Fenced inner inner
  | plain (inner : List Char) : Fenced ("```".toList ++ inner ++ "```".toList) inner
  | json (inner : List Char) : Fenced ("```json".toList ++ inner ++ "```".toList) inner

/-- The values that the validator looks up in a set can be hashed. -/
structure Hashed (contract : Json) : Prop where
  persistence : (field "persistence" contract).hashable = true
  privacy : (field "privacy" contract).hashable = true
  permission_class : (field "permission_class" contract).hashable = true
  kind : (field "runtime" contract).isDict = true →
    (field "kind" (field "runtime" contract)).hashable = true

section Grammar

variable [Platform]

/-- A contract that the validator has nothing against. -/
def Valid (value : Json) : Prop :=
  value.isDict = true ∧ validate_contract value none none = .ok []

/-- The file is UTF-8 text with one block of markers around the JSON text of a valid
contract. -/
def Grammar (data : List UInt8) : Prop :=
  ∃ text, decode_utf8_sig data = .ok text ∧ ∃ middle inner value, Block text middle ∧
    Fenced (trim middle) inner ∧ Platform.loads (trim inner) = .ok value ∧ Valid value

section Validation

omit [Platform] in
theorem member_ok (allowed : List String) {value : Json} :
    (∃ b, member allowed value = .ok b) ↔ value.hashable = true := by
  rw [member]
  split
  · rename_i h
    exact ⟨fun _ => h, fun _ => ⟨_, rfl⟩⟩
  · rename_i h
    constructor
    · rintro ⟨b, hb⟩
      cases hb
    · intro hash
      exact absurd hash h

omit [Platform] in
theorem check_runtime_ok {runtime : Json} : (∃ errors, check_runtime runtime = .ok errors) ↔
    (runtime.isDict = true → (field "kind" runtime).hashable = true) := by
  rw [check_runtime]
  split
  · rename_i h
    rw [Bool.not_eq_true'] at h
    rw [h]
    exact ⟨fun _ hdict => absurd hdict Bool.false_ne_true, fun _ => ⟨_, rfl⟩⟩
  · rename_i h
    rw [Bool.not_eq_true', Bool.not_eq_false] at h
    rw [← member_ok ["python", "none"]]
    constructor
    · rintro ⟨errors, herrors⟩ -
      cases hmember : member ["python", "none"] (field "kind" runtime) with
      | ok known => exact ⟨known, rfl⟩
      | error e =>
        rw [hmember] at herrors
        cases herrors
    · intro hhash
      obtain ⟨known, hknown⟩ := hhash h
      rw [hknown]
      cases known with
      | false => exact ⟨_, rfl⟩
      | true =>
        simp only [bind, Except.bind, Bool.not_true, Bool.false_eq_true, if_false]
        split
        · exact ⟨_, rfl⟩
        · exact ⟨_, rfl⟩

/-- The validator gives its errors if it can look up all it looks up. -/
theorem validate_contract_ok {contract : Json} (hdict : contract.isDict = true)
    (project_id : Option authority.PyStr) (root : Option Path) :
    (∃ errors, validate_contract contract project_id root = .ok errors) ↔ Hashed contract := by
  rw [validate_contract, hdict, Bool.not_true, if_neg Bool.false_ne_true]
  constructor
  · rintro ⟨errors, h⟩
    cases hpersistence : member ALLOWED_PERSISTENCE (field "persistence" contract) with
    | error e =>
      rw [hpersistence] at h
      cases h
    | ok persistence =>
      cases hprivacy : member ALLOWED_PRIVACY (field "privacy" contract) with
      | error e =>
        rw [hpersistence, hprivacy] at h
        cases h
      | ok privacy =>
        cases hclass : member ALLOWED_PERMISSION_CLASSES (field "permission_class" contract) with
        | error e =>
          rw [hpersistence, hprivacy, hclass] at h
          cases h
        | ok permission_class =>
          cases hruntime : check_runtime (field "runtime" contract) with
          | error e =>
            rw [hpersistence, hprivacy, hclass, hruntime] at h
            cases h
          | ok runtime =>
            exact ⟨(member_ok _).mp ⟨_, hpersistence⟩, (member_ok _).mp ⟨_, hprivacy⟩,
              (member_ok _).mp ⟨_, hclass⟩, check_runtime_ok.mp ⟨_, hruntime⟩⟩
  · rintro ⟨hpersistence, hprivacy, hclass, hkind⟩
    obtain ⟨_, hpersistence⟩ := (member_ok ALLOWED_PERSISTENCE).mpr hpersistence
    obtain ⟨_, hprivacy⟩ := (member_ok ALLOWED_PRIVACY).mpr hprivacy
    obtain ⟨_, hclass⟩ := (member_ok ALLOWED_PERMISSION_CLASSES).mpr hclass
    obtain ⟨_, hruntime⟩ := check_runtime_ok.mpr hkind
    rw [hpersistence, hprivacy, hclass, hruntime]
    exact ⟨_, rfl⟩

omit [Platform] in
theorem member_error {allowed : List String} {value : Json} {e : Err}
    (h : member allowed value = .error e) : ∃ message, e = .TypeError message := by
  rw [member] at h
  split at h
  · cases h
  · cases h
    exact ⟨_, rfl⟩

omit [Platform] in
theorem check_runtime_error {runtime : Json} {e : Err} (h : check_runtime runtime = .error e) :
    ∃ message, e = .TypeError message := by
  rw [check_runtime] at h
  split at h
  · cases h
  · cases hmember : member ["python", "none"] (field "kind" runtime) with
    | error e' =>
      rw [hmember] at h
      cases h
      exact member_error hmember
    | ok known =>
      rw [hmember] at h
      simp only [bind, Except.bind] at h
      split at h
      · cases h
      · split at h
        · cases h
        · cases h

/-- The validator raises nothing but a `TypeError`. -/
theorem validate_contract_error {value : Json} {e : Err}
    (h : validate_contract value none none = .error e) : ∃ message, e = .TypeError message := by
  rw [validate_contract] at h
  split at h
  · cases h
  cases hpersistence : member ALLOWED_PERSISTENCE (field "persistence" value) with
  | error e' =>
    rw [hpersistence] at h
    cases h
    exact member_error hpersistence
  | ok persistence =>
    cases hprivacy : member ALLOWED_PRIVACY (field "privacy" value) with
    | error e' =>
      rw [hpersistence, hprivacy] at h
      cases h
      exact member_error hprivacy
    | ok privacy =>
      cases hclass : member ALLOWED_PERMISSION_CLASSES (field "permission_class" value) with
      | error e' =>
        rw [hpersistence, hprivacy, hclass] at h
        cases h
        exact member_error hclass
      | ok permission_class =>
        cases hruntime : check_runtime (field "runtime" value) with
        | error e' =>
          rw [hpersistence, hprivacy, hclass, hruntime] at h
          cases h
          exact check_runtime_error hruntime
        | ok runtime =>
          rw [hpersistence, hprivacy, hclass, hruntime] at h
          cases h

end Validation

section Texts

omit [Platform] in
theorem count_start (text : List Char) :
    markers.count START_MARKER text = 1 ↔ markers.Once START_MARKER text :=
  markers.count_eq_one (by decide)

omit [Platform] in
theorem count_end (text : List Char) :
    markers.count END_MARKER text = 1 ↔ markers.Once END_MARKER text :=
  markers.count_eq_one (by decide)

omit [Platform] in
/-- Where the markers stand in order, the block is what is between them. -/
theorem contract_body_block {text middle : List Char} (h : Block text middle) :
    contract_body text = unfence (trim middle) := by
  obtain ⟨front, back, heq⟩ := h.between
  obtain ⟨front', rest, hcut, -, honly⟩ := markers.cut_of_once h.start_once
  obtain ⟨hfront, hrest⟩ := honly front (middle ++ END_MARKER ++ back) (by
    rw [heq]
    simp only [List.append_assoc])
  have hend : markers.Once END_MARKER rest := by
    refine ⟨middle, back, hrest.symm, fun middle' back' h' => ?_⟩
    obtain ⟨front₀, back₀, -, honly'⟩ := h.end_once
    have hfirst := honly' (front ++ START_MARKER ++ middle) back heq
    have hsame := hrest.trans h'
    have hsecond := honly' (front ++ START_MARKER ++ middle') back' (by
      rw [heq]
      simp only [List.append_assoc] at hsame ⊢
      rw [hsame])
    exact List.append_cancel_left (hsecond.trans hfirst.symm)
  obtain ⟨middle', back', hcut', -, honly'⟩ := markers.cut_of_once hend
  obtain ⟨hmiddle, -⟩ := honly' middle back hrest.symm
  rw [contract_body, markers.split_of_cut hcut, List.getD_cons_succ, List.getD_cons_zero,
    markers.split_of_cut hcut', List.headD_cons, hmiddle]

omit [Platform] in
/-- What is left of a text begins as the text does, unless that is with whitespace. -/
theorem trim_begins {c : Char} (hc : isSpace c = false) (cs : List Char) :
    ∃ rest, trim (c :: cs) = c :: rest := by
  have hsuffix := List.dropWhile_suffix isSpace (l := (c :: cs).reverse)
  rw [← List.reverse_prefix, List.reverse_reverse] at hsuffix
  have htrim : trim (c :: cs) = ((c :: cs).reverse.dropWhile isSpace).reverse := by
    rw [trim, strip, String.toList_ofList, String.toList_ofList,
      List.dropWhile_cons_of_neg (by rw [hc]; exact Bool.false_ne_true)]
  rw [← htrim] at hsuffix
  cases hshape : trim (c :: cs) with
  | nil =>
    rw [htrim, List.reverse_eq_nil_iff, List.dropWhile_eq_nil_iff] at hshape
    have hspace := hshape c (List.mem_reverse.mpr List.mem_cons_self)
    rw [hc] at hspace
    cases hspace
  | cons d rest =>
    rw [hshape, List.cons_prefix_cons] at hsuffix
    exact ⟨rest, by rw [hsuffix.1]⟩

omit [Platform] in
theorem trim_trim (text : List Char) : trim (trim text) = trim text := by
  rw [trim, trim, String.ofList_toList, policy.strip_strip]

omit [Platform] in
theorem fenced_iff {body inner : List Char} : Fenced body inner ↔ body = inner ∨
    body = "```".toList ++ inner ++ "```".toList ∨
      body = "```json".toList ++ inner ++ "```".toList := by
  constructor
  · rintro (_ | _ | _)
    · exact .inl rfl
    · exact .inr (.inl rfl)
    · exact .inr (.inr rfl)
  · rintro (rfl | rfl | rfl)
    · exact .bare _
    · exact .plain _
    · exact .json _

omit [Platform] in
theorem take_fenced (opening inner closing : List Char) :
    ((opening ++ inner ++ closing).drop opening.length).take
      ((opening ++ inner ++ closing).length - opening.length - closing.length) = inner := by
  have hlength : (opening ++ inner ++ closing).length - opening.length - closing.length =
      inner.length := by
    simp only [List.length_append]
    omega
  rw [hlength, List.append_assoc, List.drop_left, List.take_left]

omit [Platform] in
/-- A body that is long enough for both ends of its fence has them apart. -/
theorem fenced_of_ends {opening closing body : List Char} (hopening : opening <+: body)
    (hclosing : closing <:+ body) (hlength : opening.length + closing.length ≤ body.length) :
    ∃ inner, body = opening ++ inner ++ closing := by
  obtain ⟨behind, rfl⟩ := hopening
  rw [List.length_append] at hlength
  have hend : closing <:+ behind :=
    List.suffix_of_suffix_length_le hclosing (List.suffix_append _ _) (by omega)
  obtain ⟨inner, rfl⟩ := hend
  exact ⟨inner, by rw [List.append_assoc]⟩

omit [Platform] in
theorem json_fence_long {body : List Char} (hopening : "```json".toList <+: body)
    (hclosing : "```".toList <:+ body) :
    "```json".toList.length + "```".toList.length ≤ body.length := by
  obtain ⟨behind, rfl⟩ := hopening
  rw [← List.reverse_prefix, List.reverse_append] at hclosing
  match behind, hclosing with
  | [], h => exact absurd h (by decide)
  | [a], h => simp at h
  | [a, b], h => simp at h
  | a :: b :: c :: behind, _ =>
    rw [List.length_append, List.length_cons, List.length_cons, List.length_cons]
    have hticks : "```".toList.length = 3 := rfl
    omega

/-- Taking the fence off gives what a JSON parser can read, where there is a reading. -/
theorem unfence_reads {middle : List Char} {value : Json} :
    Platform.loads (unfence (trim middle)) = .ok value ↔
      ∃ inner, Fenced (trim middle) inner ∧ Platform.loads (trim inner) = .ok value := by
  have htrimmed := trim_trim middle
  generalize trim middle = body at htrimmed ⊢
  have hticks : ∀ rest, Platform.loads ('\x60' :: rest) ≠ .ok value := by
    intro rest h
    obtain ⟨c, rest', heq, hne, -⟩ := Platform.loads_begins _ _ h
    cases heq
    exact hne rfl
  have hbare : "```".toList <+: body → Platform.loads (trim body) ≠ .ok value := by
    rintro ⟨rest, hrest⟩
    rw [htrimmed, ← hrest]
    exact hticks _
  have hticks_json : "```".toList <+: "```json".toList := by decide
  rw [unfence]
  split
  · rename_i hjson
    rw [Bool.and_eq_true, List.isPrefixOf_iff_prefix, List.isSuffixOf_iff_suffix] at hjson
    obtain ⟨inner, heq⟩ := fenced_of_ends hjson.1 hjson.2 (json_fence_long hjson.1 hjson.2)
    have htake := take_fenced "```json".toList inner "```".toList
    rw [← heq] at htake
    rw [show "```json".length = "```json".toList.length from rfl,
      show "```".length = "```".toList.length from rfl, htake]
    constructor
    · intro h
      exact ⟨inner, fenced_iff.mpr (.inr (.inr heq)), h⟩
    · rintro ⟨inner', hfenced, h⟩
      rcases fenced_iff.mp hfenced with rfl | hplain | hsame
      · exact absurd h (hbare (hticks_json.trans hjson.1))
      · have hinner : inner' = "json".toList ++ inner := by
          rw [heq] at hplain
          exact (@List.append_cancel_left Char "```".toList _ _
            (@List.append_cancel_right Char _ "```".toList _ hplain)).symm
        obtain ⟨rest, hrest⟩ := trim_begins (c := 'j') (by decide) ("son".toList ++ inner)
        rw [hinner, show "json".toList ++ inner = 'j' :: ("son".toList ++ inner) from rfl, hrest] at h
        obtain ⟨c, rest', hc, -, hne⟩ := Platform.loads_begins _ _ h
        cases hc
        exact absurd rfl hne
      · rw [heq] at hsame
        rwa [List.append_cancel_left (List.append_cancel_right hsame)]
  · rename_i hjson
    rw [Bool.and_eq_true, List.isPrefixOf_iff_prefix, List.isSuffixOf_iff_suffix] at hjson
    have hnot_json : ∀ inner, body ≠ "```json".toList ++ inner ++ "```".toList := by
      rintro inner rfl
      exact hjson ⟨by rw [List.append_assoc]; exact List.prefix_append _ _, List.suffix_append _ _⟩
    split
    · rename_i hplain
      rw [Bool.and_eq_true, List.isPrefixOf_iff_prefix, List.isSuffixOf_iff_suffix] at hplain
      rw [show "```".length = "```".toList.length from rfl]
      by_cases hlong : "```".toList.length + "```".toList.length ≤ body.length
      · obtain ⟨inner, heq⟩ := fenced_of_ends hplain.1 hplain.2 hlong
        have htake := take_fenced "```".toList inner "```".toList
        rw [← heq] at htake
        rw [htake]
        constructor
        · intro h
          exact ⟨inner, fenced_iff.mpr (.inr (.inl heq)), h⟩
        · rintro ⟨inner', hfenced, h⟩
          rcases fenced_iff.mp hfenced with rfl | hsame | hjson'
          · exact absurd h (hbare hplain.1)
          · rw [heq] at hsame
            rwa [List.append_cancel_left (List.append_cancel_right hsame)]
          · exact absurd hjson' (hnot_json inner')
      · -- The two ends are one fence: nothing is left between them.
        have hnone : body.length - "```".toList.length - "```".toList.length = 0 := by omega
        rw [hnone, List.take_zero]
        constructor
        · intro h
          obtain ⟨c, rest, hc, -⟩ := Platform.loads_begins _ _ h
          cases hc
        · rintro ⟨inner, hfenced, h⟩
          rcases fenced_iff.mp hfenced with rfl | heq | heq
          · exact absurd h (hbare hplain.1)
          · rw [heq, List.length_append, List.length_append] at hlong
            omega
          · exact absurd heq (hnot_json inner)
    · rename_i hplain
      rw [Bool.and_eq_true, List.isPrefixOf_iff_prefix, List.isSuffixOf_iff_suffix] at hplain
      constructor
      · intro h
        exact ⟨body, .bare body, by rwa [htrimmed]⟩
      · rintro ⟨inner, hfenced, h⟩
        rcases fenced_iff.mp hfenced with rfl | heq | heq
        · rwa [htrimmed] at h
        · refine absurd ⟨?_, ?_⟩ hplain
          · rw [heq, List.append_assoc]
            exact List.prefix_append _ _
          · rw [heq]
            exact List.suffix_append _ _
        · exact absurd heq (hnot_json inner)

end Texts

section Loading

/-- The markers stand once each, and the START marker first. -/
def Ordered (text : List Char) : Prop := ∃ middle, Block text middle

/-- A contract is returned or a `ContractError` is raised. -/
def Settled (result : Except Failure ExecutionContract) : Prop :=
  (∃ contract, result = .ok contract) ∨ ∃ message, result = .error (.ContractError message)

/-- The content decodes, and what the parser gives for a block with one marker of each kind
is a `JSONDecodeError`, or a value that the validator can look at and that is no valid contract
where the markers stand in the other order. -/
def Readable (data : List UInt8) : Prop :=
  ∃ text, decode_utf8_sig data = .ok text ∧
    (markers.Once START_MARKER text → markers.Once END_MARKER text →
      (∀ e, Platform.loads (contract_body text) = .error e → e = .JSONDecodeError) ∧
        ∀ value, Platform.loads (contract_body text) = .ok value → value.isDict = true →
          Hashed value ∧ (Valid value → Ordered text))

theorem grammar_iff {data : List UInt8} {text : List Char} (h : decode_utf8_sig data = .ok text) :
    Grammar data ↔ Ordered text ∧
      ∃ value, Platform.loads (contract_body text) = .ok value ∧ Valid value := by
  constructor
  · rintro ⟨text', htext', middle, inner, value, hblock, hfenced, hloads, hvalid⟩
    rw [h] at htext'
    cases htext'
    refine ⟨⟨middle, hblock⟩, value, ?_, hvalid⟩
    rw [contract_body_block hblock]
    exact unfence_reads.mpr ⟨inner, hfenced, hloads⟩
  · rintro ⟨⟨middle, hblock⟩, value, hloads, hvalid⟩
    rw [contract_body_block hblock] at hloads
    obtain ⟨inner, hfenced, hloads⟩ := unfence_reads.mp hloads
    exact ⟨text, h, middle, inner, value, hblock, hfenced, hloads, hvalid⟩

variable {agents_file : Path} {data : List UInt8} {text : List Char} {value : Json}

theorem load_contract_undecoded (h : ∀ text, decode_utf8_sig data ≠ .ok text) :
    load_contract agents_file (.ok data) = .error (.other .UnicodeDecodeError) := by
  have herror : decode_utf8_sig data = .error .UnicodeDecodeError := by
    unfold decode_utf8_sig at h ⊢
    split
    · rename_i hmark
      rw [if_pos hmark] at h
      exact absurd rfl (h _)
    · rename_i hmark
      rw [if_neg hmark] at h
      split
      · rename_i cs hcs
        rw [hcs] at h
        exact absurd rfl (h _)
      · rfl
  simp only [load_contract, Except.bind, herror]
  rfl

theorem load_contract_unmarked (h : decode_utf8_sig data = .ok text)
    (hmarkers : ¬ (markers.Once START_MARKER text ∧ markers.Once END_MARKER text)) :
    load_contract agents_file (.ok data) = .error
      (.ContractError "AGENTS.md must contain exactly one ICM execution block") := by
  rw [← count_start, ← count_end, not_and_or] at hmarkers
  simp only [load_contract, Except.bind, h, caught, bind, if_pos hmarkers]
  rfl

/-- What becomes of a block that is marked once. -/
theorem load_contract_marked (h : decode_utf8_sig data = .ok text)
    (hstart : markers.Once START_MARKER text) (hend : markers.Once END_MARKER text) :
    load_contract agents_file (.ok data) =
      (caught Err.isJSONDecodeError (fun exc => s!"invalid ICM execution JSON: {exc}")
        (Platform.loads (contract_body text))).bind declared_contract := by
  have hcounts : ¬ (markers.count START_MARKER text ≠ 1 ∨ markers.count END_MARKER text ≠ 1) := by
    rintro (hne | hne)
    · exact hne ((count_start text).mpr hstart)
    · exact hne ((count_end text).mpr hend)
  simp only [load_contract, Except.bind, h, caught, bind, if_neg hcounts]

theorem declared_contract_ok : (∃ contract, declared_contract value = .ok contract) ↔ Valid value := by
  rw [declared_contract, Valid]
  cases hdict : value.isDict with
  | false =>
    rw [Bool.not_false, if_pos rfl]
    constructor
    · rintro ⟨contract, hcontract⟩
      cases hcontract
    · rintro ⟨hdict, -⟩
      cases hdict
  | true =>
    rw [Bool.not_true, if_neg Bool.false_ne_true]
    cases hvalidate : validate_contract value none none with
    | error e =>
      constructor
      · rintro ⟨contract, hcontract⟩
        cases hcontract
      · rintro ⟨-, hok⟩
        cases hok
    | ok errors =>
      cases errors with
      | nil => exact ⟨fun _ => ⟨rfl, rfl⟩, fun _ => ⟨_, rfl⟩⟩
      | cons error errors =>
        constructor
        · rintro ⟨contract, hcontract⟩
          cases hcontract
        · rintro ⟨-, hok⟩
          cases hok

theorem declared_contract_settled :
    Settled (declared_contract value) ↔ (value.isDict = true → Hashed value) := by
  rw [declared_contract]
  cases hdict : value.isDict with
  | false =>
    rw [Bool.not_false, if_pos rfl]
    exact ⟨fun _ h => absurd h Bool.false_ne_true, fun _ => .inr ⟨_, rfl⟩⟩
  | true =>
    rw [Bool.not_true, if_neg Bool.false_ne_true, ← validate_contract_ok hdict none none]
    cases hvalidate : validate_contract value none none with
    | error e =>
      constructor
      · rintro (⟨contract, hcontract⟩ | ⟨message, herror⟩)
        · cases hcontract
        · cases herror
      · intro h
        obtain ⟨errors, herrors⟩ := h rfl
        cases herrors
    | ok errors =>
      refine ⟨fun _ _ => ⟨errors, rfl⟩, fun _ => ?_⟩
      cases errors with
      | nil => exact .inl ⟨_, rfl⟩
      | cons error errors => exact .inr ⟨_, rfl⟩

theorem settled_caught {e : Err} {message : String → String} :
    Settled ((caught (α := Json) Err.isJSONDecodeError message (.error e)).bind declared_contract) ↔
      e = .JSONDecodeError := by
  simp only [Settled, caught, Except.bind]
  cases e <;> simp [Err.isJSONDecodeError]

/-- The validator gives a list of errors exactly on the values it can look at, and loading a
file gives a contract exactly for a file of the grammar, and otherwise a `ContractError`,
exactly where the file is readable in the sense above. -/
theorem load_contract_iff (agents_file : Path) :
    (∀ (value : Json) project_id root, (∃ errors, validate_contract value project_id root = .ok errors) ↔
      (value.isDict = true → Hashed value)) ∧
    ∀ data, (Settled (load_contract agents_file (.ok data)) ∧
      ((∃ contract, load_contract agents_file (.ok data) = .ok contract) ↔ Grammar data)) ↔
        Readable data := by
  refine ⟨fun value project_id root => ?_, fun data => ?_⟩
  · cases hdict : value.isDict with
    | false =>
      refine ⟨fun _ h => absurd h Bool.false_ne_true, fun _ => ⟨["contract must be a dict"], ?_⟩⟩
      rw [validate_contract, hdict]
      rfl
    | true =>
      rw [validate_contract_ok hdict]
      exact ⟨fun h _ => h, fun h => h rfl⟩
  by_cases hdecode : ∃ text, decode_utf8_sig data = .ok text
  · obtain ⟨text, htext⟩ := hdecode
    have hreadable : Readable data ↔ (markers.Once START_MARKER text →
        markers.Once END_MARKER text →
          (∀ e, Platform.loads (contract_body text) = .error e → e = .JSONDecodeError) ∧
            ∀ value, Platform.loads (contract_body text) = .ok value → value.isDict = true →
              Hashed value ∧ (Valid value → Ordered text)) := by
      constructor
      · rintro ⟨text', htext', h⟩
        rw [htext] at htext'
        cases htext'
        exact h
      · intro h
        exact ⟨text, htext, h⟩
    rw [hreadable, grammar_iff htext]
    by_cases hmarkers : markers.Once START_MARKER text ∧ markers.Once END_MARKER text
    · obtain ⟨hstart, hend⟩ := hmarkers
      rw [load_contract_marked htext hstart hend]
      cases hloads : Platform.loads (contract_body text) with
      | error e =>
        refine ⟨fun ⟨hsettled, _⟩ _ _ => ⟨fun e' he' => ?_, fun value hvalue => ?_⟩, fun h => ?_⟩
        · cases he'
          exact settled_caught.mp hsettled
        · cases hvalue
        · have hkind := (h hstart hend).1 e rfl
          refine ⟨settled_caught.mpr hkind, ?_⟩
          constructor
          · rintro ⟨contract, hcontract⟩
            cases hcontract
          · rintro ⟨-, value, hvalue, -⟩
            cases hvalue
      | ok value =>
        have hdeclared : (caught Err.isJSONDecodeError
            (fun exc => s!"invalid ICM execution JSON: {exc}")
            (.ok value)).bind declared_contract = declared_contract value := rfl
        rw [hdeclared, declared_contract_settled, declared_contract_ok]
        have hgrammar : (∃ value', Except.ok (ε := Err) value = .ok value' ∧ Valid value') ↔
            Valid value := by
          constructor
          · rintro ⟨value', heq, hvalid⟩
            cases heq
            exact hvalid
          · intro hvalid
            exact ⟨value, rfl, hvalid⟩
        rw [hgrammar]
        constructor
        · rintro ⟨hhashed, hvalid⟩ - -
          refine ⟨fun e he => ?_, fun value' hvalue' hdict => ?_⟩
          · cases he
          · cases hvalue'
            exact ⟨hhashed hdict, fun h => (hvalid.mp h).1⟩
        · intro h
          have hvalue := (h hstart hend).2 value rfl
          refine ⟨fun hdict => (hvalue hdict).1, fun hvalid => ?_, fun h => h.2⟩
          exact ⟨(hvalue hvalid.1).2 hvalid, hvalid⟩
    · rw [load_contract_unmarked htext hmarkers]
      refine ⟨fun _ hstart hend => absurd ⟨hstart, hend⟩ hmarkers, fun _ => ⟨.inr ⟨_, rfl⟩, ?_⟩⟩
      constructor
      · rintro ⟨contract, hcontract⟩
        cases hcontract
      · rintro ⟨⟨middle, hblock⟩, -⟩
        exact absurd ⟨hblock.start_once, hblock.end_once⟩ hmarkers
  · have hno := not_exists.mp hdecode
    rw [load_contract_undecoded hno]
    constructor
    · rintro ⟨⟨contract, hcontract⟩ | ⟨message, herror⟩, -⟩
      · cases hcontract
      · cases herror
    · rintro ⟨text, htext, -⟩
      exact absurd htext (hno text)

end Loading

section Written

/-- The file with nothing but a JSON text between the markers. -/
def written (json : List Char) : List Char := START_MARKER ++ json ++ END_MARKER

/-- The text of an object with these fields. -/
def object (fields : List Char) : List Char := '\x7b' :: (fields ++ ['\x7d'])

omit [Platform] in
theorem block_written {json : List Char} (h : '<' ∉ json) : Block (written json) json := by
  have hstart : START_MARKER = '<' :: START_MARKER.tail := by decide
  have hend : END_MARKER = '<' :: END_MARKER.tail := by decide
  have hshape : written json = START_MARKER ++ (json ++ END_MARKER) := List.append_assoc _ _ _
  refine ⟨(count_start _).mp ?_, (count_end _).mp ?_, [], [], ?_⟩
  · have hnone : markers.count START_MARKER END_MARKER = 0 := by decide
    rw [hshape]
    rw [hstart] at hnone ⊢
    rw [markers.count_prefix, markers.count_append h, hnone]
  · have hfirst : ¬ END_MARKER <+: START_MARKER ++ (json ++ END_MARKER) := by
      intro hprefix
      have hshort := List.prefix_of_prefix_length_le hprefix (List.prefix_append _ _) (by decide)
      exact absurd hshort (by decide)
    have hbehind : markers.count END_MARKER (START_MARKER.tail ++ (json ++ END_MARKER)) = 1 := by
      have hopen : '<' ∉ START_MARKER.tail := by decide
      have hone : markers.count END_MARKER END_MARKER = 1 := by decide
      rw [hend] at hone ⊢
      rw [markers.count_append hopen, markers.count_append h, hone]
    rw [hshape]
    rw [hstart, List.cons_append] at hfirst ⊢
    rw [hend] at hfirst hbehind ⊢
    rw [markers.count_cons hfirst, hbehind]
  · rw [written, List.nil_append, List.append_nil]

omit [Platform] in
/-- A text without a byte order mark and with plain line feeds is read as it was written. -/
theorem decode_utf8_sig_encode {text : List Char} (hmark : text.head? ≠ some '\ufeff')
    (hreturn : '\r' ∉ text) : decode_utf8_sig (utf8.encode text) = .ok text := by
  have hdecode : (utf8.encode text).toByteArray.utf8Decode? = some text.toArray :=
    List.utf8Decode?_utf8Encode
  have hguard : ¬ (utf8.encode text = [0xef] ∨ utf8.encode text = [0xef, 0xbb]) := by
    have hcut : [0xef].toByteArray.utf8Decode? = none ∧ [0xef, 0xbb].toByteArray.utf8Decode? = none := by
      decide +kernel
    rintro (hcontent | hcontent)
    · rw [hcontent, hcut.1] at hdecode
      cases hdecode
    · rw [hcontent, hcut.2] at hdecode
      cases hdecode
  rw [decode_utf8_sig, if_neg hguard, hdecode]
  simp only
  congr 1
  split
  · exact absurd rfl hmark
  · exact lines.translate_eq_self hreturn

omit [Platform] in
theorem trim_object (fields : List Char) : trim (object fields) = object fields := by
  have hopen : isSpace '\x7b' = false := by decide
  have hclose : isSpace '\x7d' = false := by decide
  simp only [object, trim, strip, String.toList_ofList, List.dropWhile_cons, hopen, hclose,
    List.reverse_cons, List.reverse_append, List.reverse_nil, List.nil_append, List.cons_append,
    Bool.false_eq_true, if_false, List.reverse_reverse]

/-- An object that is written to the file between the markers is what the parser gets. -/
theorem load_contract_written {fields : List Char} (agents_file : Path) (hmarker : '<' ∉ fields)
    (hreturn : '\r' ∉ fields) :
    load_contract agents_file (.ok (utf8.encode (written (object fields)))) =
      (caught Err.isJSONDecodeError (fun exc => s!"invalid ICM execution JSON: {exc}")
        (Platform.loads (object fields))).bind declared_contract := by
  have hblock : Block (written (object fields)) (object fields) := by
    apply block_written
    simpa [object] using hmarker
  have hbody : contract_body (written (object fields)) = object fields := by
    rw [contract_body_block hblock, trim_object]
    rfl
  have hdecode : decode_utf8_sig (utf8.encode (written (object fields))) =
      .ok (written (object fields)) := by
    apply decode_utf8_sig_encode
    · exact ne_of_eq_of_ne (show _ = some '<' from rfl) (by decide)
    · have hends : '\r' ∉ START_MARKER ∧ '\r' ∉ END_MARKER := by decide
      simpa [written, object, hends] using hreturn
  rw [load_contract_marked hdecode hblock.start_once hblock.end_once, hbody]

end Written

end Grammar

section Sample

/-- A platform whose parser reads nothing. -/
@[reducible]
def unreadable : Platform where
  loads _ := .error .JSONDecodeError
  exc_str _ := "Expecting value: line 1 column 1 (char 0)"
  repr _ := "''"
  declared_root _ := "/"
  actual_root root := root
  loads_begins _ _ h := by cases h

attribute [local instance] unreadable

/-- A file of one byte that is no UTF-8, and a contract whose persistence is a list, raise
what is no `ContractError`. -/
theorem load_contract_escapes :
    load_contract "AGENTS.md" (.ok [0xff]) = .error (.other .UnicodeDecodeError) ∧
      validate_contract (.ofFields [(lit "persistence", .list [])]) none none =
        .error (.TypeError "unhashable type: 'list'") := by
  have hdecode : decode_utf8_sig [0xff] = .error .UnicodeDecodeError := by decide +kernel
  constructor
  · exact load_contract_undecoded fun text htext => by cases hdecode.symm.trans htext
  · decide +kernel

end Sample

end jvc.contracts
