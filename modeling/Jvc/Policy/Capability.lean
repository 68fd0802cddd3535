import Mathlib.Algebra.Group.Nat.Defs
import Jvc.Lib.Base64
import Jvc.Lib.Utf8
import Jvc.Recovery.Receipt

namespace jvc.authority

/-- A code point of a Python string: a Unicode scalar value or a lone surrogate. -/
inductive CodePoint
  | scalar (c : Char)
  | surrogate (offset : Fin 0x800)
  deriving DecidableEq, Repr

abbrev PyStr := List CodePoint

namespace CodePoint

def isAscii : CodePoint → Bool
  | .scalar c => c.toNat < 128
  | .surrogate _ => false

end CodePoint

/-- Text without lone surrogates. -/
def scalars (cs : List Char) : PyStr := cs.map .scalar

/-- The characters of the text, where it has no lone surrogates. -/
def characters : PyStr → Option (List Char)
  | [] => some []
  | .scalar c :: rest => (characters rest).map (c :: ·)
  | .surrogate _ :: _ => none

def isAscii (text : PyStr) : Bool := text.all CodePoint.isAscii

/-- `text.encode("utf-8")` -/
def encode_utf8 (text : PyStr) : Except Err (List UInt8) :=
  match characters text with
  | some cs => .ok (utf8.encode cs)
  | none => .error .UnicodeEncodeError

/-- `data.decode("utf-8")` -/
def decode_utf8 (data : List UInt8) : Except Err PyStr :=
  match data.toByteArray.utf8Decode? with
  | some cs => .ok (scalars cs.toList)
  | none => .error .UnicodeDecodeError

/-- `except ValueError`: the codec errors are subclasses of it. -/
def isValueError : Err → Bool
  | .ValueError _ | .JSONDecodeError | .UnicodeDecodeError | .UnicodeEncodeError => true
  | _ => false

/-- What the objects that are built here hold. -/
inductive Atom
  | str (s : String)
  | int (n : Int)
  deriving DecidableEq, Repr

/-- `json` and HMAC-SHA256. `J` is the type of JSON values, where objects are not
ordered; `wellFormed` says that all text in a value is well-formed Unicode, `bounded`
that its nesting and the digits of its numbers are within the limits of the
interpreter, and `deep` that a text is nested too deeply for `loads`. The laws are the
documented behaviour: an object within the limits is read back as it was written, and
another is not; text that is not read is refused with a `JSONDecodeError`, with a
`ValueError` for a number that is too long, or with a `RecursionError`; and a digest is
printed in hexadecimal digits. -/
class Json (J : Type) where
  isDict : J → Bool
  wellFormed : J → Bool
  bounded : J → Bool
  deep : PyStr → Bool
  null : J
  atom : Atom → J
  obj : List (String × Atom) → J
  /-- `value[key]`, where there is one -/
  find : J → String → Option J
  /-- `a == b` -/
  equal : J → J → Bool
  /-- `int(value)` -/
  toInt : J → Except Err Int
  /-- `str(value)` -/
  text : J → PyStr
  /-- `type(value).__name__` -/
  typeName : J → String
  /-- `json.dumps(value, sort_keys=True, separators=(",", ":"), ensure_ascii=False)` -/
  dumps : J → Except Err PyStr
  loads : PyStr → Except Err J
  /-- `hmac.new(secret, data, hashlib.sha256).hexdigest()` -/
  hexdigest : List UInt8 → List UInt8 → List Char
  loads_dumps : ∀ value, isDict value = true → wellFormed value = true → bounded value = true →
    ∃ cs, dumps value = .ok (scalars cs) ∧ loads (scalars cs) = .ok value
  loads_unbounded : ∀ value, isDict value = true → wellFormed value = true →
    bounded value = false → ∀ text, dumps value = .ok text →
      (∃ cs, text = scalars cs) ∧ ∃ e, loads text = .error e
  loads_error : ∀ data e, loads data = .error e →
    e = .JSONDecodeError ∨ (∃ message, e = .ValueError message) ∨
      e = .RecursionError ∧ deep data = true
  loads_deep : ∀ data, deep data = true → loads data = .error .RecursionError
  hexdigest_ascii : ∀ secret data, isAscii (scalars (hexdigest secret data)) = true
  isDict_obj : ∀ fields, isDict (obj fields) = true
  find_obj : ∀ fields key, find (obj fields) key = (fields.lookup key).map atom
  dumps_obj : ∀ fields, (∀ field ∈ fields, ∀ n, field.2 = .int n → n.natAbs < 2 ^ 63) →
    ∃ cs, dumps (obj fields) = .ok (scalars cs)
  toInt_equal : ∀ value n, equal value (atom (.int n)) = true → toInt value = .ok n
  toInt_atom : ∀ n, toInt (atom (.int n)) = .ok n
  equal_str : ∀ value s, equal value (atom (.str s)) = true → value = atom (.str s)
  text_str : ∀ s, text (atom (.str s)) = scalars s.toList

export Json (isDict wellFormed bounded deep hexdigest)

def OPERATOR_KEY_BYTES : Nat := 32

/-- Validate an operator secret: 32 bytes, not all of them zero. -/
def validate_operator_key (secret : List UInt8) : Except Err (List UInt8) :=
  if secret.length ≠ OPERATOR_KEY_BYTES then .error (.ValueError
    s!"operator secret must be exactly {OPERATOR_KEY_BYTES} bytes, got bytes of length {secret.length}")
  else if secret = List.replicate OPERATOR_KEY_BYTES 0 then
    .error (.ValueError "operator secret must not be all-zero (weak key)")
  else .ok secret

/-- `base64.urlsafe_b64encode(data).decode().rstrip("=")` -/
def _b64 (data : List UInt8) : List Char := base64.unpad (base64.encode data)

/-- `base64.urlsafe_b64decode(value + "=" * (-len(value) % 4))` -/
def _unb64 (value : PyStr) : Except Err (List UInt8) :=
  if isAscii value then
    match (characters value).bind fun cs => base64.decode (base64.pad cs) with
    | some data => .ok data
    | none => .error (.ValueError "Incorrect padding")
  else .error (.ValueError "string argument should contain only ASCII characters")

def separator : CodePoint := .scalar '.'

/-- `token.split(".", 1)`, where it gives two parts. -/
def split_token (token : PyStr) : Option (PyStr × PyStr) :=
  match token.dropWhile (· ≠ separator) with
  | [] => none
  | _ :: sig => some (token.takeWhile (· ≠ separator), sig)

/-- `hmac.compare_digest` on strings -/
def compare_digest (a b : PyStr) : Except Err Bool :=
  if isAscii a && isAscii b then .ok (a == b)
  else .error (.TypeError "comparing strings with non-ASCII characters is not supported")

section Codec

variable {J : Type} [Json J]

def canonical_json_bytes (value : J) : Except Err (List UInt8) := do
  let text ← Json.dumps value
  encode_utf8 text

/-- `f"{body}.{signature}"`, where `data` is what is signed. -/
def signed_token (J : Type) [Json J] (secret data : List UInt8) : PyStr :=
  scalars (_b64 data ++ '.' :: hexdigest J secret (utf8.encode (_b64 data)))

/-- Sign operator capability claims using HMAC-SHA256. -/
def sign_capability (claims : J) (secret : List UInt8) : Except Err PyStr := do
  let secret ← validate_operator_key secret
  let data ← canonical_json_bytes claims
  pure (signed_token J secret data)

/-- `_unb64(body).decode("utf-8")` -/
def body_text (body : PyStr) : Except Err PyStr := do
  let data ← _unb64 body
  decode_utf8 data

/-- `json.loads(_unb64(body).decode("utf-8"))` -/
def load_body (body : PyStr) : Except Err J := do
  let text ← body_text body
  Json.loads text

/-- The claims of a body whose signature is verified. -/
def decode_claims (body : PyStr) : Except Err J :=
  match (load_body body : Except Err J) with
  | .ok value =>
    if isDict value then .ok value
    else .error (.PermissionError "invalid capability claims structure")
  | .error e =>
    .error (if isValueError e then .PermissionError "invalid capability claims encoding" else e)

/-- Verify HMAC signature and decode capability claims. -/
def decode_and_verify_capability (token : PyStr) (secret : List UInt8) : Except Err J := do
  let secret ← validate_operator_key secret
  match split_token token with
  | none => throw (.PermissionError "malformed capability token")
  | some (body, sig) =>
    let data ← encode_utf8 body
    let equal ← compare_digest (scalars (hexdigest J secret data)) sig
    if equal then decode_claims body
    else throw (.PermissionError "invalid capability signature")

/-- The value is an object, and the part of the token after the first `.` is the
HMAC of the part before it. -/
def Verified (secret : List UInt8) (token : PyStr) (value : J) : Prop :=
  isDict value = true ∧ ∃ body sig data, split_token token = some (body, sig) ∧
    encode_utf8 body = .ok data ∧ sig = scalars (hexdigest J secret data)

/-- Verification gives a verified object or a `PermissionError`. -/
def Answers (J : Type) [Json J] (secret : List UInt8) (token : PyStr) : Prop :=
  (∃ value : J, decode_and_verify_capability token secret = .ok value ∧
    Verified secret token value) ∨
  ∃ message, (decode_and_verify_capability token secret : Except Err J) =
    .error (.PermissionError message)

/-- The token has no `.`, or no lone surrogate stands before the first one and
only ASCII behind it. -/
def comparable (token : PyStr) : Bool :=
  match split_token token with
  | none => true
  | some (body, sig) => (characters body).isSome && isAscii sig

/-- The body encodes a text that is nested too deeply. -/
def deep_body (J : Type) [Json J] (body : PyStr) : Bool :=
  match body_text body with
  | .ok text => deep J text
  | .error _ => false

/-- The body of the token is signed, and nested too deeply. -/
def overdeep (J : Type) [Json J] (secret : List UInt8) (token : PyStr) : Bool :=
  match split_token token with
  | none => false
  | some (body, sig) =>
    match characters body with
    | none => false
    | some cs => scalars (hexdigest J secret (utf8.encode cs)) == sig && deep_body J body

/-- Verification comes to no step that raises anything but a `PermissionError`. -/
def decodable (J : Type) [Json J] (secret : List UInt8) (token : PyStr) : Bool :=
  comparable token && !overdeep J secret token

end Codec

theorem validate_operator_key_eq_ok {secret key : List UInt8}
    (h : validate_operator_key secret = .ok key) : key = secret := by
  unfold validate_operator_key at h
  split at h
  · cases h
  · split at h
    · cases h
    · cases h
      rfl

section Text

@[simp] theorem characters_scalars (cs : List Char) : characters (scalars cs) = some cs := by
  induction cs with
  | nil => rfl
  | cons c cs ih =>
    change (characters (scalars cs)).map (c :: ·) = _
    rw [ih]
    rfl

@[simp] theorem encode_utf8_scalars (cs : List Char) :
    encode_utf8 (scalars cs) = .ok (utf8.encode cs) := by
  rw [encode_utf8, characters_scalars]

@[simp] theorem decode_utf8_encode (cs : List Char) :
    decode_utf8 (utf8.encode cs) = .ok (scalars cs) := by
  have hbytes : (utf8.encode cs).toByteArray = cs.utf8Encode := rfl
  rw [decode_utf8, hbytes, List.utf8Decode?_utf8Encode]

/-- The text of a signed body is ASCII and has no separator in it. -/
theorem b64_plain (data : List UInt8) :
    isAscii (scalars (_b64 data)) = true ∧ '.' ∉ _b64 data := by
  have hdigits := (base64.unpad_encode data).1
  constructor
  · rw [isAscii, scalars, List.all_map, List.all_eq_true]
    intro c hc
    obtain ⟨n, rfl⟩ := hdigits c hc
    have hall : base64.alphabet.all (fun c => CodePoint.isAscii (.scalar c)) = true := by decide
    exact List.all_eq_true.mp hall _ (base64.digit_mem n)
  · intro hmem
    obtain ⟨n, hn⟩ := hdigits '.' hmem
    have hdot := base64.digit_mem n
    rw [← hn] at hdot
    revert hdot
    decide

@[simp] theorem unb64_b64 (data : List UInt8) : _unb64 (scalars (_b64 data)) = .ok data := by
  rw [_unb64, if_pos (b64_plain data).1, characters_scalars, Option.bind_some, _b64,
    base64.decode_pad_unpad]

theorem split_token_scalars {body sig : List Char} (h : '.' ∉ body) :
    split_token (scalars (body ++ '.' :: sig)) = some (scalars body, scalars sig) := by
  have hbody : ∀ x ∈ scalars body, decide (x ≠ separator) = true := by
    intro x hx
    obtain ⟨c, hc, rfl⟩ := List.mem_map.mp hx
    have hne : c ≠ '.' := fun heq => h (heq ▸ hc)
    simpa [separator] using hne
  have hsplit : scalars (body ++ '.' :: sig) = scalars body ++ separator :: scalars sig := by
    simp [scalars, separator]
  rw [split_token, hsplit, List.dropWhile_append_of_pos hbody, List.takeWhile_append_of_pos hbody,
    List.dropWhile_cons_of_neg (by simp), List.takeWhile_cons_of_neg (by simp), List.append_nil]

end Text

section Verification

variable {J : Type} [Json J] {secret : List UInt8}

theorem body_text_b64 (cs : List Char) : body_text (scalars (_b64 (utf8.encode cs))) =
    .ok (scalars cs) := by
  simp only [body_text, unb64_b64, bind, Except.bind, decode_utf8_encode]

theorem canonical_json_bytes_scalars {value : J} {cs : List Char}
    (h : Json.dumps value = .ok (scalars cs)) : canonical_json_bytes value = .ok (utf8.encode cs) := by
  simp only [canonical_json_bytes, h, bind, Except.bind, encode_utf8_scalars]

/-- What is signed with a valid key comes to be read. -/
theorem decode_signed (hkey : validate_operator_key secret = .ok secret) (cs : List Char) :
    (decode_and_verify_capability (signed_token J secret (utf8.encode cs)) secret : Except Err J) =
      decode_claims (scalars (_b64 (utf8.encode cs))) := by
  have hequal : compare_digest
      (scalars (hexdigest J secret (utf8.encode (_b64 (utf8.encode cs)))))
      (scalars (hexdigest J secret (utf8.encode (_b64 (utf8.encode cs))))) = .ok true := by
    rw [compare_digest, Json.hexdigest_ascii]
    simp
  simp only [decode_and_verify_capability, bind, Except.bind, hkey, signed_token,
    split_token_scalars (b64_plain _).2, encode_utf8_scalars, hequal]
  rw [if_pos trivial]

theorem decode_signed_ok {value : J} {cs : List Char}
    (hkey : validate_operator_key secret = .ok secret) (hdict : isDict value = true)
    (hloads : Json.loads (scalars cs) = .ok value) :
    decode_and_verify_capability (signed_token J secret (utf8.encode cs)) secret = .ok value := by
  rw [decode_signed hkey, decode_claims, load_body, body_text_b64]
  simp only [bind, Except.bind, hloads, hdict, if_true]

/-- What is signed with a valid key is verified and read back exactly if it is within the
limits. -/
theorem decode_sign_iff {value : J} (hkey : validate_operator_key secret = .ok secret)
    (hdict : isDict value = true) (hwell : wellFormed value = true) :
    (do
      let token ← sign_capability value secret
      decode_and_verify_capability token secret) = .ok value ↔ bounded value = true := by
  constructor
  · intro h
    by_contra hbounded
    rw [Bool.not_eq_true] at hbounded
    obtain ⟨token, hsign, hdecode⟩ := recovery.bind_eq_ok.mp h
    obtain ⟨key, hkey', hsign⟩ := recovery.bind_eq_ok.mp hsign
    obtain ⟨data, hdata, hsign⟩ := recovery.bind_eq_ok.mp hsign
    obtain ⟨text, hdumps, hencode⟩ := recovery.bind_eq_ok.mp hdata
    obtain ⟨⟨cs, rfl⟩, e, hloads⟩ := Json.loads_unbounded value hdict hwell hbounded text hdumps
    rw [hkey] at hkey'
    cases hkey'
    rw [encode_utf8_scalars] at hencode
    cases hencode
    cases hsign
    rw [decode_signed hkey, decode_claims, load_body, body_text_b64] at hdecode
    simp only [bind, Except.bind, hloads] at hdecode
    cases hdecode
  · intro hbounded
    obtain ⟨cs, hdumps, hloads⟩ := Json.loads_dumps value hdict hwell hbounded
    simp only [sign_capability, hkey, canonical_json_bytes_scalars hdumps, bind, Except.bind,
      pure, Except.pure]
    exact decode_signed_ok hkey hdict hloads

theorem body_text_error {body : PyStr} {e : Err} (h : body_text body = .error e) :
    isValueError e = true := by
  rcases recovery.bind_eq_error.mp h with hdata | ⟨data, -, htext⟩
  · unfold _unb64 at hdata
    split at hdata
    · split at hdata
      · cases hdata
      · cases hdata
        rfl
    · cases hdata
      rfl
  · unfold decode_utf8 at htext
    split at htext <;> cases htext
    rfl

/-- What a signed body comes to, unless it is nested too deeply. -/
theorem decode_claims_cases {body : PyStr} (h : deep_body J body = false) :
    (∃ value : J, decode_claims body = .ok value ∧ isDict value = true) ∨
      ∃ message, (decode_claims body : Except Err J) = .error (.PermissionError message) := by
  unfold decode_claims
  cases hload : (load_body body : Except Err J) with
  | ok value =>
    by_cases hdict : isDict value = true
    · exact .inl ⟨value, if_pos hdict, hdict⟩
    · exact .inr ⟨_, if_neg hdict⟩
  | error e =>
    have hcaught : isValueError e = true := by
      rcases recovery.bind_eq_error.mp hload with htext | ⟨text, htext, hloads⟩
      · exact body_text_error htext
      · rcases Json.loads_error text e hloads with rfl | ⟨message, rfl⟩ | ⟨-, hdeep⟩
        · rfl
        · rfl
        · rw [deep_body, htext] at h
          exact absurd h (by simp [hdeep])
    dsimp only
    rw [if_pos hcaught]
    exact .inr ⟨_, rfl⟩

theorem decode_claims_deep {body : PyStr} (h : deep_body J body = true) :
    (decode_claims body : Except Err J) = .error .RecursionError := by
  cases htext : body_text body with
  | error e =>
    rw [deep_body, htext] at h
    cases h
  | ok text =>
    rw [deep_body, htext] at h
    have hload : (load_body body : Except Err J) = .error .RecursionError := by
      rw [load_body, htext]
      exact Json.loads_deep text h
    rw [decode_claims, hload]
    rfl

/-- Verification step by step, for a key that is valid. -/
theorem decode_split (hkey : validate_operator_key secret = .ok secret) (token : PyStr) :
    (decode_and_verify_capability token secret : Except Err J) = match split_token token with
      | none => .error (.PermissionError "malformed capability token")
      | some (body, sig) =>
        match characters body with
        | none => .error .UnicodeEncodeError
        | some cs =>
          if isAscii sig then
            if scalars (hexdigest J secret (utf8.encode cs)) = sig then decode_claims body
            else .error (.PermissionError "invalid capability signature")
          else .error (.TypeError "comparing strings with non-ASCII characters is not supported") := by
  simp only [decode_and_verify_capability, bind, Except.bind, hkey]
  cases hsplit : split_token token with
  | none => rfl
  | some parts =>
    obtain ⟨body, sig⟩ := parts
    cases hbody : characters body with
    | none => simp only [encode_utf8, hbody]
    | some cs =>
      simp only [encode_utf8, hbody, compare_digest, Json.hexdigest_ascii, Bool.true_and]
      by_cases hsig : isAscii sig = true
      · simp only [if_pos hsig, beq_iff_eq]
        rfl
      · simp only [if_neg hsig]

/-- Verification answers as it should, or with an error that is no `PermissionError`. -/
theorem decode_cases (hkey : validate_operator_key secret = .ok secret) (token : PyStr) :
    if decodable J secret token = true then Answers J secret token
    else ∃ e, (decode_and_verify_capability token secret : Except Err J) = .error e ∧
      ∀ message, e ≠ .PermissionError message := by
  unfold Answers decodable comparable overdeep
  rw [decode_split hkey]
  cases hsplit : split_token token with
  | none => simp
  | some parts =>
    obtain ⟨body, sig⟩ := parts
    cases hbody : characters body with
    | none => simp [hbody]
    | some cs =>
      by_cases hsig : isAscii sig = true
      · by_cases hequal : scalars (hexdigest J secret (utf8.encode cs)) = sig
        · simp only [hbody, Option.isSome_some, hsig, Bool.and_true, Bool.true_and, hequal,
            BEq.rfl, if_true, Bool.not_eq_true']
          cases hdeep : deep_body J body with
          | true =>
            rw [if_neg (by simp), decode_claims_deep hdeep]
            exact ⟨_, rfl, fun message hmessage => by cases hmessage⟩
          | false =>
            rw [if_pos rfl]
            rcases decode_claims_cases hdeep with ⟨value, hvalue, hdict⟩ | ⟨message, hmessage⟩
            · exact .inl ⟨value, hvalue, hdict, body, sig, utf8.encode cs, hsplit,
                by rw [encode_utf8, hbody], hequal.symm⟩
            · exact .inr ⟨message, hmessage⟩
        · have hdiffers : (scalars (hexdigest J secret (utf8.encode cs)) == sig) = false := by
            simpa using hequal
          simp [hbody, hsig, hequal, hdiffers]
      · simp [hbody, hsig]

theorem decode_answers_iff (hkey : validate_operator_key secret = .ok secret) (token : PyStr) :
    Answers J secret token ↔ decodable J secret token = true := by
  have hcases := decode_cases (J := J) hkey token
  split at hcases
  · rename_i hdecodable
    exact ⟨fun _ => hdecodable, fun _ => hcases⟩
  · rename_i hdecodable
    obtain ⟨e, he, hother⟩ := hcases
    refine ⟨fun h => ?_, fun h => absurd h hdecodable⟩
    rcases h with ⟨value, hvalue, -⟩ | ⟨message, hmessage⟩
    · rw [he] at hvalue
      cases hvalue
    · rw [he] at hmessage
      exact absurd (Except.error.inj hmessage) (hother message)

/-- A token that is not decodable makes verification itself fail. -/
theorem decode_undecodable (hkey : validate_operator_key secret = .ok secret) {token : PyStr}
    (h : decodable J secret token = false) : ∃ e, (decode_and_verify_capability token secret :
      Except Err J) = .error e ∧ ∀ message, e ≠ .PermissionError message := by
  have hcases := decode_cases (J := J) hkey token
  rwa [h, if_neg Bool.false_ne_true] at hcases

end Verification

end jvc.authority
