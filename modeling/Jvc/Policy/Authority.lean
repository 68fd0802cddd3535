import Jvc.Policy.Boundaries
import Jvc.Recovery.Store
import Jvc.Policy.Capability

open program jvc.policy

namespace jvc.authority

/-- The files of the confirmation store: the bytes of a digest, and records as
they are read and written. A proposal that was written is read back. -/
class Records (Bytes : Type) (J : outParam Type) [Json J] where
  empty : Bytes
  contents : List UInt8 → Bytes
  /-- `json.loads(path.read_text(encoding="utf-8"))` on the bytes of the file -/
  read : Bytes → Except Err J
  /-- `json.dumps(record, sort_keys=True, indent=2)`, as the bytes of a file -/
  proposal : J → Bytes
  /-- `json.dumps(record)`, as the bytes of a file -/
  consumed : J → Bytes
  read_proposal : ∀ fields, read (proposal (Json.obj fields)) = .ok (Json.obj fields)

section Paths

/-- `confirmation_store / "pending" / f"{confirmation_id}.json"`, where an id with
slashes in it leads to wherever it resolves. -/
def proposal_path (confirmation_store : Path) (confirmation_id : String) : Path :=
  let name := confirmation_id ++ ".json"
  if confirmation_id.toList.contains '/' then
    ofParts (resolveParts (components (if confirmation_id.toList.head? = some '/' then name.toList
      else (confirmation_store ++ "/pending/" ++ name).toList)))
  else confirmation_store ++ "/pending/" ++ name

def consumed_path (confirmation_store : Path) (nonce_hash : String) : Path :=
  confirmation_store ++ "/consumed/" ++ nonce_hash ++ ".json"

end Paths

section Requests

variable {Bytes J : Type} [Text] [Host Bytes] [Json J] [Records Bytes J]

/-- `int(time.time())` -/
def time : Jvc Bytes Int := do
  let ns ← time_ns
  pure (ns / 1000000000)

def hexDigits : List Char := "0123456789abcdef".toList

/-- `data.hex()` -/
def hex (data : List UInt8) : List Char :=
  data.flatMap fun b => [hexDigits.getD (b.toNat / 16) '0', hexDigits.getD (b.toNat % 16) '0']

/-- `sha256_bytes(canonical_json_bytes(payload))` -/
def payload_sha256 (payload : J) : Jvc Bytes String := do
  let data ← Prog.ofExcept (canonical_json_bytes payload)
  pure (sha256_bytes (Records.contents data : Bytes))

/-- A pending proposal for operator review. -/
structure Proposal where
  confirmation_id : String
  project_id : String
  operation : String
  target : String
  payload_sha256 : String
  expected_preimage_sha256 : String
  nonce : String
  created_at : Int
  expires_at : Int
  confirmation_class : String
  reason : String

def Proposal.record (p : Proposal) : J := Json.obj
  [("confirmation_id", .str p.confirmation_id), ("project_id", .str p.project_id),
    ("operation", .str p.operation), ("target", .str p.target),
    ("payload_sha256", .str p.payload_sha256),
    ("expected_preimage_sha256", .str p.expected_preimage_sha256), ("nonce", .str p.nonce),
    ("created_at", .int p.created_at), ("expires_at", .int p.expires_at),
    ("confirmation_class", .str p.confirmation_class), ("reason", .str p.reason)]

/-- The reply to a caller whose operation waits for confirmation. -/
structure ConfirmationRequest (J : Type) where
  status : String := "REQUIRES_CONFIRMATION"
  op_class : String := "MUTATION_GATED"
  confirmation_id : String
  project_id : String
  operation : String
  target : String
  confirmation_class : String
  reason : String
  proposed_payload : J
  expires_at : Int

/-- Create a pending confirmation proposal record for operator review. -/
def create_confirmation_request (confirmation_store : Path) (project_id operation target : String)
    (payload : J) (expected_preimage_sha256 : Option String) (confirmation_class reason : String)
    (ttl_seconds : Int) : Jvc Bytes (ConfirmationRequest J) := do
  let id_bytes ← token_bytes 12
  let cid := "conf_" ++ String.ofList (hex id_bytes)
  let now ← time
  let payload_hash ← payload_sha256 payload
  let nonce_bytes ← token_bytes 24
  let proposal : Proposal := {
    confirmation_id := cid
    project_id := project_id
    operation := operation
    target := target
    payload_sha256 := payload_hash
    expected_preimage_sha256 := Text.upper (expected_preimage_sha256.getD "")
    nonce := String.ofList (_b64 nonce_bytes)
    created_at := now
    expires_at := now + ttl_seconds
    confirmation_class := confirmation_class
    reason := reason }
  durable_write_bytes (proposal_path confirmation_store cid) (Records.proposal (proposal.record : J))
  pure {
    confirmation_id := cid
    project_id := project_id
    operation := operation
    target := target
    confirmation_class := confirmation_class
    reason := reason
    proposed_payload := payload
    expires_at := now + ttl_seconds }

end Requests

/-- What a caller presents besides its token: the operation it wants to perform. -/
structure Request (J : Type) where
  confirmation_store : Path
  confirmation_id : String
  project_id : String
  operation : String
  target : String
  payload : J
  preimage : Option String

section Consumption

variable {Bytes J : Type} [Text] [Host Bytes] [Json J] [Records Bytes J]

/-- The proposal with this id, where it can be read. -/
def load_proposal (path : Path) : Jvc Bytes (Option J) := do
  if ← is_file path then
    attempt (do
      let data ← read_bytes path
      Prog.ofExcept (Records.read data)) fun e => e.isOSError || e.isJSONDecodeError
  else pure none

/-- `value.get(key)` -/
def get (value : J) (key : String) : J := (Json.find value key).getD Json.null

/-- The fields that the claims and the proposal have to agree on with the request. -/
def expected_claims (request : Request J) (payload_hash : String) (proposal : J) :
    List (String × J) :=
  [("confirmation_id", Json.atom (.str request.confirmation_id)),
    ("project_id", Json.atom (.str request.project_id)),
    ("operation", Json.atom (.str request.operation)),
    ("target", Json.atom (.str request.target)),
    ("payload_sha256", Json.atom (.str payload_hash)),
    ("expected_preimage_sha256", Json.atom (.str (Text.upper (request.preimage.getD "")))),
    ("nonce", get proposal "nonce"),
    ("expires_at", get proposal "expires_at")]

/-- A field of the claims or of the proposal is not what is expected. -/
def mismatched (request : Request J) (payload_hash : String) (proposal claims : J) : Bool :=
  (expected_claims request payload_hash proposal).any fun field =>
    !Json.equal (get claims field.1) field.2 || !Json.equal (get proposal field.1) field.2

/-- `int(claims.get("expires_at", 0))` -/
def expiry (claims : J) : Except Err Int :=
  Json.toInt ((Json.find claims "expires_at").getD (Json.atom (.int 0)))

/-- `str(claims.get("nonce", ""))` -/
def nonce_text (claims : J) : PyStr :=
  Json.text ((Json.find claims "nonce").getD (Json.atom (.str "")))

/-- The digest of the nonce of claims that match, in time. -/
def check_claims (request : Request J) (proposal claims : J) : Jvc Bytes (Option String) := do
  let payload_hash ← payload_sha256 request.payload
  raiseIf (!isDict proposal)
    (.AttributeError s!"'{Json.typeName proposal}' object has no attribute 'get'")
  if mismatched request payload_hash proposal claims then pure none
  else
    let expires_at ← Prog.ofExcept (expiry claims)
    let now ← time
    if expires_at < now then pure none
    else if nonce_text claims = [] then pure none
    else
      let data ← Prog.ofExcept (encode_utf8 (nonce_text claims))
      pure (some (sha256_bytes (Records.contents data : Bytes)))

/-- The digest of the nonce of a token that authorizes the request. -/
def verified_nonce (request : Request J) (token : PyStr) (secret : List UInt8) :
    Jvc Bytes (Option String) :=
  if request.confirmation_id = "" || token = [] then pure none
  else match validate_operator_key secret with
    | .error _ => pure none
    | .ok secret => do
      match ← load_proposal (proposal_path request.confirmation_store request.confirmation_id) with
      | none => pure none
      | some proposal =>
        match decode_and_verify_capability token secret with
        | .error (.PermissionError _) => pure none
        | .error e => throw e
        | .ok claims => check_claims request proposal claims

/-- Record the nonce as consumed, in a file that did not exist. A file that cannot
be stored is closed; where it was the sync that failed, it is removed as well. -/
def record_consumed (path : Path) (confirmation_id : String) : Jvc Bytes Bool := do
  if ← create path Records.empty then
    let consumed_at ← time
    let record : Bytes := Records.consumed
      (Json.obj [("confirmation_id", .str confirmation_id), ("consumed_at", .int consumed_at)] : J)
    if ← persist .write path none then
      if ← persist .flush path (some record) then
        if ← persist .fsync path none then
          persist .close path none
        else
          let _ ← persist .close path none
          let _ ← discard path
          pure false
      else
        -- Closing flushes once more.
        let _ ← persist .close path (some record)
        pure false
    else
      let _ ← persist .close path none
      pure false
  else pure false

/-- Validate, verify, and durably consume an operator capability token. -/
def validate_and_consume_capability (request : Request J) (token : PyStr) (secret : List UInt8) :
    Jvc Bytes Bool := do
  match ← verified_nonce request token secret with
  | none => pure false
  | some nonce_hash =>
    let stored ← record_consumed (J := J) (consumed_path request.confirmation_store nonce_hash)
      request.confirmation_id
    if stored then
      let _ ← discard (proposal_path request.confirmation_store request.confirmation_id)
      pure true
    else pure false

end Consumption

section Checks

variable {Bytes J : Type} [Text] [Host Bytes] [Json J] [Records Bytes J]

/-- A proposal as it is filed: an object with an expiry and a nonce. -/
def Sound (proposal : J) : Prop :=
  isDict proposal = true ∧
    (∃ n, Json.find proposal "expires_at" = some (Json.atom (.int n))) ∧
      ∃ s, Json.find proposal "nonce" = some (Json.atom (.str s))

/-- A file that holds a proposal as it is filed, or no JSON document. -/
def Orderly (data : Bytes) : Prop :=
  match Records.read data with
  | .ok proposal => Sound proposal
  | .error e => e.isJSONDecodeError = true

/-- The proposal that stands at a path, as far as it can be read. -/
def proposal_at (w : World Bytes) (path : Path) : Except Err (Option J) :=
  match w.lookup path with
  | none => .ok none
  | some data =>
    match Records.read data with
    | .ok proposal => .ok (some proposal)
    | .error e => if e.isOSError || e.isJSONDecodeError then .ok none else .error e

omit [Text] [Host Bytes] [Json J] [Records Bytes J] in
theorem read_bytes_run {path : Path} {w : World Bytes} {data : Bytes} (i : Pid)
    (h : w.lookup path = some data) :
    (read_bytes path).run (machine Bytes) i w = (.ok data, w) := by
  have hstep : (machine Bytes).step i (.read_bytes path) w = (some data, w) := by
    change (w.lookup path, w) = _
    rw [h]
  rw [read_bytes, Prog.run_act, hstep]
  rfl

omit [Text] [Host Bytes] in
theorem load_proposal_run (i : Pid) (path : Path) (w : World Bytes) :
    (load_proposal path : Jvc Bytes (Option J)).run (machine Bytes) i w =
      (proposal_at w path, w) := by
  have hfile : (is_file path).run (machine Bytes) i w = (.ok (w.lookup path).isSome, w) := rfl
  rw [load_proposal, Prog.run_seq _ _ hfile, proposal_at]
  cases hdata : w.lookup path with
  | none => rfl
  | some data =>
    rw [Option.isSome_some, if_pos rfl, attempt, Prog.tryCatch_eq, map_eq_pure_bind, bind_assoc]
    dsimp only
    cases hvalue : (Records.read data : Except Err J) with
    | ok proposal =>
      refine Prog.run_handle_ok _ _ ?_
      rw [Prog.run_seq _ _ (read_bytes_run i hdata), hvalue]
      rfl
    | error e =>
      have hbody : (do
          let data ← read_bytes path
          let value ← Prog.ofExcept (Records.read data : Except Err J)
          pure (some value) : Jvc Bytes (Option J)).run (machine Bytes) i w = (.error e, w) := by
        rw [Prog.run_seq _ _ (read_bytes_run i hdata), hvalue]
        rfl
      rw [Prog.run_handle_error _ _ hbody]
      dsimp only
      split <;> rfl

/-- `int(time.time())` at this point -/
def now (w : World Bytes) : Int := w.clock w.ticks / 1000000000

def tick (w : World Bytes) : World Bytes := { w with ticks := w.ticks + 1 }

omit [Text] [Host Bytes] [Json J] [Records Bytes J] in
theorem time_run (i : Pid) (w : World Bytes) :
    (time : Jvc Bytes Int).run (machine Bytes) i w = (.ok (now w), tick w) := rfl

theorem payload_sha256_run {payload : J} {data : List UInt8}
    (h : canonical_json_bytes payload = .ok data) (i : Pid) (w : World Bytes) :
    (payload_sha256 payload : Jvc Bytes String).run (machine Bytes) i w =
      (.ok (sha256_bytes (Records.contents data : Bytes)), w) := by
  rw [payload_sha256, h]
  rfl

variable {request : Request J} {proposal claims : J} {w : World Bytes} {i : Pid}

omit [Host Bytes] [Records Bytes J] in
theorem equal_of_matched {hash : String} (h : mismatched request hash proposal claims = false)
    (field : String × J) (hfield : field ∈ expected_claims request hash proposal) :
    Json.equal (get claims field.1) field.2 = true := by
  have hnot := List.any_eq_false.mp h field hfield
  simp only [Bool.or_eq_true, Bool.not_eq_true', not_or, Bool.not_eq_false] at hnot
  exact hnot.1

omit [Host Bytes] [Records Bytes J] in
/-- Where the claims match a sound proposal, their expiry is a number. -/
theorem expiry_of_matched {hash : String} (hsound : Sound proposal)
    (h : mismatched request hash proposal claims = false) : ∃ n, expiry claims = .ok n := by
  obtain ⟨-, ⟨n, hn⟩, -⟩ := hsound
  have hequal : Json.equal (get claims "expires_at") (Json.atom (.int n)) = true := by
    have hfield := equal_of_matched h ("expires_at", get proposal "expires_at")
      (by simp [expected_claims])
    rwa [get, get, hn, Option.getD_some] at hfield
  cases hfind : Json.find claims "expires_at" with
  | none => exact ⟨0, by rw [expiry, hfind, Option.getD_none, Json.toInt_atom]⟩
  | some v =>
    rw [get, hfind, Option.getD_some] at hequal
    exact ⟨n, by rw [expiry, hfind, Option.getD_some, Json.toInt_equal v n hequal]⟩

omit [Host Bytes] [Records Bytes J] in
/-- Where the claims match a sound proposal, their nonce is well-formed text. -/
theorem nonce_of_matched {hash : String} (hsound : Sound proposal)
    (h : mismatched request hash proposal claims = false) :
    ∃ data, encode_utf8 (nonce_text claims) = .ok data := by
  obtain ⟨-, -, s, hs⟩ := hsound
  have hequal : Json.equal (get claims "nonce") (Json.atom (.str s)) = true := by
    have hfield := equal_of_matched h ("nonce", get proposal "nonce") (by simp [expected_claims])
    rwa [get, get, hs, Option.getD_some] at hfield
  cases hfind : Json.find claims "nonce" with
  | none =>
    rw [nonce_text, hfind, Option.getD_none, Json.text_str, encode_utf8_scalars]
    exact ⟨_, rfl⟩
  | some v =>
    rw [get, hfind, Option.getD_some] at hequal
    rw [nonce_text, hfind, Option.getD_some, Json.equal_str v s hequal, Json.text_str,
      encode_utf8_scalars]
    exact ⟨_, rfl⟩

/-- The checks on the claims answer, whatever the claims are. -/
theorem check_claims_returns {data : List UInt8} (hsound : Sound proposal)
    (hpayload : canonical_json_bytes request.payload = .ok data) :
    (check_claims request proposal claims : Jvc Bytes (Option String)).Returns (machine Bytes) i w := by
  have hdict : isDict proposal = true := hsound.1
  refine Prog.returns_seq _ _ ⟨_, _, payload_sha256_run hpayload i w⟩ fun hash v hrun => ?_
  rw [hdict]
  refine Prog.returns_seq _ _ ⟨(), v, rfl⟩ fun _ v' _ => ?_
  split
  · exact Prog.returns_ret _ _ _ _
  · rename_i hmatched
    have hmatch : mismatched request hash proposal claims = false := Bool.eq_false_iff.mpr hmatched
    obtain ⟨n, hn⟩ := expiry_of_matched hsound hmatch
    obtain ⟨nonce, hnonce⟩ := nonce_of_matched hsound hmatch
    rw [hn]
    refine Prog.returns_seq _ _ ⟨n, v', rfl⟩ fun n' v₁ _ => ?_
    refine Prog.returns_seq _ _ ⟨_, _, time_run i v₁⟩ fun t v₂ _ => ?_
    split
    · exact Prog.returns_ret _ _ _ _
    · split
      · exact Prog.returns_ret _ _ _ _
      · rw [hnonce]
        exact Prog.returns_ret _ _ _ _

omit [Text] [Host Bytes] in
theorem proposal_at_orderly {path : Path}
    (h : ∀ data, w.lookup path = some data → Orderly data) :
    (proposal_at w path : Except Err (Option J)) = .ok none ∨
      ∃ proposal : J, proposal_at w path = .ok (some proposal) ∧ Sound proposal := by
  unfold proposal_at
  cases hdata : w.lookup path with
  | none => exact .inl rfl
  | some data =>
    have horderly := h data hdata
    unfold Orderly at horderly
    cases hvalue : (Records.read data : Except Err J) with
    | ok proposal =>
      rw [hvalue] at horderly
      exact .inr ⟨proposal, by simp only [hvalue], horderly⟩
    | error e =>
      rw [hvalue] at horderly
      have hcaught : (e.isOSError || e.isJSONDecodeError) = true := by
        rw [show e.isJSONDecodeError = true from horderly, Bool.or_true]
      exact .inl (by simp only [hvalue, if_pos hcaught])

/-- The proposal of the request, if there is one, is orderly, and the payload is
well-formed text. -/
structure Request.Proper (request : Request J) (w : World Bytes) : Prop where
  orderly : ∀ data, w.lookup (proposal_path request.confirmation_store request.confirmation_id) =
    some data → Orderly data
  payload : ∃ data, canonical_json_bytes request.payload = .ok data

theorem verified_nonce_returns {token : PyStr} {secret : List UInt8} (hproper : request.Proper w)
    (htoken : decodable J secret token = true) :
    (verified_nonce request token secret : Jvc Bytes (Option String)).Returns (machine Bytes) i w := by
  unfold verified_nonce
  split
  · exact Prog.returns_ret _ _ _ _
  cases hkey : validate_operator_key secret with
  | error e => exact Prog.returns_ret _ _ _ _
  | ok key =>
    have hvalid := validate_operator_key_eq_ok hkey
    subst hvalid
    obtain ⟨data, hdata⟩ := hproper.payload
    have hload := load_proposal_run (J := J) i
      (proposal_path request.confirmation_store request.confirmation_id) w
    rcases proposal_at_orderly hproper.orderly with hnone | ⟨proposal, hproposal, hsound⟩
    · rw [hnone] at hload
      dsimp only
      rw [Prog.Returns, Prog.run_seq _ _ hload]
      exact Prog.returns_ret _ _ _ _
    · rw [hproposal] at hload
      dsimp only
      rw [Prog.Returns, Prog.run_seq _ _ hload]
      dsimp only
      rcases (decode_answers_iff (J := J) hkey token).mpr htoken with ⟨claims, hclaims, -⟩ | ⟨message, hrefused⟩
      · rw [hclaims]
        exact check_claims_returns hsound hdata
      · rw [hrefused]
        exact Prog.returns_ret _ _ _ _

omit [Text] [Host Bytes] in
/-- Storing a record answers, whichever of its steps fails. -/
theorem record_consumed_returns (path : Path) (confirmation_id : String) :
    (record_consumed (J := J) path confirmation_id : Jvc Bytes Bool).Returns (machine Bytes) i w := by
  refine Prog.returns_seq _ _ ⟨_, _, rfl⟩ fun created w₁ _ => ?_
  cases created with
  | false => exact Prog.returns_ret _ _ _ _
  | true =>
    refine Prog.returns_seq _ _ ⟨_, _, time_run i w₁⟩ fun _ w₂ _ => ?_
    refine Prog.returns_seq _ _ ⟨_, _, rfl⟩ fun written w₃ _ => ?_
    cases written with
    | false => exact ⟨_, _, rfl⟩
    | true =>
      refine Prog.returns_seq _ _ ⟨_, _, rfl⟩ fun flushed w₄ _ => ?_
      cases flushed with
      | false => exact ⟨_, _, rfl⟩
      | true =>
        refine Prog.returns_seq _ _ ⟨_, _, rfl⟩ fun synced w₅ _ => ?_
        cases synced <;> exact ⟨_, _, rfl⟩

theorem validate_and_consume_returns {token : PyStr} {secret : List UInt8}
    (hproper : request.Proper w) (htoken : decodable J secret token = true) :
    (validate_and_consume_capability request token secret : Jvc Bytes Bool).Returns
      (machine Bytes) i w := by
  refine Prog.returns_seq _ _ (verified_nonce_returns hproper htoken) fun nonce w₁ _ => ?_
  cases nonce with
  | none => exact Prog.returns_ret _ _ _ _
  | some nonce_hash =>
    refine Prog.returns_seq _ _ (record_consumed_returns _ _) fun stored w₂ _ => ?_
    cases stored <;> exact ⟨_, _, rfl⟩

/-- The request is checked against its token: it names a proposal that can be read,
and the key is valid. -/
structure Request.Opens (request : Request J) (secret : List UInt8) (w : World Bytes) : Prop where
  named : request.confirmation_id ≠ ""
  key : validate_operator_key secret = .ok secret
  stored : ∃ proposal : J, proposal_at w (proposal_path request.confirmation_store
    request.confirmation_id) = .ok (some proposal)

theorem verified_nonce_closed {secret : List UInt8} (hproper : request.Proper w)
    (h : ¬ request.Opens secret w) (token : PyStr) : (verified_nonce request token secret).run (machine Bytes) i w =
      (.ok none, w) := by
  unfold verified_nonce
  split
  · rfl
  rename_i hgiven
  have hnamed : request.confirmation_id ≠ "" := by
    intro hempty
    simp [hempty] at hgiven
  cases hkey : validate_operator_key secret with
  | error e => rfl
  | ok key =>
    have hvalid := validate_operator_key_eq_ok hkey
    subst hvalid
    have hload := load_proposal_run (J := J) i
      (proposal_path request.confirmation_store request.confirmation_id) w
    rcases proposal_at_orderly hproper.orderly with hnone | ⟨proposal, hproposal, -⟩
    · rw [hnone] at hload
      dsimp only
      rw [Prog.run_seq _ _ hload]
      rfl
    · exact absurd ⟨hnamed, hkey, proposal, hproposal⟩ h

theorem verified_nonce_raises {token : PyStr} {secret : List UInt8}
    (h : request.Opens secret w) (htoken : decodable J secret token = false) : ∃ e,
      (verified_nonce request token secret).run (machine Bytes) i w = (.error e, w) ∧
        ∀ message, e ≠ .PermissionError message := by
  obtain ⟨proposal, hproposal⟩ := h.stored
  obtain ⟨e, he, hother⟩ := decode_undecodable (J := J) h.key htoken
  have hgiven : ¬ (decide (request.confirmation_id = "") || decide (token = [])) = true := by
    have hnonempty : token ≠ [] := by
      rintro rfl
      cases htoken
    simp [h.named, hnonempty]
  have hload := load_proposal_run (J := J) i
    (proposal_path request.confirmation_store request.confirmation_id) w
  rw [hproposal] at hload
  refine ⟨e, ?_, hother⟩
  rw [verified_nonce, if_neg hgiven, h.key]
  dsimp only
  rw [Prog.run_seq _ _ hload]
  dsimp only
  rw [he]
  cases e with
  | PermissionError message => exact absurd rfl (hother message)
  | _ => rfl

/-- Consumption answers a proper request unless it comes to verify a token that is
not decodable. -/
theorem validate_and_consume_returns_iff {token : PyStr} {secret : List UInt8}
    (hproper : request.Proper w) :
    (validate_and_consume_capability request token secret : Jvc Bytes Bool).Returns (machine Bytes) i w ↔
      (request.Opens secret w → decodable J secret token = true) := by
  constructor
  · rintro ⟨answer, w', hrun⟩ hopens
    by_contra hnot
    obtain ⟨e, he, -⟩ := verified_nonce_raises (i := i) hopens (Bool.eq_false_iff.mpr hnot)
    rw [validate_and_consume_capability, Prog.run_seq_error _ _ he] at hrun
    cases hrun
  · intro h
    by_cases hopens : request.Opens secret w
    · exact validate_and_consume_returns hproper (h hopens)
    · have hrun := verified_nonce_closed (i := i) hproper hopens token
      exact ⟨false, w, by rw [validate_and_consume_capability, Prog.run_seq _ _ hrun]; rfl⟩

/-- A consumption that raises has come to verify a token that is not decodable. -/
theorem validate_and_consume_error {token : PyStr} {secret : List UInt8} {e : Err} {u : World Bytes}
    (hproper : request.Proper w)
    (h : (validate_and_consume_capability request token secret).run (machine Bytes) i w =
      (.error e, u)) : (∀ message, e ≠ .PermissionError message) ∧ request.Opens secret w ∧
        decodable J secret token = false := by
  have hnot : ¬ (request.Opens secret w → decodable J secret token = true) := by
    intro hdecodable
    obtain ⟨answer, u', hrun⟩ := (validate_and_consume_returns_iff (i := i) hproper).mpr hdecodable
    rw [h] at hrun
    cases hrun
  rw [Classical.not_imp, Bool.not_eq_true] at hnot
  obtain ⟨e', he', hother⟩ := verified_nonce_raises (i := i) hnot.1 hnot.2
  rw [validate_and_consume_capability, Prog.run_seq_error _ _ he'] at h
  cases h
  exact ⟨hother, hnot⟩

end Checks

/-- Values of the samples. -/
inductive SampleJson
  | null
  | atom (a : Atom)
  | obj (fields : List (String × Atom))
  deriving DecidableEq

def Atom.print : Atom → List Char
  | .str s => '"' :: (s.toList ++ ['"'])
  | .int n => (toString n).toList

def SampleJson.print : SampleJson → List Char
  | .null => "null".toList
  | .atom a => a.print
  | .obj fields => '{' :: (List.intercalate [','] (fields.map fun field =>
      (Atom.str field.1).print ++ ':' :: field.2.print) ++ ['}'])

/-- The claims that the samples sign. -/
def sampleClaims : SampleJson := .obj
  [("confirmation_id", .str "conf_1"), ("expected_preimage_sha256", .str ""),
    ("expires_at", .int 300), ("nonce", .str "first"), ("operation", .str "FS_WRITE"),
    ("payload_sha256", .str "0A"), ("project_id", .str "demo"), ("target", .str "a.txt")]

/-- The brackets that open a text, and how many of them are too many. -/
def sampleDeep (text : PyStr) : Bool :=
  1000 ≤ (text.takeWhile (· == .scalar '[')).length

@[reducible] def sampleJson : Json SampleJson where
  isDict
    | .obj _ => true
    | _ => false
  wellFormed value := value == sampleClaims
  bounded _ := true
  deep := sampleDeep
  null := .null
  atom := .atom
  obj := .obj
  find
    | .obj fields, key => (fields.lookup key).map .atom
    | _, _ => none
  equal a b := a == b
  toInt
    | .atom (.int n) => .ok n
    | _ => .error (.TypeError "int() argument must be a string or a real number")
  text
    | .atom (.str s) => scalars s.toList
    | value => scalars value.print
  typeName _ := "list"
  dumps value := .ok (scalars value.print)
  loads text :=
    if sampleDeep text then .error .RecursionError
    else if text = scalars sampleClaims.print then .ok sampleClaims
    else .error .JSONDecodeError
  hexdigest _ data := if data.length % 2 = 0 then "0a".toList else "1a".toList
  loads_dumps value _ hwell _ := by
    have hflat : ¬ sampleDeep (scalars sampleClaims.print) = true := by decide +kernel
    rw [beq_iff_eq.mp hwell]
    exact ⟨sampleClaims.print, rfl, by rw [if_neg hflat, if_pos rfl]⟩
  loads_unbounded _ _ _ h := by cases h
  loads_error text e h := by
    split at h
    · rename_i hdeep
      cases h
      exact .inr (.inr ⟨rfl, hdeep⟩)
    · split at h
      · cases h
      · cases h
        exact .inl rfl
  loads_deep text h := if_pos h
  hexdigest_ascii _ data := by
    split <;> decide
  isDict_obj _ := rfl
  find_obj _ _ := rfl
  dumps_obj fields _ := ⟨_, rfl⟩
  toInt_equal value n h := by
    rw [beq_iff_eq.mp h]
  toInt_atom _ := rfl
  equal_str _ _ h := beq_iff_eq.mp h
  text_str _ := rfl

/-- `b"k" * 32` -/
def sampleKey : List UInt8 := List.replicate 32 107

inductive SampleFile
  | raw (data : List UInt8)
  | record (value : SampleJson)
  | receipt (data : recovery.Dict)

def SampleFile.digest : SampleFile → String
  | .raw data => if data.length % 4 = 0 then "0A" else "1A"
  | _ => "2A"

theorem SampleFile.digest_cases {motive : String → Prop} (file : SampleFile)
    (h : ∀ s ∈ ["0A", "1A", "2A"], motive s) : motive file.digest := by
  cases file with
  | raw data =>
    simp only [SampleFile.digest]
    split
    · exact h _ (by decide)
    · exact h _ (by decide)
  | record value => exact h "2A" (by decide)
  | receipt data => exact h "2A" (by decide)

@[reducible] def sampleFiles : @Host asciiText SampleFile :=
  @Host.mk asciiText SampleFile SampleFile.digest (fun _ => 1)
    (fun
      | .receipt data => .ok (.obj data)
      | _ => .error .JSONDecodeError)
    .receipt "/" (fun _ => rfl)
    (fun file e h => by cases file <;> cases h <;> exact ⟨rfl, rfl⟩)
    (fun file => file.digest_cases (motive := fun s => asciiText.upper s = s) (by decide))
    (fun file => file.digest_cases (motive := fun s => strip s = s) (by decide))
    (fun file => file.digest_cases (motive := fun s => s ≠ "") (by decide))
    (fun file => file.digest_cases (motive := fun s => s ≠ "__ABSENT__") (by decide))
    (fun _ => by decide)

@[reducible] def sampleRecords : @Records SampleFile SampleJson sampleJson :=
  @Records.mk SampleFile SampleJson sampleJson (.raw []) .raw
    (fun
      | .record value => .ok value
      | _ => .error .JSONDecodeError)
    .record .record (fun _ => rfl)

section Samples

attribute [local instance] asciiText sampleFiles sampleJson sampleRecords

end Samples

end jvc.authority
