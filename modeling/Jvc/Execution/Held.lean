import Jvc.Execution.Executor
import Jvc.Lib.Effects
import Jvc.Policy.Consumption

open program jvc.policy jvc.authority

namespace jvc

/-- The operator key of the executor and the confirmation that the caller presents. -/
structure Credentials where
  operator_secret : Option (List UInt8) := none
  confirmation_id : Option String := none
  confirmation_token : Option PyStr := none

namespace Credentials

def secret (self : Credentials) : List UInt8 := self.operator_secret.getD []

def id (self : Credentials) : String := self.confirmation_id.getD ""

def token (self : Credentials) : PyStr := self.confirmation_token.getD []

/-- `self.operator_secret and confirmation_id and confirmation_token` -/
def given (self : Credentials) : Bool := self.secret ≠ [] && self.id ≠ "" && self.token ≠ []

end Credentials

namespace GovernedExecutor

section Authority

variable {Bytes : Type} (J : Type) [Text] [Host Bytes] [Json J] [Records Bytes J]
  (self : GovernedExecutor)

/-- The payload of the proposal and of the authorization check. -/
def write_payload (relative_path : String) (content : Bytes) : J := Json.obj
  [("path", .str relative_path), ("content_sha256", .str (sha256_bytes content)),
    ("bytes", .int (Host.size content))]

/-- What the capability of a governed write is checked against. -/
def write_request (project_id relative_path : String) (content : Bytes)
    (expected_preimage_sha256 : Option String) (confirmation_id : String) : Request J where
  confirmation_store := self.confirmation_store
  confirmation_id := confirmation_id
  project_id := project_id
  operation := "FS_WRITE"
  target := relative_path
  payload := write_payload J relative_path content
  preimage := expected_preimage_sha256

def authorize (project_id relative_path : String) (content : Bytes)
    (expected_preimage_sha256 : Option String) (credentials : Credentials) : Jvc Bytes Bool :=
  if credentials.given then
    validate_and_consume_capability (self.write_request J project_id relative_path content
      expected_preimage_sha256 credentials.id) credentials.token credentials.secret
  else pure false

/-- For a held route, request confirmation. -/
def request_confirmation (project_id relative_path : String) (content : Bytes)
    (expected_preimage_sha256 : Option String) : Jvc Bytes WriteReply := do
  let request ← create_confirmation_request self.confirmation_store project_id "FS_WRITE"
    relative_path (write_payload J relative_path content) expected_preimage_sha256 "HELD_ROUTE_GATE"
    "HELD route mutation requires trusted operator capability" 300
  pure (.REQUIRES_CONFIRMATION request.project_id request.target)

/-- A governed file write with the authority check of the confirmation store. The text is
encoded once the arguments and the project are checked. -/
def fs_write_signed (project_id relative_path : String) (content : PyStr)
    (expected_preimage_sha256 : Option String) (credentials : Credentials) (extra : List String) :
    Jvc Bytes WriteReply :=
  match encode_utf8 content with
  | .ok encoded =>
    let data := Records.contents encoded
    self.fs_write_with
      (self.authorize J project_id relative_path data expected_preimage_sha256 credentials)
      (self.request_confirmation J project_id relative_path data expected_preimage_sha256)
      project_id relative_path data expected_preimage_sha256 extra
  | .error e => do
    raiseIf (extra.contains "permit_held_mutation" || extra.contains "confirm")
      (.PermissionError "caller-controlled authority escalation parameter rejected")
    let _ ← self.resolve_project project_id
    throw e

end Authority

end GovernedExecutor

section Pending

variable {Bytes J : Type} [Text] [Host Bytes] [Json J] [Records Bytes J]

/-- The file stands in the `pending` directory of the store. -/
def Pending (confirmation_store p : Path) : Prop :=
  (confirmation_store ++ "/pending/").toList <+: p.toList

/-- No proposal was filed or rewritten. -/
def Unproposed (confirmation_store : Path) (w u : World Bytes) : Prop :=
  ∀ p data, Pending confirmation_store p → u.lookup p = some data → w.lookup p = some data

/-- The operations that file no proposal. -/
def Op.Unproposing (confirmation_store : Path) : Op Bytes → Prop
  | .is_file _ | .read_bytes _ | .time_ns | .discard _ => True
  | .create p _ | .persist _ p _ => ¬ Pending confirmation_store p
  | _ => False

variable {confirmation_store : Path}

omit [Text] [Host Bytes] in
theorem Unproposed.attempt {w u done : World Bytes} (h : Unproposed confirmation_store w u)
    (hdone : Unproposed confirmation_store w done) (by_step : FileStep) :
    Unproposed confirmation_store w (u.attempt by_step done).2 := by
  unfold World.attempt
  split
  · exact h
  · exact hdone

omit [Text] [Host Bytes] in
theorem Unproposed.write {w u : World Bytes} {p : Path} (h : Unproposed confirmation_store w u)
    (hp : ¬ Pending confirmation_store p) (i : Pid) (data : Bytes) :
    Unproposed confirmation_store w (u.write i p data none) := by
  intro q found hq hfound
  have hne : q ≠ p := fun heq => hp (heq ▸ hq)
  rw [World.lookup_write, if_neg hne] at hfound
  exact h q found hq hfound

omit [Text] [Host Bytes] in
theorem Unproposed.remove {w u : World Bytes} (h : Unproposed confirmation_store w u) (i : Pid)
    (p : Path) : Unproposed confirmation_store w (u.remove i p) := by
  intro q found hq hfound
  rw [World.lookup_remove] at hfound
  split at hfound
  · cases hfound
  · exact h q found hq hfound

omit [Text] [Host Bytes] in
theorem Op.Unproposing.step {w u : World Bytes} (i : Pid) (op : Op Bytes)
    (hop : op.Unproposing confirmation_store) (h : Unproposed confirmation_store w u) :
    Unproposed confirmation_store w ((machine Bytes).step i op u).2 := by
  cases op with
  | is_file p => exact h
  | read_bytes p => exact h
  | time_ns => exact h
  | discard p => exact h.attempt (h.remove i p) .unlink
  | create p data =>
    change Unproposed _ w (if (u.lookup p).isSome then (false, u)
      else u.attempt .create (u.write i p data none)).2
    split
    · exact h
    · exact h.attempt (h.write hop i data) .create
  | persist by_step p data =>
    refine h.attempt ?_ by_step
    cases data with
    | none => exact h
    | some data => exact h.write hop i data
  | _ => cases hop

omit [Text] in
theorem consumed_not_pending (nonce_hash : String) :
    ¬ Pending confirmation_store (consumed_path confirmation_store nonce_hash) := by
  unfold Pending consumed_path
  rw [String.toList_append, String.toList_append, String.toList_append, String.toList_append,
    List.append_assoc, List.append_assoc, List.prefix_append_right_inj]
  rintro ⟨rest, hrest⟩
  cases hrest

omit [Text] [Host Bytes] in
theorem load_proposal_unproposing (path : Path) :
    (load_proposal path : Jvc Bytes (Option J)).Within (Op.Unproposing confirmation_store)
      fun _ => True := by
  refine Prog.Within.seq (.act trivial fun _ => .ret trivial) fun present _ => ?_
  cases present with
  | false => exact .ret trivial
  | true =>
    refine Prog.Within.handle ?_ fun e => ?_
    · refine Prog.Within.bind (Q := fun _ => True) ?_ fun _ _ => .ret trivial
      refine Prog.Within.seq (Q := fun _ => True) (.act trivial fun found => ?_) fun data _ =>
        Prog.Within.ofExcept fun _ _ => trivial
      cases found with
      | none => exact .fail _
      | some data => exact .ret trivial
    · split
      · exact .ret trivial
      · exact .fail e

theorem check_claims_unproposing (request : Request J) (proposal claims : J) :
    (check_claims request proposal claims : Jvc Bytes (Option String)).Within
      (Op.Unproposing confirmation_store) fun _ => True := by
  have htime : (time : Jvc Bytes Int).Within (Op.Unproposing confirmation_store) fun _ => True :=
    .act trivial fun _ => .ret trivial
  refine Prog.Within.seq (Q := fun _ => True) ?_ fun hash _ => ?_
  · exact Prog.Within.seq (Prog.Within.ofExcept fun _ _ => trivial) fun _ _ => .ret trivial
  refine Prog.Within.seq (Q := fun _ => True) ?_ fun _ _ => ?_
  · unfold raiseIf
    split
    · exact .fail _
    · exact .ret trivial
  split
  · exact .ret trivial
  refine Prog.Within.seq (Prog.Within.ofExcept fun _ _ => trivial) fun n _ => ?_
  refine Prog.Within.seq htime fun t _ => ?_
  split
  · exact .ret trivial
  · split
    · exact .ret trivial
    · exact Prog.Within.seq (Prog.Within.ofExcept fun _ _ => trivial) fun _ _ => .ret trivial

theorem verified_nonce_unproposing (request : Request J) (token : PyStr) (secret : List UInt8) :
    (verified_nonce request token secret : Jvc Bytes (Option String)).Within
      (Op.Unproposing confirmation_store) fun _ => True := by
  unfold verified_nonce
  split
  · exact .ret trivial
  split
  · exact .ret trivial
  · refine Prog.Within.seq (load_proposal_unproposing _) fun found _ => ?_
    cases found with
    | none => exact .ret trivial
    | some proposal =>
      dsimp only
      split
      · exact .ret trivial
      · exact .fail _
      · exact check_claims_unproposing _ _ _

omit [Text] [Host Bytes] in
theorem record_consumed_unproposing {path : Path} (hpath : ¬ Pending confirmation_store path)
    (confirmation_id : String) :
    (record_consumed (J := J) path confirmation_id : Jvc Bytes Bool).Within
      (Op.Unproposing confirmation_store) fun _ => True := by
  have htime : (time : Jvc Bytes Int).Within (Op.Unproposing confirmation_store) fun _ => True :=
    .act trivial fun _ => .ret trivial
  have hpersist : ∀ by_step data, (persist by_step path data : Jvc Bytes Bool).Within
      (Op.Unproposing confirmation_store) fun _ => True :=
    fun by_step data => .act hpath fun _ => .ret trivial
  refine Prog.Within.seq (Q := fun _ => True) (.act hpath fun _ => .ret trivial) fun created _ => ?_
  cases created with
  | false => exact .ret trivial
  | true =>
    refine Prog.Within.seq htime fun consumed_at _ => ?_
    refine Prog.Within.seq (hpersist _ _) fun written _ => ?_
    cases written with
    | false => exact Prog.Within.seq (hpersist _ _) fun _ _ => .ret trivial
    | true =>
      refine Prog.Within.seq (hpersist _ _) fun flushed _ => ?_
      cases flushed with
      | false => exact Prog.Within.seq (hpersist _ _) fun _ _ => .ret trivial
      | true =>
        refine Prog.Within.seq (hpersist _ _) fun synced _ => ?_
        cases synced with
        | true => exact hpersist _ _
        | false =>
          refine Prog.Within.seq (hpersist _ _) fun _ _ => ?_
          exact Prog.Within.seq (Q := fun _ => True) (.act trivial fun _ => .ret trivial)
            fun _ _ => .ret trivial

/-- Consumption files no proposal. -/
theorem validate_and_consume_unproposing (request : Request J) (token : PyStr)
    (secret : List UInt8) :
    (validate_and_consume_capability request token secret : Jvc Bytes Bool).Within
      (Op.Unproposing request.confirmation_store) fun _ => True := by
  refine Prog.Within.seq (verified_nonce_unproposing _ _ _) fun nonce _ => ?_
  cases nonce with
  | none => exact .ret trivial
  | some nonce_hash =>
    refine Prog.Within.seq (record_consumed_unproposing (consumed_not_pending _) _) fun stored _ => ?_
    cases stored with
    | false => exact .ret trivial
    | true =>
      exact Prog.Within.seq (Q := fun _ => True) (.act trivial fun _ => .ret trivial)
        fun _ _ => .ret trivial

end Pending

namespace GovernedExecutor

section Gate

variable {Bytes J : Type} [Text] [Host Bytes] [Json J] [Records Bytes J] {self : GovernedExecutor}
  {project_id relative_path c : String} {content : Bytes} {expected : Option String}
  {credentials : Credentials} {extra : List String} {route : Route} {t : Path} {i : Pid}
  {w u : World Bytes}

/-- The call raised a `PermissionError` and filed no proposal. -/
def Refused (self : GovernedExecutor) (w : World Bytes) (r : Except Err WriteReply × World Bytes) :
    Prop :=
  (∃ message, r.1 = .error (.PermissionError message)) ∧ Unproposed self.confirmation_store w r.2

omit [Host Bytes] in
theorem resolve_project_run (hroute : self.registry.get project_id = some route) :
    (self.resolve_project project_id).run (machine Bytes) i w =
      (if route.root ∈ w.dirs then .ok route
        else .error (.ValueError s!"project root directory missing: {route.root}"), w) := by
  have hdir : (is_dir route.root).run (machine Bytes) i w = (.ok (decide (route.root ∈ w.dirs)), w) :=
    rfl
  rw [resolve_project, hroute]
  dsimp only
  rw [Prog.run_seq _ _ hdir]
  by_cases hroot : route.root ∈ w.dirs
  · rw [if_pos hroot, decide_eq_true hroot]
    rfl
  · rw [if_neg hroot, decide_eq_false hroot]
    rfl

omit [Records Bytes J] in
theorem write_payload_encodes (relative_path : String) (content : Bytes) :
    ∃ data, canonical_json_bytes (write_payload J relative_path content) = .ok data := by
  have hsmall : ∀ field ∈ [("path", Atom.str relative_path),
      ("content_sha256", .str (sha256_bytes content)), ("bytes", .int (Host.size content))],
      ∀ n, field.2 = .int n → n.natAbs < 2 ^ 63 := by
    intro field hfield n hn
    simp only [List.mem_cons, List.not_mem_nil, or_false] at hfield
    rcases hfield with rfl | rfl | rfl
    · cases hn
    · cases hn
    · cases hn
      exact Host.size_lt content
  obtain ⟨cs, hcs⟩ := Json.dumps_obj (J := J) _ hsmall
  exact ⟨utf8.encode cs, canonical_json_bytes_scalars hcs⟩

omit [Text] [Host Bytes] in
theorem token_bytes_returns (n : Nat) :
    (token_bytes n : Jvc Bytes (List UInt8)).Returns (machine Bytes) i w := by
  unfold token_bytes
  exact ⟨_, _, rfl⟩

theorem create_confirmation_request_returns {confirmation_store : Path} {operation target : String}
    {payload : J} {preimage : Option String} {confirmation_class reason : String} {ttl : Int}
    {data : List UInt8} (hdata : canonical_json_bytes payload = .ok data) :
    (create_confirmation_request confirmation_store project_id operation target payload preimage
      confirmation_class reason ttl : Jvc Bytes _).Returns (machine Bytes) i w := by
  unfold create_confirmation_request
  refine Prog.returns_seq _ _ (token_bytes_returns 12) fun id_bytes w₁ _ => ?_
  refine Prog.returns_seq _ _ ⟨_, _, time_run i w₁⟩ fun now w₂ _ => ?_
  refine Prog.returns_seq _ _ ⟨_, _, payload_sha256_run hdata i w₂⟩ fun hash w₃ _ => ?_
  refine Prog.returns_seq _ _ (token_bytes_returns 24) fun nonce_bytes w₄ _ => ?_
  unfold durable_write_bytes
  exact ⟨_, _, rfl⟩

theorem request_confirmation_returns :
    (self.request_confirmation J project_id relative_path content expected).Returns
      (machine Bytes) i w := by
  obtain ⟨data, hdata⟩ := write_payload_encodes (J := J) relative_path content
  have hcreate : (create_confirmation_request self.confirmation_store project_id "FS_WRITE"
      relative_path (write_payload J relative_path content) expected "HELD_ROUTE_GATE"
      "HELD route mutation requires trusted operator capability" 300 :
        Jvc Bytes (ConfirmationRequest J)).Returns (machine Bytes) i w :=
    create_confirmation_request_returns hdata
  obtain ⟨request, w₁, hrun⟩ := hcreate
  rw [Prog.Returns, request_confirmation, Prog.run_seq _ _ hrun]
  exact Prog.returns_ret _ _ _ _

theorem authorize_files_nothing {answer : Except Err Bool}
    (h : (self.authorize J project_id relative_path content expected credentials).run
      (machine Bytes) i w = (answer, u)) : Unproposed self.confirmation_store w u := by
  have hwithin : (self.authorize J project_id relative_path content expected credentials).Within
      (Op.Unproposing self.confirmation_store) fun _ => True := by
    unfold authorize
    split
    · exact validate_and_consume_unproposing (self.write_request J project_id relative_path content
        expected credentials.id) credentials.token credentials.secret
    · exact .ret trivial
  have hsame : Unproposed self.confirmation_store w w := fun _ _ _ hfound => hfound
  have hrun := hwithin.run (M := machine Bytes) (i := i)
    (fun op _ hop => Op.Unproposing.step i op hop) hsame
  rwa [h] at hrun

/-- The authority check answers, or the token that is verified is not decodable. -/
theorem authorize_cases (hproper : (self.write_request J project_id relative_path content expected
      credentials.id).Proper w)
    {answer : Except Err Bool} (h : (self.authorize J project_id relative_path content expected
      credentials).run (machine Bytes) i w = (answer, u)) :
    let opens := (self.write_request J project_id relative_path content expected
      credentials.id).Opens credentials.secret w
    (∃ authorized, answer = .ok authorized ∧
        (opens → decodable J credentials.secret credentials.token = true)) ∨
      ∃ e, answer = .error e ∧ (∀ message, e ≠ .PermissionError message) ∧ opens ∧
        decodable J credentials.secret credentials.token = false := by
  intro opens
  unfold authorize at h
  split at h
  · cases answer with
    | ok authorized =>
      exact .inl ⟨authorized, rfl, (validate_and_consume_returns_iff hproper).mp ⟨_, _, h⟩⟩
    | error e => exact .inr ⟨e, rfl, validate_and_consume_error hproper h⟩
  · rename_i hmissing
    obtain ⟨rfl, rfl⟩ := Prod.mk.inj h
    refine .inl ⟨false, rfl, fun hopens => ?_⟩
    have hsecret : credentials.secret ≠ [] := by
      intro hempty
      have hkey := hopens.key
      rw [hempty] at hkey
      cases hkey
    have hnamed : credentials.id ≠ "" := hopens.named
    have htoken : credentials.token = [] := by
      by_contra hne
      exact hmissing (by simp [Credentials.given, hsecret, hnamed, hne])
    rw [htoken]
    rfl

omit [Json J] [Records Bytes J] in
/-- Without privilege, a path of the control plane is refused before anything is done. -/
theorem write_permitted_run (hcanonical : canonical_target route.root relative_path = .ok (t, c))
    (hcontrol : is_control_plane_path c = true) : ∃ message,
      (self.write_permitted route project_id relative_path content expected false).run
        (machine Bytes) i w = (.error (.PermissionError message), w) := by
  have hpermitted := assert_permitted_path_of_canonical hcanonical "FS_WRITE" false
  rw [hcontrol] at hpermitted
  cases hsecret : is_secret_path c with
  | true =>
    rw [hsecret, if_pos rfl] at hpermitted
    rw [write_permitted, hpermitted]
    exact ⟨_, rfl⟩
  | false =>
    rw [hsecret, if_neg Bool.false_ne_true, Bool.not_false, Bool.true_and, if_pos rfl] at hpermitted
    rw [write_permitted, hpermitted]
    exact ⟨_, rfl⟩

omit [Text] [Host Bytes] [Json J] [Records Bytes J] in
theorem raiseIf_false_run (e : Err) :
    (raiseIf false e : Jvc Bytes Unit).run (machine Bytes) i w = (.ok (), w) := rfl

section Stages

variable {authorize : Jvc Bytes Bool} {request : Jvc Bytes WriteReply}
  (hroute : self.registry.get project_id = some route) (hroot : route.root ∈ w.dirs)
  (hextra : (extra.contains "permit_held_mutation" || extra.contains "confirm") = false)

include hroute hroot hextra

omit [Json J] [Records Bytes J] in
/-- A write that needs no authority goes on to its permission checks. -/
theorem fs_write_with_plain (hneed : needs_cap route relative_path = false) :
    (self.fs_write_with authorize request project_id relative_path content expected extra).run
      (machine Bytes) i w = (self.write_permitted route project_id relative_path content expected
        false).run (machine Bytes) i w := by
  have hresolve := resolve_project_run (i := i) (w := w) hroute
  rw [if_pos hroot] at hresolve
  have hpure : (pure false : Jvc Bytes Bool).run (machine Bytes) i w = (.ok false, w) := rfl
  rw [fs_write_with, hextra, Prog.run_seq _ _ (raiseIf_false_run _), Prog.run_seq _ _ hresolve]
  simp only [hneed, Bool.false_eq_true, if_false, Bool.false_and]
  rw [Prog.run_seq _ _ hpure, Prog.run_seq _ _ (raiseIf_false_run _)]

omit [Json J] [Records Bytes J] in
/-- A write that needs authority asks for it first. -/
theorem fs_write_with_gated (hneed : needs_cap route relative_path = true) :
    (self.fs_write_with authorize request project_id relative_path content expected extra).run
      (machine Bytes) i w = (do
        let authorized ← authorize
        raiseIf (!authorized && is_control_plane_path relative_path) (.PermissionError
          s!"REQUIRES_OPERATOR_CONTROL_PLANE_CAPABILITY: control plane target denied: {relative_path}")
        if !authorized then request
        else self.write_permitted route project_id relative_path content expected authorized
          : Jvc Bytes WriteReply).run (machine Bytes) i w := by
  have hresolve := resolve_project_run (i := i) (w := w) hroute
  rw [if_pos hroot] at hresolve
  rw [fs_write_with, hextra, Prog.run_seq _ _ (raiseIf_false_run _), Prog.run_seq _ _ hresolve]
  simp only [hneed, if_true, Bool.true_and]

omit [Json J] [Records Bytes J] in
/-- Without authority, the path as it was given decides between a refusal and a
confirmation request. -/
theorem fs_write_with_unauthorized (hneed : needs_cap route relative_path = true)
    (hauthorize : authorize.run (machine Bytes) i w = (.ok false, u)) :
    (self.fs_write_with authorize request project_id relative_path content expected extra).run
      (machine Bytes) i w =
      if is_control_plane_path relative_path = true then (.error (.PermissionError
        s!"REQUIRES_OPERATOR_CONTROL_PLANE_CAPABILITY: control plane target denied: {relative_path}"), u)
      else request.run (machine Bytes) i u := by
  rw [fs_write_with_gated hroute hroot hextra hneed, Prog.run_seq _ _ hauthorize]
  cases is_control_plane_path relative_path with
  | true =>
    rw [if_pos rfl]
    exact Prog.run_seq_error _ _ rfl
  | false =>
    rw [if_neg Bool.false_ne_true, Bool.not_false, Bool.true_and,
      Prog.run_seq _ _ (raiseIf_false_run _), if_pos rfl]

end Stages

/-- A write that needs a capability and comes without one. -/
theorem refused_gated_iff (hroute : self.registry.get project_id = some route)
    (hroot : route.root ∈ w.dirs)
    (hextra : (extra.contains "permit_held_mutation" || extra.contains "confirm") = false)
    (hneed : needs_cap route relative_path = true)
    (hproper : (self.write_request J project_id relative_path content expected
      credentials.id).Proper w)
    (hdenied : ∀ u, (self.authorize J project_id relative_path content expected credentials).run
      (machine Bytes) i w ≠ (.ok true, u)) :
    self.Refused w ((self.fs_write_with
      (self.authorize J project_id relative_path content expected credentials)
      (self.request_confirmation J project_id relative_path content expected) project_id
      relative_path content expected extra).run (machine Bytes) i w) ↔
        if is_control_plane_path relative_path = true then
          (self.write_request J project_id relative_path content expected credentials.id).Opens
            credentials.secret w → decodable J credentials.secret credentials.token = true
        else route.lifecycle ≠ "held" := by
  rcases hauthorize : (self.authorize J project_id relative_path content expected
    credentials).run (machine Bytes) i w with ⟨answer, u⟩
  have hfiled := authorize_files_nothing hauthorize
  rcases authorize_cases hproper hauthorize with ⟨authorized, rfl, hdecodable⟩ |
    ⟨e, rfl, hother, hopens, hundecodable⟩
  · cases authorized with
    | true => exact absurd hauthorize (hdenied u)
    | false =>
      rw [fs_write_with_unauthorized hroute hroot hextra hneed hauthorize]
      cases hraw : is_control_plane_path relative_path with
      | true =>
        rw [if_pos rfl, if_pos rfl]
        exact ⟨fun _ => hdecodable, fun _ => ⟨⟨_, rfl⟩, hfiled⟩⟩
      | false =>
        have hheld : route.lifecycle = "held" := by
          rw [needs_cap, hraw, Bool.or_false, beq_iff_eq] at hneed
          exact hneed
        have hreturns : (self.request_confirmation J project_id relative_path content
          expected).Returns (machine Bytes) i u := request_confirmation_returns
        obtain ⟨reply, v, hreply⟩ := hreturns
        rw [if_neg Bool.false_ne_true, if_neg Bool.false_ne_true, hreply]
        refine ⟨fun ⟨⟨message, h⟩, _⟩ => ?_, fun h => absurd hheld h⟩
        cases h
  · rw [fs_write_with_gated hroute hroot hextra hneed, Prog.run_seq_error _ _ hauthorize]
    constructor
    · rintro ⟨⟨message, h⟩, -⟩
      cases h
      exact absurd rfl (hother message)
    · intro h
      split at h
      · rw [h hopens] at hundecodable
        cases hundecodable
      · rename_i hraw
        rw [needs_cap, Bool.eq_false_iff.mpr hraw, Bool.or_false, beq_iff_eq] at hneed
        exact absurd hneed h

/-- The write of a text that is encoded. -/
theorem gate_encoded_iff (hroute : self.registry.get project_id = some route)
    (hcanonical : canonical_target route.root relative_path = .ok (t, c))
    (hcontrol : is_control_plane_path c = true)
    (hproper : (self.write_request J project_id relative_path content expected
      credentials.id).Proper w)
    (hdenied : ∀ u, (self.authorize J project_id relative_path content expected credentials).run
      (machine Bytes) i w ≠ (.ok true, u)) :
    self.Refused w ((self.fs_write_with
      (self.authorize J project_id relative_path content expected credentials)
      (self.request_confirmation J project_id relative_path content expected) project_id
      relative_path content expected extra).run (machine Bytes) i w) ↔
      (extra.contains "permit_held_mutation" || extra.contains "confirm") = true ∨
      route.root ∈ w.dirs ∧
        if is_control_plane_path relative_path = true then
          (self.write_request J project_id relative_path content expected credentials.id).Opens
            credentials.secret w → decodable J credentials.secret credentials.token = true
        else route.lifecycle ≠ "held" := by
  have hsame : Unproposed self.confirmation_store w w := fun _ _ _ h => h
  cases hextra : extra.contains "permit_held_mutation" || extra.contains "confirm" with
  | true =>
    have hrun : (self.fs_write_with
        (self.authorize J project_id relative_path content expected credentials)
        (self.request_confirmation J project_id relative_path content expected) project_id
        relative_path content expected extra).run (machine Bytes) i w = (.error (.PermissionError
          "caller-controlled authority escalation parameter rejected"), w) := by
      rw [fs_write_with, hextra]
      exact Prog.run_seq_error _ _ rfl
    rw [hrun]
    exact ⟨fun _ => .inl rfl, fun _ => ⟨⟨_, rfl⟩, hsame⟩⟩
  | false =>
    simp only [Bool.false_eq_true, false_or]
    by_cases hroot : route.root ∈ w.dirs
    · simp only [hroot, true_and]
      cases hneed : needs_cap route relative_path with
      | false =>
        have hneither := Bool.or_eq_false_iff.mp hneed
        have hactive : route.lifecycle ≠ "held" := beq_eq_false_iff_ne.mp hneither.1
        obtain ⟨message, hrun⟩ : ∃ message, (self.write_permitted route project_id relative_path
            content expected false).run (machine Bytes) i w = (.error (.PermissionError message), w) :=
          write_permitted_run hcanonical hcontrol
        rw [fs_write_with_plain hroute hroot hextra hneed, hrun, hneither.2,
          if_neg Bool.false_ne_true]
        exact ⟨fun _ => hactive, fun _ => ⟨⟨message, rfl⟩, hsame⟩⟩
      | true =>
        exact refused_gated_iff hroute hroot hextra hneed hproper hdenied
    · have hresolve := resolve_project_run (i := i) (w := w) hroute
      rw [if_neg hroot] at hresolve
      rw [fs_write_with, hextra, Prog.run_seq _ _ (raiseIf_false_run _),
        Prog.run_seq_error _ _ hresolve]
      simp [Refused, hroot]

end Gate

def heldRoute : Route := ⟨⟨"demo", by decide⟩, "/p", "held"⟩

/-- A held project in `/p`, with host stores beside it. -/
def sampleHeld : GovernedExecutor where
  registry := ⟨[heldRoute]⟩
  recovery_store := .sample
  confirmation_store := "/trust"
  stores_outside := by decide

/-- A host with the root of the sample project and no files. -/
def sampleHost : World SampleFile where
  files := ∅
  dirs := ["/p"]
  locks _ := none
  stamps _ := Stamp.sample
  clock n := n
  ticks := 0
  drawer _ := none
  changes := []
  timeouts := []

section Samples

attribute [local instance] asciiText sampleFiles sampleJson sampleRecords

end Samples

end GovernedExecutor

end jvc
