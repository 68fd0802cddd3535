import Jvc.Policy.Authority

open program jvc.policy

namespace jvc.authority

section Checks

variable {Bytes J : Type} [Text] [Host Bytes] [Json J] [Records Bytes J]

/-- The claims match the request and the proposal, up to `n`, and name a nonce with
this digest. -/
structure Matching (Bytes : Type) [Host Bytes] [Records Bytes J] (request : Request J)
    (proposal claims : J) (n : Int) (nonce_hash : String) : Prop where
  dict : isDict proposal = true
  fields : ∃ data, canonical_json_bytes request.payload = .ok data ∧
    mismatched request (sha256_bytes (Records.contents data : Bytes)) proposal claims = false
  expires : expiry claims = .ok n
  nonempty : nonce_text claims ≠ []
  nonce : ∃ data, encode_utf8 (nonce_text claims) = .ok data ∧
    nonce_hash = sha256_bytes (Records.contents data : Bytes)

/-- All claim checks pass: the token is one that authorizes the request until `n`. -/
structure Authorizes (request : Request J) (token : PyStr) (secret : List UInt8) (w : World Bytes)
    (n : Int) (nonce_hash : String) : Prop where
  named : request.confirmation_id ≠ ""
  given : token ≠ []
  key : validate_operator_key secret = .ok secret
  claims : ∃ proposal claims : J,
    proposal_at w (proposal_path request.confirmation_store request.confirmation_id) =
      .ok (some proposal) ∧
    decode_and_verify_capability token secret = .ok claims ∧
    Matching Bytes request proposal claims n nonce_hash

variable {request : Request J} {token : PyStr} {secret : List UInt8} {proposal claims : J}
  {nonce_hash : String} {i : Pid} {w v : World Bytes} {n : Int}

theorem check_claims_passes (h : Matching Bytes request proposal claims n nonce_hash)
    (htime : now w ≤ n) : (check_claims request proposal claims).run (machine Bytes) i w =
      (.ok (some nonce_hash), tick w) := by
  obtain ⟨data, hdata, hmatch⟩ := h.fields
  obtain ⟨nonce, hnonce, rfl⟩ := h.nonce
  rw [check_claims, Prog.run_seq _ _ (payload_sha256_run hdata i w), h.dict]
  rw [Prog.run_seq _ _ (show (raiseIf (!true) _ : Jvc Bytes Unit).run (machine Bytes) i w =
    (.ok (), w) from rfl), hmatch, h.expires]
  rw [if_neg Bool.false_ne_true, Prog.run_seq _ _ (show (Prog.ofExcept (.ok n) :
    Jvc Bytes Int).run (machine Bytes) i w = (.ok n, w) from rfl)]
  rw [Prog.run_seq _ _ (time_run i w), if_neg (not_lt.mpr htime), if_neg h.nonempty, hnonce]
  rfl

theorem matching_of_check_claims
    (h : (check_claims request proposal claims).run (machine Bytes) i w =
      (.ok (some nonce_hash), v)) :
    ∃ n, Matching Bytes request proposal claims n nonce_hash ∧ now w ≤ n ∧ v = tick w := by
  obtain ⟨hash, w₁, hpayload, hrest⟩ := Prog.run_seq_ok _ _ h
  cases hdata : canonical_json_bytes request.payload with
  | error e =>
    rw [payload_sha256, hdata] at hpayload
    cases hpayload
  | ok data =>
    rw [payload_sha256_run hdata] at hpayload
    cases hpayload
    obtain ⟨_, w₂, hdict, hfields⟩ := Prog.run_seq_ok _ _ hrest
    cases hisDict : isDict proposal with
    | false =>
      rw [hisDict] at hdict
      cases hdict
    | true =>
      rw [hisDict] at hdict
      cases hdict
      split at hfields
      · cases hfields
      rename_i hmatched
      obtain ⟨n, w₃, hexpiry, htime⟩ := Prog.run_seq_ok _ _ hfields
      cases hn : expiry claims with
      | error e =>
        rw [hn] at hexpiry
        cases hexpiry
      | ok n' =>
        rw [hn] at hexpiry
        cases hexpiry
        obtain ⟨t, w₄, hclock, hlast⟩ := Prog.run_seq_ok _ _ htime
        rw [time_run] at hclock
        cases hclock
        split at hlast
        · cases hlast
        rename_i hlater
        split at hlast
        · cases hlast
        rename_i hnonempty
        obtain ⟨nonce, w₅, hencode, hdone⟩ := Prog.run_seq_ok _ _ hlast
        cases hnonce : encode_utf8 (nonce_text claims) with
        | error e =>
          rw [hnonce] at hencode
          cases hencode
        | ok encoded =>
          rw [hnonce] at hencode
          cases hencode
          cases hdone
          exact ⟨n, ⟨hisDict, ⟨data, hdata, Bool.eq_false_iff.mpr hmatched⟩, hn, hnonempty,
            nonce, hnonce, rfl⟩, not_lt.mp hlater, rfl⟩

/-- The checks pass exactly for a token that authorizes the request and has not expired. -/
theorem verified_nonce_iff : (verified_nonce request token secret).run (machine Bytes) i w =
    (.ok (some nonce_hash), v) ↔
      ∃ n, Authorizes request token secret w n nonce_hash ∧ now w ≤ n ∧ v = tick w := by
  have hload := load_proposal_run (J := J) i
    (proposal_path request.confirmation_store request.confirmation_id) w
  constructor
  · intro h
    unfold verified_nonce at h
    split at h
    · cases h
    rename_i hgiven
    simp only [Bool.or_eq_true, decide_eq_true_eq, not_or] at hgiven
    cases hkey : validate_operator_key secret with
    | error e =>
      rw [hkey] at h
      cases h
    | ok key =>
      have hvalid := validate_operator_key_eq_ok hkey
      subst hvalid
      rw [hkey] at h
      dsimp only at h
      obtain ⟨found, w₁, hfound, hrest⟩ := Prog.run_seq_ok _ _ h
      rw [hload] at hfound
      obtain ⟨hproposal, rfl⟩ := Prod.mk.inj hfound
      cases found with
      | none => cases hrest
      | some proposal =>
        dsimp only at hrest
        cases hclaims : (decode_and_verify_capability token key : Except Err J) with
        | error e =>
          rw [hclaims] at hrest
          cases e <;> cases hrest
        | ok claims =>
          rw [hclaims] at hrest
          obtain ⟨n, hmatching, htime, hv⟩ := matching_of_check_claims hrest
          exact ⟨n, ⟨hgiven.1, hgiven.2, hkey, proposal, claims, hproposal, hclaims, hmatching⟩,
            htime, hv⟩
  · rintro ⟨n, ⟨hnamed, hgiven, hkey, proposal, claims, hproposal, hclaims, hmatching⟩, htime, rfl⟩
    have hpresent : ¬ (decide (request.confirmation_id = "") || decide (token = [])) = true := by
      simp [hnamed, hgiven]
    rw [hproposal] at hload
    rw [verified_nonce, if_neg hpresent, hkey]
    dsimp only
    rw [Prog.run_seq _ _ hload]
    dsimp only
    rw [hclaims]
    exact check_claims_passes hmatching htime

end Checks

section Storing

variable {Bytes : Type} {w u : World Bytes} {path : Path} {present : Bool} {n : Nat}

/-- What storing a record has done after `n` steps that can fail: the file is there
or not, and every other file is as it was. -/
structure Storing (w u : World Bytes) (path : Path) (present : Bool) (n : Nat) : Prop where
  file : (u.lookup path).isSome = present
  others : ∀ q, q ≠ path → u.lookup q = w.lookup q
  faults : u.faults = w.faults
  tries : u.tries = w.tries + n

theorem Storing.begin (h : w.lookup path = none) : Storing w w path false 0 :=
  ⟨by rw [h]; rfl, fun _ _ => rfl, rfl, rfl⟩

theorem Storing.tick (h : Storing w u path present n) : Storing w (tick u) path present n :=
  ⟨h.file, h.others, h.faults, h.tries⟩

theorem Storing.write (h : Storing w u path present n) (i : Pid) (data : Bytes) :
    Storing w (u.write i path data none) path true n := by
  refine ⟨?_, fun q hq => ?_, h.faults, h.tries⟩
  · rw [World.lookup_write, if_pos rfl]
    rfl
  · rw [World.lookup_write, if_neg hq, h.others q hq]

theorem Storing.remove (h : Storing w u path present n) (i : Pid) :
    Storing w (u.remove i path) path false n := by
  refine ⟨?_, fun q hq => ?_, h.faults, h.tries⟩
  · rw [World.lookup_remove, if_pos rfl]
    rfl
  · rw [World.lookup_remove, if_neg hq, h.others q hq]

/-- An operation that can fail answers as the storage does. -/
theorem Storing.attempt {done : World Bytes} {after : Bool} (h : Storing w u path present n)
    (hdone : Storing w done path after n) (by_step : FileStep) :
    (u.attempt by_step done).1 = !w.faults (w.tries + n) by_step ∧
      Storing w (u.attempt by_step done).2 path
        (if w.faults (w.tries + n) by_step then present else after) (n + 1) := by
  have htries : u.tries + 1 = w.tries + (n + 1) := by rw [h.tries, Nat.add_assoc]
  rw [World.attempt, h.faults, h.tries]
  cases hfault : w.faults (w.tries + n) by_step with
  | true => exact ⟨rfl, h.file, h.others, rfl, Nat.add_assoc _ _ _⟩
  | false => exact ⟨rfl, hdone.file, hdone.others, hdone.faults, Nat.add_assoc _ _ _⟩

theorem Storing.create (h : Storing w u path false n) (i : Pid) (data : Bytes)
    (hok : w.faults (w.tries + n) .create = false) : ∃ u',
      (create path data).run (machine Bytes) i u = (.ok true, u') ∧
        Storing w u' path true (n + 1) := by
  obtain ⟨hanswer, hafter⟩ := h.attempt (h.write i data) .create
  rw [hok] at hanswer hafter
  refine ⟨_, ?_, hafter⟩
  have hrun : (jvc.create path data).run (machine Bytes) i u =
      (.ok (if (u.lookup path).isSome then (false, u)
          else u.attempt .create (u.write i path data none)).1,
        (if (u.lookup path).isSome then (false, u)
          else u.attempt .create (u.write i path data none)).2) := rfl
  rw [hrun, h.file, if_neg Bool.false_ne_true, hanswer]
  rfl

/-- A step of storing answers as the storage does, and the file stays. -/
theorem Storing.persist (h : Storing w u path true n) (i : Pid) (by_step : FileStep)
    (data : Option Bytes) : ∃ u',
      (persist by_step path data).run (machine Bytes) i u =
        (.ok (!w.faults (w.tries + n) by_step), u') ∧ Storing w u' path true (n + 1) := by
  have hdone : Storing w (data.elim u fun data => u.write i path data none) path true n := by
    cases data with
    | none => exact h
    | some data => exact h.write i data
  obtain ⟨hanswer, hafter⟩ := h.attempt hdone by_step
  rw [ite_self] at hafter
  refine ⟨_, ?_, hafter⟩
  rw [← hanswer]
  cases data with
  | none => rfl
  | some data => rfl

theorem Storing.discard (h : Storing w u path true n) (i : Pid)
    (hok : w.faults (w.tries + n) .unlink = false) : ∃ u',
      (discard path).run (machine Bytes) i u = (.ok true, u') ∧
        Storing w u' path false (n + 1) := by
  obtain ⟨hanswer, hafter⟩ := h.attempt (h.remove i) .unlink
  rw [hok] at hanswer hafter
  exact ⟨_, by rw [← Bool.not_false, ← hanswer]; rfl, hafter⟩

/-- The first step to fail once the record's file was created. -/
def firstFault (w : World Bytes) : Option FileStep :=
  if w.faults (w.tries + 1) .write then some .write
  else if w.faults (w.tries + 2) .flush then some .flush
  else if w.faults (w.tries + 3) .fsync then some .fsync
  else if w.faults (w.tries + 4) .close then some .close
  else none

/-- A new record is stored if no step fails, and removed if the sync is the first
step that does. -/
theorem record_consumed_run {J : Type} [Json J] [Records Bytes J] (i : Pid)
    (confirmation_id : String) (hnew : w.lookup path = none)
    (hcreate : w.faults w.tries .create = false) (hunlink : ∀ m, w.faults m .unlink = false) :
    ∃ u m, (record_consumed (J := J) path confirmation_id).run (machine Bytes) i w =
        (.ok (firstFault w).isNone, u) ∧
      Storing w u path (firstFault w != some .fsync) m := by
  obtain ⟨u₁, hrun₁, h₁⟩ := (Storing.begin hnew).create i (Records.empty : Bytes) hcreate
  rw [record_consumed, Prog.run_seq _ _ hrun₁, if_pos rfl, Prog.run_seq _ _ (time_run i u₁)]
  obtain ⟨u₂, hrun₂, h₂⟩ := h₁.tick.persist i .write none
  rw [Prog.run_seq _ _ hrun₂, firstFault]
  cases hwrite : w.faults (w.tries + 1) .write with
  | true =>
    obtain ⟨u₃, hrun₃, h₃⟩ := h₂.persist i .close none
    exact ⟨u₃, _, Prog.run_seq _ _ hrun₃, h₃⟩
  | false =>
    obtain ⟨u₃, hrun₃, h₃⟩ := h₂.persist i .flush (some (Records.consumed
      (Json.obj [("confirmation_id", .str confirmation_id), ("consumed_at", .int (now u₁))])))
    simp only [Bool.not_false, if_true, Bool.false_eq_true, if_false]
    rw [Prog.run_seq _ _ hrun₃]
    cases hflush : w.faults (w.tries + 2) .flush with
    | true =>
      obtain ⟨u₄, hrun₄, h₄⟩ := h₃.persist i .close (some (Records.consumed
        (Json.obj [("confirmation_id", .str confirmation_id), ("consumed_at", .int (now u₁))])))
      exact ⟨u₄, _, Prog.run_seq _ _ hrun₄, h₄⟩
    | false =>
      obtain ⟨u₄, hrun₄, h₄⟩ := h₃.persist i .fsync none
      simp only [Bool.not_false, if_true, Bool.false_eq_true, if_false]
      rw [Prog.run_seq _ _ hrun₄]
      obtain ⟨u₅, hrun₅, h₅⟩ := h₄.persist i .close none
      cases hsync : w.faults (w.tries + 3) .fsync with
      | true =>
        obtain ⟨u₆, hrun₆, h₆⟩ := h₅.discard i (hunlink _)
        refine ⟨u₆, _, ?_, h₆⟩
        exact (Prog.run_seq _ _ hrun₅).trans (Prog.run_seq _ _ hrun₆)
      | false =>
        cases hclose : w.faults (w.tries + 4) .close with
        | true =>
          rw [hclose] at hrun₅
          exact ⟨u₅, _, hrun₅, h₅⟩
        | false =>
          rw [hclose] at hrun₅
          exact ⟨u₅, _, hrun₅, h₅⟩

end Storing

section Retrying

variable {Bytes J : Type} [Text] [Host Bytes] [Json J] [Records Bytes J] {request : Request J}
  {token : PyStr} {secret : List UInt8} {nonce_hash : String} {i : Pid} {w u v : World Bytes}
  {n : Int}

/-- Creating the record succeeds, and so does every removal of a file. -/
structure Creates (w : World Bytes) (path : Path) : Prop where
  absent : w.lookup path = none
  create : w.faults w.tries .create = false
  unlink : ∀ m, w.faults m .unlink = false

theorem Authorizes.proposal_ne (h : Authorizes request token secret w n nonce_hash)
    (hcreates : Creates w (consumed_path request.confirmation_store nonce_hash)) :
    proposal_path request.confirmation_store request.confirmation_id ≠
      consumed_path request.confirmation_store nonce_hash := by
  intro heq
  obtain ⟨proposal, claims, hproposal, -⟩ := h.claims
  rw [proposal_at, heq, hcreates.absent] at hproposal
  cases hproposal

/-- The same token authorizes the request wherever the same proposal is pending. -/
theorem Authorizes.of_lookup (h : Authorizes request token secret w n nonce_hash)
    (hsame : v.lookup (proposal_path request.confirmation_store request.confirmation_id) =
      w.lookup (proposal_path request.confirmation_store request.confirmation_id)) :
    Authorizes request token secret v n nonce_hash := by
  obtain ⟨proposal, claims, hproposal, hrest⟩ := h.claims
  refine ⟨h.named, h.given, h.key, proposal, claims, ?_, hrest⟩
  rw [proposal_at, hsame]
  exact hproposal

/-- Consumption under a token that authorizes the request: it succeeds if no step of
storing the record fails, and else keeps the proposal and loses the record if the
sync failed first. -/
theorem consume_run (hauthorizes : Authorizes request token secret w n nonce_hash)
    (htime : now w ≤ n)
    (hcreates : Creates w (consumed_path request.confirmation_store nonce_hash)) :
    ∃ u, (validate_and_consume_capability request token secret).run (machine Bytes) i w =
        (.ok (firstFault w).isNone, u) ∧
      ((firstFault w).isNone = false →
        (u.lookup (consumed_path request.confirmation_store nonce_hash)).isSome =
          (firstFault w != some .fsync) ∧
        u.lookup (proposal_path request.confirmation_store request.confirmation_id) =
          w.lookup (proposal_path request.confirmation_store request.confirmation_id)) := by
  have hchecks := (verified_nonce_iff (i := i)).mpr ⟨n, hauthorizes, htime, rfl⟩
  obtain ⟨u, m, hrecord, hstoring⟩ := record_consumed_run (w := tick w) (J := J) i
    request.confirmation_id hcreates.absent hcreates.create hcreates.unlink
  rw [validate_and_consume_capability, Prog.run_seq _ _ hchecks]
  dsimp only
  rw [Prog.run_seq _ _ hrecord]
  change ∃ u', ((if (firstFault w).isNone = true then _ else _ : Jvc Bytes Bool).run _ _ u = _) ∧ _
  cases hfault : (firstFault w).isNone with
  | true => exact ⟨_, rfl, fun h => by cases h⟩
  | false =>
    exact ⟨u, rfl, fun _ => ⟨hstoring.file, hstoring.others _ (hauthorizes.proposal_ne hcreates)⟩⟩

/-- A call that was denied in `w` and left `u` behind can be repeated: the record of
its nonce is gone, its proposal is pending, and the same call on healthy storage
succeeds until the claims expire. -/
structure Retryable (request : Request J) (token : PyStr) (secret : List UInt8)
    (nonce_hash : String) (w u : World Bytes) : Prop where
  removed : u.lookup (consumed_path request.confirmation_store nonce_hash) = none
  pending : u.lookup (proposal_path request.confirmation_store request.confirmation_id) =
    w.lookup (proposal_path request.confirmation_store request.confirmation_id)
  retried : ∀ (j : Pid) (later : World Bytes) (claims : J) (n : Int),
    decode_and_verify_capability token secret = .ok claims → expiry claims = .ok n →
    now later ≤ n → (∀ m step, later.faults m step = false) →
    later.lookup (consumed_path request.confirmation_store nonce_hash) =
      u.lookup (consumed_path request.confirmation_store nonce_hash) →
    later.lookup (proposal_path request.confirmation_store request.confirmation_id) =
      u.lookup (proposal_path request.confirmation_store request.confirmation_id) →
    ∃ v, (validate_and_consume_capability request token secret).run (machine Bytes) j later =
      (.ok true, v)

omit [Text] [Host Bytes] in
theorem firstFault_healthy (h : ∀ m step, w.faults m step = false) : firstFault w = none := by
  rw [firstFault, h, h, h, h]
  rfl

theorem retryable_of_sync {n : Int} (hauthorizes : Authorizes request token secret w n nonce_hash)
    (hremoved : u.lookup (consumed_path request.confirmation_store nonce_hash) = none)
    (hpending : u.lookup (proposal_path request.confirmation_store request.confirmation_id) =
      w.lookup (proposal_path request.confirmation_store request.confirmation_id)) :
    Retryable request token secret nonce_hash w u := by
  refine ⟨hremoved, hpending, fun j later claims n' hclaims hexpiry htime hhealthy hrecord hsame => ?_⟩
  obtain ⟨proposal, claims', hproposal, hclaims', hmatching⟩ := hauthorizes.claims
  have hn : n' = n := by
    have hexpiry' := hmatching.expires
    rw [hclaims] at hclaims'
    cases hclaims'
    rw [hexpiry] at hexpiry'
    cases hexpiry'
    rfl
  subst hn
  have hagain := hauthorizes.of_lookup (hsame.trans hpending)
  obtain ⟨v, hrun, -⟩ := consume_run (i := j) hagain htime
    ⟨hrecord.trans hremoved, hhealthy _ _, fun m => hhealthy m _⟩
  rw [firstFault_healthy hhealthy] at hrun
  exact ⟨v, hrun⟩

/-- A consumption that passed its checks and created its record, but was denied,
can be repeated exactly if the first step to fail was the sync of the record. -/
theorem denied_retryable_iff
    (hchecks : (verified_nonce request token secret).run (machine Bytes) i w =
      (.ok (some nonce_hash), v))
    (hcreates : Creates w (consumed_path request.confirmation_store nonce_hash))
    (hdenied : (validate_and_consume_capability request token secret).run (machine Bytes) i w =
      (.ok false, u)) :
    Retryable request token secret nonce_hash w u ↔ firstFault w = some .fsync := by
  obtain ⟨n, hauthorizes, htime, -⟩ := verified_nonce_iff.mp hchecks
  obtain ⟨u', hrun, hleft⟩ := consume_run (i := i) hauthorizes htime hcreates
  rw [hdenied] at hrun
  obtain ⟨hanswer, rfl⟩ := Prod.mk.inj hrun
  have hfault : (firstFault w).isNone = false := (Except.ok.inj hanswer).symm
  obtain ⟨hrecord, hpending⟩ := hleft hfault
  constructor
  · intro h
    rw [h.removed] at hrecord
    simpa using hrecord
  · intro h
    rw [h] at hrecord
    exact retryable_of_sync hauthorizes (by simpa using hrecord) hpending

end Retrying

def samplePayload : SampleJson := .obj
  [("bytes", .int 5), ("content_sha256", .str "0A"), ("path", .str "a.txt")]

def sampleRequest : Request SampleJson where
  confirmation_store := "/trust"
  confirmation_id := "conf_1"
  project_id := "demo"
  operation := "FS_WRITE"
  target := "a.txt"
  payload := samplePayload
  preimage := none

def sampleProposal : Proposal where
  confirmation_id := "conf_1"
  project_id := "demo"
  operation := "FS_WRITE"
  target := "a.txt"
  payload_sha256 := "0A"
  expected_preimage_sha256 := ""
  nonce := "first"
  created_at := 0
  expires_at := 300
  confirmation_class := "HELD_ROUTE_GATE"
  reason := "HELD route mutation requires trusted operator capability"

section Samples

attribute [local instance] asciiText sampleFiles sampleJson sampleRecords

/-- `sign_capability` on the sample claims and key. -/
def sampleToken : PyStr := signed_token SampleJson sampleKey (utf8.encode sampleClaims.print)

theorem decode_sampleToken :
    (decode_and_verify_capability sampleToken sampleKey : Except Err SampleJson) =
      .ok sampleClaims :=
  decode_signed_ok (by decide) rfl (by decide +kernel)

/-- The sample proposal is pending, and one kind of step of storing a file fails. -/
def sampleStorage (failing : FileStep) : World SampleFile where
  files := AList.insert "/trust/pending/conf_1.json" (.record sampleProposal.record) ∅
  dirs := []
  locks _ := none
  stamps _ := Stamp.sample
  clock n := n
  ticks := 0
  drawer _ := none
  changes := []
  timeouts := []
  faults _ by_step := by_step == failing

theorem sampleStorage_authorizes (failing : FileStep) :
    Authorizes sampleRequest sampleToken sampleKey (sampleStorage failing) 300 "1A" := by
  refine ⟨by decide, by simp [sampleToken, signed_token, scalars], by decide, sampleProposal.record, sampleClaims, ?_,
    decode_sampleToken, rfl, ⟨utf8.encode samplePayload.print, canonical_json_bytes_scalars rfl, ?_⟩, rfl, ?_,
    utf8.encode "first".toList, encode_utf8_scalars _, by decide +kernel⟩
  · cases failing <;> decide +kernel
  · decide +kernel
  · decide +kernel

theorem sampleStorage_creates (failing : FileStep) (h : failing ≠ .create ∧ failing ≠ .unlink) :
    Creates (sampleStorage failing) (consumed_path sampleRequest.confirmation_store "1A") := by
  refine ⟨by cases failing <;> decide +kernel, ?_, fun m => ?_⟩
  · exact beq_eq_false_iff_ne.mpr h.1.symm
  · exact beq_eq_false_iff_ne.mpr h.2.symm

/-- After a failed sync the call can be repeated. -/
theorem denied_retryable_iff_sync : ∃ u,
    (validate_and_consume_capability sampleRequest sampleToken sampleKey).run (machine SampleFile) 0
      (sampleStorage .fsync) = (.ok false, u) ∧
    Retryable sampleRequest sampleToken sampleKey "1A" (sampleStorage .fsync) u := by
  have hauthorizes := sampleStorage_authorizes .fsync
  have hcreates := sampleStorage_creates .fsync (by decide)
  have htime : now (sampleStorage .fsync) ≤ 300 := by decide
  obtain ⟨u, hrun, -⟩ := consume_run (i := 0) hauthorizes htime hcreates
  refine ⟨u, hrun, ?_⟩
  exact (denied_retryable_iff (verified_nonce_iff.mpr ⟨_, hauthorizes, htime, rfl⟩) hcreates
    hrun).mpr rfl

/-- After a failed write the record stays, and the call cannot be repeated. -/
theorem write_failure_keeps_record : ∃ u,
    (validate_and_consume_capability sampleRequest sampleToken sampleKey).run (machine SampleFile) 0
      (sampleStorage .write) = (.ok false, u) ∧
    ¬ Retryable sampleRequest sampleToken sampleKey "1A" (sampleStorage .write) u := by
  have hcreates := sampleStorage_creates .write (by decide)
  obtain ⟨u, hrun, hleft⟩ := consume_run (i := 0) (sampleStorage_authorizes .write) (by decide) hcreates
  refine ⟨u, hrun, fun h => ?_⟩
  have hrecord := (hleft rfl).1
  rw [h.removed] at hrecord
  cases hrecord

end Samples

end jvc.authority
