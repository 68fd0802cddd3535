import Jvc.Policy.Guard

namespace jvc.guard

open policy

variable {Bytes : Type} {sha256_bytes : Bytes → String} {size : Bytes → Nat}

@[simp] theorem Manifest.enter_lifecycle_state (m : Manifest) (target : Lifecycle) (now : String) :
    (m.enter target now).lifecycle_state = target := by cases target <;> rfl

@[simp] theorem Manifest.enter_guard_mode (m : Manifest) (target : Lifecycle) (now : String) :
    (m.enter target now).guard_mode = m.guard_mode := by cases target <;> rfl

@[simp] theorem Manifest.enter_entries (m : Manifest) (target : Lifecycle) (now : String) :
    (m.enter target now).entries = m.entries := by cases target <;> rfl

@[simp] theorem Manifest.enter_manifest_id (m : Manifest) (target : Lifecycle) (now : String) :
    (m.enter target now).manifest_id = m.manifest_id := by cases target <;> rfl

/-- The bytes differ from the captured preimage. -/
def Changed (sha256_bytes : Bytes → String) (size : Bytes → Nat) (data : Bytes) :
    Preimage → Prop
  | .absent => True
  | .present sha256 byte_length => sha256_bytes data ≠ sha256 ∨ size data ≠ byte_length

/-- What a receipt certifies of one entry: the call read bytes of the bound hash
at the target, changed from the preimage, and recorded them. -/
def EntryCertified (sha256_bytes : Bytes → String) (size : Bytes → Nat) (glance : Glance Bytes)
    (entry : Entry) (observations : List Observation) : Prop :=
  ∃ data, glance.data = some data ∧ entry.expected_sha256 = some (sha256_bytes data) ∧
    Changed sha256_bytes size data entry.preimage ∧
    ⟨entry.path, sha256_bytes data, size data, true⟩ ∈ observations

theorem EntryCertified.mono {glance : Glance Bytes} {entry : Entry}
    {observations more : List Observation} (h : EntryCertified sha256_bytes size glance entry observations)
    (hsub : observations ⊆ more) : EntryCertified sha256_bytes size glance entry more := by
  obtain ⟨data, hdata, hexpected, hchanged, hmem⟩ := h
  exact ⟨data, hdata, hexpected, hchanged, hsub hmem⟩

theorem intent_failures_nil {entry : Entry} {post_hash expected : String}
    (hexpected : entry.expected_sha256 = some expected) (hlen : expected.length = 64)
    (h : intent_failures entry post_hash = []) : post_hash = expected := by
  have hne : expected ≠ "" := by
    rintro rfl
    exact absurd hlen (by decide)
  by_contra hdiffer
  rw [intent_failures, hexpected, if_pos (by simp [hne, hdiffer])] at h
  cases h

variable [Text] {root manifest_path : Path} {desk desk' : Desk} {sight : Sight Bytes}

/-- An entry without failures was read with its bound hash, and changed. -/
theorem inspect_entry_certified {glance : Glance Bytes} {entry : Entry} {tally : Tally}
    {expected : String}
    (h : inspect_entry sha256_bytes size root "strict-write" glance entry = .ok tally)
    (hnone : tally.failures = []) (hexpected : entry.expected_sha256 = some expected)
    (hlen : expected.length = 64) :
    EntryCertified sha256_bytes size glance entry tally.observations := by
  unfold inspect_entry at h
  split at h
  · cases h
  · rename_i hpreimage
    split at h
    · split at h
      · cases h
      · rename_i data hdata
        cases h
        have hhash := intent_failures_nil hexpected hlen hnone
        refine ⟨data, hdata, by rw [hexpected, hhash], ?_, List.mem_singleton.mpr rfl⟩
        rw [hpreimage]
        trivial
    · cases h
      cases hnone
  · rename_i sha256 byte_length _ hpreimage
    split at h
    · cases h
      cases hnone
    · split at h
      · cases h
      · rename_i data hdata
        cases h
        simp only [List.append_eq_nil_iff] at hnone
        obtain ⟨hintent, hunchanged⟩ := hnone
        have hhash := intent_failures_nil hexpected hlen hintent
        have hchanged : (sha256_bytes data != sha256 || size data != byte_length) = true := by
          by_contra hsame
          rw [if_pos ⟨trivial, by simpa using hsame⟩] at hunchanged
          cases hunchanged
        refine ⟨data, hdata, by rw [hexpected, hhash], ?_, ?_⟩
        · rw [hpreimage]
          simpa [Changed] using hchanged
        · rw [hchanged]
          exact List.mem_singleton.mpr rfl

/-- The same for all entries from the `n`-th target on. -/
theorem inspect_entries_certified {n : Nat} {entries : List Entry} {tally : Tally}
    (h : inspect_entries sha256_bytes size root "strict-write" sight n entries = .ok tally)
    (hnone : tally.failures = [])
    (hbound : ∀ entry ∈ entries, ∃ expected, entry.expected_sha256 = some expected ∧
      expected.length = 64)
    {k : Nat} {entry : Entry} (hentry : entries[k]? = some entry) :
    EntryCertified sha256_bytes size (sight.target (n + k)) entry tally.observations := by
  induction entries generalizing n tally k with
  | nil => cases hentry
  | cons first rest ih =>
    cases hhead : inspect_entry sha256_bytes size root "strict-write" (sight.target n) first with
    | error failure => simp [inspect_entries, hhead, bind, Except.bind] at h
    | ok head =>
      cases htail : inspect_entries sha256_bytes size root "strict-write" sight (n + 1) rest with
      | error failure => simp [inspect_entries, hhead, htail, bind, Except.bind] at h
      | ok tail =>
        obtain rfl : head.append tail = tally := by
          simpa [inspect_entries, hhead, htail, bind, Except.bind, pure, Except.pure] using h
        obtain ⟨hhead_none, htail_none⟩ := List.append_eq_nil_iff.mp hnone
        cases k with
        | zero =>
          obtain rfl : first = entry := by simpa using hentry
          obtain ⟨expected, hexpected, hlen⟩ := hbound first List.mem_cons_self
          have hfirst := inspect_entry_certified hhead hhead_none hexpected hlen
          exact hfirst.mono (List.subset_append_left _ _)
        | succ k =>
          have hrest := ih htail htail_none
            (fun e he => hbound e (List.mem_cons_of_mem _ he)) (by simpa using hentry)
          rw [show n + (k + 1) = n + 1 + k by omega]
          exact hrest.mono (List.subset_append_right _ _)

theorem check_entry_ok {seen seen' : List String} {entry : Entry}
    (h : check_entry root seen entry = .ok seen') {expected : String}
    (hexpected : entry.expected_sha256 = some expected) : expected.length = 64 := by
  unfold check_entry at h
  split at h
  · cases h
  split at h
  · cases h
  split at h
  · cases h
  split at h
  · cases h
  split at h
  · cases h
  split at h
  · cases h
  split at h
  · cases h
  · rename_i hlen
    simpa [hexpected] using hlen

theorem check_entries_ok {seen : List String} {entries : List Entry}
    (h : check_entries root seen entries = .ok ()) {entry : Entry} (hmem : entry ∈ entries)
    {expected : String} (hexpected : entry.expected_sha256 = some expected) :
    expected.length = 64 := by
  induction entries generalizing seen with
  | nil => cases hmem
  | cons first rest ih =>
    rw [check_entries] at h
    split at h
    · cases h
    · rename_i seen' hfirst
      rcases List.mem_cons.mp hmem with rfl | hrest
      · exact check_entry_ok hfirst hexpected
      · exact ih h hrest

/-- Past `proposed`, the entries of a valid strict-write manifest have bound hashes. -/
theorem validate_entries_bound {manifest : Manifest} (h : validate_entries root manifest = .ok ())
    (hmode : manifest.guard_mode = "strict-write") (hstate : manifest.lifecycle_state ≠ .proposed) :
    ∀ entry ∈ manifest.entries, ∃ expected, entry.expected_sha256 = some expected ∧
      expected.length = 64 := by
  intro entry hmem
  unfold validate_entries at h
  split at h
  · cases h
  split at h
  · cases h
  split at h
  · cases h
  rename_i hentries
  rw [if_pos ⟨hmode, hstate⟩] at h
  split at h
  · cases h
  split at h
  · cases h
  rename_i hsome
  cases hexpected : entry.expected_sha256 with
  | none =>
    exact absurd (List.any_eq_true.mpr ⟨entry, hmem, by rw [hexpected]; rfl⟩) hsome
  | some expected => exact ⟨expected, rfl, check_entries_ok hentries hmem hexpected⟩

/-- A capture starts a strict-write manifest in `proposed` where there was none. -/
theorem capture_ok {paths : List String}
    (h : capture sha256_bytes size root manifest_path desk sight paths = .ok desk') :
    ∃ m, desk' = { desk with manifest := some m } ∧ m.lifecycle_state = .proposed ∧
      m.guard_mode = "strict-write" := by
  unfold capture at h
  split at h
  · cases h
  split at h
  · cases h
  split at h
  · cases h
  cases h
  exact ⟨_, rfl, rfl, rfl⟩

omit [Text] in
theorem read_manifest_ok {m : Manifest} (h : read_manifest manifest_path desk = .ok m) :
    desk.manifest = some m := by
  unfold read_manifest at h
  split at h
  · cases h
    assumption
  · cases h

/-- Binding an intent keeps the manifest in `proposed`. -/
theorem bind_intent_ok {expected_hashes : List (String × String)}
    (h : bind_intent root manifest_path desk expected_hashes = .ok desk') :
    ∃ m m', desk.manifest = some m ∧ desk' = { desk with manifest := some m' } ∧
      m'.lifecycle_state = .proposed ∧ m'.guard_mode = m.guard_mode := by
  unfold bind_intent at h
  split at h
  · cases h
  rename_i m hm
  split at h
  · cases h
  split at h
  · cases h
  rename_i hproposed
  split at h
  · cases h
  simp only at h
  split at h
  · cases h
    exact ⟨m, _, read_manifest_ok hm, rfl, not_not.mp hproposed, rfl⟩
  · cases h

/-- A transition enters the named state, one that may follow the current one. -/
theorem transition_ok {target_state : String}
    (h : transition root manifest_path desk sight target_state = .ok desk') :
    ∃ m target, desk.manifest = some m ∧ target.name = target_state ∧
      target ∈ VALID_TRANSITIONS m.lifecycle_state ∧
      desk' = { desk with manifest := some (m.enter target (sight.utc_now 0)) } := by
  unfold transition at h
  split at h
  · cases h
  rename_i target htarget
  split at h
  · cases h
  rename_i m hm
  split at h
  · cases h
  simp only at h
  split at h
  · cases h
  rename_i hvalid
  split at h
  · cases h
  cases h
  have hname := List.find?_some htarget
  exact ⟨m, target, read_manifest_ok hm, by simpa using hname, not_not.mp hvalid, rfl⟩

/-- What a receipt certifies of its manifest. -/
structure Certified (sha256_bytes : Bytes → String) (size : Bytes → Nat) (sight : Sight Bytes)
    (m : Manifest) (record : Record) : Prop where
  manifest_id : record.manifest_id = m.manifest_id
  entries : ∀ k entry, m.entries[k]? = some entry →
    EntryCertified sha256_bytes size (sight.target k) entry record.observations

/-- A receipt call that does not raise reports failures and changes nothing, or
completes the manifest with a certificate. -/
theorem receipt_ok {output_receipt : Path} {report : Report}
    (h : receipt sha256_bytes size root manifest_path desk sight output_receipt = .ok (report, desk')) :
    desk' = desk ∨ ∃ m record, desk.manifest = some m ∧ report = .PASS record ∧
      desk' = { manifest := some (m.enter .verified (sight.utc_now 0))
                receipts := (output_receipt, record) :: desk.receipts } ∧
      (m.guard_mode = "strict-write" → Certified sha256_bytes size sight m record) := by
  unfold receipt at h
  split at h
  · cases h
  split at h
  · cases h
  split at h
  · cases h
  rename_i m hm
  split at h
  · cases h
  rename_i hvalid
  split at h
  · cases h
  rename_i happlied
  split at h
  · cases h
  rename_i tally htally
  split at h
  · cases h
    exact Or.inl rfl
  rename_i hnone
  cases h
  refine Or.inr ⟨m, _, read_manifest_ok hm, rfl, rfl, fun hmode => ⟨rfl, fun k entry hentry => ?_⟩⟩
  have hstate : m.lifecycle_state ≠ .proposed := by
    rw [not_not.mp happlied]
    decide
  rw [hmode] at htally
  have hcert := inspect_entries_certified htally (not_not.mp hnone)
    (validate_entries_bound hvalid hmode hstate) hentry
  rwa [Nat.zero_add] at hcert

/-- An earlier receipt call of the sequence certified the manifest. -/
def CertifiedIn (sha256_bytes : Bytes → String) (size : Bytes → Nat)
    (root manifest_path : Path) (calls : List (Call × Sight Bytes)) (m : Manifest) : Prop :=
  ∃ later output_receipt sight earlier record desk',
    calls = later ++ (.receipt output_receipt, sight) :: earlier ∧
    receipt sha256_bytes size root manifest_path
      (desk_after sha256_bytes size root manifest_path earlier) sight output_receipt =
        .ok (.PASS record, desk') ∧
    (output_receipt, record) ∈ (desk_after sha256_bytes size root manifest_path calls).receipts ∧
    Certified sha256_bytes size sight m record

/-- No call of the sequence transitions an applied manifest to `verified`; such calls at
other times are refused. -/
def NeverSkipped (sha256_bytes : Bytes → String) (size : Bytes → Nat)
    (root manifest_path : Path) (calls : List (Call × Sight Bytes)) : Prop :=
  ∀ later sight earlier m, calls = later ++ (.transition "verified", sight) :: earlier →
    (desk_after sha256_bytes size root manifest_path earlier).manifest = some m →
      m.lifecycle_state ≠ .applied

/-- What holds of the manifest after every sequence of calls that never skips the
receipt. -/
structure Sound (sha256_bytes : Bytes → String) (size : Bytes → Nat)
    (root manifest_path : Path) (calls : List (Call × Sight Bytes)) (m : Manifest) : Prop where
  strict : m.guard_mode = "strict-write"
  certified : m.lifecycle_state = .verified →
    CertifiedIn sha256_bytes size root manifest_path calls m

/-- The receipts only grow. -/
theorem perform_receipts {call : Call}
    (h : perform sha256_bytes size root manifest_path desk sight call = .ok desk') :
    desk.receipts ⊆ desk'.receipts := by
  cases call with
  | capture paths =>
    obtain ⟨m, rfl, -, -⟩ := capture_ok h
    exact List.Subset.refl _
  | bind_intent expected_hashes =>
    obtain ⟨m, m', -, rfl, -, -⟩ := bind_intent_ok h
    exact List.Subset.refl _
  | transition target_state =>
    obtain ⟨m, target, -, -, -, rfl⟩ := transition_ok h
    exact List.Subset.refl _
  | receipt output_receipt =>
    rw [perform] at h
    cases hreceipt : receipt sha256_bytes size root manifest_path desk sight output_receipt with
    | error failure =>
      rw [hreceipt] at h
      cases h
    | ok result =>
      obtain ⟨report, desk''⟩ := result
      rw [hreceipt] at h
      cases h
      rcases receipt_ok hreceipt with rfl | ⟨m, record, -, -, rfl, -⟩
      · exact List.Subset.refl _
      · exact List.subset_cons_self _ _

theorem CertifiedIn.cons {calls : List (Call × Sight Bytes)} {m : Manifest}
    (h : CertifiedIn sha256_bytes size root manifest_path calls m) (call : Call × Sight Bytes) :
    CertifiedIn sha256_bytes size root manifest_path (call :: calls) m := by
  obtain ⟨later, output_receipt, sight, earlier, record, desk', rfl, hreceipt, hmem, hcert⟩ := h
  refine ⟨call :: later, output_receipt, sight, earlier, record, desk', rfl, hreceipt, ?_, hcert⟩
  rw [desk_after]
  split
  · rename_i hok
    exact perform_receipts hok hmem
  · exact hmem

theorem desk_after_ok {calls : List (Call × Sight Bytes)} {call : Call}
    (h : perform sha256_bytes size root manifest_path
      (desk_after sha256_bytes size root manifest_path calls) sight call = .ok desk') :
    desk_after sha256_bytes size root manifest_path ((call, sight) :: calls) = desk' := by
  simp only [desk_after, h]

omit [Text] in
theorem applied_of_verified {state : Lifecycle} (h : .verified ∈ VALID_TRANSITIONS state) :
    state = .applied := by
  cases state <;> first | rfl | exact absurd h (by decide)

/-- One call keeps the manifest sound. -/
theorem Sound.step {calls : List (Call × Sight Bytes)} {call : Call} {sight : Sight Bytes}
    (hcall : NeverSkipped sha256_bytes size root manifest_path ((call, sight) :: calls))
    (hsound : ∀ m, (desk_after sha256_bytes size root manifest_path calls).manifest = some m →
      Sound sha256_bytes size root manifest_path calls m)
    {m : Manifest}
    (hm : (desk_after sha256_bytes size root manifest_path ((call, sight) :: calls)).manifest = some m) :
    Sound sha256_bytes size root manifest_path ((call, sight) :: calls) m := by
  have hold : (desk_after sha256_bytes size root manifest_path calls).manifest = some m →
      Sound sha256_bytes size root manifest_path ((call, sight) :: calls) m := by
    intro hm'
    obtain ⟨hstrict, hcert⟩ := hsound m hm'
    exact ⟨hstrict, fun hv => (hcert hv).cons _⟩
  rw [desk_after] at hm
  split at hm
  · rename_i desk' hok
    cases call with
    | capture paths =>
      obtain ⟨m', rfl, hstate, hmode⟩ := capture_ok hok
      cases hm
      exact ⟨hmode, fun hv => by rw [hstate] at hv; cases hv⟩
    | bind_intent expected_hashes =>
      obtain ⟨m₀, m', hm₀, rfl, hstate, hmode⟩ := bind_intent_ok hok
      cases hm
      exact ⟨hmode.trans (hsound m₀ hm₀).strict, fun hv => by rw [hstate] at hv; cases hv⟩
    | transition target_state =>
      obtain ⟨m₀, target, hm₀, hname, hvalid, rfl⟩ := transition_ok hok
      cases hm
      refine ⟨(m₀.enter_guard_mode target _).trans (hsound m₀ hm₀).strict, fun hv => ?_⟩
      rw [Manifest.enter_lifecycle_state] at hv
      subst hv
      subst hname
      exact absurd (applied_of_verified hvalid) (hcall [] sight calls m₀ rfl hm₀)
    | receipt output_receipt =>
      have hperform := hok
      rw [perform] at hok
      cases hreceipt : receipt sha256_bytes size root manifest_path
          (desk_after sha256_bytes size root manifest_path calls) sight output_receipt with
      | error failure =>
        rw [hreceipt] at hok
        cases hok
      | ok result =>
        obtain ⟨report, desk''⟩ := result
        rw [hreceipt] at hok
        cases hok
        rcases receipt_ok hreceipt with heq | ⟨m₀, record, hm₀, rfl, hdesk, hcert⟩
        · rw [heq] at hm
          exact hold hm
        · have hstrict := (hsound m₀ hm₀).strict
          rw [hdesk] at hm
          cases hm
          refine ⟨(m₀.enter_guard_mode _ _).trans hstrict, fun _ => ?_⟩
          obtain ⟨hid, hentries⟩ := hcert hstrict
          refine ⟨[], output_receipt, sight, calls, record, _, rfl, hreceipt, ?_, hid, hentries⟩
          have hdone := desk_after_ok hperform
          rw [hdone, hdesk]
          exact List.mem_cons_self
  · exact hold hm

/-- In a run that never transitions an applied manifest to `verified`, a verified manifest
was completed by a receipt call that saw every entry changed to its bound hash
and wrote this down. -/
theorem verified_certified (calls : List (Call × Sight Bytes))
    (hcalls : NeverSkipped sha256_bytes size root manifest_path calls) (m : Manifest)
    (hm : (desk_after sha256_bytes size root manifest_path calls).manifest = some m)
    (hverified : m.lifecycle_state = .verified) :
    CertifiedIn sha256_bytes size root manifest_path calls m := by
  suffices hsound : ∀ m, (desk_after sha256_bytes size root manifest_path calls).manifest = some m →
      Sound sha256_bytes size root manifest_path calls m from (hsound m hm).certified hverified
  clear hm hverified m
  induction calls with
  | nil =>
    intro m hm
    cases hm
  | cons call earlier ih =>
    intro m hm
    refine Sound.step hcalls (ih fun later sight before m' hsplit => ?_) hm
    exact hcalls (call :: later) sight before m' (by rw [hsplit, List.cons_append])

section Samples

omit [Text]

/-- The digests of the two contents of the samples. -/
def sampleDigest (content : String) : String :=
  if content = "" then "E3B0C44298FC1C149AFBF4C8996FB92427AE41E4649B934CA495991B7852B855"
  else "CA978112CA1BBDCAFAC231B39A23DC4DA786EFF8147C4E72B9807785AFEE48BB"

/-- The sight of a call that finds the same content at every target. -/
def sees (content : Option String) : Sight String where
  target _ := ⟨content.isSome, content.isSome, content⟩
  occupied _ := false
  utc_now _ := "2026-01-01T00:00:00+00:00"
  uuid := "4f9a"

/-- Capture of an absent file, its intent and its approval, latest first. -/
def approvedCalls : List (Call × Sight String) :=
  [(.transition "approved", sees none), (.bind_intent [("a.txt", sampleDigest "a")], sees none),
    (.capture ["a.txt"], sees none)]

def appliedCalls : List (Call × Sight String) := (.transition "applied", sees none) :: approvedCalls

/-- A receipt, with a transition to `verified` that comes too early and is refused. -/
def receiptCalls : List (Call × Sight String) :=
  (.receipt "/srv/receipt.json", sees (some "a")) :: (.transition "applied", sees none) ::
    (.transition "verified", sees none) :: approvedCalls

/-- The manifest that both ways of completing it end with. -/
def verifiedManifest : Manifest :=
  let now := "2026-01-01T00:00:00+00:00"
  { schema_version := SCHEMA_VERSION
    manifest_id := "4f9a"
    captured_at := now
    lifecycle_state := .verified
    guard_mode := "strict-write"
    intent_state := "bound"
    entries :=
      [{ path := "a.txt", preimage := .absent, captured_at := now
         expected_sha256 := some (sampleDigest "a") }]
    approved_at := some now
    applied_at := some now
    verified_at := some now }

theorem receiptCalls_neverSkipped :
    @NeverSkipped String asciiText sampleDigest String.length "/srv/app" "/srv/guard.json"
      receiptCalls := by
  intro later sight earlier m hsplit hm
  have happroved : (@desk_after asciiText String sampleDigest String.length "/srv/app"
      "/srv/guard.json" approvedCalls).manifest.map Manifest.lifecycle_state = some .approved := by
    decide +kernel
  obtain _ | ⟨_, _ | ⟨_, _ | ⟨_, later⟩⟩⟩ := later
  · cases hsplit
  · simp [receiptCalls] at hsplit
  · cases hsplit
    rw [hm] at happroved
    rw [Option.some.inj happroved]
    decide
  · simp only [receiptCalls, List.cons_append, List.cons.injEq] at hsplit
    have hmem : Call.transition "verified" ∈ approvedCalls.map Prod.fst := by
      rw [hsplit.2.2.2]
      simp
    exact absurd hmem (by decide)

theorem verified_certified_receipt :
    @CertifiedIn String asciiText sampleDigest String.length "/srv/app" "/srv/guard.json"
      receiptCalls verifiedManifest :=
  @verified_certified String sampleDigest String.length asciiText "/srv/app" "/srv/guard.json"
    receiptCalls receiptCalls_neverSkipped verifiedManifest (by decide +kernel) rfl

/-- The file is never written and no receipt is made, and still the manifest
becomes verified. -/
theorem verified_by_transition :
    (@desk_after asciiText String sampleDigest String.length "/srv/app" "/srv/guard.json"
      ((.transition "verified", sees none) :: appliedCalls)).manifest = some verifiedManifest ∧
    verifiedManifest.lifecycle_state = .verified ∧
    ¬ @CertifiedIn String asciiText sampleDigest String.length "/srv/app" "/srv/guard.json"
      ((.transition "verified", sees none) :: appliedCalls) verifiedManifest := by
  refine ⟨by decide +kernel, rfl, ?_⟩
  rintro ⟨later, output_receipt, sight, earlier, record, desk', hcalls, -⟩
  have hmem : (Call.receipt output_receipt, sight) ∈
      (Call.transition "verified", sees none) :: appliedCalls := by
    rw [hcalls]
    exact List.mem_append_right _ List.mem_cons_self
  simp [appliedCalls, approvedCalls] at hmem

end Samples

end jvc.guard
