import Jvc.Policy.Manifest
import Jvc.Policy.Respelling

open json (Value)
open program

namespace jvc.prewrite

open authority (PyStr CodePoint characters)
open contracts (Json lit field member filled_str isSpacePoint)
open guard (Failure Lifecycle LIFECYCLE_STATES VALID_TRANSITIONS SCHEMA_VERSION check_output_path
  normalize_intents)

section Runs

variable {Bytes : Type} {i : Pid} {w u : World Bytes} {p : Path}

/-- `p.exists()` -/
def present (w : World Bytes) (p : Path) : Bool := decide (p ∈ w.dirs) || (w.lookup p).isSome

theorem run_os {α : Type} (q : Jvc Bytes α) : (os q).run (machine Bytes) i w =
    ((q.run (machine Bytes) i w).1.mapError .other, (q.run (machine Bytes) i w).2) := by
  induction q generalizing w with
  | ret a => rfl
  | fail e => rfl
  | act op k ih => exact ih _

theorem run_exists_path : (os (exists_path p)).run (machine Bytes) i w = (.ok (present w p), w) := by
  have hdir : (is_dir p).run (machine Bytes) i w = (.ok (decide (p ∈ w.dirs)), w) := rfl
  rw [run_os, exists_path, Prog.run_seq _ _ hdir, present]
  cases decide (p ∈ w.dirs) with
  | true => rfl
  | false => rfl

theorem run_is_file :
    (os (is_file p)).run (machine Bytes) i w = (.ok (w.lookup p).isSome, w) := rfl

theorem run_read_bytes {data : Bytes} (h : w.lookup p = some data) :
    (os (read_bytes p)).run (machine Bytes) i w = (.ok data, w) := by
  rw [run_os]
  simp [read_bytes, machine, World.step, h, Except.mapError]

theorem read_bytes_ok {data : Bytes}
    (h : (os (read_bytes p)).run (machine Bytes) i w = (.ok data, u)) :
    w.lookup p = some data ∧ u = w := by
  rw [run_os] at h
  cases hfound : w.lookup p with
  | none =>
    simp [read_bytes, machine, World.step, hfound, Except.mapError] at h
  | some found =>
    simp [read_bytes, machine, World.step, hfound, Except.mapError] at h
    exact ⟨by rw [h.1], h.2.symm⟩

theorem ofExcept_ok {α : Type} {r : Except Failure α} {a : α}
    (h : (Prog.ofExcept r : Guarded Bytes α).run (machine Bytes) i w = (.ok a, u)) :
    r = .ok a ∧ u = w := by
  cases r with
  | error failure => cases h
  | ok b =>
    cases h
    exact ⟨rfl, rfl⟩

variable [Text] [Host Bytes] [Artifacts Bytes]

/-- The manifest that is at a path. -/
def Holds (w : World Bytes) (p : Path) (manifest : Json) : Prop :=
  ∃ data, w.lookup p = some data ∧ Artifacts.loads data = .ok manifest ∧ manifest.isDict = true

theorem run_read_json [Texts] {manifest : Json} (h : Holds w p manifest) :
    (read_json p).run (machine Bytes) i w = (.ok manifest, w) := by
  obtain ⟨data, hdata, hloads, hdict⟩ := h
  refine (@Prog.run_seq _ _ _ _ _ _ _ (machine Bytes) i _ _ w w data ?_).trans ?_
  · simp [machine, World.step, hdata]
  · rw [hloads]
    dsimp only
    rw [if_pos hdict]
    rfl

theorem read_json_ok [Texts] {manifest : Json}
    (h : (read_json p).run (machine Bytes) i w = (.ok manifest, u)) :
    Holds w p manifest ∧ u = w := by
  obtain ⟨data, v, hread, hrest⟩ := Prog.run_seq_ok _ _ h
  cases hdata : w.lookup p with
  | none => simp [machine, World.step, hdata] at hread
  | some found =>
    simp only [machine, World.step, hdata, Prog.run_act, Prog.run_ret, Prod.mk.injEq,
      Except.ok.injEq] at hread
    obtain ⟨rfl, rfl⟩ := hread
    cases hloads : Artifacts.loads found with
    | error err =>
      rw [hloads] at hrest
      cases hrest
    | ok value =>
      rw [hloads] at hrest
      dsimp only at hrest
      split at hrest
      · rename_i hdict
        cases hrest
        exact ⟨⟨found, hdata, hloads, hdict⟩, rfl⟩
      · cases hrest

theorem Holds.unique {m m' : Json} (h : Holds w p m) (h' : Holds w p m') : m = m' := by
  obtain ⟨data, hdata, hloads, -⟩ := h
  obtain ⟨data', hdata', hloads', -⟩ := h'
  rw [hdata] at hdata'
  cases hdata'
  rw [hloads] at hloads'
  exact Except.ok.inj hloads'

theorem write_new_json_ok {value : Json}
    (h : (write_new_json p value).run (machine Bytes) i w = (.ok (), u)) :
    present w p = false ∧ ∃ data, Artifacts.dumps value = some data ∧ u = w.write i p data none := by
  obtain ⟨occupied, v, hexists, hrest⟩ := Prog.run_seq_ok _ _ h
  rw [run_exists_path] at hexists
  cases hexists
  split at hrest
  · cases hrest
  · rename_i hfree
    refine ⟨Bool.eq_false_iff.mpr hfree, ?_⟩
    cases hdumps : (Artifacts.dumps value : Option Bytes) with
    | none =>
      rw [hdumps] at hrest
      cases hrest
    | some data =>
      rw [hdumps] at hrest
      cases hrest
      exact ⟨data, rfl, rfl⟩

theorem run_write_new_json {value : Json} {data : Bytes} (hfree : present w p = false)
    (hdumps : Artifacts.dumps value = some data) :
    (write_new_json p value).run (machine Bytes) i w = (.ok (), w.write i p data none) := by
  unfold write_new_json
  rw [Prog.run_seq _ _ run_exists_path, hfree, if_neg Bool.false_ne_true, hdumps]
  rfl

variable [DecidableEq Bytes]

theorem rewrite_manifest_ok {before : Bytes} {manifest : Json}
    (h : (rewrite_manifest p before manifest).run (machine Bytes) i w = (.ok (), u)) :
    ∃ data, Artifacts.canonical_json manifest = some data ∧ u = w.write i p data none := by
  obtain ⟨current, v, hread, hrest⟩ := Prog.run_seq_ok _ _ h
  obtain ⟨-, rfl⟩ := read_bytes_ok hread
  split at hrest
  · cases hrest
  · cases hencoded : (Artifacts.canonical_json manifest : Option Bytes) with
    | none =>
      rw [hencoded] at hrest
      cases hrest
    | some expected =>
      rw [hencoded] at hrest
      obtain ⟨_, v', hwrite, hrest⟩ := Prog.run_seq_ok _ _ hrest
      cases hwrite
      obtain ⟨after, v'', hafter, hrest⟩ := Prog.run_seq_ok _ _ hrest
      obtain ⟨-, rfl⟩ := read_bytes_ok hafter
      split at hrest
      · cases hrest
      · cases hrest
        exact ⟨expected, rfl, rfl⟩

theorem run_rewrite_manifest {before data : Bytes} {manifest : Json} (hbefore : w.lookup p = some before)
    (hencoded : Artifacts.canonical_json manifest = some data) :
    (rewrite_manifest p before manifest).run (machine Bytes) i w =
      (.ok (), w.write i p data none) := by
  have hafter : (w.write i p data none).lookup p = some data := by
    rw [World.lookup_write, if_pos rfl]
  unfold rewrite_manifest
  rw [Prog.run_seq _ _ (run_read_bytes hbefore), if_neg (not_not.mpr rfl), hencoded]
  dsimp only
  have hwrite : (os (write_bytes p data)).run (machine Bytes) i w =
      (.ok (), w.write i p data none) := rfl
  rw [Prog.run_seq (machine Bytes) i hwrite, Prog.run_seq _ _ (run_read_bytes hafter),
    if_neg (not_not.mpr rfl)]
  rfl

end Runs

section Capture

variable {Bytes : Type} [Text] [Texts] [Host Bytes] [Artifacts Bytes]

/-- An entry that was captured for a path: nothing is bound in it yet. -/
structure Captured (root : Path) (p : String) (entry : Json) : Prop where
  canonical : ∃ t c, policy.canonical_target root p = .ok (t, c) ∧ field "path" entry = .str (lit c)
  dict : entry.isDict = true
  preimage : Preimage entry
  expected : field "expected_sha256" entry = .null

omit [Texts] in
theorem captured_absent {root p c : String} {t : Path} (captured_at : String)
    (h : policy.canonical_target root p = .ok (t, c)) :
    Captured root p (.ofFields [(lit "path", .str (lit c)),
      (lit "expected_state", .str (lit "absent")), (lit "captured_at", .str (lit captured_at))]) where
  canonical := ⟨t, c, h, by simp [field, Value.get, Value.find_ofFields, Value.lookup_cons, lit_inj]⟩
  dict := rfl
  preimage := .inr ⟨by simp [field, Value.get, Value.find_ofFields, Value.lookup_cons, lit_inj], by simp [Value.find_ofFields, Value.lookup_cons, lit_inj],
    by simp [Value.find_ofFields, Value.lookup_cons, lit_inj]⟩
  expected := by simp [field, Value.get, Value.find_ofFields, Value.lookup_cons, lit_inj]

omit [Texts] in
theorem captured_present {root p c : String} {t : Path} (data : Bytes) (captured_at : String)
    (h : policy.canonical_target root p = .ok (t, c)) :
    Captured root p (.ofFields [(lit "path", .str (lit c)), (lit "expected_state", .str (lit "present")),
      (lit "sha256", .str (lit (sha256_bytes data))), (lit "byte_length", .int (Host.size data)),
      (lit "captured_at", .str (lit captured_at))]) where
  canonical := ⟨t, c, h, by simp [field, Value.get, Value.find_ofFields, Value.lookup_cons, lit_inj]⟩
  dict := rfl
  preimage := by
    refine .inl ⟨?_, ?_, ?_⟩
    · simp [field, Value.get, Value.find_ofFields, Value.lookup_cons, lit_inj]
    · simp [field, Value.get, Value.find_ofFields, Value.lookup_cons, lit_inj, is_hash, Value.str?,
        Artifacts.length_sha256]
    · simp [field, Value.get, Value.find_ofFields, Value.lookup_cons, lit_inj, Value.int?]
  expected := by simp [field, Value.get, Value.find_ofFields, Value.lookup_cons, lit_inj]

omit [Text] [Texts] [Host Bytes] [Artifacts Bytes] in
theorem within_any {α : Type} (q : Guarded Bytes α) : q.Within (fun _ => True) fun _ => True := by
  induction q with
  | ret a => exact .ret trivial
  | fail failure => exact .fail failure
  | act op k ih => exact .act trivial ih

theorem capture_entry_returns (root : Path) (p : String) :
    (capture_entry root p : Guarded Bytes Json).Within (fun _ => True) (Captured root p) := by
  cases htarget : policy.canonical_target root p with
  | error err =>
    unfold capture_entry
    rw [htarget]
    exact .fail _
  | ok found =>
    obtain ⟨target, canonical_rel⟩ := found
    unfold capture_entry
    rw [htarget]
    refine Prog.Within.seq (Q := fun r => r = (target, canonical_rel)) (.ret rfl) fun found hfound => ?_
    rw [hfound]
    dsimp only
    split
    · exact .fail _
    refine Prog.Within.seq (within_any _) fun captured_at _ => ?_
    refine Prog.Within.seq (within_any _) fun present _ => ?_
    split
    · exact .ret (captured_absent captured_at htarget)
    refine Prog.Within.seq (within_any _) fun file _ => ?_
    split
    · exact .fail _
    · exact Prog.Within.seq (within_any _) fun data _ =>
        .ret (captured_present data captured_at htarget)

theorem capture_entries_returns (root : Path) (paths : List String) :
    (capture_entries root paths : Guarded Bytes (List Json)).Within (fun _ => True)
      fun entries => List.Forall₂ (Captured root) paths entries := by
  induction paths with
  | nil => exact .ret .nil
  | cons p rest ih =>
    exact Prog.Within.seq (capture_entry_returns root p) fun entry hentry =>
      Prog.Within.seq ih fun entries hentries => .ret (.cons hentry hentries)

/-- The manifest at the path is one that `_validate_entries` accepts. -/
def Accepted (root : Path) (p : Path) (w : World Bytes) : Prop :=
  ∃ manifest entries, Holds w p manifest ∧ validate_entries root manifest = .ok entries

theorem accepted_iff {root p : Path} {w : World Bytes} {manifest : Json} (h : Holds w p manifest) :
    Accepted root p w ↔ ∃ entries, WellFormed root manifest entries := by
  constructor
  · rintro ⟨manifest', entries, hholds, hvalid⟩
    rw [h.unique hholds]
    exact ⟨entries, validate_entries_ok.mp hvalid⟩
  · rintro ⟨entries, hformed⟩
    exact ⟨manifest, entries, h, validate_entries_ok.mpr hformed⟩

/-- What a path is captured under, spelled again. -/
def Again (root : Path) (p c : String) : Prop :=
  ∃ t s t', policy.canonical_target root p = .ok (t, s) ∧ policy.canonical_target root s = .ok (t', c) ∧
    policy.is_secret_path c = false ∧ policy.is_control_plane_path c = false

/-- There are paths, and what they are captured under is accepted again, as different paths
that are not protected. -/
def Capturable (root : Path) (paths : List String) : Prop :=
  paths ≠ [] ∧ ∃ cs, List.Forall₂ (Again root) paths cs ∧ cs.Nodup

omit [Texts] in
theorem filled_of_canonical {root c c' : String} {t : Path}
    (h : policy.canonical_target root c = .ok (t, c')) (hback : '\\' ∉ c.toList) :
    filled_str (.str (lit c)) = true := by
  have hne := (policy.canonical_target_ok.mp h).1.nonempty
  rw [policy.stripped_of_plain hback, strip, String.toList_ofList] at hne
  rw [filled_str, Value.str?, Option.any_some, Bool.not_eq_true', Bool.eq_false_iff]
  intro hall
  have hspaces : ∀ ch ∈ c.toList, isSpace ch = true := by
    intro ch hch
    exact List.all_eq_true.mp hall (.scalar ch) (List.mem_map.mpr ⟨ch, hch, rfl⟩)
  rw [List.dropWhile_eq_nil_iff.mpr hspaces] at hne
  exact hne rfl

theorem target_lit {root c : String} : target root (lit c) =
    (policy.canonical_target root c).map fun found => (found.1, lit found.2) := by
  rw [target, characters_lit]
  dsimp only
  rw [String.ofList_toList]

theorem secret_lit (c : String) : secret (lit c) = policy.is_secret_path c := by
  rw [secret, characters_lit]
  dsimp only
  rw [String.ofList_toList]

theorem control_lit (c : String) : control (lit c) = policy.is_control_plane_path c := by
  rw [control, characters_lit]
  dsimp only
  rw [String.ofList_toList]

/-- The validator's verdict on a captured entry. -/
theorem checked_captured {root p : String} {entry : Json} (h : Captured root p entry) {c : PyStr} :
    Checked root entry c ↔ ∃ s, Again root p s ∧ c = lit s := by
  obtain ⟨t, s, hcanonical, hpath⟩ := h.canonical
  constructor
  · rintro ⟨-, ⟨raw, t', hraw, -, htarget⟩, ⟨hsecret, hcontrol⟩, -, -⟩
    rw [hpath] at hraw
    cases hraw
    rw [target_lit] at htarget
    cases hagain : policy.canonical_target root s with
    | error err =>
      rw [hagain] at htarget
      cases htarget
    | ok found =>
      rw [hagain] at htarget
      cases htarget
      rw [secret_lit] at hsecret
      rw [control_lit] at hcontrol
      exact ⟨found.2, ⟨t, s, found.1, hcanonical, hagain, hsecret, hcontrol⟩, rfl⟩
  · rintro ⟨c', ⟨t₀, s₀, t', hcanonical', hagain, hsecret, hcontrol⟩, rfl⟩
    rw [hcanonical] at hcanonical'
    cases hcanonical'
    obtain ⟨parts, hparts⟩ := policy.canonical_target_parts hcanonical
    have hback : '\\' ∉ s.toList := fun hmem => (hparts.chars _ hmem).1 rfl
    refine ⟨h.dict, ⟨lit s, t', hpath, filled_of_canonical hagain hback, ?_⟩, ⟨?_, ?_⟩, h.preimage,
      .inl h.expected⟩
    · rw [target_lit, hagain]
      rfl
    · rw [secret_lit, hsecret]
    · rw [control_lit, hcontrol]

theorem checked_all_captured {root : Path} {paths : List String} {entries : List Json}
    (h : List.Forall₂ (Captured root) paths entries) {cs : List PyStr} :
    List.Forall₂ (Checked root) entries cs ↔
      ∃ names, List.Forall₂ (Again root) paths names ∧ cs = names.map lit := by
  induction h generalizing cs with
  | nil =>
    constructor
    · intro h
      cases h
      exact ⟨[], .nil, rfl⟩
    · rintro ⟨names, hnames, rfl⟩
      cases hnames
      exact .nil
  | cons hentry hrest ih =>
    constructor
    · intro h
      cases h with
      | cons hchecked hchecks =>
        obtain ⟨name, hagain, rfl⟩ := (checked_captured hentry).mp hchecked
        obtain ⟨names, hnames, rfl⟩ := ih.mp hchecks
        exact ⟨name :: names, .cons hagain hnames, rfl⟩
    · rintro ⟨names, hnames, rfl⟩
      cases hnames with
      | cons hagain hnames =>
        exact .cons ((checked_captured hentry).mpr ⟨_, hagain, rfl⟩) (ih.mpr ⟨_, hnames, rfl⟩)

omit [Text] [Texts] in
/-- A manifest that is proposed has nothing to bind yet. -/
theorem intentBound_of_proposed {manifest : Json} {entries : List Json}
    (h : field "lifecycle_state" manifest = .str (lit "proposed")) : IntentBound manifest entries := by
  intro _
  rw [h]
  refine ⟨rfl, fun hunder => ?_⟩
  simp [UnderWay, lit_inj] at hunder

omit [Texts] in
theorem Holds.write {w : World Bytes} {p : Path} {i : Pid} {manifest : Json} {data : Bytes}
    (hloads : Artifacts.loads data = .ok manifest) (hdict : manifest.isDict = true) :
    Holds (w.write i p data none) p manifest :=
  ⟨data, by rw [World.lookup_write, if_pos rfl], hloads, hdict⟩

omit [Text] [Texts] in
theorem captured_manifest_entries (manifest_id captured_at : String) (entries : List Json) :
    field "entries" (captured_manifest manifest_id captured_at entries) = .list entries := by
  simp [captured_manifest, field, Value.get, Value.find_ofFields]

omit [Text] [Texts] in
theorem captured_manifest_state (manifest_id captured_at : String) (entries : List Json) :
    field "lifecycle_state" (captured_manifest manifest_id captured_at entries) =
      .str (lit "proposed") := by
  simp [captured_manifest, field, Value.get, Value.find_ofFields, Value.lookup_cons, lit_inj]

omit [Text] [Texts] in
theorem captured_manifest_version (manifest_id captured_at : String) (entries : List Json) :
    field "schema_version" (captured_manifest manifest_id captured_at entries) =
      .int SCHEMA_VERSION := by
  simp [captured_manifest, field, Value.get, Value.find_ofFields, Value.lookup_cons, lit_inj]

/-- A captured manifest is accepted exactly where its paths can be captured. -/
theorem capture_accepted {root p : Path} {paths : List String} {i : Pid} {w u : World Bytes}
    {manifest : Json} (h : (capture root paths p).run (machine Bytes) i w = (.ok manifest, u)) :
    Accepted root p u ↔ Capturable root paths := by
  unfold capture at h
  obtain ⟨_, w₁, -, h⟩ := Prog.run_seq_ok _ _ h
  obtain ⟨entries, w₂, hentries, h⟩ := Prog.run_seq_ok _ _ h
  obtain ⟨id_bytes, w₃, -, h⟩ := Prog.run_seq_ok _ _ h
  obtain ⟨captured_at, w₄, -, h⟩ := Prog.run_seq_ok _ _ h
  obtain ⟨_, w₅, hwrite, h⟩ := Prog.run_seq_ok _ _ h
  obtain ⟨-, data, hdumps, rfl⟩ := write_new_json_ok hwrite
  cases h
  have hcaptured := (capture_entries_returns root paths).returned hentries
  have hholds := Holds.write (w := w₄) (p := p) (i := i) (Artifacts.loads_dumps _ _ hdumps) rfl
  rw [accepted_iff hholds]
  constructor
  · rintro ⟨entries', hformed⟩
    have hsame := (captured_manifest_entries _ _ entries).symm.trans hformed.listed
    cases hsame
    obtain ⟨cs, hchecked, hnodup⟩ := hformed.checked
    obtain ⟨names, hnames, rfl⟩ := (checked_all_captured hcaptured).mp hchecked
    refine ⟨?_, names, hnames, hnodup.of_map⟩
    rintro rfl
    cases hcaptured
    exact hformed.nonempty rfl
  · rintro ⟨hne, names, hnames, hnodup⟩
    refine ⟨entries, by rw [captured_manifest_version]; rfl, captured_manifest_entries _ _ entries, ?_, ?_,
      intentBound_of_proposed (captured_manifest_state _ _ entries)⟩
    · rintro rfl
      cases hcaptured
      exact hne rfl
    · exact ⟨names.map lit, (checked_all_captured hcaptured).mpr ⟨names, hnames, rfl⟩,
        hnodup.map fun s t => lit_inj.mp⟩

end Capture

section Setting

theorem field_set {value : Json} (h : value.isDict = true) (key k : String) (x : Json) :
    field k (value.set (lit key) x) = if k = key then x else field k value := by
  rw [field, Value.get_set_dict h]
  simp only [lit_inj]
  rfl

theorem find_set {value : Json} (h : value.isDict = true) (key k : String) (x : Json) :
    (value.set (lit key) x).find (lit k) = if k = key then some x else value.find (lit k) := by
  rw [Value.find_set_dict h]
  simp only [lit_inj]

end Setting

section Binding

variable [Text] [Texts] {root : Path}

/-- The last of the hashes that are given for a path. -/
def Given (root : Path) (expected_hashes : List (String × String)) (c v : String) : Prop :=
  ∃ front k back t, expected_hashes = front ++ (k, v) :: back ∧
    policy.canonical_target root k = .ok (t, c) ∧
      ∀ kv ∈ back, ∀ t', policy.canonical_target root kv.1 ≠ .ok (t', c)

omit [Texts] in
theorem given_cons {k v c x : String} {t : Path} {rest : List (String × String)} {ck : String}
    (hk : policy.canonical_target root k = .ok (t, ck)) : Given root ((k, v) :: rest) c x ↔
      Given root rest c x ∨
        (∀ kv ∈ rest, ∀ t', policy.canonical_target root kv.1 ≠ .ok (t', c)) ∧ ck = c ∧ v = x := by
  constructor
  · rintro ⟨front, k', back, t', heq, hk', hback⟩
    cases front with
    | nil =>
      cases heq
      rw [hk] at hk'
      cases hk'
      exact .inr ⟨hback, rfl, rfl⟩
    | cons kv front =>
      cases heq
      exact .inl ⟨front, k', back, t', rfl, hk', hback⟩
  · rintro (⟨front, k', back, t', rfl, hk', hback⟩ | ⟨hback, rfl, rfl⟩)
    · exact ⟨(k, v) :: front, k', back, t', rfl, hk', hback⟩
    · exact ⟨[], k, rest, t, rfl, hk, hback⟩

omit [Texts] in
/-- Later hashes for a path take the place of earlier ones. -/
theorem lookup_normalized {expected_hashes intents acc : List (String × String)} {c x : String}
    (h : normalize_intents root acc expected_hashes = .ok intents) : intents.lookup c = some x ↔
      (∃ v, Given root expected_hashes c v ∧ Text.upper v = x) ∨
        (∀ kv ∈ expected_hashes, ∀ t, policy.canonical_target root kv.1 ≠ .ok (t, c)) ∧
          acc.lookup c = some x := by
  induction expected_hashes generalizing acc with
  | nil =>
    cases h
    constructor
    · intro h
      exact .inr ⟨fun kv hkv => absurd hkv List.not_mem_nil, h⟩
    · rintro (⟨v, ⟨front, k, back, t, heq, -⟩, -⟩ | ⟨-, h⟩)
      · cases front <;> cases heq
      · exact h
  | cons kv rest ih =>
    obtain ⟨k, v⟩ := kv
    rw [normalize_intents] at h
    cases hk : policy.canonical_target root k with
    | error err =>
      rw [hk] at h
      cases h
    | ok found =>
      obtain ⟨t, ck⟩ := found
      rw [hk] at h
      rw [ih h]
      by_cases hc : c = ck
      · subst hc
        rw [List.lookup_cons_self, Option.some.injEq]
        constructor
        · rintro (⟨v', hgiven, hupper⟩ | ⟨hrest, hupper⟩)
          · exact .inl ⟨v', (given_cons hk).mpr (.inl hgiven), hupper⟩
          · exact .inl ⟨v, (given_cons hk).mpr (.inr ⟨hrest, rfl, rfl⟩), hupper⟩
        · rintro (⟨v', hgiven, hupper⟩ | ⟨hnone, -⟩)
          · obtain hgiven | ⟨hrest, -, rfl⟩ := (given_cons hk).mp hgiven
            · exact .inl ⟨v', hgiven, hupper⟩
            · exact .inr ⟨hrest, hupper⟩
          · exact absurd hk (hnone (k, v) List.mem_cons_self t)
      · have hlookup : ((ck, Text.upper v) :: acc).lookup c = acc.lookup c := by
          rw [List.lookup_cons, beq_eq_false_iff_ne.mpr hc]
        have hother : ∀ t', policy.canonical_target root k ≠ .ok (t', c) := by
          intro t' h'
          rw [hk] at h'
          cases h'
          exact hc rfl
        rw [hlookup]
        constructor
        · rintro (⟨v', hgiven, hupper⟩ | ⟨hrest, hacc⟩)
          · exact .inl ⟨v', (given_cons hk).mpr (.inl hgiven), hupper⟩
          · refine .inr ⟨fun kv hkv => ?_, hacc⟩
            rcases List.mem_cons.mp hkv with rfl | hkv
            · exact hother
            · exact hrest kv hkv
        · rintro (⟨v', hgiven, hupper⟩ | ⟨hnone, hacc⟩)
          · obtain hgiven | ⟨-, rfl, -⟩ := (given_cons hk).mp hgiven
            · exact .inl ⟨v', hgiven, hupper⟩
            · exact absurd rfl hc
          · exact .inr ⟨fun kv hkv => hnone kv (List.mem_cons_of_mem _ hkv), hacc⟩

/-- What a bound manifest is checked for again. -/
theorem checked_bound {entry : Json} {normalized_intents : List (PyStr × PyStr)} {c path v : PyStr}
    (hdict : entry.isDict = true) (hpath : field "path" entry = .str path)
    (hbound : normalized_intents.lookup path = some v) (h : Checked root entry c) {d : PyStr} :
    Checked root (bind_entry normalized_intents entry) d ↔ d = c ∧ v.length = 64 := by
  have hset : bind_entry normalized_intents entry = entry.set (lit "expected_sha256") (.str v) := by
    rw [bind_entry, hpath, Value.str?, Option.bind_some, hbound]
  have hfield : ∀ k, k ≠ "expected_sha256" →
      field k (bind_entry normalized_intents entry) = field k entry := by
    intro k hk
    rw [hset, field_set hdict, if_neg hk]
  have hfind : ∀ k, k ≠ "expected_sha256" →
      (bind_entry normalized_intents entry).find (lit k) = entry.find (lit k) := by
    intro k hk
    rw [hset, find_set hdict, if_neg hk]
  have hexpected : field "expected_sha256" (bind_entry normalized_intents entry) = .str v := by
    rw [hset, field_set hdict, if_pos rfl]
  have hhash : is_hash (.str v) = true ↔ v.length = 64 := by
    rw [is_hash, Value.str?, Option.any_some, beq_iff_eq]
  obtain ⟨raw, t, hraw, hfilled, htarget⟩ := h.path
  constructor
  · rintro ⟨-, ⟨raw', t', hraw', -, htarget'⟩, -, -, hnull | hv⟩
    · rw [hexpected] at hnull
      cases hnull
    · rw [hfield _ (by decide), hraw] at hraw'
      cases hraw'
      rw [htarget] at htarget'
      cases htarget'
      rw [hexpected] at hv
      exact ⟨rfl, hhash.mp hv⟩
  · rintro ⟨rfl, hv⟩
    refine ⟨?_, ⟨raw, t, ?_, hfilled, htarget⟩, h.plain, ?_, .inr ?_⟩
    · rw [hset, Value.isDict_set, hdict]
    · rw [hfield _ (by decide), hraw]
    · rw [Preimage, hfield _ (by decide), hfield _ (by decide), hfield _ (by decide),
        hfind _ (by decide), hfind _ (by decide)]
      exact h.preimage
    · rw [hexpected]
      exact hhash.mpr hv

theorem checked_all_bound {entries : List Json} {normalized_intents : List (PyStr × PyStr)}
    {cs : List PyStr} (h : List.Forall₂ (Checked root) entries cs)
    (hbound : ∀ entry ∈ entries, ∀ path, field "path" entry = .str path →
      ∃ v, normalized_intents.lookup path = some v) (ds : List PyStr) :
    List.Forall₂ (Checked root) (entries.map (bind_entry normalized_intents)) ds ↔
      ds = cs ∧ ∀ entry ∈ entries, ∀ path v, field "path" entry = .str path →
        normalized_intents.lookup path = some v → v.length = 64 := by
  induction h generalizing ds with
  | nil =>
    rw [List.map_nil, List.forall₂_nil_left_iff]
    exact ⟨fun h => ⟨h, fun entry hentry => absurd hentry List.not_mem_nil⟩, fun h => h.1⟩
  | @cons entry c entries cs hentry hrest ih =>
    obtain ⟨path, t, hpath, -⟩ := hentry.path
    obtain ⟨v, hv⟩ := hbound entry List.mem_cons_self path hpath
    have hchecked := fun {d : PyStr} => checked_bound hentry.dict hpath hv hentry (d := d)
    have hchecks := fun {ds : List PyStr} =>
      ih (fun e he => hbound e (List.mem_cons_of_mem _ he)) ds
    constructor
    · intro h
      cases h with
      | cons hfirst hothers =>
        obtain ⟨rfl, hlength⟩ := hchecked.mp hfirst
        obtain ⟨rfl, hlengths⟩ := hchecks.mp hothers
        refine ⟨rfl, fun e he path' v' hpath' hv' => ?_⟩
        rcases List.mem_cons.mp he with rfl | he
        · rw [hpath] at hpath'
          cases hpath'
          rw [hv] at hv'
          cases hv'
          exact hlength
        · exact hlengths e he path' v' hpath' hv'
    · rintro ⟨rfl, hlengths⟩
      refine .cons (hchecked.mpr ⟨rfl, hlengths entry List.mem_cons_self path v hpath hv⟩)
        (hchecks.mpr ⟨rfl, fun e he => hlengths e (List.mem_cons_of_mem _ he)⟩)

omit [Text] [Texts] in
theorem lookup_lit {intents : List (String × String)} {path v : PyStr} :
    (intents.map fun (c_rel, v) => (lit c_rel, lit v)).lookup path = some v ↔
      ∃ c x, path = lit c ∧ v = lit x ∧ intents.lookup c = some x := by
  induction intents with
  | nil => simp
  | cons kv rest ih =>
    obtain ⟨k, y⟩ := kv
    rw [List.map_cons, List.lookup_cons]
    by_cases hk : path = lit k
    · rw [beq_iff_eq.mpr hk]
      constructor
      · intro h
        exact ⟨k, y, hk, (Option.some.inj h).symm, List.lookup_cons_self⟩
      · rintro ⟨c, x, hc, rfl, hx⟩
        rw [hk, lit_inj] at hc
        rw [← hc, List.lookup_cons_self] at hx
        cases hx
        rfl
    · rw [beq_eq_false_iff_ne.mpr hk]
      dsimp only
      rw [ih]
      constructor
      · rintro ⟨c, x, rfl, rfl, hx⟩
        refine ⟨c, x, rfl, rfl, ?_⟩
        rwa [List.lookup_cons, beq_eq_false_iff_ne.mpr fun h => hk (by rw [h])]
      · rintro ⟨c, x, rfl, rfl, hx⟩
        refine ⟨c, x, rfl, rfl, ?_⟩
        rwa [List.lookup_cons, beq_eq_false_iff_ne.mpr fun h => hk (by rw [h])] at hx

omit [Text] [Texts] in
theorem lookup_isSome {intents : List (PyStr × PyStr)} {path : PyStr}
    (h : path ∈ intents.map Prod.fst) : ∃ v, intents.lookup path = some v := by
  induction intents with
  | nil => cases h
  | cons kv rest ih =>
    rw [List.lookup_cons]
    by_cases hk : path = kv.1
    · rw [beq_iff_eq.mpr hk]
      exact ⟨kv.2, rfl⟩
    · rw [beq_eq_false_iff_ne.mpr hk]
      exact ih ((List.mem_cons.mp h).resolve_left hk)

omit [Text] [Texts] in
theorem fst_mem_of_lookup {intents : List (PyStr × PyStr)} {path v : PyStr}
    (h : intents.lookup path = some v) : path ∈ intents.map Prod.fst := by
  induction intents with
  | nil => cases h
  | cons kv rest ih =>
    rw [List.lookup_cons] at h
    by_cases hk : path = kv.1
    · rw [hk]
      exact List.mem_cons_self
    · rw [beq_eq_false_iff_ne.mpr hk] at h
      exact List.mem_cons_of_mem _ (ih h)

variable {Bytes : Type} [Host Bytes] [Artifacts Bytes] [DecidableEq Bytes]

/-- A manifest that was bound is accepted exactly where the hashes that count have 64
characters in upper case. -/
theorem bind_intent_accepted {p : Path} {expected_hashes : List (String × String)} {i : Pid}
    {w u : World Bytes} {bound : Json}
    (h : (bind_intent root p expected_hashes).run (machine Bytes) i w = (.ok bound, u)) :
    Accepted root p u ↔ ∀ c v, Given root expected_hashes c v → (Text.upper v).length = 64 := by
  unfold bind_intent at h
  obtain ⟨before, w₁, hbefore, hread⟩ := Prog.run_seq_ok _ _ h
  obtain ⟨-, rfl⟩ := read_bytes_ok hbefore
  obtain ⟨manifest, w₂, hmanifest, hvalidate⟩ := Prog.run_seq_ok _ _ hread
  obtain ⟨hholds, rfl⟩ := read_json_ok hmanifest
  obtain ⟨entries, w₃, hentries, hbind⟩ := Prog.run_seq_ok _ _ hvalidate
  obtain ⟨hvalid, rfl⟩ := ofExcept_ok hentries
  split at hbind
  · cases hbind
  rename_i hstate
  obtain ⟨intents, w₄, hnormalized, hcompare⟩ := Prog.run_seq_ok _ _ hbind
  obtain ⟨hintents, rfl⟩ := ofExcept_ok hnormalized
  extract_lets normalized_intents entry_paths bound_manifest at hcompare
  split at hcompare
  · cases hcompare
  rename_i hpaths
  obtain ⟨_, w₅, hwrite, hret⟩ := Prog.run_seq_ok _ _ hcompare
  obtain ⟨data, hdata, rfl⟩ := rewrite_manifest_ok hwrite
  have hu := (Prod.mk.inj hret).2
  subst hu
  change Artifacts.canonical_json (bind_manifest normalized_intents manifest entries) = some data at hdata
  rw [Bool.not_eq_true', Bool.not_eq_false, Bool.and_eq_true, decide_eq_true_eq,
    decide_eq_true_eq] at hpaths
  rw [Bool.not_eq_true', Bool.not_eq_false, Value.equalsStr_iff] at hstate
  have hdict : manifest.isDict = true := by
    obtain ⟨_, -, -, hdict⟩ := hholds
    exact hdict
  have hbound : (bind_manifest normalized_intents manifest entries).isDict = true := by
    rw [bind_manifest, Value.isDict_set, Value.isDict_set, hdict]
  have hfield : ∀ k, k ≠ "entries" → k ≠ "intent_state" →
      field k (bind_manifest normalized_intents manifest entries) = field k manifest := by
    intro k hlist hintent
    rw [bind_manifest, field_set (by rw [Value.isDict_set, hdict]), if_neg hintent, field_set hdict,
      if_neg hlist]
  have hlisted : field "entries" (bind_manifest normalized_intents manifest entries) =
      .list (entries.map (bind_entry normalized_intents)) := by
    rw [bind_manifest, field_set (by rw [Value.isDict_set, hdict]), if_neg (by decide),
      field_set hdict, if_pos rfl]
  have hformed := validate_entries_ok.mp hvalid
  have hpath : ∀ {path : PyStr}, path ∈ entry_paths ↔
      ∃ entry ∈ entries, field "path" entry = .str path := by
    intro path
    simp only [entry_paths, List.mem_filterMap, Value.str?_eq_some]
  obtain ⟨cs, hchecked, hnodup⟩ := hformed.checked
  have hall := fun {ds : List PyStr} => checked_all_bound hchecked
    (fun entry hentry path hentry_path =>
      lookup_isSome (hpaths.2 (hpath.mpr ⟨entry, hentry, hentry_path⟩))) ds
  have hgiven : (∀ entry ∈ entries, ∀ path v, field "path" entry = .str path →
      normalized_intents.lookup path = some v → v.length = 64) ↔
        ∀ c v, Given root expected_hashes c v → (Text.upper v).length = 64 := by
    have hlookup : ∀ {c x : String}, intents.lookup c = some x ↔
        ∃ v, Given root expected_hashes c v ∧ Text.upper v = x := by
      intro c x
      rw [lookup_normalized hintents]
      simp
    constructor
    · intro hlengths c v hgiven
      have hfound := lookup_lit.mpr ⟨c, _, rfl, rfl, hlookup.mpr ⟨v, hgiven, rfl⟩⟩
      have hmem := fst_mem_of_lookup hfound
      obtain ⟨entry, hentry, hentry_path⟩ := hpath.mp (hpaths.1 hmem)
      have hlength := hlengths entry hentry _ _ hentry_path hfound
      rwa [length_lit] at hlength
    · intro hlengths entry hentry path v hentry_path hfound
      obtain ⟨c, x, rfl, rfl, hx⟩ := lookup_lit.mp hfound
      obtain ⟨v, hgiven, rfl⟩ := hlookup.mp hx
      rw [length_lit]
      exact hlengths c v hgiven
  rw [accepted_iff (Holds.write (Artifacts.loads_canonical_json _ _ hdata) hbound), ← hgiven]
  constructor
  · rintro ⟨entries', hformed'⟩
    obtain ⟨ds, hchecked', -⟩ := hformed'.checked
    have hsame := hlisted.symm.trans hformed'.listed
    cases hsame
    exact (hall.mp hchecked').2
  · intro hlengths
    refine ⟨entries.map (bind_entry normalized_intents), ?_, hlisted, ?_, ?_, ?_⟩
    · rw [hfield _ (by decide) (by decide)]
      have hversion := hformed.schema_version
      rwa [field_set (by rw [Value.isDict_set, hdict]), if_neg (by decide), field_set hdict,
        if_neg (by decide)] at hversion
    · exact fun hnil => hformed.nonempty (List.map_eq_nil_iff.mp hnil)
    · exact ⟨cs, hall.mpr ⟨rfl, hlengths⟩, hnodup⟩
    · exact intentBound_of_proposed (by rw [hfield _ (by decide) (by decide), hstate])

end Binding

section Entering

variable {manifest : Json} {state now : String}

theorem field_enter (hdict : manifest.isDict = true) {k : String} (hstate : k ≠ "lifecycle_state")
    (htime : k ≠ state ++ "_at") : field k (enter manifest state now) = field k manifest := by
  rw [enter, field_set (by rw [Value.isDict_set, hdict]), if_neg htime, field_set hdict,
    if_neg hstate]

theorem enter_state (hdict : manifest.isDict = true) (htime : "lifecycle_state" ≠ state ++ "_at") :
    field "lifecycle_state" (enter manifest state now) = .str (lit state) := by
  rw [enter, field_set (by rw [Value.isDict_set, hdict]), if_neg htime, field_set hdict, if_pos rfl]

variable [Text] [Texts] {root : Path} {entries : List Json}

/-- What a manifest that entered a state under way is checked for again. -/
theorem wellFormed_enter (hdict : manifest.isDict = true) (h : WellFormed root manifest entries)
    (hstate : state ∈ ["approved", "applied", "verified"]) (now : String) (entries' : List Json) :
    WellFormed root (enter manifest state now) entries' ↔ entries' = entries ∧
      (field "guard_mode" manifest = .str (lit "strict-write") →
        field "intent_state" manifest = .str (lit "bound") ∧
          ∀ entry ∈ entries, entry.find (lit "expected_sha256") ≠ none) := by
  have htime : state ++ "_at" ∉
      ["schema_version", "entries", "guard_mode", "intent_state", "lifecycle_state"] := by
    simp only [List.mem_cons, List.not_mem_nil, or_false] at hstate
    rcases hstate with rfl | rfl | rfl
    · decide
    · decide
    · decide
  have hplain : ∀ k ∈ ["schema_version", "entries", "guard_mode", "intent_state"],
      field k (enter manifest state now) = field k manifest := by
    intro k hk
    apply field_enter hdict
    · rintro rfl
      exact absurd hk (by decide)
    · rintro rfl
      exact htime (List.mem_append_left ["lifecycle_state"] hk)
  have henter : field "lifecycle_state" (enter manifest state now) = .str (lit state) :=
    enter_state hdict fun h => htime (by rw [← h]; decide)
  have hunder : UnderWay (.str (lit state)) := by
    simpa [UnderWay, lit_inj] using hstate
  constructor
  · intro h'
    have hlisted := h'.listed
    rw [hplain "entries" (by decide), h.listed] at hlisted
    cases hlisted
    refine ⟨rfl, fun hmode => ?_⟩
    have hintent := h'.intent
    rw [IntentBound, hplain "guard_mode" (by decide), hplain "intent_state" (by decide), henter] at hintent
    exact (hintent hmode).2 hunder
  · rintro ⟨rfl, hintent⟩
    refine ⟨?_, ?_, h.nonempty, h.checked, ?_⟩
    · rw [hplain "schema_version" (by decide)]
      exact h.schema_version
    · rw [hplain "entries" (by decide)]
      exact h.listed
    · rw [IntentBound, hplain "guard_mode" (by decide), hplain "intent_state" (by decide), henter]
      exact fun hmode => ⟨rfl, fun _ => hintent hmode⟩

end Entering

section Advancing

variable {Bytes : Type} [Text] [Texts] [Host Bytes] [Artifacts Bytes] {root p : Path} {i : Pid}
  {w u : World Bytes}

/-- A strict-write manifest that is only proposed has bound its intent, with every entry. -/
def Advanceable (p : Path) (w : World Bytes) : Prop :=
  ∀ manifest, Holds w p manifest → field "guard_mode" manifest = .str (lit "strict-write") →
    field "lifecycle_state" manifest = .str (lit "proposed") →
      field "intent_state" manifest = .str (lit "bound") ∧
        ∀ entries, field "entries" manifest = .list entries →
          ∀ entry ∈ entries, entry.find (lit "expected_sha256") ≠ none

omit [Text] [Texts] in
theorem valid_transitions_ok {current_state : Json} {allowed : List Lifecycle} {target : Lifecycle}
    (h : valid_transitions current_state = .ok allowed) (hmem : target ∈ allowed) :
    ∃ s : Lifecycle, current_state = .str (lit s.name) ∧ target ∈ VALID_TRANSITIONS s := by
  rw [valid_transitions] at h
  split at h
  · cases h
  · cases h
    cases hfind : LIFECYCLE_STATES.find? fun state => current_state.equalsStr (lit state.name) with
    | none =>
      rw [hfind] at hmem
      cases hmem
    | some s =>
      rw [hfind] at hmem
      have hname := List.find?_some hfind
      exact ⟨s, Value.equalsStr_iff.mp hname, hmem⟩

omit [Text] [Texts] in
/-- The state that is entered, and whether its intent was checked before. -/
theorem transition_states {s target : Lifecycle} (h : target ∈ VALID_TRANSITIONS s) :
    target.name ∈ ["approved", "applied", "verified"] ∧
      (s = .proposed ∨ UnderWay (.str (lit s.name))) := by
  cases s with
  | proposed =>
    rw [List.mem_singleton.mp h]
    exact ⟨by decide, .inl rfl⟩
  | approved =>
    rw [List.mem_singleton.mp h]
    exact ⟨by decide, .inr (.inl rfl)⟩
  | applied =>
    rw [List.mem_singleton.mp h]
    exact ⟨by decide, .inr (.inr (.inl rfl))⟩
  | verified => cases h

omit [Texts] in
theorem Holds.isDict {manifest : Json} (h : Holds w p manifest) : manifest.isDict = true := by
  obtain ⟨_, -, -, hdict⟩ := h
  exact hdict

/-- What is left of a run of `transition` that returned. -/
theorem transition_ok [DecidableEq Bytes] {target_state : String} {manifest' : Json}
    (h : (transition root p target_state).run (machine Bytes) i w = (.ok manifest', u)) :
    ∃ manifest entries s target now, Holds w p manifest ∧ WellFormed root manifest entries ∧
      field "lifecycle_state" manifest = .str (lit (Lifecycle.name s)) ∧ target ∈ VALID_TRANSITIONS s ∧
        Holds u p (enter manifest target.name now) := by
  unfold transition at h
  split at h
  · cases h
  rename_i target htarget
  have hfound := List.find?_some htarget
  have hname := beq_iff_eq.mp hfound
  obtain ⟨before, w₁, hbefore, hread⟩ := Prog.run_seq_ok _ _ h
  obtain ⟨-, rfl⟩ := read_bytes_ok hbefore
  obtain ⟨manifest, w₂, hmanifest, hvalidate⟩ := Prog.run_seq_ok _ _ hread
  obtain ⟨hholds, rfl⟩ := read_json_ok hmanifest
  obtain ⟨entries, w₃, hentries, hallowed⟩ := Prog.run_seq_ok _ _ hvalidate
  obtain ⟨hvalid, rfl⟩ := ofExcept_ok hentries
  obtain ⟨allowed, w₄, hlookup, hrest⟩ := Prog.run_seq_ok _ _ hallowed
  obtain ⟨hlooked, rfl⟩ := ofExcept_ok hlookup
  split at hrest
  · cases hrest
  rename_i hmem
  split at hrest
  · cases hrest
  obtain ⟨now, w₅, -, hrewrite⟩ := Prog.run_seq_ok _ _ hrest
  obtain ⟨_, w₆, hwrite, hret⟩ := Prog.run_seq_ok _ _ hrewrite
  obtain ⟨data, hdata, rfl⟩ := rewrite_manifest_ok hwrite
  have hu := (Prod.mk.inj hret).2
  subst hu
  cases htransitions : valid_transitions (field "lifecycle_state" manifest) with
  | error err =>
    rw [htransitions] at hlooked
    cases hlooked
  | ok allowed' =>
    rw [htransitions] at hlooked
    cases hlooked
    obtain ⟨s, hs, hstep⟩ := valid_transitions_ok htransitions (not_not.mp hmem)
    refine ⟨manifest, entries, s, target, now, hholds, validate_entries_ok.mp hvalid, hs, hstep, ?_⟩
    rw [hname]
    refine Holds.write (Artifacts.loads_canonical_json _ _ hdata) ?_
    rw [enter, Value.isDict_set, Value.isDict_set, hholds.isDict]

/-- A manifest that was advanced is accepted exactly where its intent was bound. -/
theorem transition_accepted [DecidableEq Bytes] {target_state : String} {manifest' : Json}
    (h : (transition root p target_state).run (machine Bytes) i w = (.ok manifest', u)) :
    Accepted root p u ↔ Advanceable p w := by
  obtain ⟨manifest, entries, s, target, now, hholds, hformed, hs, hstep, hleft⟩ := transition_ok h
  obtain ⟨hname, hbefore⟩ := transition_states hstep
  have hentered := fun {entries' : List Json} =>
    wellFormed_enter hholds.isDict hformed hname now entries'
  rw [accepted_iff hleft]
  constructor
  · rintro ⟨entries', hformed'⟩ manifest₀ hholds₀ hmode -
    rw [hholds₀.unique hholds] at hmode ⊢
    obtain ⟨hintent, hbound⟩ := (hentered.mp hformed').2 hmode
    refine ⟨hintent, fun entries₀ hlisted => ?_⟩
    rw [hformed.listed] at hlisted
    cases hlisted
    exact hbound
  · intro hadvance
    refine ⟨entries, hentered.mpr ⟨rfl, fun hmode => ?_⟩⟩
    obtain rfl | hunder := hbefore
    · obtain ⟨hintent, hbound⟩ := hadvance manifest hholds hmode hs
      exact ⟨hintent, hbound entries hformed.listed⟩
    · rw [← hs] at hunder
      exact (hformed.intent hmode).2 hunder

/-- What `receipt` has checked when it comes to its report. -/
structure Checks (root p output_receipt : Path) (i : Pid) (w : World Bytes) (examined : Examined Bytes)
    (entries : List Json) : Prop where
  permitted : check_output_path root output_receipt "receipt" = .ok ()
  free : present w output_receipt = false
  before : w.lookup p = some examined.before_manifest
  holds : Holds w p examined.manifest
  formed : WellFormed root examined.manifest entries
  applied : field "lifecycle_state" examined.manifest = .str (lit "applied")
  inspected : (inspect_entries root ((field "guard_mode" examined.manifest).equalsStr (lit "strict-write"))
    entries).run (machine Bytes) i w = (.ok examined.tally, w)

theorem examine_ok {output_receipt : Path} {examined : Examined Bytes}
    (h : (examine root p output_receipt).run (machine Bytes) i w = (.ok examined, u)) :
    u = w ∧ ∃ entries, Checks root p output_receipt i w examined entries := by
  unfold examine at h
  obtain ⟨_, w₁, hcheck, hexists⟩ := Prog.run_seq_ok _ _ h
  obtain ⟨hpath, rfl⟩ := ofExcept_ok hcheck
  obtain ⟨occupied, w₂, hoccupied, hrest⟩ := Prog.run_seq_ok _ _ hexists
  rw [run_exists_path] at hoccupied
  cases hoccupied
  split at hrest
  · cases hrest
  rename_i hfree
  obtain ⟨before, w₃, hbytes, hread⟩ := Prog.run_seq_ok _ _ hrest
  obtain ⟨hbefore, rfl⟩ := read_bytes_ok hbytes
  obtain ⟨manifest, w₄, hmanifest, hvalidate⟩ := Prog.run_seq_ok _ _ hread
  obtain ⟨hholds, rfl⟩ := read_json_ok hmanifest
  obtain ⟨entries, w₅, hentries, hstate⟩ := Prog.run_seq_ok _ _ hvalidate
  obtain ⟨hvalid, rfl⟩ := ofExcept_ok hentries
  split at hstate
  · cases hstate
  rename_i happlied
  obtain ⟨tally, w₆, hinspect, hret⟩ := Prog.run_seq_ok _ _ hstate
  have hsame := (reads_inspect_entries root
    ((field "guard_mode" manifest).equalsStr (lit "strict-write")) entries).run i w₅
  rw [hinspect] at hsame
  change w₆ = w₅ at hsame
  subst hsame
  cases hret
  rw [Bool.not_eq_true', Bool.not_eq_false, Value.equalsStr_iff] at happlied
  exact ⟨rfl, entries, hpath, Bool.eq_false_iff.mpr hfree, hbefore, hholds,
    validate_entries_ok.mp hvalid, happlied, hinspect⟩

/-- The manifest that a receipt leaves is accepted. -/
theorem receipt_accepted [DecidableEq Bytes] {output_receipt : Path} {report : Report}
    (h : (receipt root p output_receipt).run (machine Bytes) i w = (.ok report, u)) :
    Accepted root p u := by
  unfold receipt at h
  obtain ⟨⟨before, manifest, tally⟩, w₁, hexamine, hrest⟩ := Prog.run_seq_ok _ _ h
  obtain ⟨rfl, entries, hchecks⟩ := examine_ok hexamine
  dsimp only at hrest
  split at hrest
  · cases hrest
    exact (accepted_iff hchecks.holds).mpr ⟨entries, hchecks.formed⟩
  · obtain ⟨now, w₂, -, hnew⟩ := Prog.run_seq_ok _ _ hrest
    obtain ⟨_, w₃, -, hrewrite⟩ := Prog.run_seq_ok _ _ hnew
    obtain ⟨_, w₄, hwrite, hret⟩ := Prog.run_seq_ok _ _ hrewrite
    obtain ⟨data, hdata, rfl⟩ := rewrite_manifest_ok hwrite
    have hu := (Prod.mk.inj hret).2
    subst hu
    have hdict := hchecks.holds.isDict
    have hleft := Holds.write (w := w₃) (p := p) (i := i) (Artifacts.loads_canonical_json _ _ hdata)
      (by rw [enter, Value.isDict_set, Value.isDict_set, hdict])
    refine (accepted_iff hleft).mpr ⟨entries,
      (wellFormed_enter hdict hchecks.formed (by decide) _ _).mpr ⟨rfl, fun hmode => ?_⟩⟩
    refine (hchecks.formed.intent hmode).2 ?_
    rw [hchecks.applied]
    exact .inr (.inl rfl)

end Advancing

section Calls

/-- The calls that leave a manifest on disk. -/
inductive Call
  | capture (paths : List String)
  | bind_intent (expected_hashes : List (String × String))
  | transition (target_state : String)
  | receipt (output_receipt : Path)

variable {Bytes : Type} [Text] [Texts] [Host Bytes] [Artifacts Bytes]

def perform [DecidableEq Bytes] (root manifest_path : Path) : Call → Guarded Bytes Unit
  | .capture paths => do
    let _ ← capture root paths manifest_path
    pure ()
  | .bind_intent expected_hashes => do
    let _ ← bind_intent root manifest_path expected_hashes
    pure ()
  | .transition target_state => do
    let _ ← transition root manifest_path target_state
    pure ()
  | .receipt output_receipt => do
    let _ ← receipt root manifest_path output_receipt
    pure ()

/-- What a call must be given so that it leaves a manifest that is accepted again. -/
def Call.Fit (root manifest_path : Path) (w : World Bytes) : Call → Prop
  | .capture paths => Capturable root paths
  | .bind_intent expected_hashes =>
    ∀ c v, Given root expected_hashes c v → (Text.upper v).length = 64
  | .transition _ => Advanceable manifest_path w
  | .receipt _ => True

/-- A call that returns leaves a manifest that the next call accepts exactly where the call
was fit. -/
theorem performed_accepted [DecidableEq Bytes] {root manifest_path : Path} {call : Call} {i : Pid}
    {w u : World Bytes}
    (h : (perform root manifest_path call).run (machine Bytes) i w = (.ok (), u)) :
    Accepted root manifest_path u ↔ call.Fit root manifest_path w := by
  cases call with
  | capture paths =>
    obtain ⟨manifest, u', hrun, hret⟩ := Prog.run_seq_ok _ _ h
    cases hret
    exact capture_accepted hrun
  | bind_intent expected_hashes =>
    obtain ⟨manifest, u', hrun, hret⟩ := Prog.run_seq_ok _ _ h
    cases hret
    exact bind_intent_accepted hrun
  | transition target_state =>
    obtain ⟨manifest, u', hrun, hret⟩ := Prog.run_seq_ok _ _ h
    cases hret
    exact transition_accepted hrun
  | receipt output_receipt =>
    obtain ⟨report, u', hrun, hret⟩ := Prog.run_seq_ok _ _ h
    cases hret
    exact ⟨fun _ => trivial, fun _ => receipt_accepted hrun⟩

end Calls

section Sample

/-- The files of a sample world: contents by their number, JSON documents, and receipts of
the recovery store. -/
inductive SampleArtifact
  | text (n : Nat)
  | json (value : Json)
  | receipt (data : recovery.Dict)

noncomputable instance : DecidableEq SampleArtifact := Classical.typeDecidableEq _

def SampleArtifact.digest : SampleArtifact → String
  | .text 0 => String.ofList (List.replicate 64 'A')
  | _ => String.ofList (List.replicate 64 'B')

theorem SampleArtifact.digest_cases {motive : String → Prop} (file : SampleArtifact)
    (hA : motive (String.ofList (List.replicate 64 'A')))
    (hB : motive (String.ofList (List.replicate 64 'B'))) : motive file.digest := by
  unfold SampleArtifact.digest
  split
  · exact hA
  · exact hB

@[reducible] def sampleHost : @Host asciiText SampleArtifact :=
  @Host.mk asciiText SampleArtifact SampleArtifact.digest (fun _ => 1)
    (fun
      | .receipt data => .ok (.obj data)
      | _ => .error .JSONDecodeError)
    .receipt "/" (fun _ => rfl)
    (fun file e h => by cases file <;> cases h <;> exact ⟨rfl, rfl⟩)
    (fun file => file.digest_cases (motive := fun s => asciiText.upper s = s) (by decide +kernel) (by decide +kernel))
    (fun file => file.digest_cases (motive := fun s => strip s = s) (by decide +kernel) (by decide +kernel))
    (fun file => file.digest_cases (motive := fun s => s ≠ "") (by decide +kernel) (by decide +kernel))
    (fun file => file.digest_cases (motive := fun s => s ≠ "__ABSENT__")
      (by decide +kernel) (by decide +kernel))
    (fun _ => by decide)

attribute [local instance] asciiText sampleHost

@[reducible] def sampleArtifacts : Artifacts SampleArtifact where
  empty := .text 0
  loads
    | .json value => .ok value
    | _ => .error .JSONDecodeError
  canonical_json value := some (.json value)
  dumps value := some (.json value)
  loads_canonical_json _ _ h := by cases h; rfl
  loads_dumps _ _ h := by cases h; rfl
  length_sha256 file := file.digest_cases (motive := fun s => s.length = 64)
    (by decide +kernel) (by decide +kernel)

@[reducible] def sampleTexts : Texts where
  shown _ := "value"
  exc_str _ := "error"
  isoformat _ := "2026-01-01T00:00:00+00:00"
  uuid4 _ := "00000000-0000-4000-8000-000000000000"
  surrogate_target _ _ := .error (.ValueError "surrogates not allowed")
  surrogate_secret _ := false
  surrogate_control _ := false

attribute [local instance] sampleArtifacts sampleTexts

/-- A world with the given files. -/
def sampleWorld (files : List (Sigma fun _ : Path => SampleArtifact)) : World SampleArtifact where
  files := files.toAList
  dirs := ["/w"]
  locks _ := none
  stamps _ := Stamp.sample
  clock n := n
  ticks := 0
  drawer _ := none
  changes := []
  timeouts := []

theorem sample_returns (paths : List String)
    (h : ((perform "/w" "/m.json" (.capture paths)).run (machine SampleArtifact) 0
      (sampleWorld [])).1 = .ok ()) :
    ∃ u, (perform "/w" "/m.json" (.capture paths)).run (machine SampleArtifact) 0 (sampleWorld []) =
      (.ok (), u) := ⟨_, Prod.ext h rfl⟩

/-- A capture of nothing returns, and leaves a manifest without entries. -/
theorem capture_nothing_refused : ∃ u, (perform "/w" "/m.json" (.capture [])).run
    (machine SampleArtifact) 0 (sampleWorld []) = (.ok (), u) ∧ ¬ Accepted "/w" "/m.json" u := by
  have hpath : check_output_path "/w" "/m.json" "manifest" = .ok () := by decide +kernel
  obtain ⟨u, hrun⟩ := sample_returns [] (by rw [perform, capture, hpath]; rfl)
  obtain ⟨manifest, u', hcapture, hret⟩ := Prog.run_seq_ok _ _ hrun
  cases hret
  exact ⟨_, hrun, fun h => ((capture_accepted hcapture).mp h).1 rfl⟩

/-- The manifest of two captured paths, one of them with a backslash, is accepted again. -/
theorem captured_path_accepted : ∃ u, (perform "/w" "/m.json" (.capture ["a.txt", "d\\b.txt"])).run
    (machine SampleArtifact) 0 (sampleWorld []) = (.ok (), u) ∧ Accepted "/w" "/m.json" u := by
  have hpath : check_output_path "/w" "/m.json" "manifest" = .ok () := by decide +kernel
  have hfirst : policy.canonical_target "/w" "a.txt" = .ok ("/w/a.txt", "a.txt") := by
    decide +kernel
  have hsecond : policy.canonical_target "/w" "d\\b.txt" = .ok ("/w/d/b.txt", "d/b.txt") := by
    decide +kernel
  have hplain : policy.canonical_target "/w" "d/b.txt" = .ok ("/w/d/b.txt", "d/b.txt") := by
    decide +kernel
  have hagain : Again "/w" "a.txt" "a.txt" :=
    ⟨_, _, _, hfirst, hfirst, by decide +kernel, by decide +kernel⟩
  have hagain' : Again "/w" "d\\b.txt" "d/b.txt" :=
    ⟨_, _, _, hsecond, hplain, by decide +kernel, by decide +kernel⟩
  obtain ⟨u, hrun⟩ := sample_returns ["a.txt", "d\\b.txt"] (by
    rw [perform, capture, hpath, capture_entries, capture_entry, hfirst, capture_entries,
      capture_entry, hsecond]
    rfl)
  exact ⟨u, hrun, (performed_accepted hrun).mpr ⟨List.cons_ne_nil _ _, ["a.txt", "d/b.txt"],
    .cons hagain (.cons hagain' .nil), by decide⟩⟩

end Sample

end jvc.prewrite
