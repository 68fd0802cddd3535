import Jvc.Policy.Lifecycle
import Mathlib.Data.List.Dedup

open json (Value)
open program

namespace jvc.prewrite

open authority (PyStr CodePoint)
open contracts (Json lit field)
open guard (Failure check_output_path)

section Soundness

variable {Bytes : Type} [Text] [Texts] [Host Bytes]

/-- A letter of a hexadecimal digest, in upper case. -/
def upperPoint : CodePoint → CodePoint
  | .scalar c => .scalar c.toUpper
  | .surrogate offset => .surrogate offset

/-- The data is the preimage that the entry was captured with, however its digest is spelled. -/
def Captures (entry : Json) (data : Bytes) : Prop :=
  (∃ recorded, field "sha256" entry = .str recorded ∧
    recorded.map upperPoint = lit (sha256_bytes data)) ∧
    (field "byte_length" entry).equalsInt (Host.size data) = true

/-- The file that an entry is about, with its path as the entry spells it. -/
structure Target (root : Path) (w : World Bytes) (entry : Json) (path : PyStr) (data : Bytes) :
    Prop where
  named : field "path" entry = .str path
  found : ∃ t c, target root path = .ok (t, c) ∧ w.lookup t = some data

/-- The target holds what was bound, and not what was captured. -/
def Landed (root : Path) (w : World Bytes) (entry : Json) : Prop :=
  ∃ path data expected, Target root w entry path data ∧
    field "expected_sha256" entry = .str expected ∧ expected.length = 64 ∧
      expected = lit (sha256_bytes data) ∧
        (field "expected_state" entry = .str (lit "present") → ¬ Captures entry data)

/-- The changed paths of a receipt are those of the entries. -/
def Lists (record : Json) (entries : List Json) : Prop :=
  ∃ paths : List PyStr, field "changed_paths" record = .list (paths.map .str) ∧
    ∀ path, path ∈ paths ↔ ∃ entry ∈ entries, field "path" entry = .str path

variable [Artifacts Bytes]

/-- What a receipt is relied on for, where the manifest is in strict-write mode: it passes
only over what was applied and landed, and where it does not pass it leaves everything as it
was, unless it was already writing. -/
structure Sound [DecidableEq Bytes] (root manifest_path output_receipt : Path) (i : Pid)
    (w : World Bytes) : Prop where
  passed : ∀ record u, (receipt root manifest_path output_receipt).run (machine Bytes) i w =
    (.ok (.PASS record), u) → ∀ manifest, Holds w manifest_path manifest →
      field "guard_mode" manifest = .str (lit "strict-write") →
        field "lifecycle_state" manifest = .str (lit "applied") ∧
          ∃ entries, field "entries" manifest = .list entries ∧
            (∀ entry ∈ entries, Landed root w entry) ∧ Lists record entries
  failed : ∀ manifest_id failures changed_paths u,
    (receipt root manifest_path output_receipt).run (machine Bytes) i w =
      (.ok (.FAIL manifest_id failures changed_paths), u) → u = w
  raised : ∀ failure u, (examine root manifest_path output_receipt).run (machine Bytes) i w =
    (.error failure, u) →
      (receipt root manifest_path output_receipt).run (machine Bytes) i w = (.error failure, u) ∧ u = w

/-- What the loop over the entries compares, a hash that is null being skipped. -/
def Compared (root : Path) (w : World Bytes) (entry : Json) : Prop :=
  ∃ path data, Target root w entry path data ∧
    (field "expected_sha256" entry = .null ∨
      field "expected_sha256" entry = .str (lit (sha256_bytes data))) ∧
    (field "expected_state" entry = .str (lit "present") →
      ¬ (field "sha256" entry = .str (lit (sha256_bytes data)) ∧
        (field "byte_length" entry).equalsInt (Host.size data) = true))

/-- What an entry whose target passes adds to the tally. -/
def passed_tally (root : Path) (w : World Bytes) (entry : Json) : Tally :=
  let path := (field "path" entry).str?.getD []
  match target root path with
  | .ok (t, _) =>
    match w.lookup t with
    | some data => { changed_paths := [path], observations := [observation path data true] }
    | none => {}
  | .error _ => {}

def passed_tallies (root : Path) (w : World Bytes) : List Json → Tally
  | [] => {}
  | entry :: rest => (passed_tally root w entry).append (passed_tallies root w rest)

/-- The manifest and the files are such that the checks pass, and the texts of the receipt
and of the manifest can be encoded. -/
structure Passing (root manifest_path output_receipt : Path) (w : World Bytes) (manifest : Json)
    (entries : List Json) : Prop where
  permitted : check_output_path root output_receipt "receipt" = .ok ()
  free : present w output_receipt = false
  holds : Holds w manifest_path manifest
  formed : WellFormed root manifest entries
  strict : field "guard_mode" manifest = .str (lit "strict-write")
  applied : field "lifecycle_state" manifest = .str (lit "applied")
  compared : ∀ entry ∈ entries, Compared root w entry
  recorded : ∃ data : Bytes, Artifacts.dumps (record manifest (passed_tallies root w entries)
    (Texts.isoformat (w.clock w.ticks))) = some data
  entered : ∃ data : Bytes,
    Artifacts.canonical_json (enter manifest "verified" (Texts.isoformat (w.clock w.ticks))) = some data

/-- The entry binds a hash, and its target is not what was captured under another spelling
of the digest. -/
def Binding (root : Path) (w : World Bytes) (entry : Json) : Prop :=
  field "expected_sha256" entry ≠ .null ∧
    ∀ path data, Target root w entry path data → field "expected_state" entry = .str (lit "present") →
      Captures entry data → field "sha256" entry = .str (lit (sha256_bytes data))

end Soundness

section Inspection

variable {Bytes : Type} [Text] [Texts] [Host Bytes] {root : Path} {i : Pid} {w u : World Bytes}
  {entry : Json} {path path' : PyStr} {data data' : Bytes}

omit [Host Bytes] in
theorem Target.unique (h : Target root w entry path data) (h' : Target root w entry path' data') :
    path = path' ∧ data = data' := by
  obtain ⟨t, c, htarget, hlookup⟩ := h.found
  obtain ⟨t', c', htarget', hlookup'⟩ := h'.found
  have hpath := Value.str.inj (h.named.symm.trans h'.named)
  subst hpath
  rw [htarget] at htarget'
  cases htarget'
  rw [hlookup] at hlookup'
  exact ⟨rfl, Option.some.inj hlookup'⟩

omit [Text] [Texts] in
/-- The comparison of a validated hash. -/
theorem differs_eq_false {expected : Json} {post_hash : String}
    (h : expected = .null ∨ is_hash expected = true) :
    differs expected post_hash = false ↔ expected = .null ∨ expected = .str (lit post_hash) := by
  cases expected with
  | null => simp [differs]
  | str expected =>
    have hne : expected ≠ [] := by
      rintro rfl
      obtain h | h := h
      · cases h
      · cases h
    simp [differs, hne]
  | _ => simp [differs]

variable {c : PyStr}

/-- The run of one round whose target is a file. -/
theorem run_inspect_entry (hchecked : Checked root entry c) (htarget : Target root w entry path data)
    (strict : Bool) : ∃ changed : Bool,
      (changed = false ↔ field "expected_state" entry = .str (lit "present") ∧
        field "sha256" entry = .str (lit (sha256_bytes data)) ∧
          (field "byte_length" entry).equalsInt (Host.size data) = true) ∧
      ∃ tally : Tally, (inspect_entry root strict entry).run (machine Bytes) i w = (.ok tally, w) ∧
        (tally.failures = [] ↔ differs (field "expected_sha256" entry) (sha256_bytes data) = false ∧
          (strict && !changed) = false) ∧
        tally.changed_paths = (if changed then [path] else []) ∧
        tally.observations = [observation path data changed] := by
  obtain ⟨t, c', hfound, hlookup⟩ := htarget.found
  have hpresent : present w t = true := by
    rw [present, hlookup, Option.isSome_some, Bool.or_true]
  have hstart : (Prog.ofExcept ((target root path).mapError .other) :
      Guarded Bytes (Path × PyStr)).run (machine Bytes) i w = (.ok (t, c'), w) := by
    rw [hfound]
    rfl
  have hfile : (os (is_file t)).run (machine Bytes) i w = (.ok true, w) := by
    rw [run_is_file, hlookup, Option.isSome_some]
  have hne : lit "present" ≠ lit "absent" := fun h => absurd (lit_inj.mp h) (by decide)
  unfold inspect_entry
  rw [htarget.named, Value.str?, Option.getD_some]
  obtain ⟨hstate, -⟩ | ⟨hstate, -⟩ := hchecked.preimage
  · have habsent : ¬ (field "expected_state" entry).equalsStr (lit "absent") = true := by
      rw [Value.equalsStr_iff, hstate]
      exact fun h => hne (Value.str.inj h)
    refine ⟨!(field "sha256" entry).equalsStr (lit (sha256_bytes data)) ||
      !(field "byte_length" entry).equalsInt (Host.size data), ?_, ?_⟩
    · rw [Bool.or_eq_false_iff, Bool.not_eq_false', Bool.not_eq_false', Value.equalsStr_iff]
      exact ⟨fun h => ⟨hstate, h⟩, fun h => h.2⟩
    · apply Exists.intro
      apply And.intro
      · rw [Prog.run_seq _ _ hstart]
        dsimp only
        rw [if_neg habsent, Prog.run_seq _ _ hfile, Bool.not_true, if_neg Bool.false_ne_true,
          Prog.run_seq _ _ (run_read_bytes hlookup)]
        rfl
      · refine ⟨?_, rfl, rfl⟩
        rw [List.append_eq_nil_iff]
        simp
  · have habsent : (field "expected_state" entry).equalsStr (lit "absent") = true := by
      rw [Value.equalsStr_iff, hstate]
    refine ⟨true, ?_, ?_⟩
    · rw [hstate]
      constructor
      · intro h
        cases h
      · intro h
        exact absurd (Value.str.inj h.1).symm hne
    · apply Exists.intro
      apply And.intro
      · rw [Prog.run_seq _ _ hstart]
        dsimp only
        rw [if_pos habsent, Prog.run_seq _ _ run_exists_path, hpresent, if_pos rfl,
          Prog.run_seq _ _ (run_read_bytes hlookup)]
        rfl
      · refine ⟨?_, rfl, rfl⟩
        simp

/-- A round that finds nothing wrong has seen a file. -/
theorem target_of_inspect {strict : Bool} {tally : Tally} (hchecked : Checked root entry c)
    (h : (inspect_entry root strict entry).run (machine Bytes) i w = (.ok tally, u))
    (hnone : tally.failures = []) : ∃ path data, Target root w entry path data := by
  obtain ⟨path, t, hpath, -, hfound⟩ := hchecked.path
  cases hlookup : w.lookup t with
  | some data => exact ⟨path, data, hpath, t, c, hfound, hlookup⟩
  | none =>
    exfalso
    have hstart : (Prog.ofExcept ((target root path).mapError .other) :
        Guarded Bytes (Path × PyStr)).run (machine Bytes) i w = (.ok (t, c), w) := by
      rw [hfound]
      rfl
    unfold inspect_entry at h
    rw [hpath, Value.str?, Option.getD_some, Prog.run_seq _ _ hstart] at h
    dsimp only at h
    split at h
    · rw [Prog.run_seq _ _ run_exists_path] at h
      split at h
      · obtain ⟨data, v, hread, -⟩ := Prog.run_seq_ok _ _ h
        have hdata := (read_bytes_ok hread).1
        rw [hlookup] at hdata
        cases hdata
      · cases h
        cases hnone
    · rw [Prog.run_seq _ _ run_is_file, hlookup] at h
      cases h
      cases hnone

/-- A round in strict mode that finds nothing wrong has compared the entry. -/
theorem compared_of_inspect {tally : Tally} (hchecked : Checked root entry c)
    (h : (inspect_entry root true entry).run (machine Bytes) i w = (.ok tally, u))
    (hnone : tally.failures = []) : Compared root w entry ∧ tally = passed_tally root w entry := by
  obtain ⟨path, data, htarget⟩ := target_of_inspect hchecked h hnone
  obtain ⟨changed, hchanged, tally', hrun, hfailures, hpaths, hobservations⟩ :=
    run_inspect_entry (i := i) hchecked htarget true
  rw [h] at hrun
  cases hrun
  obtain ⟨hdiffers, hstrict⟩ := hfailures.mp hnone
  rw [Bool.true_and, Bool.not_eq_false'] at hstrict
  subst hstrict
  refine ⟨⟨path, data, htarget, (differs_eq_false hchecked.expected).mp hdiffers, ?_⟩, ?_⟩
  · intro hstate hsame
    cases hchanged.mpr ⟨hstate, hsame⟩
  · obtain ⟨t, c', hfound, hlookup⟩ := htarget.found
    rw [passed_tally, htarget.named, Value.str?, Option.getD_some, hfound]
    dsimp only
    rw [hlookup]
    cases tally
    cases hnone
    cases hpaths
    cases hobservations
    rfl

theorem inspect_of_compared (hchecked : Checked root entry c) (h : Compared root w entry) :
    (inspect_entry root true entry).run (machine Bytes) i w = (.ok (passed_tally root w entry), w) ∧
      (passed_tally root w entry).failures = [] := by
  obtain ⟨path, data, htarget, hexpected, hpreimage⟩ := h
  obtain ⟨changed, hchanged, tally, hrun, hfailures, hpaths, hobservations⟩ :=
    run_inspect_entry (i := i) hchecked htarget true
  have hstrict : changed = true := by
    rw [← Bool.not_eq_false]
    intro hfalse
    obtain ⟨hstate, hsame⟩ := hchanged.mp hfalse
    exact hpreimage hstate hsame
  have hnone : tally.failures = [] :=
    hfailures.mpr ⟨(differs_eq_false hchecked.expected).mpr hexpected, by rw [hstrict]; rfl⟩
  obtain ⟨-, rfl⟩ := compared_of_inspect hchecked hrun hnone
  exact ⟨hrun, hnone⟩

variable {entries : List Json}

theorem compared_of_inspections {tally : Tally} (hchecked : ∀ entry ∈ entries, ∃ c, Checked root entry c)
    (h : (inspect_entries root true entries).run (machine Bytes) i w = (.ok tally, u))
    (hnone : tally.failures = []) :
    (∀ entry ∈ entries, Compared root w entry) ∧ tally = passed_tallies root w entries := by
  induction entries generalizing tally u with
  | nil =>
    cases h
    exact ⟨fun entry hentry => absurd hentry List.not_mem_nil, rfl⟩
  | cons entry rest ih =>
    obtain ⟨first, w₁, hfirst, hothers⟩ := Prog.run_seq_ok _ _ h
    have hsame := (reads_inspect_entry root true entry).run i w
    rw [hfirst] at hsame
    change w₁ = w at hsame
    subst hsame
    obtain ⟨tallies, w₂, hrest, hret⟩ := Prog.run_seq_ok _ _ hothers
    cases hret
    obtain ⟨hnone₁, hnone₂⟩ := List.append_eq_nil_iff.mp hnone
    obtain ⟨c, hc⟩ := hchecked entry List.mem_cons_self
    obtain ⟨hcompared, rfl⟩ := compared_of_inspect hc hfirst hnone₁
    obtain ⟨hcompares, rfl⟩ := ih (fun e he => hchecked e (List.mem_cons_of_mem _ he)) hrest hnone₂
    refine ⟨fun e he => ?_, rfl⟩
    rcases List.mem_cons.mp he with rfl | he
    · exact hcompared
    · exact hcompares e he

theorem inspections_of_compared (hchecked : ∀ entry ∈ entries, ∃ c, Checked root entry c)
    (h : ∀ entry ∈ entries, Compared root w entry) :
    (inspect_entries root true entries).run (machine Bytes) i w =
      (.ok (passed_tallies root w entries), w) ∧ (passed_tallies root w entries).failures = [] := by
  induction entries with
  | nil => exact ⟨rfl, rfl⟩
  | cons entry rest ih =>
    obtain ⟨c, hc⟩ := hchecked entry List.mem_cons_self
    obtain ⟨hrun, hnone⟩ := inspect_of_compared (i := i) hc (h entry List.mem_cons_self)
    obtain ⟨hrest, hnones⟩ := ih (fun e he => hchecked e (List.mem_cons_of_mem _ he))
      fun e he => h e (List.mem_cons_of_mem _ he)
    refine ⟨?_, List.append_eq_nil_iff.mpr ⟨hnone, hnones⟩⟩
    rw [inspect_entries, Prog.run_seq _ _ hrun, Prog.run_seq _ _ hrest]
    rfl

omit [Host Bytes] [Text] in
theorem checked_of_forall {root : Path} {cs : List PyStr} [Text]
    (h : List.Forall₂ (Checked root) entries cs) : ∀ entry ∈ entries, ∃ c, Checked root entry c := by
  intro entry hentry
  induction h with
  | nil => cases hentry
  | cons hchecked _ ih =>
    rcases List.mem_cons.mp hentry with rfl | hentry
    · exact ⟨_, hchecked⟩
    · exact ih hentry

/-- The changed paths are those of the entries. -/
theorem mem_changed_paths (h : ∀ entry ∈ entries, Compared root w entry) {path : PyStr} :
    path ∈ (passed_tallies root w entries).changed_paths ↔
      ∃ entry ∈ entries, field "path" entry = .str path := by
  induction entries with
  | nil => simp [passed_tallies]
  | cons entry rest ih =>
    obtain ⟨path', data, htarget, -⟩ := h entry List.mem_cons_self
    obtain ⟨t, c, hfound, hlookup⟩ := htarget.found
    have hfirst : (passed_tally root w entry).changed_paths = [path'] := by
      rw [passed_tally, htarget.named, Value.str?, Option.getD_some, hfound]
      dsimp only
      rw [hlookup]
    rw [passed_tallies, Tally.append]
    dsimp only
    rw [hfirst, List.mem_append, List.mem_singleton, ih fun e he => h e (List.mem_cons_of_mem _ he),
      List.exists_mem_cons_iff, htarget.named, Value.str.injEq, eq_comm]

end Inspection

section Reports

theorem mem_sorted_set {paths : List PyStr} {path : PyStr} :
    path ∈ sorted_set paths ↔ path ∈ paths := by
  rw [sorted_set, List.mem_insertionSort, List.mem_dedup]

theorem changed_paths_record (manifest : Json) (tally : Tally) (verified_time : String) :
    field "changed_paths" (record manifest tally verified_time) =
      .list ((sorted_set tally.changed_paths).map .str) := by
  simp [record, field, Value.get, Value.find_ofFields, Value.lookup_cons, lit_inj]

variable {Bytes : Type} [Text] [Texts] [Host Bytes] [Artifacts Bytes] [DecidableEq Bytes]
  {root p output_receipt : Path} {i : Pid} {w u : World Bytes}

omit [Text] [Host Bytes] [Artifacts Bytes] [DecidableEq Bytes] in
theorem run_utc_now : (os utc_now : Guarded Bytes String).run (machine Bytes) i w =
    (.ok (Texts.isoformat (w.clock w.ticks)), { w with ticks := w.ticks + 1 }) := rfl

theorem receipt_failed {manifest_id : Json} {failures : List String} {changed_paths : List PyStr}
    (h : (receipt root p output_receipt).run (machine Bytes) i w =
      (.ok (.FAIL manifest_id failures changed_paths), u)) : u = w := by
  unfold receipt at h
  obtain ⟨⟨before, manifest, tally⟩, w₁, hexamine, hrest⟩ := Prog.run_seq_ok _ _ h
  obtain ⟨rfl, -⟩ := examine_ok hexamine
  dsimp only at hrest
  split at hrest
  · cases hrest
    rfl
  · obtain ⟨now, w₂, -, hnew⟩ := Prog.run_seq_ok _ _ hrest
    obtain ⟨_, w₃, -, hrewrite⟩ := Prog.run_seq_ok _ _ hnew
    obtain ⟨_, w₄, -, hret⟩ := Prog.run_seq_ok _ _ hrewrite
    cases (Prod.mk.inj hret).1

theorem receipt_raised {failure : Failure}
    (h : (examine root p output_receipt).run (machine Bytes) i w = (.error failure, u)) :
    (receipt root p output_receipt).run (machine Bytes) i w = (.error failure, u) ∧ u = w := by
  have hsame := (reads_examine root p output_receipt).run i w
  rw [h] at hsame
  exact ⟨Prog.run_seq_error _ _ h, hsame⟩

/-- A receipt that passes over a strict-write manifest has found everything as it must be. -/
theorem receipt_passed {r manifest : Json} (h : (receipt root p output_receipt).run (machine Bytes) i w =
    (.ok (.PASS r), u)) (hholds : Holds w p manifest)
    (hmode : field "guard_mode" manifest = .str (lit "strict-write")) :
    ∃ entries, Passing root p output_receipt w manifest entries ∧
      r = record manifest (passed_tallies root w entries) (Texts.isoformat (w.clock w.ticks)) := by
  unfold receipt at h
  obtain ⟨⟨before, manifest', tally⟩, w₁, hexamine, hrest⟩ := Prog.run_seq_ok _ _ h
  obtain ⟨rfl, entries, hchecks⟩ := examine_ok hexamine
  have hmanifest := hchecks.holds.unique hholds
  change manifest' = manifest at hmanifest
  subst hmanifest
  dsimp only at hrest
  split at hrest
  · cases (Prod.mk.inj hrest).1
  rename_i hnone
  rw [ne_eq, not_not] at hnone
  obtain ⟨cs, hcs, -⟩ := hchecks.formed.checked
  have hinspected := hchecks.inspected
  dsimp only at hinspected
  rw [Value.equalsStr_iff.mpr hmode] at hinspected
  obtain ⟨hcompared, rfl⟩ := compared_of_inspections (checked_of_forall hcs) hinspected hnone
  rw [Prog.run_seq _ _ run_utc_now] at hrest
  obtain ⟨_, w₂, hnew, hrewrite⟩ := Prog.run_seq_ok _ _ hrest
  obtain ⟨_, w₃, hwrite, hret⟩ := Prog.run_seq_ok _ _ hrewrite
  obtain ⟨-, data, hdumps, -⟩ := write_new_json_ok hnew
  obtain ⟨data', hentered, -⟩ := rewrite_manifest_ok hwrite
  have hr := Report.PASS.inj (Except.ok.inj (Prod.mk.inj hret).1)
  exact ⟨entries, ⟨hchecks.permitted, hchecks.free, hchecks.holds, hchecks.formed, hmode,
    hchecks.applied, hcompared, ⟨data, hdumps⟩, ⟨data', hentered⟩⟩, hr.symm⟩

omit [DecidableEq Bytes] in
theorem run_examine {manifest : Json} {entries : List Json}
    (h : Passing root p output_receipt w manifest entries) : ∃ before, w.lookup p = some before ∧
      (examine root p output_receipt).run (machine Bytes) i w =
        (.ok ⟨before, manifest, passed_tallies root w entries⟩, w) ∧
      (passed_tallies root w entries).failures = [] := by
  obtain ⟨before, hbefore, -⟩ := id h.holds
  obtain ⟨cs, hcs, -⟩ := h.formed.checked
  obtain ⟨hrun, hnone⟩ := inspections_of_compared (i := i) (checked_of_forall hcs) h.compared
  have hpath : (Prog.ofExcept (check_output_path root output_receipt "receipt") :
      Guarded Bytes Unit).run (machine Bytes) i w = (.ok (), w) := by
    rw [h.permitted]
    rfl
  have hvalid : (Prog.ofExcept (validate_entries root manifest) : Guarded Bytes (List Json)).run
      (machine Bytes) i w = (.ok entries, w) := by
    rw [validate_entries_ok.mpr h.formed]
    rfl
  refine ⟨before, hbefore, ?_, hnone⟩
  unfold examine
  rw [Prog.run_seq _ _ hpath, Prog.run_seq _ _ run_exists_path, h.free, if_neg Bool.false_ne_true,
    Prog.run_seq _ _ (run_read_bytes hbefore), Prog.run_seq _ _ (run_read_json h.holds),
    Prog.run_seq _ _ hvalid, Value.equalsStr_iff.mpr h.applied, Bool.not_true,
    if_neg Bool.false_ne_true, Value.equalsStr_iff.mpr h.strict, Prog.run_seq _ _ hrun]
  rfl

theorem run_receipt {manifest : Json} {entries : List Json}
    (h : Passing root p output_receipt w manifest entries) :
    ∃ u, (receipt root p output_receipt).run (machine Bytes) i w = (.ok (.PASS (record manifest
      (passed_tallies root w entries) (Texts.isoformat (w.clock w.ticks)))), u) := by
  obtain ⟨before, hbefore, hexamine, hnone⟩ := run_examine (i := i) h
  obtain ⟨data, hdumps⟩ := h.recorded
  obtain ⟨data', hentered⟩ := h.entered
  have hne : p ≠ output_receipt := by
    rintro rfl
    have hfree := h.free
    rw [present, hbefore, Option.isSome_some, Bool.or_true] at hfree
    cases hfree
  have hafter : (({ w with ticks := w.ticks + 1 } : World Bytes).write i output_receipt data none).lookup p =
      some before := by
    rw [World.lookup_write, if_neg hne]
    exact hbefore
  apply Exists.intro
  unfold receipt
  rw [Prog.run_seq _ _ hexamine]
  dsimp only
  rw [if_neg (not_not.mpr hnone), Prog.run_seq _ _ run_utc_now,
    Prog.run_seq _ _ (run_write_new_json (w := { w with ticks := w.ticks + 1 }) h.free hdumps),
    Prog.run_seq _ _ (run_rewrite_manifest hafter hentered)]
  rfl

omit [DecidableEq Bytes] in
/-- Over entries that were compared, a receipt is sound exactly where each of them binds. -/
theorem landed_iff {entry : Json} (h : Compared root w entry) :
    Landed root w entry ↔ Binding root w entry := by
  obtain ⟨path, data, htarget, hexpected, hpreimage⟩ := h
  constructor
  · rintro ⟨path', data', expected, htarget', hbound, -, -, hcaptured⟩
    refine ⟨fun hnull => ?_, fun path₀ data₀ htarget₀ hstate hcaptures => ?_⟩
    · rw [hbound] at hnull
      cases hnull
    · obtain ⟨-, rfl⟩ := htarget₀.unique htarget'
      exact absurd hcaptures (hcaptured hstate)
  · rintro ⟨hbound, hspelled⟩
    have hhash := hexpected.resolve_left hbound
    refine ⟨path, data, _, htarget, hhash, ?_, rfl, fun hstate hcaptures => ?_⟩
    · rw [length_lit, Artifacts.length_sha256]
    · exact hpreimage hstate ⟨hspelled path data htarget hstate hcaptures, hcaptures.2⟩

/-- A receipt is sound exactly where, if the checks pass, every entry binds a hash and no
present entry records the digest of its target in another letter case. -/
theorem receipt_sound_iff (root manifest_path output_receipt : Path) (i : Pid) (w : World Bytes) :
    Sound root manifest_path output_receipt i w ↔ ∀ manifest entries,
      Passing root manifest_path output_receipt w manifest entries →
        ∀ entry ∈ entries, Binding root w entry := by
  constructor
  · intro h manifest entries hpassing entry hentry
    obtain ⟨u, hrun⟩ := run_receipt (i := i) hpassing
    obtain ⟨-, entries', hlisted, hlanded, -⟩ := h.passed _ _ hrun manifest hpassing.holds hpassing.strict
    rw [hpassing.formed.listed] at hlisted
    cases hlisted
    exact (landed_iff (hpassing.compared entry hentry)).mp (hlanded entry hentry)
  · intro h
    refine ⟨fun r u hrun manifest hholds hmode => ?_, fun _ _ _ _ => receipt_failed,
      fun _ _ => receipt_raised⟩
    obtain ⟨entries, hpassing, rfl⟩ := receipt_passed hrun hholds hmode
    refine ⟨hpassing.applied, entries, hpassing.formed.listed, fun entry hentry => ?_,
      _, changed_paths_record _ _ _, fun path => ?_⟩
    · exact (landed_iff (hpassing.compared entry hentry)).mpr (h manifest entries hpassing entry hentry)
    · rw [mem_sorted_set, mem_changed_paths hpassing.compared]

end Reports

section Sample

attribute [local instance] asciiText sampleHost sampleArtifacts sampleTexts

/-- An entry for a new file, whose expected hash is null. -/
def nullEntry : Json := .ofFields
  [(lit "path", .str (lit "a.txt")), (lit "expected_state", .str (lit "absent")),
    (lit "expected_sha256", .null)]

def nullManifest : Json := .ofFields
  [(lit "schema_version", .int 1), (lit "lifecycle_state", .str (lit "applied")),
    (lit "guard_mode", .str (lit "strict-write")), (lit "intent_state", .str (lit "bound")),
    (lit "entries", .list [nullEntry])]

def nullWorld : World SampleArtifact :=
  sampleWorld [⟨"/m.json", .json nullManifest⟩, ⟨"/w/a.txt", .text 0⟩]

theorem nullEntry_checked : Checked "/w" nullEntry (lit "a.txt") := by
  have htarget : policy.canonical_target "/w" "a.txt" = .ok ("/w/a.txt", "a.txt") := by
    decide +kernel
  have hpath : field "path" nullEntry = .str (lit "a.txt") := by
    simp [nullEntry, field, Value.get, Value.find_ofFields, Value.lookup_cons, lit_inj]
  refine ⟨rfl, ⟨lit "a.txt", "/w/a.txt", hpath, by decide +kernel, ?_⟩, ⟨?_, ?_⟩, .inr ⟨?_, ?_, ?_⟩,
    .inl ?_⟩
  · rw [target_lit, htarget]
    rfl
  · rw [secret_lit]
    decide +kernel
  · rw [control_lit]
    decide +kernel
  · simp [nullEntry, field, Value.get, Value.find_ofFields, Value.lookup_cons, lit_inj]
  · simp [nullEntry, Value.find_ofFields, Value.lookup_cons, lit_inj]
  · simp [nullEntry, Value.find_ofFields, Value.lookup_cons, lit_inj]
  · simp [nullEntry, field, Value.get, Value.find_ofFields]

theorem nullEntry_compared : Compared "/w" nullWorld nullEntry := by
  have htarget : policy.canonical_target "/w" "a.txt" = .ok ("/w/a.txt", "a.txt") := by
    decide +kernel
  refine ⟨lit "a.txt", .text 0, ⟨?_, "/w/a.txt", lit "a.txt", ?_, rfl⟩, .inl ?_, fun hstate => ?_⟩
  · simp [nullEntry, field, Value.get, Value.find_ofFields, Value.lookup_cons, lit_inj]
  · rw [target_lit, htarget]
    rfl
  · simp [nullEntry, field, Value.get, Value.find_ofFields]
  · simp [nullEntry, field, Value.get, Value.find_ofFields, Value.lookup_cons, lit_inj] at hstate

theorem nullManifest_passing :
    Passing "/w" "/m.json" "/r.json" nullWorld nullManifest [nullEntry] where
  permitted := by decide +kernel
  free := by decide +kernel
  holds := ⟨.json nullManifest, rfl, rfl, rfl⟩
  formed := by
    refine ⟨?_, ?_, List.cons_ne_nil _ _, ⟨[lit "a.txt"], .cons nullEntry_checked .nil,
      List.nodup_singleton _⟩, fun _ => ⟨?_, fun _ => ⟨?_, fun entry hentry => ?_⟩⟩⟩
    · simp [nullManifest, field, Value.get, Value.find_ofFields, Value.lookup_cons, lit_inj,
        Value.equalsInt, guard.SCHEMA_VERSION]
    · simp [nullManifest, field, Value.get, Value.find_ofFields]
    · simp [nullManifest, field, Value.get, Value.find_ofFields, Value.lookup_cons, lit_inj,
        Value.hashable]
    · simp [nullManifest, field, Value.get, Value.find_ofFields, Value.lookup_cons, lit_inj]
    · rw [List.mem_singleton.mp hentry]
      simp [nullEntry, Value.find_ofFields]
  strict := by simp [nullManifest, field, Value.get, Value.find_ofFields, Value.lookup_cons, lit_inj]
  applied := by
    simp [nullManifest, field, Value.get, Value.find_ofFields, Value.lookup_cons, lit_inj]
  compared entry hentry := by
    rw [List.mem_singleton.mp hentry]
    exact nullEntry_compared
  recorded := ⟨_, rfl⟩
  entered := ⟨_, rfl⟩

/-- A null hash is never compared: the receipt passes, whatever was written. -/
theorem null_hash_unsound : ¬ Sound "/w" "/m.json" "/r.json" 0 nullWorld := by
  intro h
  obtain ⟨u, hrun⟩ := run_receipt (i := 0) nullManifest_passing
  obtain ⟨-, entries, hlisted, hlanded, -⟩ := h.passed _ _ hrun nullManifest
    nullManifest_passing.holds nullManifest_passing.strict
  rw [nullManifest_passing.formed.listed] at hlisted
  cases hlisted
  obtain ⟨path, data, expected, -, hexpected, -⟩ := hlanded nullEntry (List.mem_singleton_self _)
  have hnull : field "expected_sha256" nullEntry = .null := by
    simp [nullEntry, field, Value.get, Value.find_ofFields]
  rw [hnull] at hexpected
  cases hexpected

end Sample

end jvc.prewrite
