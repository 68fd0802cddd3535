import Mathlib.Data.List.Dedup
import Mathlib.Data.List.Sort
import Jvc.Git.Commands
import Jvc.Policy.Canonical

open program program.Prog jvc.recovery jvc.policy

namespace jvc.git

variable {σ α : Type}

/-- A path in the index or in a tree: text in the encoding of the host, or bytes
that are not. -/
inductive GitPath
  | text (name : String) (nonempty : name ≠ "") (flat : '\x00' ∉ name.toList)
  | raw (bytes : List UInt8)

instance : DecidableEq GitPath
  | .text name _ _, .text name' _ _ => decidable_of_iff (name = name') (by simp)
  | .raw bytes, .raw bytes' => decidable_of_iff (bytes = bytes') (by simp)
  | .text _ _ _, .raw _ => .isFalse (by simp)
  | .raw _, .text _ _ _ => .isFalse (by simp)

def GitPath.isText : GitPath → Bool
  | .text _ _ _ => true
  | .raw _ => false

def GitPath.chars : GitPath → List Char
  | .text name _ _ => name.toList
  | .raw _ => []

def GitPath.hasBackslash : GitPath → Bool
  | .text name _ _ => name.toList.contains '\\'
  | .raw bytes => bytes.contains 0x5c

/-- The entries of the index and of the HEAD tree: mode and blob of each path. -/
structure Repo where
  index : List (GitPath × String)
  head : List (GitPath × String)

namespace Repo

/-- The path is added, modified or deleted in the index. -/
def changed (r : Repo) (n : GitPath) : Prop := r.index.lookup n ≠ r.head.lookup n

instance (r : Repo) (n : GitPath) : Decidable (r.changed n) := by
  unfold changed
  infer_instance

/-- The paths that differ, each once. -/
def delta (r : Repo) : List GitPath :=
  ((r.index ++ r.head).map Prod.fst).dedup.filter fun n => r.changed n

/-- A detected rename is listed only under its new name. -/
def listed (renames : Repo → List (GitPath × GitPath)) (r : Repo) : List GitPath :=
  r.delta.filter fun n => !(renames r).any fun old => old.1 == n

end Repo

/-- `-z` output: each name, ended by NUL. -/
def printedNames (names : List GitPath) : Option String :=
  if names.all GitPath.isText then some (String.ofList (lines.printed (names.map GitPath.chars)))
  else none

/-- The rest of the world as an executor uses it: what an operation answers. -/
structure Answers (σ : Type) where
  answer : (op : Op) → σ → op.Res × σ

/-- What is assumed of git: it lists the paths that differ between index and HEAD
verbatim, each once and in an order of its own, a detected rename under its new name
only, and changes neither of them. -/
structure ListsStaged (A : Answers σ) (view : Path → σ → Repo)
    (renames : Repo → List (GitPath × GitPath)) : Prop where
  rename : ∀ r old new, (old, new) ∈ renames r →
    (r.head.lookup old).isSome ∧ r.index.lookup old = none ∧
      r.head.lookup new = none ∧ (r.index.lookup new).isSome
  listing : ∀ root s out err, (A.answer (.command root staged_args) s).1 = .exited 0 out err →
    ∃ names, names.Perm ((view root s).listed renames) ∧ out = printedNames names
  keeps : ∀ root s, view root (A.answer (.command root staged_args) s).2 = view root s

/-- An executor, with the paths it remembers as staged, and its host. -/
structure Session (σ : Type) where
  host : σ
  staged_paths : String → List String

def step (A : Answers σ) : (op : Op) → Session σ → op.Res × Session σ
  | .owned p, s => (s.staged_paths p, s)
  | .own p paths, s =>
    ((), { s with staged_paths := Function.update s.staged_paths p (s.staged_paths p ++ paths) })
  | .disown p, s => ((), { s with staged_paths := Function.update s.staged_paths p [] })
  | op, s => ((A.answer op s.host).1, { s with host := (A.answer op s.host).2 })

def machine (A : Answers σ) : Machine Unit Op Op.Res (Session σ) := ⟨fun _ => step A⟩

/-- What a call adds to the history of a session. -/
inductive Event
  | staged (project_id : String) (paths : List String)
  | committed (project_id : String)

def eventOf : Except Err Reply → List Event
  | .ok (.STAGED project_id paths) => [.staged project_id paths]
  | .ok (.COMMITTED project_id _ _) => [.committed project_id]
  | _ => []

/-- The name was staged for the project since its last successful commit; the
history is given latest first. -/
def StagedSince (project_id name : String) : List Event → Prop
  | [] => False
  | .staged p paths :: rest => (p = project_id ∧ name ∈ paths) ∨ StagedSince project_id name rest
  | .committed p :: rest => p ≠ project_id ∧ StagedSince project_id name rest

instance (project_id name : String) : ∀ events : List Event,
    Decidable (StagedSince project_id name events)
  | [] => inferInstanceAs (Decidable False)
  | .staged p paths :: rest =>
    have := instDecidableStagedSince project_id name rest
    inferInstanceAs (Decidable ((p = project_id ∧ name ∈ paths) ∨ _))
  | .committed p :: rest =>
    have := instDecidableStagedSince project_id name rest
    inferInstanceAs (Decidable (p ≠ project_id ∧ _))

/-- The path was staged under exactly its own name. -/
def GitPath.StagedIn (events : List Event) (project_id : String) : GitPath → Prop
  | .text name _ _ => StagedSince project_id name events
  | .raw _ => False

section Sessions

variable [Letters] (registry : ProjectRegistry) (A : Answers σ)

/-- The sessions of one executor: its calls in any order, with any change of the
world in between. -/
inductive History : Session σ → List Event → Prop
  | start (host : σ) : History ⟨host, fun _ => []⟩ []
  | outside {s : Session σ} {events : List Event} (h : History s events) (host : σ) :
      History { s with host := host } events
  | git_stage {s : Session σ} {events : List Event} (h : History s events) (project_id : String)
      (paths : List String) :
      History ((git_stage registry project_id paths).run (machine A) () s).2
        (eventOf ((git_stage registry project_id paths).run (machine A) () s).1 ++ events)
  | git_commit {s : Session σ} {events : List Event} (h : History s events)
      (project_id message : String) :
      History ((git_commit registry project_id message).run (machine A) () s).2
        (eventOf ((git_commit registry project_id message).run (machine A) () s).1 ++ events)

end Sessions

/-- Every commit that is created takes only paths that are owned under their names. -/
def CommitsOwned [Letters] (registry : ProjectRegistry) (A : Answers σ) (view : Path → σ → Repo) :
    Prop :=
  ∀ s events, History registry A s events → ∀ project_id message route t,
    registry.get project_id = some route →
      (git_commit registry project_id message).Reaches (machine A) ()
        (.command route.root ["commit", "-m", strip message]) t s →
        ∀ n, (view route.root t.host).changed n → n.StagedIn events project_id

/-- The operation reads or writes what the executor remembers. -/
def Op.remembers : Op → Bool
  | .owned _ => true
  | .own _ _ => true
  | .disown _ => true
  | _ => false

section Solo

variable {A : Answers σ}

/-- A program of the executor that nothing interrupts. -/
abbrev solo (A : Answers σ) (p : Git α) (Post : Except Err α → Session σ → Prop) (s : Session σ) :
    Prop := p.wp (machine A) () Eq (fun _ _ => True) Post s

theorem step_staged_paths {op : Op} (h : op.remembers = false) (s : Session σ) :
    (step A op s).2.staged_paths = s.staged_paths := by
  cases op <;> first | rfl | cases h

theorem solo_act {op : Op} {k : op.Res → Git α} {Post : Except Err α → Session σ → Prop}
    {s : Session σ} (h : solo A (k (step A op s).1) Post (step A op s).2) :
    solo A (.act op k) Post s := by
  rintro s' rfl
  exact ⟨.inr trivial, h⟩

/-- A part that does not touch the memory of the executor, then the rest. -/
theorem solo_quiet {β : Type} {p : Git α} {f : α → Git β} {P : Op → Prop} {Q : α → Prop}
    {Post : Except Err β → Session σ → Prop} {s : Session σ} {m : String → List String}
    (hp : p.Within P Q) (hP : ∀ op, P op → op.remembers = false) (hm : s.staged_paths = m)
    (hf : ∀ a t, t.staged_paths = m → Q a → solo A (f a) Post t)
    (herror : ∀ err t, t.staged_paths = m → Post (.error err) t) :
    solo A (p >>= f) Post s := by
  refine wp_seq.mpr ?_
  induction hp generalizing s with
  | ret ha => exact hf _ s hm ha
  | fail e => exact herror e s hm
  | act hop _ ih => exact solo_act (ih _ ((step_staged_paths (hP _ hop) s).trans hm))

theorem solo_act_seq {β : Type} {op : Op} {f : op.Res → Git β}
    {Post : Except Err β → Session σ → Prop} {s : Session σ}
    (h : solo A (f (step A op s).1) Post (step A op s).2) :
    solo A ((.act op .ret : Git op.Res) >>= f) Post s := solo_act h

end Solo

theorem Audits.forgets {root : Path} {op : Op} (h : Audits root op) : op.remembers = false := by
  cases h <;> rfl

theorem Inspects.forgets [Letters] {root : Path} {operation : String} {items : List String}
    {op : Op} (h : Inspects root operation items op) : op.remembers = false := by
  cases h <;> rfl

theorem AsksDir.forgets {op : Op} (h : AsksDir op) : op.remembers = false := by
  obtain ⟨p, rfl⟩ := h
  rfl

/-- A command in a repository. -/
def RunsIn (root : Path) (op : Op) : Prop := ∃ args, op = .command root args

theorem RunsIn.forgets {root : Path} {op : Op} (h : RunsIn root op) : op.remembers = false := by
  obtain ⟨args, rfl⟩ := h
  rfl

/-- What a call does to the memory of the executor. -/
inductive Recorded [Text] (m : String → List String) : Except Err Reply → (String → List String) → Prop
  | kept {r : Except Err Reply} (h : eventOf r = []) : Recorded m r m
  | staged {project_id : String} {paths : List String}
      (h : ∀ c ∈ paths, ∃ root items, Requests root "GIT_STAGE" items c) :
      Recorded m (.ok (.STAGED project_id paths))
        (Function.update m project_id (m project_id ++ paths))
  | committed (project_id : String) (paths : List String) (output : String) :
      Recorded m (.ok (.COMMITTED project_id paths output)) (Function.update m project_id [])

section Calls

variable [Letters] {A : Answers σ} {registry : ProjectRegistry} {m : String → List String}
  {s : Session σ}

/-- The checks of a call before its lock. -/
theorem solo_applicable {op_class project_id : String} {body : Route → Git Reply}
    (hm : s.staged_paths = m)
    (hbody : ∀ route t, t.staged_paths = m →
      solo A (body route) (fun r u => Recorded m r u.staged_paths) t) :
    solo A (applicable registry op_class project_id body)
      (fun r u => Recorded m r u.staged_paths) s := by
  have hfail : ∀ (err : Err) (t : Session σ), t.staged_paths = m →
      Recorded m (.error err) t.staged_paths := by
    intro err t ht
    rw [ht]
    exact .kept rfl
  unfold applicable
  refine solo_quiet (resolve_project_within registry project_id) (fun _ => AsksDir.forgets) hm
    (fun route t ht _ => ?_) hfail
  refine solo_quiet (within_is_dir (P := AsksDir) ⟨_, rfl⟩) (fun _ => AsksDir.forgets) ht
    (fun repository t ht _ => ?_) hfail
  cases repository with
  | true => exact hbody route t ht
  | false =>
    change Recorded m _ t.staged_paths
    rw [ht]
    exact .kept rfl

omit [Letters] in
theorem solo_raiseIf_seq {α : Type} {condition : Bool} {err : Err} {f : Unit → Git α}
    {Post : Except Err α → Session σ → Prop} (hraise : Post (.error err) s)
    (hf : condition = false → solo A (f ()) Post s) :
    solo A (raiseIf condition err >>= f) Post s := by
  cases condition with
  | true =>
    rw [raiseIf_true]
    exact hraise
  | false =>
    rw [raiseIf_false]
    exact hf rfl

theorem solo_with_git_lock {root : Path} {body : Git Reply} (hm : s.staged_paths = m)
    (hbody : ∀ t, t.staged_paths = m →
      solo A body (fun r u => Recorded m r u.staged_paths) t) :
    solo A (with_git_lock root body) (fun r u => Recorded m r u.staged_paths) s := by
  unfold with_git_lock
  refine solo_act_seq (solo_raiseIf_seq ?_ fun _ => ?_)
  · rw [step_staged_paths rfl, hm]
    exact .kept rfl
  · refine wp_ensuring.mpr (wp_post (hbody _ ((step_staged_paths rfl s).trans hm)) ?_)
    intro r u hr
    refine solo_act ?_
    change Recorded m r _
    rw [step_staged_paths rfl]
    exact hr

theorem solo_stage_locked {route : Route} {project_id : String} {paths : List String}
    (hm : s.staged_paths = m) :
    solo A (stage_locked route project_id paths) (fun r u => Recorded m r u.staged_paths) s := by
  have hfail : ∀ (err : Err) (t : Session σ), t.staged_paths = m →
      Recorded m (.error err) t.staged_paths := by
    intro err t ht
    rw [ht]
    exact .kept rfl
  unfold stage_locked
  refine solo_quiet assert_safe_git_mutation_within (fun _ => Audits.forgets) hm
    (fun _ t ht _ => ?_) hfail
  have hstage : (stage_paths route.root paths).Within (Inspects route.root "GIT_STAGE" paths) _ :=
    stage_paths_within fun _ h => h
  refine solo_quiet hstage
    (fun _ => Inspects.forgets) ht (fun cs t ht hcs => ?_) hfail
  refine solo_quiet (staged_files_within (P := RunsIn route.root) ⟨_, rfl⟩)
    (fun _ => RunsIn.forgets) ht (fun currently_staged t ht _ => ?_) hfail
  refine solo_act_seq ?_
  refine solo_raiseIf_seq (hfail _ _ ht) fun _ => ?_
  refine solo_quiet (within_run_git (P := RunsIn route.root) ⟨_, rfl⟩)
    (fun _ => RunsIn.forgets) ht (fun proc t ht _ => ?_) hfail
  refine solo_raiseIf_seq (hfail _ _ ht) fun _ => ?_
  refine solo_act_seq ?_
  change Recorded m (.ok (.STAGED project_id cs))
    (Function.update t.staged_paths project_id (t.staged_paths project_id ++ cs))
  rw [ht]
  exact .staged fun c hc => ⟨route.root, paths, hcs c hc⟩

theorem solo_git_stage {project_id : String} {paths : List String} (hm : s.staged_paths = m) :
    solo A (git_stage registry project_id paths) (fun r u => Recorded m r u.staged_paths) s := by
  refine solo_applicable hm fun route t ht => solo_raiseIf_seq ?_ fun _ => ?_
  · rw [ht]
    exact .kept rfl
  · exact solo_with_git_lock ht fun u hu => solo_stage_locked hu

theorem solo_commit_locked {route : Route} {project_id clean_msg : String}
    (hm : s.staged_paths = m) :
    solo A (commit_locked route project_id clean_msg) (fun r u => Recorded m r u.staged_paths) s := by
  have hfail : ∀ (err : Err) (t : Session σ), t.staged_paths = m →
      Recorded m (.error err) t.staged_paths := by
    intro err t ht
    rw [ht]
    exact .kept rfl
  unfold commit_locked
  refine solo_quiet assert_safe_git_mutation_within (fun _ => Audits.forgets) hm
    (fun _ t ht _ => ?_) hfail
  refine solo_quiet (staged_files_within (P := RunsIn route.root) ⟨_, rfl⟩)
    (fun _ => RunsIn.forgets) ht (fun staged t ht _ => ?_) hfail
  refine solo_act_seq ?_
  refine solo_raiseIf_seq (hfail _ _ ht) fun _ => solo_raiseIf_seq (hfail _ _ ht) fun _ => ?_
  refine solo_quiet (Within.ofExcept (P := RunsIn route.root) fun _ _ => trivial)
    (fun _ => RunsIn.forgets) ht (fun _ t ht _ => ?_) hfail
  refine solo_quiet (within_run_git (P := RunsIn route.root) ⟨_, rfl⟩)
    (fun _ => RunsIn.forgets) ht (fun proc t ht _ => ?_) hfail
  refine solo_raiseIf_seq (hfail _ _ ht) fun _ => ?_
  refine solo_act_seq ?_
  change Recorded m (.ok (.COMMITTED project_id _ _)) (Function.update t.staged_paths project_id [])
  rw [ht]
  exact .committed _ _ _

theorem solo_git_commit {project_id message : String} (hm : s.staged_paths = m) :
    solo A (git_commit registry project_id message) (fun r u => Recorded m r u.staged_paths) s := by
  refine solo_applicable hm fun route t ht => solo_raiseIf_seq ?_ fun _ => ?_
  · rw [ht]
    exact .kept rfl
  · exact solo_with_git_lock ht fun u hu => solo_commit_locked hu

end Calls

/-- What the executor remembers is what the history says, and only requested paths. -/
structure Remembers [Text] (s : Session σ) (events : List Event) : Prop where
  since : ∀ p name, name ∈ s.staged_paths p ↔ StagedSince p name events
  requested : ∀ p, ∀ c ∈ s.staged_paths p, ∃ root items, Requests root "GIT_STAGE" items c

theorem Remembers.call [Text] {s t : Session σ} {events : List Event} {r : Except Err Reply}
    (h : Remembers s events) (hr : Recorded s.staged_paths r t.staged_paths) :
    Remembers t (eventOf r ++ events) := by
  generalize hm : t.staged_paths = m at hr
  cases hr with
  | kept hnone =>
    rw [hnone, List.nil_append]
    exact ⟨fun p name => by rw [hm]; exact h.since p name, fun p => by rw [hm]; exact h.requested p⟩
  | @staged project_id paths hpaths =>
    refine ⟨fun p name => ?_, fun p c hc => ?_⟩
    · change _ ↔ (project_id = p ∧ name ∈ paths) ∨ StagedSince p name events
      rw [hm, ← h.since p name]
      by_cases hp : p = project_id
      · subst hp
        rw [Function.update_self, List.mem_append, or_comm]
        simp
      · rw [Function.update_of_ne hp]
        simp [Ne.symm hp]
    · rw [hm] at hc
      by_cases hp : p = project_id
      · subst hp
        rw [Function.update_self, List.mem_append] at hc
        rcases hc with hc | hc
        · exact h.requested p c hc
        · exact hpaths c hc
      · rw [Function.update_of_ne hp] at hc
        exact h.requested p c hc
  | committed project_id paths output =>
    refine ⟨fun p name => ?_, fun p c hc => ?_⟩
    · change _ ↔ project_id ≠ p ∧ StagedSince p name events
      rw [hm, ← h.since p name]
      by_cases hp : p = project_id
      · subst hp
        simp
      · rw [Function.update_of_ne hp]
        simp [Ne.symm hp]
    · rw [hm] at hc
      by_cases hp : p = project_id
      · subst hp
        rw [Function.update_self] at hc
        cases hc
      · rw [Function.update_of_ne hp] at hc
        exact h.requested p c hc

theorem History.remembers [Letters] {registry : ProjectRegistry} {A : Answers σ} {s : Session σ}
    {events : List Event} (h : History registry A s events) : Remembers s events := by
  have hrefl : ∀ s : Session σ, s = s := fun _ => rfl
  induction h with
  | start host => exact ⟨fun p name => by simp [StagedSince], fun p c hc => by cases hc⟩
  | outside h host ih => exact ⟨ih.since, ih.requested⟩
  | git_stage h project_id paths ih => exact ih.call (run_of_wp hrefl (solo_git_stage rfl))
  | git_commit h project_id message ih => exact ih.call (run_of_wp hrefl (solo_git_commit rfl))

theorem Requests.plain [Text] {root : Path} {operation : String} {items : List String} {c : String}
    (h : Requests root operation items c) : ∀ ch ∈ c.toList, ch ≠ '\\' ∧ controlChar ch = false := by
  obtain ⟨item, -, target, hok⟩ := h
  obtain ⟨parts, hparts⟩ := canonical_target_parts (assert_permitted_path_eq_ok.mp hok).1
  exact hparts.chars

section Listing

/-- The name as `_staged_files` reads it. -/
def stagedName (cs : List Char) : String := unslashed (String.ofList (lines.translate cs))

/-- A name that reads as a plain one is that name, unless it has a backslash. -/
theorem stagedName_plain {cs : List Char}
    (h : ∀ ch ∈ (stagedName cs).toList, controlChar ch = false) (hback : '\\' ∉ cs) :
    stagedName cs = String.ofList cs := by
  have hcr : '\r' ∉ cs := by
    refine lines.not_mem_of_translate fun hline => ?_
    have hmem : '\n' ∈ (stagedName cs).toList := by
      rw [stagedName, unslashed, String.toList_ofList, slashes, String.toList_ofList]
      exact List.mem_map.mpr ⟨'\n', hline, rfl⟩
    exact absurd (h _ hmem) (by decide)
  rw [stagedName, lines.translate_eq_self hcr, unslashed, slashes, String.toList_ofList]
  refine congrArg String.ofList ((List.map_congr_left fun ch hch => ?_).trans (List.map_id cs))
  refine if_neg ?_
  rintro rfl
  exact hback hch

theorem entries_printed {names : List GitPath} {out : String}
    (h : printedNames names = some out) :
    (entries (translated out)).map unslashed = names.map fun n => stagedName n.chars := by
  unfold printedNames at h
  split at h
  · rename_i htext
    cases h
    have hnames : ∀ r ∈ (names.map GitPath.chars).map lines.translate, r ≠ [] ∧ '\x00' ∉ r := by
      intro r hr
      rw [List.map_map] at hr
      obtain ⟨n, hn, rfl⟩ := List.mem_map.mp hr
      have hn' := List.all_eq_true.mp htext n hn
      cases n with
      | raw bytes => cases hn'
      | text name nonempty flat =>
        refine ⟨lines.translate_ne_nil fun hnil => nonempty ?_,
          lines.nul_not_mem_translateFrom false flat⟩
        exact String.toList_injective hnil
    rw [entries, translated, String.toList_ofList, String.toList_ofList, lines.translate_printed,
      lines.records_printed hnames]
    simp only [List.map_map]
    rfl
  · cases h

end Listing

section Reaching

variable [Letters] {A : Answers σ} {registry : ProjectRegistry} {s t : Session σ} {op : Op}

/-- The command that creates a commit. -/
def Op.commits : Op → Bool
  | .command _ ("commit" :: _) => true
  | _ => false

omit [Letters] in
/-- A part that cannot commit has returned when the rest commits. -/
theorem reaches_rest {α β : Type} {p : Git α} {f : α → Git β} {P : Op → Prop} {Q : α → Prop}
    (hp : p.Within P Q) (hP : ∀ op, P op → op.commits = false) (hop : op.commits = true)
    (h : (p >>= f).Reaches (machine A) () op t s) :
    ∃ a u, p.run (machine A) () s = (.ok a, u) ∧ (f a).Reaches (machine A) () op t u := by
  refine h.of_seq.resolve_left fun hfirst => ?_
  rw [hP op (hp.reaches hfirst)] at hop
  cases hop

omit [Letters] in
theorem reaches_raiseIf_seq {β : Type} {condition : Bool} {err : Err} {f : Unit → Git β}
    (h : (raiseIf condition err >>= f).Reaches (machine A) () op t s) :
    condition = false ∧ (f ()).Reaches (machine A) () op t s := by
  cases condition with
  | true =>
    rw [raiseIf_true] at h
    cases h
  | false =>
    rw [raiseIf_false] at h
    exact ⟨rfl, h⟩

omit [Letters] in
theorem Audits.commits {root : Path} (h : Audits root op) : op.commits = false := by
  cases h <;> rfl

omit [Letters] in
theorem AsksDir.commits (h : AsksDir op) : op.commits = false := by
  obtain ⟨p, rfl⟩ := h
  rfl

omit [Letters] in
/-- A command that ran to its end printed text. -/
theorem completed_ok {ran : Ran} {proc : CompletedProcess} (h : completed ran = .ok proc) :
    ∃ returncode out err, ran = .exited returncode (some out) (some err) ∧
      proc = ⟨returncode, translated out, translated err⟩ := by
  cases ran with
  | raised err => cases h
  | exited returncode out err =>
    cases out with
    | none => cases h
    | some out =>
      cases err with
      | none => cases h
      | some err =>
        cases h
        exact ⟨returncode, out, err, rfl, rfl⟩

omit [Letters] in
theorem run_git_run {root : Path} {args : List String} {proc : CompletedProcess}
    {u : Session σ}
    (h : (run_git root args).run (machine A) () s = (.ok proc, u)) :
    completed (A.answer (.command root args) s.host).1 = .ok proc ∧
      u = { s with host := (A.answer (.command root args) s.host).2 } := by
  change (Prog.ofExcept (completed (A.answer (.command root args) s.host).1) :
    Git CompletedProcess).run (machine A) ()
      { s with host := (A.answer (.command root args) s.host).2 } = _ at h
  cases hran : completed (A.answer (.command root args) s.host).1 with
  | error err =>
    rw [hran] at h
    cases h
  | ok proc' =>
    rw [hran] at h
    cases h
    exact ⟨rfl, rfl⟩

omit [Letters] in
/-- A command that the host runs to its end. -/
theorem run_git_answer {root : Path} {args : List String} {returncode : Int} {out err : String}
    (h : (A.answer (.command root args) s.host).1 = .exited returncode (some out) (some err)) :
    (run_git root args).run (machine A) () s = (.ok ⟨returncode, translated out, translated err⟩,
      { s with host := (A.answer (.command root args) s.host).2 }) := by
  change (Prog.ofExcept (completed (A.answer (.command root args) s.host).1) :
    Git CompletedProcess).run (machine A) () _ = _
  rw [h]
  rfl

omit [Letters] in
theorem raiseIf_run {condition : Bool} {err : Err} {a : Unit} {u : Session σ}
    (h : (raiseIf condition err).run (machine A) () s = (.ok a, u)) :
    condition = false ∧ u = s := by
  cases condition with
  | true =>
    rw [raiseIf_true] at h
    cases h
  | false =>
    rw [raiseIf_false] at h
    cases h
    exact ⟨rfl, rfl⟩

omit [Letters] in
/-- A listing that succeeds has read what git printed. -/
theorem staged_files_run {root : Path} {names : List String} {u : Session σ}
    (h : (staged_files root).run (machine A) () s = (.ok names, u)) :
    ∃ out err, (A.answer (.command root staged_args) s.host).1 = .exited 0 (some out) err ∧
      names = (entries (translated out)).map unslashed ∧
        u = { s with host := (A.answer (.command root staged_args) s.host).2 } := by
  unfold staged_files at h
  obtain ⟨proc, v, hproc, hrest⟩ := run_seq_ok _ _ h
  obtain ⟨hdone, hv⟩ := run_git_run hproc
  obtain ⟨returncode, out, err, hran, rfl⟩ := completed_ok hdone
  obtain ⟨a, w, hraise, hend⟩ := run_seq_ok _ _ hrest
  obtain ⟨hcode, hw⟩ := raiseIf_run hraise
  have hzero : returncode = 0 := by simpa using hcode
  obtain ⟨hnames, hhost⟩ := Prod.mk.inj hend
  rw [hran, hzero]
  exact ⟨out, some err, rfl, (Except.ok.inj hnames).symm, by rw [← hhost, hw, hv]⟩

omit [Letters] in
theorem reaches_act_seq {β : Type} {op' : Op} {f : op'.Res → Git β} (hop : op.commits = true)
    (hop' : op'.commits = false)
    (h : ((.act op' .ret : Git op'.Res) >>= f).Reaches (machine A) () op t s) :
    (f (step A op' s).1).Reaches (machine A) () op t (step A op' s).2 := by
  cases h with
  | here =>
    rw [hop'] at hop
    cases hop
  | later h => exact h

omit [Letters] in
theorem run_ofExcept {α : Type} {r : Except Err α} {a : α} {u : Session σ}
    (h : (Prog.ofExcept r : Git α).run (machine A) () s = (.ok a, u)) : u = s := by
  cases r with
  | ok b =>
    cases h
    rfl
  | error err => cases h

omit [Letters] in
/-- A command performs itself only, and at once. -/
theorem command_reached {root : Path} {args : List String}
    (h : (run_git root args).Reaches (machine A) () op t s) : t = s ∧ op = .command root args := by
  cases h with
  | here => exact ⟨rfl, rfl⟩
  | later hdone =>
    have hno := Within.reaches (P := fun _ => False) (Q := fun _ => True)
      (Within.ofExcept fun _ _ => trivial) hdone
    exact hno.elim

/-- When a commit is created, the names that git lists as staged are owned. -/
theorem commit_locked_reaches {route : Route} {project_id clean_msg : String}
    (hop : op.commits = true)
    (h : (commit_locked route project_id clean_msg).Reaches (machine A) () op t s) :
    ∃ u names, (staged_files route.root).run (machine A) () u = (.ok names, t) ∧
      op = .command route.root ["commit", "-m", clean_msg] ∧
        u.staged_paths = s.staged_paths ∧ ∀ x ∈ names, x ∈ s.staged_paths project_id := by
  unfold commit_locked at h
  obtain ⟨_, u, hu, h⟩ := reaches_rest assert_safe_git_mutation_within
    (fun _ => Audits.commits) hop h
  have hmemory : u.staged_paths = s.staged_paths := by
    have haudit : (assert_safe_git_mutation route.root).Within (Audits route.root) fun _ => True :=
      assert_safe_git_mutation_within
    have hkeep := haudit.run (M := machine A) (i := ()) (I := fun v => v.staged_paths = s.staged_paths)
      (fun op v hop hv => (step_staged_paths hop.forgets v).trans hv) rfl
    rwa [hu] at hkeep
  obtain ⟨names, v, hstaged, h⟩ := reaches_rest
    (staged_files_within (P := fun op => op = .command route.root staged_args) rfl)
    (fun _ heq => by rw [heq]; rfl) hop h
  have hmemory' : v.staged_paths = s.staged_paths := by
    obtain ⟨out, err, -, -, rfl⟩ := staged_files_run hstaged
    exact hmemory
  have h := reaches_act_seq hop rfl h
  obtain ⟨-, h⟩ := reaches_raiseIf_seq h
  obtain ⟨hunowned, h⟩ := reaches_raiseIf_seq h
  obtain ⟨_, v', hv', hcommit⟩ := reaches_rest
    (Within.ofExcept (P := fun _ => False) (Q := fun _ => True) fun _ _ => trivial)
    (fun _ => False.elim) hop h
  have hsame : v' = v := run_ofExcept hv'
  subst hsame
  have howned : ∀ x ∈ names, x ∈ s.staged_paths project_id := by
    intro x hx
    rw [Bool.not_eq_false', List.isEmpty_iff, List.filter_eq_nil_iff] at hunowned
    have hmiss : ¬ (!(v'.staged_paths project_id).contains x) = true := hunowned x hx
    rw [Bool.not_eq_true, Bool.not_eq_false', List.contains_iff_mem, hmemory'] at hmiss
    exact hmiss
  refine ⟨u, names, ?_⟩
  rcases hcommit.of_seq with hnow | ⟨proc, w, -, hlater⟩
  · obtain ⟨rfl, hcmd⟩ := command_reached hnow
    exact ⟨hstaged, hcmd, hmemory, howned⟩
  · obtain ⟨-, hlater⟩ := reaches_raiseIf_seq hlater
    have hdone := reaches_act_seq hop rfl hlater
    cases hdone

/-- What is reached in a call is reached behind the checks of its project. -/
theorem applicable_reaches {op_class project_id : String} {body : Route → Git Reply}
    {I : Session σ → Prop} (hI : ∀ op v, AsksDir op → I v → I (step A op v).2) (hs : I s)
    (hop : ¬ AsksDir op)
    (h : (applicable registry op_class project_id body).Reaches (machine A) () op t s) :
    ∃ route u, registry.get project_id = some route ∧ I u ∧
      (body route).Reaches (machine A) () op t u := by
  unfold applicable at h
  have hresolve := resolve_project_within registry project_id
  obtain ⟨route, u, hu, h⟩ := hresolve.reaches_rest hop h
  have hkept := hresolve.run (M := machine A) (i := ()) hI hs
  rw [hu] at hkept
  have hdir : (is_dir (joined route.root ".git")).Within AsksDir fun _ => True :=
    within_is_dir ⟨_, rfl⟩
  obtain ⟨repository, v, hv, h⟩ := hdir.reaches_rest hop h
  have hkept' := hdir.run (M := machine A) (i := ()) hI hkept
  rw [hv] at hkept'
  cases repository with
  | false => cases h
  | true => exact ⟨route, v, hresolve.returned hu, hkept', h⟩

omit [Letters] in
/-- What is reached under the lock is reached by the body. -/
theorem with_git_lock_reaches {root : Path} {body : Git Reply} {I : Session σ → Prop}
    (hI : ∀ v, I v → I (step A (.acquire (lock_name_for_resource .git root)) v).2) (hs : I s)
    (hacquire : op ≠ .acquire (lock_name_for_resource .git root))
    (hrelease : op ≠ .release (lock_name_for_resource .git root))
    (h : (with_git_lock root body).Reaches (machine A) () op t s) :
    ∃ u, I u ∧ body.Reaches (machine A) () op t u := by
  unfold with_git_lock at h
  cases h with
  | here => exact absurd rfl hacquire
  | later h =>
    obtain ⟨-, h⟩ := reaches_raiseIf_seq h
    rcases h.of_ensuring with h | h
    · exact ⟨_, hI s hs, h⟩
    · cases h with
      | here => exact absurd rfl hrelease
      | later h => cases h

theorem git_commit_reaches {project_id message : String} (hop : op.commits = true)
    (h : (git_commit registry project_id message).Reaches (machine A) () op t s) :
    ∃ route u names, registry.get project_id = some route ∧
      (staged_files route.root).run (machine A) () u = (.ok names, t) ∧
      op = .command route.root ["commit", "-m", strip message] ∧
        ∀ x ∈ names, x ∈ s.staged_paths project_id := by
  have hne : ∀ op', op'.commits = false → op ≠ op' := by
    rintro op' hop' rfl
    rw [hop'] at hop
    cases hop
  obtain ⟨route, u, hroute, hu, h⟩ := applicable_reaches
    (I := fun v => v.staged_paths = s.staged_paths)
    (fun op v hop hv => (step_staged_paths hop.forgets v).trans hv) rfl
    (fun hdir => hne op hdir.commits rfl) h
  obtain ⟨-, h⟩ := reaches_raiseIf_seq h
  obtain ⟨v, hv, h⟩ := with_git_lock_reaches (I := fun v => v.staged_paths = s.staged_paths)
    (fun v hv => (step_staged_paths rfl v).trans hv) hu (hne _ rfl) (hne _ rfl) h
  obtain ⟨w, names, hstaged, hcmd, -, howned⟩ := commit_locked_reaches hop h
  rw [hv] at howned
  exact ⟨route, w, names, hroute, hstaged, hcmd, howned⟩

end Reaching

theorem Repo.mem_delta {r : Repo} {n : GitPath} : n ∈ r.delta ↔ r.changed n := by
  rw [delta, List.mem_filter, decide_eq_true_iff, List.mem_dedup]
  refine ⟨fun h => h.2, fun h => ⟨?_, h⟩⟩
  by_contra hmiss
  have hnone : ∀ l : List (GitPath × String), (∀ e ∈ l, e.1 ≠ n) → l.lookup n = none := by
    intro l hl
    rw [List.lookup_eq_none_iff]
    intro e he
    simpa using (hl e he).symm
  refine h ?_
  rw [hnone r.index fun e he heq => hmiss (List.mem_map.mpr ⟨e, List.mem_append_left _ he, heq⟩),
    hnone r.head fun e he heq => hmiss (List.mem_map.mpr ⟨e, List.mem_append_right _ he, heq⟩)]

/-- What differs is listed or is the old name of a rename. -/
theorem Repo.listed_or_renamed (renames : Repo → List (GitPath × GitPath)) {r : Repo} {n : GitPath}
    (h : r.changed n) : n ∈ r.listed renames ∨ ∃ new, (n, new) ∈ renames r := by
  by_cases hrename : (renames r).any (fun old => old.1 == n) = true
  · obtain ⟨⟨old, new⟩, hold, heq⟩ := List.any_eq_true.mp hrename
    have heq' : old = n := by simpa using heq
    subst heq'
    exact .inr ⟨new, hold⟩
  · refine .inl ?_
    rw [Repo.listed, List.mem_filter]
    rw [Bool.not_eq_true] at hrename
    exact ⟨Repo.mem_delta.mpr h, by rw [hrename]; rfl⟩

section Sample

def lowerLetter (c : Char) : Char := if c = '\u212a' then 'k' else c.toLower

theorem lowerLetter_piece (c : Char) : LowerPiece c [lowerLetter c] where
  nonempty := List.cons_ne_nil _ _
  flat h := by
    rw [List.mem_singleton, lowerLetter]
    split
    · decide
    · exact (ascii.toLower_ne_newline h).symm
  plain h := by
    rw [lowerLetter, if_neg]
    rintro rfl
    exact absurd h (by decide)
  alike h := by
    rcases h with rfl | rfl <;> decide
  kelvin h := by
    rw [h]
    rfl

@[reducible] def asciiLetters : Letters :=
  { asciiText with
    lower := fun s => String.ofList (s.toList.map lowerLetter)
    lower_pieces := fun s => ⟨s.toList.map fun c => [lowerLetter c], by
      rw [String.toList_ofList, ← List.flatMap_def, List.map_eq_flatMap], by
      rw [List.forall₂_map_right_iff, List.forall₂_same]
      exact fun c _ => lowerLetter_piece c⟩ }

def sampleRegistry : ProjectRegistry := ⟨[⟨⟨"app", by decide⟩, "/w/app", "active"⟩]⟩

/-- A repository with the files of its worktree. -/
structure Checkout extends Repo where
  worktree : List (GitPath × String)

/-- A deleted and an added path with the same blob. -/
def sameBlob (r : Repo) : List (GitPath × GitPath) :=
  (r.head.filter fun old => (r.index.lookup old.1).isNone).flatMap fun old =>
    (r.index.filter fun new => (r.head.lookup new.1).isNone && new.2 == old.2).map fun new =>
      (old.1, new.1)

def named (s : String) : List GitPath :=
  if h : s ≠ "" ∧ '\x00' ∉ s.toList then [.text s h.1 h.2] else []

/-- `git add` of one path: its file becomes its entry. -/
def Checkout.add (c : Checkout) (n : GitPath) : Checkout :=
  let others := c.index.filter fun e => e.1 != n
  match c.worktree.lookup n with
  | some blob => { c with index := (n, blob) :: others }
  | none => { c with index := others }

def sampleCommand (args : List String) (c : Checkout) : Ran × Checkout :=
  match args with
  | "rev-parse" :: _ => (.exited 0 (some "/w/app\n") (some ""), c)
  | "ls-tree" :: _ => (.exited 128 (some "") (some "fatal: Not a valid object name HEAD"), c)
  | "add" :: "--" :: paths =>
    (.exited 0 (some "") (some ""), (paths.flatMap named).foldl Checkout.add c)
  | "commit" :: _ => (.exited 0 (some "") (some ""), { c with head := c.index })
  | _ => (.exited 0 (some "") (some ""), c)

/-- The order in which git lists paths. -/
def inOrder (names : List GitPath) : List GitPath :=
  names.insertionSort fun n n' => n.chars.map Char.toNat ≤ n'.chars.map Char.toNat

def sampleAnswers : Answers Checkout where
  answer
    | .is_dir p, c => (p == "/w/app" || p == "/w/app/.git", c)
    | .is_file _, c => (false, c)
    | .read_text _, c => (none, c)
    | .command _ args, c =>
      if args = staged_args then
        (.exited 0 (printedNames (inOrder (c.toRepo.listed sameBlob))) (some ""), c)
      else sampleCommand args c
    | .command_capped _ _ _, c => (.error .TimeoutExpired, c)
    | .owned _, c => ([], c)
    | .own _ _, c => ((), c)
    | .disown _, c => ((), c)
    | .acquire _, c => (true, c)
    | .release _, c => ((), c)

def sampleView (_ : Path) (c : Checkout) : Repo := c.toRepo

theorem lookup_isSome {l : List (GitPath × String)} {e : GitPath × String} (h : e ∈ l) :
    (l.lookup e.1).isSome := by
  rw [Option.isSome_iff_ne_none]
  intro hnone
  rw [List.lookup_eq_none_iff] at hnone
  simpa using hnone e h

theorem sample_lists : ListsStaged sampleAnswers sampleView sameBlob where
  rename := by
    intro r old new h
    simp only [sameBlob, List.mem_flatMap, List.mem_filter, List.mem_map] at h
    obtain ⟨e, ⟨he, hindex⟩, e', ⟨he', hhead⟩, heq⟩ := h
    cases heq
    rw [Bool.and_eq_true] at hhead
    exact ⟨lookup_isSome he, by simpa using hindex, by simpa using hhead.1, lookup_isSome he'⟩
  listing := by
    intro root s out err h
    have hanswer : (sampleAnswers.answer (.command root staged_args) s).1 =
        .exited 0 (printedNames (inOrder (s.toRepo.listed sameBlob))) (some "") := rfl
    rw [hanswer] at h
    cases h
    exact ⟨_, List.perm_insertionSort _ _, rfl⟩
  keeps := fun _ _ => rfl

def fileA : GitPath := .text "a.txt" (by decide) (by decide)

/-- A tracked file that was edited. -/
def editedCheckout : Checkout :=
  { index := [(fileA, "1")]
    head := [(fileA, "1")]
    worktree := [(fileA, "2")] }

/-- A tracked file that was moved by `git mv`. -/
def movedCheckout : Checkout :=
  { index := [(.text "new.txt" (by decide) (by decide), "1")]
    head := [(.text "old.txt" (by decide) (by decide), "1")]
    worktree := [(.text "new.txt" (by decide) (by decide), "1")] }

def stagedRun (c : Checkout) (path : String) : Except Err Reply × Session Checkout :=
  (@git_stage asciiLetters sampleRegistry "app" [path]).run (machine sampleAnswers) ()
    ⟨c, fun _ => []⟩

def stagedEvents (c : Checkout) (path : String) : List Event := eventOf (stagedRun c path).1 ++ []

/-- The commit of what was staged, after its checks. -/
def commitRun (c : Checkout) (path : String) : Git Reply × Session Checkout :=
  (@git_commit asciiLetters sampleRegistry "app" "m").after (machine sampleAnswers) () 9
    (stagedRun c path).2

end Sample

end jvc.git
