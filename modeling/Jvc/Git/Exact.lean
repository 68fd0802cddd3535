import Jvc.Git.Ownership
import Jvc.Lib.Utf8
import Jvc.Policy.Respelling
import Mathlib.Data.List.TakeWhile

open program program.Prog jvc.recovery jvc.policy

namespace jvc.git

variable {σ ω α : Type}

/-- The pathspec is the entry or a directory above it. -/
def GitPath.matchedBy (c : String) : GitPath → Bool
  | .text name _ _ => name == c || (c.toList ++ ['/']).isPrefixOf name.toList
  | .raw bytes =>
    utf8.encode c.toList == bytes || (utf8.encode (c.toList ++ ['/'])).isPrefixOf bytes

def matching (c : String) (entries : List (GitPath × String)) : List GitPath :=
  (entries.map Prod.fst).filter (GitPath.matchedBy c)

/-- A pathspec that git takes as it is spelled: a relative path in its normal form,
without wildcards and without magic. -/
structure Literal (c : String) : Prop where
  names : ∃ parts : List String, parts ≠ [] ∧ c = "/".intercalate parts ∧
    ∀ x ∈ parts, x ≠ "" ∧ x ≠ "." ∧ x ≠ ".." ∧ '/' ∉ x.toList
  plain : ∀ ch ∈ c.toList, ch ≠ '\\' ∧ ch ≠ ':' ∧ controlChar ch = false ∧
    "*?[]{}".toList.contains ch = false

/-- The operation may change the index, the HEAD tree or the worktree. -/
def Op.changes : Op → Bool
  | .command _ ["config", "--list", "--show-origin"] => false
  | .command _ (verb :: _) =>
    !(["rev-parse", "ls-files", "ls-tree", "check-attr", "diff", "status", "check-ref-format",
      "show-ref"].contains verb)
  | .command _ [] => true
  | _ => false

/-- The operation asks about a path of the repository. -/
def Op.LooksIn (root : Path) : Op → Prop
  | .is_dir p => ∃ parts, p = ofParts (resolveParts (components root.toList) ++ parts)
  | .command root' (verb :: _) => root' = root ∧ verb ∈ ["ls-files", "ls-tree", "check-attr"]
  | _ => False

/-- What is assumed of git and of the host: the listings of a pathspec succeed and
give the entries that it matches, and looking changes nothing and depends on
nothing but the index, the HEAD tree and the worktree. -/
structure Tells (A : Answers σ) (view : Path → σ → ω) (repo : ω → Repo) : Prop where
  index : ∀ root c s, Literal c →
    ∃ err, (A.answer (.command root ["ls-files", "-z", "--", c]) s).1 =
      .exited 0 (printedNames (matching c (repo (view root s)).index)) err
  head : ∀ root c s, Literal c → (repo (view root s)).head = [] ∨
    ∃ err, (A.answer (.command root ["ls-tree", "-r", "--name-only", "-z", "HEAD", "--", c]) s).1 =
      .exited 0 (printedNames (matching c (repo (view root s)).head)) err
  keeps : ∀ root op s, op.changes = false → view root (A.answer op s).2 = view root s
  sees : ∀ root op s t, op.LooksIn root → view root s = view root t →
    (A.answer op s).1 = (A.answer op t).1

/-- Every entry that the pathspec matches is the one it names. -/
def NamesOne (r : Repo) (c : String) : Prop :=
  ∀ n ∈ (r.index ++ r.head).map Prod.fst, n.matchedBy c = true → ∃ h h', n = .text c h h'

/-- The pathspecs are the requested paths, each permitted and the name of at most
one entry. -/
structure Exact [Text] (root : Path) (operation : String) (items : List String) (r : Repo)
    (cs : List String) : Prop where
  requested : List.Forall₂ (fun item c =>
    ∃ target, assert_permitted_path root item operation false = .ok (target, c)) items cs
  open_paths : ∀ c ∈ cs, is_secret_path c = false ∧ is_control_plane_path c = false
  only : ∀ c ∈ cs, NamesOne r c

theorem Exact.cons [Text] {root : Path} {operation : String} {r : Repo} {item c : String} {items cs : List String}
    (hok : ∃ target, assert_permitted_path root item operation false = .ok (target, c))
    (honly : NamesOne r c) (h : Exact root operation items r cs) :
    Exact root operation (item :: items) r (c :: cs) := by
  obtain ⟨target, hok⟩ := hok
  obtain ⟨-, hsecret, hcontrol⟩ := assert_permitted_path_eq_ok.mp hok
  refine ⟨.cons ⟨target, hok⟩ h.requested, List.forall_mem_cons.mpr ⟨⟨hsecret, ?_⟩, h.open_paths⟩,
    List.forall_mem_cons.mpr ⟨honly, h.only⟩⟩
  exact hcontrol.resolve_left Bool.false_ne_true

section Listings

/-- `rstrip("/")` cuts off slashes. -/
theorem rstrip_slash (cs : List Char) :
    ∃ cut, cs = (cs.reverse.dropWhile (· = '/')).reverse ++ cut ∧ ∀ ch ∈ cut, ch = '/' := by
  refine ⟨(cs.reverse.takeWhile (· = '/')).reverse, ?_, fun ch hch => ?_⟩
  · rw [← List.reverse_append, List.takeWhile_append_dropWhile, List.reverse_reverse]
  · simpa using List.mem_takeWhile_imp (List.mem_reverse.mp hch)

theorem expands_below {c entry : String} {below : List Char}
    (h : (unslashed entry).toList = c.toList ++ '/' :: below) : expands c entry = true := by
  have hne : unslashed entry ≠ c := by
    rintro heq
    have hlength := congrArg List.length h
    rw [heq, List.length_append, List.length_cons] at hlength
    omega
  have habove : (c.toList.reverse.dropWhile (· = '/')).reverse ++ ['/'] <+:
      (unslashed entry).toList := by
    obtain ⟨cut, hcut, hslash⟩ := rstrip_slash c.toList
    rw [h]
    generalize (c.toList.reverse.dropWhile (· = '/')).reverse = front at hcut ⊢
    rw [hcut, List.append_assoc, List.prefix_append_right_inj]
    cases cut with
    | nil => exact ⟨below, rfl⟩
    | cons ch more =>
      rw [hslash ch List.mem_cons_self]
      exact ⟨more ++ '/' :: below, rfl⟩
  rw [expands, Bool.and_eq_true, Bool.or_eq_true]
  exact ⟨by simpa using hne, .inl (List.isPrefixOf_iff_prefix.mpr habove)⟩

/-- A name below a plain directory reads as a name below it. -/
theorem stagedName_below {c name : String} (hplain : ∀ ch ∈ c.toList, ch ≠ '\\' ∧ ch ≠ '\r')
    {below : List Char} (h : c.toList ++ ['/'] ++ below = name.toList) :
    ∃ below', (stagedName name.toList).toList = c.toList ++ '/' :: below' := by
  have hcr : '\r' ∉ c.toList ++ ['/'] := by
    intro hmem
    rcases List.mem_append.mp hmem with hmem | hmem
    · exact (hplain _ hmem).2 rfl
    · exact absurd (List.mem_singleton.mp hmem) (by decide)
  have hback : (c.toList ++ ['/']).map (fun ch => if ch = '\\' then '/' else ch) =
      c.toList ++ ['/'] := by
    refine (List.map_congr_left fun ch hch => if_neg ?_).trans (List.map_id _)
    rcases List.mem_append.mp hch with hch | hch
    · exact (hplain ch hch).1
    · rw [List.mem_singleton.mp hch]
      decide
  refine ⟨(lines.translate below).map fun ch => if ch = '\\' then '/' else ch, ?_⟩
  rw [stagedName, unslashed, String.toList_ofList, slashes, String.toList_ofList, ← h,
    lines.translate_append hcr, List.map_append, hback, List.append_assoc, List.singleton_append]

/-- A listing in which no entry expands the pathspec has no entry below it. -/
theorem named_of_listing {c out : String} {entries' : List (GitPath × String)}
    (hplain : ∀ ch ∈ c.toList, ch ≠ '\\' ∧ ch ≠ '\r')
    (hprinted : printedNames (matching c entries') = some out)
    (hnone : (entries (translated out)).any (expands c) = false) :
    ∀ n ∈ entries'.map Prod.fst, n.matchedBy c = true → ∃ h h', n = .text c h h' := by
  intro n hn hmatch
  have hlisted : n ∈ matching c entries' := List.mem_filter.mpr ⟨hn, hmatch⟩
  cases n with
  | raw bytes =>
    unfold printedNames at hprinted
    split at hprinted
    · rename_i htext
      exact absurd (List.all_eq_true.mp htext _ hlisted) Bool.false_ne_true
    · cases hprinted
  | text name nonempty flat =>
    rw [GitPath.matchedBy, Bool.or_eq_true, beq_iff_eq, List.isPrefixOf_iff_prefix] at hmatch
    rcases hmatch with rfl | ⟨below, hbelow⟩
    · exact ⟨nonempty, flat, rfl⟩
    · exfalso
      have hname : stagedName name.toList ∈ (entries (translated out)).map unslashed := by
        rw [entries_printed hprinted]
        exact List.mem_map.mpr ⟨.text name nonempty flat, hlisted, rfl⟩
      obtain ⟨entry, hentry, heq⟩ := List.mem_map.mp hname
      obtain ⟨below', hbelow'⟩ := stagedName_below hplain hbelow
      rw [← heq] at hbelow'
      exact List.any_eq_false.mp hnone entry hentry (expands_below hbelow')

end Listings

section Runs

variable {A : Answers σ} {s u : Session σ}

/-- A listing that the check lets pass has no entry that expands the pathspec. -/
theorem assert_no_expansion_run {root : Path} {c : String} {args : List String} {a : Unit}
    {names : List GitPath} {stderr : Option String}
    (h : (assert_no_expansion root c args).run (machine A) () s = (.ok a, u))
    (hanswer : (A.answer (.command root args) s.host).1 = .exited 0 (printedNames names) stderr) :
    ∃ out, printedNames names = some out ∧ (entries (translated out)).any (expands c) = false := by
  unfold assert_no_expansion at h
  obtain ⟨proc, v, hproc, h⟩ := run_seq_ok (machine A) () h
  obtain ⟨hdone, -⟩ := run_git_run hproc
  rw [hanswer] at hdone
  cases hout : printedNames names with
  | none =>
    rw [hout] at hdone
    cases hdone
  | some out =>
    cases stderr with
    | none =>
      rw [hout] at hdone
      cases hdone
    | some stderr =>
      rw [hout] at hdone
      cases hdone
      obtain ⟨hnone, -⟩ := raiseIf_run h
      rw [beq_self_eq_true, Bool.true_and] at hnone
      exact ⟨out, rfl, hnone⟩

end Runs

theorem Audits.keeps {root : Path} {op : Op} (h : Audits root op) : op.changes = false := by
  cases h <;> rfl

theorem AsksDir.keeps {op : Op} (h : AsksDir op) : op.changes = false := by
  obtain ⟨p, rfl⟩ := h
  rfl

theorem Inspects.keeps [Letters] {root : Path} {operation : String} {items : List String} {op : Op}
    (h : Inspects root operation items op) : op.changes = false := by
  cases h <;> rfl

theorem Inspects.looks [Letters] {root : Path} {operation : String} {items : List String}
    {op : Op} (h : Inspects root operation items op) : op.LooksIn root := by
  cases h with
  | is_dir p c item hp =>
    obtain ⟨parts, hparts⟩ := canonical_target_parts (assert_permitted_path_eq_ok.mp hp).1
    exact ⟨parts, hparts.target⟩
  | index | head | attributes => exact ⟨rfl, by simp⟩

/-- A canonical path of a text without wildcards is a literal pathspec. -/
theorem literal_of_permitted [Text] {root target : Path} {item operation c : String}
    (h : assert_permitted_path root item operation false = .ok (target, c))
    (hwild : hasWildcard item = false) : Literal c := by
  have hcanonical := (assert_permitted_path_eq_ok.mp h).1
  obtain ⟨hrelative, names, hne, hleads, -, hc⟩ := canonical_target_ok.mp hcanonical
  have hmem := mem_components_of_leads hleads
  have hparts := canonicalParts_of_leads hcanonical hne hmem hc
  refine ⟨⟨names, hne, hc, fun x hx => ?_⟩, fun ch hch => ?_⟩
  · obtain ⟨hempty, hdot, hdots, hchars⟩ := hparts.plain x hx
    exact ⟨hempty, hdot, hdots, fun hslash => (hchars _ hslash).1 rfl⟩
  · obtain ⟨hback, hcontrol⟩ := hparts.chars ch hch
    rw [hc] at hch
    rcases mem_joined hch with rfl | ⟨x, hx, hch⟩
    · decide
    · have hread : ch ∈ stripped item := ((mem_components (hmem x hx)).2 ch hch).1
      refine ⟨hback, ?_, hcontrol, ?_⟩
      · rintro rfl
        exact hrelative.inside (.inr hread)
      · have hslashes := mem_strip hread
        rw [String.toList_ofList] at hslashes
        obtain ⟨ch', hitem, heq⟩ := List.mem_map.mp hslashes
        split at heq
        · rw [← heq]
          decide
        · rw [← heq]
          simpa using List.any_eq_false.mp hwild ch' hitem

section Views

variable {A : Answers σ} {view : Path → σ → ω} {repo : ω → Repo} (hgit : Tells A view repo)
  {root : Path} {s t u : Session σ}

include hgit

theorem step_view {op : Op} (h : op.changes = false) (s : Session σ) :
    view root (step A op s).2.host = view root s.host := by
  cases op <;> first | rfl | exact hgit.keeps root _ s.host h

theorem run_view {p : Git α} {P : Op → Prop} {Q : α → Prop} {r : Except Err α}
    (hp : p.Within P Q) (hP : ∀ op, P op → op.changes = false)
    (h : p.run (machine A) () s = (r, u)) : view root u.host = view root s.host := by
  have hkeep := hp.run (M := machine A) (i := ()) (I := fun v => view root v.host = view root s.host)
    (fun op v hop hv => (step_view hgit (hP op hop) v).trans hv) rfl
  rwa [h] at hkeep

variable [Letters] {operation : String} {items : List String} {c : String}

theorem assert_exact_file_target_run (hc : Requests root operation items c) (hliteral : Literal c)
    {a : Unit} (h : (assert_exact_file_target root c).run (machine A) () s = (.ok a, u)) :
    NamesOne (repo (view root s.host)) c := by
  unfold assert_exact_file_target at h
  obtain ⟨a', v, hindex, hhead⟩ := run_seq_ok (machine A) () h
  have hplain : ∀ ch ∈ c.toList, ch ≠ '\\' ∧ ch ≠ '\r' := by
    intro ch hch
    refine ⟨(hc.plain ch hch).1, ?_⟩
    rintro rfl
    exact absurd (hc.plain _ hch).2 (by decide)
  have hview : view root v.host = view root s.host :=
    run_view hgit (assert_no_expansion_within (.index c hc)) (fun _ => Inspects.keeps) hindex
  intro n hn hmatch
  rw [List.map_append, List.mem_append] at hn
  rcases hn with hn | hn
  · obtain ⟨stderr, hanswer⟩ := hgit.index root c s.host hliteral
    obtain ⟨out, hprinted, hnone⟩ := assert_no_expansion_run hindex hanswer
    exact named_of_listing hplain hprinted hnone n hn hmatch
  · rcases hgit.head root c v.host hliteral with hnil | ⟨stderr, hanswer⟩
    · rw [hview] at hnil
      rw [hnil] at hn
      cases hn
    · obtain ⟨out, hprinted, hnone⟩ := assert_no_expansion_run hhead hanswer
      rw [hview] at hprinted
      exact named_of_listing hplain hprinted hnone n hn hmatch

/-- A requested path that passes its checks is the name of at most one entry. -/
theorem checked_path_run {item directory : String} (hwild : hasWildcard item = false)
    (h : (checked_path root item operation directory).run (machine A) () s = (.ok c, u)) :
    (∃ target, assert_permitted_path root item operation false = .ok (target, c)) ∧
      NamesOne (repo (view root s.host)) c := by
  unfold checked_path at h
  cases hok : assert_permitted_path root item operation false with
  | error err =>
    rw [hok] at h
    cases h
  | ok found =>
    obtain ⟨target, c'⟩ := found
    rw [hok] at h
    have hc : Requests root operation [item] c' := ⟨item, List.mem_singleton_self _, target, hok⟩
    obtain ⟨found, s', hfound, hchecks⟩ := run_seq_ok (machine A) () h
    cases hfound
    obtain ⟨folder, v, hfolder, hrest⟩ := run_seq_ok (machine A) () hchecks
    obtain ⟨a, v', hraise, hexact⟩ := run_seq_ok (machine A) () hrest
    obtain ⟨-, rfl⟩ := raiseIf_run hraise
    obtain ⟨a', w, htarget, hattrs⟩ := run_seq_ok (machine A) () hexact
    obtain ⟨a'', w', -, hend⟩ := run_seq_ok (machine A) () hattrs
    cases hend
    have hview : view root v'.host = view root s.host :=
      run_view hgit (within_is_dir (P := AsksDir) ⟨_, rfl⟩) (fun _ => AsksDir.keeps) hfolder
    have honly := assert_exact_file_target_run hgit hc (literal_of_permitted hok hwild) htarget
    rw [hview] at honly
    exact ⟨⟨target, rfl⟩, honly⟩

theorem stage_paths_run {paths cs : List String}
    (h : (stage_paths root paths).run (machine A) () s = (.ok cs, u)) :
    Exact root "GIT_STAGE" paths (repo (view root s.host)) cs := by
  induction paths generalizing s cs with
  | nil =>
    cases h
    exact ⟨.nil, by simp, by simp⟩
  | cons p rest ih =>
    unfold stage_paths at h
    obtain ⟨a, v, hraise, hchecks⟩ := run_seq_ok (machine A) () h
    obtain ⟨hexact, rfl⟩ := raiseIf_run hraise
    simp only [Bool.or_eq_false_iff] at hexact
    obtain ⟨c, w, hc, hrest⟩ := run_seq_ok (machine A) () hchecks
    obtain ⟨more, w', hmore, hend⟩ := run_seq_ok (machine A) () hrest
    cases hend
    obtain ⟨hok, honly⟩ := checked_path_run hgit hexact.1.1.2 hc
    have hview : view root w.host = view root v.host :=
      run_view hgit (checked_path_within (List.mem_singleton_self p)) (fun _ => Inspects.keeps) hc
    have hrest := ih hmore
    rw [hview] at hrest
    exact hrest.cons hok honly

theorem diff_paths_run {paths cs : List String}
    (h : (diff_paths root paths).run (machine A) () s = (.ok cs, u)) :
    Exact root "GIT_DIFF" paths (repo (view root s.host)) cs := by
  induction paths generalizing s cs with
  | nil =>
    cases h
    exact ⟨.nil, by simp, by simp⟩
  | cons p rest ih =>
    unfold diff_paths at h
    obtain ⟨a, v, hraise, hchecks⟩ := run_seq_ok (machine A) () h
    obtain ⟨-, rfl⟩ := raiseIf_run hraise
    obtain ⟨a', v', hraise', hchecks'⟩ := run_seq_ok (machine A) () hchecks
    obtain ⟨hexact, rfl⟩ := raiseIf_run hraise'
    rw [Bool.or_eq_false_iff] at hexact
    obtain ⟨c, w, hc, hrest⟩ := run_seq_ok (machine A) () hchecks'
    obtain ⟨more, w', hmore, hend⟩ := run_seq_ok (machine A) () hrest
    cases hend
    obtain ⟨hok, honly⟩ := checked_path_run hgit hexact.1 hc
    have hview : view root w.host = view root v'.host :=
      run_view hgit (checked_path_within (List.mem_singleton_self p)) (fun _ => Inspects.keeps) hc
    have hrest := ih hmore
    rw [hview] at hrest
    exact hrest.cons hok honly

section Reaching

variable {registry : ProjectRegistry} {project_id : String} {root' : Path} {args : List String}

omit hgit [Letters] in
theorem ne_add {op : Op} (h : op.changes = false) : op ≠ .command root' ("add" :: args) := by
  rintro rfl
  cases h

/-- When `git add` is reached, all requested paths have passed their checks. -/
theorem stage_locked_reaches {route : Route} {paths : List String}
    (h : (stage_locked route project_id paths).Reaches (machine A) ()
      (.command root' ("add" :: args)) t s) :
    root' = route.root ∧ ∃ u v cs, args = "--" :: cs ∧
      view route.root u.host = view route.root s.host ∧
      view route.root t.host = view route.root u.host ∧
      (stage_paths route.root paths).run (machine A) () u = (.ok cs, v) := by
  unfold stage_locked at h
  have haudit : (assert_safe_git_mutation route.root).Within (Audits route.root) fun _ => True :=
    assert_safe_git_mutation_within
  have hstage : (stage_paths route.root paths).Within (Inspects route.root "GIT_STAGE" paths) _ :=
    stage_paths_within fun _ h => h
  have hstaged : (staged_files route.root).Within
      (fun op => op = .command route.root staged_args) fun _ => True := staged_files_within rfl
  obtain ⟨_, u, hu, h⟩ := haudit.reaches_rest (fun hop => ne_add hop.keeps rfl) h
  obtain ⟨cs, v, hv, h⟩ := hstage.reaches_rest (fun hop => ne_add hop.keeps rfl) h
  obtain ⟨names, w, hw, h⟩ := hstaged.reaches_rest (by simp [staged_args]) h
  have hview : view route.root w.host = view route.root u.host :=
    (run_view hgit hstaged (by rintro _ rfl; rfl) hw).trans
      (run_view hgit hstage (fun _ => Inspects.keeps) hv)
  cases h with
  | later h =>
    obtain ⟨-, h⟩ := reaches_raiseIf_seq h
    rcases h.of_seq with hadd | ⟨proc, x, -, hend⟩
    · obtain ⟨rfl, hcmd⟩ := command_reached hadd
      cases hcmd
      exact ⟨rfl, u, v, cs, rfl, run_view hgit haudit (fun _ => Audits.keeps) hu, hview, hv⟩
    · obtain ⟨-, hend⟩ := reaches_raiseIf_seq hend
      cases hend with
      | later hdone => cases hdone

theorem git_stage_reaches {paths : List String}
    (h : (git_stage registry project_id paths).Reaches (machine A) ()
      (.command root' ("add" :: args)) t s) :
    ∃ route, registry.get project_id = some route ∧ root' = route.root ∧
      ∃ u v cs, args = "--" :: cs ∧ view route.root u.host = view route.root s.host ∧
        view route.root t.host = view route.root u.host ∧
        (stage_paths route.root paths).run (machine A) () u = (.ok cs, v) := by
  obtain ⟨route, u, hroute, hu, h⟩ := applicable_reaches
    (I := fun v => ∀ root, view root v.host = view root s.host)
    (fun op v hop hv root => (step_view hgit hop.keeps v).trans (hv root)) (fun _ => rfl)
    (fun hop => ne_add hop.keeps rfl) h
  obtain ⟨-, h⟩ := reaches_raiseIf_seq h
  obtain ⟨v, hv, h⟩ := with_git_lock_reaches
    (I := fun v => view route.root v.host = view route.root s.host)
    (fun v hv => (step_view hgit rfl v).trans hv) (hu _) (by simp) (by simp) h
  obtain ⟨hroot, w, x, cs, hargs, hview, hrest⟩ := stage_locked_reaches hgit h
  exact ⟨route, hroute, hroot, w, x, cs, hargs, hview.trans hv, hrest⟩

/-- The diff gets the requested paths, each the name of at most one entry. -/
theorem git_diff_reaches {path paths : Requested} {max_bytes : Int} {cap : Nat}
    (h : (git_diff registry project_id path paths max_bytes).Reaches (machine A) ()
      (.command_capped root' args cap) t s) :
    ∃ route, registry.get project_id = some route ∧ root' = route.root ∧
      ∃ cs, args = "diff" :: "--no-ext-diff" :: "--no-textconv" :: "--" :: cs ∧
        Exact route.root "GIT_DIFF" (paths.items ++ path.items) (repo (view route.root t.host))
          cs := by
  obtain ⟨route, u, hroute, -, h⟩ := applicable_reaches (I := fun _ => True)
    (fun _ _ _ _ => trivial) trivial (by rintro ⟨p, hp⟩; cases hp) h
  obtain ⟨-, h⟩ := reaches_raiseIf_seq h
  have haudit : (assert_safe_git_repo route.root).Within (Audits route.root) fun _ => True :=
    assert_safe_git_repo_within
  have hpaths : (diff_paths route.root (paths.items ++ path.items)).Within
      (Inspects route.root "GIT_DIFF" (paths.items ++ path.items)) _ := diff_paths_within fun _ h => h
  obtain ⟨_, v, hv, h⟩ := haudit.reaches_rest (by intro hop; cases hop) h
  obtain ⟨cs, w, hw, h⟩ := hpaths.reaches_rest (by intro hop; cases hop) h
  have hexact := diff_paths_run hgit hw
  obtain ⟨-, h⟩ := reaches_raiseIf_seq h
  rw [← run_view hgit hpaths (fun _ => Inspects.keeps) hw] at hexact
  rcases h.of_seq with hdiff | ⟨result, x, -, hend⟩
  · cases hdiff with
    | here => exact ⟨route, hroute, rfl, cs, rfl, hexact⟩
    | later hdone =>
      have hno := Within.reaches (P := fun _ => False) (Q := fun _ => True)
        (Within.ofExcept fun _ _ => trivial) hdone
      exact hno.elim
  · cases hend

end Reaching

section Rejection

/-- What is checked of one path that is to be staged. -/
def stage_path (root : Path) (p : String) : Git String := do
  raiseIf (p == "" || hasWildcard p || p == "." || p == "./")
    (.ValueError s!"only exact relative file staging is permitted: {p}")
  checked_path root p "GIT_STAGE" s!"directory staging is forbidden: {p}"

omit hgit in
theorem stage_paths_cons (p : String) (rest : List String) :
    stage_paths root (p :: rest) =
      stage_path root p >>= fun c => stage_paths root rest >>= fun more => pure (c :: more) := by
  rw [stage_path, bind_assoc]
  rfl

omit hgit in
theorem stage_path_within (p : String) :
    (stage_path root p).Within (Inspects root "GIT_STAGE" [p]) fun _ => True := by
  unfold stage_path
  refine within_raiseIf_seq fun _ => ?_
  exact (checked_path_within (List.mem_singleton_self p)).mono (fun _ => id) fun _ _ => trivial

/-- The check of a path depends on nothing but the repository. -/
theorem stage_path_congr (p : String) (h : view root s.host = view root t.host) :
    ((stage_path root p).run (machine A) () s).1 = ((stage_path root p).run (machine A) () t).1 := by
  refine (stage_path_within p).run_congr (R := fun s t => view root s.host = view root t.host)
    (fun op v w hop hvw => ⟨?_, ?_⟩) h
  · have hsees := hgit.sees root op v.host w.host hop.looks hvw
    cases hop <;> exact hsees
  · change view root (step A op v).2.host = view root (step A op w).2.host
    rw [step_view hgit hop.keeps, step_view hgit hop.keeps, hvw]

/-- One rejected path makes the whole list fail. -/
theorem stage_paths_rejected {paths : List String} {p : String} (hp : p ∈ paths) {err : Err}
    (hreject : ((stage_path root p).run (machine A) () s).1 = .error err)
    (hu : view root u.host = view root s.host) :
    ∃ err' v, (stage_paths root paths).run (machine A) () u = (.error err', v) := by
  induction paths generalizing u with
  | nil => cases hp
  | cons q rest ih =>
    rw [stage_paths_cons]
    rcases hq : (stage_path root q).run (machine A) () u with ⟨err' | c, v⟩
    · exact ⟨err', v, run_seq_error _ _ hq⟩
    · rw [run_seq _ _ hq]
      have hv : view root v.host = view root s.host :=
        (run_view hgit (stage_path_within q) (fun _ => Inspects.keeps) hq).trans hu
      rcases List.mem_cons.mp hp with rfl | hp
      · rw [← stage_path_congr hgit p hu, hq] at hreject
        cases hreject
      · obtain ⟨err', w, hrest⟩ := ih hp hv
        exact ⟨err', w, run_seq_error _ _ hrest⟩

/-- The repository and the memory of the executor are as in the state `s`. -/
def Untouched (view : Path → σ → ω) (root : Path) (s t : Session σ) : Prop :=
  view root t.host = view root s.host ∧ t.staged_paths = s.staged_paths

omit [Letters] in
theorem run_untouched {p : Git α} {P : Op → Prop} {Q : α → Prop} (hp : p.Within P Q)
    (hP : ∀ op, P op → op.changes = false ∧ op.remembers = false) (h : Untouched view root s t) :
    Untouched view root s (p.run (machine A) () t).2 :=
  hp.run (fun op v hop hv => ⟨(step_view hgit (hP op hop).1 v).trans hv.1,
    (step_staged_paths (hP op hop).2 v).trans hv.2⟩) h

omit [Letters] in
theorem with_git_lock_untouched {body : Git Reply}
    (hbody : ∀ t, Untouched view root s t →
      Untouched view root s (body.run (machine A) () t).2) (h : Untouched view root s t) :
    Untouched view root s ((with_git_lock root body).run (machine A) () t).2 := by
  have hlock : ∀ (l : Op) (v : Session σ), l.changes = false ∧ l.remembers = false →
      Untouched view root s v → Untouched view root s (step A l v).2 := fun l v hl hv =>
    ⟨(step_view hgit hl.1 v).trans hv.1, (step_staged_paths hl.2 v).trans hv.2⟩
  have hacquired := hlock (.acquire (lock_name_for_resource .git root)) t ⟨rfl, rfl⟩ h
  change Untouched view root s ((raiseIf (!(step A (.acquire _) t).1) _ >>= fun _ =>
    body.ensuring _ : Git Reply).run (machine A) () (step A (.acquire _) t).2).2
  cases (step A (.acquire (lock_name_for_resource .git root)) t).1 with
  | false =>
    rw [Bool.not_false, raiseIf_true]
    exact hacquired
  | true =>
    rw [Bool.not_true, raiseIf_false]
    change Untouched view root s ((body.ensuring _).run (machine A) () _).2
    rw [run_ensuring]
    exact hlock (.release (lock_name_for_resource .git root)) _ ⟨rfl, rfl⟩ (hbody _ hacquired)

theorem stage_locked_rejected {route : Route} {project_id p : String} {paths : List String}
    (hp : p ∈ paths) {err : Err}
    (hreject : ((stage_path route.root p).run (machine A) () s).1 = .error err)
    (h : Untouched view route.root s t) :
    Untouched view route.root s ((stage_locked route project_id paths).run (machine A) () t).2 := by
  unfold stage_locked
  have haudit : (assert_safe_git_mutation route.root).Within (Audits route.root) fun _ => True :=
    assert_safe_git_mutation_within
  have hstage : (stage_paths route.root paths).Within (Inspects route.root "GIT_STAGE" paths) _ :=
    stage_paths_within fun _ h => h
  have hu := run_untouched hgit haudit (fun _ hop => ⟨hop.keeps, hop.forgets⟩) h
  rcases hrun : (assert_safe_git_mutation route.root).run (machine A) () t with ⟨err' | c, u⟩
  · rw [run_seq_error _ _ hrun]
    rwa [hrun] at hu
  · rw [run_seq _ _ hrun]
    rw [hrun] at hu
    obtain ⟨err', v, hfail⟩ := stage_paths_rejected hgit hp hreject hu.1
    have hv := run_untouched hgit hstage (fun _ hop => ⟨hop.keeps, hop.forgets⟩) hu
    rw [run_seq_error _ _ hfail]
    rwa [hfail] at hv

theorem git_stage_rejected {registry : ProjectRegistry} {project_id p : String}
    {paths : List String} {route : Route} (hroute : registry.get project_id = some route)
    (hp : p ∈ paths) {err : Err}
    (hreject : ((stage_path route.root p).run (machine A) () s).1 = .error err) :
    Untouched view route.root s ((git_stage registry project_id paths).run (machine A) () s).2 := by
  have hresolve := resolve_project_within registry project_id
  have hdir : (is_dir (joined route.root ".git")).Within AsksDir fun _ => True :=
    within_is_dir ⟨_, rfl⟩
  have hu := run_untouched hgit hresolve (fun _ hop => ⟨hop.keeps, hop.forgets⟩)
    (⟨rfl, rfl⟩ : Untouched view route.root s s)
  unfold git_stage applicable
  rcases hrun : (resolve_project registry project_id).run (machine A) () s with ⟨err' | route', u⟩
  · rw [run_seq_error _ _ hrun]
    rwa [hrun] at hu
  · have hsame : registry.get project_id = some route' := hresolve.returned hrun
    rw [hroute] at hsame
    cases hsame
    rw [run_seq _ _ hrun]
    rw [hrun] at hu
    have hv := run_untouched hgit hdir (fun _ hop => ⟨hop.keeps, hop.forgets⟩) hu
    rcases hrun' : (is_dir (joined route.root ".git")).run (machine A) () u with ⟨err' | found, v⟩
    · cases hrun'
    · rw [run_seq _ _ hrun']
      rw [hrun'] at hv
      cases found with
      | false => exact hv
      | true =>
        cases paths with
        | nil => cases hp
        | cons q rest =>
          change Untouched view route.root s ((raiseIf false _ >>= fun _ =>
            with_git_lock route.root (stage_locked route project_id (q :: rest)) :
              Git Reply).run (machine A) () v).2
          rw [raiseIf_false]
          exact with_git_lock_untouched hgit
            (fun w hw => stage_locked_rejected hgit hp hreject hw) hv

end Rejection

end Views

/-- Staging and diff name exact permitted files, and one rejected path keeps all of
them from being staged. -/
theorem exact_targets [Letters] {A : Answers σ} {view : Path → σ → ω} {repo : ω → Repo}
    (hgit : Tells A view repo) (registry : ProjectRegistry) (project_id : String)
    (s : Session σ) :
    (∀ paths root args t, (git_stage registry project_id paths).Reaches (machine A) ()
        (.command root ("add" :: args)) t s →
      ∃ route, registry.get project_id = some route ∧ root = route.root ∧
        ∃ cs, args = "--" :: cs ∧
          Exact route.root "GIT_STAGE" paths (repo (view route.root t.host)) cs) ∧
    (∀ path paths max_bytes root args cap t,
      (git_diff registry project_id path paths max_bytes).Reaches (machine A) ()
        (.command_capped root args cap) t s →
      ∃ route, registry.get project_id = some route ∧ root = route.root ∧
        ∃ cs, args = "diff" :: "--no-ext-diff" :: "--no-textconv" :: "--" :: cs ∧
          Exact route.root "GIT_DIFF" (paths.items ++ path.items) (repo (view route.root t.host))
            cs) ∧
    ∀ route paths p err, registry.get project_id = some route → p ∈ paths →
      ((stage_path route.root p).run (machine A) () s).1 = .error err →
        (∀ root args t, ¬ (git_stage registry project_id paths).Reaches (machine A) ()
          (.command root ("add" :: args)) t s) ∧
        Untouched view route.root s
          ((git_stage registry project_id paths).run (machine A) () s).2 := by
  refine ⟨fun paths root args t h => ?_,
    fun path paths max_bytes root args cap t h => git_diff_reaches hgit h,
    fun route paths p err hroute hp hreject => ⟨fun root args t h => ?_,
      git_stage_rejected hgit hroute hp hreject⟩⟩
  · obtain ⟨route, hroute, hroot, u, v, cs, hargs, -, hview, hrun⟩ := git_stage_reaches hgit h
    have hexact := stage_paths_run hgit hrun
    rw [← hview] at hexact
    exact ⟨route, hroute, hroot, cs, hargs, hexact⟩
  · obtain ⟨route', hroute', -, u, v, cs, -, hu, -, hrun⟩ := git_stage_reaches hgit h
    rw [hroute] at hroute'
    cases hroute'
    obtain ⟨err', w, hfail⟩ := stage_paths_rejected hgit hp hreject hu
    rw [hrun] at hfail
    cases hfail

section Sample

/-- What `git check-attr` prints of a path without attributes. -/
def unspecified (p : String) : String :=
  String.join (["filter", "diff", "textconv", "merge"].map fun name =>
    p ++ ": " ++ name ++ ": unspecified\n")

def listingCommand (args : List String) (c : Checkout) : Ran × Checkout :=
  match args with
  | ["ls-files", "-z", "--", p] => (.exited 0 (printedNames (matching p c.index)) (some ""), c)
  | ["ls-tree", "-r", "--name-only", "-z", "HEAD", "--", p] =>
    (.exited 0 (printedNames (matching p c.head)) (some ""), c)
  | ["check-attr", "filter", "diff", "textconv", "merge", "--", p] =>
    (.exited 0 (some (unspecified p)) (some ""), c)
  | ["diff", "--cached", "--name-only", "-z"] =>
    (.exited 0 (printedNames (inOrder (c.toRepo.listed sameBlob))) (some ""), c)
  | _ => sampleCommand args c

def listingAnswers : Answers Checkout where
  answer
    | .command _ args, c => listingCommand args c
    | op, c => sampleAnswers.answer op c

theorem listing_tells : Tells listingAnswers (fun _ c => c) Checkout.toRepo where
  index := fun _ _ _ _ => ⟨_, rfl⟩
  head := fun _ _ _ _ => .inr ⟨_, rfl⟩
  keeps := by
    intro root op c h
    cases op with
    | command root' args =>
      change (listingCommand args c).2 = c
      unfold listingCommand
      split
      · rfl
      · rfl
      · rfl
      · rfl
      · unfold sampleCommand
        split
        · rfl
        · rfl
        · cases h
        · cases h
        · rfl
    | _ => rfl
  sees := by
    rintro root op c _ - rfl
    rfl

/-- A file that was edited, and a directory that is deleted from the worktree. -/
def deletedFolder : Checkout :=
  { index := [(fileA, "1"), (.text "d/x" (by decide) (by decide), "1")]
    head := [(fileA, "1"), (.text "d/x" (by decide) (by decide), "1")]
    worktree := [(fileA, "2")] }

def folderStart : Session Checkout := ⟨deletedFolder, fun _ => []⟩

def stageRun (paths : List String) : Git Reply × Session Checkout :=
  (@git_stage asciiLetters sampleRegistry "app" paths).after (machine listingAnswers) () 13
    folderStart

def diffRun (path : String) : Git Reply × Session Checkout :=
  (@git_diff asciiLetters sampleRegistry "app" (.one path) .none 100).after
    (machine listingAnswers) () 8 folderStart

theorem folder_rejected : ((@stage_path asciiLetters "/w/app" "d").run (machine listingAnswers) ()
    folderStart).1 = .error (.ValueError
      "directory pathspec expansion is not permitted (files only): d") := by decide +kernel

theorem stage_reached : (@git_stage asciiLetters sampleRegistry "app" ["a.txt"]).Reaches
    (machine listingAnswers) () (.command "/w/app" ["add", "--", "a.txt"]) (stageRun ["a.txt"]).2
      folderStart := reaches_of_next (by decide +kernel)

theorem diff_reached : (@git_diff asciiLetters sampleRegistry "app" (.one "a.txt") .none 100).Reaches
    (machine listingAnswers) () (.command_capped "/w/app"
      ["diff", "--no-ext-diff", "--no-textconv", "--", "a.txt"] 100) (diffRun "a.txt").2
      folderStart := reaches_of_next (by decide +kernel)

theorem exact_targets_folder :
    @Exact asciiText "/w/app" "GIT_STAGE" ["a.txt"] (stageRun ["a.txt"]).2.host.toRepo ["a.txt"] ∧
      @Exact asciiText "/w/app" "GIT_DIFF" ["a.txt"] (diffRun "a.txt").2.host.toRepo ["a.txt"] ∧
      Untouched (fun _ c => c) "/w/app" folderStart
        ((@git_stage asciiLetters sampleRegistry "app" ["a.txt", "d"]).run (machine listingAnswers)
          () folderStart).2 := by
  have hexact := @exact_targets _ _ asciiLetters listingAnswers _ _ listing_tells sampleRegistry "app"
    folderStart
  obtain ⟨route, hroute, hroot, cs, hcs, hstaged⟩ := hexact.1 _ _ _ _ stage_reached
  obtain ⟨route', hroute', hroot', cs', hcs', hdiff⟩ := hexact.2.1 _ _ _ _ _ _ _ diff_reached
  have hkept := hexact.2.2 route ["a.txt", "d"] "d" (.ValueError
    "directory pathspec expansion is not permitted (files only): d") hroute (by simp)
  rw [← hroot] at hstaged hkept
  rw [← hroot'] at hdiff
  cases hcs
  cases hcs'
  exact ⟨hstaged, hdiff, (hkept folder_rejected).2⟩

end Sample

end jvc.git
