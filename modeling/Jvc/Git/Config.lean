import Jvc.Git.Switch

open program program.Prog jvc.recovery jvc.policy

namespace jvc.git

variable {σ : Type}

/-- An entry of git's configuration: where it stands, its key, and its value if it
has one. A key begins with the name of a section and ends with that of a variable. -/
structure ConfigEntry where
  origin : String
  key : String
  value : Option String
  origin_plain : '\t' ∉ origin.toList ∧ '\n' ∉ origin.toList
  key_plain : '\n' ∉ key.toList ∧ '\x00' ∉ key.toList
  key_trimmed : strip key = key

/-- How `config --list --show-origin` prints an entry, up to its line feed. -/
def printedEntry (e : ConfigEntry) : List Char :=
  e.origin.toList ++ '\t' :: e.key.toList ++
    match e.value with
    | some value => '=' :: value.toList
    | none => []

def printedConfig (entries : List ConfigEntry) : List Char :=
  entries.flatMap fun e => printedEntry e ++ ['\n']

/-- The entry does not come from the command line, and its key can run a program or
redirect the worktree. -/
def ConfigEntry.Harmful (e : ConfigEntry) : Prop :=
  e.origin ≠ "command line:" ∧ unsafeGitKey e.key = true

/-- Git prints the entry on one line with an equals sign behind its key, as an entry of
a file. -/
structure ConfigEntry.Legible (e : ConfigEntry) : Prop where
  origin : "file:".toList <+: e.origin.toList
  value : e.value.isSome = true
  key : '=' ∉ e.key.toList ∧ 'İ' ∉ e.key.toList
  breaks : ∀ ch ∈ e.origin.toList ++ e.key.toList, lines.isBreak ch = false

/-- The text in front of the first tab. -/
def lineOrigin (line : List Char) : List Char := line.takeWhile (· ≠ '\t')

/-- The text behind the first tab, up to an equals sign. -/
def lineKey (line : List Char) : List Char :=
  ((line.dropWhile (· ≠ '\t')).drop 1).takeWhile (· ≠ '=')

theorem splitlines_printedConfig (entries : List ConfigEntry) :
    lines.splitlines (printedConfig entries) =
      entries.flatMap fun e => lines.splitlines (printedEntry e ++ ['\n']) := by
  induction entries with
  | nil => rfl
  | cons e rest ih =>
    rw [printedConfig, List.flatMap_cons, List.flatMap_cons, ← ih, List.append_assoc,
      List.singleton_append, lines.splitlines_append_line]
    rfl

section Reading

variable [Letters]

/-- The line is read as an entry that is denied. -/
def exposedLine (line : List Char) : Bool :=
  line.contains '\t' && line.contains '=' &&
    (!fromCommandLine (strip (String.ofList (lineOrigin line))) &&
      unsafeGitKey (Letters.lower (strip (String.ofList (lineKey line)))))

/-- Some line of what git prints for the entry is read as an entry that is denied. -/
def ConfigEntry.Exposed (e : ConfigEntry) : Prop :=
  ∃ line ∈ lines.splitlines (printedEntry e ++ ['\n']), exposedLine line = true

section Lowering

variable {cs : List Char} {pieces : List (List Char)}

omit [Letters] in
/-- A letter of a pattern that matches a character matches what it becomes. -/
theorem sameLetter_lower {p c : Char} {piece : List Char} (h : LowerPiece c piece)
    (hp : p.toNat < 128) (hdot : c ≠ 'İ') (hc : sameLetter p c = true) :
    ∃ d, piece = [d] ∧ sameLetter p d = true := by
  simp only [sameLetter, Bool.or_eq_true, Bool.and_eq_true, beq_iff_eq] at hc
  rcases hc with ((hlower | ⟨rfl, rfl | hc⟩) | ⟨rfl, rfl⟩) | ⟨rfl, rfl⟩
  · have hplain : c.toNat < 128 := by
      by_cases hupper : 65 ≤ c.toNat ∧ c.toNat ≤ 90
      · omega
      · rw [ascii.toLower_eq_self hupper] at hlower
        rwa [hlower]
    refine ⟨c.toLower, h.plain hplain, ?_⟩
    rw [sameLetter, ascii.toLower_toLower, hlower]
    simp
  · exact ⟨'ı', h.alike (.inl rfl), by decide⟩
  · exact absurd hc hdot
  · exact ⟨'ſ', h.alike (.inr rfl), by decide⟩
  · exact ⟨'k', h.kelvin rfl, by decide⟩

omit [Letters] in
theorem length_le_lower (h : List.Forall₂ LowerPiece cs pieces) :
    cs.length ≤ pieces.flatten.length := by
  induction h with
  | nil => simp
  | cons hc _ ih =>
    have hne := List.length_pos_iff.mpr hc.nonempty
    rw [List.length_cons, List.flatten_cons, List.length_append]
    omega

omit [Letters] in
theorem flat_lower (h : List.Forall₂ LowerPiece cs pieces) (hflat : '\n' ∉ cs) :
    '\n' ∉ pieces.flatten := by
  induction h with
  | nil => simp
  | @cons c piece cs pieces hc _ ih =>
    rw [List.mem_cons, not_or] at hflat
    rw [List.flatten_cons, List.mem_append, not_or]
    exact ⟨hc.flat (Ne.symm hflat.1), ih hflat.2⟩

omit [Letters] in
/-- The text behind a word becomes the text behind the word. -/
theorem afterWord_lower {word more : List Char} (hword : ∀ p ∈ word, p.toNat < 128)
    (h : List.Forall₂ LowerPiece cs pieces) (hdot : 'İ' ∉ cs)
    (hafter : afterWord word cs = some more) : more ⊆ cs ∧ ∃ rest,
      List.Forall₂ LowerPiece more rest ∧ afterWord word pieces.flatten = some rest.flatten := by
  induction word generalizing cs pieces with
  | nil =>
    cases hafter
    exact ⟨fun _ hx => hx, pieces, h, rfl⟩
  | cons p ps ih =>
    cases h with
    | nil => cases hafter
    | @cons c piece cs pieces hc hrest =>
      rw [afterWord] at hafter
      split at hafter
      · rename_i hsame
        rw [List.mem_cons, not_or] at hdot
        obtain ⟨hsub, rest, hmore, hfound⟩ :=
          ih (fun q hq => hword q (List.mem_cons_of_mem p hq)) hrest hdot.2 hafter
        obtain ⟨d, rfl, hd⟩ :=
          sameLetter_lower hc (hword p List.mem_cons_self) (Ne.symm hdot.1) hsame
        refine ⟨List.subset_cons_of_subset c hsub, rest, hmore, ?_⟩
        rw [List.flatten_cons, List.singleton_append, afterWord, if_pos hd, hfound]
      · cases hafter

omit [Letters] in
theorem opens_lower {word : String} {P Q : List Char → Bool}
    (hword : ∀ p ∈ word.toList, p.toNat < 128) (h : List.Forall₂ LowerPiece cs pieces)
    (hdot : 'İ' ∉ cs) (hPQ : ∀ more rest, more ⊆ cs → List.Forall₂ LowerPiece more rest →
      P more = true → Q rest.flatten = true)
    (hopens : opens word P cs = true) : opens word Q pieces.flatten = true := by
  unfold opens at hopens ⊢
  split at hopens
  · rename_i more hafter
    obtain ⟨hsub, rest, hrest, hfound⟩ := afterWord_lower hword h hdot hafter
    rw [hfound]
    exact hPQ more rest hsub hrest hopens
  · cases hopens

omit [Letters] in
theorem atEnd_lower (hflat : '\n' ∉ cs) (h : List.Forall₂ LowerPiece cs pieces)
    (hend : atEnd cs = true) : atEnd pieces.flatten = true := by
  rw [atEnd, Bool.or_eq_true, beq_iff_eq, beq_iff_eq] at hend
  rcases hend with rfl | rfl
  · cases h
    rfl
  · simp at hflat

omit [Letters] in
theorem head_lower (h : List.Forall₂ LowerPiece cs pieces) (hhead : cs.head? = some '.') :
    pieces.flatten.head? = some '.' := by
  cases h with
  | nil => cases hhead
  | cons hc _ =>
    cases hhead
    rw [List.flatten_cons, hc.plain (by decide)]
    rfl

omit [Letters] in
theorem driverKey_lower {sec : String} {names : List String}
    (hsec : ∀ p ∈ (sec ++ ".").toList, p.toNat < 128)
    (hnames : ∀ name ∈ names, ("." ++ name).toList.all (fun p => decide (p.toNat < 128)) = true)
    (h : List.Forall₂ LowerPiece cs pieces) (hdot : 'İ' ∉ cs) (hflat : '\n' ∉ cs)
    (hkey : driverKey sec names cs = true) : driverKey sec names pieces.flatten = true := by
  refine opens_lower hsec h hdot (fun more rest hsub hrest hany => ?_) hkey
  simp only [List.any_eq_true, List.mem_range, Bool.and_eq_true, bne_iff_ne, Bool.not_eq_true',
    List.contains_eq_mem, decide_eq_false_iff_not] at hany ⊢
  obtain ⟨n, hn, ⟨hne, hline⟩, name, hname, hopens⟩ := hany
  have hfront := List.forall₂_take n hrest
  have hback := List.forall₂_drop n hrest
  have hsplit : rest.flatten = (rest.take n).flatten ++ (rest.drop n).flatten := by
    rw [← List.flatten_append, List.take_append_drop]
  have hfrontlen := length_le_lower hfront
  have hbacklen := length_le_lower hback
  rw [List.length_take] at hfrontlen
  rw [List.length_drop] at hbacklen
  refine ⟨(rest.take n).flatten.length, ?_, ⟨?_, ?_⟩, name, hname, ?_⟩
  · rw [hsplit, List.length_append]
    omega
  · omega
  · rw [hsplit, List.take_left]
    exact flat_lower hfront hline
  · have hdrop : more.drop n ⊆ cs := fun x hx => hsub (List.mem_of_mem_drop hx)
    rw [hsplit, List.drop_left]
    refine opens_lower (lines.forall_of_all (hnames name hname)) hback (fun hmem => hdot (hdrop hmem))
      (fun last rest' hsub' hrest' => atEnd_lower (fun hmem => hflat (hdrop (hsub' hmem))) hrest')
      hopens

/-- A key that is denied is denied in lower case as well. -/
theorem unsafeGitKey_lower {key : String} (hdot : 'İ' ∉ key.toList) (hflat : '\n' ∉ key.toList)
    (h : unsafeGitKey key = true) : unsafeGitKey (Letters.lower key) = true := by
  obtain ⟨pieces, hlower, hpieces⟩ := Letters.lower_pieces key
  unfold unsafeGitKey at h ⊢
  rw [hlower]
  simp only [Bool.or_eq_true] at h ⊢
  refine h.imp (Or.imp (Or.imp (Or.imp (Or.imp ?_ ?_) ?_) ?_) ?_) ?_
  · refine opens_lower (lines.forall_of_all (by decide)) hpieces hdot fun more rest hsub hrest hmore => ?_
    rw [Bool.or_eq_true, beq_iff_eq] at hmore ⊢
    exact hmore.imp (head_lower hrest) (atEnd_lower (fun hmem => hflat (hsub hmem)) hrest)
  · exact opens_lower (lines.forall_of_all (by decide)) hpieces hdot fun _ _ _ _ _ => rfl
  · exact driverKey_lower (lines.forall_of_all (by decide)) (by decide) hpieces hdot hflat
  · exact driverKey_lower (lines.forall_of_all (by decide)) (by decide) hpieces hdot hflat
  · intro hany
    obtain ⟨word, hword, hopens⟩ := List.any_eq_true.mp hany
    refine List.any_eq_true.mpr ⟨word, hword, opens_lower ?_ hpieces hdot
      (fun more rest hsub hrest => atEnd_lower (fun hmem => hflat (hsub hmem)) hrest) hopens⟩
    have hwords : ∀ word ∈ ["diff.external", "core.fsmonitor", "core.attributesfile",
        "core.sshcommand", "core.worktree", "extensions.worktreeconfig", "commit.gpgsign",
        "tag.gpgsign"], word.toList.all (fun p => decide (p.toNat < 128)) = true := by decide
    exact lines.forall_of_all (hwords word hword)
  · exact opens_lower (lines.forall_of_all (by decide)) hpieces hdot fun _ _ _ _ _ => rfl

/-- A place in a file is not the command line. -/
theorem fromCommandLine_file {origin : String} (h : "file:".toList <+: origin.toList) :
    fromCommandLine (strip origin) = false := by
  obtain ⟨path, hpath⟩ := h
  have hlast : ∃ more, (strip origin).toList = 'f' :: more := by
    rw [strip, String.toList_ofList, ← hpath]
    change ∃ more, ((('f' :: ("ile:".toList ++ path)).dropWhile isSpace).reverse.dropWhile
      isSpace).reverse = 'f' :: more
    rw [List.dropWhile_cons_of_neg (by decide), List.reverse_cons, List.dropWhile_append]
    split
    · exact ⟨[], rfl⟩
    · exact ⟨_, by rw [List.reverse_append]; rfl⟩
  obtain ⟨more, hmore⟩ := hlast
  obtain ⟨pieces, hlower, hpieces⟩ := Letters.lower_pieces (strip origin)
  rw [hmore] at hpieces
  cases hpieces with
  | @cons _ piece _ pieces hc _ =>
    have hhead : (Letters.lower (strip origin)).toList = 'f' :: pieces.flatten := by
      rw [hlower, List.flatten_cons, hc.plain (by decide)]
      rfl
    rw [fromCommandLine, hhead, List.reverse_cons, List.dropWhile_append]
    split
    · decide
    · rw [List.reverse_append]
      exact beq_eq_false_iff_ne.mpr (by simp)

end Lowering

/-- A legible entry shows its origin and its key, and is denied if it is harmful. -/
theorem ConfigEntry.Legible.exposed {e : ConfigEntry} (h : e.Legible) (hharmful : e.Harmful) :
    e.Exposed := by
  obtain ⟨value, hvalue⟩ := Option.isSome_iff_exists.mp h.value
  have hfront : ∀ ch ∈ e.origin.toList ++ '\t' :: e.key.toList ++ ['='],
      lines.isBreak ch = false := by
    have hbreaks := h.breaks
    intro ch hch
    simp only [List.mem_append, List.mem_cons, List.not_mem_nil, or_false] at hch hbreaks
    rcases hch with (horigin | rfl | hkey) | rfl
    · exact hbreaks ch (.inl horigin)
    · decide
    · exact hbreaks ch (.inr hkey)
    · decide
  have hprinted : printedEntry e ++ ['\n'] =
      (e.origin.toList ++ '\t' :: e.key.toList ++ ['=']) ++ (value.toList ++ ['\n']) := by
    simp [printedEntry, hvalue]
  obtain ⟨more, hline⟩ := @lines.splitlines_append_solid [] _ hfront (by simp)
    (value.toList ++ ['\n'])
  refine ⟨e.origin.toList ++ '\t' :: e.key.toList ++ ['='] ++ more, ?_, ?_⟩
  · rw [hprinted]
    exact hline
  · have hline : e.origin.toList ++ '\t' :: e.key.toList ++ ['='] ++ more =
        e.origin.toList ++ '\t' :: (e.key.toList ++ '=' :: more) := by simp
    have htab : ∀ ch ∈ e.origin.toList, decide (ch ≠ '\t') = true := by
      intro ch hch
      rw [decide_eq_true_iff]
      rintro rfl
      exact e.origin_plain.1 hch
    have hequals : ∀ ch ∈ e.key.toList, decide (ch ≠ '=') = true := by
      intro ch hch
      rw [decide_eq_true_iff]
      rintro rfl
      exact h.key.1 hch
    have horigin : lineOrigin (e.origin.toList ++ '\t' :: (e.key.toList ++ '=' :: more)) =
        e.origin.toList := by
      rw [lineOrigin, List.takeWhile_append_of_pos htab, List.takeWhile_cons_of_neg (by simp),
        List.append_nil]
    have hkey : lineKey (e.origin.toList ++ '\t' :: (e.key.toList ++ '=' :: more)) =
        e.key.toList := by
      rw [lineKey, List.dropWhile_append_of_pos htab, List.dropWhile_cons_of_neg (by simp),
        List.drop_one, List.tail_cons, List.takeWhile_append_of_pos hequals,
        List.takeWhile_cons_of_neg (by simp), List.append_nil]
    rw [hline, exposedLine, horigin, hkey, String.ofList_toList, String.ofList_toList,
      fromCommandLine_file h.origin, e.key_trimmed,
      unsafeGitKey_lower h.key.2 e.key_plain.1 hharmful.2]
    simp

variable {A : Answers σ} {s : Session σ} {root : Path} {top toperr out err : String}

/-- The entries that are denied are those of the lines that are read so. -/
theorem effective_git_config_run
    (hconfig : ∀ v, (A.answer (.command root ["config", "--list", "--show-origin"]) v).1 =
      .exited 0 (some out) (some err)) :
    ∃ config u, (effective_git_config root).run (machine A) () s = (.ok config, u) ∧
      ((∃ entry ∈ config, (!fromCommandLine entry.1 && unsafeGitKey entry.2.1) = true) ↔
        ∃ line ∈ lines.splitlines out.toList, exposedLine line = true) := by
  unfold effective_git_config
  rw [run_seq _ _ (run_git_answer (hconfig s.host)), run_seq _ _ (raiseIf_pass (by rfl))]
  refine ⟨_, _, rfl, ?_⟩
  dsimp only
  rw [textLines, translated, String.toList_ofList, lines.splitlines_translate]
  constructor
  · rintro ⟨entry, hentry, hdenied⟩
    obtain ⟨line, hline, rfl⟩ := List.mem_map.mp hentry
    obtain ⟨hmem, hshape⟩ := List.mem_filter.mp hline
    obtain ⟨cs, hcs, rfl⟩ := List.mem_map.mp hmem
    dsimp only at hdenied
    rw [String.toList_ofList] at hshape hdenied
    refine ⟨cs, hcs, ?_⟩
    rw [exposedLine, hshape, Bool.true_and]
    exact hdenied
  · rintro ⟨cs, hcs, hexposed⟩
    rw [exposedLine, Bool.and_eq_true] at hexposed
    refine ⟨_, List.mem_map_of_mem (List.mem_filter.mpr ⟨List.mem_map_of_mem hcs, ?_⟩), ?_⟩
    · rw [String.toList_ofList]
      exact hexposed.1
    · dsimp only
      rw [String.toList_ofList]
      exact hexposed.2

/-- The audit raises exactly if the worktree is redirected or a line is read as an
entry that is denied. -/
theorem assert_safe_git_repo_run
    (htop : ∀ v, (A.answer (.command root ["rev-parse", "--show-toplevel"]) v).1 =
      .exited 0 (some top) (some toperr))
    (hconfig : ∀ v, (A.answer (.command root ["config", "--list", "--show-origin"]) v).1 =
      .exited 0 (some out) (some err)) :
    (∃ message u, (assert_safe_git_repo root).run (machine A) () s =
      (.error (.PermissionError message), u)) ↔
        resolved (strip (translated top)) ≠ resolved root ∨
          ∃ line ∈ lines.splitlines out.toList, exposedLine line = true := by
  unfold assert_safe_git_repo
  rw [run_seq _ _ (run_git_answer (htop s.host)), run_seq _ _ (raiseIf_pass (by rfl))]
  dsimp only
  by_cases hsame : resolved (strip (translated top)) = resolved root
  · rw [run_seq _ _ (raiseIf_pass (by simp [hsame]))]
    obtain ⟨config, u, hconfigrun, hdenied⟩ := effective_git_config_run (s := { s with host :=
      (A.answer (.command root ["rev-parse", "--show-toplevel"]) s.host).2 }) hconfig
    rw [run_seq _ _ hconfigrun, ← hdenied]
    cases hfind : config.find? fun entry => !fromCommandLine entry.1 && unsafeGitKey entry.2.1 with
    | none =>
      rw [List.find?_eq_none] at hfind
      constructor
      · rintro ⟨message, u, h⟩
        cases h
      · rintro (hne | ⟨entry, hentry, h⟩)
        · exact absurd hsame hne
        · exact absurd h (hfind entry hentry)
    | some entry =>
      obtain ⟨origin, key, value⟩ := entry
      refine ⟨fun _ => .inr ⟨_, List.mem_of_find?_eq_some hfind, ?_⟩, fun _ => ⟨_, _, rfl⟩⟩
      have hentry := List.find?_some hfind
      exact hentry
  · have hraise : (resolved (strip (translated top)) != resolved root) = true := by
      simpa using hsame
    rw [hraise, raiseIf_true]
    exact ⟨fun _ => .inl hsame, fun _ => ⟨_, _, rfl⟩⟩

/-- The entry is not both harmful and legible, but a line of what git prints for it
happens to be read as an entry that is denied. -/
def ConfigEntry.Mistaken (e : ConfigEntry) : Prop :=
  ¬ (e.Harmful ∧ e.Legible) ∧ e.Exposed

/-- If an entry is harmful the audit raises, exactly if none is, the worktree is
redirected, some harmful entry is legible, or another entry is mistaken for one. -/
theorem config_audit_iff {entries : List ConfigEntry}
    (htop : ∀ v, (A.answer (.command root ["rev-parse", "--show-toplevel"]) v).1 =
      .exited 0 (some top) (some toperr))
    (hconfig : ∀ v, (A.answer (.command root ["config", "--list", "--show-origin"]) v).1 =
      .exited 0 (some (String.ofList (printedConfig entries))) (some err)) :
    ((∃ e ∈ entries, e.Harmful) → ∃ message u,
      (assert_safe_git_repo root).run (machine A) () s =
        (.error (.PermissionError message), u)) ↔
      (∀ e ∈ entries, ¬ e.Harmful) ∨ resolved (strip (translated top)) ≠ resolved root ∨
        (∃ e ∈ entries, e.Harmful ∧ e.Legible) ∨ ∃ e ∈ entries, e.Mistaken := by
  have hshown : (∃ e ∈ entries, e.Exposed) ↔
      (∃ e ∈ entries, e.Harmful ∧ e.Legible) ∨ ∃ e ∈ entries, e.Mistaken := by
    constructor
    · rintro ⟨e, he, hexposed⟩
      by_cases hplain : e.Harmful ∧ e.Legible
      · exact .inl ⟨e, he, hplain⟩
      · exact .inr ⟨e, he, hplain, hexposed⟩
    · rintro (⟨e, he, hharmful, hlegible⟩ | ⟨e, he, -, hexposed⟩)
      · exact ⟨e, he, hlegible.exposed hharmful⟩
      · exact ⟨e, he, hexposed⟩
  rw [← hshown]
  have hlines : (∃ line ∈ lines.splitlines (String.ofList (printedConfig entries)).toList,
      exposedLine line = true) ↔ ∃ e ∈ entries, e.Exposed := by
    rw [String.toList_ofList, splitlines_printedConfig]
    constructor
    · rintro ⟨line, hline, hexposed⟩
      obtain ⟨e, he, hline⟩ := List.mem_flatMap.mp hline
      exact ⟨e, he, line, hline, hexposed⟩
    · rintro ⟨e, he, line, hline, hexposed⟩
      exact ⟨line, List.mem_flatMap.mpr ⟨e, he, hline⟩, hexposed⟩
  rw [assert_safe_git_repo_run htop hconfig, hlines]
  constructor
  · intro h
    by_cases hharmful : ∃ e ∈ entries, e.Harmful
    · exact .inr (h hharmful)
    · exact .inl fun e he hh => hharmful ⟨e, he, hh⟩
  · rintro (hnone | hraises) ⟨e, he, hh⟩
    · exact (hnone e he hh).elim
    · exact hraises

/-- The audit raises for every configuration with a harmful entry. -/
def AuditsConfig : Prop :=
  ∀ (σ : Type) (A : Answers σ) (root top toperr err : String) (entries : List ConfigEntry),
    (∀ v, (A.answer (.command root ["rev-parse", "--show-toplevel"]) v).1 =
        .exited 0 (some top) (some toperr)) →
      (∀ v, (A.answer (.command root ["config", "--list", "--show-origin"]) v).1 =
        .exited 0 (some (String.ofList (printedConfig entries))) (some err)) →
        (∃ e ∈ entries, e.Harmful) → ∀ s : Session σ, ∃ message u,
          (assert_safe_git_repo root).run (machine A) () s =
            (.error (.PermissionError message), u)

end Reading

section Sample

/-- `[commit] gpgsign` without a value. -/
def valuelessSigning : ConfigEntry :=
  { origin := "file:.git/config"
    key := "commit.gpgsign"
    value := none
    origin_plain := by decide
    key_plain := by decide
    key_trimmed := by decide }

/-- A host with this configuration. -/
def configured (entries : List ConfigEntry) : Answers Unit where
  answer
    | .command _ args, _ =>
      (.exited 0 (if args.head? = some "rev-parse" then some "/w/app\n"
        else some (String.ofList (printedConfig entries))) (some ""), ())
    | op, u => (obliging "" none).answer op u

/-- `[filter "x"] clean = run` -/
def cleanFilter : ConfigEntry :=
  { origin := "file:.git/config"
    key := "filter.x.clean"
    value := some "run"
    origin_plain := by decide
    key_plain := by decide
    key_trimmed := by decide }

theorem cleanFilter_legible : cleanFilter.Legible where
  origin := by decide
  value := rfl
  key := by decide
  breaks := lines.forall_of_all (by decide)

theorem config_audit_iff_filter : cleanFilter.Harmful ∧ ∃ message u,
    (@assert_safe_git_repo asciiLetters "/w/app").run
        (machine (configured [valuelessSigning, cleanFilter])) () idle =
      (.error (.PermissionError message), u) := by
  have hharmful : cleanFilter.Harmful := ⟨by decide, by decide +kernel⟩
  refine ⟨hharmful, (@config_audit_iff _ asciiLetters _ _ "/w/app" "/w/app\n" "" ""
    [valuelessSigning, cleanFilter] (fun _ => rfl) (fun _ => rfl)).mpr
      (.inr (.inr (.inl ⟨cleanFilter, by simp, hharmful, cleanFilter_legible⟩)))
        ⟨cleanFilter, by simp, hharmful⟩⟩

/-- The audit skips an entry without a value. -/
theorem valueless_entry_skipped : ¬ @AuditsConfig asciiLetters := by
  intro h
  obtain ⟨message, u, hrun⟩ := h Unit (configured [valuelessSigning]) "/w/app" "/w/app\n" "" ""
    [valuelessSigning] (fun _ => rfl) (fun _ => rfl)
      ⟨valuelessSigning, List.mem_singleton_self _, by decide, by decide +kernel⟩ idle
  have hpass : ((@assert_safe_git_repo asciiLetters "/w/app").run
      (machine (configured [valuelessSigning])) () idle).1.toBool = true := by decide +kernel
  rw [hrun] at hpass
  cases hpass

end Sample

end jvc.git
