import Jvc.Recovery.Rules

open program program.Prog

namespace jvc.recovery

variable {Bytes : Type} [Text] [Host Bytes] {store : RecoveryStore} {owner : Option Pid} {i : Pid}
  {t : Target store} {Inv : Journal Bytes → Prop} {J : Journal Bytes} {w w' : World Bytes}

/-- A file of the journal that holds a receipt. -/
def Known (store : RecoveryStore) (p : Path) (w : World Bytes) : Prop :=
  store.isReceiptFile p = true ∧ ∃ r : Receipt, w.lookup p = some (Host.dumps r.dict)

/-- What reading a file of the journal shows: a receipt of the target, which is
the journal's, or a receipt of another target. -/
def Seen (t : Target store) (J : Journal Bytes) (p : Path) (r : Receipt) : Prop :=
  (∃ e ∈ J.entries, p = store.receipt_path e.receipt_id ∧ r = e.receipt t) ∨
    (r.path ≠ t.path ∧ ∀ e ∈ J.entries, p ≠ store.receipt_path e.receipt_id)

/-- A listing of the journal's files. -/
structure Listed (t : Target store) (J : Journal Bytes) (files : List Path) (w : World Bytes) :
    Prop where
  known : ∀ p ∈ files, Known store p w
  covers : ∀ e ∈ J.entries, store.receipt_path e.receipt_id ∈ files
  nodup : files.Nodup

theorem Known.later {p : Path} (h : Known store p w) (hw : Later store i w w') :
    Known store p w' := by
  obtain ⟨hp, r, hr⟩ := h
  obtain ⟨r', hr', _⟩ := hw.grows p r hp hr
  exact ⟨hp, r', hr'⟩

theorem Known.of_sound {p : Path} (h : store.Sound w) (hp : store.isReceiptFile p = true)
    (hsome : (w.lookup p).isSome) : Known store p w := by
  obtain ⟨data, hdata⟩ := Option.isSome_iff_exists.mp hsome
  obtain ⟨t, e, _, rfl⟩ := h.receipts p data hp hdata
  exact ⟨hp, e.receipt t, hdata⟩

theorem Journal.At.known (h : J.At owner t w) {e : Entry Bytes} (he : e ∈ J.entries) :
    Known store (store.receipt_path e.receipt_id) w :=
  ⟨e.isReceiptFile, e.receipt t, h.held e he⟩

theorem Journal.At.seen (h : J.At owner t w) {p : Path} {r : Receipt}
    (hp : store.isReceiptFile p = true) (hr : w.lookup p = some (Host.dumps r.dict)) :
    Seen t J p r := by
  by_cases hpath : r.path = t.path
  · exact .inl (h.receipt_of hp hr hpath)
  · refine .inr ⟨hpath, ?_⟩
    rintro e he rfl
    rw [h.held e he] at hr
    exact hpath (congrArg Receipt.path (dumps_inj (Option.some.inj hr))).symm

omit [Text] [Host Bytes] in
theorem Seen.own {e : Entry Bytes} {p : Path} {r : Receipt} (h : Seen t J p r) (hwf : J.Wf)
    (he : e ∈ J.entries) (hp : p = store.receipt_path e.receipt_id) : r = e.receipt t := by
  obtain ⟨x, hx, hpx, rfl⟩ | ⟨_, hno⟩ := h
  · rw [hwf.eq_of_id he hx (receipt_path_inj (hp.symm.trans hpx))]
  · exact absurd hp (hno e he)

/-- Reading a receipt file of the journal. -/
theorem critical_read_json {p : Path} {Q : Except Err Document → World Bytes → Prop}
    (hat : J.At owner t w) (hp : Known store p w)
    (h : ∀ w' r, Later store i w w' → J.At owner t w' → Seen t J p r →
      Q (.ok (.obj r.dict)) w') : critical owner i t Inv (read_json p) Q w := by
  refine wp_seq.mpr (wp_read_bytes (fun w' data hw hdata => ?_) fun w' e hw hnone _ => ?_)
  · obtain ⟨hfile, r, hr⟩ := hp.later hw.toLater
    rw [hdata] at hr
    cases hr
    simp only [onResult_ok, wp_ofExcept, Host.loads_dumps]
    exact h w' r hw.toLater (hw.view J hat) ((hw.view J hat).seen hfile hdata)
  · obtain ⟨_, r, hr⟩ := hp.later hw.toLater
    rw [hnone] at hr
    cases hr

theorem critical_load_validated {p : Path} {Q : Except Err Receipt → World Bytes → Prop}
    (hat : J.At owner t w) (hp : Known store p w)
    (h : ∀ w' r, Later store i w w' → J.At owner t w' → Seen t J p r → Q (.ok r) w') :
    critical owner i t Inv (RecoveryStore.load_validated p) Q w := by
  refine wp_seq.mpr (critical_read_json hat hp fun w' r hw hat' hseen => ?_)
  simp only [onResult_ok, wp_ofExcept, validate_receipt_dict]
  exact h w' r hw hat' hseen

theorem critical_read_validated {p : Path} {Q : Except Err Receipt → World Bytes → Prop}
    (hat : J.At owner t w) (hp : Known store p w)
    (h : ∀ w' r, Later store i w w' → J.At owner t w' → Seen t J p r → Q (.ok r) w') :
    critical owner i t Inv (RecoveryStore.read_validated p) Q w := by
  refine wp_seq.mpr (wp_handle.mpr (critical_read_json hat hp fun w' r hw hat' hseen => ?_))
  simp only [onResult_ok, wp_ofExcept, validate_receipt_dict]
  exact h w' r hw hat' hseen

omit [Text] [Host Bytes] in
/-- No file is listed twice, the two patterns exclude each other. -/
theorem listing_nodup (a b : World Bytes) :
    (a.globbed store.root "recovery-" ".json" ++
      b.globbed store.root "rollback-" ".json").Nodup := by
  refine List.Nodup.append (World.globbed_nodup _ _ _ _) (World.globbed_nodup _ _ _ _) ?_
  intro p hp₁ hp₂
  exact glob_exclusive (World.mem_globbed.mp hp₁).1 (World.mem_globbed.mp hp₂).1

/-- The two patterns find every receipt of the target. -/
theorem Journal.At.listed (hat : J.At owner t w) (hat' : J.At owner t w') (hw : Later store i w w') :
    Listed t J (w.globbed store.root "recovery-" ".json" ++
      w'.globbed store.root "rollback-" ".json") w' := by
  refine ⟨fun p hp => ?_, fun e he => ?_, listing_nodup w w'⟩
  · rcases List.mem_append.mp hp with hp | hp
    · obtain ⟨hmatch, hsome⟩ := World.mem_globbed.mp hp
      have hfile : store.isReceiptFile p = true := Bool.or_eq_true_iff.mpr (.inl hmatch)
      exact (Known.of_sound hat.sound hfile hsome).later hw
    · obtain ⟨hmatch, hsome⟩ := World.mem_globbed.mp hp
      have hfile : store.isReceiptFile p = true := Bool.or_eq_true_iff.mpr (.inr hmatch)
      exact .of_sound hat'.sound hfile hsome
  · have hname : globMatch store.root (e.kind.name ++ "-") ".json"
        (store.receipt_path e.receipt_id) = true := e.glob_name
    rw [List.mem_append, World.mem_globbed, World.mem_globbed, hat.held e he, hat'.held e he]
    cases hk : e.kind with
    | write =>
      rw [hk] at hname
      exact .inl ⟨hname, rfl⟩
    | rollback =>
      rw [hk] at hname
      exact .inr ⟨hname, rfl⟩

/-- Listing the journal finds every receipt of the target. -/
theorem critical_iter_receipt_files {Q : Except Err (List Path) → World Bytes → Prop}
    (hat : J.At owner t w)
    (h : ∀ w' files, Later store i w w' → J.At owner t w' → Listed t J files w' →
      Q (.ok files) w') : critical owner i t Inv store.iter_receipt_files Q w := by
  refine wp_seq.mpr (wp_glob fun w₁ hw₁ => wp_seq.mpr (wp_glob fun w₂ hw₂ => ?_))
  have hat₁ := hw₁.view J hat
  have hat₂ := hw₂.view J hat₁
  exact h w₂ _ (hw₁.toLater.trans hw₂.toLater) hat₂ (hat₁.listed hat₂ hw₂.toLater)

/-- The receipts read from a list of files. -/
structure Reading (t : Target store) (J : Journal Bytes) (files : List Path)
    (l : List (Path × Receipt)) : Prop where
  paths : l.map Prod.fst = files
  seen : ∀ x ∈ l, Seen t J x.1 x.2

theorem critical_valid_among {files : List Path}
    {Q : Except Err (List (Path × Receipt)) → World Bytes → Prop} (hat : J.At owner t w)
    (hfiles : ∀ p ∈ files, Known store p w)
    (h : ∀ w' l, Later store i w w' → J.At owner t w' → Reading t J files l → Q (.ok l) w') :
    critical owner i t Inv (RecoveryStore.valid_among files) Q w := by
  induction files generalizing w Q with
  | nil => exact h w [] (.refl w) hat ⟨rfl, by simp⟩
  | cons p rest ih =>
    refine wp_seq.mpr (wp_attempt.mpr (critical_read_validated hat (hfiles p List.mem_cons_self)
      fun w₁ r hw₁ hat₁ hseen => ?_))
    refine wp_seq.mpr (ih hat₁ (fun q hq => (hfiles q (List.mem_cons_of_mem _ hq)).later hw₁)
      fun w₂ l hw₂ hat₂ hl => ?_)
    refine h w₂ ((p, r) :: l) (hw₁.trans hw₂) hat₂ ⟨by simp [hl.paths], ?_⟩
    intro x hx
    rcases List.mem_cons.mp hx with rfl | hx
    · exact hseen
    · exact hl.seen x hx

theorem critical_all_valid_receipts {Q : Except Err (List (Path × Receipt)) → World Bytes → Prop}
    (hat : J.At owner t w)
    (h : ∀ w' files l, Later store i w w' → J.At owner t w' → Listed t J files w' →
      Reading t J files l → Q (.ok l) w') :
    critical owner i t Inv store.all_valid_receipts Q w := by
  refine wp_seq.mpr (critical_iter_receipt_files hat fun w₁ files hw₁ hat₁ hfiles => ?_)
  refine critical_valid_among hat₁ hfiles.known fun w₂ l hw₂ hat₂ hl => ?_
  exact h w₂ files l (hw₁.trans hw₂) hat₂
    ⟨fun p hp => (hfiles.known p hp).later hw₂, hfiles.covers, hfiles.nodup⟩ hl

/-- With every receipt of the store valid, none is reported corrupt. -/
theorem critical_corrupt_receipt_files {Q : Except Err (List String) → World Bytes → Prop}
    (hat : J.At owner t w) (h : ∀ w', Later store i w w' → J.At owner t w' → Q (.ok []) w') :
    critical owner i t Inv store.corrupt_receipt_files Q w := by
  refine wp_seq.mpr (critical_iter_receipt_files hat fun w₁ files hw₁ hat₁ hfiles => ?_)
  have hknown := hfiles.known
  have hrest : ∀ w', Later store i w₁ w' → J.At owner t w' → Q (.ok []) w' :=
    fun w' hw' hat' => h w' (hw₁.trans hw') hat'
  clear h hfiles hat hw₁
  simp only [onResult_ok]
  induction files generalizing w₁ Q with
  | nil => exact hrest w₁ (.refl w₁) hat₁
  | cons p rest ih =>
    refine wp_seq.mpr (wp_attempt.mpr (critical_load_validated hat₁ (hknown p List.mem_cons_self)
      fun w₂ r hw₂ hat₂ _ => ?_))
    refine wp_seq.mpr (ih w₂ hat₂
      (fun q hq => (hknown q (List.mem_cons_of_mem _ hq)).later hw₂) fun w₃ hw₃ hat₃ => ?_)
    exact hrest w₃ (hw₂.trans hw₃) hat₃

section Lists

omit [Text] [Host Bytes]

variable {files : List Path} {l : List (Path × Receipt)}

theorem Reading.mem (h : Reading t J files l) (hwf : J.Wf) {e : Entry Bytes} (he : e ∈ J.entries)
    (hmem : store.receipt_path e.receipt_id ∈ files) :
    (store.receipt_path e.receipt_id, e.receipt t) ∈ l := by
  rw [← h.paths] at hmem
  obtain ⟨⟨p, r⟩, hx, hp⟩ := List.mem_map.mp hmem
  have hr := (h.seen _ hx).own hwf he hp
  simp only at hp hr
  rw [← hp, ← hr]
  exact hx

theorem Reading.own (h : Reading t J files l) {x : Path × Receipt} (hx : x ∈ l)
    (hpath : x.2.path = t.path) :
    ∃ e ∈ J.entries, x = (store.receipt_path e.receipt_id, e.receipt t) := by
  obtain ⟨e, he, hp, hr⟩ | ⟨hne, _⟩ := h.seen x hx
  · exact ⟨e, he, Prod.ext hp hr⟩
  · exact absurd hpath hne

theorem Reading.nodup (h : Reading t J files l) (hfiles : files.Nodup) : l.Nodup := by
  rw [← h.paths] at hfiles
  exact hfiles.of_map _

theorem concerns_iff {project_id : String} {x : Path × Receipt} :
    RecoveryStore.concerns project_id t.path x.2 = true ↔
      x.2.project_id = project_id ∧ x.2.path = t.path := by
  simp [RecoveryStore.concerns]

/-- The pointers collected from the files are those of the journal. -/
theorem Reading.mem_references (h : Reading t J files l) (hwf : J.Wf)
    (hfiles : ∀ e ∈ J.entries, store.receipt_path e.receipt_id ∈ files) {project_id : String}
    {states : TxState → Bool} {id : String} (hid : id ≠ "") :
    id ∈ RecoveryStore.references project_id t.path states l ↔ J.Points project_id states id := by
  simp only [RecoveryStore.references, List.mem_filterMap, Journal.Points]
  constructor
  · rintro ⟨x, hx, hsome⟩
    split at hsome
    · rename_i hc
      simp only [Bool.and_eq_true] at hc
      obtain ⟨⟨hconcerns, htruthy⟩, hstates⟩ := hc
      obtain ⟨hproject, hpath⟩ := concerns_iff.mp hconcerns
      obtain ⟨e, he, rfl⟩ := h.own hx hpath
      rw [Entry.receipt_prev] at htruthy hsome
      obtain ⟨s, hs, _⟩ := optStr_truthy.mp htruthy
      rw [hs] at hsome
      exact ⟨e, he, hproject, hstates, hs.trans hsome⟩
    · cases hsome
  · rintro ⟨e, he, hproject, hstates, hprev⟩
    refine ⟨_, h.mem hwf he (hfiles e he), ?_⟩
    have hconcerns : RecoveryStore.concerns project_id t.path (e.receipt t) = true :=
      concerns_iff (x := (store.receipt_path e.receipt_id, e.receipt t)).mpr ⟨hproject, rfl⟩
    have htruthy : (get (e.receipt t).prev_receipt_id).truthy = true := by
      rw [Entry.receipt_prev]
      exact optStr_truthy.mpr ⟨id, hprev, hid⟩
    rw [if_pos (by rw [hconcerns, htruthy, Entry.receipt_tx_state, hstates]; rfl),
      Entry.receipt_prev, hprev]
    rfl

theorem Reading.mem_superseded_matches (h : Reading t J files l) (hwf : J.Wf)
    (hfiles : ∀ e ∈ J.entries, store.receipt_path e.receipt_id ∈ files)
    {project_id pre_hash id : String} :
    id ∈ RecoveryStore.superseded_matches project_id t.path pre_hash l ↔
      ∃ e, J.Candidate project_id pre_hash e ∧ e.receipt_id = id := by
  simp only [RecoveryStore.superseded_matches, List.mem_map, List.mem_filter, Bool.and_eq_true,
    beq_iff_eq, Journal.Candidate]
  constructor
  · rintro ⟨x, ⟨hx, ⟨⟨hconcerns, hop⟩, hstate⟩, hpost⟩, rfl⟩
    obtain ⟨hproject, hpath⟩ := concerns_iff.mp hconcerns
    obtain ⟨e, he, rfl⟩ := h.own hx hpath
    rw [Entry.receipt_post, optStr_eq_str] at hpost
    refine ⟨e, ⟨he, hproject, ?_, hstate, hpost⟩, rfl⟩
    cases hk : e.kind with
    | write => rfl
    | rollback =>
      rw [Entry.receipt_operation, hk] at hop
      cases hop
  · rintro ⟨e, ⟨he, hproject, hw, hstate, hpost⟩, rfl⟩
    refine ⟨_, ⟨h.mem hwf he (hfiles e he), ⟨⟨?_, ?_⟩, hstate⟩, ?_⟩, rfl⟩
    · exact concerns_iff (x := (store.receipt_path e.receipt_id, e.receipt t)).mpr ⟨hproject, rfl⟩
    · cases hk : e.kind with
      | write =>
        rw [Entry.receipt_operation, hk]
        rfl
      | rollback =>
        rw [hk] at hw
        cases hw
    · rw [Entry.receipt_post, optStr_eq_str]
      exact hpost

theorem Reading.superseded_matches_nodup (h : Reading t J files l) (hfiles : files.Nodup)
    (project_id pre_hash : String) :
    (RecoveryStore.superseded_matches project_id t.path pre_hash l).Nodup := by
  refine List.Nodup.map_on ?_ ((h.nodup hfiles).filter _)
  intro x hx y hy hid
  simp only [List.mem_filter, Bool.and_eq_true] at hx hy
  obtain ⟨e, _, rfl⟩ := h.own hx.1 (concerns_iff.mp hx.2.1.1.1).2
  obtain ⟨e', _, rfl⟩ := h.own hy.1 (concerns_iff.mp hy.2.1.1.1).2
  have hsame : e.receipt_id = e'.receipt_id := hid
  have hx' := h.paths
  have hnodup : (l.map Prod.fst).Nodup := by
    rw [hx']
    exact hfiles
  exact List.inj_on_of_nodup_map hnodup hx.1 hy.1 (by rw [hsame])

/-- The latest terminal receipt is some terminal write of the journal. -/
theorem Reading.latest_terminal (h : Reading t J files l) {project_id : String}
    {key : Int × String} (hlatest : RecoveryStore.latest_terminal project_id t.path l = some key) :
    ∃ e ∈ J.entries, e.project_id.text = project_id ∧ e.kind.isWrite ∧ e.tx_state.terminal ∧
      e.receipt_id = key.2 := by
  let Good := fun best : Option (Int × String) => ∀ k, best = some k → ∃ e ∈ J.entries,
    e.project_id.text = project_id ∧ e.kind.isWrite ∧ e.tx_state.terminal ∧ e.receipt_id = k.2
  have hstep : ∀ best x, x ∈ l → Good best →
      Good (RecoveryStore.later_terminal project_id t.path best x) := by
    intro best x hx hbest k hk
    unfold RecoveryStore.later_terminal at hk
    split at hk
    · rename_i hc
      simp only [Bool.and_eq_true, beq_iff_eq] at hc
      obtain ⟨hproject, hpath⟩ := concerns_iff.mp hc.1.1
      obtain ⟨e, he, rfl⟩ := h.own hx hpath
      have hw : e.kind.isWrite = true := by
        cases hkind : e.kind with
        | write => rfl
        | rollback =>
          have hop := hc.1.2
          rw [Entry.receipt_operation, hkind] at hop
          cases hop
      split at hk
      · cases hk
        exact ⟨e, he, hproject, hw, hc.2, rfl⟩
      · dsimp only at hk
        split at hk
        · cases hk
          exact ⟨e, he, hproject, hw, hc.2, rfl⟩
        · exact hbest k hk
    · exact hbest k hk
  have hfold : ∀ (rest : List (Path × Receipt)) best, (∀ x ∈ rest, x ∈ l) → Good best →
      Good (rest.foldl (RecoveryStore.later_terminal project_id t.path) best) := by
    intro rest
    induction rest with
    | nil => exact fun _ _ hbest => hbest
    | cons x rest ih =>
      intro best hsub hbest
      exact ih _ (fun y hy => hsub y (List.mem_cons_of_mem _ hy))
        (hstep best x (hsub x List.mem_cons_self) hbest)
  exact hfold l none (fun _ hx => hx) (fun _ hk => by cases hk) key hlatest

end Lists

end jvc.recovery
