import Jvc.Recovery.Reads

open program program.Prog

namespace jvc.recovery

theorem globMatch_of_longer {dir front more back : String} {p : Path}
    (h : globMatch dir (front ++ more) back p = true) : globMatch dir front back p = true := by
  simp only [globMatch, Bool.and_eq_true, List.isPrefixOf_iff_prefix,
    List.isSuffixOf_iff_suffix] at h ⊢
  obtain ⟨⟨⟨rest, hrest⟩, hsuffix⟩, hflat⟩ := h
  refine ⟨⟨⟨more.toList ++ rest, ?_⟩, hsuffix.trans ?_⟩, hflat⟩
  · rw [← hrest]
    simp
  · have hlen : (dir ++ "/" ++ (front ++ more)).length =
        (dir ++ "/" ++ front).length + more.length := by
      simp only [String.length_append]
      omega
    rw [hlen, ← List.drop_drop]
    exact List.drop_suffix _ _

theorem eq_singleton_of_nodup {α : Type} {l : List α} {x : α} (hnodup : l.Nodup)
    (hmem : ∀ y, y ∈ l ↔ y = x) : l = [x] := by
  have hperm : l.Perm [x] := by
    refine (List.perm_ext_iff_of_nodup hnodup (List.nodup_singleton x)).mpr fun y => ?_
    rw [hmem, List.mem_singleton]
  exact List.perm_singleton.mp hperm

variable {Bytes : Type} [Text] [Host Bytes] {store : RecoveryStore} {owner : Option Pid} {i : Pid}
  {t : Target store} {Inv : Journal Bytes → Prop} {J : Journal Bytes} {w w' : World Bytes}

/-- The pointers of standing and of blocking receipts. -/
theorem critical_chain_references {project_id : String}
    {Q : Except Err (List String × List String) → World Bytes → Prop} (hat : J.At owner t w)
    (h : ∀ w' effective ambiguous, Later store i w w' → J.At owner t w' →
      (∀ id, id ≠ "" →
        (id ∈ effective ↔ J.Points project_id RecoveryStore.effectiveState id)) →
      (∀ id, id ≠ "" → (id ∈ ambiguous ↔ J.Points project_id TxState.blocking id)) →
      Q (.ok (effective, ambiguous)) w') :
    critical owner i t Inv (store.chain_references project_id t.path) Q w := by
  refine wp_seq.mpr (critical_all_valid_receipts hat fun w₁ files l hw₁ hat₁ hfiles hl => ?_)
  exact h w₁ _ _ hw₁ hat₁ (fun id hid => hl.mem_references hat.wf hfiles.covers hid)
    fun id hid => hl.mem_references hat.wf hfiles.covers hid

omit [Text] [Host Bytes] in
theorem Journal.TheHead.unique {project_id post : String} {a b : Entry Bytes}
    (ha : J.TheHead project_id post a) (hb : J.TheHead project_id post b) : a = b :=
  hb.2 a ha.1

/-- The chain link of a new write to the present target. -/
theorem critical_find_superseded_id {project_id : String}
    {Q : Except Err (Option String) → World Bytes → Prop} (hat : J.At owner t w)
    (h : ∀ w' prev, Later store i w w' → J.At owner t w' → J.Supersedes project_id prev →
      Q (.ok prev) w') :
    critical owner i t Inv (store.find_superseded_id project_id t.path J.target) Q w := by
  refine wp_seq.mpr (critical_all_valid_receipts hat fun w₁ files l hw₁ hat₁ hfiles hl => ?_)
  refine wp_seq.mpr (critical_chain_references hat₁ fun w₂ effective ambiguous hw₂ hat₂ heff _ => ?_)
  simp only [onResult_ok]
  cases htarget : J.target with
  | none =>
    refine h w₂ _ (hw₁.trans hw₂) hat₂ ?_
    simp only [Journal.Supersedes, Journal.current, htarget, Option.map_none]
    intro id hid
    obtain ⟨key, hkey, rfl⟩ := Option.map_eq_some_iff.mp hid
    obtain ⟨e, he, hproject, hw, hterminal, heq⟩ := hl.latest_terminal hkey
    exact ⟨e, he, hproject, hw, hterminal, heq⟩
  | some data =>
    have hmem : ∀ id, id ∈ (RecoveryStore.superseded_matches project_id t.path
        (sha256_bytes data) l).filter (fun rid => !effective.contains rid) ↔
          ∃ e, J.Head project_id (sha256_bytes data) e ∧ e.receipt_id = id := by
      intro id
      rw [List.mem_filter, hl.mem_superseded_matches hat.wf hfiles.covers]
      constructor
      · rintro ⟨⟨e, hcand, rfl⟩, hnot⟩
        refine ⟨e, ⟨hcand, fun hpoints => ?_⟩, rfl⟩
        rw [← heff _ e.receipt_id_ne] at hpoints
        simp [hpoints] at hnot
      · rintro ⟨e, ⟨hcand, hnot⟩, rfl⟩
        rw [← heff _ e.receipt_id_ne] at hnot
        exact ⟨⟨e, hcand, rfl⟩, by simpa using hnot⟩
    have hnodup := (hl.superseded_matches_nodup hfiles.nodup project_id
      (sha256_bytes data)).filter (fun rid => !effective.contains rid)
    have hsupersedes : ∀ prev,
        ((∃ e, J.TheHead project_id (sha256_bytes data) e ∧ prev = some e.receipt_id) ∨
          ((¬ ∃ e, J.TheHead project_id (sha256_bytes data) e) ∧ prev = none)) →
        Q (.ok prev) w₂ := by
      intro prev hprev
      refine h w₂ prev (hw₁.trans hw₂) hat₂ ?_
      simp only [Journal.Supersedes, Journal.current, htarget, Option.map_some]
      exact hprev
    dsimp only
    split
    · rename_i rid hlist
      rw [hlist] at hmem
      obtain ⟨e, hhead, rfl⟩ := (hmem rid).mp List.mem_cons_self
      refine hsupersedes _ (.inl ⟨e, ⟨hhead, fun x hx => ?_⟩, rfl⟩)
      have hid := List.mem_singleton.mp ((hmem x.receipt_id).mpr ⟨x, hx, rfl⟩)
      exact hat.wf.eq_of_id hx.1.1 hhead.1.1 hid
    · rename_i hlist
      refine hsupersedes _ (.inr ⟨?_, rfl⟩)
      rintro ⟨e, hhead, huniq⟩
      refine hlist e.receipt_id (eq_singleton_of_nodup hnodup fun id => ?_)
      rw [hmem]
      constructor
      · rintro ⟨x, hx, rfl⟩
        rw [huniq x hx]
      · rintro rfl
        exact ⟨e, hhead, rfl⟩

/-- The conditions `find_latest_receipt` puts on a candidate. -/
def isCandidate (project_id : String) (target : Path) (post : String) (data : Receipt) : Bool :=
  RecoveryStore.concerns project_id target data && get data.postimage_sha256 == .str post &&
    data.original_operation == .FS_WRITE && data.tx_state == .VERIFIED

theorem critical_candidates_among {project_id post : String} {files : List Path}
    {Q : Except Err (List Receipt) → World Bytes → Prop} (hat : J.At owner t w)
    (hfiles : ∀ p ∈ files, Known store p w)
    (h : ∀ w' l, Later store i w w' → J.At owner t w' → Reading t J files l →
      Q (.ok ((l.filter fun x => isCandidate project_id t.path post x.2).map Prod.snd)) w') :
    critical owner i t Inv (RecoveryStore.candidates_among project_id t.path post files) Q w := by
  induction files generalizing w Q with
  | nil => exact h w [] (.refl w) hat ⟨rfl, by simp⟩
  | cons p rest ih =>
    refine wp_seq.mpr (wp_attempt.mpr (critical_load_validated hat (hfiles p List.mem_cons_self)
      fun w₁ r hw₁ hat₁ hseen => ?_))
    refine wp_seq.mpr (ih hat₁ (fun q hq => (hfiles q (List.mem_cons_of_mem _ hq)).later hw₁)
      fun w₂ l hw₂ hat₂ hl => ?_)
    have hreading : Reading t J (p :: rest) ((p, r) :: l) := by
      refine ⟨by simp [hl.paths], ?_⟩
      intro x hx
      rcases List.mem_cons.mp hx with rfl | hx
      · exact hseen
      · exact hl.seen x hx
    have hdone := h w₂ ((p, r) :: l) (hw₁.trans hw₂) hat₂ hreading
    rw [List.filter_cons] at hdone
    simp only [onResult_ok]
    by_cases hc : isCandidate project_id t.path post r = true
    · rw [if_pos hc] at hdone
      have hc' := hc
      unfold isCandidate at hc'
      rw [if_pos hc']
      exact hdone
    · rw [if_neg hc] at hdone
      have hc' := hc
      unfold isCandidate at hc'
      rw [if_neg hc']
      exact hdone

omit [Text] [Host Bytes] in
theorem Reading.mem_candidates {files : List Path} {l : List (Path × Receipt)}
    (h : Reading t J files l) (hwf : J.Wf) {project_id post : String}
    (hfiles : ∀ e ∈ J.entries, e.kind.isWrite = true → e.project_id.text = project_id →
      store.receipt_path e.receipt_id ∈ files) (r : Receipt) :
    r ∈ (l.filter fun x => isCandidate project_id t.path post x.2).map Prod.snd ↔
      ∃ e, J.Candidate project_id post e ∧ r = e.receipt t := by
  simp only [List.mem_map, List.mem_filter, isCandidate, Bool.and_eq_true, beq_iff_eq]
  constructor
  · rintro ⟨x, ⟨hx, ⟨⟨hconcerns, hpost⟩, hop⟩, hstate⟩, rfl⟩
    obtain ⟨hproject, hpath⟩ := concerns_iff.mp hconcerns
    obtain ⟨e, he, rfl⟩ := h.own hx hpath
    rw [Entry.receipt_post, optStr_eq_str] at hpost
    refine ⟨e, ⟨he, hproject, ?_, hstate, hpost⟩, rfl⟩
    cases hk : e.kind with
    | write => rfl
    | rollback =>
      rw [Entry.receipt_operation, hk] at hop
      cases hop
  · rintro ⟨e, ⟨he, hproject, hw, hstate, hpost⟩, rfl⟩
    refine ⟨(store.receipt_path e.receipt_id, e.receipt t),
      ⟨h.mem hwf he (hfiles e he hw hproject), ⟨⟨?_, ?_⟩, ?_⟩, hstate⟩, rfl⟩
    · exact concerns_iff.mpr ⟨hproject, rfl⟩
    · rw [Entry.receipt_post, optStr_eq_str]
      exact hpost
    · cases hk : e.kind with
      | write =>
        rw [Entry.receipt_operation, hk]
        rfl
      | rollback =>
        rw [hk] at hw
        cases hw

/-- Selection of the receipt to roll back: the only head among the candidates,
with no blocking receipt pointing at it. -/
theorem critical_find_latest_receipt {project_id post : String}
    {Q : Except Err (Option Receipt) → World Bytes → Prop} (hat : J.At owner t w)
    (hpost : strip (Text.upper post) = post)
    (hnone : ∀ w', Later store i w w' → J.At owner t w' → (∀ e, ¬ J.Candidate project_id post e) →
      Q (.ok none) w')
    (hsome : ∀ w' e, Later store i w w' → J.At owner t w' → J.TheHead project_id post e →
      ¬ J.Points project_id TxState.blocking e.receipt_id → Q (.ok (some (e.receipt t))) w')
    (herror : ∀ w' err, Later store i w w' → J.At owner t w' → err.isRecoveryRequired = true →
      (∀ e, J.TheHead project_id post e → J.Points project_id TxState.blocking e.receipt_id) →
      Q (.error err) w') :
    critical owner i t Inv (store.find_latest_receipt project_id t.path post) Q w := by
  refine wp_seq.mpr (wp_glob fun w₁ hw₁ => ?_)
  have hat₁ := hw₁.view J hat
  have hknown : ∀ p ∈ w₁.globbed store.root ("recovery-" ++ project_id ++ "-") ".json",
      Known store p w₁ := by
    intro p hp
    obtain ⟨hmatch, hfound⟩ := World.mem_globbed.mp hp
    rw [String.append_assoc] at hmatch
    exact .of_sound hat₁.sound
      (Bool.or_eq_true_iff.mpr (.inl (globMatch_of_longer hmatch))) hfound
  have hcovers : ∀ e ∈ J.entries, e.kind.isWrite = true → e.project_id.text = project_id →
      store.receipt_path e.receipt_id ∈
        w₁.globbed store.root ("recovery-" ++ project_id ++ "-") ".json" := by
    rintro e he hw rfl
    exact World.mem_globbed.mpr ⟨e.glob_project hw, by rw [hat₁.held e he]; rfl⟩
  simp only [onResult_ok, hpost]
  refine wp_seq.mpr (critical_candidates_among hat₁ hknown fun w₂ l hw₂ hat₂ hl => ?_)
  have hmem : ∀ r, r ∈ (l.filter fun x => isCandidate project_id t.path post x.2).map Prod.snd ↔
      ∃ e, J.Candidate project_id post e ∧ r = e.receipt t :=
    fun r => hl.mem_candidates hat.wf hcovers r
  have hnodup : ((l.filter fun x => isCandidate project_id t.path post x.2).map Prod.snd).Nodup := by
    refine List.Nodup.map_on ?_ ((hl.nodup (World.globbed_nodup _ _ _ _)).filter _)
    intro x hx y hy hxy
    simp only [List.mem_filter, isCandidate, Bool.and_eq_true] at hx hy
    obtain ⟨a, _, rfl⟩ := hl.own hx.1 (concerns_iff.mp hx.2.1.1.1).2
    obtain ⟨b, _, rfl⟩ := hl.own hy.1 (concerns_iff.mp hy.2.1.1.1).2
    have hid : a.receipt_id = b.receipt_id := congrArg Receipt.receipt_id hxy
    exact Prod.ext (congrArg store.receipt_path hid) hxy
  generalize hcs : (l.filter fun x => isCandidate project_id t.path post x.2).map Prod.snd = cs
  rw [hcs] at hmem hnodup
  simp only [onResult_ok]
  split
  · rename_i hempty
    refine hnone w₂ (hw₁.toLater.trans hw₂) hat₂ fun e he => ?_
    have hin := (hmem (e.receipt t)).mpr ⟨e, he, rfl⟩
    rw [List.isEmpty_iff.mp hempty] at hin
    cases hin
  · refine wp_seq.mpr
      (critical_chain_references hat₂ fun w₃ effective ambiguous hw₃ hat₃ heff hamb => ?_)
    have hlater := (hw₁.toLater.trans hw₂).trans hw₃
    have hheads : ∀ r, r ∈ cs.filter (fun c => !effective.contains c.receipt_id) ↔
        ∃ e, J.Head project_id post e ∧ r = e.receipt t := by
      intro r
      rw [List.mem_filter, hmem]
      constructor
      · rintro ⟨⟨e, hcand, rfl⟩, hnot⟩
        refine ⟨e, ⟨hcand, fun hpoints => ?_⟩, rfl⟩
        rw [← heff _ e.receipt_id_ne] at hpoints
        simp [hpoints] at hnot
      · rintro ⟨e, ⟨hcand, hnot⟩, rfl⟩
        rw [← heff _ e.receipt_id_ne] at hnot
        exact ⟨⟨e, hcand, rfl⟩, by simpa using hnot⟩
    have hfilter := hnodup.filter (fun c => !effective.contains c.receipt_id)
    simp only [onResult_ok]
    split
    · rename_i head hlist
      rw [hlist] at hheads
      obtain ⟨e, hhead, rfl⟩ := (hheads head).mp List.mem_cons_self
      have hthe : J.TheHead project_id post e := by
        refine ⟨hhead, fun x hx => ?_⟩
        have hin := List.mem_singleton.mp ((hheads (x.receipt t)).mpr ⟨x, hx, rfl⟩)
        exact hat.wf.eq_of_id hx.1.1 hhead.1.1 (congrArg Receipt.receipt_id hin)
      simp only [wp_seq, wp_raiseIf, onResult_error, onResult_ok, pure_eq, wp_ret]
      refine ⟨fun hcontains => ?_, fun hcontains => ?_⟩
      · refine herror w₃ _ hlater hat₃ rfl fun x hx => ?_
        rw [hx.unique hthe, ← hamb _ e.receipt_id_ne]
        simpa using hcontains
      · refine hsome w₃ e hlater hat₃ hthe fun hpoints => ?_
        rw [← hamb _ e.receipt_id_ne] at hpoints
        simp [hpoints] at hcontains
    · rename_i hlist
      refine herror w₃ _ hlater hat₃ rfl fun x hx => (hlist (x.receipt t) ?_).elim
      refine eq_singleton_of_nodup hfilter fun r => ?_
      rw [hheads]
      constructor
      · rintro ⟨y, hy, rfl⟩
        rw [hx.2 y hy]
      · rintro rfl
        exact ⟨x, hx.1, rfl⟩

end jvc.recovery
