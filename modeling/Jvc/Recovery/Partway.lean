import Jvc.Recovery.Interrupted

namespace jvc.recovery

variable {Bytes : Type} [Text] [Host Bytes] {i : Pid} {t : Path} {p : ProjectId}
  {J J' K K' R : Journal Bytes} {e : Entry Bytes} {content : Bytes}

namespace Journal

/-- How far a write of `content` has come since its receipt `e` was recorded. -/
inductive Partway (J : Journal Bytes) (e : Entry Bytes) (content : Bytes) : Journal Bytes → Prop
  | announced {K : Journal Bytes} (hentries : K.entries = e :: J.entries)
      (htarget : K.target = J.target) (hlog : K.log = J.log) : Partway J e content K
  | installed {K : Journal Bytes} (hentries : K.entries = e :: J.entries)
      (htarget : K.target = some content) : Partway J e content K
  | applied {K : Journal Bytes}
      (hentries : K.entries = e.applied (sha256_bytes content) :: J.entries)
      (htarget : K.target = some content) : Partway J e content K
  | verified {K : Journal Bytes}
      (hentries : K.entries = e.verified (sha256_bytes content) :: J.entries)
      (htarget : K.target = some content) : Partway J e content K

/-- The work of a write goes on from where it has come. -/
theorem Partway.step (h : J.Partway e content K) (hann : J.Announces p e) (hlogged : J.Logged)
    (hstep : Step i t .write K K') (hcontent : K'.log = K.log ∨ K'.target = some content) :
    J.Partway e content K' := by
  have hnamed : ∀ c ∈ J.log, c.receipt_id ≠ some e.receipt_id := by
    intro c hc hid
    obtain ⟨x, hx, hxid⟩ := List.mem_map.mp (hlogged c hc _ hid)
    exact hann.fresh x hx hxid
  have hfresh : ∀ x ∈ J.entries, x.receipt_id ≠ (e.applied (sha256_bytes content)).receipt_id := by
    rw [Entry.applied_receipt_id]
    exact hann.fresh
  have hgrown : ∀ {c : Change Bytes} {log : List (Change Bytes)}, c :: log ≠ log := by
    intro c log hlog
    have hlength := congrArg List.length hlog
    rw [List.length_cons] at hlength
    omega
  cases hstep with
  | install he hw hstate hpre hbackup hnew data =>
    have htarget : some data = some content := hcontent.resolve_left hgrown
    cases h with
    | announced hentries => exact .installed hentries htarget
    | installed hentries => exact .installed hentries htarget
    | applied hentries =>
      rw [hentries] at he
      cases he
      rw [Entry.applied_tx_state] at hstate
      cases hstate
    | verified hentries =>
      rw [hentries] at he
      cases he
      cases hstate
  | @note _ e' rest c log data he hw hstate hlog hid ht =>
    cases h with
    | announced hentries _ hsame =>
      rw [hentries] at he
      cases he
      refine absurd hid (hnamed c ?_)
      rw [← hsame, hlog]
      exact List.mem_cons_self
    | installed hentries htarget =>
      rw [hentries] at he
      cases he
      rw [htarget] at ht
      cases ht
      exact .applied (update_head hentries hann.fresh _) htarget
    | applied hentries =>
      rw [hentries] at he
      cases he
      rw [Entry.applied_tx_state] at hstate
      cases hstate
    | verified hentries =>
      rw [hentries] at he
      cases he
      cases hstate
  | verify he hw hstate hpost hcurrent hok =>
    cases h with
    | announced hentries =>
      rw [hentries] at he
      cases he
      rw [hann.state] at hstate
      cases hstate
    | installed hentries =>
      rw [hentries] at he
      cases he
      rw [hann.state] at hstate
      cases hstate
    | applied hentries htarget =>
      rw [hentries] at he
      cases he
      exact .verified (update_head hentries hfresh _) htarget
    | verified hentries =>
      rw [hentries] at he
      cases he
      cases hstate

/-- Where a write is cut off: while the pending receipts are settled, or on its way
from its receipt. -/
inductive Writing (i : Pid) (t : Path) (p : ProjectId) (J : Journal Bytes) (content : Bytes) :
    Journal Bytes → Prop
  | settling {K : Journal Bytes} (hsettling : Settling i t J K) : Writing i t p J content K
  | partway {K J' : Journal Bytes} {e : Entry Bytes} (hsettling : Settling i t J J')
      (hann : J'.Announces p e) (hlogged : J'.Logged) (hpartway : J'.Partway e content K) :
      Writing i t p J content K

/-- The target is as it was, and of the write there is at most a receipt found
unapplied. -/
structure Unwritten (J R : Journal Bytes) : Prop where
  target : R.target = J.target
  receipt : ∀ r ∈ R.entries, r.receipt_id ∉ J.entries.map Entry.receipt_id →
    r.tx_state = .RECOVERED_UNAPPLIED

/-- The target has the new content, under a VERIFIED receipt for what was there. -/
structure Rewritten (J R : Journal Bytes) (content : Bytes) : Prop where
  target : R.target = some content
  receipt : ∃ r ∈ R.entries, r.receipt_id ∉ J.entries.map Entry.receipt_id ∧
    r.kind.isWrite = true ∧ r.tx_state = .VERIFIED ∧ r.kind.pre = J.current ∧
      r.kind.backup = J.target

/-- The write is journaled as far as it has come: its receipt has been APPLIED, or
the target is as it was. -/
def Noted (J K : Journal Bytes) : Prop :=
  (∃ e ∈ K.entries, e.receipt_id ∉ J.entries.map Entry.receipt_id ∧ e.tx_state ≠ .PREPARED) ∨
    K.target = J.target

/-- Restart recovery makes of a receipt that no rollback names what it counts as. -/
theorem Sourced.recovering_receipt (h : J.Sourced) (hrec : Recovering i t J R)
    (he : e ∈ J.entries) (hno : ∀ r ∈ J.entries, r.kind.source ≠ some e.receipt_id) :
    R.Sourced ∧ R.target = J.target ∧ R.entries.map Entry.link = J.entries.map Entry.link ∧
      ∃ x ∈ R.entries, x.link = e.link ∧ x.settled J.current = e.settled J.current := by
  induction hrec with
  | refl => exact ⟨h, rfl, rfl, e, he, rfl, rfl⟩
  | @tail K R _ hone ih =>
    obtain ⟨hK, htarget, hlinks, x, hx, hlink, hsettled⟩ := ih
    have hcurrent : K.current = J.current := by rw [current, current, htarget]
    have hmarked : ∀ id s, (x.receipt_id = id → (x.mark s).settled K.current = x.settled K.current) →
        ∃ y ∈ (K.mark id s).entries, y.link = e.link ∧
          y.settled J.current = e.settled J.current := by
      intro id s hself
      obtain ⟨y, hy, hylink, hysettled⟩ := Sourced.rollback_mark hx hself
      rw [hcurrent] at hysettled
      exact ⟨y, hy, hylink.trans hlink, hysettled.trans hsettled⟩
    rcases hone with hstep | hstep
    · have hR := hstep.sourced hK
      cases hstep with
      | @settle _ e₀ he₀ hp =>
        refine ⟨hR, htarget, (links_mark _ _).trans hlinks, hmarked _ _ fun hid => ?_⟩
        rw [hK.wf.eq_of_id hx he₀ hid]
        exact Entry.settled_of_complete (e₀.settled_complete _) _
      | @finalize _ r source hr hs hv =>
        refine ⟨hR, htarget, (links_mark _ _).trans hlinks, hmarked _ _ fun hid => ?_⟩
        have hmem : r.link ∈ J.entries.map Entry.link := by
          rw [← hlinks]
          exact List.mem_map_of_mem hr
        obtain ⟨r₀, hr₀, hrlink⟩ := List.mem_map.mp hmem
        have hkind : r₀.kind = r.kind := congrArg Prod.snd hrlink
        have hxid : x.receipt_id = e.receipt_id := congrArg Prod.fst hlink
        refine absurd ?_ (hno r₀ hr₀)
        rw [hkind, hs, ← hid, hxid]
    · cases hstep with
      | audit he₀ _ _ hlost =>
        rw [hK.intact _ he₀] at hlost
        cases hlost

theorem Announces.applied_settled (h : J.Announces p e)
    (hok : (e.applied (sha256_bytes content)).backup_ok = true) (htarget : K.target = some content) :
    (e.applied (sha256_bytes content)).settled K.current = .VERIFIED := by
  have hkind : (e.applied (sha256_bytes content)).kind =
      .write e.kind.prev J.current (some (sha256_bytes content)) J.target := by
    rw [Entry.applied_write h.kind]
  rw [Entry.settled_write_of_applied hkind (Entry.applied_tx_state _ _), hok, current, htarget]
  exact if_pos (by simp)

section Outcome

variable {J₀ : Journal Bytes} (hK : K.Sourced) (hrec : Recovering i t K R)
  (hdecided : ∀ x ∈ R.entries, x.Decided R) (hids : J.entries.map Entry.receipt_id =
    J₀.entries.map Entry.receipt_id) (hwf : J.Wf)
include hK hrec hdecided hids hwf

/-- Recovery decides the newest receipt by itself. -/
theorem Sourced.newest_decided (hentries : K.entries = e :: J.entries)
    (hfresh : ∀ x ∈ J.entries, x.receipt_id ≠ e.receipt_id) (hw : e.kind.isWrite = true) :
    R.target = K.target ∧ ∃ x ∈ R.entries, x.link = e.link ∧ x.tx_state = e.settled K.current ∧
      ∀ y ∈ R.entries, y.receipt_id ∉ J₀.entries.map Entry.receipt_id → y = x := by
  have hmem : e ∈ K.entries := by
    rw [hentries]
    exact List.mem_cons_self
  have hno : ∀ r ∈ K.entries, r.kind.source ≠ some e.receipt_id := by
    intro r hr hsource
    rw [hentries] at hr
    rcases List.mem_cons.mp hr with rfl | hr
    · rw [Kind.isWrite_of_source hsource] at hw
      cases hw
    · obtain ⟨s, hs, hid, _⟩ := hwf.source r hr _ hsource
      exact hfresh s hs hid
  obtain ⟨hR, htarget, hlinks, x, hx, hlink, hsettled⟩ := hK.recovering_receipt hrec hmem hno
  have hcurrent : R.current = K.current := by rw [current, current, htarget]
  refine ⟨htarget, x, hx, hlink, ?_, fun y hy hynew => ?_⟩
  · rw [← hsettled, ← hcurrent, Entry.settled_of_complete (hdecided x hx).complete]
  · have hymem : y.link ∈ K.entries.map Entry.link := by
      rw [← hlinks]
      exact List.mem_map_of_mem hy
    obtain ⟨z, hz, hzlink⟩ := List.mem_map.mp hymem
    have hzid : z.receipt_id = y.receipt_id := congrArg Prod.fst hzlink
    rw [hentries] at hz
    rcases List.mem_cons.mp hz with rfl | hz
    · have hxid : x.receipt_id = z.receipt_id := congrArg Prod.fst hlink
      exact hR.wf.eq_of_id hy hx (hzid.symm.trans hxid.symm)
    · refine absurd ?_ hynew
      rw [← hids, ← hzid]
      exact List.mem_map_of_mem hz

/-- A write partway is found unwritten or finished exactly where the journal has noted
what it has done. -/
theorem Partway.outcome_iff (h : J.Partway e content K) (hann : J.Announces p e)
    (htarget : J.target = J₀.target) :
    (J₀.Unwritten R ∨ J₀.Rewritten R content) ↔ J₀.Noted K := by
  have hw : e.kind.isWrite = true := by
    rw [hann.kind]
    rfl
  have hnew : e.receipt_id ∉ J₀.entries.map Entry.receipt_id := by
    rw [← hids]
    intro hmem
    obtain ⟨x, hx, hxid⟩ := List.mem_map.mp hmem
    exact hann.fresh x hx hxid
  have hcurrent : J.current = J₀.current := by rw [current, current, htarget]
  have hprepared : K.entries = e :: J.entries →
      ((J₀.Unwritten R ∨ J₀.Rewritten R content) ↔ J₀.Noted K) := by
    intro hentries
    obtain ⟨hsame, x, hx, hlink, hstate, honly⟩ :=
      Sourced.newest_decided hK hrec hdecided hids hwf hentries hann.fresh hw
    have hmem : e ∈ K.entries := by
      rw [hentries]
      exact List.mem_cons_self
    rw [Entry.settled_write_of_prepared hann.kind hann.state, hK.intact e hmem] at hstate
    have hxnew : x.receipt_id ∉ J₀.entries.map Entry.receipt_id := by
      have hxid : x.receipt_id = e.receipt_id := congrArg Prod.fst hlink
      rw [hxid]
      exact hnew
    have hnoted : J₀.Noted K ↔ K.target = J₀.target := by
      refine ⟨?_, .inr⟩
      rintro (⟨y, hy, hynew, hne⟩ | hsame')
      · rw [hentries] at hy
        rcases List.mem_cons.mp hy with rfl | hy
        · exact absurd hann.state hne
        · rw [← hids] at hynew
          exact absurd (List.mem_map_of_mem hy) hynew
      · exact hsame'
    rw [hnoted]
    constructor
    · rintro (hun | hre)
      · rw [← hsame]
        exact hun.target
      · obtain ⟨r, hr, hrnew, _, hverified, _⟩ := hre.receipt
        rw [honly r hr hrnew, hstate] at hverified
        split at hverified <;> cases hverified
    · intro hback
      have hnow : K.current = J.current := by rw [current, current, hback, htarget]
      refine .inl ⟨hsame.trans hback, fun y hy hynew => ?_⟩
      rw [honly y hy hynew, hstate, hnow, beq_self_eq_true]
      rfl
  have hfinished : ∀ e' : Entry Bytes, K.entries = e' :: J.entries → K.target = some content →
      e'.receipt_id = e.receipt_id → e'.kind.isWrite = true → e'.kind.pre = J.current →
        e'.kind.backup = J.target → e'.tx_state ≠ .PREPARED → e'.settled K.current = .VERIFIED →
          ((J₀.Unwritten R ∨ J₀.Rewritten R content) ↔ J₀.Noted K) := by
    intro e' hentries hnow hid hw' hpre hbackup hne hsettled
    obtain ⟨hsame, x, hx, hlink, hstate, _⟩ :=
      Sourced.newest_decided hK hrec hdecided hids hwf hentries (by rw [hid]; exact hann.fresh) hw'
    have hxid : x.receipt_id = e'.receipt_id := congrArg Prod.fst hlink
    have hxkind : x.kind = e'.kind := congrArg Prod.snd hlink
    refine iff_of_true (.inr ⟨hsame.trans hnow, x, hx, ?_, ?_, ?_, ?_, ?_⟩) (.inl ⟨e', ?_, ?_, hne⟩)
    · rw [hxid, hid]
      exact hnew
    · rw [hxkind, hw']
    · rw [hstate, hsettled]
    · rw [hxkind, hpre, hcurrent]
    · rw [hxkind, hbackup, htarget]
    · rw [hentries]
      exact List.mem_cons_self
    · rw [hid]
      exact hnew
  have hkind : ∀ text, (e.applied text).kind = .write e.kind.prev J.current (some text) J.target := by
    intro text
    rw [Entry.applied_write hann.kind]
  cases h with
  | announced hentries => exact hprepared hentries
  | installed hentries => exact hprepared hentries
  | applied hentries hnow =>
    have hok : (e.applied (sha256_bytes content)).backup_ok = true := hK.intact _ (by
      rw [hentries]
      exact List.mem_cons_self)
    refine hfinished _ hentries hnow (e.applied_receipt_id _) (by rw [hkind]; rfl)
      (by rw [hkind]; rfl) (by rw [hkind]; rfl) (by rw [Entry.applied_tx_state]; decide) ?_
    exact hann.applied_settled hok hnow
  | verified hentries hnow =>
    refine hfinished _ hentries hnow (e.applied_receipt_id _) ?_ ?_ ?_
      (fun h => by cases h) ?_
    · rw [Entry.verified, Entry.mark_kind, hkind]
      rfl
    · rw [Entry.verified, Entry.mark_kind, hkind]
      rfl
    · rw [Entry.verified, Entry.mark_kind, hkind]
      rfl
    · exact Entry.settled_of_complete rfl _

end Outcome

/-- A write that has left the target as it was leaves nothing more to resolve. -/
theorem Writing.resolvable_iff (h : J.Writing i t p content K) (hJ : J.Sourced) (hK : K.Sourced)
    (htarget : K.target = J.target) (project_id : String) :
    K.Resolvable project_id ↔ J.Resolvable project_id := by
  cases h with
  | settling hsettling => exact (hJ.overtaking hsettling.overtaking).2.2 project_id
  | @partway J' e hsettling hann hlogged hpartway =>
    rw [← (hJ.overtaking hsettling.overtaking).2.2 project_id]
    have hcurrent : K.current = J'.current := by
      rw [current, current, htarget, hsettling.quiet.target]
    have hnewest : ∀ e' : Entry Bytes, K.entries = e' :: J'.entries →
        e'.settled K.current ≠ .RECOVERY_REQUIRED →
          (K.Resolvable project_id ↔ J'.Resolvable project_id) := by
      intro e' hentries hclear
      constructor
      · intro hres x hx hproject
        rw [← hcurrent]
        exact hres x (by rw [hentries]; exact List.mem_cons_of_mem _ hx) hproject
      · intro hres x hx hproject
        rw [hentries] at hx
        rcases List.mem_cons.mp hx with rfl | hx
        · exact hclear
        · rw [hcurrent]
          exact hres x hx hproject
    have hunapplied : K.entries = e :: J'.entries →
        (K.Resolvable project_id ↔ J'.Resolvable project_id) := by
      intro hentries
      refine hnewest e hentries ?_
      rw [Entry.settled_write_of_prepared hann.kind hann.state, hcurrent, beq_self_eq_true,
        hK.intact e (by rw [hentries]; exact List.mem_cons_self)]
      exact fun hno => by cases hno
    cases hpartway with
    | announced hentries => exact hunapplied hentries
    | installed hentries => exact hunapplied hentries
    | applied hentries hnow =>
      refine hnewest _ hentries ?_
      rw [hann.applied_settled (hK.intact _ (by rw [hentries]; exact List.mem_cons_self)) hnow]
      exact fun hno => by cases hno
    | verified hentries =>
      refine hnewest _ hentries ?_
      rw [Entry.settled_of_complete rfl]
      exact fun hno => by cases hno

end Journal

end jvc.recovery
