import Jvc.World

namespace jvc

/-- `[a-z0-9]` -/
def idChar (c : Char) : Bool := ('a' ≤ c && c ≤ 'z') || ('0' ≤ c && c ≤ '9')

/-- `[a-z0-9]+(?:-[a-z0-9]+)*` on the rest of the id; `started` says that the
current group has a character. -/
def matchId : Bool → List Char → Bool
  | started, [] => started
  | started, c :: rest =>
    if idChar c then matchId true rest else started && c == '-' && matchId false rest

/-- A registered project id, one that `PROJECT_ID_RE` matches. -/
structure ProjectId where
  text : String
  matched : matchId false text.toList = true
  deriving DecidableEq

theorem matchId_flat {started : Bool} {cs : List Char} (h : matchId started cs = true) :
    '/' ∉ cs := by
  induction cs generalizing started with
  | nil => simp
  | cons c rest ih =>
    unfold matchId at h
    split at h
    · rename_i hc
      have hne : '/' ≠ c := by
        rintro rfl
        exact absurd hc (by decide)
      exact List.not_mem_cons_of_ne_of_not_mem hne (ih h)
    · simp only [Bool.and_eq_true, beq_iff_eq] at h
      obtain ⟨⟨_, rfl⟩, hrest⟩ := h
      exact List.not_mem_cons_of_ne_of_not_mem (by decide) (ih hrest)

theorem ProjectId.flat (p : ProjectId) : '/' ∉ p.text.toList := matchId_flat p.matched

theorem ProjectId.text_ne (p : ProjectId) : p.text ≠ "" := by
  intro h
  have hm := p.matched
  rw [h] at hm
  exact absurd hm (by decide)

/-- Canonical registered project route: the fields the executor reads. -/
structure Route where
  project_id : ProjectId
  root : Path
  status : String
  deriving DecidableEq

def Route.lifecycle (r : Route) : String :=
  if r.status = "held" || r.status = "complete" || r.status = "superseded" then r.status
  else "active"

structure ProjectRegistry where
  route_list : List Route

/-- The first route registered under a project id. -/
def ProjectRegistry.get (self : ProjectRegistry) (project_id : String) : Option Route :=
  self.route_list.find? fun r => r.project_id.text == project_id

theorem ProjectRegistry.get_project_id {self : ProjectRegistry} {project_id : String} {r : Route}
    (h : self.get project_id = some r) : r.project_id.text = project_id := by
  have hfound := List.find?_some h
  simpa using hfound

end jvc
