import Placeholders.Proofs.Listing

namespace Placeholders

namespace Store
variable {s : Store} {user course : RecordId} {role : String} {p : Account}

theorem id_of_account? (h : s.account? user = some p) : p.id = user := by
  simpa using List.find?_some h

theorem account?_of_mem_roleHolders (h : p ∈ s.roleHolders course role) :
    s.account? p.id = some p := by
  obtain ⟨r, _, found⟩ := List.mem_filterMap.mp h
  rw [id_of_account? found, found]

/-- Those to whom a role is assigned in a course, in the order of the assignments. -/
def assignees (s : Store) (course : RecordId) (role : String) : List RecordId :=
  (s.roles.filter fun r => r.course = course && r.role = role).map (·.user)

theorem map_id_filterMap_account? (users : List RecordId) :
    (users.filterMap s.account?).map (·.id) = users.filter fun u => (s.account? u).isSome := by
  induction users with
  | nil => rfl
  | cons u users ih =>
    cases found : s.account? u with
    | none => simp [found, ih]
    | some p => simp [found, ih, id_of_account? found]

theorem roleHolders_ids (s : Store) (course : RecordId) (role : String) :
    (s.roleHolders course role).map (·.id) =
      (s.assignees course role).filter fun u => (s.account? u).isSome := by
  rw [← map_id_filterMap_account?, assignees, List.filterMap_map]
  rfl

/-- Either way the assignments of the role to the user in the course are counted. -/
theorem count_assignees (s : Store) (user course : RecordId) (role : String) :
    (s.assignees course role).count user = (s.rolesOf user course).count role := by
  rw [assignees, rolesOf, List.count_eq_countP, List.count_eq_countP, List.countP_map,
    List.countP_map, List.countP_filter, List.countP_filter]
  apply List.countP_congr
  intro r _
  simp only [Function.comp_apply, Bool.and_eq_true, beq_iff_eq, decide_eq_true_eq]
  tauto

theorem countP_roleHolders (s : Store) (user course : RecordId) (role : String) :
    (s.roleHolders course role).countP (·.id = user) =
      if (s.account? user).isSome then (s.rolesOf user course).count role else 0 := by
  have ids : (s.roleHolders course role).countP (·.id = user) =
      ((s.roleHolders course role).map (·.id)).count user := by
    rw [List.count_eq_countP, List.countP_map]
    rfl
  rw [ids, roleHolders_ids]
  split
  · rename_i found
    rw [← count_assignees]
    exact List.count_filter found
  · rename_i missing
    exact List.count_eq_zero.mpr fun h => missing (List.mem_filter.mp h).2

theorem mem_roleHolders (h : role ∈ s.rolesOf user course) (found : s.account? user = some p) :
    p ∈ s.roleHolders course role := by
  obtain ⟨r, hr, rfl⟩ := List.mem_map.mp h
  obtain ⟨assigned, own⟩ := List.mem_filter.mp hr
  simp only [Bool.and_eq_true, decide_eq_true_eq] at own
  obtain ⟨rfl, rfl⟩ := own
  refine List.mem_filterMap.mpr ⟨r, List.mem_filter.mpr ⟨assigned, ?_⟩, found⟩
  simp

end Store

/-- The tokens for a listing join these values. -/
structure Resolver.Joins (r : Resolver) (course : RecordId) (l : Listing) (values : List String) :
    Prop where
  firstMet : FirstMet (l.values r.store course) values
  filled : ∀ raw body, SimpleToken.Asks raw body l.request →
    r.slot (.simple body) = (l.text r.config.listSeparator values).toList

theorem Resolver.joins_eraseDups {r : Resolver} {course : RecordId} {l : Listing}
    (up : ∀ kind, r.store.fails kind = false) (hc : r.audience.course = some course)
    (shown : l.ShownTo r.audience.viewer) :
    r.Joins course l (l.values r.store course).eraseDups where
  firstMet := firstMet_eraseDups _
  filled raw body asked := by
    rw [slot_of_listing up hc shown asked, Listing.listed_values (firstMet_eraseDups _)]

namespace Store

/-- How the answers to the two questions hang together. -/
structure RolesAgree (s : Store) : Prop where
  answered : ∀ user course role,
    s.ask (.roleHolders course role) = .ok (s.roleHolders course role) ∧
      s.ask (.rolesOf user course) = .ok (s.rolesOf user course) ∧
      s.ask (.account user) = .ok (s.account? user)
  /-- A user is listed once for each time that the role is. -/
  counted : ∀ user course role, (s.roleHolders course role).countP (·.id = user) =
    if (s.account? user).isSome then (s.rolesOf user course).count role else 0
  own : ∀ user course role, ∀ p ∈ s.roleHolders course role, p.id = user →
    s.account? user = some p
  ordered : ∀ course role, (s.roleHolders course role).map (·.id) =
    ((s.roles.filter fun r => r.course = course && r.role = role).map (·.user)).filter
      fun u => (s.account? u).isSome
  /-- Viewers who have a name are named wherever they are told that they hold the role. -/
  named : ∀ r : Resolver, r.store = s → ∀ user course p, r.audience.viewer = .signedIn user →
    r.audience.course = some course → s.account? user = some p → p.fullName ≠ "" →
      ∃ roles, r.Joins course (.roles user) roles ∧
        ∀ role : Role, role.name ∈ roles →
          ∃ names, r.Joins course (.holders role .fullName) names ∧ p.fullName ∈ names

/-- Who holds a role and which roles somebody holds are two sides of one matter. -/
theorem roles_agree {s : Store} (up : ∀ kind, s.fails kind = false) : s.RolesAgree where
  answered user course role := ⟨ask_of_answers (up _), ask_of_answers (up _), ask_of_answers (up _)⟩
  counted := s.countP_roleHolders
  own user course role p h hp := hp ▸ account?_of_mem_roleHolders h
  ordered := s.roleHolders_ids
  named r hs user course p hv hc found full := by
    subst hs
    refine ⟨_, Resolver.joins_eraseDups up hc hv, fun role held => ?_⟩
    refine ⟨_, Resolver.joins_eraseDups up hc trivial, ?_⟩
    rw [List.mem_eraseDups, Listing.values_roles] at held
    rw [List.mem_eraseDups, Listing.values_holders, List.mem_filter]
    exact ⟨List.mem_map_of_mem (mem_roleHolders held found), decide_eq_true full⟩

/-- A role assigned twice, to a user of whom there are two records, and once to nobody known. -/
theorem roles_agree_twice :
    let s : Store :=
      { accounts := [{ id := 2, firstName := "Ada" }, { id := 2, firstName := "Bo" }]
        roles := [⟨2, 5, "teacher"⟩, ⟨9, 5, "teacher"⟩, ⟨2, 5, "teacher"⟩] }
    (∀ kind, s.fails kind = false) ∧ s.RolesAgree ∧
      (s.roleHolders 5 "teacher").map (·.fullName) = ["Ada", "Ada"] := by
  intro s
  have up : ∀ kind, s.fails kind = false := fun _ => rfl
  exact ⟨up, roles_agree up, by decide +kernel⟩

end Store

end Placeholders
