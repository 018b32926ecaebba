import Placeholders.Proofs.Layout
import Placeholders.Proofs.Naming

namespace Placeholders

/-- The distinct values of a list in the order in which they are first met. -/
inductive FirstMet {α : Type} : List α → List α → Prop
  | none : FirstMet [] []
  | again {xs ys : List α} {x : α} (h : FirstMet xs ys) (old : x ∈ xs) : FirstMet (xs ++ [x]) ys
  | new {xs ys : List α} {x : α} (h : FirstMet xs ys) (fresh : x ∉ xs) :
    FirstMet (xs ++ [x]) (ys ++ [x])

section
variable {α : Type} [DecidableEq α] {xs ys : List α}

theorem eraseDups_snoc_of_mem {x : α} (h : x ∈ xs) : (xs ++ [x]).eraseDups = xs.eraseDups := by
  simp [List.eraseDups_append, List.removeAll, h]

theorem eraseDups_snoc_of_not_mem {x : α} (h : x ∉ xs) :
    (xs ++ [x]).eraseDups = xs.eraseDups ++ [x] := by
  simp [List.eraseDups_append, List.removeAll, h, List.eraseDups_cons]

theorem firstMet_eraseDups (xs : List α) : FirstMet xs xs.eraseDups := by
  induction xs using List.reverseRecOn with
  | nil => exact .none
  | append_singleton xs x ih =>
    by_cases h : x ∈ xs
    · exact eraseDups_snoc_of_mem h ▸ .again ih h
    · exact eraseDups_snoc_of_not_mem h ▸ .new ih h

theorem FirstMet.eq_eraseDups (h : FirstMet xs ys) : ys = xs.eraseDups := by
  induction h with
  | none => rfl
  | again h old ih => rw [ih, eraseDups_snoc_of_mem old]
  | new h fresh ih => rw [ih, eraseDups_snoc_of_not_mem fresh]

theorem eraseDups_insert {front : List α} {x : α} (h : x ∈ front) (back : List α) :
    (front ++ x :: back).eraseDups = (front ++ back).eraseDups := by
  have same : (x :: back).removeAll front = back.removeAll front := by simp [List.removeAll, h]
  rw [List.eraseDups_append, List.eraseDups_append, same]

theorem eraseDups_eraseDups (xs : List α) : xs.eraseDups.eraseDups = xs.eraseDups := by
  induction xs using List.reverseRecOn with
  | nil => rfl
  | append_singleton xs x ih =>
    by_cases h : x ∈ xs
    · rw [eraseDups_snoc_of_mem h, ih]
    · have fresh : x ∉ xs.eraseDups := by rwa [List.mem_eraseDups]
      rw [eraseDups_snoc_of_not_mem h, eraseDups_snoc_of_not_mem fresh, ih]

end

/-- What a token lists: the holders of a role by a field, or what a member of a course is to it. -/
inductive Listing where
  | holders (role : Role) (field : HolderField)
  | roles (member : RecordId)
  | groups (member : RecordId)
  | groupings (member : RecordId)

namespace Listing

def request : Listing → Request
  | .holders role field => .holders role field
  | .roles _ => .member .role
  | .groups _ => .member .group
  | .groupings _ => .member .grouping

/-- Anybody may see the names of the holders of a role, and their addresses whoever is signed in.
What a member is to a course is for the member to see. -/
def ShownTo (v : Viewer) : Listing → Prop
  | .holders _ .fullName => True
  | .holders _ .email => ∃ id, v = .signedIn id
  | .roles member => v = .signedIn member
  | .groups member => v = .signedIn member
  | .groupings member => v = .signedIn member

/-- The value that an assignment has for a listing. A holder without an account has none, and
neither has one whose field is empty. -/
def ofAssignment? (s : Store) (course : RecordId) : Listing → Assignment → Option String
  | .holders role field, r =>
    if r.course = course ∧ r.role = role.name then
      ((s.account? r.user).map field.valueOf).filter (· ≠ "")
    else none
  | .roles member, r => if r.user = member ∧ r.course = course then some r.role else none
  | _, _ => none

/-- The value that a membership has for a listing. A group may belong to no grouping. -/
def ofMembership? (course : RecordId) : Listing → Membership → Option String
  | .groups member, g => if g.user = member ∧ g.course = course then some g.group else none
  | .groupings member, g => if g.user = member ∧ g.course = course then g.grouping else none
  | _, _ => none

/-- The values that the records have for a listing. Only those of one sort have any. -/
def values (s : Store) (course : RecordId) (l : Listing) : List String :=
  s.roles.filterMap (l.ofAssignment? s course) ++ s.groups.filterMap (l.ofMembership? course)

/-- The text for distinct values, or a dash: for holders where there are none, and for a member
where nothing is left of them. -/
def text (separator : String) (l : Listing) (values : List String) : String :=
  let joined := String.intercalate separator values
  match l with
  | .holders _ _ => if values = [] then dash else joined
  | _ => if joined = "" then dash else joined

def lookup (a : Audience) (c : Config) (course : RecordId) : Listing → Lookup
  | .holders role field => .holders c course role field
  | .roles member => .member a c member course .role
  | .groups member => .member a c member course .group
  | .groupings member => .member a c member course .grouping

variable {l : Listing} {s : Store} {a : Audience} {c : Config} {course member : RecordId}
  {role : Role} {field : HolderField}

theorem plan_member (hv : a.viewer = .signedIn member) (hc : a.course = some course)
    (field : MemberField) :
    (Request.member field).plan a c = .lookup (.member a c member course field) := by
  simp [Request.plan, hv, hc, Request.planSignedIn, Plan.inCourse]

theorem plan_holders (shown : (holders role field).ShownTo a.viewer) (hc : a.course = some course) :
    (Request.holders role field).plan a c = .lookup (.holders c course role field) := by
  unfold Request.plan
  cases field with
  | email =>
    obtain ⟨id, hv⟩ := shown
    simp [hv, hc, Request.planSignedIn, Plan.inCourse]
  | fullName =>
    cases a.viewer <;> simp [hc, Request.planSignedIn, Request.planAnonymous, Plan.inCourse]

theorem plan_request (shown : l.ShownTo a.viewer) (hc : a.course = some course) :
    l.request.plan a c = .lookup (l.lookup a c course) := by
  cases l with
  | holders role field => exact plan_holders shown hc
  | roles member => exact plan_member shown hc .role
  | groups member => exact plan_member shown hc .group
  | groupings member => exact plan_member shown hc .grouping

theorem values_of_assignments (h : ∀ g, l.ofMembership? course g = none) (s : Store) :
    l.values s course = s.roles.filterMap (l.ofAssignment? s course) := by
  rw [values, List.filterMap_eq_nil_iff.mpr fun g _ => h g, List.append_nil]

theorem values_of_memberships (h : ∀ r, l.ofAssignment? s course r = none) :
    l.values s course = s.groups.filterMap (l.ofMembership? course) := by
  rw [values, List.filterMap_eq_nil_iff.mpr fun r _ => h r, List.nil_append]

theorem values_holders (s : Store) (course : RecordId) (role : Role) (field : HolderField) :
    (holders role field).values s course =
      ((s.roleHolders course role.name).map field.valueOf).filter (· ≠ "") := by
  rw [values_of_assignments fun _ => rfl, Store.roleHolders, List.filterMap_filter,
    List.map_filterMap, List.filter_filterMap]
  apply List.filterMap_congr
  intro r _
  by_cases h : r.course = course ∧ r.role = role.name <;> simp [ofAssignment?, h]

theorem values_roles (s : Store) (course member : RecordId) :
    (roles member).values s course = s.rolesOf member course := by
  rw [values_of_assignments fun _ => rfl, Store.rolesOf, ← List.filterMap_eq_map,
    List.filterMap_filter]
  apply List.filterMap_congr
  intro r _
  by_cases h : r.user = member ∧ r.course = course <;> simp [ofAssignment?, h]

theorem values_groups (s : Store) (course member : RecordId) :
    (groups member).values s course = s.groupsOf member course := by
  rw [values_of_memberships fun _ => rfl, Store.groupsOf, Store.membershipsOf,
    ← List.filterMap_eq_map, List.filterMap_filter]
  apply List.filterMap_congr
  intro g _
  by_cases h : g.user = member ∧ g.course = course <;> simp [ofMembership?, h]

theorem values_groupings (s : Store) (course member : RecordId) :
    ((groupings member).values s course).eraseDups = s.groupingsOf member course := by
  rw [values_of_memberships fun _ => rfl, Store.groupingsOf, Store.membershipsOf,
    List.filterMap_filter]
  apply congrArg
  apply List.filterMap_congr
  intro g _
  by_cases h : g.user = member ∧ g.course = course <;> simp [ofMembership?, h]

end Listing

section
variable {separator : String}

theorem listed_congr {xs ys : List String} (h : xs.eraseDups = ys.eraseDups) :
    listed separator xs = listed separator ys := by
  rw [listed, listed, h]

theorem listed_ne_empty (separator : String) (values : List String) :
    listed separator values ≠ "" := by
  unfold listed
  dsimp only
  split
  · decide
  · assumption

theorem intercalate_eq_empty_iff {values : List String} (full : ∀ v ∈ values, v ≠ "") :
    String.intercalate separator values = "" ↔ values = [] := by
  cases values with
  | nil => simp
  | cons v more =>
    have first : v ≠ "" := full v List.mem_cons_self
    cases more with
    | nil => simpa using first
    | cons next more => simp [String.intercalate_cons_cons, first]

end

namespace Listing
variable {l : Listing} {s : Store} {a : Audience} {c : Config} {course : RecordId}

theorem outcome_lookup (up : ∀ kind, s.fails kind = false) (a : Audience) (c : Config)
    (course : RecordId) (l : Listing) :
    (l.lookup a c course).outcome s = .ok (some (listed c.listSeparator (l.values s course))) := by
  rw [Lookup.outcome, Store.ask_of_answers (up _)]
  cases l with
  | holders role field => rw [values_holders]; rfl
  | roles member => rw [values_roles]; rfl
  | groups member => rw [values_groups]; rfl
  | groupings member =>
    have once : listed c.listSeparator ((groupings member).values s course) =
        listed c.listSeparator (s.groupingsOf member course) := by
      apply listed_congr
      rw [← values_groupings, eraseDups_eraseDups]
    rw [once]
    rfl

theorem listed_values {values : List String} (h : FirstMet (l.values s course) values)
    (separator : String) : listed separator (l.values s course) = l.text separator values := by
  obtain rfl := h.eq_eraseDups
  cases l with
  | holders role field =>
    have full : ∀ v ∈ ((holders role field).values s course).eraseDups, v ≠ "" := by
      intro v hv
      rw [List.mem_eraseDups, values_holders, List.mem_filter] at hv
      exact of_decide_eq_true hv.2
    simp only [listed, text, intercalate_eq_empty_iff full]
  | roles member => rfl
  | groups member => rfl
  | groupings member => rfl

/-- Of the rest of a store an assignment says nothing but whose account is the holder's. -/
theorem ofAssignment?_of_accounts (l : Listing) (course : RecordId) {t : Store}
    (h : t.accounts = s.accounts) : l.ofAssignment? t course = l.ofAssignment? s course := by
  funext r
  cases l with
  | holders role field => simp only [ofAssignment?, Store.account?, h]
  | roles member => rfl
  | groups member => rfl
  | groupings member => rfl

theorem values_insert_assignment {front back : List Assignment} (hs : s.roles = front ++ back)
    {x : Assignment} {v : String} (hx : l.ofAssignment? s course x = some v)
    (old : v ∈ front.filterMap (l.ofAssignment? s course)) :
    (l.values { s with roles := front ++ x :: back } course).eraseDups =
      (l.values s course).eraseDups := by
  have same := l.ofAssignment?_of_accounts course
    (rfl : { s with roles := front ++ x :: back }.accounts = s.accounts)
  rw [values, values, same, hs, List.filterMap_append, List.filterMap_append,
    List.filterMap_cons_some hx, List.append_assoc, List.append_assoc, List.cons_append]
  exact eraseDups_insert old _

theorem values_insert_membership {front back : List Membership} (hs : s.groups = front ++ back)
    {x : Membership} {v : String} (hx : l.ofMembership? course x = some v)
    (old : v ∈ front.filterMap (l.ofMembership? course)) :
    (l.values { s with groups := front ++ x :: back } course).eraseDups =
      (l.values s course).eraseDups := by
  have same := l.ofAssignment?_of_accounts course
    (rfl : { s with groups := front ++ x :: back }.accounts = s.accounts)
  rw [values, values, same, hs, List.filterMap_append, List.filterMap_append,
    List.filterMap_cons_some hx, ← List.append_assoc, ← List.append_assoc]
  exact eraseDups_insert (List.mem_append_right _ old) _

end Listing

namespace Resolver
variable {r : Resolver} {course : RecordId} {l : Listing} {raw body : String}

/-- What a token is filled with whose request leads to a lookup that finds a text. -/
theorem slot_of_asks {q : Request} (asked : SimpleToken.Asks raw body q) {k : Lookup}
    (hp : q.plan r.audience r.config = .lookup k) {v : String}
    (found : k.outcome r.store = .ok (some v)) : r.slot (.simple body) = v.toList := by
  obtain ⟨full, rfl, _⟩ := SimpleToken.asks_iff.mp asked
  have read : SimpleToken.read (Mark.simple body).text body =
      .ok ⟨(Mark.simple body).text, segmentsOf body⟩ := if_neg full
  have ending : r.markErrand (.simple body) = ⟨[], .lookup k r.simpleResolution⟩ := by
    simp only [markErrand, read, segmentsErrand, plan, hp]
  rw [slot, resolveMark_run, Errand.run_empty, ending]
  simp only [Errand.answer, found]
  rfl

theorem slot_of_listing (up : ∀ kind, r.store.fails kind = false)
    (hc : r.audience.course = some course) (shown : l.ShownTo r.audience.viewer)
    (asked : SimpleToken.Asks raw body l.request) :
    r.slot (.simple body) =
      (listed r.config.listSeparator (l.values r.store course)).toList :=
  slot_of_asks asked (Listing.plan_request shown hc) (Listing.outcome_lookup up _ _ _ l)

/-- Of the records only the distinct values count. -/
theorem slot_withStore (up : ∀ kind, r.store.fails kind = false)
    (hc : r.audience.course = some course) (shown : l.ShownTo r.audience.viewer)
    (asked : SimpleToken.Asks raw body l.request) {s : Store}
    (hf : s.failing = r.store.failing)
    (hv : (l.values s course).eraseDups = (l.values r.store course).eraseDups) :
    { r with store := s }.slot (.simple body) = r.slot (.simple body) := by
  have still : ∀ kind, s.fails kind = false := by
    intro kind
    rw [Store.fails, hf]
    exact up kind
  have there : { r with store := s }.slot (.simple body) =
      (listed r.config.listSeparator (l.values s course)).toList :=
    slot_of_listing still hc shown asked
  rw [there, slot_of_listing up hc shown asked, listed_congr hv]

/-- What the tokens of a resolver are filled with that list something of a course. -/
structure Lists (r : Resolver) (course : RecordId) : Prop where
  /-- There is one way to tell the values apart in the order of the records. -/
  distinct : ∀ l : Listing, ∃! values, FirstMet (l.values r.store course) values
  shown : ∀ (l : Listing) values raw body, l.ShownTo r.audience.viewer →
    FirstMet (l.values r.store course) values → SimpleToken.Asks raw body l.request →
      r.slot (.simple body) = (l.text r.config.listSeparator values).toList
  /-- No token is filled with nothing. -/
  full : ∀ (l : Listing) raw body, l.ShownTo r.audience.viewer →
    SimpleToken.Asks raw body l.request → r.slot (.simple body) ≠ []
  /-- One more record does not show if its value is listed by then. -/
  assignment : ∀ (l : Listing) front back x v raw body, l.ShownTo r.audience.viewer →
    SimpleToken.Asks raw body l.request → r.store.roles = front ++ back →
    l.ofAssignment? r.store course x = some v →
    v ∈ front.filterMap (l.ofAssignment? r.store course) →
      { r with store := { r.store with roles := front ++ x :: back } }.slot (.simple body) =
        r.slot (.simple body)
  membership : ∀ (l : Listing) front back x v raw body, l.ShownTo r.audience.viewer →
    SimpleToken.Asks raw body l.request → r.store.groups = front ++ back →
    l.ofMembership? course x = some v → v ∈ front.filterMap (l.ofMembership? course) →
      { r with store := { r.store with groups := front ++ x :: back } }.slot (.simple body) =
        r.slot (.simple body)
  /-- Whatever was filled in before, the tokens of a text are filled in like that. -/
  anywhere : ∀ past c, let s := (Session.start r).after past
    s.slots c = ((s.grammarOf c).tokensIn c.text).map r.slot

/-- Tokens with several values list what the records have. -/
theorem slot_lists (up : ∀ kind, r.store.fails kind = false)
    (hc : r.audience.course = some course) : r.Lists course where
  distinct l := ⟨_, firstMet_eraseDups _, fun _ h => h.eq_eraseDups⟩
  shown l values raw body shown h asked := by
    rw [slot_of_listing up hc shown asked, Listing.listed_values h]
  full l raw body shown asked := by
    rw [slot_of_listing up hc shown asked, ne_eq, String.toList_eq_nil_iff]
    exact listed_ne_empty _ _
  assignment l front back x v raw body shown asked hs hx old :=
    slot_withStore up hc shown asked rfl (Listing.values_insert_assignment hs hx old)
  membership l front back x v raw body shown asked hs hx old :=
    slot_withStore up hc shown asked rfl (Listing.values_insert_membership hs hx old)
  anywhere past c := Session.slots_after r past c

/-- A teacher without an account, one without a name and two of one name, and a group without a
name: with nothing between the values, one name and a dash are left. -/
theorem slot_lists_namesakes :
    let r : Resolver :=
      { store :=
          { accounts := [{ id := 1, firstName := "Ann" }, { id := 2 },
              { id := 3, lastName := "Ann" }, { id := 1, firstName := "Bo" }]
            roles := [⟨9, 5, "teacher"⟩, ⟨2, 5, "teacher"⟩, ⟨1, 5, "teacher"⟩, ⟨3, 5, "teacher"⟩]
            groups := [⟨1, 5, "", none⟩, ⟨1, 5, "", none⟩] }
        audience := .english (.signedIn 1) (some 5)
        config := { listSeparator := "" } }
    (∀ kind, r.store.fails kind = false) ∧ r.audience.course = some 5 ∧ r.Lists 5 ∧
      r.slot (.simple "TEACHER_FULLNAME") = "Ann".toList ∧
      r.slot (.simple "COURSE_USER_GROUP") = "-".toList := by
  intro r
  have up : ∀ kind, r.store.fails kind = false := fun _ => rfl
  exact ⟨up, rfl, slot_lists up rfl, by decide +kernel, by decide +kernel⟩

end Resolver

end Placeholders
