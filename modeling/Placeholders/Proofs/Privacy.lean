import Placeholders.Session
import Placeholders.Proofs.Delegation

namespace Placeholders

/-- Stores that hold the same about a viewer, in which the same queries fail, and that differ in
what they hold about others only where no text may say it to the viewer. -/
structure Store.SameFor (viewer : RecordId) (A B : Store) : Prop where
  failures : ∀ kind, A.fails kind = B.fails kind
  courses : A.courses = B.courses
  roles : A.roles = B.roles
  instances : A.instances = B.instances
  metadata : A.metadata = B.metadata
  account : A.account? viewer = B.account? viewer
  customFields : ∀ name,
    (A.customFieldsOf viewer).lookup name = (B.customFieldsOf viewer).lookup name
  groups : A.groups.filter (·.user = viewer) = B.groups.filter (·.user = viewer)
  enrolments : A.enrolments.filter (·.user = viewer) = B.enrolments.filter (·.user = viewer)
  grades : A.grades.filter (·.user = viewer) = B.grades.filter (·.user = viewer)
  others : ∀ id, id ≠ viewer → (A.account? id).map (fun a => (a.email, a.fullName)) =
    (B.account? id).map fun a => (a.email, a.fullName)

/-- Where the same is left under one condition, the same is left under a second one as well. -/
theorem filter_and_congr {α : Type} {p : α → Bool} {xs ys : List α}
    (h : xs.filter p = ys.filter p) (q : α → Bool) :
    xs.filter (fun x => p x && q x) = ys.filter fun x => p x && q x := by
  have twice (zs : List α) : zs.filter (fun x => p x && q x) = (zs.filter p).filter q := by
    simp only [List.filter_filter, Bool.and_comm]
  rw [twice, twice, h]

namespace Store.SameFor
variable {viewer : RecordId} {A B : Store}

theorem holder (h : A.SameFor viewer B) (field : HolderField) (id : RecordId) :
    (A.account? id).map field.valueOf = (B.account? id).map field.valueOf := by
  by_cases hid : id = viewer
  · rw [hid, h.account]
  · have pairs := h.others id hid
    cases field with
    | email =>
      have address := congrArg (Option.map Prod.fst) pairs
      simpa only [Option.map_map, Function.comp_def, HolderField.valueOf] using address
    | fullName =>
      have name := congrArg (Option.map Prod.snd) pairs
      simpa only [Option.map_map, Function.comp_def, HolderField.valueOf] using name

theorem roleHolders (h : A.SameFor viewer B) (field : HolderField) (course : RecordId)
    (role : String) :
    (A.roleHolders course role).map field.valueOf =
      (B.roleHolders course role).map field.valueOf := by
  simp only [Store.roleHolders, List.map_filterMap, h.roles, h.holder]

theorem memberships (h : A.SameFor viewer B) (course : RecordId) :
    A.membershipsOf viewer course = B.membershipsOf viewer course :=
  filter_and_congr h.groups fun g => g.course = course

theorem enrolmentDate (h : A.SameFor viewer B) (course : RecordId) :
    A.enrolmentDate viewer course = B.enrolmentDate viewer course := by
  have own := filter_and_congr h.enrolments fun e => e.course = course
  simp only [Store.enrolmentDate, own]

theorem finalGrade (h : A.SameFor viewer B) (course : RecordId) :
    A.finalGrade viewer course = B.finalGrade viewer course := by
  have own := filter_and_congr h.grades fun g => g.course = course
  simp only [Store.finalGrade, ← List.head?_filter, own]

theorem findInstance (h : A.SameFor viewer B) {c : MetadataContext} (hc : c.Builtin)
    (a : Audience) : c.findInstance a A = c.findInstance a B := by
  obtain rfl | rfl | ⟨name, level, rfl⟩ := hc
  · rfl
  · rfl
  · apply congrArg (Asked.mk _)
    apply ask_congr (h.failures _)
    simp only [Store.answer, Store.resolveInstance, h.instances]

end Store.SameFor

namespace Lookup
variable {viewer : RecordId} {A B : Store}

theorem member_outcome (h : A.SameFor viewer B) (a : Audience) (c : Config) (id : RecordId)
    (field : MemberField) :
    (member a c viewer id field).outcome A = (member a c viewer id field).outcome B := by
  apply outcome_congr_of_answer (h.failures _)
  cases field with
  | role => simp only [member, Store.answer, Store.rolesOf, h.roles]
  | group => simp only [member, Store.answer, Store.groupsOf, h.memberships]
  | grouping => simp only [member, Store.answer, Store.groupingsOf, h.memberships]
  | enrolDate => simp only [member, Store.answer, h.enrolmentDate]
  | grade => simp only [member, Store.answer, h.finalGrade]

theorem holders_outcome (h : A.SameFor viewer B) (c : Config) (id : RecordId) (role : Role)
    (field : HolderField) :
    (holders c id role field).outcome A = (holders c id role field).outcome B := by
  apply outcome_congr_of_answer (h.failures _)
  simp only [holders, Store.answer, h.roleHolders]

theorem metadata_outcome (h : A.SameFor viewer B) (c : MetadataContext) (id : RecordId)
    (field : String) : (metadata c id field).outcome A = (metadata c id field).outcome B := by
  apply outcome_congr_of_answer (h.failures _)
  simp only [metadata, Store.answer, Store.fieldValue, h.metadata]

theorem run_congr {l : Lookup} (h : l.outcome A = l.outcome B) (m : Memo LookupKey) :
    l.run A m = l.run B m := by
  simp only [run, h]

/-- Whatever is looked up for the viewer, both stores make the same text of it. -/
theorem planSignedIn_outcome (h : A.SameFor viewer B) {a : Audience} {c : Config} {q : Request}
    {l : Lookup} (hl : q.planSignedIn a c viewer = .lookup l) : l.outcome A = l.outcome B := by
  rcases Resolver.planSignedIn_lookup hl with ⟨field, rfl⟩ | ⟨name, rfl⟩ |
    ⟨id, _, ⟨field, rfl⟩ | ⟨field, _, rfl⟩ | ⟨role, field, rfl⟩⟩
  · apply outcome_congr_of_answer (h.failures _)
    simp only [account, Store.answer, h.account]
  · apply outcome_congr_of_answer (h.failures _)
    exact h.customFields name
  · apply outcome_congr_of_answer (h.failures _)
    simp only [course, Store.answer, Store.course?, h.courses]
  · exact member_outcome h a c id field
  · exact holders_outcome h c id role field

end Lookup

theorem Errand.run_congr {e : Errand} {A B : Store}
    (h : ∀ l, e.lookup? = some l → l.outcome A = l.outcome B) (m : Memo LookupKey) :
    e.run A m = e.run B m := by
  obtain ⟨queries, ending⟩ := e
  cases ending with
  | settled resolution => rfl
  | lookup l read => simp only [run, Lookup.run_congr (h l rfl)]

namespace Resolver
variable {viewer : RecordId} {r : Resolver} {B : Store}

theorem segmentsErrand_outcome (h : r.store.SameFor viewer B)
    (hv : r.audience.viewer = .signedIn viewer) {segments : List String} {l : Lookup}
    (hl : (r.segmentsErrand segments).lookup? = some l) : l.outcome r.store = l.outcome B := by
  have hk := segmentsErrand_lookup?_iff.mp hl
  unfold plan Request.plan at hk
  rw [hv] at hk
  exact Lookup.planSignedIn_outcome h hk

theorem metadataErrand_outcome (h : r.store.SameFor viewer B) {t : MetadataToken} {l : Lookup}
    (hl : (r.metadataErrand t).lookup? = some l) : l.outcome r.store = l.outcome B := by
  obtain ⟨c, id, _, rfl⟩ := metadataLookup_lookup (metadataErrand_lookup?_iff.mp hl)
  exact Lookup.metadata_outcome h c id t.field

/-- The store has a say in finding an instance and in the one lookup, and the same one in both. -/
theorem metadataErrand_sameFor (h : r.store.SameFor viewer B) (hd : r.directory.Builtin)
    (t : MetadataToken) : { r with store := B }.metadataErrand t = r.metadataErrand t := by
  have found : { r with store := B }.metadataLookup t = r.metadataLookup t := by
    unfold metadataLookup
    dsimp only
    cases hc : r.directory.get? t.category with
    | none => rfl
    | some c =>
      have inst : { r with store := B }.instanceOf t c = r.instanceOf t c := by
        unfold instanceOf
        dsimp only
        rw [h.findInstance (hd.get? hc)]
      simp only [inst]
  unfold metadataErrand
  rw [found]
  rfl

theorem markErrand_sameFor (h : r.store.SameFor viewer B) (hd : r.directory.Builtin)
    (mark : Mark) : { r with store := B }.markErrand mark = r.markErrand mark := by
  cases mark with
  | simple body => rfl
  | namespaced context field =>
    unfold markErrand
    dsimp only
    split
    · exact metadataErrand_sameFor h hd _
    · rfl

theorem markErrand_outcome (h : r.store.SameFor viewer B)
    (hv : r.audience.viewer = .signedIn viewer) {mark : Mark} {l : Lookup}
    (hl : (r.markErrand mark).lookup? = some l) : l.outcome r.store = l.outcome B := by
  rcases markErrand_lookup? hl with ⟨segments, hl⟩ | ⟨t, hl⟩
  · exact segmentsErrand_outcome h hv hl
  · exact metadataErrand_outcome h hl

theorem resolveMark_sameFor (h : r.store.SameFor viewer B)
    (hv : r.audience.viewer = .signedIn viewer) (hd : r.directory.Builtin)
    (m : Memo LookupKey) (mark : Mark) :
    { r with store := B }.resolveMark m mark = r.resolveMark m mark := by
  rw [resolveMark_run, resolveMark_run, markErrand_sameFor h hd]
  exact (Errand.run_congr (fun _ => markErrand_outcome h hv) m).symm

theorem fillPieces_congr {p q : Resolver}
    (h : ∀ m mark, p.resolveMark m mark = q.resolveMark m mark) (m : Memo LookupKey)
    (ps : List Piece) : p.fillPieces m ps = q.fillPieces m ps := by
  induction ps generalizing m with
  | nil => rfl
  | cons piece ps ih =>
    cases piece with
    | char c => simp only [fillPieces, ih]
    | mark mark => simp only [fillPieces, h, ih]

end Resolver

namespace Session

/-- Resolvers that make the same of every mark make the same of all texts. -/
theorem fillAll_congr {p q : Resolver}
    (h : ∀ m mark, p.resolveMark m mark = q.resolveMark m mark) (hc : p.config = q.config)
    (m : Memo LookupKey) (calls : List Call) : fillAll ⟨p, m⟩ calls = fillAll ⟨q, m⟩ calls := by
  induction calls generalizing m with
  | nil => rfl
  | cons c calls ih =>
    have step : fill ⟨p, m⟩ c = fill ⟨q, m⟩ c := by
      unfold fill Resolver.fill grammarOf
      rw [hc, Resolver.fillPieces_congr h]
    simp only [fillAll, step, ih]

/-- A viewer is shown the same texts after the same queries, and the same is kept, whatever a store
has about others, but for the names and addresses that go with a role. -/
theorem signedIn_alike {viewer : RecordId} {A B : Store} (h : A.SameFor viewer B) {a : Audience}
    (hv : a.viewer = .signedIn viewer) {d : Directory} (hd : d.Builtin) (c : Config)
    (calls : List Call) :
    (start ⟨A, a, c, d⟩).fillAll calls = (start ⟨B, a, c, d⟩).fillAll calls := by
  let r : Resolver := ⟨A, a, c, d⟩
  have same (m : Memo LookupKey) (mark : Mark) :
      r.resolveMark m mark = { r with store := B }.resolveMark m mark :=
    (Resolver.resolveMark_sameFor h hv hd m mark).symm
  exact fillAll_congr same rfl .empty calls

/-- The teacher has another phone number, another group and one grade more; a student in the
course sees the teacher's address and a group of her own. -/
theorem signedIn_alike_student :
    let A : Store :=
      { accounts := [{ id := 3, firstName := "Tom", email := "tom@work", phone1 := "12" },
          { id := 2, email := "ada@home" }]
        roles := [⟨3, 5, "teacher"⟩]
        groups := [⟨3, 5, "Staff", none⟩, ⟨2, 5, "Red", none⟩]
        grades := [⟨2, 5, 4⟩, ⟨3, 5, 5⟩]
        failing := [.finalGrade] }
    let B : Store :=
      { accounts := [{ id := 2, email := "ada@home" },
          { id := 3, lastName := "Tom", email := "tom@work", phone1 := "34" }]
        roles := [⟨3, 5, "teacher"⟩]
        groups := [⟨2, 5, "Red", none⟩, ⟨3, 5, "Board", some "Staff"⟩]
        grades := [⟨2, 5, 4⟩]
        failing := [.finalGrade] }
    let a : Audience := .english (.signedIn 2) (some 5)
    let calls : List Call :=
      [⟨"{USER_EMAIL} {COURSE_USER_GROUP} {TEACHER_EMAIL} {COURSE_USER_GRADE}", none⟩]
    A.SameFor 2 B ∧ a.viewer = .signedIn 2 ∧ Directory.builtin.Builtin ∧
      (start ⟨A, a, .standard, .builtin⟩).fillAll calls =
        (start ⟨B, a, .standard, .builtin⟩).fillAll calls ∧
      ((start ⟨A, a, .standard, .builtin⟩).fillAll calls).map (·.result) =
        ["ada@home Red tom@work Error retrieving value"] := by
  intro A B a calls
  have same : A.SameFor 2 B :=
    { failures := fun _ => rfl
      courses := rfl
      roles := rfl
      instances := rfl
      metadata := rfl
      account := by decide +kernel
      customFields := fun _ => rfl
      groups := by decide +kernel
      enrolments := rfl
      grades := rfl
      others := by
        intro id hid
        by_cases teacher : (3 : RecordId) = id
        · subst teacher
          decide +kernel
        · simp [A, B, Store.account?, teacher, Ne.symm hid] }
  exact ⟨same, rfl, Directory.builtin_isBuiltin,
    signedIn_alike same rfl Directory.builtin_isBuiltin .standard calls, by decide +kernel⟩

end Session

end Placeholders
