import Placeholders.Request
import Placeholders.Proofs.Splitting

namespace Placeholders

/-- The bodies that ask for something. -/
def Request.spellings : Request → List String
  | .account field => ["USER_" ++ field.segment]
  | .customField name => if name = "" then [] else ["USER_FIELD_" ++ name]
  | .course field => ["COURSE_" ++ field.segment]
  | .member field => ["COURSE_USER_" ++ field.segment]
  | .holders role field =>
    [role.segment ++ "_" ++ field.segment, "COURSE_" ++ role.segment ++ "_" ++ field.segment]
  | .unknown => []

/-- A short body and a long one that ask for the same holders of a role. -/
def Request.TwoWays (q : Request) (short long : String) : Prop :=
  ∃ role field, q = .holders role field ∧ short = role.segment ++ "_" ++ field.segment ∧
    long = "COURSE_" ++ role.segment ++ "_" ++ field.segment

/-- What a token with a body asks for, be it written as it may. -/
def SimpleToken.Asks (raw body : String) (q : Request) : Prop :=
  ∃ t, SimpleToken.read raw body = .ok t ∧ Request.ofSegments t.segments = q ∧ q ≠ .unknown

namespace Request
variable {q : Request}

theorem ofHolders_spelled {role field : String} (h : ofHolders role field = q)
    (known : q ≠ .unknown) : ∃ r f, q = .holders r f ∧ role = r.segment ∧ field = f.segment := by
  unfold ofHolders at h
  split at h
  · rename_i r f hr hf
    exact ⟨r, f, h.symm, Role.ofSegment?_eq_some_iff.mp hr,
      HolderField.ofSegment?_eq_some_iff.mp hf⟩
  · exact absurd h.symm known

theorem elim_unknown {α : Type} {found : Option α} {ask : α → Request}
    (h : found.elim unknown ask = q) (known : q ≠ .unknown) :
    ∃ field, found = some field ∧ q = ask field := by
  cases found with
  | none => exact absurd h.symm known
  | some field => exact ⟨field, rfl, h.symm⟩

/-- Segments that ask for something are those of a spelling. -/
theorem spelled_of_ofSegments {segments : List String} (h : ofSegments segments = q)
    (known : q ≠ .unknown) : String.intercalate "_" segments ∈ q.spellings := by
  -- One case for each rule by which segments are read, in the order of the rules.
  unfold ofSegments at h
  split at h
  · rename_i name
    unfold ofCustomName at h
    dsimp only at h
    split at h
    · exact absurd h.symm known
    · rename_i full
      subst h
      have more : name ≠ [] := by
        rintro rfl
        exact full String.intercalate_nil
      obtain ⟨first, rest, rfl⟩ := List.exists_cons_of_ne_nil more
      simp [spellings, full, String.intercalate_cons_cons, ← String.append_assoc]
  · rename_i field
    obtain ⟨f, hf, rfl⟩ := elim_unknown h known
    rw [AccountField.ofSegment?_eq_some_iff.mp hf]
    simp [spellings, String.intercalate_cons_cons]
  · rename_i field
    obtain ⟨f, hf, rfl⟩ := elim_unknown h known
    rw [MemberField.ofSegment?_eq_some_iff.mp hf]
    simp [spellings, String.intercalate_cons_cons, ← String.append_assoc]
  · rename_i field
    obtain ⟨f, hf, rfl⟩ := elim_unknown h known
    rw [CourseField.ofSegment?_eq_some_iff.mp hf]
    simp [spellings, String.intercalate_cons_cons]
  · obtain ⟨r, f, rfl, rfl, rfl⟩ := ofHolders_spelled h known
    simp [spellings, String.intercalate_cons_cons, ← String.append_assoc]
  · obtain ⟨r, f, rfl, rfl, rfl⟩ := ofHolders_spelled h known
    simp [spellings, String.intercalate_cons_cons]
  · exact absurd h.symm known

end Request

/-- The words for fields and roles are single segments. -/
theorem AccountField.segmentsOf_segment (f : AccountField) :
    segmentsOf f.segment = [f.segment] := by
  cases f <;> exact segmentsOf_word (by decide) rfl

theorem CourseField.segmentsOf_segment (f : CourseField) : segmentsOf f.segment = [f.segment] := by
  cases f <;> exact segmentsOf_word (by decide) rfl

theorem MemberField.segmentsOf_segment (f : MemberField) : segmentsOf f.segment = [f.segment] := by
  cases f <;> exact segmentsOf_word (by decide) rfl

theorem HolderField.segmentsOf_segment (f : HolderField) : segmentsOf f.segment = [f.segment] := by
  cases f <;> exact segmentsOf_word (by decide) rfl

theorem Role.segmentsOf_segment (r : Role) : segmentsOf r.segment = [r.segment] := by
  cases r <;> exact segmentsOf_word (by decide) rfl

theorem segmentsOf_user (back : String) :
    segmentsOf ("USER_" ++ back) = "USER" :: segmentsOf back :=
  segmentsOf_word_append (by decide : '_' ∉ "USER".toList) rfl back

theorem segmentsOf_course (back : String) :
    segmentsOf ("COURSE_" ++ back) = "COURSE" :: segmentsOf back :=
  segmentsOf_word_append (by decide : '_' ∉ "COURSE".toList) rfl back

namespace SimpleToken
variable {body : String} {q : Request}

theorem asks_iff {raw : String} : Asks raw body q ↔
    (segmentsOf body).headD "" ≠ "" ∧ Request.ofSegments (segmentsOf body) = q ∧ q ≠ .unknown := by
  constructor
  · intro h
    obtain ⟨t, ht, asked, known⟩ := h
    unfold read at ht
    dsimp only at ht
    split at ht
    · cases ht
    · rename_i full
      cases ht
      exact ⟨full, asked, known⟩
  · intro h
    obtain ⟨full, asked, known⟩ := h
    exact ⟨⟨raw, segmentsOf body⟩, if_neg full, asked, known⟩

theorem spelled_of_asks {raw : String} (h : Asks raw body q)
    (plain : ∀ c ∈ body.toList, Text.isBlank c = false) : body ∈ q.spellings := by
  obtain ⟨_, asked, known⟩ := asks_iff.mp h
  rw [← intercalate_segmentsOf plain]
  exact Request.spelled_of_ofSegments asked known

theorem asks_of_segments {first : String} {rest : List String}
    (h : segmentsOf body = first :: rest) (full : first ≠ "")
    (asked : Request.ofSegments (first :: rest) = q) (known : q ≠ .unknown) (raw : String) :
    Asks raw body q := by
  apply asks_iff.mpr
  rw [h]
  exact ⟨full, asked, known⟩

/-- The name of a custom field is put together again from its pieces. -/
theorem asks_customField {name : String} (full : name ≠ "")
    (plain : ∀ c ∈ name.toList, Text.isBlank c = false) (raw : String) :
    Asks raw ("USER_FIELD_" ++ name) (.customField name) := by
  have parts : segmentsOf ("USER_FIELD_" ++ name) = "USER" :: "FIELD" :: segmentsOf name := by
    have apart : "USER_FIELD_" ++ name = "USER_" ++ ("FIELD" ++ "_" ++ name) := by
      simp [← String.append_assoc]
    rw [apart, segmentsOf_user,
      segmentsOf_word_append (by decide : '_' ∉ "FIELD".toList) rfl name]
  refine asks_of_segments parts (by simp) ?_ (by simp) raw
  change Request.ofCustomName (segmentsOf name) = .customField name
  rw [Request.ofCustomName, intercalate_segmentsOf plain, if_neg full]

theorem asks_holders (role : Role) (field : HolderField) (raw : String) :
    Asks raw (role.segment ++ "_" ++ field.segment) (.holders role field) ∧
      Asks raw ("COURSE_" ++ role.segment ++ "_" ++ field.segment) (.holders role field) := by
  have asked : Request.ofHolders role.segment field.segment = .holders role field := by
    rw [Request.ofHolders, Role.ofSegment?_eq_some_iff.mpr rfl,
      HolderField.ofSegment?_eq_some_iff.mpr rfl]
  have short : segmentsOf (role.segment ++ "_" ++ field.segment) =
      [role.segment, field.segment] := by
    rw [segmentsOf_append, role.segmentsOf_segment, field.segmentsOf_segment]
    rfl
  have long : segmentsOf ("COURSE_" ++ role.segment ++ "_" ++ field.segment) =
      ["COURSE", role.segment, field.segment] := by
    rw [String.append_assoc, String.append_assoc, segmentsOf_course, ← String.append_assoc, short]
  constructor
  · refine asks_of_segments short (by cases role <;> simp [Role.segment]) ?_ (by simp) raw
    cases role <;> exact asked
  · refine asks_of_segments long (by simp) ?_ (by simp) raw
    cases role <;> exact asked

theorem asks_of_spelled (h : body ∈ q.spellings) (plain : ∀ c ∈ body.toList, Text.isBlank c = false)
    (raw : String) : Asks raw body q := by
  cases q with
  | account field =>
    obtain rfl := List.mem_singleton.mp h
    have parts : segmentsOf ("USER_" ++ field.segment) = ["USER", field.segment] := by
      rw [segmentsOf_user, field.segmentsOf_segment]
    exact asks_of_segments parts (by simp) (by cases field <;> rfl) (by simp) raw
  | course field =>
    obtain rfl := List.mem_singleton.mp h
    have parts : segmentsOf ("COURSE_" ++ field.segment) = ["COURSE", field.segment] := by
      rw [segmentsOf_course, field.segmentsOf_segment]
    exact asks_of_segments parts (by simp) (by cases field <;> rfl) (by simp) raw
  | member field =>
    obtain rfl := List.mem_singleton.mp h
    have parts : segmentsOf ("COURSE_USER_" ++ field.segment) =
        ["COURSE", "USER", field.segment] := by
      have apart : "COURSE_USER_" ++ field.segment = "COURSE_" ++ ("USER_" ++ field.segment) := by
        simp [← String.append_assoc]
      rw [apart, segmentsOf_course, segmentsOf_user, field.segmentsOf_segment]
    exact asks_of_segments parts (by simp) (by cases field <;> rfl) (by simp) raw
  | holders role field =>
    obtain ⟨short, long⟩ := asks_holders role field raw
    rcases List.mem_cons.mp h with rfl | h
    · exact short
    · obtain rfl := List.mem_singleton.mp h
      exact long
  | customField name =>
    simp only [Request.spellings] at h
    split at h
    · cases h
    · rename_i full
      obtain rfl := List.mem_singleton.mp h
      refine asks_customField full ?_ raw
      intro c hc
      apply plain
      rw [String.toList_append]
      exact List.mem_append_right _ hc
  | unknown => cases h

theorem spellings_of_ne {other : String} (h : body ∈ q.spellings) (ho : other ∈ q.spellings)
    (hne : other ≠ body) : q.TwoWays body other ∨ q.TwoWays other body := by
  cases q with
  | holders role field =>
    simp only [Request.spellings, List.mem_cons, List.not_mem_nil, or_false] at h ho
    rcases h with rfl | rfl <;> rcases ho with rfl | rfl
    · exact absurd rfl hne
    · exact .inl ⟨role, field, rfl, rfl, rfl⟩
    · exact .inr ⟨role, field, rfl, rfl, rfl⟩
    · exact absurd rfl hne
  | customField name =>
    simp only [Request.spellings] at h ho
    split at h
    · cases h
    · rename_i full
      rw [if_neg full] at ho
      exact absurd ((List.mem_singleton.mp ho).trans (List.mem_singleton.mp h).symm) hne
  | account field =>
    exact absurd ((List.mem_singleton.mp ho).trans (List.mem_singleton.mp h).symm) hne
  | course field =>
    exact absurd ((List.mem_singleton.mp ho).trans (List.mem_singleton.mp h).symm) hne
  | member field =>
    exact absurd ((List.mem_singleton.mp ho).trans (List.mem_singleton.mp h).symm) hne
  | unknown => cases h

/-- A body asks for a request exactly if it spells it, and it spells no other. No two bodies ask
for the same, but for the two ways to ask for the holders of a role. -/
theorem asks_exactly {body : String} (hb : IsRun IsWord body) (raw : String) :
    (∀ q, Asks raw body q ↔ body ∈ q.spellings) ∧
      (∀ p q : Request, body ∈ p.spellings → body ∈ q.spellings → p = q) ∧
      ∀ other written q, IsRun IsWord other → other ≠ body →
        Asks raw body q → Asks written other q → q.TwoWays body other ∨ q.TwoWays other body := by
  have plain {word : String} (hw : IsRun IsWord word) :
      ∀ c ∈ word.toList, Text.isBlank c = false := fun c hc => (hw.2 c hc).not_blank
  refine ⟨?_, ?_, ?_⟩
  · intro q
    constructor
    · intro h
      exact spelled_of_asks h (plain hb)
    · intro h
      exact asks_of_spelled h (plain hb) raw
  · intro p q hp hq
    obtain ⟨_, first, _⟩ := asks_iff.mp (asks_of_spelled hp (plain hb) raw)
    obtain ⟨_, second, _⟩ := asks_iff.mp (asks_of_spelled hq (plain hb) raw)
    exact first.symm.trans second
  · intro other written q ho hne asked same
    exact spellings_of_ne (spelled_of_asks asked (plain hb)) (spelled_of_asks same (plain ho)) hne

/-- Underscores at either end of a name belong to it. -/
theorem asks_exactly_customField :
    IsRun IsWord "USER_FIELD__dept__" ∧
      Asks "" "USER_FIELD__dept__" (.customField "_dept__") := by
  have letters : "USER_FIELD__dept__".toList.all isWordChar = true := rfl
  have run : IsRun IsWord "USER_FIELD__dept__" :=
    ⟨by simp, fun c hc => isWordChar_iff.mp (List.all_eq_true.mp letters c hc)⟩
  have spelled : "USER_FIELD__dept__" ∈ (Request.customField "_dept__").spellings := by
    simp [Request.spellings]
  exact ⟨run, ((asks_exactly run "").1 (.customField "_dept__")).mpr spelled⟩

end SimpleToken

end Placeholders
