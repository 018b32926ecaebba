import Placeholders.Lookup

namespace Placeholders

/-- Where looking a word up finds every row again, no word stands for two rows. -/
theorem eq_of_found {α : Type} (rows : List α) {word : α → String}
    (found : ∀ x, rows.find? (word · = word x) = some x) {x y : α} (h : word x = word y) :
    x = y :=
  Option.some.inj ((found x).symm.trans ((find?_word_eq_some_iff found).mpr h))

theorem AccountField.key_injective {f g : AccountField} (h : f.key = g.key) : f = g :=
  eq_of_found all (by intro x; cases x <;> rfl) h

theorem CourseField.key_injective {f g : CourseField} (h : f.key = g.key) : f = g :=
  eq_of_found all (by intro x; cases x <;> rfl) h

theorem MemberField.key_injective {f g : MemberField} (h : f.key = g.key) : f = g :=
  eq_of_found all (by intro x; cases x <;> rfl) h

theorem HolderField.key_injective {f g : HolderField} (h : f.key = g.key) : f = g :=
  eq_of_found all (by intro x; cases x <;> rfl) h

theorem Role.name_injective {r s : Role} (h : r.name = s.name) : r = s :=
  eq_of_found all (by intro x; cases x <;> rfl) h

/-- The families of two kinds differ in their first letter, but for those of accounts and those
of courses, which are closed words. -/
theorem Subject.key_injective {a b : Subject} (h : a.key = b.key) : a = b := by
  have family := congrArg (fun k : LookupKey => k.family.toList) h
  cases a <;> cases b
  case account.account f v g w =>
    obtain ⟨_, hf, rfl⟩ := LookupKey.mk.inj h
    rw [AccountField.key_injective hf]
  case customField.customField n v o w =>
    obtain ⟨_, rfl, rfl⟩ := LookupKey.mk.inj h
    rfl
  case course.course f c g d =>
    obtain ⟨_, hf, rfl⟩ := LookupKey.mk.inj h
    rw [CourseField.key_injective hf]
  case member.member f v g w =>
    obtain ⟨_, hf, rfl⟩ := LookupKey.mk.inj h
    rw [MemberField.key_injective hf]
  case holders.holders r f c q g d =>
    obtain ⟨hr, hf, rfl⟩ := LookupKey.mk.inj h
    rw [Role.name_injective ((String.append_right_inj _).mp hr), HolderField.key_injective hf]
  case metadata.metadata c f i d g j =>
    obtain ⟨hc, rfl, rfl⟩ := LookupKey.mk.inj h
    rw [(String.append_right_inj _).mp hc]
  all_goals simp [key] at family

theorem Lookup.key_eq_iff {l k : Lookup} : l.key = k.key ↔ l.subject = k.subject :=
  ⟨Subject.key_injective, congrArg Subject.key⟩

end Placeholders
