import Placeholders.Proofs.Reading

namespace Placeholders

/-- The category and the instance that a context without blanks around it is spelled with. -/
inductive SpellsContext (context : String) : String → Option RecordId → Prop
  | plain (hn : IsRun IsName context) : SpellsContext context context none
  | instanced {name digits : String} {id : RecordId} (hc : context = name ++ "=" ++ digits)
    (hn : IsRun IsName name) (hd : IsRun IsDecimal digits) (hi : decimal digits = id.toNat) :
    SpellsContext context name (some id)

/-- The token that a context and a field spell. Blanks around them do not count. -/
structure MetadataToken.Spelled (raw context field : String) (t : MetadataToken) : Prop where
  raw : t.raw = raw
  context : SpellsContext (Text.trimmed context) t.category t.inst
  field : t.field = Text.trimmed field
  word : IsRun IsWord t.field

/-- Whether a text has a name at its beginning. -/
def OpensWithName (text : String) : Prop := ∃ c ∈ text.toList.head?, IsName c

/-- A category, with an instance of it behind an equals sign if there is one. -/
def contextText (category : String) : Option RecordId → String
  | none => category
  | some id => category ++ "=" ++ toString id

theorem decimal_toString (n : Nat) : decimal (toString n) = n := by
  rw [decimal, Nat.toString_eq_repr, Nat.toList_repr]
  exact Nat.ofDigitChars_toDigits (by decide) (by decide)

theorem isRun_toString (n : Nat) : IsRun IsDecimal (toString n) := by
  rw [Nat.toString_eq_repr, Nat.repr_eq_ofList_toDigits, isRun_ofList]
  refine ⟨Nat.toDigits_ne_nil, fun c hc => ?_⟩
  exact isDigit_iff.mp (Nat.isDigit_of_mem_toDigits (by decide) (by decide) hc)

namespace Cursor
variable {kind : Char → Prop} {p : Char → Bool} {s expected : String} {cs : List Char}
  {behind : Cursor}

/-- What was taken is a run, and it stands before everything that was left. -/
theorem run_ok (hp : ∀ {c}, p c = true ↔ kind c) (h : run ⟨cs⟩ p expected = (.ok s, behind)) :
    IsRun kind s ∧ cs = s.toList ++ behind.rest := by
  unfold run at h
  split at h
  · cases h
  · rename_i found
    obtain ⟨hs, rfl⟩ := Prod.mk.inj h
    obtain rfl := Except.ok.inj hs
    refine ⟨isRun_takeWhile hp found, ?_⟩
    rw [String.toList_ofList, List.takeWhile_append_dropWhile]

theorem run_error {e : TokenError} (h : run ⟨cs⟩ p expected = (.error e, behind)) :
    e = .invalidSyntax expected ∧ cs.takeWhile p = [] := by
  unfold run at h
  split at h
  · rename_i none
    obtain ⟨he, _⟩ := Prod.mk.inj h
    exact ⟨(Except.error.inj he).symm, none⟩
  · cases h

theorem number_ok {id : RecordId} (h : number ⟨cs⟩ = (.ok id, behind)) :
    ∃ digits, IsRun IsDecimal digits ∧ cs = digits.toList ++ behind.rest ∧
      decimal digits = id.toNat := by
  rw [number_eq_run] at h
  rcases read : run ⟨cs⟩ Char.isDigit "expected integer" with ⟨_ | digits, left⟩
  · rw [read] at h
    cases h
  · rw [read] at h
    obtain ⟨hi, rfl⟩ := Prod.mk.inj h
    obtain ⟨hr, spelled⟩ := run_ok isDigit_iff read
    exact ⟨digits, hr, spelled, (recordIdOf_eq_ok_iff.mp hi).symm⟩

theorem number_error {e : TokenError} (h : number ⟨cs⟩ = (.error e, behind)) :
    ∃ detail, e = .invalidSyntax detail := by
  rw [number_eq_run] at h
  obtain ⟨he, _⟩ := Prod.mk.inj h
  rcases read : run ⟨cs⟩ Char.isDigit "expected integer" with ⟨fault | digits, left⟩
  · rw [read] at he
    obtain rfl := Except.error.inj he
    exact ⟨_, (run_error read).1⟩
  · rw [read] at he
    rcases Nat.lt_or_ge (decimal digits) UInt64.size with small | large
    · have fits : recordIdOf digits = .ok (.ofNat (decimal digits)) :=
        recordIdOf_eq_ok_iff.mpr (UInt64.toNat_ofNat_of_lt' small)
      cases fits.symm.trans he
    · exact ⟨_, Except.error.inj (he.symm.trans (recordIdOf_of_tooLarge large))⟩

theorem skipChar_cases (c : Cursor) (x : Char) :
    (∃ rest, c.rest = x :: rest ∧ c.skipChar x = (true, ⟨rest⟩)) ∨
      c.skipChar x = (false, c) := by
  unfold skipChar peek?
  split
  · rename_i h
    obtain ⟨rest, hr⟩ := List.head?_eq_some_iff.mp h
    exact .inl ⟨rest, hr, by rw [hr, List.tail_cons]⟩
  · exact .inr rfl

end Cursor

theorem expectEnd_cases (c : Cursor) (text : String) :
    (c.rest = [] ∧ expectEnd c text = .ok ()) ∨
      ∃ detail, expectEnd c text = .error (.invalidSyntax detail) := by
  unfold expectEnd Cursor.atEnd
  cases c.rest with
  | nil => exact .inl ⟨rfl, rfl⟩
  | cons c cs => exact .inr ⟨_, rfl⟩

section Parts
variable {raw context field name word text : String} {inst : Option RecordId}

theorem not_opensWithName (h : text.toList.takeWhile isNameChar = []) : ¬ OpensWithName text := by
  rintro ⟨c, first, hc⟩
  obtain ⟨cs, ht⟩ := List.head?_eq_some_iff.mp first
  rw [ht, List.takeWhile_cons_of_pos (isNameChar_iff.mpr hc)] at h
  cases h

theorem opensWithName_of_run {rest : List Char} (hn : IsRun IsName name)
    (h : text.toList = name.toList ++ rest) : OpensWithName text := by
  obtain ⟨c, cs, hc⟩ := List.exists_cons_of_ne_nil hn.toList_ne_nil
  refine ⟨c, ?_, hn.2 c (by rw [hc]; exact List.mem_cons_self)⟩
  rw [h, hc]
  rfl

/-- A context without a name at its beginning has no category. Any other is read as it is
spelled, or its syntax is wrong. -/
theorem readContext_cases (context : String) :
    (¬ OpensWithName (Text.trimmed context) ∧
        readContext context = .error .missingCategory) ∨
      (OpensWithName (Text.trimmed context) ∧
        ((∃ name inst, SpellsContext (Text.trimmed context) name inst ∧
            readContext context = .ok (name, inst)) ∨
          ∃ detail, readContext context = .error (.invalidSyntax detail))) := by
  rw [readContext, Cursor.ofString]
  rcases read : Cursor.name ⟨(Text.trimmed context).toList⟩ with ⟨_ | name, behind⟩
  · rw [Cursor.name_eq_run] at read
    obtain ⟨_, none⟩ := Cursor.run_error read
    exact .inl ⟨not_opensWithName none, rfl⟩
  rw [Cursor.name_eq_run] at read
  obtain ⟨hn, spelled⟩ := Cursor.run_ok isNameChar_iff read
  -- Behind a name nothing can be missing: all further faults are faults of syntax.
  refine .inr ⟨opensWithName_of_run hn spelled, ?_⟩
  rcases Cursor.skipChar_cases behind '=' with ⟨rest, hr, skip⟩ | skip
  · rcases number : Cursor.number ⟨rest⟩ with ⟨e | id, left⟩
    · obtain ⟨detail, rfl⟩ := Cursor.number_error number
      refine .inr ⟨detail, ?_⟩
      simp only [skip, number]
      rfl
    · obtain ⟨digits, hd, taken, hi⟩ := Cursor.number_ok number
      rcases expectEnd_cases left context with ⟨done, last⟩ | ⟨detail, last⟩
      · have whole : Text.trimmed context = name ++ "=" ++ digits := by
          rw [done, List.append_nil] at taken
          rw [hr, taken] at spelled
          apply String.toList_inj.mp
          simpa using spelled
        refine .inl ⟨name, some id, .instanced whole hn hd hi, ?_⟩
        simp only [skip, number]
        rw [last]
        rfl
      · refine .inr ⟨detail, ?_⟩
        simp only [skip, number]
        rw [last]
        rfl
  · rcases expectEnd_cases behind context with ⟨done, last⟩ | ⟨detail, last⟩
    · have whole : Text.trimmed context = name := by
        rw [done, List.append_nil] at spelled
        exact String.toList_inj.mp spelled
      subst whole
      refine .inl ⟨_, none, .plain hn, ?_⟩
      simp only [skip]
      rw [last]
      rfl
    · refine .inr ⟨detail, ?_⟩
      simp only [skip]
      rw [last]
      rfl

theorem readField_cases (field : String) :
    (IsRun IsWord (Text.trimmed field) ∧ readField field = .ok (Text.trimmed field)) ∨
      ∃ detail, readField field = .error (.invalidSyntax detail) := by
  rcases read : Cursor.identifier ⟨(Text.trimmed field).toList⟩ with ⟨e | word, behind⟩
  · refine .inr ⟨"identifier expected", ?_⟩
    rw [readField, Cursor.ofString, read]
    rw [Cursor.identifier_eq_run] at read
    rw [(Cursor.run_error read).1]
    rfl
  · have taken := read
    rw [Cursor.identifier_eq_run] at taken
    obtain ⟨hw, spelled⟩ := Cursor.run_ok isWordChar_iff taken
    rcases expectEnd_cases behind field with ⟨done, last⟩ | ⟨detail, last⟩
    · have whole : Text.trimmed field = word := by
        rw [done, List.append_nil] at spelled
        exact String.toList_inj.mp spelled
      exact .inl ⟨whole ▸ hw, readField_run rfl (whole ▸ hw)⟩
    · refine .inr ⟨detail, ?_⟩
      rw [readField, Cursor.ofString, read]
      change (do expectEnd behind field; pure word : Except TokenError String) = _
      rw [last]
      rfl

theorem SpellsContext.read (h : SpellsContext (Text.trimmed context) name inst) :
    readContext context = .ok (name, inst) := by
  generalize hc : Text.trimmed context = text at h
  cases h with
  | plain hn => exact readContext_plain hc hn
  | instanced ht hn hd hi =>
    have number := recordId?_eq_some_iff.mpr hi.symm
    rw [readContext_instanced (hc.trans ht) hn hd, number]

theorem SpellsContext.of_contextText (hn : IsRun IsName name) (inst : Option RecordId) :
    SpellsContext (contextText name inst) name inst := by
  cases inst with
  | none => exact .plain hn
  | some id => exact .instanced rfl hn (isRun_toString id.toNat) (decimal_toString id.toNat)

theorem SpellsContext.trimmed (h : SpellsContext text name inst) : Text.trimmed text = text := by
  cases h with
  | plain hn => exact hn.trimmed IsName.isWord
  | instanced ht hn hd => exact ht ▸ trimmed_instanced hn hd

end Parts

namespace MetadataToken
variable {raw context field : String} {t : MetadataToken}

theorem Spelled.read (h : t.Spelled raw context field) :
    MetadataToken.read raw context field = .ok t := by
  obtain ⟨rfl, hc, hf, hw⟩ := h
  rw [MetadataToken.read, hc.read, readField_run hf.symm hw]
  rfl

/-- The context is looked at first, so a token without a category is told from any other fault. -/
theorem read_cases (raw context field : String) :
    (¬ OpensWithName (Text.trimmed context) ∧
        read raw context field = .error .missingCategory) ∨
      (OpensWithName (Text.trimmed context) ∧
        ((∃ t : MetadataToken, t.Spelled raw context field ∧ read raw context field = .ok t) ∨
          ∃ detail, read raw context field = .error (.invalidSyntax detail))) := by
  rcases readContext_cases context with ⟨no, hc⟩ | ⟨opens, ⟨name, inst, spells, _⟩ | ⟨detail, hc⟩⟩
  · exact .inl ⟨no, by rw [read, hc]; rfl⟩
  · refine .inr ⟨opens, ?_⟩
    rcases readField_cases field with ⟨hw, _⟩ | ⟨detail, hf⟩
    · have spelled : Spelled raw context field ⟨raw, name, inst, Text.trimmed field⟩ :=
        ⟨rfl, spells, rfl, hw⟩
      exact .inl ⟨_, spelled, spelled.read⟩
    · exact .inr ⟨detail, by rw [read, spells.read, hf]; rfl⟩
  · exact .inr ⟨opens, .inr ⟨detail, by rw [read, hc]; rfl⟩⟩

/-- Reading the parts of a token accepts what spells one and nothing else, tells the two faults
apart, and gives back what was written. -/
structure ReadsExactly (raw : String) : Prop where
  accepted : ∀ context field t,
    read raw context field = .ok t ↔ t.Spelled raw context field
  missingCategory : ∀ context field,
    read raw context field = .error .missingCategory ↔ ¬ OpensWithName (Text.trimmed context)
  invalidSyntax : ∀ context field,
    (∃ detail, read raw context field = .error (.invalidSyntax detail)) ↔
      OpensWithName (Text.trimmed context) ∧ ¬ ∃ t : MetadataToken, t.Spelled raw context field
  written : ∀ category inst field, IsRun IsName category → IsRun IsWord field →
    read raw (contextText category inst) field = .ok ⟨raw, category, inst, field⟩

theorem read_exactly (raw : String) : ReadsExactly raw where
  accepted context field t := by
    refine ⟨fun h => ?_, Spelled.read⟩
    rcases read_cases raw context field with ⟨_, he⟩ | ⟨_, ⟨found, spelled, he⟩ | ⟨_, he⟩⟩
    · cases he.symm.trans h
    · cases he.symm.trans h
      exact spelled
    · cases he.symm.trans h
  missingCategory context field := by
    rcases read_cases raw context field with ⟨no, he⟩ | ⟨opens, ⟨_, _, he⟩ | ⟨_, he⟩⟩
    · simp [he, no]
    · simp [he, opens]
    · simp [he, opens]
  invalidSyntax context field := by
    rcases read_cases raw context field with ⟨no, he⟩ | ⟨opens, ⟨t, spelled, he⟩ | ⟨detail, he⟩⟩
    · simp [he, no]
    · have some : ∃ t : MetadataToken, t.Spelled raw context field := ⟨t, spelled⟩
      simp [he, some]
    · refine iff_of_true ⟨detail, he⟩ ⟨opens, ?_⟩
      rintro ⟨t, spelled⟩
      cases he.symm.trans spelled.read
  written category inst field hn hw := by
    have spells := SpellsContext.of_contextText hn inst
    have whole := hw.trimmed id
    exact Spelled.read ⟨rfl, spells.trimmed.symm ▸ spells, whole.symm, hw⟩

example : read "" " mod_a=007 " "\tgrade" = .ok ⟨"", "mod_a", some 7, "grade"⟩ := by decide +kernel

example : read "" "mod=18446744073709551616" "-" = .error (.invalidSyntax "bad integer") := by
  decide +kernel

end MetadataToken

end Placeholders
