import Placeholders.Token
import Placeholders.Proofs.Recognition

namespace Placeholders

/-- The number that decimal digits denote, however many there are. -/
def decimal (digits : String) : Nat := Nat.ofDigitChars 10 digits.toList 0

/-- The name, the digits and the field that a namespaced mark is spelled with. -/
inductive Mark.Names : Mark → String → Option String → String → Prop
  | plain {name field : String} (hn : IsRun IsName name) (hf : IsRun IsWord field) :
    Names (.namespaced name field) name none field
  | instanced {name digits field : String} (hn : IsRun IsName name) (hd : IsRun IsDecimal digits)
    (hf : IsRun IsWord field) :
    Names (.namespaced (name ++ "=" ++ digits) field) name (some digits) field

theorem Mark.Names.namespaced {m : Mark} {name field : String} {digits : Option String}
    (h : m.Names name digits field) : ∃ context word, m = .namespaced context word := by
  cases h with
  | plain => exact ⟨_, _, rfl⟩
  | instanced => exact ⟨_, _, rfl⟩

theorem Mark.Names.field {context word name field : String} {digits : Option String}
    (h : (Mark.namespaced context word).Names name digits field) : field = word := by
  cases h <;> rfl

theorem Grammar.Owns.names {m : Mark} (h : Grammar.namespaced.Owns m) :
    ∃ name digits field, m.Names name digits field := by
  obtain ⟨_, hg, _⟩ | ⟨context, field, _, rfl, hc, hf⟩ := h.cases
  · cases hg
  · cases hc with
    | plain hn => exact ⟨_, _, _, .plain hn hf⟩
    | instanced hn hd => exact ⟨_, _, _, .instanced hn hd hf⟩

namespace Text

theorem isBlank_of_graphic {c : Char} (low : 0x20 < c.toNat) (high : c.toNat < 0x7F) :
    isBlank c = false := by
  simp only [isBlank, Bool.or_eq_false_iff, Bool.and_eq_false_iff, decide_eq_false_iff_not,
    beq_eq_false_iff_ne]
  omega

theorem dropWhile_isBlank {cs : List Char} (h : ∀ c ∈ cs.head?, isBlank c = false) :
    cs.dropWhile isBlank = cs := by
  cases cs with
  | nil => rfl
  | cons c cs => simp [h c rfl]

section
variable {s : String}

/-- No white space at either end. -/
def Bare (s : String) : Prop :=
  (∀ c ∈ s.toList.head?, isBlank c = false) ∧ ∀ c ∈ s.toList.getLast?, isBlank c = false

theorem trimmed_of_bare (h : Bare s) : trimmed s = s := by
  obtain ⟨first, last⟩ := h
  rw [← List.head?_reverse] at last
  rw [trimmed, trim, trimStart, trimEnd, dropWhile_isBlank first, dropWhile_isBlank last,
    List.reverse_reverse, String.ofList_toList]

theorem bare_of_no_blank (h : ∀ c ∈ s.toList, isBlank c = false) : Bare s where
  left c hc := h c (List.mem_of_mem_head? hc)
  right c hc := h c (List.mem_of_getLast? hc)

theorem trimmed_of_no_blank (h : ∀ c ∈ s.toList, isBlank c = false) : trimmed s = s :=
  trimmed_of_bare (bare_of_no_blank h)

end

end Text

theorem IsWord.not_blank {c : Char} (h : IsWord c) : Text.isBlank c = false := by
  simp only [IsWord, Char.le_def, UInt32.le_iff_toNat_le] at h
  change (65 ≤ c.toNat ∧ c.toNat ≤ 90) ∨ (97 ≤ c.toNat ∧ c.toNat ≤ 122) ∨
    (48 ≤ c.toNat ∧ c.toNat ≤ 57) ∨ c = '_' at h
  rcases h with h | h | h | rfl
  · exact Text.isBlank_of_graphic (by omega) (by omega)
  · exact Text.isBlank_of_graphic (by omega) (by omega)
  · exact Text.isBlank_of_graphic (by omega) (by omega)
  · decide

theorem IsName.isWord {c : Char} (h : IsName c) : IsWord c := by
  rcases h with h | h | h
  · exact .inl h
  · exact .inr (.inl h)
  · exact .inr (.inr (.inr h))

theorem IsDecimal.isWord {c : Char} (h : IsDecimal c) : IsWord c := .inr (.inr (.inl h))

theorem recordId?_eq_none_iff {digits : String} :
    recordId? digits.toList = none ↔ UInt64.size ≤ decimal digits := by
  unfold recordId? decimal
  dsimp only
  split <;> simp_all

theorem recordIdOf_eq_ok_iff {digits : String} {id : RecordId} :
    recordIdOf digits = .ok id ↔ id.toNat = decimal digits := by
  rw [decimal, ← recordId?_eq_some_iff, recordIdOf]
  cases recordId? digits.toList <;> simp

theorem recordIdOf_of_tooLarge {digits : String} (h : UInt64.size ≤ decimal digits) :
    recordIdOf digits = .error (.invalidSyntax "bad integer") := by
  rw [recordIdOf, recordId?_eq_none_iff.mpr h]

namespace Cursor
variable {kind : Char → Prop} {p : Char → Bool} {s : String} {rest : List Char}

/-- A run is read whole, and nothing that follows it. -/
theorem run_append (hp : ∀ {c}, p c = true ↔ kind c) (hr : IsRun kind s)
    (hs : rest.takeWhile p = []) (expected : String) :
    run ⟨s.toList ++ rest⟩ p expected = (.ok s, ⟨rest⟩) := by
  have all : ∀ c ∈ s.toList, p c = true := fun c hc => hp.mpr (hr.2 c hc)
  have left : rest.dropWhile p = rest := by
    have whole := List.takeWhile_append_dropWhile (p := p) (l := rest)
    rwa [hs, List.nil_append] at whole
  unfold run
  simp only [List.takeWhile_append_of_pos all, List.dropWhile_append_of_pos all, hs, left,
    List.append_nil]
  split
  · rename_i hn
    exact absurd hn hr.toList_ne_nil
  · rw [String.ofList_toList]

theorem name_eq_run (c : Cursor) : name c = run c isNameChar "name expected" := by
  have same : (fun x => x == '_' || x.isAlpha) = isNameChar :=
    funext fun x => Bool.or_comm _ _
  rw [name, same]

theorem identifier_eq_run (c : Cursor) :
    identifier c = run c isWordChar "identifier expected" := by
  have same : (fun x => x == '_' || x.isAlphanum) = isWordChar :=
    funext fun x => Bool.or_comm _ _
  rw [identifier, same]

theorem name_append (hr : IsRun IsName s) (hs : rest.takeWhile isNameChar = []) :
    name ⟨s.toList ++ rest⟩ = (.ok s, ⟨rest⟩) :=
  (name_eq_run _).trans (run_append isNameChar_iff hr hs _)

theorem identifier_run (hr : IsRun IsWord s) : identifier ⟨s.toList⟩ = (.ok s, ⟨[]⟩) := by
  have read := run_append isWordChar_iff hr List.takeWhile_nil "identifier expected"
  rw [List.append_nil] at read
  exact (identifier_eq_run _).trans read

theorem number_eq_run (c : Cursor) :
    number c = ((run c Char.isDigit "expected integer").1.bind recordIdOf,
      (run c Char.isDigit "expected integer").2) := by
  unfold number run recordIdOf
  cases h : c.rest.takeWhile Char.isDigit with
  | nil => rfl
  | cons x xs =>
    dsimp only [Except.bind]
    rw [String.toList_ofList]
    cases recordId? (x :: xs) <;> rfl

theorem number_append (hr : IsRun IsDecimal s) (hs : rest.takeWhile Char.isDigit = []) :
    number ⟨s.toList ++ rest⟩ = (recordIdOf s, ⟨rest⟩) := by
  rw [number_eq_run, run_append isDigit_iff hr hs]
  rfl

theorem number_run (hr : IsRun IsDecimal s) :
    number ⟨s.toList⟩ = (match recordId? s.toList with
      | some id => .ok id
      | none => .error (.invalidSyntax "bad integer"), ⟨[]⟩) := by
  have read := number_append hr List.takeWhile_nil
  rw [List.append_nil] at read
  exact read

end Cursor

theorem readField_run {field word : String} (hw : Text.trimmed field = word)
    (hf : IsRun IsWord word) : readField field = .ok word := by
  rw [readField, hw, Cursor.ofString, Cursor.identifier_run hf]
  rfl

theorem readContext_plain {context name : String} (hw : Text.trimmed context = name)
    (hn : IsRun IsName name) : readContext context = .ok (name, none) := by
  have read : Cursor.name ⟨name.toList ++ []⟩ = (.ok name, ⟨[]⟩) := Cursor.name_append hn rfl
  rw [List.append_nil] at read
  rw [readContext, hw, Cursor.ofString, read]
  rfl

theorem readContext_instanced {context name digits : String}
    (hw : Text.trimmed context = name ++ "=" ++ digits) (hn : IsRun IsName name)
    (hd : IsRun IsDecimal digits) :
    readContext context = match recordId? digits.toList with
      | some id => .ok (name, some id)
      | none => .error (.invalidSyntax "bad integer") := by
  have spelled : (name ++ "=" ++ digits).toList = name.toList ++ '=' :: digits.toList := by simp
  have read : Cursor.name ⟨name.toList ++ '=' :: digits.toList⟩ =
      (.ok name, ⟨'=' :: digits.toList⟩) := Cursor.name_append hn rfl
  have number := Cursor.number_run hd
  rw [readContext, hw, Cursor.ofString, spelled, read]
  simp only [Cursor.skipChar, Cursor.peek?, List.head?_cons, ↓reduceIte, List.tail_cons, number]
  cases recordId? digits.toList <;> rfl

/-- Digits denote a record, or a number that is too large for any. -/
theorem exists_inst_or_tooLarge (digits : Option String) :
    (∃ inst : Option RecordId, inst.map UInt64.toNat = digits.map decimal) ∨
      ∃ d, digits = some d ∧ UInt64.size ≤ decimal d := by
  cases digits with
  | none => exact .inl ⟨none, rfl⟩
  | some d =>
    rcases Nat.lt_or_ge (decimal d) UInt64.size with small | large
    · refine .inl ⟨some (.ofNat (decimal d)), ?_⟩
      rw [Option.map_some, UInt64.toNat_ofNat_of_lt' small, Option.map_some]
    · exact .inr ⟨d, rfl, large⟩

theorem IsRun.trimmed {kind : Char → Prop} (word : ∀ {c}, kind c → IsWord c) {s : String}
    (h : IsRun kind s) : Text.trimmed s = s :=
  Text.trimmed_of_no_blank fun c hc => (word (h.2 c hc)).not_blank

theorem trimmed_instanced {name digits : String} (hn : IsRun IsName name)
    (hd : IsRun IsDecimal digits) :
    Text.trimmed (name ++ "=" ++ digits) = name ++ "=" ++ digits := by
  apply Text.trimmed_of_no_blank
  intro c hc
  simp only [String.toList_append, List.mem_append] at hc
  rcases hc with (hc | hc) | hc
  · exact (hn.2 c hc).isWord.not_blank
  · obtain rfl : c = '=' := by simpa using hc
    decide
  · exact (hd.2 c hc).isWord.not_blank

theorem Mark.Names.trimmed {context field name word : String} {digits : Option String}
    (h : (Mark.namespaced context field).Names name digits word) :
    Text.trimmed context = context ∧ Text.trimmed field = field := by
  cases h with
  | plain hn hf => exact ⟨hn.trimmed IsName.isWord, hf.trimmed id⟩
  | instanced hn hd hf => exact ⟨trimmed_instanced hn hd, hf.trimmed id⟩

namespace MetadataToken
variable {context field name word : String} {digits : Option String}

/-- What is read is what was spelled, with the instance that the digits denote. -/
theorem read_of_names (h : (Mark.namespaced context field).Names name digits word)
    {inst : Option RecordId} (hi : inst.map UInt64.toNat = digits.map decimal) (raw : String) :
    read raw context field = .ok ⟨raw, name, inst, word⟩ := by
  obtain ⟨hc, hf⟩ := h.trimmed
  cases h with
  | plain hn hw =>
    obtain rfl : inst = none := by simpa using hi
    rw [read, readContext_plain hc hn, readField_run hf hw]
    rfl
  | instanced hn hd hw =>
    obtain ⟨id, rfl, he⟩ := Option.map_eq_some_iff.mp hi
    have number := recordId?_eq_some_iff.mpr he
    rw [read, readContext_instanced hc hn hd, readField_run hf hw, number]
    rfl

/-- Digits that denote no record number are all that can be wrong with a mark that was found. -/
theorem read_of_tooLarge {large : String}
    (h : (Mark.namespaced context field).Names name (some large) word)
    (hl : UInt64.size ≤ decimal large) (raw : String) :
    read raw context field = .error (.invalidSyntax "bad integer") := by
  have whole := h.trimmed.1
  cases h with
  | instanced hn hd hf =>
    rw [read, readContext_instanced whole hn hd, recordId?_eq_none_iff.mpr hl]
    rfl

end MetadataToken

end Placeholders
