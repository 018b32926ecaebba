import Mathlib.Data.List.Induction
import Placeholders.Proofs.Caret
import Placeholders.Proofs.Reading

namespace Placeholders

inductive Operation where
  | identifier
  | name
  | number
  | takeUntil (stop : String)
  | skipChar (x : Char)
  | skipText (text : String)
  | peek
  | startsWith (text : String)
  | atEnd
  deriving DecidableEq, Repr

abbrev Operation.Answer : Operation → Type
  | .identifier => Except TokenError String
  | .name => Except TokenError String
  | .number => Except TokenError RecordId
  | .takeUntil _ => String
  | .skipChar _ => Bool
  | .skipText _ => Bool
  | .peek => Option Char
  | .startsWith _ => Bool
  | .atEnd => Bool

def Cursor.perform (c : Cursor) : (op : Operation) → op.Answer × Cursor
  | .identifier => c.identifier
  | .name => c.name
  | .number => c.number
  | .takeUntil stop => c.takeUntil stop
  | .skipChar x => c.skipChar x
  | .skipText text => c.skipText text
  | .peek => (c.peek?, c)
  | .startsWith text => (c.startsWith text, c)
  | .atEnd => (c.atEnd, c)

def Cursor.after (c : Cursor) (ops : List Operation) : Cursor :=
  ops.foldl (fun c op => (c.perform op).2) c

def Caret.perform? (k : Caret) : (op : Operation) → Option (op.Answer × Caret)
  | .identifier => k.identifier?
  | .name => k.name?
  | .number => k.number?
  | .takeUntil stop => k.takeUntil? stop
  | .skipChar x => k.skipChar? x
  | .skipText text => k.skipText? text
  | .peek => k.peek?.map (·, k)
  | .startsWith text => (k.startsWith? text).map (·, k)
  | .atEnd => some (k.atEnd, k)

def Caret.after? (k : Caret) (ops : List Operation) : Option Caret :=
  ops.foldlM (fun k op => (k.perform? op).map Prod.snd) k

/-- No character of the kind comes next. -/
def Ends (kind : Char → Prop) (rest : List Char) : Prop := ∀ c ∈ rest.head?, ¬ kind c

/-- The delimiter stands behind `found`, and nowhere before. -/
structure FirstBehind (stop found rest : List Char) : Prop where
  here : stop <+: rest
  first : ∀ before after, found ++ rest = before ++ (stop ++ after) →
    found.length ≤ before.length

/-- What an operation answers where `passed` and then `rest` stands before it, if it passes over the
first and not over the second. -/
inductive Operation.Tells : (op : Operation) → op.Answer → (passed : String) →
    (rest : List Char) → Prop
  | identifier {found : String} {rest : List Char} (hr : IsRun IsWord found)
    (he : Ends IsWord rest) : Tells .identifier (.ok found) found rest
  | noIdentifier {rest : List Char} (he : Ends IsWord rest) :
    Tells .identifier (.error (.invalidSyntax "identifier expected")) "" rest
  | name {found : String} {rest : List Char} (hr : IsRun IsName found) (he : Ends IsName rest) :
    Tells .name (.ok found) found rest
  | noName {rest : List Char} (he : Ends IsName rest) :
    Tells .name (.error (.invalidSyntax "name expected")) "" rest
  | number {digits : String} {id : RecordId} {rest : List Char} (hr : IsRun IsDecimal digits)
    (he : Ends IsDecimal rest) (hi : id.toNat = decimal digits) : Tells .number (.ok id) digits rest
  | tooLarge {digits : String} {rest : List Char} (hr : IsRun IsDecimal digits)
    (he : Ends IsDecimal rest) (hl : UInt64.size ≤ decimal digits) :
    Tells .number (.error (.invalidSyntax "bad integer")) digits rest
  | noNumber {rest : List Char} (he : Ends IsDecimal rest) :
    Tells .number (.error (.invalidSyntax "expected integer")) "" rest
  | upTo {stop found : String} {rest : List Char}
    (h : FirstBehind stop.toList found.toList rest) : Tells (.takeUntil stop) found found rest
  | toEnd {stop found : String} (h : ¬ stop.toList <:+: found.toList) :
    Tells (.takeUntil stop) found found []
  | char {x : Char} {rest : List Char} : Tells (.skipChar x) true (String.singleton x) rest
  | otherChar {x : Char} {rest : List Char} (h : rest.head? ≠ some x) :
    Tells (.skipChar x) false "" rest
  | text {text : String} {rest : List Char} : Tells (.skipText text) true text rest
  | otherText {text : String} {rest : List Char} (h : ¬ text.toList <+: rest) :
    Tells (.skipText text) false "" rest
  | peek {rest : List Char} : Tells .peek rest.head? "" rest
  | startsWith {text : String} {holds : Bool} {rest : List Char}
    (h : holds = true ↔ text.toList <+: rest) : Tells (.startsWith text) holds "" rest
  | atEnd {holds : Bool} {rest : List Char} (h : holds = true ↔ rest = []) :
    Tells .atEnd holds "" rest

section Runs
variable {kind : Char → Prop} {p : Char → Bool} {cs rest : List Char} {found : String}

theorem ends_iff (hp : ∀ {c}, p c = true ↔ kind c) : Ends kind rest ↔ rest.takeWhile p = [] := by
  cases rest with
  | nil => simp [Ends]
  | cons c cs => simp [Ends, List.takeWhile_cons, hp]

theorem ends_or_run (hp : ∀ {c}, p c = true ↔ kind c) (cs : List Char) :
    Ends kind cs ∨ ∃ found rest, cs = found.toList ++ rest ∧ IsRun kind found ∧ Ends kind rest := by
  by_cases none : cs.takeWhile p = []
  · exact .inl ((ends_iff hp).mpr none)
  · refine .inr ⟨String.ofList (cs.takeWhile p), cs.dropWhile p, ?_, isRun_takeWhile hp none, ?_⟩
    · rw [String.toList_ofList, List.takeWhile_append_dropWhile]
    · intro c hc
      have stopped := List.head?_dropWhile_not p cs
      rw [hc] at stopped
      rw [← hp, stopped]
      exact Bool.false_ne_true

theorem Cursor.run_ends (hp : ∀ {c}, p c = true ↔ kind c) (he : Ends kind rest)
    (expected : String) : run ⟨rest⟩ p expected = (.error (.invalidSyntax expected), ⟨rest⟩) := by
  rw [run, (ends_iff hp).mp he]

namespace Caret

/-- A caret moves over a whole run, one character after the other, and not any further. -/
theorem skipRun?_between (hp : ∀ {c}, p c = true ↔ kind c) {run : List Char}
    (all : ∀ c ∈ run, kind c) (he : Ends kind rest) (before : String) :
    (between before (run ++ rest)).skipRun? p =
      some (between (before ++ String.ofList run) rest) := by
  induction run generalizing before with
  | nil =>
    rw [List.nil_append, String.ofList_nil, String.append_empty]
    cases rest with
    | nil => exact skipRun?_of_last (peek?_between before []) p
    | cons x xs =>
      have other : p x = false := by
        rw [Bool.eq_false_iff, ne_eq, hp]
        exact he x rfl
      rw [skipRun?_of_next (peek?_between before (x :: xs)), other]
      rfl
  | cons x run ih =>
    have taken : p x = true := hp.mpr (all x List.mem_cons_self)
    rw [List.cons_append, skipRun?_of_next (peek?_between before (x :: (run ++ rest))),
      if_pos taken, moved_between_cons, ih fun c hc => all c (List.mem_cons_of_mem x hc),
      String.ofList_cons, String.append_assoc]

theorem run?_between (hp : ∀ {c}, p c = true ↔ kind c) (hr : IsRun kind found)
    (he : Ends kind rest) (before expected : String) :
    (between before (found.toList ++ rest)).run? p expected =
      some (.ok found, between (before ++ found) rest) := by
  have skipped := skipRun?_between hp hr.2 he before
  rw [String.ofList_toList] at skipped
  simp [run?, skipped, hr.1]

theorem run?_ends (hp : ∀ {c}, p c = true ↔ kind c) (he : Ends kind rest)
    (before expected : String) : (between before rest).run? p expected =
      some (.error (.invalidSyntax expected), between before rest) := by
  have stays := skipRun?_between hp (List.forall_mem_nil kind) he before
  rw [List.nil_append, String.ofList_nil, String.append_empty] at stays
  simp [run?, stays]

end Caret

end Runs

section Delimiters
variable {stop cs found rest : List Char}

theorem FirstBehind.not_prefix {c : Char} (h : FirstBehind stop (c :: found) rest) :
    ¬ stop <+: c :: (found ++ rest) := by
  rintro ⟨after, he⟩
  have early := h.first [] after he.symm
  simp at early

theorem FirstBehind.tail {c : Char} (h : FirstBehind stop (c :: found) rest) :
    FirstBehind stop found rest := by
  refine ⟨h.here, ?_⟩
  intro before after he
  have later := h.first (c :: before) after (congrArg (c :: ·) he)
  simpa using later

theorem FirstBehind.cons {c : Char} (h : FirstBehind stop found rest)
    (no : ¬ stop <+: c :: (found ++ rest)) : FirstBehind stop (c :: found) rest := by
  refine ⟨h.here, ?_⟩
  intro before after he
  cases before with
  | nil => exact absurd ⟨after, he.symm⟩ no
  | cons b before =>
    have later := h.first before after (List.cons.inj he).2
    simpa using later

theorem splitAtFirst_of_firstBehind (h : FirstBehind stop found rest) :
    splitAtFirst stop (found ++ rest) = (found, rest) := by
  induction found with
  | nil =>
    cases rest with
    | nil => rfl
    | cons c cs =>
      have here : stop.isPrefixOf (c :: cs) = true := List.isPrefixOf_iff_prefix.mpr h.here
      simp [splitAtFirst, here]
  | cons c found ih =>
    have no : ¬ stop.isPrefixOf (c :: (found ++ rest)) = true := by
      rw [List.isPrefixOf_iff_prefix]
      exact h.not_prefix
    simp [splitAtFirst, no, ih h.tail]

theorem splitAtFirst_of_not_infix (h : ¬ stop <:+: cs) : splitAtFirst stop cs = (cs, []) := by
  induction cs with
  | nil => rfl
  | cons c cs ih =>
    rw [List.infix_cons_iff, not_or] at h
    have no : ¬ stop.isPrefixOf (c :: cs) = true := by
      rw [List.isPrefixOf_iff_prefix]
      exact h.1
    simp [splitAtFirst, no, ih h.2]

theorem firstBehind_or_not_infix (stop cs : List Char) :
    (∃ found rest, cs = found ++ rest ∧ FirstBehind stop found rest) ∨ ¬ stop <:+: cs := by
  induction cs with
  | nil =>
    by_cases none : stop = []
    · exact .inl ⟨[], [], rfl, by simp [none], by simp⟩
    · exact .inr (by simpa using none)
  | cons c cs ih =>
    by_cases here : stop <+: c :: cs
    · exact .inl ⟨[], c :: cs, rfl, here, by simp⟩
    · rcases ih with ⟨found, rest, rfl, first⟩ | none
      · exact .inl ⟨c :: found, rest, rfl, first.cons here⟩
      · refine .inr ?_
        rw [List.infix_cons_iff, not_or]
        exact ⟨here, none⟩

/-- The byte at which a delimiter is found is the one behind what a cursor would take. -/
theorem getD_firstByte? (stop cs : List Char) :
    (firstByte? stop cs).getD (String.ofList cs).utf8ByteSize =
      (String.ofList (splitAtFirst stop cs).1).utf8ByteSize := by
  induction cs with
  | nil =>
    unfold firstByte? splitAtFirst
    split <;> rfl
  | cons c cs ih =>
    unfold firstByte? splitAtFirst
    split
    · rfl
    · dsimp only
      rw [String.ofList_cons, String.ofList_cons, String.utf8ByteSize_append,
        String.utf8ByteSize_append, ← ih]
      cases firstByte? stop cs <;> simp

end Delimiters

theorem Caret.takeUntil?_between (before stop : String) (cs : List Char) :
    (between before cs).takeUntil? stop =
      some ((Cursor.takeUntil ⟨cs⟩ stop).1, between (before ++ (Cursor.takeUntil ⟨cs⟩ stop).1)
        (Cursor.takeUntil ⟨cs⟩ stop).2.rest) := by
  rcases taken : splitAtFirst stop.toList cs with ⟨found, rest⟩
  obtain rfl : found ++ rest = cs := by
    simpa [taken] using splitAtFirst_append stop.toList cs
  have left : (between before (found ++ rest)).text.utf8ByteSize - before.utf8ByteSize =
      (String.ofList (found ++ rest)).utf8ByteSize := by
    simp [between]
  have width := getD_firstByte? stop.toList (found ++ rest)
  rw [taken] at width
  have moved := moved_between before (String.ofList found) rest
  rw [String.toList_ofList] at moved
  simp only [takeUntil?, Cursor.takeUntil, rest?_between, offset_between, left, width, moved, taken,
    Option.bind_eq_bind, Option.bind_some, since?_between, Option.pure_def]

namespace Operation
variable {op : Operation} {answer : op.Answer} {passed : String} {rest : List Char}

theorem identifierChar_iff {c : Char} : (c == '_' || c.isAlphanum) = true ↔ IsWord c := by
  rw [Bool.or_comm]
  exact isWordChar_iff

theorem nameChar_iff {c : Char} : (c == '_' || c.isAlpha) = true ↔ IsName c := by
  rw [Bool.or_comm]
  exact isNameChar_iff

theorem exists_tells (op : Operation) (cs : List Char) :
    ∃ (answer : op.Answer) (passed : String) (rest : List Char),
      cs = passed.toList ++ rest ∧ op.Tells answer passed rest := by
  cases op with
  | identifier =>
    rcases ends_or_run isWordChar_iff cs with he | ⟨found, rest, hc, hr, he⟩
    · exact ⟨_, "", cs, rfl, .noIdentifier he⟩
    · exact ⟨_, found, rest, hc, .identifier hr he⟩
  | name =>
    rcases ends_or_run isNameChar_iff cs with he | ⟨found, rest, hc, hr, he⟩
    · exact ⟨_, "", cs, rfl, .noName he⟩
    · exact ⟨_, found, rest, hc, .name hr he⟩
  | number =>
    rcases ends_or_run isDigit_iff cs with he | ⟨digits, rest, hc, hr, he⟩
    · exact ⟨_, "", cs, rfl, .noNumber he⟩
    · cases hi : recordId? digits.toList with
      | some id => exact ⟨_, digits, rest, hc, .number hr he (recordId?_eq_some_iff.mp hi)⟩
      | none => exact ⟨_, digits, rest, hc, .tooLarge hr he (recordId?_eq_none_iff.mp hi)⟩
  | takeUntil stop =>
    rcases firstBehind_or_not_infix stop.toList cs with ⟨found, rest, hc, first⟩ | none
    · refine ⟨String.ofList found, String.ofList found, rest, ?_, .upTo ?_⟩
      · rw [String.toList_ofList, hc]
      · rwa [String.toList_ofList]
    · refine ⟨String.ofList cs, String.ofList cs, [], ?_, .toEnd ?_⟩
      · rw [String.toList_ofList, List.append_nil]
      · rwa [String.toList_ofList]
  | skipChar x =>
    by_cases next : cs.head? = some x
    · obtain ⟨rest, hc⟩ := List.head?_eq_some_iff.mp next
      exact ⟨true, String.singleton x, rest, by simp [hc], .char⟩
    · exact ⟨false, "", cs, rfl, .otherChar next⟩
  | skipText text =>
    by_cases next : text.toList <+: cs
    · obtain ⟨rest, hc⟩ := next
      exact ⟨true, text, rest, hc.symm, .text⟩
    · exact ⟨false, "", cs, rfl, .otherText next⟩
  | peek => exact ⟨cs.head?, "", cs, rfl, .peek⟩
  | startsWith text =>
    exact ⟨text.toList.isPrefixOf cs, "", cs, rfl, .startsWith List.isPrefixOf_iff_prefix⟩
  | atEnd => exact ⟨cs.isEmpty, "", cs, rfl, .atEnd List.isEmpty_iff⟩

/-- A cursor answers as it is told, and stands behind what is passed over. -/
theorem Tells.perform (h : op.Tells answer passed rest) :
    Cursor.perform ⟨passed.toList ++ rest⟩ op = (answer, ⟨rest⟩) := by
  cases h with
  | identifier hr he =>
    exact Cursor.run_append identifierChar_iff hr ((ends_iff identifierChar_iff).mp he) _
  | noIdentifier he => exact Cursor.run_ends identifierChar_iff he _
  | name hr he => exact Cursor.run_append nameChar_iff hr ((ends_iff nameChar_iff).mp he) _
  | noName he => exact Cursor.run_ends nameChar_iff he _
  | number hr he hi =>
    have read := Cursor.number_append hr ((ends_iff isDigit_iff).mp he)
    rw [recordIdOf_eq_ok_iff.mpr hi] at read
    exact read
  | tooLarge hr he hl =>
    have read := Cursor.number_append hr ((ends_iff isDigit_iff).mp he)
    rw [recordIdOf_of_tooLarge hl] at read
    exact read
  | noNumber he =>
    have read := Cursor.run_ends isDigit_iff he "expected integer"
    rw [Cursor.perform, String.toList_empty, List.nil_append, Cursor.number_eq_run, read]
    rfl
  | upTo first => simp [Cursor.perform, Cursor.takeUntil, splitAtFirst_of_firstBehind first]
  | toEnd none => simp [Cursor.perform, Cursor.takeUntil, splitAtFirst_of_not_infix none]
  | char => simp [Cursor.perform, Cursor.skipChar, Cursor.peek?]
  | otherChar other => simp [Cursor.perform, Cursor.skipChar, Cursor.peek?, other]
  | text =>
    have behind : (passed.toList ++ rest).drop passed.length = rest := by
      rw [← String.length_toList, List.drop_left]
    simp [Cursor.perform, Cursor.skipText, Cursor.startsWith, behind]
  | otherText other => simp [Cursor.perform, Cursor.skipText, Cursor.startsWith, other]
  | peek => rfl
  | startsWith holds =>
    rw [← List.isPrefixOf_iff_prefix, ← Bool.eq_iff_iff] at holds
    simp [Cursor.perform, Cursor.startsWith, holds]
  | atEnd holds =>
    rw [← List.isEmpty_iff, ← Bool.eq_iff_iff] at holds
    simp [Cursor.perform, Cursor.atEnd, holds]

/-- A caret gives the same answer, and moves by the bytes of what is passed over. -/
theorem Tells.perform? (h : op.Tells answer passed rest) (before : String) :
    (Caret.between before (passed.toList ++ rest)).perform? op =
      some (answer, Caret.between (before ++ passed) rest) := by
  cases h with
  | identifier hr he => exact Caret.run?_between identifierChar_iff hr he before _
  | noIdentifier he =>
    rw [String.append_empty]
    exact Caret.run?_ends identifierChar_iff he before _
  | name hr he => exact Caret.run?_between nameChar_iff hr he before _
  | noName he =>
    rw [String.append_empty]
    exact Caret.run?_ends nameChar_iff he before _
  | number hr he hi =>
    have read := Caret.run?_between isDigit_iff hr he before "expected integer"
    simp [Caret.perform?, Caret.number?, read, Except.bind, recordIdOf_eq_ok_iff.mpr hi]
  | tooLarge hr he hl =>
    have read := Caret.run?_between isDigit_iff hr he before "expected integer"
    simp [Caret.perform?, Caret.number?, read, Except.bind, recordIdOf_of_tooLarge hl]
  | noNumber he =>
    have read := Caret.run?_ends isDigit_iff he before "expected integer"
    simp [Caret.perform?, Caret.number?, read, Except.bind]
  | upTo first =>
    simp [Caret.perform?, Caret.takeUntil?_between, Cursor.takeUntil,
      splitAtFirst_of_firstBehind first]
  | toEnd none =>
    simp [Caret.perform?, Caret.takeUntil?_between, Cursor.takeUntil,
      splitAtFirst_of_not_infix none]
  | char => simp [Caret.perform?, Caret.skipChar?]
  | otherChar other => simp [Caret.perform?, Caret.skipChar?, other]
  | text => simp [Caret.perform?, Caret.skipText?]
  | otherText other => simp [Caret.perform?, Caret.skipText?, other]
  | peek => simp [Caret.perform?]
  | startsWith holds =>
    rw [← List.isPrefixOf_iff_prefix, ← Bool.eq_iff_iff] at holds
    simp [Caret.perform?, holds]
  | atEnd holds =>
    rw [← Caret.atEnd_between before, ← Bool.eq_iff_iff] at holds
    simp [Caret.perform?, holds]

/-- What an operation passes over and what it answers is settled by what stands before it. -/
theorem Tells.unique (h : op.Tells answer passed rest) {other : op.Answer} {skipped : String}
    {left : List Char} (ho : op.Tells other skipped left)
    (same : skipped.toList ++ left = passed.toList ++ rest) :
    other = answer ∧ skipped = passed := by
  have first := h.perform
  rw [← same, ho.perform] at first
  obtain ⟨rfl, he⟩ := Prod.mk.inj first
  obtain rfl := Cursor.mk.inj he
  exact ⟨rfl, String.toList_inj.mp (List.append_cancel_right same)⟩

def succeeds : (op : Operation) → op.Answer → Bool
  | .identifier, answer => answer.isOk
  | .name, answer => answer.isOk
  | .number, answer => answer.isOk
  | .takeUntil _, _ => true
  | .skipChar _, answer => answer
  | .skipText _, answer => answer
  | .peek, _ => true
  | .startsWith _, answer => answer
  | .atEnd, answer => answer

theorem Tells.of_failed (h : op.Tells answer passed rest) (failed : op.succeeds answer = false) :
    passed = "" ∨ op = .number ∧ IsRun IsDecimal passed ∧ Ends IsDecimal rest ∧
      UInt64.size ≤ decimal passed := by
  cases h with
  | tooLarge hr he hl => exact .inr ⟨rfl, hr, he, hl⟩
  | noIdentifier => exact .inl rfl
  | noName => exact .inl rfl
  | noNumber => exact .inl rfl
  | otherChar => exact .inl rfl
  | otherText => exact .inl rfl
  | startsWith => exact .inl rfl
  | atEnd => exact .inl rfl
  | peek => exact .inl rfl
  | identifier => cases failed
  | name => cases failed
  | number => cases failed
  | upTo => cases failed
  | toEnd => cases failed
  | char => cases failed
  | text => cases failed

end Operation

theorem Cursor.atEnd_iff (c : Cursor) : c.atEnd = true ↔ c.peek? = none := by
  rw [atEnd, peek?, List.isEmpty_iff, List.head?_eq_none_iff]

/-- After operations on a text a cursor and a caret stand between two parts of it. -/
structure Stands (text : String) (done : List Operation) (before : String) (cs : List Char) :
    Prop where
  whole : text.toList = before.toList ++ cs
  cursor : (Cursor.ofString text).after done = ⟨cs⟩
  caret : (Caret.start text).after? done = some ⟨text, before.utf8ByteSize⟩

namespace Stands
variable {text before passed : String} {done : List Operation} {op : Operation}
  {answer : op.Answer} {cs rest : List Char}

theorem between_eq (h : Stands text done before cs) :
    Caret.between before cs = ⟨text, before.utf8ByteSize⟩ :=
  Caret.between_eq h.whole

theorem whole_append (h : Stands text done before (passed.toList ++ rest)) :
    text.toList = (before ++ passed).toList ++ rest := by
  rw [h.whole, String.toList_append, List.append_assoc]

theorem slice (h : Stands text done before (passed.toList ++ rest)) :
    slice? text before.utf8ByteSize (before ++ passed).utf8ByteSize = some passed := by
  have sliced := Caret.since?_between before passed rest
  rw [Caret.between_eq h.whole_append] at sliced
  exact sliced

theorem perform (h : Stands text done before (passed.toList ++ rest))
    (tells : op.Tells answer passed rest) :
    ((Cursor.ofString text).after done).perform op = (answer, ⟨rest⟩) := by
  rw [h.cursor, tells.perform]

theorem perform? (h : Stands text done before (passed.toList ++ rest))
    (tells : op.Tells answer passed rest) :
    Caret.perform? ⟨text, before.utf8ByteSize⟩ op =
      some (answer, ⟨text, (before ++ passed).utf8ByteSize⟩) := by
  have performed := tells.perform? before
  rw [h.between_eq, Caret.between_eq h.whole_append] at performed
  exact performed

/-- They go on together, behind what the next operation passes over. -/
theorem step (h : Stands text done before (passed.toList ++ rest))
    (tells : op.Tells answer passed rest) : Stands text (done ++ [op]) (before ++ passed) rest where
  whole := h.whole_append
  cursor := by
    rw [Cursor.after, List.foldl_append]
    exact congrArg Prod.snd (h.perform tells)
  caret := by
    have came := h.caret
    rw [Caret.after?] at came ⊢
    rw [List.foldlM_append, came]
    simp [h.perform? tells]

end Stands

theorem exists_stands (text : String) (done : List Operation) :
    ∃ before cs, Stands text done before cs := by
  induction done using List.reverseRecOn with
  | nil => exact ⟨"", text.toList, rfl, rfl, rfl⟩
  | append_singleton done op ih =>
    obtain ⟨before, cs, stands⟩ := ih
    obtain ⟨answer, passed, rest, rfl, tells⟩ := op.exists_tells cs
    exact ⟨before ++ passed, rest, stands.step tells⟩

/-- One more operation on a text after others: what it answers, what it passes over, and the bytes
between which that stands. -/
structure Passage (text : String) (done : List Operation) (op : Operation) (answer : op.Answer)
    (passed : String) (start stop : Nat) : Prop where
  /-- None of the operations before has come to nothing. -/
  came : (Caret.start text).after? done = some ⟨text, start⟩
  went : Caret.perform? ⟨text, start⟩ op = some (answer, ⟨text, stop⟩)
  /-- Both bytes lie between characters of the text, the second not before the first. -/
  placed : String.Pos.Raw.IsValid text ⟨start⟩ ∧ String.Pos.Raw.IsValid text ⟨stop⟩ ∧ start ≤ stop
  between : slice? text start stop = some passed
  /-- A cursor, which does not count, is at the same place with the same answer. -/
  followed : Caret.rest? ⟨text, start⟩ = some ((Cursor.ofString text).after done).rest ∧
    ((Cursor.ofString text).after done).perform op =
      (answer, (Cursor.ofString text).after (done ++ [op]))
  told : op.Tells answer passed ((Cursor.ofString text).after (done ++ [op])).rest
  /-- It could not have answered or passed over anything else. -/
  only : ∀ other skipped rest, ((Cursor.ofString text).after done).rest = skipped.toList ++ rest →
    op.Tells other skipped rest → other = answer ∧ skipped = passed
  /-- Only digits that are too large for a record number are passed over without success. -/
  failed : op.succeeds answer = false → passed = "" ∧ stop = start ∨
    op = .number ∧ IsRun IsDecimal passed ∧
      Ends IsDecimal ((Cursor.ofString text).after (done ++ [op])).rest ∧
      UInt64.size ≤ decimal passed
  ended : (Caret.atEnd ⟨text, start⟩ = true ↔ Caret.peek? ⟨text, start⟩ = some none) ∧
    (((Cursor.ofString text).after done).atEnd = true ↔
      ((Cursor.ofString text).after done).peek? = none)

theorem Cursor.passes_exactly (text : String) (done : List Operation) (op : Operation) :
    ∃ answer passed start stop, Passage text done op answer passed start stop := by
  obtain ⟨before, cs, stands⟩ := exists_stands text done
  obtain ⟨answer, passed, rest, rfl, tells⟩ := op.exists_tells cs
  have behind := (stands.step tells).cursor
  have left := Caret.rest?_between before (passed.toList ++ rest)
  have next := Caret.peek?_between before (passed.toList ++ rest)
  have last := Caret.atEnd_between before (passed.toList ++ rest)
  rw [stands.between_eq] at left next last
  refine ⟨answer, passed, before.utf8ByteSize, (before ++ passed).utf8ByteSize, ?_⟩
  exact {
    came := stands.caret
    went := stands.perform? tells
    placed := valid_of_slice? stands.slice
    between := stands.slice
    followed := ⟨by rw [left, stands.cursor], by rw [stands.perform tells, behind]⟩
    told := by
      rw [behind]
      exact tells
    only := by
      intro other skipped left same told
      rw [stands.cursor] at same
      exact tells.unique told same.symm
    failed := by
      intro failed
      rw [behind]
      rcases tells.of_failed failed with rfl | large
      · exact .inl ⟨rfl, by rw [String.append_empty]⟩
      · exact .inr large
    ended := by
      rw [last, next, atEnd_iff, stands.cursor]
      simp [peek?] }

/-- Bytes are counted, and characters of several bytes passed over as a whole. -/
example : (Caret.start "é€_7").after? [.takeUntil "€", .skipChar '€', .skipText "", .identifier] =
    some ⟨"é€_7", 7⟩ := by
  decide +kernel

end Placeholders
