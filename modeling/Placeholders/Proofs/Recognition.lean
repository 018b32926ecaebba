import Mathlib.Data.List.TakeWhile
import Placeholders.Mark

namespace Placeholders

def IsWord (c : Char) : Prop :=
  ('A' ≤ c ∧ c ≤ 'Z') ∨ ('a' ≤ c ∧ c ≤ 'z') ∨ ('0' ≤ c ∧ c ≤ '9') ∨ c = '_'

def IsName (c : Char) : Prop := ('A' ≤ c ∧ c ≤ 'Z') ∨ ('a' ≤ c ∧ c ≤ 'z') ∨ c = '_'

def IsDecimal (c : Char) : Prop := '0' ≤ c ∧ c ≤ '9'

/-- One character of a kind or more. -/
def IsRun (kind : Char → Prop) (s : String) : Prop := s ≠ "" ∧ ∀ c ∈ s.toList, kind c

/-- A name, or a name with an instance behind an equals sign. -/
inductive IsContext : String → Prop
  | plain {name : String} (hn : IsRun IsName name) : IsContext name
  | instanced {name digits : String} (hn : IsRun IsName name) (hd : IsRun IsDecimal digits) :
    IsContext (name ++ "=" ++ digits)

/-- What a grammar takes for a token, and the groups that it sees in it. -/
inductive Grammar.Spells : Grammar → String → List String → Prop
  | simple {body : String} (hb : IsRun IsWord body) :
    Spells .simple ("\x7b" ++ body ++ "\x7d") [body]
  | namespaced {context field : String} (hc : IsContext context) (hf : IsRun IsWord field) :
    Spells .namespaced ("\x7b\x7bmetadata::" ++ context ++ "::" ++ field ++ "\x7d\x7d")
      [context, field]

/-- The marks of a grammar. -/
def Grammar.Owns : Grammar → Mark → Prop
  | .simple, .simple body => IsRun IsWord body
  | .namespaced, .namespaced context field => IsContext context ∧ IsRun IsWord field
  | _, _ => False

theorem Grammar.Owns.cases {g : Grammar} {m : Mark} (h : g.Owns m) :
    (∃ body, g = .simple ∧ m = .simple body ∧ IsRun IsWord body) ∨
      ∃ context field, g = .namespaced ∧ m = .namespaced context field ∧
        IsContext context ∧ IsRun IsWord field := by
  cases g with
  | simple =>
    cases m with
    | simple body => exact .inl ⟨body, rfl, rfl, h⟩
    | namespaced context field => exact False.elim h
  | namespaced =>
    cases m with
    | simple body => exact False.elim h
    | namespaced context field => exact .inr ⟨context, field, rfl, rfl, h⟩

theorem isAlpha_iff {c : Char} :
    c.isAlpha = true ↔ ('A' ≤ c ∧ c ≤ 'Z') ∨ ('a' ≤ c ∧ c ≤ 'z') := by
  change (decide ('A' ≤ c ∧ c ≤ 'Z') || (decide ('a' ≤ c) && decide (c ≤ 'z'))) = true ↔ _
  simp

theorem isDigit_iff {c : Char} : c.isDigit = true ↔ IsDecimal c := by
  simp [IsDecimal, Char.isDigit, Char.le_def]

theorem isNameChar_iff {c : Char} : isNameChar c = true ↔ IsName c := by
  simp [isNameChar, IsName, isAlpha_iff, or_assoc]

theorem isWordChar_iff {c : Char} : isWordChar c = true ↔ IsWord c := by
  simp [isWordChar, IsWord, Char.isAlphanum, isAlpha_iff, isDigit_iff, IsDecimal, or_assoc]

theorem Grammar.spells_iff {g : Grammar} {text : String} {groups : List String} :
    g.Spells text groups ↔ ∃ m, g.Owns m ∧ m.text = text ∧ m.parts = groups := by
  constructor
  · rintro (hb | ⟨hc, hf⟩)
    · refine ⟨.simple _, hb, ?_, rfl⟩
      simp [Mark.text, Mark.spelling, String.ext_iff]
    · refine ⟨.namespaced _ _, ⟨hc, hf⟩, ?_, rfl⟩
      simp [Mark.text, Mark.spelling, String.ext_iff, opening, separator, closing]
  · rintro ⟨m, hm, rfl, rfl⟩
    obtain ⟨body, rfl, rfl, hb⟩ | ⟨context, field, rfl, rfl, hc, hf⟩ := hm.cases
    · have text : (Mark.simple body).text = "\x7b" ++ body ++ "\x7d" := by
        simp [Mark.text, Mark.spelling, String.ext_iff]
      rw [text]
      exact .simple hb
    · have text : (Mark.namespaced context field).text =
          "\x7b\x7bmetadata::" ++ context ++ "::" ++ field ++ "\x7d\x7d" := by
        simp [Mark.text, Mark.spelling, String.ext_iff, opening, separator, closing]
      rw [text]
      exact .namespaced hc hf

theorem isRun_ofList {kind : Char → Prop} {cs : List Char} :
    IsRun kind (String.ofList cs) ↔ cs ≠ [] ∧ ∀ c ∈ cs, kind c := by
  simp [IsRun, String.ext_iff]

theorem isRun_takeWhile {kind : Char → Prop} {p : Char → Bool} (hp : ∀ {c}, p c = true ↔ kind c)
    {cs : List Char} (h : cs.takeWhile p ≠ []) : IsRun kind (String.ofList (cs.takeWhile p)) :=
  isRun_ofList.mpr ⟨h, fun _ hc => hp.mp (List.mem_takeWhile_imp hc)⟩

/-- A run is taken whole, and nothing that follows it. -/
theorem take_run {kind : Char → Prop} {p : Char → Bool} (hp : ∀ {c}, p c = true ↔ kind c)
    {run : String} (hr : IsRun kind run) (stop : Char) (hs : p stop = false) (rest : List Char) :
    (run.toList ++ stop :: rest).takeWhile p = run.toList ∧
      (run.toList ++ stop :: rest).dropWhile p = stop :: rest := by
  have all : ∀ c ∈ run.toList, p c = true := fun c hc => hp.mpr (hr.2 c hc)
  rw [List.takeWhile_append_of_pos all, List.dropWhile_append_of_pos all]
  simp [hs]

theorem after?_append (head rest : List Char) : after? head (head ++ rest) = some rest :=
  after?_eq_some_iff.mpr rfl

theorem IsRun.toList_ne_nil {kind : Char → Prop} {s : String} (h : IsRun kind s) :
    s.toList ≠ [] := by
  simpa using h.1

theorem simpleMarkAt?_owns {cs : List Char} {m : Mark} (h : simpleMarkAt? cs = some m) :
    Grammar.simple.Owns m := by
  simp only [simpleMarkAt?, Option.bind_eq_bind, Option.bind_eq_some_iff] at h
  obtain ⟨body, _, _, _, hm⟩ := h
  split at hm
  · cases hm
  · rename_i word hword
    cases hm
    exact isRun_takeWhile isWordChar_iff hword

theorem simpleMarkAt?_complete {body : String} (hb : IsRun IsWord body) (rest : List Char) :
    simpleMarkAt? ((Mark.simple body).spelling ++ rest) = some (.simple body) := by
  have spelled : (Mark.simple body).spelling ++ rest = ['{'] ++ (body.toList ++ '}' :: rest) := by
    simp [Mark.spelling]
  obtain ⟨taken, left⟩ := take_run isWordChar_iff hb '}' (by decide) rest
  have closed : after? ['}'] ('}' :: rest) = some rest := after?_append ['}'] rest
  simp only [simpleMarkAt?, spelled, after?_append, Option.bind_eq_bind, Option.bind_some, taken,
    left, closed]
  split
  · rename_i hn
    exact absurd hn hb.toList_ne_nil
  · rw [String.ofList_toList]

theorem instancePart_owns {name : List Char} (hn : IsRun IsName (String.ofList name))
    (cs : List Char) : IsContext (String.ofList (name ++ (instancePart cs).1)) := by
  have plain : IsContext (String.ofList (name ++ [])) := by
    rw [List.append_nil]
    exact .plain hn
  cases cs with
  | nil => exact plain
  | cons c cs =>
    simp only [instancePart]
    split
    · rename_i h
      have digits : cs.takeWhile Char.isDigit ≠ [] := by
        simp only [Bool.and_eq_true, decide_eq_true_eq] at h
        exact fun he => h.2 (congrArg List.length he)
      have spelled : String.ofList (name ++ '=' :: cs.takeWhile Char.isDigit) =
          String.ofList name ++ "=" ++ String.ofList (cs.takeWhile Char.isDigit) := by
        simp [String.ext_iff]
      rw [spelled]
      exact .instanced hn (isRun_takeWhile isDigit_iff digits)
    · exact plain

/-- A context is taken whole in front of a separator: its name first, then its instance. -/
theorem IsContext.taken {context : String} (hc : IsContext context) (rest : List Char) :
    let cs := context.toList ++ ':' :: rest
    cs.takeWhile isNameChar ≠ [] ∧
      cs.takeWhile isNameChar ++ (instancePart (cs.dropWhile isNameChar)).1 = context.toList ∧
      (instancePart (cs.dropWhile isNameChar)).2 = ':' :: rest := by
  cases hc with
  | plain hn =>
    obtain ⟨taken, left⟩ := take_run isNameChar_iff hn ':' (by decide) rest
    simp only [taken, left, instancePart]
    exact ⟨hn.toList_ne_nil, by simp, by simp⟩
  | @instanced name digits hn hd =>
    have spelled : (name ++ "=" ++ digits).toList ++ ':' :: rest =
        name.toList ++ '=' :: (digits.toList ++ ':' :: rest) := by
      simp
    obtain ⟨taken, left⟩ := take_run isNameChar_iff hn '=' (by decide)
      (digits.toList ++ ':' :: rest)
    obtain ⟨number, behind⟩ := take_run isDigit_iff hd ':' (by decide) rest
    have some : digits.toList.length ≠ 0 := by simpa using hd.1
    simp only [spelled, taken, left, instancePart, number, behind, some, ne_eq, not_false_eq_true,
      decide_true, Bool.and_self, ↓reduceIte]
    exact ⟨hn.toList_ne_nil, by simp, trivial⟩

theorem namespacedMarkAt?_owns {cs : List Char} {m : Mark} (h : namespacedMarkAt? cs = some m) :
    Grammar.namespaced.Owns m := by
  simp only [namespacedMarkAt?, Option.bind_eq_bind, Option.bind_eq_some_iff] at h
  obtain ⟨context, _, field, _, _, _, hm⟩ := h
  split at hm
  · cases hm
  · cases hm
  · rename_i hname hword
    cases hm
    exact ⟨instancePart_owns (isRun_takeWhile isNameChar_iff hname) _,
      isRun_takeWhile isWordChar_iff hword⟩

theorem namespacedMarkAt?_complete {context field : String} (hc : IsContext context)
    (hf : IsRun IsWord field) (rest : List Char) :
    namespacedMarkAt? ((Mark.namespaced context field).spelling ++ rest) =
      some (.namespaced context field) := by
  let behind := ':' :: (field.toList ++ '}' :: '}' :: rest)
  have spelled : (Mark.namespaced context field).spelling ++ rest =
      opening ++ (context.toList ++ ':' :: behind) := by
    simp [Mark.spelling, separator, closing, behind]
  obtain ⟨named, whole, left⟩ := hc.taken behind
  obtain ⟨taken, ended⟩ := take_run isWordChar_iff hf '}' (by decide) ('}' :: rest)
  have separated : after? separator (':' :: behind) = some (field.toList ++ '}' :: '}' :: rest) :=
    after?_append separator _
  have closed : after? closing ('}' :: '}' :: rest) = some rest := after?_append closing rest
  simp only [namespacedMarkAt?, spelled, after?_append, Option.bind_eq_bind, Option.bind_some,
    left, separated, taken, ended, closed]
  split
  · rename_i hn
    exact absurd hn named
  · rename_i hn _
    exact absurd hn hf.toList_ne_nil
  · rw [whole, String.ofList_toList, String.ofList_toList]

/-- A mark is recognized where its spelling stands and nowhere else. -/
theorem Grammar.markAt?_eq_some_iff {g : Grammar} {cs : List Char} {m : Mark} :
    g.markAt? cs = some m ↔ g.Owns m ∧ ∃ rest, cs = m.spelling ++ rest := by
  constructor
  · intro h
    refine ⟨?_, markAt?_spelling h⟩
    cases g with
    | simple => exact simpleMarkAt?_owns h
    | namespaced => exact namespacedMarkAt?_owns h
  · rintro ⟨hm, rest, rfl⟩
    obtain ⟨body, rfl, rfl, hb⟩ | ⟨context, field, rfl, rfl, hc, hf⟩ := hm.cases
    · exact simpleMarkAt?_complete hb rest
    · exact namespacedMarkAt?_complete hc hf rest

end Placeholders
