import Placeholders.Grammar

namespace Placeholders

def isWordChar (c : Char) : Bool := c.isAlphanum || c == '_'

def isNameChar (c : Char) : Bool := c.isAlpha || c == '_'

/-- A token as it is spelled in a text, not yet interpreted. -/
inductive Mark where
  | simple (body : String)
  /-- A context, which may carry an instance after an equals sign, and a field. -/
  | namespaced (context field : String)
  deriving DecidableEq, Repr

def opening : List Char :=
  ['{', '{', 'm', 'e', 't', 'a', 'd', 'a', 't', 'a', ':', ':']

def separator : List Char := [':', ':']

def closing : List Char := ['}', '}']

def Mark.spelling : Mark → List Char
  | .simple body => '{' :: (body.toList ++ ['}'])
  | .namespaced context field =>
      opening ++ (context.toList ++ (separator ++ (field.toList ++ closing)))

def Mark.text (m : Mark) : String := String.ofList m.spelling

/-- The variable parts of a mark, in order. -/
def Mark.parts : Mark → List String
  | .simple body => [body]
  | .namespaced context field => [context, field]

/-- What follows `head` in a text that starts with it. -/
def after? : List Char → List Char → Option (List Char)
  | [], cs => some cs
  | _ :: _, [] => none
  | h :: hs, c :: cs => if h = c then after? hs cs else none

/-- The instance part of a context, an equals sign with digits, and what follows it. -/
def instancePart : List Char → List Char × List Char
  | [] => ([], [])
  | c :: cs =>
    if c = '=' && (cs.takeWhile Char.isDigit).length ≠ 0 then
      ('=' :: cs.takeWhile Char.isDigit, cs.dropWhile Char.isDigit)
    else ([], c :: cs)

def simpleMarkAt? (cs : List Char) : Option Mark := do
  let body ← after? ['{'] cs
  let _ ← after? ['}'] (body.dropWhile isWordChar)
  match body.takeWhile isWordChar with
  | [] => none
  | word => some (.simple (String.ofList word))

/-- The namespaced mark that a text starts with. Every run takes all it can, which loses
nothing: no character of a run can start what has to follow it. -/
def namespacedMarkAt? (cs : List Char) : Option Mark := do
  let context ← after? opening cs
  let instanced := instancePart (context.dropWhile isNameChar)
  let field ← after? separator instanced.2
  let _ ← after? closing (field.dropWhile isWordChar)
  match context.takeWhile isNameChar, field.takeWhile isWordChar with
  | [], _ => none
  | _, [] => none
  | name, word => some (.namespaced (String.ofList (name ++ instanced.1)) (String.ofList word))

def Grammar.markAt? : Grammar → List Char → Option Mark
  | .simple => simpleMarkAt?
  | .namespaced => namespacedMarkAt?

theorem after?_eq_some_iff {head cs rest : List Char} :
    after? head cs = some rest ↔ cs = head ++ rest := by
  induction head generalizing cs with
  | nil => simp [after?]
  | cons h hs ih =>
    cases cs with
    | nil => simp [after?]
    | cons c cs =>
      by_cases he : h = c
      · simp [after?, he, ih]
      · simp [after?, he, Ne.symm he]

theorem instancePart_append (cs : List Char) : (instancePart cs).1 ++ (instancePart cs).2 = cs := by
  cases cs with
  | nil => rfl
  | cons c cs =>
    simp only [instancePart]
    split
    · rename_i h
      simp only [Bool.and_eq_true, decide_eq_true_eq] at h
      simp [h.1, List.takeWhile_append_dropWhile]
    · rfl

theorem simpleMarkAt?_spelling {cs : List Char} {m : Mark} (h : simpleMarkAt? cs = some m) :
    ∃ rest, cs = m.spelling ++ rest := by
  simp only [simpleMarkAt?, Option.bind_eq_bind, Option.bind_eq_some_iff, after?_eq_some_iff] at h
  obtain ⟨body, rfl, rest, hrest, hm⟩ := h
  split at hm
  · cases hm
  · cases hm
    refine ⟨rest, ?_⟩
    have whole := List.takeWhile_append_dropWhile (p := isWordChar) (l := body)
    rw [hrest, List.singleton_append] at whole
    simp [Mark.spelling, whole]

theorem namespacedMarkAt?_spelling {cs : List Char} {m : Mark}
    (h : namespacedMarkAt? cs = some m) : ∃ rest, cs = m.spelling ++ rest := by
  simp only [namespacedMarkAt?, Option.bind_eq_bind, Option.bind_eq_some_iff,
    after?_eq_some_iff] at h
  obtain ⟨context, rfl, field, hfield, rest, hrest, hm⟩ := h
  split at hm
  · cases hm
  · cases hm
  · cases hm
    refine ⟨rest, ?_⟩
    have name := List.takeWhile_append_dropWhile (p := isNameChar) (l := context)
    have inst := instancePart_append (context.dropWhile isNameChar)
    have word := List.takeWhile_append_dropWhile (p := isWordChar) (l := field)
    rw [hrest] at word
    rw [hfield] at inst
    rw [← inst, ← word] at name
    simp only [Mark.spelling, String.toList_ofList, List.append_assoc] at name ⊢
    rw [name]

/-- A mark that is recognized is there. -/
theorem Grammar.markAt?_spelling {g : Grammar} {cs : List Char} {m : Mark}
    (h : g.markAt? cs = some m) : ∃ rest, cs = m.spelling ++ rest := by
  cases g with
  | simple => exact simpleMarkAt?_spelling h
  | namespaced => exact namespacedMarkAt?_spelling h

theorem Mark.spelling_ne_nil (m : Mark) : m.spelling ≠ [] := by
  cases m <;> simp [spelling, opening]

end Placeholders
