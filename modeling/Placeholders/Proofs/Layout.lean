import Placeholders.Proofs.Accounting
import Placeholders.Proofs.Scanning
import Placeholders.Proofs.Transparency

namespace Placeholders

/-- The gaps before, between and behind the marks of a text that is cut into pieces. -/
def gapsOf : List Piece → List (List Char)
  | [] => [[]]
  | .char c :: ps => (gapsOf ps).modifyHead (c :: ·)
  | .mark _ :: ps => [] :: gapsOf ps

/-- Gaps with a slot behind each but the last. -/
def weave : List (List Char) → List (List Char) → List Char
  | gap :: gaps, slot :: slots => gap ++ (slot ++ weave gaps slots)
  | gaps, _ => gaps.flatten

theorem gapsOf_length (ps : List Piece) :
    (gapsOf ps).length = (ps.filterMap Piece.mark?).length + 1 := by
  induction ps with
  | nil => rfl
  | cons p ps ih =>
    cases p with
    | char c =>
      have same : (gapsOf (.char c :: ps)).length = (gapsOf ps).length := List.length_modifyHead
      rw [same]
      exact ih
    | mark m => exact congrArg (· + 1) ih

theorem weave_modifyHead {gaps : List (List Char)} (h : gaps ≠ []) (c : Char)
    (slots : List (List Char)) :
    weave (gaps.modifyHead (c :: ·)) slots = c :: weave gaps slots := by
  obtain ⟨gap, gaps, rfl⟩ := List.exists_cons_of_ne_nil h
  cases slots <;> simp [weave]

theorem gapsOf_ne_nil (ps : List Piece) : gapsOf ps ≠ [] := by
  intro h
  have long := gapsOf_length ps
  rw [h] at long
  cases long

/-- A character goes to the gap in front, and a mark begins a new gap behind its slot. -/
theorem weave_gapsOf (ps : List Piece) (slots : List (List Char)) :
    (∀ c, weave (gapsOf (.char c :: ps)) slots = c :: weave (gapsOf ps) slots) ∧
      ∀ m slot, weave (gapsOf (.mark m :: ps)) (slot :: slots) =
        slot ++ weave (gapsOf ps) slots :=
  ⟨fun c => weave_modifyHead (gapsOf_ne_nil ps) c slots, fun _ _ => rfl⟩

theorem flatMap_spelling_weave (ps : List Piece) :
    ps.flatMap Piece.spelling =
      weave (gapsOf ps) ((ps.filterMap Piece.mark?).map Mark.spelling) := by
  induction ps with
  | nil => rfl
  | cons p ps ih =>
    obtain ⟨char, mark⟩ := weave_gapsOf ps ((ps.filterMap Piece.mark?).map Mark.spelling)
    cases p with
    | char c =>
      rw [List.flatMap_cons, ih]
      exact (char c).symm
    | mark m =>
      rw [List.flatMap_cons, ih]
      exact (mark m m.spelling).symm

namespace Grammar

/-- The marks of a text, from left to right. -/
def tokensIn (g : Grammar) (text : String) : List Mark := (g.marks text).map (·.mark)

def gaps (g : Grammar) (text : String) : List (List Char) := gapsOf (g.pieces text)

theorem tokensIn_pieces (g : Grammar) (text : String) :
    g.tokensIn text = (g.pieces text).filterMap Piece.mark? :=
  placedFrom_marks 0 _

theorem owns_of_mem_tokensIn {g : Grammar} {text : String} {mark : Mark}
    (h : mark ∈ g.tokensIn text) : g.Owns mark := by
  obtain ⟨p, hp, rfl⟩ := List.mem_map.mp h
  obtain ⟨_, _, _, _, _, owned⟩ := mem_marks_iff.mp hp
  exact owned

theorem gaps_length (g : Grammar) (text : String) :
    (g.gaps text).length = (g.tokensIn text).length + 1 := by
  rw [tokensIn_pieces]
  exact gapsOf_length _

theorem text_weave (g : Grammar) (text : String) :
    text.toList = weave (g.gaps text) ((g.tokensIn text).map Mark.spelling) := by
  rw [← g.pieces_spelling text, tokensIn_pieces]
  exact flatMap_spelling_weave _

end Grammar

namespace Resolver

/-- What a mark becomes where nothing is kept. -/
def slot (r : Resolver) (mark : Mark) : List Char :=
  (r.resolveMark .empty mark).result.replacement mark

/-- What marks become one after the other. -/
def slots (r : Resolver) (m : Memo LookupKey) (marks : List Mark) : List (List Char) :=
  (r.visits m marks).map fun v => v.step.result.replacement v.mark

variable {r : Resolver} {m : Memo LookupKey}

theorem slots_length (r : Resolver) (m : Memo LookupKey) (marks : List Mark) :
    (r.slots m marks).length = marks.length := by
  have visited := congrArg List.length (r.visits_marks m marks)
  rw [List.length_map] at visited
  rw [slots, List.length_map, visited]

theorem fillPieces_weave (r : Resolver) (m : Memo LookupKey) (ps : List Piece) :
    (r.fillPieces m ps).result =
      weave (gapsOf ps) (r.slots m (ps.filterMap Piece.mark?)) := by
  induction ps generalizing m with
  | nil => rfl
  | cons p ps ih =>
    cases p with
    | char c =>
      rw [fillPieces, ih m]
      exact ((weave_gapsOf ps _).1 c).symm
    | mark mark =>
      rw [fillPieces, ih (r.resolveMark m mark).memo]
      exact ((weave_gapsOf ps _).2 mark _).symm

theorem fill_weave (r : Resolver) (m : Memo LookupKey) (g : Grammar) (text : String) :
    (r.fill m g text).result = weave (g.gaps text) (r.slots m (g.tokensIn text)) := by
  rw [Grammar.tokensIn_pieces]
  exact r.fillPieces_weave m _

theorem resolveMark_without_history (ht : r.Trusts m) (mark : Mark) :
    (r.resolveMark m mark).result = (r.resolveMark .empty mark).result := by
  rw [resolveMark_result ht, resolveMark_result r.trusts_empty]

theorem visit_without_history (ht : r.Trusts m) {marks : List Mark} {v : Visit}
    (h : v ∈ r.visits m marks) :
    v.mark ∈ marks ∧ v.step.result = (r.resolveMark .empty v.mark).result := by
  induction marks generalizing m with
  | nil => cases h
  | cons mark marks ih =>
    rw [visits] at h
    rcases List.mem_cons.mp h with rfl | h
    · exact ⟨List.mem_cons_self, resolveMark_without_history ht mark⟩
    · obtain ⟨hm, alone⟩ := ih (resolveMark_trusts ht mark) h
      exact ⟨List.mem_cons_of_mem _ hm, alone⟩

theorem slots_without_history (ht : r.Trusts m) (marks : List Mark) :
    r.slots m marks = marks.map r.slot := by
  induction marks generalizing m with
  | nil => rfl
  | cons mark marks ih =>
    have rest := ih (resolveMark_trusts ht mark)
    have first : (r.resolveMark m mark).result.replacement mark = r.slot mark :=
      congrArg (Resolution.replacement mark) (resolveMark_without_history ht mark)
    rw [slots, visits, List.map_cons, first]
    exact congrArg (r.slot mark :: ·) rest

end Resolver

namespace Session

theorem after_resolver (s : Session) (calls : List Call) :
    (s.after calls).resolver = s.resolver := by
  induction calls generalizing s with
  | nil => rfl
  | cons c calls ih => exact ih { s with memo := (s.fill c).memo }

theorem after_sound {s : Session} (hs : s.Sound) (calls : List Call) : (s.after calls).Sound := by
  induction calls generalizing s with
  | nil => exact hs
  | cons c calls ih => exact ih (fill_sound hs c)

/-- Whatever was filled in before, what is kept is still what the store answers. -/
theorem start_after_trusts (r : Resolver) (calls : List Call) :
    r.Trusts ((start r).after calls).memo := by
  have sound := after_sound (start_sound r) calls
  unfold Sound at sound
  rwa [after_resolver] at sound

/-- What takes the place of the marks of a text. -/
def slots (s : Session) (c : Call) : List (List Char) :=
  s.resolver.slots s.memo ((s.grammarOf c).tokensIn c.text)

theorem slots_after (r : Resolver) (past : List Call) (c : Call) :
    let s := (start r).after past
    s.slots c = ((s.grammarOf c).tokensIn c.text).map r.slot := by
  intro s
  have trusted := start_after_trusts r past
  have same : s.resolver = r := after_resolver (start r) past
  rw [slots, same]
  exact Resolver.slots_without_history trusted _

theorem fill_laidOut (s : Session) (c : Call) :
    let out := weave ((s.grammarOf c).gaps c.text) (s.slots c)
    (s.fill c).result = if out = [] then c.text else String.ofList out := by
  intro out
  have filled : (s.resolver.fill s.memo (s.grammarOf c) c.text).result = out :=
    s.resolver.fill_weave s.memo (s.grammarOf c) c.text
  simp only [fill, filled, List.isEmpty_iff]

end Session

end Placeholders
