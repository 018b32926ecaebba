import Placeholders.Proofs.Caret
import Placeholders.Proofs.Layout

namespace Placeholders

def Resolution.textFor (spelled : String) : Resolution → String
  | .resolved value => value
  | .placeholder phrase => phrase
  | .unresolved => spelled

theorem Resolution.textFor_text (mark : Mark) (x : Resolution) :
    x.textFor mark.text = String.ofList (x.replacement mark) := by
  cases x with
  | resolved value => exact String.ofList_toList.symm
  | placeholder phrase => exact String.ofList_toList.symm
  | unresolved => rfl

/-- A text that is written anew, and the byte of the old one behind which nothing is used yet. -/
structure Splice where
  written : String
  last : Nat
  queries : List Query
  memo : Memo LookupKey

namespace Splice

def start (m : Memo LookupKey) : Splice := ⟨"", 0, [], m⟩

/-- Copies the old text up to an occurrence and writes a resolution in the place of that. -/
def next? (s : Splice) (text : String) (o : Occurrence) (step : Step Resolution) :
    Option Splice := do
  let gap ← slice? text s.last o.start
  return ⟨s.written ++ gap ++ step.result.textFor o.text, o.stop, s.queries ++ step.queries,
    step.memo⟩

def finish? (s : Splice) (text : String) : Option (Step String) := do
  let gap ← slice? text s.last text.utf8ByteSize
  return ⟨s.written ++ gap, s.queries, s.memo⟩

end Splice

namespace Resolver

def spliceNext? (r : Resolver) (g : Grammar) (text : String) (s : Splice) (o : Occurrence) :
    Option Splice :=
  s.next? text o (r.resolveGroups s.memo ⟨.unresolved, [], s.memo⟩ g o)

/-- A text written anew along its occurrences. It comes to nothing where a slice would cut a
character. -/
def splice? (r : Resolver) (m : Memo LookupKey) (g : Grammar) (text : String) :
    Option (Step String) := do
  let s ← (g.scan text).foldlM (r.spliceNext? g text) (.start m)
  s.finish? text

end Resolver

/-- A call that keeps the old text if the new one is empty and the old one is not. -/
def Session.splice? (s : Session) (c : Call) : Option (Step String) := do
  let step ← s.resolver.splice? s.memo (s.grammarOf c) c.text
  return { step with
    result := if step.result.isEmpty && !c.text.isEmpty then c.text else step.result }

/-- A splice in the middle of a text. Behind what is used stands a gap that is still to be copied,
and behind that, from the byte `offset` on, come pieces. -/
def Splice.Ahead (s : Splice) (text gap : String) (offset : Nat) (ps : List Piece) : Prop :=
  ∃ used, text = used ++ (gap ++ String.ofList (ps.flatMap Piece.spelling)) ∧
    s.last = used.utf8ByteSize ∧ offset = (used ++ gap).utf8ByteSize

namespace Splice
variable {s : Splice} {text gap : String} {offset : Nat} {ps : List Piece}

theorem start_ahead (m : Memo LookupKey) (g : Grammar) (text : String) :
    (start m).Ahead text "" 0 (g.pieces text) := by
  refine ⟨"", ?_, rfl, rfl⟩
  rw [g.pieces_spelling, String.ofList_toList, String.empty_append, String.empty_append]

theorem Ahead.slice? (h : s.Ahead text gap offset ps) :
    slice? text s.last offset = some gap := by
  obtain ⟨used, rfl, hlast, rfl⟩ := h
  rw [hlast]
  exact slice?_eq_some_iff.mpr ⟨used, _, rfl, rfl, rfl⟩

theorem Ahead.char {c : Char} (h : s.Ahead text gap offset (.char c :: ps)) :
    s.Ahead text (gap ++ String.singleton c) (offset + byteSize [c]) ps := by
  obtain ⟨used, rfl, hlast, rfl⟩ := h
  refine ⟨used, ?_, hlast, ?_⟩
  · rw [List.flatMap_cons, String.ofList_append, String.append_assoc]
    rfl
  · rw [← String.append_assoc, String.utf8ByteSize_append (s := used ++ gap)]
    rfl

theorem Ahead.finish (h : s.Ahead text gap offset []) :
    s.finish? text = some ⟨s.written ++ gap, s.queries, s.memo⟩ := by
  have copied := h.slice?
  obtain ⟨used, rfl, _, rfl⟩ := h
  rw [List.flatMap_nil, String.ofList_nil, String.append_empty] at copied ⊢
  rw [finish?, copied]
  rfl

theorem Ahead.mark {mark : Mark} (h : s.Ahead text gap offset (.mark mark :: ps))
    {behind : Splice} (hlast : behind.last = offset + byteSize mark.spelling) :
    behind.Ahead text "" (offset + byteSize mark.spelling) ps := by
  obtain ⟨used, rfl, _, rfl⟩ := h
  have size : (used ++ gap).utf8ByteSize + byteSize mark.spelling =
      (used ++ gap ++ mark.text).utf8ByteSize := (String.utf8ByteSize_append).symm
  refine ⟨used ++ gap ++ mark.text, ?_, ?_, ?_⟩
  · simp [Piece.spelling, Mark.text, String.append_assoc]
  · rw [hlast, size]
  · rw [size, String.append_empty]

/-- One occurrence: the gap before it is copied, and it is resolved as its mark is. -/
theorem Ahead.step {g : Grammar} {mark : Mark} (hm : g.Owns mark)
    (h : s.Ahead text gap offset (.mark mark :: ps)) (r : Resolver) :
    let stop := offset + byteSize mark.spelling
    let step := r.resolveMark s.memo mark
    ∃ behind : Splice,
      r.spliceNext? g text s (PlacedMark.occurrence ⟨offset, stop, mark⟩) = some behind ∧
      behind.Ahead text "" stop ps ∧
      behind.written = s.written ++ gap ++ String.ofList (step.result.replacement mark) ∧
      behind.queries = s.queries ++ step.queries ∧ behind.memo = step.memo := by
  intro stop step
  refine ⟨⟨_, stop, _, _⟩, ?_, h.mark rfl, rfl, rfl, rfl⟩
  rw [Resolver.spliceNext?, r.resolveGroups_occurrence s.memo _ hm, next?]
  simp only [PlacedMark.occurrence, h.slice?, Resolution.textFor_text, Option.bind_eq_bind,
    Option.bind_some, Option.pure_def, step]

end Splice

namespace Resolver
variable {r : Resolver} {g : Grammar} {s : Splice} {text gap : String} {offset : Nat}

/-- The occurrences among pieces are met in their order, and the gaps between them are copied. -/
theorem splice?_pieces {ps : List Piece} (owned : ∀ k ∈ ps.filterMap Piece.mark?, g.Owns k)
    (h : s.Ahead text gap offset ps) :
    let filled := r.fillPieces s.memo ps
    (((placedFrom offset ps).map (·.occurrence)).foldlM (r.spliceNext? g text) s).bind
        (·.finish? text) =
      some ⟨s.written ++ (gap ++ String.ofList filled.result), s.queries ++ filled.queries,
        filled.memo⟩ := by
  induction ps generalizing s gap offset with
  | nil => simp [placedFrom, fillPieces, h.finish]
  | cons p ps ih =>
    cases p with
    | char c =>
      have later := ih owned h.char
      simp only [placedFrom, Piece.spelling, later, fillPieces, String.ofList_cons,
        String.append_assoc]
    | mark mark =>
      obtain ⟨behind, next, ahead, written, queries, memo⟩ :=
        h.step (owned mark List.mem_cons_self) r
      have later := ih (fun k hk => owned k (List.mem_cons_of_mem mark hk)) ahead
      rw [written, queries, memo] at later
      simp only [placedFrom, Piece.spelling, List.map_cons, List.foldlM_cons, next,
        Option.bind_eq_bind, Option.bind_some, later, fillPieces, String.ofList_append,
        String.append_assoc, String.empty_append, List.append_assoc]

theorem splice?_eq_fill (r : Resolver) (m : Memo LookupKey) (g : Grammar) (text : String) :
    let filled := r.fill m g text
    r.splice? m g text = some ⟨String.ofList filled.result, filled.queries, filled.memo⟩ := by
  have owned : ∀ k ∈ (g.pieces text).filterMap Piece.mark?, g.Owns k := by
    rw [← Grammar.tokensIn_pieces]
    exact fun _ hk => Grammar.owns_of_mem_tokensIn hk
  have run := splice?_pieces (r := r) owned (Splice.start_ahead m g text)
  simp only [Splice.start, String.empty_append, List.nil_append] at run
  exact run

end Resolver

/-- A call comes to what a session fills in, and no slice of its text cuts a character. -/
theorem Session.splice?_eq_fill (s : Session) (c : Call) : s.splice? c = some (s.fill c) := by
  have kept (cs : List Char) :
      (if (String.ofList cs).isEmpty && !c.text.isEmpty then c.text else String.ofList cs) =
        if cs.isEmpty then c.text else String.ofList cs := by
    cases cs with
    | nil =>
      by_cases none : c.text = ""
      · simp [none]
      · simp [none]
    | cons x xs => simp
  rw [splice?, s.resolver.splice?_eq_fill]
  simp only [fill, kept, Option.bind_eq_bind, Option.bind_some, Option.pure_def]

end Placeholders
