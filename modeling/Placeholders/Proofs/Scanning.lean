import Mathlib.Data.List.Pairwise
import Placeholders.Piece
import Placeholders.Resolver
import Placeholders.Proofs.Recognition

namespace Placeholders

/-- The braces that the marks of a grammar begin with. -/
def Grammar.lead : Grammar → List Char
  | .simple => ['{']
  | .namespaced => ['{', '{']

def braces (cs : List Char) : Nat := (cs.takeWhile (· = '{')).length

theorem braces_append {lead tail : List Char} (hl : ∀ c ∈ lead, c = '{') (ht : tail ≠ [])
    (hn : '{' ∉ tail) (rest : List Char) : braces (lead ++ (tail ++ rest)) = lead.length := by
  have all : ∀ c ∈ lead, decide (c = '{') = true := fun c hc => decide_eq_true (hl c hc)
  rw [braces, List.takeWhile_append_of_pos all]
  cases tail with
  | nil => exact absurd rfl ht
  | cons c tail =>
    have other : c ≠ '{' := fun he => hn (he ▸ List.mem_cons_self)
    simp [other]

theorem IsRun.not_mem {kind : Char → Prop} {p : Char → Bool} (hp : ∀ {c}, p c = true ↔ kind c)
    {s : String} (h : IsRun kind s) {c : Char} (hc : p c = false) : c ∉ s.toList := by
  intro hm
  have taken := hp.mpr (h.2 c hm)
  rw [hc] at taken
  cases taken

theorem IsContext.brace_not_mem {context : String} (h : IsContext context) :
    '{' ∉ context.toList := by
  cases h with
  | plain hn => exact hn.not_mem isNameChar_iff (by decide)
  | instanced hn hd =>
    have name := hn.not_mem isNameChar_iff (c := '{') (by decide)
    have digits := hd.not_mem isDigit_iff (c := '{') (by decide)
    simp [name, digits]

namespace Grammar
variable {g : Grammar} {m k : Mark}

theorem lead_braces (g : Grammar) : ∀ c ∈ g.lead, c = '{' := by
  cases g <;> simp [lead]

theorem lead_ne_nil (g : Grammar) : g.lead ≠ [] := by
  cases g <;> simp [lead]

theorem Owns.spelling (h : g.Owns m) :
    ∃ tail, m.spelling = g.lead ++ tail ∧ tail ≠ [] ∧ '{' ∉ tail := by
  obtain ⟨body, rfl, rfl, hb⟩ | ⟨context, field, rfl, rfl, hc, hf⟩ := h.cases
  · have word := hb.not_mem isWordChar_iff (c := '{') (by decide)
    exact ⟨body.toList ++ ['}'], rfl, by simp, by simp [word]⟩
  · have name := hc.brace_not_mem
    have word := hf.not_mem isWordChar_iff (c := '{') (by decide)
    refine ⟨opening.drop 2 ++ (context.toList ++ (separator ++ (field.toList ++ closing))), rfl,
      by simp [opening], ?_⟩
    simp [opening, separator, closing, name, word]

/-- A mark that starts in another, of whichever grammar, starts among its first braces. -/
theorem Owns.starts_in {g' : Grammar} (hm : g.Owns m) (hk : g'.Owns k)
    {before part after rest : List Char} (hs : m.spelling = before ++ part) (hp : part ≠ [])
    (he : k.spelling ++ after = part ++ rest) :
    ∃ lead tail, g.lead = before ++ lead ∧ lead.length = g'.lead.length ∧
      m.spelling = g.lead ++ tail ∧ part = lead ++ tail := by
  obtain ⟨tail, spelled, ht, hn⟩ := hm.spelling
  obtain ⟨tail', spelled', ht', hn'⟩ := hk.spelling
  have count : braces (part ++ rest) = g'.lead.length := by
    rw [← he, spelled', List.append_assoc]
    exact braces_append g'.lead_braces ht' hn' after
  rw [spelled] at hs
  rcases List.append_eq_append_iff.mp hs with ⟨inner, rfl, hi⟩ | ⟨lead, hl, rfl⟩
  · have none : '{' ∉ part := fun hc => hn (hi ▸ List.mem_append_right inner hc)
    have few : braces (part ++ rest) = 0 := braces_append (List.forall_mem_nil _) hp none rest
    rw [few] at count
    exact absurd (List.length_eq_zero_iff.mp count.symm) g'.lead_ne_nil
  · have own : ∀ c ∈ lead, c = '{' := by
      intro c hc
      exact g.lead_braces c (hl ▸ List.mem_append_right before hc)
    have few := braces_append own ht hn rest
    rw [← List.append_assoc, count] at few
    exact ⟨lead, tail, hl, few.symm, spelled, rfl⟩

/-- No mark starts inside another of its grammar. -/
theorem Owns.not_inside (hm : g.Owns m) (hk : g.Owns k) {before part after rest : List Char}
    (hs : m.spelling = before ++ part) (hb : before ≠ []) (hp : part ≠ []) :
    k.spelling ++ after ≠ part ++ rest := by
  intro he
  obtain ⟨lead, _, hl, same, _, _⟩ := hm.starts_in hk hs hp he
  rw [hl, List.length_append] at same
  exact hb (List.length_eq_zero_iff.mp (by omega))

end Grammar

/-- A mark of the grammar stands in the characters, the first of them at byte `offset`. -/
def PlacedMark.At (p : PlacedMark) (g : Grammar) (offset : Nat) (cs : List Char) : Prop :=
  ∃ before after, cs = before ++ (p.mark.spelling ++ after) ∧
    p.start = offset + byteSize before ∧ p.stop = p.start + byteSize p.mark.spelling ∧
    g.Owns p.mark

namespace PlacedMark
variable {g : Grammar} {p : PlacedMark} {offset : Nat}

theorem not_at_nil : ¬p.At g offset [] := by
  rintro ⟨before, after, he, -⟩
  have spelled := (List.append_eq_nil_iff.mp (List.append_eq_nil_iff.mp he.symm).2).1
  exact p.mark.spelling_ne_nil spelled

theorem at_cons_iff {c : Char} {cs : List Char} (h : g.markAt? (c :: cs) = none) :
    p.At g offset (c :: cs) ↔ p.At g (offset + byteSize [c]) cs := by
  constructor
  · rintro ⟨before, after, he, hstart, hstop, hp⟩
    cases before with
    | nil =>
      have found := Grammar.markAt?_eq_some_iff.mpr ⟨hp, after, he⟩
      rw [h] at found
      cases found
    | cons b before =>
      obtain ⟨rfl, rfl⟩ := List.cons.inj he
      refine ⟨before, after, rfl, ?_, hstop, hp⟩
      rw [hstart, ← List.singleton_append, byteSize_append, Nat.add_assoc]
  · rintro ⟨before, after, rfl, hstart, hstop, hp⟩
    refine ⟨c :: before, after, rfl, ?_, hstop, hp⟩
    rw [hstart, ← List.singleton_append (l := before), byteSize_append, Nat.add_assoc]

theorem at_spelling_iff {m : Mark} (hm : g.Owns m) {rest : List Char} :
    p.At g offset (m.spelling ++ rest) ↔
      p = ⟨offset, offset + byteSize m.spelling, m⟩ ∨
        p.At g (offset + byteSize m.spelling) rest := by
  constructor
  · rintro ⟨before, after, he, hstart, hstop, hp⟩
    rcases List.append_eq_append_iff.mp he with ⟨inner, rfl, hi⟩ | ⟨part, hs, hi⟩
    · refine .inr ⟨inner, after, hi, ?_, hstop, hp⟩
      rw [hstart, byteSize_append, Nat.add_assoc]
    · by_cases hb : before = []
      · left
        rw [hb, List.nil_append] at hs he
        have here := Grammar.markAt?_eq_some_iff.mpr ⟨hm, rest, rfl⟩
        have same := Grammar.markAt?_eq_some_iff.mpr ⟨hp, after, he⟩
        obtain rfl := Option.some.inj (here.symm.trans same)
        obtain ⟨start, stop, mark⟩ := p
        rw [hb] at hstart
        obtain rfl : start = offset := hstart
        obtain rfl : stop = start + byteSize mark.spelling := hstop
        rfl
      · by_cases hpart : part = []
        · right
          rw [hpart, List.append_nil] at hs
          rw [hpart, List.nil_append] at hi
          exact ⟨[], after, hi.symm, by rw [hstart, hs]; rfl, hstop, hp⟩
        · exact absurd hi (hm.not_inside hp hs hb hpart)
  · rintro (rfl | ⟨before, after, rfl, hstart, hstop, hp⟩)
    · exact ⟨[], rest, rfl, rfl, rfl, hm⟩
    · refine ⟨m.spelling ++ before, after, (List.append_assoc _ _ _).symm, ?_, hstop, hp⟩
      rw [hstart, byteSize_append, Nat.add_assoc]

end PlacedMark

/-- The search meets every mark, whether it comes from a mark or from a failed attempt. A mark
begins with as many braces as its grammar asks for and no later part of it does, so none is hidden
in another. -/
theorem mem_placedFrom_iff {g : Grammar} {p : PlacedMark} {offset skip : Nat} {cs : List Char} :
    p ∈ placedFrom offset (g.piecesFrom skip cs) ↔ p.At g offset (cs.drop skip) := by
  induction cs generalizing offset skip with
  | nil => simp [Grammar.piecesFrom, placedFrom, PlacedMark.not_at_nil]
  | cons c cs ih =>
    cases skip with
    | succ skip => exact ih
    | zero =>
      unfold Grammar.piecesFrom
      split
      · rename_i m h
        obtain ⟨hm, rest, hrest⟩ := Grammar.markAt?_eq_some_iff.mp h
        have behind : cs.drop (m.spelling.length - 1) = rest := by
          cases hs : m.spelling with
          | nil => exact absurd hs m.spelling_ne_nil
          | cons x xs =>
            rw [hs] at hrest
            obtain ⟨_, rfl⟩ := List.cons.inj hrest
            simp
        rw [List.drop_zero, hrest, PlacedMark.at_spelling_iff hm, ← behind, ← ih]
        simp [placedFrom, Piece.spelling]
      · rename_i h
        rw [List.drop_zero, PlacedMark.at_cons_iff h, ← List.drop_zero (l := cs), ← ih]
        rfl

theorem placedFrom_start {offset : Nat} {ps : List Piece} {p : PlacedMark}
    (h : p ∈ placedFrom offset ps) : offset ≤ p.start := by
  induction ps generalizing offset with
  | nil => cases h
  | cons piece ps ih =>
    cases piece with
    | char c =>
      have later := ih h
      omega
    | mark m =>
      rcases List.mem_cons.mp h with rfl | h
      · exact Nat.le_refl _
      · have later := ih h
        omega

theorem placedFrom_pairwise (offset : Nat) (ps : List Piece) :
    (placedFrom offset ps).Pairwise (·.stop ≤ ·.start) := by
  induction ps generalizing offset with
  | nil => exact .nil
  | cons piece ps ih =>
    cases piece with
    | char c => exact ih _
    | mark m => exact .cons (fun _ h => placedFrom_start h) (ih _)

/-- A range of bytes of a text, the characters in it, and the groups seen in these. -/
structure Occurrence where
  start : Nat
  stop : Nat
  text : String
  groups : List String
  deriving DecidableEq, Repr

def PlacedMark.occurrence (p : PlacedMark) : Occurrence :=
  ⟨p.start, p.stop, p.mark.text, p.mark.parts⟩

/-- The occurrence is one of the grammar and stands in the text, wherever that may be. -/
def Occurrence.In (o : Occurrence) (g : Grammar) (text : String) : Prop :=
  ∃ before after, text = before ++ o.text ++ after ∧ o.start = before.utf8ByteSize ∧
    o.stop = o.start + o.text.utf8ByteSize ∧ g.Spells o.text o.groups

def Grammar.scan (g : Grammar) (text : String) : List Occurrence :=
  (g.marks text).map (·.occurrence)

/-- Resolves an occurrence by its grammar and its groups; `other` is left for groups of a shape
that the grammar does not have. -/
def Resolver.resolveGroups (r : Resolver) (m : Memo LookupKey) (other : Step Resolution)
    (g : Grammar) (o : Occurrence) : Step Resolution :=
  match g, o.groups with
  | .simple, [body] =>
    match SimpleToken.read o.text body with
    | .ok token => r.resolveSegments m token.segments
    | .error _ => ⟨.unresolved, [], m⟩
  | .namespaced, [context, field] =>
    match MetadataToken.read o.text context field with
    | .ok token => r.resolveMetadata m token
    | .error e => ⟨r.failed e.toFailure, [], m⟩
  | _, _ => other

namespace Grammar
variable {g : Grammar} {text : String} {o : Occurrence}

theorem in_iff : o.In g text ↔ ∃ p : PlacedMark, p.At g 0 text.toList ∧ p.occurrence = o := by
  constructor
  · rintro ⟨before, after, ht, hstart, hstop, hs⟩
    obtain ⟨m, hm, htext, hgroups⟩ := spells_iff.mp hs
    refine ⟨⟨o.start, o.stop, m⟩, ⟨before.toList, after.toList, ?_, ?_, ?_, hm⟩, ?_⟩
    · rw [ht, ← htext]
      simp [Mark.text]
    · rw [hstart, byteSize, String.ofList_toList, Nat.zero_add]
    · rw [hstop, ← htext]
      rfl
    · rw [PlacedMark.occurrence, htext, hgroups]
  · rintro ⟨p, ⟨before, after, ht, hstart, hstop, hp⟩, rfl⟩
    refine ⟨String.ofList before, String.ofList after, ?_, ?_, ?_, ?_⟩
    · simp [String.ext_iff, ht, PlacedMark.occurrence, Mark.text]
    · exact hstart.trans (Nat.zero_add _)
    · exact hstop
    · exact spells_iff.mpr ⟨p.mark, hp, rfl, rfl⟩

theorem mem_marks_iff {p : PlacedMark} : p ∈ g.marks text ↔ p.At g 0 text.toList :=
  mem_placedFrom_iff

theorem mem_scan_iff : o ∈ g.scan text ↔ o.In g text := by
  rw [in_iff, scan, List.mem_map]
  exact exists_congr fun p => and_congr_left' mem_marks_iff

theorem scan_pairwise (g : Grammar) (text : String) :
    (g.scan text).Pairwise (·.stop ≤ ·.start) :=
  List.pairwise_map.mpr (placedFrom_pairwise 0 (g.pieces text))

end Grammar

namespace Occurrence
variable {g : Grammar} {text : String} {o : Occurrence}

theorem In.start_lt_stop (h : o.In g text) : o.start < o.stop := by
  obtain ⟨_, _, _, _, hstop, hs⟩ := h
  have size : o.text.utf8ByteSize ≠ 0 := by
    rw [ne_eq, String.utf8ByteSize_eq_zero_iff]
    intro he
    obtain ⟨m, _, ht, _⟩ := Grammar.spells_iff.mp hs
    rw [he] at ht
    exact m.spelling_ne_nil (by simpa [Mark.text] using ht)
  omega

theorem In.bytes (h : o.In g text) : o.stop ≤ text.utf8ByteSize ∧
    String.Pos.Raw.IsValid text ⟨o.start⟩ ∧ String.Pos.Raw.IsValid text ⟨o.stop⟩ ∧
    text.toByteArray.extract o.start o.stop = o.text.toByteArray := by
  obtain ⟨before, after, ht, hstart, hstop, _⟩ := h
  refine ⟨?_, ?_, ?_, ?_⟩
  · rw [ht, String.utf8ByteSize_append, String.utf8ByteSize_append]
    omega
  · refine String.Pos.Raw.isValid_iff_exists_append.mpr ⟨before, o.text ++ after, ?_, ?_⟩
    · rw [ht, String.append_assoc]
    · exact String.Pos.Raw.ext hstart
  · refine String.Pos.Raw.isValid_iff_exists_append.mpr ⟨before ++ o.text, after, ht, ?_⟩
    apply String.Pos.Raw.ext
    rw [hstop, hstart, String.byteIdx_rawEndPos, String.utf8ByteSize_append]
  · have bytes : text.toByteArray =
        before.toByteArray ++ (o.text.toByteArray ++ after.toByteArray) := by
      rw [ht, String.append_assoc, String.toByteArray_append, String.toByteArray_append]
    have start : o.start = before.toByteArray.size + 0 := by simp [hstart]
    have stop : o.stop = before.toByteArray.size + o.text.toByteArray.size := by
      simp [hstop, hstart]
    rw [bytes, start, stop, ByteArray.extract_append_size_add]
    exact ByteArray.extract_append_eq_left rfl

end Occurrence

theorem Resolver.resolveGroups_occurrence (r : Resolver) (m : Memo LookupKey)
    (other : Step Resolution) {g : Grammar} {p : PlacedMark} (hp : g.Owns p.mark) :
    r.resolveGroups m other g p.occurrence = r.resolveMark m p.mark := by
  obtain ⟨start, stop, mark⟩ := p
  obtain ⟨body, rfl, rfl, -⟩ | ⟨context, field, rfl, rfl, -⟩ := hp.cases
  · unfold resolveGroups resolveMark
    cases h : SimpleToken.read (Mark.simple body).text body with
    | ok token => simp only [PlacedMark.occurrence, Mark.parts, h]
    | error e => simp only [PlacedMark.occurrence, Mark.parts, h]
  · unfold resolveGroups resolveMark
    cases h : MetadataToken.read (Mark.namespaced context field).text context field with
    | ok token => simp only [PlacedMark.occurrence, Mark.parts, h]
    | error e => simp only [PlacedMark.occurrence, Mark.parts, h]

/-- A scan of a text, compared with what the grammar makes of it. -/
structure Grammar.ScansExactly (g : Grammar) (text : String) : Prop where
  /-- Wherever two occurrences stand, they have no byte in common. -/
  apart : ∀ o p : Occurrence, o.In g text → p.In g text → o ≠ p →
    o.stop ≤ p.start ∨ p.stop ≤ o.start
  /-- All occurrences are found, and nothing else is. -/
  found : ∀ o, o ∈ g.scan text ↔ o.In g text
  /-- Each is found once, and none before one that stands further left. -/
  ordered : (g.scan text).Pairwise (·.start < ·.start)
  /-- What is found has a place between characters and is what stands there. -/
  placed : ∀ o ∈ g.scan text, o.start < o.stop ∧ o.stop ≤ text.utf8ByteSize ∧
    String.Pos.Raw.IsValid text ⟨o.start⟩ ∧ String.Pos.Raw.IsValid text ⟨o.stop⟩ ∧
    text.toByteArray.extract o.start o.stop = o.text.toByteArray
  /-- Its groups are of the shape that the grammar has, whatever were done with others. -/
  resolved : ∀ p ∈ g.marks text, ∀ (r : Resolver) (m : Memo LookupKey) (other : Step Resolution),
    r.resolveGroups m other g p.occurrence = r.resolveMark m p.mark

theorem Grammar.scan_exact (g : Grammar) (text : String) : g.ScansExactly text where
  apart o p ho hp hne := by
    let apart (o p : Occurrence) : Prop := o.stop ≤ p.start ∨ p.stop ≤ o.start
    have symm : Std.Symm apart := ⟨fun _ _ h => Or.symm h⟩
    have all : (g.scan text).Pairwise apart := (scan_pairwise g text).imp Or.inl
    exact all.forall (mem_scan_iff.mpr ho) (mem_scan_iff.mpr hp) hne
  found _ := mem_scan_iff
  ordered := by
    refine (scan_pairwise g text).imp_of_mem ?_
    intro o p ho _ h
    have long := (mem_scan_iff.mp ho).start_lt_stop
    omega
  placed o ho := ⟨(mem_scan_iff.mp ho).start_lt_stop, (mem_scan_iff.mp ho).bytes⟩
  resolved p hp r m other := by
    obtain ⟨_, _, _, _, _, owned⟩ := mem_marks_iff.mp hp
    exact r.resolveGroups_occurrence m other owned

end Placeholders
