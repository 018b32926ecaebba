import Placeholders.Proofs.Substitution

namespace Placeholders

namespace Grammar
variable {g : Grammar} {m k : Mark}

def other : Grammar → Grammar
  | .simple => .namespaced
  | .namespaced => .simple

theorem other_other (g : Grammar) : g.other.other = g := by
  cases g <;> rfl

/-- A simple mark cannot take the second brace of an opening: a colon ends the word behind it. -/
theorem not_simple_second_brace (cs : List Char) :
    simpleMarkAt? ('{' :: (opening.drop 2 ++ cs)) = none := rfl

/-- No mark starts inside a mark of the other grammar, its first character included. -/
theorem Owns.not_in_other (hm : g.Owns m) (hk : g.other.Owns k)
    {before part after rest : List Char} (hs : k.spelling = before ++ part) (hp : part ≠ []) :
    m.spelling ++ after ≠ part ++ rest := by
  intro he
  obtain ⟨lead, tail, hl, same, spelled, rfl⟩ := hk.starts_in hm hs hp he
  have size := congrArg List.length hl
  rw [List.length_append, same] at size
  cases g with
  | namespaced =>
    simp only [other, Grammar.lead, List.length_cons, List.length_nil] at size
    omega
  | simple =>
    obtain ⟨_, hg, _⟩ | ⟨context, field, _, rfl, _, _⟩ := hk.cases
    · cases hg
    · have brace : lead = ['{'] := by
        have one : before.length = 1 := by
          simp only [other, Grammar.lead, List.length_cons, List.length_nil] at size
          omega
        obtain ⟨b, rfl⟩ := List.length_eq_one_iff.mp one
        cases hl
        rfl
      have behind : tail = opening.drop 2 ++
          (context.toList ++ (separator ++ (field.toList ++ closing))) := by
        apply List.append_cancel_left
        exact spelled.symm
      have found : Grammar.simple.markAt? (lead ++ tail ++ rest) = some m :=
        markAt?_eq_some_iff.mpr ⟨hm, after, he.symm⟩
      rw [brace, behind, List.append_assoc, List.append_assoc] at found
      cases found.symm.trans (not_simple_second_brace _)

theorem Owns.of_other_other (hm : g.Owns m) : g.other.other.Owns m := by
  rwa [other_other]

theorem Owns.bars_other (hk : g.other.Owns k) (rest : List Char) : g.Bars (k.spelling ++ rest) :=
  fun _ _ _ _ hm hs _ hp => hk.not_in_other hm.of_other_other hs hp

/-- Of two marks of different grammars, the one that starts first also ends first. -/
theorem Owns.stops_before (hm : g.Owns m) (hk : g.other.Owns k) {inner after rest : List Char}
    (he : k.spelling ++ after = inner ++ (m.spelling ++ rest)) :
    byteSize k.spelling ≤ byteSize inner := by
  rcases List.append_eq_append_iff.mp he with ⟨more, hi, _⟩ | ⟨part, hs, hr⟩
  · rw [hi, byteSize_append]
    exact Nat.le_add_right _ _
  · by_cases hp : part = []
    · rw [hs, hp, List.append_nil]
    · exact absurd hr (hm.not_in_other hk hs hp)

theorem piecesFrom_in_other (hk : g.other.Owns k) (rest : List Char) {before part : List Char}
    (hs : k.spelling = before ++ part) :
    g.piecesFrom 0 (part ++ rest) = part.map .char ++ g.piecesFrom 0 rest := by
  induction part generalizing before with
  | nil => rfl
  | cons c part ih =>
    have none : g.markAt? (c :: (part ++ rest)) = none := by
      cases hm : g.markAt? (c :: (part ++ rest)) with
      | none => rfl
      | some m =>
        obtain ⟨owned, after, he⟩ := markAt?_eq_some_iff.mp hm
        exact absurd he.symm (owned.not_in_other hk hs (List.cons_ne_nil c part))
    have next : k.spelling = (before ++ [c]) ++ part := by simp [hs]
    rw [List.cons_append, piecesFrom_of_none none, ih next]
    rfl

theorem pieces_other {t : String} {groups : List String} (h : g.other.Spells t groups)
    (p s : String) :
    g.pieces (p ++ t ++ s) = g.pieces p ++ (t.toList.map .char ++ g.pieces s) := by
  obtain ⟨k, hk, rfl, -⟩ := spells_iff.mp h
  have whole : (p ++ k.text ++ s).toList = p.toList ++ (k.spelling ++ s.toList) := by
    simp [Mark.text]
  rw [pieces, whole, (hk.bars_other _).piecesFrom (Nat.zero_le _),
    piecesFrom_in_other hk s.toList (List.nil_append _).symm, Mark.text, String.toList_ofList]
  rfl

end Grammar

section Layout

/-- All that is woven before gap `i`, and all behind it. -/
def weaveBefore (i : Nat) (gaps slots : List (List Char)) : List Char :=
  weave (gaps.take i) (slots.take i)

def weaveBehind (i : Nat) (gaps slots : List (List Char)) : List Char :=
  weave ([] :: gaps.drop (i + 1)) (slots.drop i)

theorem weave_at {gaps slots : List (List Char)} {i : Nat} {gap : List Char}
    (hl : gaps.length = slots.length + 1) (h : gaps[i]? = some gap) :
    weave gaps slots = weaveBefore i gaps slots ++ (gap ++ weaveBehind i gaps slots) := by
  induction i generalizing gaps slots with
  | zero =>
    cases gaps with
    | nil => cases h
    | cons first gaps =>
      obtain rfl : first = gap := by simpa using h
      cases slots with
      | nil => simp [weave, weaveBefore, weaveBehind]
      | cons slot slots => simp [weave, weaveBefore, weaveBehind]
  | succ i ih =>
    cases gaps with
    | nil => cases h
    | cons first gaps =>
      cases slots with
      | nil => simp at hl; simp [hl] at h
      | cons slot slots =>
        have rest : weave gaps slots =
            weaveBefore i gaps slots ++ (gap ++ weaveBehind i gaps slots) :=
          ih (by simpa using hl) (by simpa using h)
        simp [weave, rest, weaveBefore, weaveBehind]

theorem gapsOf_chars_append (cs : List Char) (qs : List Piece) :
    gapsOf (cs.map .char ++ qs) = (gapsOf qs).modifyHead (cs ++ ·) := by
  induction cs with
  | nil =>
    obtain ⟨gap, gaps, hg⟩ := List.exists_cons_of_ne_nil (gapsOf_ne_nil qs)
    simp [hg]
  | cons c cs ih =>
    obtain ⟨gap, gaps, hg⟩ := List.exists_cons_of_ne_nil (gapsOf_ne_nil qs)
    rw [List.map_cons, List.cons_append, gapsOf, ih, hg]
    rfl

/-- Characters lie in the gap behind the marks before them, and in it behind what these leave of
the pieces before. -/
theorem gapsOf_around (ps qs : List Piece) (cs : List Char) :
    let gaps := gapsOf (ps ++ (cs.map .char ++ qs))
    let i := (ps.filterMap Piece.mark?).length
    ∃ pre post, gaps[i]? = some (pre ++ (cs ++ post)) ∧
      ∀ slots : List (List Char), i ≤ slots.length →
        weaveBefore i gaps slots ++ pre = weave (gapsOf ps) (slots.take i) := by
  induction ps with
  | nil =>
    obtain ⟨gap, gaps, hg⟩ := List.exists_cons_of_ne_nil (gapsOf_ne_nil qs)
    refine ⟨[], gap, ?_, fun slots _ => by simp [weaveBefore, weave, gapsOf]⟩
    rw [List.nil_append, gapsOf_chars_append, hg]
    rfl
  | cons p ps ih =>
    obtain ⟨pre, post, hi, before⟩ := ih
    cases p with
    | char c =>
      obtain ⟨first, gaps, hg⟩ := List.exists_cons_of_ne_nil
        (gapsOf_ne_nil (ps ++ (cs.map .char ++ qs)))
      have marks : (Piece.char c :: ps).filterMap Piece.mark? = ps.filterMap Piece.mark? := rfl
      have longer : gapsOf (.char c :: ps ++ (cs.map .char ++ qs)) = (c :: first) :: gaps := by
        rw [List.cons_append, gapsOf, hg]
        rfl
      have grown (slots : List (List Char)) := (weave_gapsOf ps slots).1 c
      rw [hg] at hi before
      simp only [marks, longer, grown]
      -- The character goes to the gap itself if no mark stands before it, else to the first one.
      cases hn : (ps.filterMap Piece.mark?).length with
      | zero =>
        rw [hn] at hi before
        obtain rfl : first = pre ++ (cs ++ post) := by simpa using hi
        exact ⟨c :: pre, post, rfl, fun slots hs => congrArg (c :: ·) (before slots hs)⟩
      | succ n =>
        rw [hn] at hi before
        refine ⟨pre, post, by simpa using hi, fun slots hs => ?_⟩
        cases slots with
        | nil => cases hs
        | cons slot slots =>
          rw [← before (slot :: slots) hs]
          rfl
    | mark m =>
      refine ⟨pre, post, hi, fun slots hs => ?_⟩
      cases slots with
      | nil => cases hs
      | cons slot slots =>
        have rest := before slots (Nat.le_of_succ_le_succ hs)
        have taken : (slot :: slots).take ((Piece.mark m :: ps).filterMap Piece.mark?).length =
            slot :: slots.take (ps.filterMap Piece.mark?).length := rfl
        rw [taken, (weave_gapsOf ps _).2 m slot, ← rest]
        exact List.append_assoc slot _ pre

end Layout

namespace Resolver

def fillEach (r : Resolver) (g : Grammar) : Memo LookupKey → List (List Char) → List (List Char)
  | _, [] => []
  | m, text :: texts =>
    let step := r.fill m g (String.ofList text)
    step.result :: r.fillEach g step.memo texts

variable {g : Grammar}

/-- A token of the other grammar stays, and the text is filled in on both sides of it. -/
theorem fill_other {t : String} {groups : List String} (h : g.other.Spells t groups)
    (r : Resolver) (m : Memo LookupKey) (p s : String) :
    let first := r.fill m g p
    let second := r.fill first.memo g s
    r.fill m g (p ++ t ++ s) = ⟨first.result ++ (t.toList ++ second.result),
      first.queries ++ second.queries, second.memo⟩ := by
  simp only [fill, Grammar.pieces_other h, fillPieces_append, fillPieces_chars, List.nil_append]

theorem fill_weave_other (r : Resolver) {marks : List Mark} (hm : ∀ k ∈ marks, g.other.Owns k)
    {gaps : List (List Char)} (hl : gaps.length = marks.length + 1) (m : Memo LookupKey) :
    (r.fill m g (String.ofList (weave gaps (marks.map Mark.spelling)))).result =
      weave (r.fillEach g m gaps) (marks.map Mark.spelling) := by
  induction marks generalizing gaps m with
  | nil =>
    obtain ⟨gap, rfl⟩ := List.length_eq_one_iff.mp hl
    simp [weave, fillEach]
  | cons k marks ih =>
    obtain ⟨own, others⟩ := List.forall_mem_cons.mp hm
    cases gaps with
    | nil => cases hl
    | cons gap gaps =>
      have token := Grammar.spells_iff.mpr ⟨k, own, rfl, rfl⟩
      have cut : String.ofList (weave (gap :: gaps) ((k :: marks).map Mark.spelling)) =
          String.ofList gap ++ k.text ++ String.ofList (weave gaps (marks.map Mark.spelling)) := by
        simp [weave, Mark.text, String.ext_iff]
      rw [cut, fill_other token, ih others (Nat.succ.inj hl)]
      simp [weave, fillEach, Mark.text]

end Resolver

theorem PlacedMark.At.apart {g : Grammar} {p q : PlacedMark} {cs : List Char} (hp : p.At g 0 cs)
    (hq : q.At g.other 0 cs) : p.stop ≤ q.start ∨ q.stop ≤ p.start := by
  obtain ⟨before, after, rfl, hstart, hstop, own⟩ := hp
  obtain ⟨before', after', he, hstart', hstop', own'⟩ := hq
  rw [hstop, hstop', hstart, hstart']
  rcases List.append_eq_append_iff.mp he with ⟨inner, rfl, hi⟩ | ⟨inner, rfl, hi⟩
  · have first := own'.stops_before own.of_other_other hi
    rw [byteSize_append]
    omega
  · have first := own.stops_before own' hi
    rw [byteSize_append]
    omega

namespace Grammar
variable {g : Grammar}

theorem scan_spelled (g : Grammar) (text : String) :
    (g.scan text).map (·.text.toList) = (g.tokensIn text).map Mark.spelling := by
  simp [scan, tokensIn, PlacedMark.occurrence, Mark.text]

theorem tokensIn_other {t : String} {groups : List String} (h : g.other.Spells t groups)
    (p s : String) : g.tokensIn (p ++ t ++ s) = g.tokensIn p ++ g.tokensIn s := by
  have none : (t.toList.map Piece.char).filterMap Piece.mark? = [] := by simp [Piece.mark?]
  simp only [tokensIn_pieces, pieces_other h, List.filterMap_append, none, List.nil_append]

theorem in_gap {t : String} {groups : List String} (h : g.other.Spells t groups) (p s : String) :
    ∃ i pre post, (g.gaps (p ++ t ++ s))[i]? = some (pre ++ (t.toList ++ post)) ∧
      weaveBefore i (g.gaps (p ++ t ++ s)) ((g.tokensIn (p ++ t ++ s)).map Mark.spelling) ++ pre =
        p.toList := by
  obtain ⟨pre, post, hi, front⟩ := gapsOf_around (g.pieces p) (g.pieces s) t.toList
  rw [gaps, pieces_other h, tokensIn_other h, List.map_append]
  rw [← tokensIn_pieces] at hi front
  refine ⟨_, pre, post, hi, ?_⟩
  have long : ((g.tokensIn p).map Mark.spelling).length = (g.tokensIn p).length := List.length_map _
  rw [front, List.take_left' long]
  · exact (g.text_weave p).symm
  · rw [List.length_append, long]
    exact Nat.le_add_right _ _

/-- What marks of the other grammar are to a pass for this one. -/
structure Coexists (g : Grammar) (text : String) : Prop where
  /-- No mark of one grammar shares a byte with a mark of the other. -/
  apart : ∀ o ∈ g.scan text, ∀ p ∈ g.other.scan text, o.stop ≤ p.start ∨ p.stop ≤ o.start
  /-- A token of the other grammar lies in one gap, at its place there, and that gap is written
  as it is. -/
  inGap : ∀ o ∈ g.other.scan text, ∃ i pre post,
    (g.gaps text)[i]? = some (pre ++ (o.text.toList ++ post)) ∧
    o.start = byteSize
      (weaveBefore i (g.gaps text) ((g.scan text).map (·.text.toList)) ++ pre) ∧
    ∀ (r : Resolver) m, let slots := r.slots m (g.tokensIn text)
      (r.fill m g text).result = weaveBefore i (g.gaps text) slots ++
        (pre ++ (o.text.toList ++ post) ++ weaveBehind i (g.gaps text) slots)
  /-- In front of a token of the other grammar, and behind it, the text is filled in as if it
  were alone. -/
  cut : ∀ before token after groups, g.other.Spells token groups →
    text = before ++ token ++ after → ∀ (r : Resolver) m,
      let first := r.fill m g before
      let second := r.fill first.memo g after
      r.fill m g text = ⟨first.result ++ (token.toList ++ second.result),
        first.queries ++ second.queries, second.memo⟩
  /-- All tokens of the other grammar stay, in their order, with what is between them filled in
  from left to right. -/
  woven : ∀ (r : Resolver) m, (r.fill m g text).result =
    weave (r.fillEach g m (g.other.gaps text)) ((g.other.scan text).map (·.text.toList))

theorem coexists (g : Grammar) (text : String) : g.Coexists text where
  apart o ho p hp := by
    obtain ⟨q, hq, rfl⟩ := List.mem_map.mp ho
    obtain ⟨q', hq', rfl⟩ := List.mem_map.mp hp
    exact (mem_marks_iff.mp hq).apart (mem_marks_iff.mp hq')
  inGap o ho := by
    obtain ⟨before, after, ht, hstart, _, hs⟩ := mem_scan_iff.mp ho
    obtain ⟨i, pre, post, hi, front⟩ := in_gap hs before after
    rw [← ht] at hi front
    refine ⟨i, pre, post, hi, ?_, fun r m => ?_⟩
    · rw [scan_spelled, front, byteSize, String.ofList_toList, hstart]
    · rw [r.fill_weave]
      have long : (g.gaps text).length = (r.slots m (g.tokensIn text)).length + 1 := by
        rw [g.gaps_length, r.slots_length]
      exact weave_at long hi
  cut before token after groups h ht r m := by
    subst ht
    exact r.fill_other h m before after
  woven r m := by
    have own : ∀ k ∈ g.other.tokensIn text, g.other.Owns k := fun k hk => owns_of_mem_tokensIn hk
    have laid := r.fill_weave_other own (g.other.gaps_length text) m
    rw [← g.other.text_weave, String.ofList_toList] at laid
    rw [laid, scan_spelled]

end Grammar

end Placeholders
