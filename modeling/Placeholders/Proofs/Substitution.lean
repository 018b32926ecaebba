import Placeholders.Proofs.Layout
import Placeholders.Proofs.Splicing

namespace Placeholders

namespace Grammar
variable {g : Grammar} {m : Mark}

theorem markAt?_append {cs : List Char} (h : g.markAt? cs = some m) (more : List Char) :
    g.markAt? (cs ++ more) = some m := by
  obtain ⟨hm, rest, rfl⟩ := markAt?_eq_some_iff.mp h
  exact markAt?_eq_some_iff.mpr ⟨hm, rest ++ more, List.append_assoc _ _ _⟩

/-- No mark of the grammar begins before these characters and ends behind their start. -/
def Bars (g : Grammar) (tail : List Char) : Prop :=
  ∀ k before part after, g.Owns k → k.spelling = before ++ part → before ≠ [] → part ≠ [] →
    tail ≠ part ++ after

theorem Owns.bars (hm : g.Owns m) (rest : List Char) : g.Bars (m.spelling ++ rest) :=
  fun _ _ _ _ hk hs hb hp => hk.not_inside hm hs hb hp

/-- What bars marks completes nothing that was no mark without it. -/
theorem Bars.markAt? {tail : List Char} (ht : g.Bars tail) {c : Char} {cs : List Char}
    (h : g.markAt? (c :: cs) = none) : g.markAt? (c :: cs ++ tail) = none := by
  cases hk : g.markAt? (c :: cs ++ tail) with
  | none => rfl
  | some k =>
    obtain ⟨owned, behind, he⟩ := markAt?_eq_some_iff.mp hk
    have alone (inner : List Char) : c :: cs ≠ k.spelling ++ inner := by
      intro hc
      rw [markAt?_eq_some_iff.mpr ⟨owned, inner, hc⟩] at h
      cases h
    -- Either `tail` starts inside `k`, or `k` ends in front of it and was there without it.
    rcases List.append_eq_append_iff.mp he with ⟨part, hs, hr⟩ | ⟨inner, hs, _⟩
    · by_cases hp : part = []
      · rw [hp, List.append_nil] at hs
        exact absurd (hs.symm.trans (List.append_nil _).symm) (alone [])
      · exact absurd hr (ht k (c :: cs) part behind owned hs (List.cons_ne_nil c cs) hp)
    · exact absurd hs (alone inner)

theorem piecesFrom_of_mark {c : Char} {cs : List Char} (h : g.markAt? (c :: cs) = some m) :
    g.piecesFrom 0 (c :: cs) = .mark m :: g.piecesFrom (m.spelling.length - 1) cs := by
  simp [piecesFrom, h]

theorem piecesFrom_of_none {c : Char} {cs : List Char} (h : g.markAt? (c :: cs) = none) :
    g.piecesFrom 0 (c :: cs) = .char c :: g.piecesFrom 0 cs := by
  simp [piecesFrom, h]

theorem piecesFrom_drop (g : Grammar) (skip : Nat) (cs : List Char) :
    g.piecesFrom skip cs = g.piecesFrom 0 (cs.drop skip) := by
  induction cs generalizing skip with
  | nil => simp [piecesFrom]
  | cons c cs ih =>
    cases skip with
    | zero => rfl
    | succ skip => exact ih skip

theorem piecesFrom_spelling_append (hm : g.Owns m) (rest : List Char) :
    g.piecesFrom 0 (m.spelling ++ rest) = .mark m :: g.piecesFrom 0 rest := by
  have here := markAt?_eq_some_iff.mpr ⟨hm, rest, rfl⟩
  obtain ⟨c, cs, hs⟩ := List.exists_cons_of_ne_nil m.spelling_ne_nil
  rw [hs, List.cons_append] at here ⊢
  rw [piecesFrom_of_mark here, piecesFrom_drop, hs, List.length_cons, Nat.add_sub_cancel,
    List.drop_left]

/-- The search in front of what bars marks goes as if nothing followed. -/
theorem Bars.piecesFrom {tail : List Char} (ht : g.Bars tail) {skip : Nat} {cs : List Char}
    (hskip : skip ≤ cs.length) :
    g.piecesFrom skip (cs ++ tail) = g.piecesFrom skip cs ++ g.piecesFrom 0 tail := by
  induction cs generalizing skip with
  | nil =>
    obtain rfl : skip = 0 := Nat.le_zero.mp hskip
    rfl
  | cons c cs ih =>
    cases skip with
    | succ skip => exact ih (Nat.le_of_succ_le_succ hskip)
    | zero =>
      cases hk : g.markAt? (c :: cs) with
      | some k =>
        obtain ⟨behind, he⟩ := markAt?_spelling hk
        have fits : k.spelling.length - 1 ≤ cs.length := by
          have long := congrArg List.length he
          rw [List.length_cons, List.length_append] at long
          omega
        have whole := piecesFrom_of_mark (markAt?_append hk tail)
        rw [piecesFrom_of_mark hk, List.cons_append, List.cons_append, ← ih fits]
        exact whole
      | none =>
        have whole := piecesFrom_of_none (ht.markAt? hk)
        rw [piecesFrom_of_none hk, List.cons_append, List.cons_append, ← ih (Nat.zero_le _)]
        exact whole

theorem piecesFrom_append (hm : g.Owns m) (rest cs : List Char) :
    g.piecesFrom 0 (cs ++ (m.spelling ++ rest)) =
      g.piecesFrom 0 cs ++ .mark m :: g.piecesFrom 0 rest := by
  rw [(hm.bars rest).piecesFrom (Nat.zero_le _), piecesFrom_spelling_append hm]

def Free (g : Grammar) (text : String) : Prop :=
  ∀ before token after groups, text = before ++ token ++ after → ¬g.Spells token groups

theorem pieces_token {t : String} {groups : List String} (h : g.Spells t groups) (p s : String) :
    g.pieces (p ++ t ++ s) = g.pieces p ++ (g.pieces t ++ g.pieces s) := by
  obtain ⟨m, hm, rfl, -⟩ := spells_iff.mp h
  have alone : g.pieces m.text = [.mark m] := by
    have cut := piecesFrom_spelling_append hm []
    rw [List.append_nil] at cut
    rw [pieces, Mark.text, String.toList_ofList, cut]
    rfl
  have whole : (p ++ m.text ++ s).toList = p.toList ++ (m.spelling ++ s.toList) := by
    simp [Mark.text]
  rw [alone, pieces, whole, piecesFrom_append hm s.toList]
  rfl

theorem Free.marks_eq_nil {text : String} (h : g.Free text) : g.marks text = [] := by
  apply List.eq_nil_iff_forall_not_mem.mpr
  intro p hp
  obtain ⟨before, after, ht, -, -, hs⟩ := in_iff.mpr ⟨p, mem_marks_iff.mp hp, rfl⟩
  exact h before _ after _ ht hs

end Grammar

theorem eq_chars_of_markless {ps : List Piece} (h : ps.filterMap Piece.mark? = []) :
    ps = (ps.flatMap Piece.spelling).map .char := by
  induction ps with
  | nil => rfl
  | cons p ps ih =>
    cases p with
    | char c => exact congrArg (.char c :: ·) (ih h)
    | mark m => cases h

namespace Resolver

theorem fillPieces_append (r : Resolver) (m : Memo LookupKey) (ps qs : List Piece) :
    let first := r.fillPieces m ps
    let second := r.fillPieces first.memo qs
    r.fillPieces m (ps ++ qs) =
      ⟨first.result ++ second.result, first.queries ++ second.queries, second.memo⟩ := by
  induction ps generalizing m with
  | nil => rfl
  | cons p ps ih =>
    cases p with
    | char c =>
      simp only [List.cons_append, fillPieces, ih m]
    | mark mark =>
      simp only [List.cons_append, fillPieces, ih (r.resolveMark m mark).memo, List.append_assoc]

theorem fillPieces_chars (r : Resolver) (m : Memo LookupKey) (cs : List Char) :
    r.fillPieces m (cs.map .char) = ⟨cs, [], m⟩ := by
  induction cs with
  | nil => rfl
  | cons c cs ih => simp only [List.map_cons, fillPieces, ih]

/-- What is written for a text where nothing is kept, before a look at whether it is empty. -/
def written (r : Resolver) (g : Grammar) (text : String) : List Char :=
  (r.fill .empty g text).result

variable {r : Resolver} {m : Memo LookupKey} {g : Grammar}

theorem fill_without_history (ht : r.Trusts m) (g : Grammar) (text : String) :
    (r.fill m g text).result = r.written g text := by
  rw [written, fill_weave, fill_weave, slots_without_history ht,
    slots_without_history r.trusts_empty]

theorem fill_token {t : String} {groups : List String} (h : g.Spells t groups) (r : Resolver)
    (m : Memo LookupKey) (p s : String) :
    let first := r.fill m g p
    let second := r.fill first.memo g t
    let third := r.fill second.memo g s
    r.fill m g (p ++ t ++ s) = ⟨first.result ++ second.result ++ third.result,
      first.queries ++ second.queries ++ third.queries, third.memo⟩ := by
  simp only [fill, Grammar.pieces_token h, fillPieces_append, List.append_assoc]

theorem fill_free {text : String} (h : g.Free text) (r : Resolver) (m : Memo LookupKey) :
    r.fill m g text = ⟨text.toList, [], m⟩ := by
  have markless : (g.pieces text).filterMap Piece.mark? = [] := by
    rw [← Grammar.tokensIn_pieces, Grammar.tokensIn, h.marks_eq_nil]
    rfl
  rw [fill, eq_chars_of_markless markless, g.pieces_spelling]
  exact r.fillPieces_chars m _

theorem written_mark {mark : Mark} (h : g.Owns mark) (r : Resolver) :
    r.written g mark.text = r.slot mark := by
  have cut := Grammar.piecesFrom_spelling_append h []
  rw [List.append_nil] at cut
  rw [written, fill, Grammar.pieces, Mark.text, String.toList_ofList, cut]
  exact List.append_nil _

/-- What filling in comes to with a grammar, whatever the texts and whatever was filled in
before. -/
structure Composes (r : Resolver) (g : Grammar) : Prop where
  /-- A token stands for itself alone, and so does what stands before and behind it. -/
  apart : ∀ p t s groups, g.Spells t groups →
    r.written g (p ++ t ++ s) = r.written g p ++ r.written g t ++ r.written g s
  /-- In one session the parts may be filled in one after the other. -/
  inTurn : ∀ past p t s groups, g.Spells t groups →
    let m := ((Session.start r).after past).memo
    let first := r.fill m g p
    let second := r.fill first.memo g t
    let third := r.fill second.memo g s
    (first.result = r.written g p ∧ second.result = r.written g t ∧
      third.result = r.written g s) ∧
    r.fill m g (p ++ t ++ s) = ⟨first.result ++ second.result ++ third.result,
      first.queries ++ second.queries ++ third.queries, third.memo⟩
  /-- Without tokens nothing is asked, kept or changed. -/
  copied : ∀ text m, g.Free text → r.fill m g text = ⟨text.toList, [], m⟩
  /-- Gaps stay, and between them each token has its own text, which is not searched. -/
  woven : ∀ text, (g.gaps text).length = (g.scan text).length + 1 ∧
    text.toList = weave (g.gaps text) ((g.scan text).map (·.text.toList)) ∧
    r.written g text = weave (g.gaps text) ((g.scan text).map fun o => r.written g o.text)
  verbatim : ∀ mark value, g.Owns mark → (r.resolveMark .empty mark).result = .resolved value →
    r.written g mark.text = value.toList
  /-- A call returns what is written, or the text where that is empty. -/
  returned : ∀ past c, let s := (Session.start r).after past
    s.grammarOf c = g → (s.fill c).result = (if r.written g c.text = [] then c.text
      else String.ofList (r.written g c.text)) ∧ ((s.fill c).result = "" ↔ c.text = "")
  /-- What is filled in is put together from slices of the text between its occurrences, none of
  which cuts a character, and from what these are resolved to. -/
  spliced : ∀ text m, let filled := r.fill m g text
    r.splice? m g text = some ⟨String.ofList filled.result, filled.queries, filled.memo⟩
  called : ∀ (s : Session) c, s.resolver = r → s.grammarOf c = g → s.splice? c = some (s.fill c)

theorem fill_trusts (ht : r.Trusts m) (g : Grammar) (text : String) :
    r.Trusts (r.fill m g text).memo :=
  fillPieces_trusts ht _

theorem written_token {t : String} {groups : List String} (h : g.Spells t groups) (r : Resolver)
    (p s : String) :
    r.written g (p ++ t ++ s) = r.written g p ++ r.written g t ++ r.written g s := by
  have whole := congrArg Step.result (fill_token h r .empty p s)
  have first := fill_trusts r.trusts_empty g p
  have second := fill_trusts first g t
  dsimp only at whole
  rw [fill_without_history first, fill_without_history second] at whole
  exact whole

theorem written_weave (r : Resolver) (g : Grammar) (text : String) :
    r.written g text =
      weave (g.gaps text) ((g.scan text).map fun o => r.written g o.text) := by
  have slots : (g.tokensIn text).map r.slot = (g.scan text).map fun o => r.written g o.text := by
    rw [Grammar.scan, Grammar.tokensIn, List.map_map, List.map_map]
    apply List.map_congr_left
    intro p hp
    exact (written_mark (Grammar.owns_of_mem_tokensIn (List.mem_map_of_mem hp)) r).symm
  rw [written, fill_weave, slots_without_history r.trusts_empty, slots]

theorem fill_returned (r : Resolver) (past : List Call) (c : Call) :
    let s := (Session.start r).after past
    let out := r.written (s.grammarOf c) c.text
    (s.fill c).result = (if out = [] then c.text else String.ofList out) ∧
      ((s.fill c).result = "" ↔ c.text = "") := by
  intro s out
  have filled : weave ((s.grammarOf c).gaps c.text) (s.slots c) = out := by
    have slots : s.slots c = _ := Session.slots_after r past c
    rw [slots, ← slots_without_history r.trusts_empty]
    exact (r.fill_weave .empty _ _).symm
  have result : (s.fill c).result = if out = [] then c.text else String.ofList out := by
    rw [← filled]
    exact s.fill_laidOut c
  refine ⟨result, ?_⟩
  rw [result]
  by_cases ho : out = []
  · simp [ho]
  · have full : c.text ≠ "" := by
      intro ht
      apply ho
      simp only [out, ht]
      rfl
    simp [ho, full]

/-- Filling in is compositional. -/
theorem fill_composes (r : Resolver) (g : Grammar) : r.Composes g where
  apart p t s groups h := written_token h r p s
  inTurn past p t s groups h := by
    intro m first second third
    have trusted := Session.start_after_trusts r past
    have behind := fill_trusts trusted g p
    have last := fill_trusts behind g t
    exact ⟨⟨fill_without_history trusted g p, fill_without_history behind g t,
      fill_without_history last g s⟩, fill_token h r m p s⟩
  copied text m h := fill_free h r m
  woven text := by
    refine ⟨?_, ?_, r.written_weave g text⟩
    · rw [g.gaps_length, Grammar.scan, Grammar.tokensIn, List.length_map, List.length_map]
    · have spelled : (g.scan text).map (·.text.toList) = (g.tokensIn text).map Mark.spelling := by
        simp [Grammar.scan, Grammar.tokensIn, PlacedMark.occurrence, Mark.text]
      rw [spelled]
      exact g.text_weave text
  verbatim mark value hm hv := by
    rw [written_mark hm, slot, hv]
    rfl
  returned past c := by
    intro s hg
    rw [← hg]
    exact r.fill_returned past c
  spliced text m := r.splice?_eq_fill m g text
  called s c _ _ := s.splice?_eq_fill c

/-- An address that is spelled like a token stays one, and so does what braces make of it. -/
example :
    let r : Resolver :=
      { store := { accounts := [{ id := 2, email := "\x7bUSER_ID\x7d" }] }
        audience := .english (.signedIn 2) none }
    r.written .simple "\x7b\x7bUSER_EMAIL\x7d\x7b" = "\x7b\x7bUSER_ID\x7d\x7b".toList := by
  decide +kernel

end Resolver

end Placeholders
