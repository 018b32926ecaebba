import Mathlib.Data.List.DropRight
import Placeholders.Token
import Placeholders.Proofs.Passage

namespace Placeholders

/-- A body as the pieces between its underscores. -/
structure CutsInto (body : String) (pieces : List String) : Prop where
  some : pieces ≠ []
  free : ∀ piece ∈ pieces, '_' ∉ piece.toList
  joined : String.intercalate "_" pieces = body

namespace Text
variable {s : String}

theorem map_trimmed_of_bare {texts : List String} (h : ∀ s ∈ texts, Bare s) :
    texts.map trimmed = texts := by
  rw [List.map_congr_left fun s hs => trimmed_of_bare (h s hs)]
  exact List.map_id texts

theorem trimmed_eq_empty_iff : trimmed s = "" ↔ ∀ c ∈ s.toList, isBlank c = true := by
  rw [trimmed, String.ofList_eq_empty_iff, trim, trimEnd, List.reverse_eq_nil_iff,
    List.dropWhile_eq_nil_iff, trimStart]
  simp only [List.mem_reverse]
  constructor
  · intro h
    have none : (s.toList.dropWhile isBlank).dropWhile isBlank = [] :=
      List.dropWhile_eq_nil_iff.mpr h
    rw [List.dropWhile_idempotent] at none
    exact List.dropWhile_eq_nil_iff.mp none
  · intro h c hc
    exact h c ((List.dropWhile_suffix isBlank).subset hc)

end Text

theorem splitAtFirst_of_not_mem {mark : Char} {cs : List Char} (h : mark ∉ cs) :
    splitAtFirst [mark] cs = (cs, []) := by
  apply splitAtFirst_of_not_infix
  intro inside
  exact h (inside.subset List.mem_cons_self)

theorem splitAtFirst_append_cons {mark : Char} {front : List Char} (h : mark ∉ front)
    (back : List Char) : splitAtFirst [mark] (front ++ mark :: back) = (front, mark :: back) := by
  apply splitAtFirst_of_firstBehind
  refine ⟨⟨back, rfl⟩, ?_⟩
  intro before after he
  rcases List.append_eq_append_iff.mp he with ⟨between, rfl, _⟩ | ⟨between, rfl, inner⟩
  · simp
  · cases between with
    | nil => simp
    | cons c cs =>
      obtain rfl := (List.cons.inj inner).1
      exact absurd (List.mem_append_right before List.mem_cons_self) h

namespace Cursor

theorem segments_last {cs : List Char} (h : '_' ∉ cs) :
    segments ⟨cs⟩ = [Text.trimmed (String.ofList cs)] := by
  have found : takeUntil ⟨cs⟩ "_" = (String.ofList cs, ⟨[]⟩) := by
    simp [takeUntil, splitAtFirst_of_not_mem h]
  rw [segments, found]
  rfl

/-- A piece ends at the first underscore, behind which reading goes on. -/
theorem segments_next {front : List Char} (h : '_' ∉ front) (back : List Char) :
    segments ⟨front ++ '_' :: back⟩ = Text.trimmed (String.ofList front) :: segments ⟨back⟩ := by
  have found : takeUntil ⟨front ++ '_' :: back⟩ "_" = (String.ofList front, ⟨'_' :: back⟩) := by
    simp [takeUntil, splitAtFirst_append_cons h]
  have passed : skipText ⟨'_' :: back⟩ "_" = (true, ⟨back⟩) := rfl
  rw [segments, found]
  dsimp only
  rw [passed]
  rfl

/-- Pieces without underscores, joined by them, are read one after the other. -/
theorem segments_intercalate {pieces : List (List Char)} (some : pieces ≠ [])
    (free : ∀ piece ∈ pieces, '_' ∉ piece) :
    segments ⟨['_'].intercalate pieces⟩ =
      pieces.map fun piece => Text.trimmed (String.ofList piece) := by
  induction pieces with
  | nil => exact absurd rfl some
  | cons piece more ih =>
    have first : '_' ∉ piece := free piece List.mem_cons_self
    cases more with
    | nil =>
      rw [List.intercalate_singleton]
      exact segments_last first
    | cons next more =>
      have rest := ih (by simp) fun p hp => free p (List.mem_cons_of_mem piece hp)
      rw [List.intercalate_cons_cons, List.append_assoc, List.map_cons, ← rest]
      exact segments_next first _

end Cursor

theorem mem_of_mem_splitOn {α : Type} [DecidableEq α] {mark : α} {xs piece : List α}
    (hp : piece ∈ xs.splitOn mark) {a : α} (ha : a ∈ piece) : a ∈ xs ∧ a ≠ mark := by
  induction xs generalizing piece with
  | nil =>
    rw [List.splitOn_nil, List.mem_singleton] at hp
    rw [hp] at ha
    cases ha
  | cons x xs ih =>
    rw [List.splitOn_cons_eq_if_modifyHead] at hp
    split at hp
    · rcases List.mem_cons.mp hp with rfl | hp
      · cases ha
      · exact (ih hp ha).imp_left (List.mem_cons_of_mem x)
    · rename_i hx
      obtain ⟨first, more, hs⟩ := List.exists_cons_of_ne_nil (List.splitOn_ne_nil mark xs)
      rw [hs, List.modifyHead_cons] at hp
      rcases List.mem_cons.mp hp with rfl | hp
      · rcases List.mem_cons.mp ha with rfl | ha
        · exact ⟨List.mem_cons_self, fun he => hx (beq_iff_eq.mpr he)⟩
        · have head : first ∈ xs.splitOn mark := by simp [hs]
          exact (ih head ha).imp_left (List.mem_cons_of_mem x)
      · have tail : piece ∈ xs.splitOn mark := by simp [hs, hp]
        exact (ih tail ha).imp_left (List.mem_cons_of_mem x)

theorem not_mem_of_mem_splitOn {α : Type} [DecidableEq α] {mark : α} {xs piece : List α}
    (hp : piece ∈ xs.splitOn mark) : mark ∉ piece :=
  fun hm => (mem_of_mem_splitOn hp hm).2 rfl

/-- The loop over a body splits it at its underscores. -/
theorem segmentsOf_eq_map_splitOn (body : String) :
    segmentsOf body =
      (body.toList.splitOn '_').map fun piece => String.ofList (Text.trim piece) := by
  have read := Cursor.segments_intercalate (List.splitOn_ne_nil '_' body.toList)
    fun piece hp => not_mem_of_mem_splitOn hp
  rw [List.intercalate_splitOn] at read
  simpa only [segmentsOf, Cursor.ofString, Text.trimmed, String.toList_ofList] using read

namespace CutsInto
variable {body : String} {pieces : List String}

theorem splitOn (h : CutsInto body pieces) :
    body.toList.splitOn '_' = pieces.map String.toList := by
  obtain ⟨some, free, rfl⟩ := h
  rw [String.toList_intercalate]
  exact List.splitOn_intercalate '_' (by simpa using free) (by simpa using some)

theorem unique (h : CutsInto body pieces) {other : List String} (ho : CutsInto body other) :
    other = pieces :=
  (List.map_inj_right fun _ _ => String.toList_injective).mp (ho.splitOn.symm.trans h.splitOn)

theorem of_splitOn (body : String) :
    CutsInto body ((body.toList.splitOn '_').map String.ofList) := by
  refine ⟨?_, ?_, ?_⟩
  · simp [List.splitOn_ne_nil]
  · simp only [List.forall_mem_map, String.toList_ofList]
    exact fun piece hp => not_mem_of_mem_splitOn hp
  · apply String.toList_injective
    simp [String.toList_intercalate, List.map_map, Function.comp_def, List.intercalate_splitOn]

theorem exists_cut (body : String) : ∃ pieces, CutsInto body pieces :=
  ⟨_, of_splitOn body⟩

theorem segmentsOf (h : CutsInto body pieces) :
    segmentsOf body = pieces.map Text.trimmed := by
  rw [segmentsOf_eq_map_splitOn, h.splitOn, List.map_map]
  rfl

/-- Where no piece has blanks around it, the segments with underscores between them are the body. -/
theorem restored (h : CutsInto body pieces) (bare : ∀ piece ∈ pieces, Text.Bare piece) :
    String.intercalate "_" (Placeholders.segmentsOf body) = body := by
  rw [h.segmentsOf, Text.map_trimmed_of_bare bare, h.joined]

/-- Between any two pieces there is one underscore. -/
theorem length (h : CutsInto body pieces) : pieces.length = body.toList.count '_' + 1 := by
  obtain ⟨some, free, rfl⟩ := h
  induction pieces with
  | nil => exact absurd rfl some
  | cons piece more ih =>
    have first : piece.toList.count '_' = 0 :=
      List.count_eq_zero.mpr (free piece List.mem_cons_self)
    cases more with
    | nil => simp [first]
    | cons next more =>
      have rest := ih (by simp) fun p hp => free p (List.mem_cons_of_mem piece hp)
      rw [List.length_cons, rest, String.intercalate_cons_cons]
      simp [first]

end CutsInto

theorem intercalate_segmentsOf {body : String} (plain : ∀ c ∈ body.toList, Text.isBlank c = false) :
    String.intercalate "_" (segmentsOf body) = body := by
  refine (CutsInto.of_splitOn body).restored ?_
  simp only [List.forall_mem_map]
  intro piece hp
  apply Text.bare_of_no_blank
  intro c hc
  rw [String.toList_ofList] at hc
  exact plain c (mem_of_mem_splitOn hp hc).1

theorem segmentsOf_word {word : String} (free : '_' ∉ word.toList)
    (bare : Text.trimmed word = word) : segmentsOf word = [word] := by
  rw [segmentsOf, Cursor.ofString, Cursor.segments_last free, String.ofList_toList, bare]

/-- An underscore parts the segments before it from those behind. -/
theorem segmentsOf_append (front back : String) :
    segmentsOf (front ++ "_" ++ back) = segmentsOf front ++ segmentsOf back := by
  have parted : (front ++ "_" ++ back).toList = front.toList ++ '_' :: back.toList := by simp
  rw [segmentsOf_eq_map_splitOn, parted, List.splitOn_append_cons_self, List.map_append,
    segmentsOf_eq_map_splitOn, segmentsOf_eq_map_splitOn]

theorem segmentsOf_word_append {word : String} (free : '_' ∉ word.toList)
    (bare : Text.trimmed word = word) (back : String) :
    segmentsOf (word ++ "_" ++ back) = word :: segmentsOf back := by
  rw [segmentsOf_append, segmentsOf_word free bare, List.singleton_append]

theorem headD_segmentsOf (body : String) : (segmentsOf body).headD "" =
    Text.trimmed (String.ofList (body.toList.takeWhile (· ≠ '_'))) := by
  rw [segmentsOf, Cursor.ofString]
  by_cases h : '_' ∈ body.toList
  · obtain ⟨front, back, he, hf⟩ := List.eq_append_cons_of_mem h
    have ahead : (front ++ '_' :: back).takeWhile (· ≠ '_') = front := by
      have free : ∀ c ∈ front, decide (c ≠ '_') = true := by
        intro c hc
        exact decide_eq_true fun hm => hf (hm ▸ hc)
      rw [List.takeWhile_append_of_pos free]
      simp
    rw [he, Cursor.segments_next hf, ahead]
    rfl
  · have whole : body.toList.takeWhile (· ≠ '_') = body.toList := by
      rw [List.takeWhile_eq_self_iff]
      intro c hc
      exact decide_eq_true fun hm => h (hm ▸ hc)
    rw [Cursor.segments_last h, whole]
    rfl

namespace SimpleToken

theorem read_of_blank {body : String}
    (h : ∀ c ∈ body.toList.takeWhile (· ≠ '_'), Text.isBlank c = true) (raw : String) :
    read raw body = .error .missingCategory := by
  have blank : (segmentsOf body).headD "" = "" := by
    rw [headD_segmentsOf, Text.trimmed_eq_empty_iff, String.toList_ofList]
    exact h
  rw [read, if_pos blank]

theorem read_of_full {body : String}
    (h : ∃ c ∈ body.toList.takeWhile (· ≠ '_'), Text.isBlank c = false) (raw : String) :
    (segmentsOf body).headD "" ≠ "" ∧ read raw body = .ok ⟨raw, segmentsOf body⟩ := by
  have full : (segmentsOf body).headD "" ≠ "" := by
    rw [headD_segmentsOf, ne_eq, Text.trimmed_eq_empty_iff, String.toList_ofList]
    intro blank
    obtain ⟨c, hc, hb⟩ := h
    rw [blank c hc] at hb
    cases hb
  exact ⟨full, by rw [read, if_neg full]⟩

theorem blank_or_full (body : String) :
    (∀ c ∈ body.toList.takeWhile (· ≠ '_'), Text.isBlank c = true) ∨
      ∃ c ∈ body.toList.takeWhile (· ≠ '_'), Text.isBlank c = false := by
  by_cases h : ∀ c ∈ body.toList.takeWhile (· ≠ '_'), Text.isBlank c = true
  · exact .inl h
  · exact .inr (by simpa using h)

/-- What becomes of the bodies of simple tokens. -/
structure SplitsExactly (raw : String) : Prop where
  cut : ∀ body, ∃! pieces, CutsInto body pieces
  /-- Reading comes to an end behind the last piece, with one segment for each. -/
  segments : ∀ body pieces, CutsInto body pieces → segmentsOf body = pieces.map Text.trimmed
  counted : ∀ body, (segmentsOf body).length = body.toList.count '_' + 1
  /-- A body without a category has nothing but blanks in front of its first underscore. -/
  refused : ∀ body, read raw body = .error .missingCategory ↔
    ∀ c ∈ body.toList.takeWhile (· ≠ '_'), Text.isBlank c = true
  accepted : ∀ body, (∃ c ∈ body.toList.takeWhile (· ≠ '_'), Text.isBlank c = false) →
    read raw body = .ok ⟨raw, segmentsOf body⟩
  category : ∀ body t, read raw body = .ok t →
    ∃ more, t.segments = t.category :: more ∧ t.category ≠ ""
  /-- Segments that are written with underscores between them are read again. -/
  written : ∀ segments : List String, segments ≠ [] →
    (∀ s ∈ segments, '_' ∉ s.toList ∧ Text.Bare s) → segments.headD "" ≠ "" →
      read raw (String.intercalate "_" segments) = .ok ⟨raw, segments⟩
  restored : ∀ body pieces, CutsInto body pieces → (∀ piece ∈ pieces, Text.Bare piece) →
    String.intercalate "_" (segmentsOf body) = body

theorem splits_exactly (raw : String) : SplitsExactly raw where
  cut body := by
    obtain ⟨pieces, h⟩ := CutsInto.exists_cut body
    exact ⟨pieces, h, fun other ho => h.unique ho⟩
  segments body pieces h := h.segmentsOf
  counted body := by
    obtain ⟨pieces, h⟩ := CutsInto.exists_cut body
    rw [h.segmentsOf, List.length_map, h.length]
  refused body := by
    refine ⟨fun h => ?_, fun h => read_of_blank h raw⟩
    rcases blank_or_full body with blank | full
    · exact blank
    · rw [(read_of_full full raw).2] at h
      cases h
  accepted body h := (read_of_full h raw).2
  category body t h := by
    rcases blank_or_full body with blank | full
    · rw [read_of_blank blank raw] at h
      cases h
    · obtain ⟨some, read⟩ := read_of_full full raw
      obtain rfl := Except.ok.inj (read.symm.trans h)
      obtain ⟨pieces, cut⟩ := CutsInto.exists_cut body
      obtain ⟨first, more, rfl⟩ := List.exists_cons_of_ne_nil cut.some
      exact ⟨more.map Text.trimmed, by simp [SimpleToken.category, cut.segmentsOf], some⟩
  written segments some h full := by
    have cut : CutsInto (String.intercalate "_" segments) segments :=
      ⟨some, fun s hs => (h s hs).1, rfl⟩
    rw [read, cut.segmentsOf, Text.map_trimmed_of_bare fun s hs => (h s hs).2]
    exact if_neg full
  restored body pieces h bare := h.restored bare

/-- Blanks go, and empty pieces stay behind the first. -/
example : read "" " USER __e x_" = .ok ⟨"", ["USER", "", "e x", ""]⟩ := by decide +kernel

end SimpleToken

end Placeholders
