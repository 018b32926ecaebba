import Placeholders.Proofs.Layout
import Placeholders.Proofs.Reading

namespace Placeholders

/-- A text takes the place of the token, whether it is a value or a phrase. -/
def Resolution.Shows (out : String) : Resolution → Prop
  | .resolved value => value = out
  | .placeholder phrase => phrase = out
  | .unresolved => False

theorem Resolution.Shows.ne_unresolved {resolution : Resolution} {out : String}
    (h : resolution.Shows out) : resolution ≠ .unresolved := by
  rintro rfl
  exact h

theorem Resolution.Shows.replacement {resolution : Resolution} {out : String}
    (h : resolution.Shows out) (mark : Mark) : resolution.replacement mark = out.toList := by
  cases resolution with
  | resolved value => exact congrArg String.toList h
  | placeholder phrase => exact congrArg String.toList h
  | unresolved => cases h

namespace Resolver

/-- The instance that a token is about in a context: the one with its number, or the one that the
context has for the audience. -/
def Means (r : Resolver) (c : MetadataContext) (number : Option Nat) (id : RecordId) : Prop :=
  match number with
  | some n => n = id.toNat
  | none => (c.findInstance r.audience r.store).outcome = .ok (some id)

/-- What a name, perhaps a number, and a field come to, the rules in the order in which they
apply. -/
inductive Decides (r : Resolver) (name : String) (number : Option Nat) (field : String) :
    String → Prop
  | tooLarge {n : Nat} (hn : number = some n) (large : UInt64.size ≤ n) :
    Decides r name number field (r.phrase "novalue")
  | unknown (fits : ∀ n, number = some n → n < UInt64.size)
    (hc : r.directory.get? name = none) : Decides r name number field (r.phrase "unknowncontext")
  | refused {c : MetadataContext} {e : Failure} (hc : r.directory.get? name = some c)
    (hn : number = none) (hi : (c.findInstance r.audience r.store).outcome = .error e) :
    Decides r name number field (r.phrase e.phraseKey)
  | nowhere {c : MetadataContext} (hc : r.directory.get? name = some c) (hn : number = none)
    (hi : (c.findInstance r.audience r.store).outcome = .ok none) :
    Decides r name number field (r.phrase "noinstance")
  | failing {c : MetadataContext} {id : RecordId} {e : Failure}
    (hc : r.directory.get? name = some c) (hi : r.Means c number id)
    (hv : r.store.ask (.fieldValue id c.level field) = .error e) :
    Decides r name number field (r.phrase "lookuperror")
  | missing {c : MetadataContext} {id : RecordId}
    (hc : r.directory.get? name = some c) (hi : r.Means c number id)
    (hv : r.store.ask (.fieldValue id c.level field) = .ok none ∨
      r.store.ask (.fieldValue id c.level field) = .ok (some "")) :
    Decides r name number field (r.phrase "novalue")
  | value {c : MetadataContext} {id : RecordId} {v : String}
    (hc : r.directory.get? name = some c) (hi : r.Means c number id)
    (hv : r.store.ask (.fieldValue id c.level field) = .ok (some v)) (full : v ≠ "") :
    Decides r name number field v

variable {r : Resolver} {name field out : String} {number : Option Nat}

theorem exists_decides (r : Resolver) (name : String) (number : Option Nat) (field : String) :
    ∃ out, r.Decides name number field out := by
  by_cases large : ∃ n, number = some n ∧ UInt64.size ≤ n
  · obtain ⟨n, hn, large⟩ := large
    exact ⟨_, .tooLarge hn large⟩
  have fits : ∀ n, number = some n → n < UInt64.size := by
    intro n hn
    exact Nat.lt_of_not_le fun h => large ⟨n, hn, h⟩
  cases hc : r.directory.get? name with
  | none => exact ⟨_, .unknown fits hc⟩
  | some c =>
    -- Once there is an instance, only the store's answer for the field is left to decide.
    have looked (id : RecordId) (hi : r.Means c number id) :
        ∃ out, r.Decides name number field out := by
      cases hv : r.store.ask (.fieldValue id c.level field) with
      | error e => exact ⟨_, .failing hc hi hv⟩
      | ok found =>
        cases found with
        | none => exact ⟨_, .missing hc hi (.inl hv)⟩
        | some v =>
          by_cases full : v = ""
          · exact ⟨_, .missing hc hi (.inr (full ▸ hv))⟩
          · exact ⟨_, .value hc hi hv full⟩
    cases hn : number with
    | some n =>
      have small := fits n hn
      rw [← hn]
      exact looked (.ofNat n) (by rw [hn]; exact (UInt64.toNat_ofNat_of_lt' small).symm)
    | none =>
      rw [← hn]
      cases hi : (c.findInstance r.audience r.store).outcome with
      | error e => exact ⟨_, .refused hc hn hi⟩
      | ok found =>
        cases found with
        | none => exact ⟨_, .nowhere hc hn hi⟩
        | some id => exact looked id (by rw [hn]; exact hi)

theorem Decides.of_tooLarge {n : Nat} (h : r.Decides name (some n) field out)
    (large : UInt64.size ≤ n) : out = r.phrase "novalue" := by
  have unmeant {c : MetadataContext} {id : RecordId} : ¬r.Means c (some n) id := by
    rintro rfl
    exact Nat.not_le_of_lt id.toNat_lt large
  cases h with
  | tooLarge => rfl
  | unknown fits => exact absurd large (Nat.not_le_of_lt (fits n rfl))
  | refused _ hn => cases hn
  | nowhere _ hn => cases hn
  | failing _ hi => exact absurd hi unmeant
  | missing _ hi => exact absurd hi unmeant
  | value _ hi => exact absurd hi unmeant

section
variable {t : MetadataToken} {c : MetadataContext}

theorem answer_of_unknown (hc : r.directory.get? t.category = none) :
    (r.metadataErrand t).answer r.store = .placeholder (r.phrase "unknowncontext") := by
  unfold metadataErrand metadataLookup
  simp only [hc]
  rfl

theorem answer_of_refused (hc : r.directory.get? t.category = some c) {e : Failure}
    (hi : (r.instanceOf t c).outcome = .error e) :
    (r.metadataErrand t).answer r.store = .placeholder (r.phrase e.phraseKey) := by
  unfold metadataErrand metadataLookup
  simp only [hc, hi, Except.map]
  rfl

theorem answer_of_found (hc : r.directory.get? t.category = some c) {id : RecordId}
    (hi : (r.instanceOf t c).outcome = .ok id) :
    (r.metadataErrand t).answer r.store =
      r.metadataResolution (r.store.ask (.fieldValue id c.level t.field)) := by
  unfold metadataErrand metadataLookup
  simp only [hc, hi, Except.map, Errand.answer, Lookup.outcome, Lookup.metadata]
  cases r.store.ask (.fieldValue id c.level t.field) <;> rfl

theorem instanceOf_of_means {id : RecordId} (hi : r.Means c (t.inst.map UInt64.toNat) id) :
    (r.instanceOf t c).outcome = .ok id := by
  unfold instanceOf
  cases ht : t.inst with
  | some own =>
    rw [ht] at hi
    exact congrArg Except.ok (UInt64.toNat_inj.mp hi)
  | none =>
    rw [ht] at hi
    have found : (c.findInstance r.audience r.store).outcome = .ok (some id) := hi
    simp only [found, Except.bind]

end

theorem phraseKey_of_ask {q : Query} {e : Failure} (h : r.store.ask q = .error e) :
    e.phraseKey = "lookuperror" := by
  unfold Store.ask at h
  split at h
  · cases h
    rfl
  · cases h

theorem Decides.metadata_shows {inst : Option RecordId}
    (h : r.Decides name (inst.map UInt64.toNat) field out) (raw : String) :
    ((r.metadataErrand ⟨raw, name, inst, field⟩).answer r.store).Shows out := by
  cases h with
  | tooLarge hn large =>
    obtain ⟨id, _, rfl⟩ := Option.map_eq_some_iff.mp hn
    exact absurd large (Nat.not_le_of_lt id.toNat_lt)
  | unknown _ hc =>
    rw [answer_of_unknown hc]
    rfl
  | @refused c e hc hn hi =>
    obtain rfl : inst = none := by simpa using hn
    have stopped : (r.instanceOf ⟨raw, name, none, field⟩ c).outcome = .error e := by
      simp only [instanceOf, hi, Except.bind]
    rw [answer_of_refused hc stopped]
    rfl
  | @nowhere c hc hn hi =>
    obtain rfl : inst = none := by simpa using hn
    have stopped : (r.instanceOf ⟨raw, name, none, field⟩ c).outcome =
        .error (.missingInstance name) := by
      simp only [instanceOf, hi, Except.bind]
    rw [answer_of_refused hc stopped]
    rfl
  | failing hc hi hv =>
    rw [answer_of_found hc (instanceOf_of_means hi), hv]
    exact congrArg r.phrase (phraseKey_of_ask hv)
  | missing hc hi hv =>
    rw [answer_of_found hc (instanceOf_of_means hi)]
    rcases hv with hv | hv
    · rw [hv]
      rfl
    · rw [hv]
      rfl
  | value hc hi hv full =>
    rw [answer_of_found hc (instanceOf_of_means hi), hv]
    simp only [metadataResolution, full, ↓reduceIte]
    rfl

variable {mark : Mark} {digits : Option String}

theorem markErrand_of_names {context word : String}
    (hm : (Mark.namespaced context word).Names name digits field) {inst : Option RecordId}
    (hi : inst.map UInt64.toNat = digits.map decimal) :
    r.markErrand (.namespaced context word) =
      r.metadataErrand ⟨(Mark.namespaced context word).text, name, inst, field⟩ := by
  unfold markErrand
  dsimp only
  rw [MetadataToken.read_of_names hm hi]

theorem markErrand_of_tooLarge {context word large : String}
    (hm : (Mark.namespaced context word).Names name (some large) field)
    (hl : UInt64.size ≤ decimal large) :
    r.markErrand (.namespaced context word) =
      ⟨[], .settled (.placeholder (r.phrase "novalue"))⟩ := by
  unfold markErrand
  dsimp only
  rw [MetadataToken.read_of_tooLarge hm hl]
  rfl

theorem Decides.shows (h : r.Decides name (digits.map decimal) field out)
    (hm : mark.Names name digits field) : ((r.markErrand mark).answer r.store).Shows out := by
  rcases exists_inst_or_tooLarge digits with ⟨inst, hi⟩ | ⟨d, rfl, large⟩
  · obtain ⟨context, word, rfl⟩ := hm.namespaced
    rw [← hi] at h
    rw [markErrand_of_names hm hi]
    exact h.metadata_shows _
  · obtain ⟨context, word, rfl⟩ := hm.namespaced
    rw [markErrand_of_tooLarge hm large]
    exact (h.of_tooLarge large).symm

/-- The rules and the resolution agree, whichever way a token is read. -/
theorem decides_iff (hm : mark.Names name digits field) :
    r.slot mark = out.toList ↔ r.Decides name (digits.map decimal) field out := by
  have slot {out : String} (h : r.Decides name (digits.map decimal) field out) :
      r.slot mark = out.toList := by
    rw [Resolver.slot, resolveMark_result r.trusts_empty]
    exact (h.shows hm).replacement mark
  constructor
  · intro he
    obtain ⟨what, hw⟩ := r.exists_decides name (digits.map decimal) field
    have same : what.toList = out.toList := (slot hw).symm.trans he
    rwa [String.toList_inj.mp same] at hw
  · exact slot

theorem resolveMark_ne_unresolved (hm : mark.Names name digits field) :
    (r.resolveMark .empty mark).result ≠ .unresolved := by
  obtain ⟨what, hw⟩ := r.exists_decides name (digits.map decimal) field
  rw [resolveMark_result r.trusts_empty]
  exact (hw.shows hm).ne_unresolved

theorem slot_congr {other : Mark} {d e : String} (hm : mark.Names name (some d) field)
    (ho : other.Names name (some e) field) (he : decimal d = decimal e) :
    r.slot mark = r.slot other := by
  obtain ⟨what, hw⟩ := r.exists_decides name (some (decimal d)) field
  have one : r.slot mark = what.toList := (decides_iff hm).mpr hw
  rw [he] at hw
  exact one.trans ((decides_iff ho).mpr hw).symm

end Resolver

namespace Resolver

/-- What the sessions of a resolver make of namespaced tokens, at any point of a session. -/
structure Decided (r : Resolver) : Prop where
  /-- A call returns the gaps of its text with the slots between them, or the text itself where
  that is empty. -/
  laidOut : ∀ past c, let s := (Session.start r).after past
    let out := weave ((s.grammarOf c).gaps c.text) (s.slots c)
    (s.fill c).result = if out = [] then c.text else String.ofList out
  /-- In each slot is what the rules say, for each token of the text in turn. -/
  decided : ∀ past c, let s := (Session.start r).after past
    s.grammarOf c = .namespaced → List.Forall₂ (fun mark slot =>
      (∃ name digits field, mark.Names name digits field) ∧
        ∀ name digits field, mark.Names name digits field →
          ∀ out : String, slot = out.toList ↔ r.Decides name (digits.map decimal) field out)
      (Grammar.namespaced.tokensIn c.text) (s.slots c)
  /-- Only digits without a record number keep a token from being read. -/
  refused : ∀ text context word, .namespaced context word ∈ Grammar.namespaced.tokensIn text →
    ∀ raw, (∃ e, MetadataToken.read raw context word = .error e) ↔
      ∃ name digits, (Mark.namespaced context word).Names name (some digits) word ∧
        UInt64.size ≤ decimal digits
  /-- No token is left as it was written. -/
  answered : ∀ past c, let s := (Session.start r).after past
    s.grammarOf c = .namespaced →
      ∀ v ∈ s.resolver.visits s.memo (Grammar.namespaced.tokensIn c.text),
        v.step.result ≠ .unresolved
  /-- The digits count by the number alone, wherever in the session the tokens come up. -/
  alike : ∀ past past' c c', let s := (Session.start r).after past
    let s' := (Session.start r).after past'
    s.grammarOf c = .namespaced → s'.grammarOf c' = .namespaced →
      ∀ (i j : Nat) (mark mark' : Mark) (name field d d' : String),
        (Grammar.namespaced.tokensIn c.text)[i]? = some mark →
        (Grammar.namespaced.tokensIn c'.text)[j]? = some mark' →
        mark.Names name (some d) field → mark'.Names name (some d') field →
        decimal d = decimal d' → (s.slots c)[i]? = (s'.slots c')[j]?

theorem read_refused_iff {context word : String}
    (h : Grammar.namespaced.Owns (.namespaced context word)) (raw : String) :
    (∃ e, MetadataToken.read raw context word = .error e) ↔
      ∃ name digits, (Mark.namespaced context word).Names name (some digits) word ∧
        UInt64.size ≤ decimal digits := by
  constructor
  · rintro ⟨e, he⟩
    obtain ⟨name, digits, field, hn⟩ := h.names
    obtain rfl := hn.field
    rcases exists_inst_or_tooLarge digits with ⟨inst, hi⟩ | ⟨d, rfl, large⟩
    · rw [MetadataToken.read_of_names hn hi] at he
      cases he
    · exact ⟨name, d, hn, large⟩
  · rintro ⟨name, digits, hn, large⟩
    exact ⟨_, MetadataToken.read_of_tooLarge hn large raw⟩

/-- The rules decide all that a session makes of namespaced tokens. -/
theorem fill_decided (r : Resolver) : r.Decided where
  laidOut past c := Session.fill_laidOut _ c
  decided past c := by
    intro s hg
    have slots : s.slots c = _ := Session.slots_after r past c
    rw [slots, hg, List.forall₂_map_right_iff, List.forall₂_same]
    intro mark hm
    have owned := Grammar.owns_of_mem_tokensIn hm
    exact ⟨owned.names, fun name digits field hn out => decides_iff hn⟩
  refused text context word hm raw := read_refused_iff (Grammar.owns_of_mem_tokensIn hm) raw
  answered past c := by
    intro s hg v hv
    have same : s.resolver = r := Session.after_resolver (Session.start r) past
    rw [same] at hv
    obtain ⟨hm, alone⟩ := visit_without_history (Session.start_after_trusts r past) hv
    obtain ⟨name, digits, field, hn⟩ := (Grammar.owns_of_mem_tokensIn hm).names
    rw [alone]
    exact resolveMark_ne_unresolved hn
  alike past past' c c' := by
    intro s s' hg hg' i j mark mark' name field d d' hi hj hn hn' he
    have slots : s.slots c = _ := Session.slots_after r past c
    have slots' : s'.slots c' = _ := Session.slots_after r past' c'
    rw [slots, slots', hg, hg', List.getElem?_map, List.getElem?_map, hi, hj]
    exact congrArg some (slot_congr hn hn' he)

/-- Zeros in front change nothing, and one more than the largest number is no instance. -/
example :
    let r : Resolver :=
      { store := { metadata := [⟨7, .course, "room", "B12"⟩] }
        audience := .english .anonymous none }
    r.slot (.namespaced "course=0007" "room") = "B12".toList ∧
      r.slot (.namespaced "course=18446744073709551616" "room") = "No value".toList := by
  decide +kernel

end Resolver

end Placeholders
