import Placeholders.Session
import Placeholders.Proofs.Errand

namespace Placeholders

/-- Every value that is kept under the key of one of the resolver's lookups is what the store
still answers. -/
def Resolver.Trusts (r : Resolver) (m : Memo LookupKey) : Prop :=
  ∀ l v, r.Makes l → m.get? l.key = some v → l.outcome r.store = .ok (some v)

theorem Resolver.trusts_empty (r : Resolver) : r.Trusts .empty := by
  intro l v _ hv
  cases hv

namespace Lookup
variable {r : Resolver} {m : Memo LookupKey} {l : Lookup}

theorem run_trusts (ht : r.Trusts m) (hl : r.Makes l) : r.Trusts (l.run r.store m).memo := by
  intro k v hk hv
  rw [get?_run_memo, Option.or_eq_some_iff] at hv
  rcases hv with hv | ⟨_, hv⟩
  · exact ht k v hk hv
  · split at hv
    · rename_i he
      obtain rfl := hl.eq_of_key hk he
      exact (Memo.kept_eq_some_iff.mp hv).1
    · cases hv

end Lookup

namespace Errand
variable {r : Resolver} {m : Memo LookupKey} {e : Errand}

theorem run_result (ht : r.Trusts m) (he : ∀ l, e.lookup? = some l → r.Makes l) :
    (e.run r.store m).result = e.answer r.store := by
  apply run_of_agree
  intro l v hl held
  exact ht l v (he l hl) held

theorem run_trusts (ht : r.Trusts m) (he : ∀ l, e.lookup? = some l → r.Makes l) :
    r.Trusts (e.run r.store m).memo := by
  obtain ⟨queries, ending⟩ := e
  cases ending with
  | settled resolution => exact ht
  | lookup l read => exact Lookup.run_trusts ht (he l rfl)

end Errand

namespace Resolver
variable {r : Resolver} {m : Memo LookupKey}

theorem resolveMark_result (ht : r.Trusts m) (mark : Mark) :
    (r.resolveMark m mark).result = (r.markErrand mark).answer r.store := by
  rw [resolveMark_run]
  exact Errand.run_result ht fun _ => markErrand_makes

theorem resolveMark_trusts (ht : r.Trusts m) (mark : Mark) :
    r.Trusts (r.resolveMark m mark).memo := by
  rw [resolveMark_run]
  exact Errand.run_trusts ht fun _ => markErrand_makes

/-- What a piece of a text becomes where nothing is kept. -/
def replaced (r : Resolver) : Piece → List Char
  | .char c => [c]
  | .mark mark => ((r.markErrand mark).answer r.store).replacement mark

theorem fillPieces_result (ht : r.Trusts m) (ps : List Piece) :
    (r.fillPieces m ps).result = ps.flatMap r.replaced := by
  induction ps generalizing m with
  | nil => rfl
  | cons p ps ih =>
    cases p with
    | char c => simp [fillPieces, replaced, ih ht]
    | mark mark =>
      simp only [fillPieces, List.flatMap_cons, replaced]
      rw [resolveMark_result ht, ih (resolveMark_trusts ht mark)]

theorem fillPieces_trusts (ht : r.Trusts m) (ps : List Piece) :
    r.Trusts (r.fillPieces m ps).memo := by
  induction ps generalizing m with
  | nil => exact ht
  | cons p ps ih =>
    cases p with
    | char c => exact ih ht
    | mark mark => exact ih (resolveMark_trusts ht mark)

end Resolver

namespace Session

def Sound (s : Session) : Prop := s.resolver.Trusts s.memo

theorem start_sound (r : Resolver) : (start r).Sound := r.trusts_empty

theorem fill_sound {s : Session} (hs : s.Sound) (c : Call) :
    Sound { s with memo := (s.fill c).memo } :=
  Resolver.fillPieces_trusts hs _

/-- What a call brings in a session that has just started, the grammar being the one in force. -/
def fresh (s : Session) (c : Call) : String :=
  ((start s.resolver).fill ⟨c.text, some (s.grammarOf c)⟩).result

/-- Sessions with the same resolver bring the same when they have just started. -/
theorem fresh_congr {s t : Session} (h : s.resolver = t.resolver) : s.fresh = t.fresh := by
  obtain ⟨r, m⟩ := s
  obtain ⟨q, n⟩ := t
  obtain rfl : r = q := h
  rfl

theorem fill_result {s : Session} (hs : s.Sound) (c : Call) : (s.fill c).result = s.fresh c := by
  have warm := Resolver.fillPieces_result hs ((s.grammarOf c).pieces c.text)
  have cold := Resolver.fillPieces_result (start_sound s.resolver) ((s.grammarOf c).pieces c.text)
  exact congrArg (fun out : List Char => if out.isEmpty then c.text else String.ofList out)
    (warm.trans cold.symm)

theorem fillAll_results {s : Session} (hs : s.Sound) (calls : List Call) :
    (s.fillAll calls).map (·.result) = calls.map s.fresh := by
  induction calls generalizing s with
  | nil => rfl
  | cons c calls ih =>
    have rest := ih (fill_sound hs c)
    simp only [fillAll, List.map_cons]
    rw [fill_result hs c, rest]
    rfl

/-- Sessions side by side. Each call names the session that it goes to, and only that session
keeps what is looked up for it. -/
def fillInTurn : (Nat → Session) → List (Nat × Call) → List (Step String)
  | _, [] => []
  | sessions, (i, c) :: calls =>
    let step := (sessions i).fill c
    step :: fillInTurn
      (fun j => if j = i then { sessions i with memo := step.memo } else sessions j) calls

theorem fillInTurn_results {sessions : Nat → Session} (hs : ∀ i, (sessions i).Sound)
    (calls : List (Nat × Call)) :
    (fillInTurn sessions calls).map (·.result) = calls.map fun (i, c) => (sessions i).fresh c := by
  induction calls generalizing sessions with
  | nil => rfl
  | cons call calls ih =>
    obtain ⟨i, c⟩ := call
    let next : Nat → Session :=
      fun j => if j = i then { sessions i with memo := ((sessions i).fill c).memo } else sessions j
    have sound : ∀ j, (next j).Sound := by
      intro j
      by_cases hj : j = i
      · simpa [next, hj] using fill_sound (hs i) c
      · simpa [next, hj] using hs j
    -- No session has changed but for what it keeps, so each still has the same fresh results.
    have same : ∀ j, (next j).fresh = (sessions j).fresh := by
      intro j
      apply fresh_congr
      by_cases hj : j = i <;> simp [next, hj]
    have rest := ih sound
    simp only [same] at rest
    simp only [fillInTurn, List.map_cons]
    rw [fill_result (hs i) c]
    exact congrArg ((sessions i).fresh c :: ·) rest

/-- Whatever was asked before, and of whichever session on the store, each text comes out as from
a session that has just started with the same parts. -/
theorem results_without_history (store : Store) (audience : Nat → Audience)
    (config : Nat → Config) (directory : Nat → Directory) :
    let session (i : Nat) := start ⟨store, audience i, config i, directory i⟩
    (∀ i calls, ((session i).fillAll calls).map (·.result) = calls.map (session i).fresh) ∧
    ∀ calls, (fillInTurn session calls).map (·.result) =
      calls.map fun (i, c) => (session i).fresh c :=
  ⟨fun _ calls => fillAll_results (start_sound _) calls,
    fun calls => fillInTurn_results (fun _ => start_sound _) calls⟩

end Session

end Placeholders
