import Mathlib.Data.List.Lex
import Shipboard.Proofs.Scaffold.Soundness

/-!
Of all ways to split a route the search finds the first. A way is the list of the choices it makes
from left to right, and ways are compared like words in a dictionary.
-/

namespace Shipboard

namespace Choice

/-- Calls come before introductions, a call of an earlier function before one of a later, and the
introduction of a longer function before that of a shorter. -/
def Before : Choice → Choice → Prop
  | .call i, .call j => i < j
  | .call _, .introduce _ => True
  | .introduce _, .call _ => False
  | .introduce k, .introduce j => j < k

instance : Std.Asymm Before where
  asymm a b before after := by
    cases a with
    | call i =>
        cases b with
        | call j => exact Nat.lt_asymm before after
        | introduce j => exact after
    | introduce k =>
        cases b with
        | call j => exact before
        | introduce j => exact Nat.lt_asymm before after

end Choice

/-- The choices `cs` split `rest` into calls, where the functions `known` have been introduced
before. A function is introduced where it is first called, as the next commands of the route; there
are at most three, and the line of each has at most twenty characters. -/
inductive Route.Splits : List Route → Route → List Choice → Routines → Prop
  | done (known : List Route) : Splits known [] [] ⟨[], known⟩
  | call {known functions : List Route} {rest f behind : Route} {i : Nat} {cs : List Choice}
      {calls : List Nat} (found : known[i]? = some f) (front : f ++ behind = rest)
      (later : Splits known behind cs ⟨calls, functions⟩) :
      Splits known rest (.call i :: cs) ⟨i :: calls, functions⟩
  | introduce {known functions : List Route} {rest : Route} {k : Nat} {cs : List Choice}
      {calls : List Nat} (few : known.length < 3) (positive : 1 ≤ k) (inside : k ≤ rest.length)
      (fits : (Route.line (rest.take k)).length ≤ 20)
      (later : Splits (known ++ [rest.take k]) (rest.drop k) cs ⟨calls, functions⟩) :
      Splits known rest (.introduce k :: cs) ⟨known.length :: calls, functions⟩

/-- The choices `cs`, at most ten, split the whole route into these routines. -/
def Route.Solved (r : Route) (cs : List Choice) (routines : Routines) : Prop :=
  cs.length ≤ 10 ∧ Route.Splits [] r cs routines

namespace Draft

variable {d d' d'' d₁ d₂ : Draft} {rest behind behind' f : Route} {i : Nat} {c : Choice}
  {cs cs' : List Choice}

theorem fitting_ascending (rest : Route) : (fitting rest).Pairwise (· < ·) :=
  (ascending_range_succ rest.length).sublist (List.takeWhile_sublist _)

theorem choices_ascending (d : Draft) (rest : Route) :
    (d.choices rest).Pairwise Choice.Before := by
  have calls : ((List.range d.functions.length).map Choice.call).Pairwise Choice.Before := by
    apply List.pairwise_map.mpr
    exact List.pairwise_lt_range
  have introductions : ((fitting rest).reverse.map Choice.introduce).Pairwise Choice.Before := by
    apply List.pairwise_map.mpr
    apply List.pairwise_reverse.mpr
    exact fitting_ascending rest
  rw [choices]
  apply List.pairwise_append.mpr
  refine ⟨calls, ?_, ?_⟩
  · split
    · exact introductions
    · exact .nil
  · intro a among b behind
    obtain ⟨i, -, rfl⟩ := List.mem_map.mp among
    split at behind
    · obtain ⟨k, -, rfl⟩ := List.mem_map.mp behind
      trivial
    · cases behind

theorem first_of_tryEach {sought : Choice → Draft → Prop}
    {attempt : Choice → Draft → Bool × Draft}
    (each : ∀ c ∈ cs, Answers (sought c) d (attempt c d))
    (succeeds : tryEach attempt cs d = (true, d')) :
    ∃ front c back, cs = front ++ c :: back ∧ (∀ c' ∈ front, ∀ d'', ¬ sought c' d'') ∧
      attempt c d = (true, d') := by
  induction cs with
  | nil => cases succeeds
  | cons c cs ih =>
      have first := each c List.mem_cons_self
      rw [tryEach] at succeeds
      split at succeeds
      · rename_i e found
        cases succeeds
        exact ⟨[], c, cs, rfl, fun _ among => absurd among List.not_mem_nil, found⟩
      · rename_i e fails
        rw [fails] at first
        obtain ⟨rfl, never⟩ := first
        have others : ∀ c' ∈ cs, Answers (sought c') e (attempt c' e) := fun c' later =>
          each c' (List.mem_cons_of_mem c later)
        obtain ⟨front, c', back, rfl, before, found⟩ := ih others succeeds
        refine ⟨c :: front, c', back, rfl, ?_, found⟩
        intro a among
        rcases List.mem_cons.mp among with rfl | later
        · exact never
        · exact before a later

theorem makes_of_attempt {search : Route → Draft → Bool × Draft} (offered : c ∈ d.choices rest)
    (succeeds : attempt search rest c d = (true, d')) :
    ∃ d₁ behind, Makes d rest c d₁ behind ∧ search behind d₁ = (true, d') := by
  rw [attempt.eq_def] at succeeds
  cases c with
  | call i =>
      dsimp only at succeeds
      split at succeeds
      · cases succeeds
      · rename_i f found
        split at succeeds
        · cases succeeds
        · rename_i behind front
          have whole := List.isPrefixOf?_eq_some_iff_append_eq.mp front
          refine ⟨_, _, .call found whole, ?_⟩
          split at succeeds
          · cases succeeds
            assumption
          · cases succeeds
  | introduce k =>
      dsimp only at succeeds
      obtain ⟨few, fits⟩ := mem_choices_introduce.mp offered
      refine ⟨_, _, .introduce few fits, ?_⟩
      split at succeeds
      · cases succeeds
        assumption
      · cases succeeds

theorem Makes.unique (makes : Makes d rest c d₁ behind) (makes' : Makes d rest c d₂ behind') :
    d₂ = d₁ ∧ behind' = behind := by
  cases makes with
  | call found front =>
      cases makes' with
      | call found' front' =>
          cases found.symm.trans found'
          exact ⟨rfl, List.append_cancel_left (front'.trans front.symm)⟩
  | introduce few fits =>
      cases makes' with
      | introduce few' fits' => exact ⟨rfl, rfl⟩

theorem Makes.longer (makes : Makes d rest c d₁ behind) :
    d₁.main.length = d.main.length + 1 := by
  cases makes with
  | call found front => simp [Draft.call]
  | introduce few fits => simp [Draft.introduce]

/-- The choices `cs` lead to `d'`, and no choices that come before them lead anywhere. -/
structure LeadsFirst (d : Draft) (rest : Route) (cs : List Choice) (d' : Draft) : Prop where
  leads : Leads d rest cs d'
  first : ∀ cs' d'', Leads d rest cs' d'' → cs' = cs ∨ List.Lex Choice.Before cs cs'

theorem leadsFirst_nil (d : Draft) : LeadsFirst d [] [] d := by
  refine ⟨.done d, ?_⟩
  intro cs' d'' leads
  cases leads with
  | done => exact .inl rfl
  | choose left room first later => exact absurd rfl left

/-- The first choice that leads anywhere, and the first choices behind it, come before all others:
those offered earlier lead nowhere, and those offered later come later. -/
theorem LeadsFirst.choose {front back : List Choice} (left : rest ≠ []) (room : d.isFull = false)
    (offers : d.choices rest = front ++ c :: back)
    (never : ∀ c' ∈ front, ∀ d'', ¬ Past d rest c' d'') (makes : Makes d rest c d₁ behind)
    (later : LeadsFirst d₁ behind cs d') : LeadsFirst d rest (c :: cs) d' := by
  refine ⟨.choose left room makes later.leads, ?_⟩
  intro cs'' d'' leads
  cases leads with
  | done => exact absurd rfl left
  | @choose _ d₂ _ _ behind' c' cs' left room makes' leads =>
      have ascending := choices_ascending d rest
      have among := makes'.offered
      rw [offers] at ascending among
      rcases List.mem_append.mp among with earlier | behind_front
      · exact absurd ⟨d₂, behind', makes', cs', leads⟩ (never c' earlier d'')
      · rcases List.mem_cons.mp behind_front with rfl | further
        · obtain ⟨rfl, rfl⟩ := makes.unique makes'
          rcases later.first cs' d'' leads with rfl | before
          · exact .inl rfl
          · exact .inr (.cons before)
        · have ordered := (List.pairwise_append.mp ascending).2.1
          exact .inr (.rel ((List.pairwise_cons.mp ordered).1 c' further))

theorem answers_attempt_search {depth : Nat} (enough : 10 ≤ depth + 1 + d.main.length)
    (offered : c ∈ d.choices rest) :
    Answers (Past d rest c) d (attempt (search depth) rest c d) := by
  apply answers_attempt _ offered
  intro behind d₁ longer
  exact answers_search (by omega) behind

theorem leadsFirst_of_search {depth : Nat} (enough : 10 ≤ depth + d.main.length)
    (succeeds : search depth rest d = (true, d')) : ∃ cs, LeadsFirst d rest cs d' := by
  induction depth generalizing rest d with
  | zero =>
      cases rest with
      | nil =>
          cases succeeds
          exact ⟨[], leadsFirst_nil d'⟩
      | cons command rest => cases succeeds
  | succ depth ih =>
      cases rest with
      | nil =>
          cases succeeds
          exact ⟨[], leadsFirst_nil d'⟩
      | cons command rest =>
          rw [search] at succeeds
          split at succeeds
          · cases succeeds
          · rename_i room
            rw [Bool.not_eq_true] at room
            -- What was offered before `c` has been tried in vain and so leads nowhere.
            obtain ⟨front, c, back, offers, never, found⟩ :=
              first_of_tryEach (fun _ => answers_attempt_search enough) succeeds
            have offered : c ∈ d.choices (command :: rest) := by
              rw [offers]
              exact List.mem_append_right front List.mem_cons_self
            obtain ⟨d₁, behind, makes, goes⟩ := makes_of_attempt offered found
            have longer := makes.longer
            obtain ⟨cs, later⟩ := ih (by omega) goes
            exact ⟨c :: cs, .choose (List.cons_ne_nil _ _) room offers never makes later⟩

theorem splits_of_leads (leads : Leads d rest cs d') (room : d.main.length ≤ 10) :
    d.main.length + cs.length ≤ 10 ∧
      ∃ calls, d'.main = d.main ++ calls ∧
        Route.Splits d.functions rest cs ⟨calls, d'.functions⟩ := by
  induction leads with
  | done d => exact ⟨room, [], (List.append_nil _).symm, .done _⟩
  | @choose d d₁ d' rest behind c cs left short first later ih =>
      have free := isFull_eq_false_iff.mp short
      have longer := first.longer
      obtain ⟨few, calls, main, splits⟩ := ih (by omega)
      refine ⟨by rw [List.length_cons]; omega, ?_⟩
      cases first with
      | @call i f _ found front =>
          refine ⟨i :: calls, ?_, .call found front splits⟩
          rw [main, Draft.call, List.append_assoc, List.singleton_append]
      | @introduce k many fits =>
          obtain ⟨positive, inside, fits⟩ := mem_fitting_iff.mp fits
          rw [← Route.length_line] at fits
          refine ⟨d.functions.length :: calls, ?_, .introduce many positive inside fits splits⟩
          rw [main, Draft.introduce, List.append_assoc, List.singleton_append]

theorem leads_of_splits {known : List Route} {routines : Routines}
    (splits : Route.Splits known rest cs routines) (functions : d.functions = known)
    (whole : ∀ f ∈ known, f ≠ []) (room : d.main.length + cs.length ≤ 10) :
    Leads d rest cs ⟨routines.functions, d.main ++ routines.main⟩ := by
  -- Along the split: the draft has the functions introduced so far and room for the calls to come.
  induction splits generalizing d with
  | done known =>
      subst functions
      rw [List.append_nil]
      exact .done d
  | @call known functions' rest f behind i cs calls found front later ih =>
      subst functions
      rw [List.length_cons] at room
      have nonempty := whole f (List.mem_of_getElem? found)
      have left : rest ≠ [] := by
        rw [← front]
        exact List.append_ne_nil_of_left_ne_nil nonempty behind
      have goes := ih (d := d.call i) rfl whole (by simp [call]; omega)
      rw [Draft.call, List.append_assoc, List.singleton_append] at goes
      exact .choose left (isFull_eq_false_iff.mpr (by omega)) (.call found front) goes
  | @introduce known functions' rest k cs calls few positive inside fits later ih =>
      subst functions
      rw [List.length_cons] at room
      rw [Route.length_line] at fits
      have left : rest ≠ [] := List.ne_nil_of_length_pos (Nat.lt_of_lt_of_le positive inside)
      have new : rest.take k ≠ [] := by
        apply List.ne_nil_of_length_pos
        rw [List.length_take_of_le inside]
        exact positive
      have grown : ∀ f ∈ d.functions ++ [rest.take k], f ≠ [] := by
        rw [List.forall_mem_append, List.forall_mem_singleton]
        exact ⟨whole, new⟩
      have goes := ih (d := d.introduce (rest.take k)) rfl grown (by simp [introduce]; omega)
      rw [Draft.introduce, List.append_assoc, List.singleton_append] at goes
      have makes := Makes.introduce few (mem_fitting_iff.mpr ⟨positive, inside, fits⟩)
      exact .choose left (isFull_eq_false_iff.mpr (by omega)) makes goes

end Draft

namespace Route

variable {r : Route} {routines other : Routines} {cs cs' : List Choice}

theorem Splits.unique {known : List Route} (splits : Splits known r cs routines)
    (splits' : Splits known r cs other) : other = routines := by
  induction splits generalizing other with
  | done known =>
      cases splits' with
      | done => rfl
  | call found front later ih =>
      cases splits' with
      | call found' front' later' =>
          cases found.symm.trans found'
          cases List.append_cancel_left (front'.trans front.symm)
          cases ih later'
          rfl
  | introduce few positive inside fits later ih =>
      cases splits' with
      | introduce few' positive' inside' fits' later' =>
          cases ih later'
          rfl

theorem solved_iff_leads :
    r.Solved cs routines ↔ Draft.Leads {} r cs ⟨routines.functions, routines.main⟩ := by
  constructor
  · rintro ⟨few, splits⟩
    exact Draft.leads_of_splits (d := {}) splits rfl nofun (by simpa using few)
  · intro leads
    obtain ⟨few, calls, main, splits⟩ := Draft.splits_of_leads leads (Nat.zero_le _)
    cases main
    exact ⟨by simpa using few, splits⟩

structure SolvedFirst (r : Route) (cs : List Choice) (routines : Routines) : Prop where
  solved : r.Solved cs routines
  first : ∀ cs' other, r.Solved cs' other → cs' = cs ∨ List.Lex Choice.Before cs cs'

theorem solvedFirst_of_compress? (found : r.compress? = some routines) :
    ∃ cs, r.SolvedFirst cs routines := by
  rw [compress?] at found
  split at found
  · cases found
  · split at found
    · rename_i d succeeds
      cases found
      obtain ⟨cs, leads⟩ := Draft.leadsFirst_of_search (by decide) succeeds
      refine ⟨cs, solved_iff_leads.mpr leads.leads, ?_⟩
      intro cs' other solved
      exact leads.first cs' _ (solved_iff_leads.mp solved)
    · cases found

theorem SolvedFirst.unique (solved : r.SolvedFirst cs routines)
    (solved' : r.SolvedFirst cs' other) : other = routines := by
  have same : cs' = cs := by
    rcases solved.first cs' other solved'.solved with same | before
    · exact same
    · rcases solved'.first cs routines solved.solved with same | after
      · exact same.symm
      · exact (Std.Asymm.asymm _ _ before after).elim
  subst same
  exact solved.solved.2.unique solved'.solved.2

end Route

/-- The routines found for a route are those of the first of all choices that split it, in the order
of a dictionary, and none are found exactly if no choices split it. -/
theorem compress?_eq_some_iff_first {r : Route} (nonempty : r ≠ []) :
    (∀ routines, r.compress? = some routines ↔
      ∃ cs, r.Solved cs routines ∧
        ∀ cs' other, r.Solved cs' other → cs' = cs ∨ List.Lex Choice.Before cs cs') ∧
    (r.compress? = none ↔ ∀ cs routines, ¬ r.Solved cs routines) := by
  have missing : r.compress? = none → ∀ cs routines, ¬ r.Solved cs routines := by
    intro missing cs routines solved
    exact Route.not_leads_of_compress? nonempty missing cs _ (Route.solved_iff_leads.mp solved)
  constructor
  · intro routines
    constructor
    · intro found
      obtain ⟨cs, first⟩ := Route.solvedFirst_of_compress? found
      exact ⟨cs, first.solved, first.first⟩
    · rintro ⟨cs, solved, first⟩
      cases found : r.compress? with
      | none => exact absurd solved (missing found cs routines)
      | some other =>
          obtain ⟨cs', first'⟩ := Route.solvedFirst_of_compress? found
          have same := first'.unique ⟨solved, first⟩
          rw [same]
  · refine ⟨missing, ?_⟩
    intro never
    cases found : r.compress? with
    | none => rfl
    | some routines =>
        obtain ⟨cs, first⟩ := Route.solvedFirst_of_compress? found
        exact absurd first.solved (never cs routines)

/-- Of the ways to split the zigzag the one that calls a single function four times is not the
first: a longer function can be introduced instead. -/
theorem compress?_eq_some_iff_first_zigzag :
    zigzag.Solved [.introduce 4, .call 0, .call 0, .call 0] ⟨[0, 0, 0, 0], [zigzag.take 4]⟩ ∧
    zigzag.compress? = some ⟨[0, 1], [zigzag.take 9, zigzag.drop 9]⟩ ∧
    ∃ cs, zigzag.Solved cs ⟨[0, 1], [zigzag.take 9, zigzag.drop 9]⟩ ∧
      List.Lex Choice.Before cs [.introduce 4, .call 0, .call 0, .call 0] := by
  have fourfold : zigzag.Solved [.introduce 4, .call 0, .call 0, .call 0]
      ⟨[0, 0, 0, 0], [zigzag.take 4]⟩ := by
    have last : Route.Splits [zigzag.take 4] (zigzag.drop 12) [.call 0]
        ⟨[0], [zigzag.take 4]⟩ := .call rfl (List.append_nil _) (.done _)
    have third : Route.Splits [zigzag.take 4] (zigzag.drop 8) [.call 0, .call 0]
        ⟨[0, 0], [zigzag.take 4]⟩ := .call rfl (by decide) last
    have second : Route.Splits [zigzag.take 4] (zigzag.drop 4) [.call 0, .call 0, .call 0]
        ⟨[0, 0, 0], [zigzag.take 4]⟩ := .call rfl (by decide) third
    exact ⟨by decide, .introduce (by decide) (by decide) (by decide) (by decide +kernel) second⟩
  have found : zigzag.compress? = some ⟨[0, 1], [zigzag.take 9, zigzag.drop 9]⟩ := by
    decide +kernel
  obtain ⟨cs, solved, first⟩ := ((compress?_eq_some_iff_first (by decide)).1 _).mp found
  refine ⟨fourfold, found, cs, solved, ?_⟩
  rcases first _ _ fourfold with same | before
  · subst same
    cases solved.2.unique fourfold.2
  · exact before

end Shipboard
