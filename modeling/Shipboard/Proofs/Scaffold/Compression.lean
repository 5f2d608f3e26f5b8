import Mathlib.Data.List.Basic
import Shipboard.Proofs.Core.Failing
import Shipboard.Scaffold.Compression

/-!
What the search for routines finds. It goes through the choices that lead from a draft to one that
makes the whole route: it succeeds with such a draft, and where it fails there is none and the draft
is as it was. Choices only add functions and calls, and the calls that they add make the route.
-/

namespace Shipboard

namespace Routines

def spell (functions : List Route) (calls : List Nat) : Except Trap Route :=
  (calls.mapM (lookUp functions)).map List.flatten

theorem expand_eq_spell (r : Routines) : r.expand = spell r.functions r.main := rfl

theorem spell_nil (functions : List Route) : spell functions [] = .ok [] := rfl

theorem spell_cons {functions : List Route} {i : Nat} {f rest : Route} {calls : List Nat}
    (first : functions[i]? = some f) (others : spell functions calls = .ok rest) :
    spell functions (i :: calls) = .ok (f ++ rest) := by
  have found : lookUp functions i = .ok f := by rw [lookUp, first]
  obtain ⟨fs, looked, rfl⟩ := ok_of_map others
  rw [spell, List.mapM_cons, found, looked]
  rfl

end Routines

namespace Draft

variable {d d' d₁ : Draft} {rest behind f : Route} {i : Nat} {c : Choice} {cs : List Choice}

/-- The choice `c` can be made at the front of `rest`; it gives `d₁` and leaves `behind`. -/
inductive Makes (d : Draft) (rest : Route) : Choice → Draft → Route → Prop
  | call {i : Nat} {f behind : Route} (found : d.functions[i]? = some f)
      (front : f ++ behind = rest) : Makes d rest (.call i) (d.call i) behind
  | introduce {k : Nat} (few : d.functions.length < Routines.names.length)
      (fits : k ∈ fitting rest) :
      Makes d rest (.introduce k) (d.introduce (rest.take k)) (rest.drop k)

/-- The choices `cs`, each with room on the main line, lead from `d` to `d'` and make `rest`. -/
inductive Leads : Draft → Route → List Choice → Draft → Prop
  | done (d : Draft) : Leads d [] [] d
  | choose {d d₁ d' : Draft} {rest behind : Route} {c : Choice} {cs : List Choice}
      (left : rest ≠ []) (room : d.isFull = false) (first : Makes d rest c d₁ behind)
      (later : Leads d₁ behind cs d') : Leads d rest (c :: cs) d'

/-- What is promised of an answer: a draft of those sought, or the old draft and there are none. -/
def Answers (sought : Draft → Prop) (d : Draft) : Bool × Draft → Prop
  | (true, d') => sought d'
  | (false, d') => d' = d ∧ ∀ d'', ¬ sought d''

def Ahead (d : Draft) (rest : Route) (d' : Draft) : Prop := ∃ cs, Leads d rest cs d'

def Past (d : Draft) (rest : Route) (c : Choice) (d' : Draft) : Prop :=
  ∃ d₁ behind, Makes d rest c d₁ behind ∧ Ahead d₁ behind d'

theorem retract_call (d : Draft) (i : Nat) : (d.call i).retract = d := by
  simp [call, retract]

theorem withdraw_introduce (d : Draft) (f : Route) : (d.introduce f).withdraw = d := by
  simp [introduce, withdraw]

theorem mem_choices_call : Choice.call i ∈ d.choices rest ↔ i < d.functions.length := by
  rw [choices]
  split <;> simp

theorem mem_choices_introduce {k : Nat} : Choice.introduce k ∈ d.choices rest ↔
    d.functions.length < Routines.names.length ∧ k ∈ fitting rest := by
  rw [choices]
  split
  · rename_i few
    simp [few]
  · rename_i many
    simp [many]

theorem Makes.offered (makes : Makes d rest c d₁ behind) : c ∈ d.choices rest := by
  cases makes with
  | call found front => exact mem_choices_call.mpr (List.getElem?_eq_some_iff.mp found).1
  | introduce few fits => exact mem_choices_introduce.mpr ⟨few, fits⟩

theorem isFull_eq_false_iff : d.isFull = false ↔ d.main.length < 10 := by
  rw [isFull, decide_eq_false_iff_not, Routines.maxLine]
  omega

theorem answers_attempt {search : Route → Draft → Bool × Draft}
    (further : ∀ behind d₁, d₁.main.length = d.main.length + 1 →
      Answers (Ahead d₁ behind) d₁ (search behind d₁))
    (offered : c ∈ d.choices rest) : Answers (Past d rest c) d (attempt search rest c d) := by
  cases c with
  | call i =>
      rw [attempt.eq_def]
      dsimp only
      split
      · rename_i missing
        rw [List.getElem?_eq_none_iff] at missing
        exact absurd (mem_choices_call.mp offered) (Nat.not_lt.mpr missing)
      · rename_i f found
        split
        · rename_i apart
          refine ⟨rfl, ?_⟩
          rintro d'' ⟨d₁, behind, makes, -⟩
          cases makes with
          | call found' front =>
              cases found.symm.trans found'
              rw [List.isPrefixOf?_eq_some_iff_append_eq.mpr front] at apart
              cases apart
        · rename_i behind front
          obtain rfl : f ++ behind = rest := List.isPrefixOf?_eq_some_iff_append_eq.mp front
          -- A call can leave only this route behind it.
          have later := further behind (d.call i) (by simp [call])
          split
          · rename_i d' succeeds
            rw [succeeds] at later
            exact ⟨_, _, .call found rfl, later⟩
          · rename_i d' fails
            rw [fails] at later
            obtain ⟨rfl, never⟩ := later
            refine ⟨retract_call d i, ?_⟩
            rintro d'' ⟨d₁, behind', makes, ahead⟩
            cases makes with
            | call found' front' =>
                cases found.symm.trans found'
                cases List.append_cancel_left front'
                exact never d'' ahead
  | introduce k =>
      rw [attempt.eq_def]
      dsimp only
      obtain ⟨few, fits⟩ := mem_choices_introduce.mp offered
      have later := further (rest.drop k) (d.introduce (rest.take k)) (by simp [introduce])
      split
      · rename_i d' succeeds
        rw [succeeds] at later
        exact ⟨_, _, .introduce few fits, later⟩
      · rename_i d' fails
        rw [fails] at later
        obtain ⟨rfl, never⟩ := later
        refine ⟨withdraw_introduce d _, ?_⟩
        rintro d'' ⟨d₁, behind, makes, ahead⟩
        cases makes with
        | introduce few fits => exact never d'' ahead

theorem answers_tryEach {sought : Choice → Draft → Prop} {attempt : Choice → Draft → Bool × Draft}
    {cs : List Choice} (each : ∀ c ∈ cs, Answers (sought c) d (attempt c d)) :
    Answers (fun d' => ∃ c ∈ cs, sought c d') d (tryEach attempt cs d) := by
  induction cs with
  | nil =>
      refine ⟨rfl, ?_⟩
      rintro d'' ⟨c, none, -⟩
      cases none
  | cons c cs ih =>
      have first := each c List.mem_cons_self
      have others := ih fun c' later => each c' (List.mem_cons_of_mem c later)
      rw [tryEach]
      split
      · rename_i d' succeeds
        rw [succeeds] at first
        exact ⟨c, List.mem_cons_self, first⟩
      · rename_i d' fails
        rw [fails] at first
        obtain ⟨rfl, never⟩ := first
        -- A choice in vain gives back the draft that the next one starts from.
        rcases tried : tryEach attempt cs d' with ⟨found, d''⟩
        rw [tried] at others
        cases found with
        | true =>
            obtain ⟨c', later, sought⟩ := others
            exact ⟨c', List.mem_cons_of_mem c later, sought⟩
        | false =>
            obtain ⟨rfl, neverLater⟩ := others
            refine ⟨rfl, ?_⟩
            rintro e ⟨c', among, sought⟩
            rcases List.mem_cons.mp among with rfl | later
            · exact never e sought
            · exact neverLater e ⟨c', later, sought⟩

/-- With as many levels as there is room for calls, the search finds a draft if there is one. -/
theorem answers_search {depth : Nat} (enough : 10 ≤ depth + d.main.length) (rest : Route) :
    Answers (Ahead d rest) d (search depth rest d) := by
  -- On the levels: each puts one call on the main line, and when none is left the line is full.
  induction depth generalizing rest d with
  | zero =>
      cases rest with
      | nil => exact ⟨[], .done d⟩
      | cons command rest =>
          refine ⟨rfl, ?_⟩
          rintro d'' ⟨cs, leads⟩
          cases leads with
          | choose left room first later =>
              have short := isFull_eq_false_iff.mp room
              omega
  | succ depth ih =>
      cases rest with
      | nil => exact ⟨[], .done d⟩
      | cons command rest =>
          rw [search]
          split
          · rename_i full
            refine ⟨rfl, ?_⟩
            rintro d'' ⟨cs, leads⟩
            cases leads with
            | choose left room first later =>
                rw [full] at room
                cases room
          · rename_i room
            rw [Bool.not_eq_true] at room
            have each : ∀ c ∈ d.choices (command :: rest),
                Answers (Past d (command :: rest) c) d
                  (attempt (search depth) (command :: rest) c d) := by
              intro c offered
              refine answers_attempt ?_ offered
              intro behind d₁ longer
              exact ih (by omega) behind
            have tried := answers_tryEach each
            rcases answer : tryEach (attempt (search depth) (command :: rest))
              (d.choices (command :: rest)) d with ⟨found, d'⟩
            rw [answer] at tried
            cases found with
            | true =>
                obtain ⟨c, -, d₁, behind, makes, cs, leads⟩ := tried
                exact ⟨c :: cs, .choose (List.cons_ne_nil _ _) room makes leads⟩
            | false =>
                obtain ⟨rfl, never⟩ := tried
                refine ⟨rfl, ?_⟩
                rintro d'' ⟨cs, leads⟩
                cases leads with
                | choose left room first later =>
                    exact never d'' ⟨_, first.offered, _, _, first, _, later⟩

theorem answers_start (rest : Route) : Answers (Ahead {} rest) {} (search searchDepth rest {}) :=
  answers_search (by decide) rest

/-- The draft `d'` has all that `d` has, and its new calls make `rest`. -/
structure Covers (d d' : Draft) (rest : Route) : Prop where
  functions : d.functions <+: d'.functions
  calls : ∃ calls, d'.main = d.main ++ calls ∧ Routines.spell d'.functions calls = .ok rest

theorem covers_nil (d : Draft) : Covers d d [] :=
  ⟨List.prefix_rfl, [], (List.append_nil _).symm, Routines.spell_nil _⟩

theorem getElem?_of_front {fs gs : List Route} (earlier : fs <+: gs) (found : fs[i]? = some f) :
    gs[i]? = some f := by
  obtain ⟨more, rfl⟩ := earlier
  obtain ⟨inside, -⟩ := List.getElem?_eq_some_iff.mp found
  rw [List.getElem?_append_left inside]
  exact found

theorem Covers.of_first (covers : Covers d₁ d' behind)
    (functions : d.functions <+: d₁.functions) (main : d₁.main = d.main ++ [i])
    (found : d₁.functions[i]? = some f) : Covers d d' (f ++ behind) := by
  obtain ⟨later, calls, same, spelled⟩ := covers
  refine ⟨functions.trans later, i :: calls, ?_, ?_⟩
  · rw [same, main, List.append_assoc, List.singleton_append]
  · exact Routines.spell_cons (getElem?_of_front later found) spelled

theorem Covers.of_makes (covers : Covers d₁ d' behind) (makes : Makes d rest c d₁ behind) :
    Covers d d' rest := by
  cases makes with
  | call found front =>
      subst front
      exact covers.of_first List.prefix_rfl rfl found
  | @introduce k few fits =>
      rw [← List.take_append_drop k rest]
      refine covers.of_first (List.prefix_append _ _) rfl ?_
      simp [introduce]

theorem Leads.covers (leads : Leads d rest cs d') : Covers d d' rest := by
  induction leads with
  | done d => exact covers_nil d
  | choose left room first later ih => exact ih.of_makes first

end Draft

theorem Route.leads_of_compress? {r : Route} {routines : Routines}
    (found : r.compress? = some routines) :
    ∃ cs, Draft.Leads {} r cs ⟨routines.functions, routines.main⟩ := by
  rw [compress?] at found
  split at found
  · cases found
  · have answers := Draft.answers_start r
    split at found
    · rename_i d succeeds
      cases found
      rw [succeeds] at answers
      exact answers
    · cases found

theorem Route.not_leads_of_compress? {r : Route} (nonempty : r ≠ []) (missing : r.compress? = none)
    (cs : List Choice) (d : Draft) : ¬ Draft.Leads {} r cs d := by
  rw [compress?, if_neg (by simpa using nonempty)] at missing
  have answers := Draft.answers_start r
  split at missing
  · cases missing
  · rename_i d' fails
    rw [fails] at answers
    intro leads
    exact answers.2 d ⟨cs, leads⟩

theorem Route.expand_of_compress? {r : Route} {routines : Routines}
    (found : r.compress? = some routines) : routines.expand = .ok r := by
  obtain ⟨cs, leads⟩ := leads_of_compress? found
  obtain ⟨-, calls, main, spelled⟩ := leads.covers
  obtain rfl : routines.main = calls := main
  rw [Routines.expand_eq_spell]
  exact spelled

end Shipboard
