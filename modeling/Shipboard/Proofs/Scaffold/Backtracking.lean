import Shipboard.Proofs.Scaffold.Precedence

/-!
The recursion of the search. It tries the known functions on the draft and then, on the draft that
this has left, new ones, and searches on behind each choice that it makes. A choice that is in vain
leaves the draft as it was, so both rounds start from the same draft, and a search inside another
has one call more on its main line. Past eleven searches inside one another the main line would be
too long, so the recursion ends by itself.
-/

namespace Shipboard

namespace Draft

variable {d d' : Draft} {rest : Route} {depth : Nat} {c : Choice} {cs cs' : List Choice}

def calls (d : Draft) : List Choice := (List.range d.functions.length).map .call

/-- The new functions, the longest first. -/
def introductions (d : Draft) (rest : Route) : List Choice :=
  if d.functions.length < Routines.names.length then (fitting rest).reverse.map .introduce
  else []

theorem choices_eq (d : Draft) (rest : Route) :
    d.choices rest = d.calls ++ d.introductions rest := rfl

/-- One search, with `further` for those inside it. -/
def searchBy (further : Route → Draft → Bool × Draft) : Route → Draft → Bool × Draft
  | [], d => (true, d)
  | command :: rest, d =>
      if d.isFull then (false, d)
      else
        match tryEach (attempt further (command :: rest)) d.calls d with
        | (true, d) => (true, d)
        | (false, d) =>
            tryEach (attempt further (command :: rest)) (d.introductions (command :: rest)) d

/-- So many searches inside one another, with `further` for those that are deeper. -/
def nested (further : Route → Draft → Bool × Draft) : (depth : Nat) → Route → Draft → Bool × Draft
  | 0 => further
  | depth + 1 => searchBy (nested further depth)

theorem tryEach_append (attempt : Choice → Draft → Bool × Draft) (cs cs' : List Choice)
    (d : Draft) :
    tryEach attempt (cs ++ cs') d =
      match tryEach attempt cs d with
      | (true, d) => (true, d)
      | (false, d) => tryEach attempt cs' d := by
  induction cs generalizing d with
  | nil => rfl
  | cons c cs ih =>
      rw [List.cons_append, tryEach, tryEach]
      rcases attempt c d with ⟨found, d'⟩
      cases found with
      | true => rfl
      | false => exact ih d'

theorem tryEach_congr {attempt attempt' : Choice → Draft → Bool × Draft}
    (same : ∀ c ∈ cs, attempt c d = attempt' c d)
    (restores : ∀ c ∈ cs, ∀ d', attempt' c d = (false, d') → d' = d) :
    tryEach attempt cs d = tryEach attempt' cs d := by
  induction cs with
  | nil => rfl
  | cons c cs ih =>
      have others := ih (fun c' later => same c' (List.mem_cons_of_mem c later))
        (fun c' later => restores c' (List.mem_cons_of_mem c later))
      rw [tryEach, tryEach, same c List.mem_cons_self]
      rcases tried : attempt' c d with ⟨found, d'⟩
      cases found with
      | true => rfl
      | false =>
          obtain rfl := restores c List.mem_cons_self d' tried
          exact others

theorem attempt_congr {further further' : Route → Draft → Bool × Draft}
    (same : ∀ behind d₁, d₁.main.length = d.main.length + 1 →
      further behind d₁ = further' behind d₁) (rest : Route) (c : Choice) :
    attempt further rest c d = attempt further' rest c d := by
  cases c with
  | call i =>
      rw [attempt.eq_def, attempt.eq_def]
      dsimp only
      split
      · rfl
      · split
        · rfl
        · rw [same _ (d.call i) (by simp [call])]
  | introduce k =>
      rw [attempt.eq_def, attempt.eq_def]
      dsimp only
      rw [same _ (d.introduce (rest.take k)) (by simp [introduce])]

theorem Answers.restores {sought : Draft → Prop} {answer : Bool × Draft}
    (answers : Answers sought d answer) (fails : answer = (false, d')) : d' = d := by
  subst fails
  exact answers.1

theorem searchBy_of_isFull (full : d.isFull = true) (further : Route → Draft → Bool × Draft) :
    searchBy further rest d = search depth rest d := by
  cases rest with
  | nil => cases depth <;> rfl
  | cons command rest =>
      rw [searchBy, if_pos full]
      cases depth with
      | zero => rfl
      | succ depth => rw [search, if_pos full]

theorem searchBy_eq_search {further : Route → Draft → Bool × Draft}
    (enough : 10 ≤ depth + 1 + d.main.length)
    (same : ∀ behind d₁, d₁.main.length = d.main.length + 1 →
      further behind d₁ = search depth behind d₁) :
    searchBy further rest d = search (depth + 1) rest d := by
  cases rest with
  | nil => rfl
  | cons command rest =>
      have each : ∀ c, attempt further (command :: rest) c d =
          attempt (search depth) (command :: rest) c d := attempt_congr same _
      have answers : ∀ c ∈ d.choices (command :: rest), Answers (Past d (command :: rest) c) d
          (attempt (search depth) (command :: rest) c d) := fun _ =>
        answers_attempt_search enough
      rw [choices_eq, List.forall_mem_append] at answers
      obtain ⟨known, new⟩ := answers
      -- The first round gives the draft back, so two rounds in turn try all the choices at once.
      have first : tryEach (attempt further (command :: rest)) d.calls d =
          tryEach (attempt (search depth) (command :: rest)) d.calls d :=
        tryEach_congr (fun c _ => each c) fun c among d' => (known c among).restores
      have second : tryEach (attempt further (command :: rest))
            (d.introductions (command :: rest)) d =
          tryEach (attempt (search depth) (command :: rest))
            (d.introductions (command :: rest)) d :=
        tryEach_congr (fun c _ => each c) fun c among d' => (new c among).restores
      rw [searchBy, search, choices_eq, tryEach_append, first]
      split
      · rfl
      · rcases tried : tryEach (attempt (search depth) (command :: rest)) d.calls d
          with ⟨found, d'⟩
        cases found with
        | true => rfl
        | false =>
            obtain rfl := (answers_tryEach known).restores tried
            exact second

/-- The main line has no room for deeper searches than these. -/
theorem nested_eq_search {levels : Nat} (further : Route → Draft → Bool × Draft)
    (some_level : 0 < levels) (levels_enough : 11 ≤ levels + d.main.length)
    (depth_enough : 11 ≤ depth + d.main.length) :
    nested further levels rest d = search depth rest d := by
  -- On the levels, while the main line grows by a call with each; a full line goes no deeper.
  induction levels generalizing rest d depth with
  | zero => exact absurd some_level (Nat.lt_irrefl 0)
  | succ levels ih =>
      rw [nested]
      cases full : d.isFull with
      | true => exact searchBy_of_isFull full _
      | false =>
          have short := isFull_eq_false_iff.mp full
          obtain ⟨depth, rfl⟩ := Nat.exists_eq_succ_of_ne_zero (n := depth) (by omega)
          refine searchBy_eq_search (by omega) ?_
          intro behind d₁ longer
          exact ih (by omega) (by omega) (by omega)

theorem searchBy_searchDepth (rest : Route) (d : Draft) :
    searchBy (search searchDepth) rest d = search searchDepth rest d := by
  have whole : nested (search searchDepth) searchDepth = search searchDepth := by
    funext behind d₁
    exact nested_eq_search _ (by decide) (Nat.le_add_right _ _) (Nat.le_add_right _ _)
  have deeper : nested (search searchDepth) (searchDepth + 1) rest d = search searchDepth rest d :=
    nested_eq_search _ (by decide) (by rw [searchDepth]; omega) (Nat.le_add_right _ _)
  rw [nested, whole] at deeper
  exact deeper

theorem nested_of_recursion {run : Route → Draft → Bool × Draft}
    (recursion : ∀ rest d, run rest d = searchBy run rest d) (levels : Nat) :
    nested run levels = run := by
  induction levels with
  | zero => rfl
  | succ levels ih =>
      funext rest d
      rw [nested, ih, recursion]

end Draft

open Draft

/-- The recursion of the search ends: one function alone searches as the recursion says, and from a
draft with `n` calls no more than `11 - n` searches, or a single one, are ever inside one another. A
search that fails gives the draft back; one that succeeds has only added to it, and the calls that
are new make what was left of the route. -/
theorem search_restores_or_extends :
    (∀ run : Route → Draft → Bool × Draft,
      (∀ rest d, run rest d = searchBy run rest d) ↔ run = search searchDepth) ∧
    ∀ (rest : Route) (d : Draft),
      (∀ further levels, 0 < levels → 11 ≤ levels + d.main.length →
        nested further levels rest d = search searchDepth rest d) ∧
      (∀ d', search searchDepth rest d = (false, d') → d' = d) ∧
      ∀ d', search searchDepth rest d = (true, d') →
        d.functions <+: d'.functions ∧
        ∃ calls, d'.main = d.main ++ calls ∧ Routines.expand ⟨calls, d'.functions⟩ = .ok rest := by
  refine ⟨?recursion, ?calls⟩
  case recursion =>
    intro run
    constructor
    · intro recursion
      funext rest d
      calc run rest d
          = nested run searchDepth rest d := by rw [nested_of_recursion recursion]
        _ = search searchDepth rest d :=
          nested_eq_search run (by decide) (Nat.le_add_right _ _) (Nat.le_add_right _ _)
    · rintro rfl rest d
      exact (searchBy_searchDepth rest d).symm
  case calls =>
    intro rest d
    have answers : Answers (Ahead d rest) d (search searchDepth rest d) :=
      answers_search (by rw [searchDepth]; omega) rest
    refine ⟨?levels, fun d' => answers.restores, ?grows⟩
    case levels =>
      intro further levels some_level enough
      exact nested_eq_search further some_level enough (Nat.le_add_right _ _)
    case grows =>
      intro d' succeeds
      rw [succeeds] at answers
      obtain ⟨cs, leads⟩ := answers
      obtain ⟨functions, calls, main, spelled⟩ := leads.covers
      refine ⟨functions, calls, main, ?_⟩
      rw [Routines.expand_eq_spell]
      exact spelled

def turns : Draft := ⟨[[.left], [.right]], [0, 1]⟩

/-- In front of fifteen different numbers of steps a third function is introduced in vain, of seven
commands or fewer; where only two commands are new, they make the third function. -/
theorem search_restores_or_extends_turns :
    (∀ further, nested further 9 [.left, .forward 2, .right] turns =
      search searchDepth [.left, .forward 2, .right] turns) ∧
    search searchDepth ((List.range 15).map fun n => .forward (.ofNat (n + 10))) turns =
      (false, turns) ∧
    ∃ d', search searchDepth [.left, .forward 2, .right] turns = (true, d') ∧
      turns.functions <+: d'.functions ∧
      ∃ calls, d'.main = turns.main ++ calls ∧
        Routines.expand ⟨calls, d'.functions⟩ = .ok [.left, .forward 2, .right] := by
  obtain ⟨-, each⟩ := search_restores_or_extends
  refine ⟨?levels, ?restores, ?grows⟩
  case levels =>
    intro further
    exact (each _ turns).1 further 9 (by decide) (by decide)
  case restores =>
    have vain : (search searchDepth
        ((List.range 15).map fun n => .forward (.ofNat (n + 10))) turns).1 = false := by
      decide +kernel
    exact Prod.ext vain ((each _ turns).2.1 _ (Prod.ext vain rfl))
  case grows =>
    have found : search searchDepth [.left, .forward 2, .right] turns =
        (true, ⟨[[.left], [.right], [.forward 2, .right]], [0, 1, 0, 2]⟩) := by decide +kernel
    exact ⟨_, found, (each _ turns).2.2 _ found⟩

end Shipboard
