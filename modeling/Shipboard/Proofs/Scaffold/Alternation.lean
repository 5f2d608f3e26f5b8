import Mathlib.Algebra.GroupWithZero.Nat
import Mathlib.Data.List.Chain
import Shipboard.Proofs.Core.Failing
import Shipboard.Proofs.Scaffold.Moving

/-!
Runs of steps. A route made of moves has one command for each run of steps, and it is the only such
route with these moves. Where every turn is followed by a step, turns and runs alternate, and there
are at most twice as many moves as there are steps.
-/

namespace Shipboard

/-- Two lists that start with runs of `a`, each as long as it can be, have these runs and what
follows them in common. -/
theorem replicate_append_inj {α : Type} {a : α} {j k : Nat} {xs ys : List α}
    (ends : xs.head? ≠ some a) (ends' : ys.head? ≠ some a)
    (same : List.replicate j a ++ xs = List.replicate k a ++ ys) : j = k ∧ xs = ys := by
  induction j generalizing k with
  | zero =>
      cases k with
      | zero => exact ⟨rfl, same⟩
      | succ k =>
          rw [List.replicate_succ, List.cons_append] at same
          simp only [List.replicate_zero, List.nil_append] at same
          simp [same] at ends
  | succ j ih =>
      cases k with
      | zero =>
          rw [List.replicate_succ, List.cons_append] at same
          simp only [List.replicate_zero, List.nil_append] at same
          simp [← same] at ends'
      | succ k =>
          simp only [List.replicate_succ, List.cons_append, List.cons.injEq, true_and] at same
          obtain ⟨runs, rest⟩ := ih same
          exact ⟨congrArg _ runs, rest⟩

namespace Command

def isTurn : Command → Bool
  | .forward _ => false
  | _ => true

def steps : Command → Nat
  | .forward n => n.toNat
  | _ => 0

theorem count_moves (c : Command) : c.moves.count .step = c.steps := by
  cases c <;> simp [moves, steps]

theorem reverse_moves (c : Command) : c.moves.reverse = c.moves := by
  cases c <;> simp [moves]

/-- The move that a command makes, once or several times. -/
def move : Command → Move
  | .left => .left
  | .right => .right
  | .forward _ => .step

theorem head?_moves_append {c : Command} (moving : c.moves ≠ []) (ms : List Move) :
    (c.moves ++ ms).head? = some c.move := by
  cases c with
  | left => rfl
  | right => rfl
  | forward n =>
      obtain ⟨k, count⟩ : ∃ k, n.toNat = k + 1 := by
        cases count : n.toNat with
        | zero => simp [moves, count] at moving
        | succ k => exact ⟨k, rfl⟩
      simp [moves, move, count, List.replicate_succ]

theorem getLast?_append_moves {c : Command} (moving : c.moves ≠ []) (ms : List Move) :
    (ms ++ c.moves).getLast? = some c.move := by
  rw [← List.head?_reverse, List.reverse_append, reverse_moves, head?_moves_append moving]

theorem isTurn_iff (c : Command) : c.isTurn = true ↔ c.move ≠ .step := by
  cases c <;> simp [isTurn, move]

theorem moves_forward_ne_nil {n : UInt32} : (forward n).moves ≠ [] ↔ 1 ≤ n.toNat := by
  rw [moves, Ne, List.replicate_eq_nil_iff, Nat.one_le_iff_ne_zero]

end Command

namespace Route

variable {c : Command} {r r' : Route} {m : Move} {ms : List Move}

def distance (r : Route) : Nat := (r.map Command.steps).sum

/-- No two turns and no two runs of steps are next to each other. -/
def Alternates (r : Route) : Prop := r.IsChain fun c d => c.isTurn ≠ d.isTurn

/-- Every command makes a move, and every run of steps is a single command. -/
structure Compact (r : Route) : Prop where
  moving : ∀ c ∈ r, c.moves ≠ []
  whole : r.IsChain fun c d => c.isTurn = true ∨ d.isTurn = true

theorem count_moves (r : Route) : r.moves.count .step = r.distance := by
  have each : List.count Move.step ∘ Command.moves = Command.steps := by
    funext c
    exact c.count_moves
  rw [moves, List.count_flatMap, each, distance]

theorem moves_reverse (r : Route) : moves r.reverse = r.moves.reverse := by
  have each : List.reverse ∘ Command.moves = Command.moves := by
    funext c
    exact c.reverse_moves
  rw [moves, moves, List.reverse_flatMap, each]

theorem moves_append (front back : Route) : moves (front ++ back) = front.moves ++ back.moves :=
  List.flatMap_append

theorem compact_nil : Compact [] := ⟨nofun, List.isChain_nil⟩

theorem Compact.tail (compact : Compact (c :: r)) : r.Compact :=
  ⟨fun d later => compact.moving d (List.mem_cons_of_mem c later), compact.whole.tail⟩

theorem Compact.reverse (compact : r.Compact) : Compact r.reverse := by
  constructor
  · intro c among
    exact compact.moving c (List.mem_reverse.mp among)
  · apply List.isChain_reverse.mpr
    exact compact.whole.imp fun c d either => either.symm

theorem Compact.head_ne_step {n : UInt32} (compact : Compact (.forward n :: r)) :
    r.moves.head? ≠ some .step := by
  cases r with
  | nil => simp [moves]
  | cons d r =>
      have turn := (List.isChain_cons_cons.mp compact.whole).1
      cases d with
      | left => simp [moves, Command.moves]
      | right => simp [moves, Command.moves]
      | forward k => simp [Command.isTurn] at turn

theorem Compact.eq_of_moves (compact : r.Compact) (compact' : r'.Compact)
    (same : r.moves = r'.moves) : r = r' := by
  -- Command by command: no step follows a run, so the moves tell where it ends.
  induction r generalizing r' with
  | nil =>
      cases r' with
      | nil => rfl
      | cons d r' =>
          have first := compact'.moving d List.mem_cons_self
          rw [moves_cons] at same
          exact absurd (List.append_eq_nil_iff.mp same.symm).1 first
  | cons c r ih =>
      have first := compact.moving c List.mem_cons_self
      cases r' with
      | nil =>
          rw [moves_cons] at same
          exact absurd (List.append_eq_nil_iff.mp same).1 first
      | cons d r' =>
          have first' := compact'.moving d List.mem_cons_self
          rw [moves_cons, moves_cons] at same
          have kind : c.move = d.move := by
            have heads := congrArg List.head? same
            rw [Command.head?_moves_append first, Command.head?_moves_append first'] at heads
            exact Option.some.inj heads
          have rest : moves r = moves r' → r = r' := ih compact.tail compact'.tail
          cases c with
          | left =>
              cases d with
              | left => rw [rest (List.cons.inj same).2]
              | right => cases kind
              | forward k => cases kind
          | right =>
              cases d with
              | left => cases kind
              | right => rw [rest (List.cons.inj same).2]
              | forward k => cases kind
          | forward n =>
              cases d with
              | left => cases kind
              | right => cases kind
              | forward k =>
                  obtain ⟨runs, others⟩ :=
                    replicate_append_inj compact.head_ne_step compact'.head_ne_step same
                  rw [rest others, UInt32.toNat_inj.mp runs]

theorem Compact.cons (compact : r.Compact) (moving : c.moves ≠ [])
    (apart : ∀ d ∈ r.head?, c.isTurn = true ∨ d.isTurn = true) : Compact (c :: r) := by
  constructor
  · intro d among
    rcases List.mem_cons.mp among with rfl | later
    · exact moving
    · exact compact.moving d later
  · exact List.isChain_cons.mpr ⟨apart, compact.whole⟩

theorem Compact.prepend (compact : r.Compact) (longer : Route.prepend m r = .ok r') :
    r'.Compact := by
  cases m with
  | left =>
      cases longer
      exact compact.cons (by simp [Command.moves]) (by simp [Command.isTurn])
  | right =>
      cases longer
      exact compact.cons (by simp [Command.moves]) (by simp [Command.isTurn])
  | step =>
      have single : (Command.forward 1).moves ≠ [] := by simp [Command.moves]
      cases r with
      | nil =>
          cases longer
          exact compact.cons single (by simp)
      | cons command r =>
          cases command with
          | left =>
              cases longer
              exact compact.cons single (by simp [Command.isTurn])
          | right =>
              cases longer
              exact compact.cons single (by simp [Command.isTurn])
          | forward n =>
              rw [Route.prepend] at longer
              split at longer
              · rename_i room
                cases longer
                have longerRun : (Command.forward (n + 1)).moves ≠ [] := by
                  rw [Command.moves_forward_ne_nil, UInt32.toNat_add, UInt32.toNat_one]
                  rw [Nat.mod_eq_of_lt room]
                  exact Nat.le_add_left 1 _
                exact compact.tail.cons longerRun (List.isChain_cons.mp compact.whole).1
              · cases longer

theorem compact_of_ofMoves (made : ofMoves ms = .ok r) : r.Compact := by
  induction ms generalizing r with
  | nil =>
      cases made
      exact compact_nil
  | cons m ms ih =>
      rw [ofMoves, List.foldrM_cons] at made
      obtain ⟨later, rest, longer⟩ := ok_of_bind made
      exact (ih rest).prepend longer

/-- Every turn but the last move is followed by a step. -/
def TurnsToSteps (ms : List Move) : Prop := ms.IsChain fun m m' => m ≠ .step → m' = .step

theorem alternates_of_turnsToSteps (compact : r.Compact) (turns : TurnsToSteps r.moves) :
    r.Alternates := by
  induction r with
  | nil => exact List.isChain_nil
  | cons c r ih =>
      have first := compact.moving c List.mem_cons_self
      rw [moves_cons] at turns
      have later := ih compact.tail turns.right_of_append
      cases r with
      | nil => exact List.isChain_singleton c
      | cons d r =>
          have next := compact.tail.moving d List.mem_cons_self
          have either := (List.isChain_cons_cons.mp compact.whole).1
          have last : c.move ∈ c.moves.getLast? := by
            simpa using Command.getLast?_append_moves first []
          have head : d.move ∈ (moves (d :: r)).head? := Command.head?_moves_append next _
          have turned := (List.isChain_append.mp turns).2.2 _ last _ head
          rw [← Command.isTurn_iff] at turned
          refine List.isChain_cons_cons.mpr ⟨?_, later⟩
          intro same
          rw [same, or_self] at either
          exact (Command.isTurn_iff d).mp either (turned (same.trans either))

theorem exists_run_at_end (compact : r.Compact) (some_command : r ≠ [])
    (last : ∀ m ∈ r.moves.getLast?, m = .step) : ∃ n, r.getLast? = some (.forward n) := by
  rcases List.eq_nil_or_concat r with rfl | ⟨front, c, rfl⟩
  · exact absurd rfl some_command
  · rw [List.concat_eq_append] at compact last ⊢
    have moving := compact.moving c (by simp)
    have same : moves (front ++ [c]) = moves front ++ c.moves := by simp [moves]
    rw [same, Command.getLast?_append_moves moving] at last
    have step := last c.move rfl
    cases c with
    | left => cases step
    | right => cases step
    | forward n => exact ⟨n, List.getLast?_concat⟩

theorem length_le_length_moves (compact : r.Compact) : r.length ≤ r.moves.length := by
  induction r with
  | nil => exact Nat.le_refl 0
  | cons c r ih =>
      have first := List.length_pos_of_ne_nil (compact.moving c List.mem_cons_self)
      have others := ih compact.tail
      rw [moves_cons, List.length_append, List.length_cons]
      omega

theorem length_le_two_mul_count (turns : TurnsToSteps ms)
    (last : ∀ m ∈ ms.getLast?, m = .step) : ms.length ≤ 2 * ms.count .step := by
  -- A list that starts with a step has room for one turn more.
  suffices room : ms.length ≤ 2 * ms.count .step ∧
      (ms.head? = some .step → ms.length + 1 ≤ 2 * ms.count .step) from room.1
  induction ms with
  | nil => simp
  | cons m ms ih =>
      have later : ∀ m ∈ ms.getLast?, m = .step := by
        intro m' among
        apply last
        rw [List.getLast?_cons, among]
        rfl
      obtain ⟨bound, room⟩ := ih turns.tail later
      by_cases step : m = .step
      · subst step
        simp only [List.length_cons, List.count_cons_self]
        omega
      · cases ms with
        | nil => exact absurd (last m rfl) step
        | cons m' ms =>
            have next := (List.isChain_cons_cons.mp turns).1 step
            have start := room (congrArg some next)
            have other : (m :: m' :: ms).count .step = (m' :: ms).count .step :=
              List.count_cons_of_ne step
            rw [other, List.length_cons]
            refine ⟨start, ?_⟩
            intro head
            exact absurd (Option.some.inj head) step

end Route

end Shipboard
