import Mathlib.Data.List.Pairwise
import Mathlib.Data.List.Perm.Subperm
import Mathlib.Logic.Relation
import Shipboard.Proofs.Scaffold.Tracing

/-!
The walk on a simple scaffold, one that hangs together and on which no cell has more than two
neighbours. The robot never turns round, so between the cell it came from and the cell it goes to
there is no third way, and the only cell it can come back to is the one where it started. From one
end to the other it visits every cell once; a ring it goes around.
-/

namespace Shipboard

namespace Point

variable {c d : Point}

theorem mem_neighbours_iff : d ∈ c.neighbours ↔ ∃ f : Facing, d = c + f.delta := by
  simp [neighbours, Facing.mem_all, eq_comm]

theorem mem_neighbours_comm : d ∈ c.neighbours ↔ c ∈ d.neighbours := by
  have back : ∀ {c d : Point}, d ∈ c.neighbours → c ∈ d.neighbours := by
    intro c d near
    obtain ⟨f, rfl⟩ := mem_neighbours_iff.mp near
    refine mem_neighbours_iff.mpr ⟨f.turnRight.turnRight, ?_⟩
    obtain ⟨x, y⟩ := c
    cases f <;> simp [add_def, Facing.turnRight, Facing.delta]
  exact ⟨back, back⟩

theorem notMem_neighbours_self (c : Point) : c ∉ c.neighbours := by
  intro near
  obtain ⟨f, same⟩ := mem_neighbours_iff.mp near
  obtain ⟨x, y⟩ := c
  rw [add_def, mk.injEq] at same
  obtain ⟨across, down⟩ := same
  cases f <;> simp only [Facing.delta] at across down <;> omega

theorem nodup_neighbours (c : Point) : c.neighbours.Nodup := by
  simp [neighbours, Facing.all, add_def, Facing.delta]

end Point

namespace Pose

variable {p : Pose} {c : Point}

def behind (p : Pose) : Point := p.turnRight.turnRight.ahead

theorem behind_forward (p : Pose) : p.forward.behind = p.cell := by
  obtain ⟨⟨x, y⟩, f⟩ := p
  cases f <;> simp [behind, forward, ahead, turnRight, Point.add_def, Facing.turnRight,
    Facing.delta]

theorem mem_neighbours_iff : c ∈ p.cell.neighbours ↔
    c = p.ahead ∨ c = p.onRight ∨ c = p.onLeft ∨ c = p.behind := by
  rw [← p.ahead_turnRight, ← p.ahead_turnLeft]
  obtain ⟨d, f⟩ := p
  cases f <;> simp [Point.neighbours, Facing.all, behind, ahead, turnRight, turnLeft,
    Facing.turnRight, Facing.turnLeft] <;> tauto

theorem ahead_ne_behind (p : Pose) : p.ahead ≠ p.behind ∧ p.onRight ≠ p.behind ∧
    p.onLeft ≠ p.behind := by
  rw [← p.ahead_turnRight, ← p.ahead_turnLeft]
  obtain ⟨⟨x, y⟩, f⟩ := p
  cases f <;> simp [behind, ahead, turnRight, turnLeft, Point.add_def, Facing.turnRight,
    Facing.turnLeft, Facing.delta]

/-- The cells that are visited on the way from `p` along `ms`, the first one included. -/
def visited (p : Pose) (ms : List Move) : List Point := (p.reached ms).map (·.cell)

end Pose

namespace Scaffold

variable {s : Scaffold} {p a r b : Pose} {c d : Point}

def around (s : Scaffold) (c : Point) : List Point := c.neighbours.filter s.has

def Adjacent (s : Scaffold) (c d : Point) : Prop := s.has c = true ∧ d ∈ s.around c

/-- A scaffold that hangs together and does not branch. -/
structure Simple (s : Scaffold) : Prop where
  connected : ∀ c d, s.has c = true → s.has d = true → Relation.ReflTransGen s.Adjacent c d
  narrow : ∀ c, s.has c = true → (s.around c).length ≤ 2

theorem mem_around : d ∈ s.around c ↔ d ∈ c.neighbours ∧ s.has d = true := List.mem_filter

theorem Adjacent.symm (adjacent : s.Adjacent c d) : s.Adjacent d c := by
  obtain ⟨near, there⟩ := mem_around.mp adjacent.2
  exact ⟨there, mem_around.mpr ⟨Point.mem_neighbours_comm.mp near, adjacent.1⟩⟩

instance : Std.Symm s.Adjacent := ⟨fun _ _ => Adjacent.symm⟩

instance : DecidableRel s.Adjacent := fun c d =>
  inferInstanceAs (Decidable (s.has c = true ∧ d ∈ s.around c))

theorem Adjacent.ne (adjacent : s.Adjacent c d) : c ≠ d := by
  rintro rfl
  exact Point.notMem_neighbours_self c (mem_around.mp adjacent.2).1

theorem Adjacent.mem_of_length_le {cs : List Point} (adjacent : s.Adjacent c d)
    (distinct : cs.Nodup) (next : ∀ e ∈ cs, s.Adjacent c e)
    (few : (s.around c).length ≤ cs.length) : d ∈ cs := by
  have within : cs ⊆ s.around c := fun e among => (next e among).2
  have same := (List.subperm_of_subset distinct within).perm_of_length_le few
  exact same.mem_iff.mpr adjacent.2

/-- From `p` the robot goes to the neighbouring cell of `q`, other than the one at its back. -/
structure Leads (s : Scaffold) (p q : Pose) : Prop where
  adjacent : s.Adjacent p.cell q.cell
  back : q.behind = p.cell
  onward : q.cell ≠ p.behind

theorem Clears.leads {turns : List Move} (start : s.has p.cell = true)
    (clears : s.Clears p turns) : s.Leads p (p.along turns).forward := by
  obtain ⟨ahead, right, left⟩ := p.ahead_ne_behind
  have same : (p.along turns).cell = p.cell ∧ (p.along turns).ahead ∈ p.cell.neighbours ∧
      (p.along turns).ahead ≠ p.behind := by
    rcases clears.turned with rfl | ⟨turn, rfl, notStep, -⟩
    · exact ⟨rfl, Pose.mem_neighbours_iff.mpr (.inl rfl), ahead⟩
    · cases turn with
      | left =>
          rw [← p.ahead_turnLeft] at left
          exact ⟨rfl, Pose.mem_neighbours_iff.mpr (.inr (.inr (.inl p.ahead_turnLeft))), left⟩
      | right =>
          rw [← p.ahead_turnRight] at right
          exact ⟨rfl, Pose.mem_neighbours_iff.mpr (.inr (.inl p.ahead_turnRight)), right⟩
      | step => exact absurd rfl notStep
  obtain ⟨cell, near, onward⟩ := same
  refine { adjacent := ⟨start, mem_around.mpr ⟨near, clears.ahead⟩⟩, back := ?_, onward := onward }
  rw [Pose.behind_forward, cell]

theorem Stranded.eq_behind (stranded : s.Stranded p) (adjacent : s.Adjacent p.cell d) :
    d = p.behind := by
  obtain ⟨near, there⟩ := mem_around.mp adjacent.2
  rcases Pose.mem_neighbours_iff.mp near with rfl | rfl | rfl | rfl
  · exact absurd (there.symm.trans stranded.ahead) (by decide)
  · exact absurd (there.symm.trans stranded.right) (by decide)
  · exact absurd (there.symm.trans stranded.left) (by decide)
  · rfl

/-- On the way there is no third neighbour. -/
theorem Simple.between (simple : s.Simple) (into : s.Leads a r) (out : s.Leads r b)
    (adjacent : s.Adjacent r.cell d) : d = a.cell ∨ d = b.cell := by
  have ways : ∀ d ∈ [a.cell, b.cell], s.Adjacent r.cell d := by
    simpa using ⟨into.adjacent.symm, out.adjacent⟩
  have apart : [a.cell, b.cell].Nodup := by
    simpa [← into.back] using out.onward.symm
  simpa using adjacent.mem_of_length_le apart ways (simple.narrow _ out.adjacent.1)

theorem Clears.reached {turns : List Move} (clears : s.Clears p turns) (ms : List Move) :
    p.reached (turns ++ [.step] ++ ms) = p :: (p.along turns).forward.reached ms := by
  rcases clears.turned with rfl | ⟨turn, rfl, notStep, -⟩
  · rfl
  · cases turn with
    | left => rfl
    | right => rfl
    | step => exact absurd rfl notStep

theorem isChain_walkFrom {fuel : Nat} {seen : Std.ExtTreeSet Pose} (start : s.has p.cell = true) :
    (p.reached (s.walkFrom fuel seen p)).IsChain s.Leads := by
  induction fuel generalizing p seen with
  | zero => exact List.isChain_singleton p
  | succ fuel ih =>
      rcases onward?_cases s p with ⟨nowhere, -⟩ | ⟨turns, onward, clears⟩
      · rw [walkFrom, nowhere]
        exact List.isChain_singleton p
      · have leads := clears.leads start
        have there := leads.adjacent.symm.1
        rw [walkFrom, onward]
        dsimp only
        split
        · have last := clears.reached []
          rw [List.append_nil] at last
          rw [last]
          exact .cons_cons leads (List.isChain_singleton _)
        · rw [clears.reached]
          exact .cons_cons leads (ih there)

theorem walk_ends (start : s.has p.cell = true) : ∃ front last,
    p.reached (s.walk p) = front ++ [last] ∧ (s.Stranded last ∨ last ∈ front) := by
  obtain ⟨walking, ended⟩ := walking_walk start
  rcases List.eq_nil_or_concat (s.walk p) with none | ⟨front, m, split⟩
  · rw [none] at ended ⊢
    rcases ended with stranded | ⟨front, same, -⟩
    · exact ⟨[], p, rfl, .inl stranded⟩
    · simp at same
  · have step := walking.last_step ended m (by simp [split])
    rw [List.concat_eq_append, step] at split
    rw [split] at ended ⊢
    refine ⟨p.reached front, _, Pose.reached_snoc_step p front, ?_⟩
    rw [Over, Pose.along_append] at ended
    rcases ended with stranded | ⟨front', same, again⟩
    · exact .inl stranded
    · obtain ⟨rfl, -⟩ := List.append_inj' same rfl
      exact .inr again

variable {place : Nat → Pose} {i m n : Nat}

/-- The poses `place 0` to `place n` are those that a walk from `p` reaches, in order. -/
structure Course (s : Scaffold) (p : Pose) (n : Nat) (place : Nat → Pose) : Prop where
  start : place 0 = p
  leads : ∀ i < n, s.Leads (place i) (place (i + 1))
  ends : s.Stranded (place n) ∨ ∃ i < n, place i = place n

theorem exists_course (start : s.has p.cell = true) : ∃ n place, s.Course p n place ∧
    p.visited (s.walk p) = (List.range (n + 1)).map fun i => (place i).cell := by
  obtain ⟨front, last, split, ends⟩ := walk_ends start
  have chain : (p.reached (s.walk p)).IsChain s.Leads := isChain_walkFrom start
  have length : (p.reached (s.walk p)).length = front.length + 1 := by simp [split]
  refine ⟨front.length, fun i => (p.reached (s.walk p)).getD i p, ?_, ?_⟩
  · refine { start := rfl, leads := ?_, ends := ?_ }
    · intro i below
      have leads := chain.getElem i (by omega)
      simpa [List.getD, length, Nat.lt_succ_of_lt below, below] using leads
    · rw [split]
      simp only [List.getD, List.getElem?_concat_length, Option.getD_some]
      refine ends.imp_right fun again => ?_
      obtain ⟨i, below, rfl⟩ := List.getElem_of_mem again
      refine ⟨i, below, ?_⟩
      rw [List.getElem?_append_left below, List.getElem?_eq_getElem below]
      rfl
  · rw [Pose.visited]
    apply List.ext_getElem
    · simp [length]
    · intro i below _
      have inside : i < (p.reached (s.walk p)).length := by simpa using below
      simp [List.getD, inside]

theorem Course.between (course : s.Course p n place) (simple : s.Simple) (inside : i + 1 < n)
    (adjacent : s.Adjacent (place (i + 1)).cell d) :
    d = (place i).cell ∨ d = (place (i + 2)).cell :=
  simple.between (course.leads i (Nat.lt_of_succ_lt inside)) (course.leads (i + 1) inside) adjacent

theorem Course.goes_on (course : s.Course p n place) (inside : i + 1 < n) :
    (place (i + 2)).cell ≠ (place i).cell := by
  have onward := (course.leads (i + 1) inside).onward
  rwa [(course.leads i (Nat.lt_of_succ_lt inside)).back] at onward

theorem Course.has (course : s.Course p n place) (start : s.has p.cell = true) (upto : i ≤ n) :
    s.has (place i).cell = true := by
  cases i with
  | zero => rwa [course.start]
  | succ i => exact (course.leads i upto).adjacent.symm.1

def Apart (place : Nat → Pose) (n : Nat) : Prop :=
  ∀ j k, j < k → k ≤ n → (place j).cell ≠ (place k).cell

/-- The first `m + 1` cells are different, and the next one is the cell number `i` again. -/
structure Returns (place : Nat → Pose) (m i : Nat) : Prop where
  before : i ≤ m
  again : (place (m + 1)).cell = (place i).cell
  apart : Apart place m

theorem apart_or_returns (place : Nat → Pose) (n : Nat) :
    Apart place n ∨ ∃ m < n, ∃ i, Returns place m i := by
  induction n with
  | zero => exact .inl fun j k before upto => by omega
  | succ n ih =>
      rcases ih with apart | ⟨m, below, i, returns⟩
      · by_cases again : ∃ i ≤ n, (place (n + 1)).cell = (place i).cell
        · obtain ⟨i, before, again⟩ := again
          exact .inr ⟨n, Nat.lt_succ_self n, i, before, again, apart⟩
        · refine .inl fun j k before upto => ?_
          rcases Nat.lt_or_eq_of_le upto with below | rfl
          · exact apart j k before (Nat.le_of_lt_succ below)
          · intro same
            exact again ⟨j, Nat.le_of_lt_succ before, same.symm⟩
      · exact .inr ⟨m, Nat.lt_succ_of_lt below, i, returns⟩

theorem Apart.nodup (apart : Apart place n) :
    ((List.range (n + 1)).map fun i => (place i).cell).Nodup := by
  apply List.pairwise_map.mpr
  apply List.pairwise_lt_range.imp_of_mem
  intro j k _ among before
  exact apart j k before (Nat.le_of_lt_succ (List.mem_range.mp among))

theorem Returns.add_two_le (course : s.Course p n place) (returns : Returns place m i)
    (inside : m < n) : i + 2 ≤ m := by
  obtain ⟨before, again, -⟩ := returns
  have moved : i ≠ m := by
    rintro rfl
    exact (course.leads i inside).adjacent.ne again.symm
  have ahead : i + 1 ≠ m := by
    rintro rfl
    exact course.goes_on inside again
  omega

/-- The only cell to come back to is the first one: any other has the cells before and behind it on
the way for neighbours, and no third one to come from. -/
theorem Returns.eq_zero (course : s.Course p n place) (simple : s.Simple)
    (returns : Returns place m i) (inside : m < n) : i = 0 := by
  have far := returns.add_two_le course inside
  have last := (course.leads m inside).adjacent.symm
  rw [returns.again] at last
  cases i with
  | zero => rfl
  | succ i =>
      -- The two cells beside number `i + 1` are numbers `i` and `i + 2`, and number `m` is neither.
      rcases course.between simple (by omega) last with same | same
      · exact absurd same.symm (returns.apart i m (by omega) (Nat.le_refl m))
      · exact absurd same.symm (returns.apart (i + 2) m (by omega) (Nat.le_refl m))

theorem Returns.sides (course : s.Course p n place) (returns : Returns place m 0)
    (inside : m < n) : [(place 1).cell, (place m).cell].Nodup ∧
      ∀ d ∈ [(place 1).cell, (place m).cell], s.Adjacent p.cell d := by
  have first := (course.leads 0 (Nat.zero_lt_of_lt inside)).adjacent
  have last := (course.leads m inside).adjacent.symm
  rw [returns.again] at last
  rw [course.start] at first last
  have apart := returns.apart 1 m (returns.add_two_le course inside) (Nat.le_refl m)
  exact ⟨by simpa using apart, by simpa using ⟨first, last⟩⟩

/-- If the ends of a way have no neighbours off the way, it covers the scaffold. -/
theorem Course.covers (course : s.Course p n place) (simple : s.Simple)
    (start : s.has p.cell = true) (upto : m ≤ n)
    (first : ∀ d, s.Adjacent p.cell d → ∃ i ≤ m, (place i).cell = d)
    (last : ∀ d, s.Adjacent (place m).cell d → ∃ i ≤ m, (place i).cell = d)
    (there : s.has c = true) : ∃ i ≤ m, (place i).cell = c := by
  -- Along a connection from the start: inside the way, both neighbours of a cell are on it.
  induction simple.connected p.cell c start there with
  | refl => exact ⟨0, Nat.zero_le m, congrArg Pose.cell course.start⟩
  | tail _ adjacent ih =>
      obtain ⟨i, below, rfl⟩ := ih adjacent.1
      rcases Nat.lt_or_eq_of_le below with below | rfl
      · cases i with
        | zero =>
            rw [course.start] at adjacent
            exact first _ adjacent
        | succ i =>
            rcases course.between simple (by omega) adjacent with same | same
            · exact ⟨i, by omega, same.symm⟩
            · exact ⟨i + 2, below, same.symm⟩
      · exact last _ adjacent

theorem nodup_around (s : Scaffold) (c : Point) : (s.around c).Nodup :=
  (Point.nodup_neighbours c).filter _

theorem Course.apart_of_end (course : s.Course p n place) (simple : s.Simple)
    (few : (s.around p.cell).length ≤ 1) : Apart place n := by
  rcases apart_or_returns place n with apart | ⟨m, inside, i, returns⟩
  · exact apart
  · obtain rfl := returns.eq_zero course simple inside
    obtain ⟨apart, sides⟩ := returns.sides course inside
    have within : [(place 1).cell, (place m).cell] ⊆ s.around p.cell :=
      fun d among => (sides d among).2
    have two := (apart.length_le_of_subset within).trans few
    exact absurd two (Nat.not_succ_le_self 1)

theorem Course.stranded (course : s.Course p n place) (apart : Apart place n) :
    s.Stranded (place n) := by
  rcases course.ends with stranded | ⟨i, before, same⟩
  · exact stranded
  · exact absurd (congrArg Pose.cell same) (apart i n before (Nat.le_refl n))

theorem Course.covers_of_end (course : s.Course p n place) (simple : s.Simple)
    (start : s.has p.cell = true) (few : (s.around p.cell).length ≤ 1)
    (free : s.has p.behind = false) (there : s.has c = true) :
    ∃ i ≤ n, (place i).cell = c := by
  have stranded := course.stranded (course.apart_of_end simple few)
  apply course.covers simple start (Nat.le_refl n) _ _ there
  · intro d adjacent
    cases n with
    | zero =>
        rw [course.start] at stranded
        obtain rfl := stranded.eq_behind adjacent
        exact absurd (adjacent.symm.1.symm.trans free) (by decide)
    | succ n =>
        have next := (course.leads 0 (Nat.succ_pos n)).adjacent
        rw [course.start] at next
        have only := adjacent.mem_of_length_le (List.nodup_singleton _) (by simpa using next) few
        exact ⟨1, Nat.succ_le_succ (Nat.zero_le n), (List.mem_singleton.mp only).symm⟩
  · intro d adjacent
    obtain rfl := stranded.eq_behind adjacent
    cases n with
    | zero =>
        rw [course.start] at adjacent
        exact absurd (adjacent.symm.1.symm.trans free) (by decide)
    | succ n => exact ⟨n, Nat.le_succ n, (course.leads n (Nat.lt_succ_self n)).back.symm⟩

theorem Course.covers_ring (course : s.Course p n place) (simple : s.Simple)
    (start : s.has p.cell = true) (two : ∀ c, s.has c = true → (s.around c).length = 2)
    (there : s.has c = true) : ∃ i ≤ n, (place i).cell = c := by
  rcases apart_or_returns place n with apart | ⟨m, inside, i, returns⟩
  -- Without a cell that comes twice the robot would be stranded, and have one neighbour only.
  · have stranded := course.stranded apart
    have last := course.has start (Nat.le_refl n)
    have back : s.around (place n).cell ⊆ [(place n).behind] := by
      intro d among
      exact List.mem_singleton.mpr (stranded.eq_behind ⟨last, among⟩)
    have one := (s.nodup_around (place n).cell).length_le_of_subset back
    rw [two _ last] at one
    exact absurd one (Nat.not_succ_le_self 1)
  · obtain rfl := returns.eq_zero course simple inside
    obtain ⟨apart, sides⟩ := returns.sides course inside
    have far := returns.add_two_le course inside
    have first : ∀ d, s.Adjacent p.cell d → ∃ i ≤ m, (place i).cell = d := by
      intro d adjacent
      have side := adjacent.mem_of_length_le apart sides (two _ start).le
      rcases List.mem_pair.mp side with rfl | rfl
      · exact ⟨1, by omega, rfl⟩
      · exact ⟨m, Nat.le_refl m, rfl⟩
    have last : ∀ d, s.Adjacent (place m).cell d → ∃ i ≤ m, (place i).cell = d := by
      intro d adjacent
      obtain ⟨k, rfl⟩ := Nat.exists_eq_add_of_le' (Nat.one_le_of_lt far)
      rcases course.between simple inside adjacent with rfl | rfl
      · exact ⟨k, Nat.le_succ k, rfl⟩
      · exact ⟨0, Nat.zero_le _, returns.again.symm⟩
    obtain ⟨i, upto, same⟩ := course.covers simple start inside.le first last there
    exact ⟨i, upto.trans inside.le, same⟩

theorem Simple.of_path (cs : List Point) (path : cs.IsChain s.Adjacent)
    (whole : ∀ c ∈ s.cells.toList, c ∈ cs)
    (narrow : ∀ c ∈ s.cells.toList, (s.around c).length ≤ 2) : s.Simple := by
  have listed : ∀ c, s.has c = true → c ∈ s.cells.toList := by
    intro c there
    simpa [has] using there
  have along : cs.Pairwise (Relation.ReflTransGen s.Adjacent) :=
    (path.imp fun _ _ => Relation.ReflTransGen.single).pairwise
  have reaches := along.forall_of_forall fun _ _ => Relation.ReflTransGen.refl
  refine { connected := fun c d first second => ?_, narrow := fun c there => ?_ }
  · exact reaches (whole c (listed c first)) (whole d (listed d second))
  · exact narrow c (listed c there)

end Scaffold

/-- Where a frame shows a robot on a simple scaffold that is not too large, there is a route. If the
robot stands at an end and does not turn its back on the scaffold, the route visits every cell once;
if the scaffold is a ring, it visits every cell. -/
theorem walk_misses_nothing {codes : List Word} {s : Scaffold} {p : Pose}
    (shown : Scaffold.ofFrame codes = .ok s) (there : s.robot = some p) (small : s.size ≤ 2 ^ 32)
    (simple : s.Simple) :
    ∃ r, s.route = .ok r ∧
      ((s.around p.cell).length ≤ 1 → s.has p.behind = false →
        ∀ c, s.has c = true → (p.visited r.moves).count c = 1) ∧
      ((∀ c, s.has c = true → (s.around c).length = 2) →
        ∀ c, s.has c = true → c ∈ p.visited r.moves) := by
  have start := Scaffold.stands_of_ofFrame shown p there
  obtain ⟨r, route, -, moves⟩ := Scaffold.exists_route there start small
  obtain ⟨n, place, course, visited⟩ := Scaffold.exists_course start
  have met : ∀ c, (∃ i ≤ n, (place i).cell = c) → c ∈ p.visited r.moves := by
    intro c place
    obtain ⟨i, upto, rfl⟩ := place
    rw [moves, visited]
    exact List.mem_map_of_mem (List.mem_range.mpr (Nat.lt_succ_of_le upto))
  refine ⟨r, route, ?once, ?ring⟩
  case once =>
    intro few free c cell
    have distinct := (course.apart_of_end simple few).nodup
    rw [← visited, ← moves] at distinct
    exact List.count_eq_one_of_mem distinct
      (met c (course.covers_of_end simple start few free cell))
  case ring =>
    intro two c cell
    exact met c (course.covers_ring simple start two cell)

def bentFrame : List Word := [62, 35, 35, 10, 46, 46, 35, 10]

theorem walk_misses_nothing_bent_and_ring :
    (∃ s r, Scaffold.ofFrame bentFrame = .ok s ∧ s.robot = some ⟨.origin, .right⟩ ∧
      s.size ≤ 2 ^ 32 ∧ s.Simple ∧ s.route = .ok r ∧
      ∀ c, s.has c = true → (Pose.visited ⟨.origin, .right⟩ r.moves).count c = 1) ∧
    ∃ s r, Scaffold.ofFrame ringFrame = .ok s ∧ s.robot = some ⟨.origin, .up⟩ ∧
      s.size ≤ 2 ^ 32 ∧ s.Simple ∧ s.route = .ok r ∧
      ∀ c, s.has c = true → c ∈ Pose.visited ⟨.origin, .up⟩ r.moves := by
  constructor
  · have seen : ∃ s, Scaffold.ofFrame bentFrame = .ok s ∧ s.robot = some ⟨.origin, .right⟩ ∧
        s.size ≤ 2 ^ 32 ∧ s.Simple ∧ (s.around .origin).length ≤ 1 ∧
        s.has (Pose.behind ⟨.origin, .right⟩) = false :=
      ⟨_, rfl, rfl, by decide +kernel,
        .of_path [⟨0, 0⟩, ⟨1, 0⟩, ⟨2, 0⟩, ⟨2, 1⟩] (by decide +kernel) (by decide +kernel)
          (by decide +kernel),
        by decide +kernel, by decide +kernel⟩
    obtain ⟨s, shown, there, small, simple, few, free⟩ := seen
    obtain ⟨r, route, once, -⟩ := walk_misses_nothing shown there small simple
    exact ⟨s, r, shown, there, small, simple, route, once few free⟩
  · have seen : ∃ s, Scaffold.ofFrame ringFrame = .ok s ∧ s.robot = some ⟨.origin, .up⟩ ∧
        s.size ≤ 2 ^ 32 ∧ s.Simple ∧
        ∀ c ∈ s.cells.toList, (s.around c).length = 2 :=
      ⟨_, rfl, rfl, by decide +kernel,
        .of_path [⟨0, 0⟩, ⟨1, 0⟩, ⟨2, 0⟩, ⟨2, 1⟩, ⟨2, 2⟩, ⟨1, 2⟩, ⟨0, 2⟩, ⟨0, 1⟩]
          (by decide +kernel) (by decide +kernel) (by decide +kernel),
        by decide +kernel⟩
    obtain ⟨s, shown, there, small, simple, two⟩ := seen
    obtain ⟨r, route, -, everywhere⟩ := walk_misses_nothing shown there small simple
    refine ⟨s, r, shown, there, small, simple, route, everywhere fun c cell => two c ?_⟩
    simpa [Scaffold.has] using cell

end Shipboard
