import Mathlib.Data.List.Nodup
import Mathlib.Data.List.Perm.Subperm
import Shipboard.Proofs.Scaffold.Soundness

/-!
Routines are found wherever there are any. Calls of any functions can be made by the search as well,
which has a function for each that was called before: a call of an empty function is left out, a
call of one that is known is repeated, and any other call makes its function.
-/

namespace Shipboard

namespace Routines

theorem of_lookUp {α : Type} {xs : List α} {i : Nat} {a : α} (looked : lookUp xs i = .ok a) :
    xs[i]? = some a := by
  rw [lookUp] at looked
  split at looked
  · rename_i b found
    cases looked
    exact found
  · cases looked

theorem of_spell_cons {functions : List Route} {i : Nat} {calls : List Nat} {rest : Route}
    (spelled : spell functions (i :: calls) = .ok rest) :
    ∃ f behind, functions[i]? = some f ∧ spell functions calls = .ok behind ∧
      rest = f ++ behind := by
  obtain ⟨all, looked, rfl⟩ := ok_of_map spelled
  rw [List.mapM_cons] at looked
  obtain ⟨f, first, looked⟩ := ok_of_bind looked
  obtain ⟨fs, others, same⟩ := ok_of_bind looked
  cases same
  refine ⟨f, fs.flatten, of_lookUp first, ?_, rfl⟩
  rw [spell, others]
  rfl

end Routines

namespace Draft

variable {functions : List Route} {calls : List Nat} {rest behind f : Route} {d : Draft}

/-- The functions of the draft are different ones of those at hand. -/
structure Draws (functions : List Route) (d : Draft) : Prop where
  distinct : d.functions.Nodup
  known : d.functions ⊆ functions

theorem Draws.introduce (draws : Draws functions d) (fresh : f ∉ d.functions)
    (among : f ∈ functions) : Draws functions (d.introduce f) := by
  constructor
  · rw [Draft.introduce, ← List.concat_eq_append]
    exact List.Nodup.concat fresh draws.distinct
  · intro g new
    rcases List.mem_append.mp new with before | same
    · exact draws.known before
    · rw [List.mem_singleton] at same
      rw [same]
      exact among

theorem Draws.few (draws : Draws functions d) (fresh : f ∉ d.functions) (among : f ∈ functions) :
    d.functions.length < functions.length := by
  have next := draws.introduce fresh among
  have bound := (List.Nodup.subperm next.distinct next.known).length_le
  rw [Draft.introduce, List.length_append, List.length_singleton] at bound
  exact bound

theorem front_mem_fitting (nonempty : f ≠ []) (fits : f.lineLength ≤ Routines.maxLine)
    (behind : Route) : f.length ∈ fitting (f ++ behind) := by
  refine mem_fitting_iff.mpr ⟨List.length_pos_iff.mpr nonempty, ?_, ?_⟩
  · rw [List.length_append]
    exact Nat.le_add_right _ _
  · rw [List.take_left]
    exact fits

theorem exists_makes (draws : Draws functions d) (few : functions.length ≤ 3)
    (among : f ∈ functions) (nonempty : f ≠ []) (fits : f.lineLength ≤ Routines.maxLine)
    (behind : Route) :
    ∃ c d₁, Makes d (f ++ behind) c d₁ behind ∧ Draws functions d₁ ∧
      d₁.main.length = d.main.length + 1 := by
  -- A function that the draft has is called again; there is room for one that it does not have.
  by_cases old : f ∈ d.functions
  · obtain ⟨i, found⟩ := List.getElem?_of_mem old
    refine ⟨_, _, .call found rfl, ⟨draws.distinct, draws.known⟩, ?_⟩
    rw [Draft.call, List.length_append, List.length_singleton]
  · have room : d.functions.length < Routines.names.length :=
      Nat.lt_of_lt_of_le (draws.few old among) few
    have makes := Makes.introduce room (front_mem_fitting nonempty fits behind)
    rw [List.take_left, List.drop_left] at makes
    refine ⟨_, _, makes, draws.introduce old among, ?_⟩
    rw [Draft.introduce, List.length_append, List.length_singleton]

theorem exists_leads (draws : Draws functions d) (few : functions.length ≤ 3)
    (fit : ∀ f ∈ functions, f.lineLength ≤ Routines.maxLine)
    (spelled : Routines.spell functions calls = .ok rest)
    (room : d.main.length + calls.length ≤ 10) : ∃ cs d', Leads d rest cs d' := by
  induction calls generalizing d rest with
  | nil =>
      rw [Routines.spell_nil] at spelled
      cases spelled
      exact ⟨[], d, .done d⟩
  | cons i calls ih =>
      obtain ⟨f, behind, found, others, rfl⟩ := Routines.of_spell_cons spelled
      rw [List.length_cons] at room
      by_cases nothing : f = []
      · subst nothing
        exact ih draws others (by omega)
      · have among := List.mem_of_getElem? found
        obtain ⟨c, d₁, makes, draws₁, longer⟩ :=
          exists_makes draws few among nothing (fit f among) behind
        obtain ⟨cs, d', leads⟩ := ih draws₁ others (by omega)
        have left : f ++ behind ≠ [] := fun empty => nothing (List.append_eq_nil_iff.mp empty).1
        exact ⟨c :: cs, d', .choose left (isFull_eq_false_iff.mpr (by omega)) makes leads⟩

end Draft

/-- No routines are found for a route only if there are none: no three functions whose lines fit and
no ten calls of them make the route, in whatever order the functions are called first, and whether
or not some of them are empty, alike or never called. -/
theorem compress?_eq_none_iff {r : Route} (nonempty : r ≠ []) :
    r.compress? = none ↔ ∀ routines : Routines, routines.functions.length ≤ 3 →
      (∀ f ∈ routines.functions, f.line.length ≤ 20) → routines.main.length ≤ 10 →
      routines.expand ≠ .ok r := by
  constructor
  · intro missing routines few fit short expands
    have fit' : ∀ f ∈ routines.functions, f.lineLength ≤ Routines.maxLine := by
      intro f among
      rw [← Route.length_line]
      exact fit f among
    obtain ⟨cs, d', leads⟩ := Draft.exists_leads (d := {}) ⟨List.nodup_nil, List.nil_subset _⟩ few
      fit' expands (by simpa using short)
    exact Route.not_leads_of_compress? nonempty missing cs d' leads
  · intro never
    cases found : r.compress? with
    | none => rfl
    | some routines =>
        have proper := Route.proper_of_compress? found
        refine absurd (Route.expand_of_compress? found) (never routines proper.few ?_ proper.short)
        intro f among
        obtain ⟨-, -, fits⟩ := proper.pieces f among
        rw [Route.length_line]
        exact fits

def climb : Route := (List.range 31).map fun n => .forward (.ofNat (10 + n))

theorem compress?_eq_none_iff_climb : climb.compress? = none ∧
    ∀ routines : Routines, routines.functions.length ≤ 3 →
      (∀ f ∈ routines.functions, f.line.length ≤ 20) → routines.main.length ≤ 10 →
      routines.expand ≠ .ok climb := by
  have nonempty : climb ≠ [] := by decide
  have missing : climb.compress? = none := by decide +kernel
  exact ⟨missing, (compress?_eq_none_iff nonempty).mp missing⟩

end Shipboard
