import Shipboard.Session.Step

/-!
One way to run a session: the core goes on until it needs the controller, then the controller
moves. Every action of the schedule is a step of the session.
-/

namespace Shipboard

namespace Ask

/-- The turn that a side takes alone, if it need not wait. -/
def turn? (whole : Channel → Bool) (mine : Ends) : Ask → Option Turn
  | .work => some (.hear .done)
  | .put c _ => if whole c then none else some (.hear .closed)
  | .get c => if whole c then none else some (.hear .closed)
  | .getSoon c => if whole c then none else some (.hear .closed)
  | .hangUp => some ((mine.first?.map .drop).getD (.hear .done))
  | .stop => mine.first?.map .drop
  | .join => none
  | .poll => none

/-- The channel and the value on which the two sides agree. -/
def meet? : Ask → Ask → Option (Channel × Word)
  | .put c v, .get d => if c = d then some (c, v) else none
  | .put c v, .getSoon d => if c = d then some (c, v) else none
  | _, _ => none

theorem may_of_turn? {whole : Channel → Bool} {mine : Ends} {a : Ask} {t : Turn}
    (h : a.turn? whole mine = some t) : a.May whole mine t := by
  unfold turn? at h
  split at h
  · cases h
    exact .work
  · split at h
    · cases h
    · rename_i c v broken
      cases h
      exact .closed rfl (by simpa using broken)
  · split at h
    · cases h
    · rename_i c broken
      cases h
      exact .closed rfl (by simpa using broken)
  · split at h
    · cases h
    · rename_i c broken
      cases h
      exact .closed rfl (by simpa using broken)
  · cases k : mine.first? with
    | none =>
        simp only [k, Option.map_none, Option.getD_none, Option.some.injEq] at h
        subst h
        exact .gone ((Ends.first?_eq_none_iff mine).mp k)
    | some c =>
        simp only [k, Option.map_some, Option.getD_some, Option.some.injEq] at h
        subst h
        exact .drop rfl (Ends.holds_of_first? k)
  · cases k : mine.first? with
    | none => simp [k] at h
    | some c =>
        simp only [k, Option.map_some, Option.some.injEq] at h
        subst h
        exact .drop rfl (Ends.holds_of_first? k)
  · cases h
  · cases h

theorem meet_of_meet? {a b : Ask} {c : Channel} {v : Word} (h : a.meet? b = some (c, v)) :
    Meet c v a b := by
  unfold meet? at h
  split at h
  · split at h
    · rename_i same
      cases h
      subst same
      exact .get
    · cases h
  · split at h
    · rename_i same
      cases h
      subst same
      exact .getSoon
    · cases h
  · cases h

end Ask

inductive Action
  | core (t : Turn)
  | controller (t : Turn)
  | fromCore (v : Word)
  | toCore (v : Word)
  deriving DecidableEq, Repr

namespace Session

variable {κ σ : Type}

/-- A value that can be handed over now, and whether the core gives it. -/
def exchange? (P : Party κ) (Q : Party σ) (s : Session κ σ) : Option (Bool × Word) :=
  match (P.ask s.core).meet? (Q.ask s.controller) with
  | some (c, v) => if s.links.whole c then some (true, v) else none
  | none =>
      match (Q.ask s.controller).meet? (P.ask s.core) with
      | some (c, v) => if s.links.whole c then some (false, v) else none
      | none => none

def controllerTurn? (P : Party κ) (Q : Party σ) (s : Session κ σ) : Option Turn :=
  match (Q.ask s.controller).turn? s.links.whole s.links.controller with
  | some t => some t
  | none =>
      match Q.ask s.controller with
      | .join => if s.coreGone P then some (.hear .done) else none
      | .poll => some (.hear (.stopped (s.coreGone P)))
      | .getSoon _ => some (.hear .stalled)
      | _ => none

/-- What the schedule does next; none when the session is complete or stuck. -/
def action? (P : Party κ) (Q : Party σ) (s : Session κ σ) : Option Action :=
  match (P.ask s.core).turn? s.links.whole s.links.core with
  | some t => some (.core t)
  | none =>
      match s.exchange? P Q with
      | some (true, v) => some (.fromCore v)
      | some (false, v) => some (.toCore v)
      | none => (s.controllerTurn? P Q).map .controller

def act (P : Party κ) (Q : Party σ) (s : Session κ σ) : Action → Session κ σ
  | .core t => s.coreTurn P t
  | .controller t => s.controllerTurn Q t
  | .fromCore v => s.fromCore P Q v
  | .toCore v => s.toCore P Q v

/-- The state in which nothing moves any more, if it is reached within `fuel` actions. -/
def run (P : Party κ) (Q : Party σ) : (fuel : Nat) → Session κ σ → Option (Session κ σ)
  | 0, _ => none
  | fuel + 1, s =>
      match s.action? P Q with
      | none => some s
      | some a => run P Q fuel (s.act P Q a)

theorem step_of_exchange? {P : Party κ} {Q : Party σ} {s : Session κ σ} {v : Word} :
    (s.exchange? P Q = some (true, v) → ∃ e, Step P Q s e (s.fromCore P Q v)) ∧
      (s.exchange? P Q = some (false, v) → ∃ e, Step P Q s e (s.toCore P Q v)) := by
  unfold exchange?
  split
  · rename_i c w met
    constructor <;> intro h <;> split at h <;> cases h
    rename_i whole
    exact ⟨_, .fromCore whole (Ask.meet_of_meet? met)⟩
  · split
    · rename_i c w met
      constructor <;> intro h <;> split at h <;> cases h
      rename_i whole
      exact ⟨_, .toCore whole (Ask.meet_of_meet? met)⟩
    · constructor <;> intro h <;> cases h

theorem step_of_controllerTurn? {P : Party κ} {Q : Party σ} {s : Session κ σ} {t : Turn}
    (h : s.controllerTurn? P Q = some t) : ∃ e, Step P Q s e (s.controllerTurn Q t) := by
  unfold controllerTurn? at h
  split at h
  · rename_i turn
    cases h
    exact ⟨_, .controller (Ask.may_of_turn? turn)⟩
  · split at h
    · rename_i asks
      split at h
      · rename_i gone
        cases h
        exact ⟨_, .joined asks gone⟩
      · cases h
    · rename_i asks
      cases h
      exact ⟨_, .polled asks id⟩
    · rename_i asks
      cases h
      exact ⟨_, .controller (asks ▸ .stall)⟩
    · cases h

theorem step_of_action? {P : Party κ} {Q : Party σ} {s : Session κ σ} {a : Action}
    (h : s.action? P Q = some a) : ∃ e, Step P Q s e (s.act P Q a) := by
  unfold action? at h
  split at h
  · rename_i turn
    cases h
    exact ⟨_, .core (Ask.may_of_turn? turn)⟩
  · split at h
    · rename_i given
      cases h
      exact step_of_exchange?.1 given
    · rename_i given
      cases h
      exact step_of_exchange?.2 given
    · obtain ⟨turn, found, rfl⟩ := Option.map_eq_some_iff.mp h
      exact step_of_controllerTurn? found

theorem steps_of_run {P : Party κ} {Q : Party σ} {fuel : Nat} {s t : Session κ σ}
    (h : s.run P Q fuel = some t) : ∃ es, Steps P Q s es t := by
  induction fuel generalizing s with
  | zero => cases h
  | succ fuel ih =>
      unfold run at h
      split at h
      · cases h
        exact ⟨[], .refl _⟩
      · rename_i a found
        obtain ⟨e, first⟩ := step_of_action? found
        obtain ⟨es, rest⟩ := ih h
        exact ⟨e :: es, .cons first rest⟩

end Session

end Shipboard
