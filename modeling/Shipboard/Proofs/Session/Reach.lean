import Shipboard.Proofs.Session.Attendance

/-!
What every step of a session keeps. Ends are only ever dropped, so a channel that has been cut
stays cut, and a side that is not about to leave still holds all its ends or none.
-/

namespace Shipboard

namespace Ends

theorem holds_of_drop {e : Ends} {c d : Channel} (h : (e.drop c).holds d = true) :
    e.holds d = true := by
  rw [holds_drop, Bool.and_eq_true] at h
  exact h.1

theorem holds_ofProtocol {p : Protocol} {c : Channel} (h : p = .interactive ∨ c ≠ .ready) :
    (ofProtocol p).holds c = true := by
  cases c with
  | toCore => rfl
  | fromCore => rfl
  | ready =>
      rcases h with interactive | other
      · simp [ofProtocol, holds, interactive]
      · exact absurd rfl other

theorem holds_of_isEmpty {e : Ends} (h : e.isEmpty = true) (c : Channel) : e.holds c = false :=
  (isEmpty_iff e).mp h c

theorem exists_held {e : Ends} (h : e.isEmpty = false) : ∃ c, e.holds c = true := by
  cases held : e.first? with
  | some c => exact ⟨c, holds_of_first? held⟩
  | none =>
      rw [first?_eq_none_iff, h] at held
      cases held

end Ends

namespace Links

theorem whole_iff (l : Links) (c : Channel) :
    l.whole c = true ↔ l.core.holds c = true ∧ l.controller.holds c = true := by
  rw [whole, Bool.and_eq_true]

end Links

namespace Ask

variable {whole : Channel → Bool} {mine : Ends} {a : Ask}

theorem stays_of_channel? {c : Channel} (waits : a.channel? = some c) : a.leaves = false := by
  cases a <;> cases waits <;> rfl

theorem May.leaving {c : Channel} (h : a.May whole mine (.drop c)) :
    a.leaves = true ∧ mine.holds c = true := by
  cases h with
  | drop leaving held => exact ⟨leaving, held⟩

theorem May.stays_or_gone {answer : Answer} (h : a.May whole mine (.hear answer)) :
    a.leaves = false ∨ mine.isEmpty = true := by
  cases h with
  | work => exact .inl rfl
  | closed asks broken => exact .inl (stays_of_channel? asks)
  | stall => exact .inl rfl
  | gone empty => exact .inr empty

theorem not_may_of_gone {turn : Turn} (empty : mine.isEmpty = true) :
    ¬ Ask.stop.May whole mine turn := by
  intro may
  cases may with
  | closed asks broken => cases asks
  | drop leaving held =>
      rw [Ends.holds_of_isEmpty empty] at held
      cases held

end Ask

inductive Side
  | core
  | controller

def Side.other : Side → Side
  | .core => .controller
  | .controller => .core

theorem Side.eq_or_other (i j : Side) : j = i ∨ j = i.other := by
  cases i <;> cases j <;> simp [other]

def Event.alone : Side → Turn → Event
  | .core, turn => .core turn
  | .controller, turn => .controller turn

def Links.ends (l : Links) : Side → Ends
  | .core => l.core
  | .controller => l.controller

namespace Session

variable {κ σ : Type} {P : Party κ} {Q : Party σ} {s t u : Session κ σ} {e : Event}
  {es fs : List Event} {c : Channel} {p : Protocol} {i : Side}

def asks (P : Party κ) (Q : Party σ) (s : Session κ σ) : Side → Ask
  | .core => P.ask s.core
  | .controller => Q.ask s.controller

def alone (P : Party κ) (Q : Party σ) (s : Session κ σ) : Side → Turn → Session κ σ
  | .core => s.coreTurn P
  | .controller => s.controllerTurn Q

theorem asks_alone_drop (i : Side) (c : Channel) :
    (s.alone P Q i (.drop c)).asks P Q i = s.asks P Q i := by
  cases i <;> rfl

theorem ends_alone_drop (i : Side) (c : Channel) :
    (s.alone P Q i (.drop c)).links.ends i = (s.links.ends i).drop c := by
  cases i <;> rfl

theorem core_alone_drop (i : Side) (c : Channel) : (s.alone P Q i (.drop c)).core = s.core := by
  cases i <;> rfl

theorem controller_alone_drop (i : Side) (c : Channel) :
    (s.alone P Q i (.drop c)).controller = s.controller := by
  cases i <;> rfl

theorem count_alone_drop (held : (s.links.ends i).holds c = true) :
    (s.alone P Q i (.drop c)).links.count + 1 = s.links.count := by
  have dropped := Ends.count_drop held
  cases i with
  | core =>
      simp only [Session.alone, coreTurn, Links.ends, Links.count] at dropped ⊢
      omega
  | controller =>
      simp only [Session.alone, controllerTurn, Links.ends, Links.count] at dropped ⊢
      omega

theorem Step.alone {turn : Turn} (i : Side)
    (may : (s.asks P Q i).May s.links.whole (s.links.ends i) turn) :
    Step P Q s (.alone i turn) (s.alone P Q i turn) := by
  cases i with
  | core => exact .core may
  | controller => exact .controller may

theorem Steps.snoc (h : Steps P Q s es t) (last : Step P Q t e u) : Steps P Q s (es ++ [e]) u :=
  h.append (.cons last (.refl u))

/-- What holds at a state and is kept by every step holds wherever the session goes. -/
theorem Steps.keeps {I : List Event → Session κ σ → Prop}
    (keeps : ∀ es s e t, I es s → Step P Q s e t → I (es ++ [e]) t)
    (h : Steps P Q s fs t) (es : List Event) (before : I es s) : I (es ++ fs) t := by
  induction h generalizing es with
  | refl s =>
      rw [List.append_nil]
      exact before
  | cons first rest ih =>
      have next := ih _ (keeps _ _ _ _ before first)
      rw [List.append_assoc] at next
      exact next

theorem Steps.keeps_state {I : Session κ σ → Prop}
    (keeps : ∀ s e t, I s → Step P Q s e t → I t) (h : Steps P Q s es t) (before : I s) : I t :=
  Steps.keeps (I := fun _ s => I s) (fun _ s e t => keeps s e t) h [] before

theorem Step.holds (h : Step P Q s e t) (i : Side) (held : (t.links.ends i).holds c = true) :
    (s.links.ends i).holds c = true := by
  cases h with
  | @core turn may =>
      cases turn with
      | hear a => exact held
      | drop d =>
          cases i with
          | core => exact Ends.holds_of_drop held
          | controller => exact held
  | @controller turn may =>
      cases turn with
      | hear a => exact held
      | drop d =>
          cases i with
          | core => exact held
          | controller => exact Ends.holds_of_drop held
  | fromCore whole meet => exact held
  | toCore whole meet => exact held
  | joined asks gone => exact held
  | polled asks gone => exact held

theorem Step.unheld (h : Step P Q s e t) (i : Side) (gone : (s.links.ends i).holds c = false) :
    (t.links.ends i).holds c = false := by
  cases held : (t.links.ends i).holds c with
  | false => rfl
  | true =>
      rw [h.holds i held] at gone
      cases gone

theorem Step.carries {v : Word} (h : Step P Q s (.passed c v) t) : s.links.whole c = true := by
  cases h with
  | fromCore whole meet => exact whole
  | toCore whole meet => exact whole

theorem Step.whole (h : Step P Q s e t) (whole : t.links.whole c = true) :
    s.links.whole c = true := by
  obtain ⟨core, controller⟩ := (Links.whole_iff _ _).mp whole
  exact (Links.whole_iff _ _).mpr ⟨h.holds .core core, h.holds .controller controller⟩

theorem Step.broken (h : Step P Q s e t) (broken : s.links.whole c = false) :
    t.links.whole c = false := by
  cases whole : t.links.whole c with
  | false => rfl
  | true =>
      rw [h.whole whole] at broken
      cases broken

theorem Steps.holds (h : Steps P Q s es t) (i : Side) (held : (t.links.ends i).holds c = true) :
    (s.links.ends i).holds c = true := by
  induction h with
  | refl s => exact held
  | cons first rest ih => exact first.holds i (ih held)

theorem Steps.broken (h : Steps P Q s es t) (broken : s.links.whole c = false) :
    t.links.whole c = false :=
  h.keeps_state (I := fun s => s.links.whole c = false) (fun _ _ _ b step => step.broken b) broken

/-- The controller is about to leave, or has kept all its ends, or has dropped them all. -/
def Composed (p : Protocol) (Q : Party σ) (s : Session κ σ) : Prop :=
  (Q.ask s.controller).leaves = true ∨ s.links.controller = .ofProtocol p ∨
    s.links.controller.isEmpty = true

theorem composed_start (p : Protocol) (Q : Party σ) (core : κ) (controller : σ) :
    Composed p Q (start p core controller) := .inr (.inl rfl)

theorem Composed.of_staying (h : Composed p Q s) (stays : (Q.ask s.controller).leaves = false)
    (same : t.links.controller = s.links.controller) : Composed p Q t := by
  rcases h with leaves | kept
  · rw [leaves] at stays
    cases stays
  · rw [← same] at kept
    exact .inr kept

theorem Composed.step (h : Composed p Q s) (step : Step P Q s e t) : Composed p Q t := by
  cases step with
  | @core turn may => cases turn <;> exact h
  | @controller turn may =>
      cases turn with
      | drop d => exact .inl may.leaving.1
      | hear a =>
          rcases may.stays_or_gone with stays | gone
          · exact h.of_staying stays rfl
          · exact .inr (.inr gone)
  | fromCore whole meet =>
      refine h.of_staying ?_ rfl
      rcases meet.get_eq with gets | gets <;> rw [gets] <;> rfl
  | toCore whole meet =>
      refine h.of_staying ?_ rfl
      rw [meet.put_eq]
      rfl
  | joined asks gone =>
      refine h.of_staying ?_ rfl
      rw [asks]
      rfl
  | polled asks gone =>
      refine h.of_staying ?_ rfl
      rw [asks]
      rfl

section

variable {m : Machine} {s t : Session Worker σ}

def Manned (p : Protocol) (s : Session Worker σ) : Prop :=
  ∀ c pulsed, s.core = .active c pulsed → s.links.core = .ofProtocol p

theorem Manned.step (manned : Manned p s) (h : Step (Worker.party p) Q s e t) : Manned p t := by
  intro c pulsed active
  cases attends_of_step h with
  | @aside turn may => cases turn <;> exact manned c pulsed active
  | joined asks => exact manned c pulsed active
  | polled asks => exact manned c pulsed active
  | worked core alone => exact manned _ _ core
  | cut core needs broken => exact manned _ _ core
  | pulse core effect meet => exact manned _ _ core
  | given core effect meet => exact manned _ _ core
  | taken core effect announced gives => exact manned _ _ core
  | dropped core held => cases core.symm.trans active

theorem manned_of_steps {controller : σ}
    (h : Steps (Worker.party p) Q (start p (Worker.ofMachine m) controller) es s) : Manned p s :=
  h.keeps_state (fun _ _ _ manned step => manned.step step) (fun _ _ _ => rfl)

theorem Manned.holds {c : Core} {pulsed : Bool} {ch : Channel} (manned : Manned p s)
    (core : s.core = .active c pulsed) (exists_on : p = .interactive ∨ ch ≠ .ready) :
    s.links.core.holds ch = true := by
  rw [manned c pulsed core]
  exact Ends.holds_ofProtocol exists_on

end

end Session

end Shipboard
