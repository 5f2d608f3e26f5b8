import Shipboard.Proofs.Core.Advance

/-!
A buffer with outputs put before its own, inputs behind its own and more room. A core cannot tell
the two apart until the narrow one refuses something.
-/

namespace Shipboard

namespace Buffer

/-- The buffer with outputs before its own, inputs behind its own and room for `more` values. -/
def widen (before : Array Word) (later : List Word) (more : Nat) (b : Buffer) : Buffer :=
  { input := b.input ++ later
    output := before ++ b.output
    room := b.room.map (· + more) }

variable {before : Array Word} {later : List Word} {more : Nat}

theorem take_widen {b : Buffer} (h : later = [] ∨ b.take.1 ≠ none) :
    (b.widen before later more).take =
      (b.take.1, b.take.2.widen before later more) := by
  rcases b with ⟨input, output, room⟩
  cases input with
  | nil =>
      have none_later : later = [] := by simpa [take] using h
      subst none_later
      rfl
  | cons v rest => rfl

theorem put_widen {b : Buffer} {v : Word} (h : more = 0 ∨ (b.put v).1 = true) :
    (b.widen before later more).put v =
      ((b.put v).1, (b.put v).2.widen before later more) := by
  rcases b with ⟨input, output, room⟩
  cases room with
  | none => simp [put, widen]
  | some n =>
      cases n with
      | zero =>
          have no_more : more = 0 := by simpa [put] using h
          subst no_more
          rfl
      | succ n =>
          have rest : n + 1 + more = n + more + 1 := by omega
          simp [put, widen, rest]

theorem eq_of_take_none {b b' : Buffer} (h : b.take = (none, b')) : b' = b ∧ b.input = [] := by
  rcases b with ⟨input, output, room⟩
  cases input with
  | nil =>
      cases h
      exact ⟨rfl, rfl⟩
  | cons v rest => cases h

theorem eq_of_put_false {b b' : Buffer} {v : Word} (h : b.put v = (false, b')) :
    b' = b ∧ b.room = some 0 := by
  rcases b with ⟨input, output, room⟩
  cases room with
  | none => cases h
  | some n =>
      cases n with
      | zero =>
          cases h
          exact ⟨rfl, rfl⟩
      | succ n => cases h

def total (b : Buffer) : Option Nat := b.room.map (· + b.output.size)

theorem total_take {b b' : Buffer} {v : Option Word} (h : b.take = (v, b')) :
    b'.total = b.total := by
  rcases b with ⟨input, output, room⟩
  cases input <;> cases h <;> rfl

theorem total_put {b b' : Buffer} {v : Word} (h : b.put v = (true, b')) : b'.total = b.total := by
  rcases b with ⟨input, output, room⟩
  cases room with
  | none =>
      cases h
      rfl
  | some n =>
      cases n with
      | zero => cases h
      | succ n =>
          cases h
          simp [total]
          omega

end Buffer

namespace Core

open Buffer

variable {c c' : Core} {b b' : Buffer}

theorem step_widen (before : Array Word) (later : List Word) (more : Nat)
    (input : later = [] ∨ (c.step device b).1 ≠ .failed (.fault (.inputClosed c.ip)))
    (output : more = 0 ∨ (c.step device b).1 ≠ .failed (.fault (.outputClosed c.ip))) :
    c.step device (b.widen before later more) =
      ((c.step device b).1, (c.step device b).2.1,
        (c.step device b).2.2.widen before later more) := by
  refine step_map (widen before later more) ?_ ?_
  · intro next a h
    refine take_widen (input.imp_right ?_)
    intro goes dry
    apply goes
    have taken : device.take b = (none, b.take.2) := Prod.ext dry rfl
    rw [step_of_no_input h taken]
  · intro next v h
    refine put_widen (output.imp_right ?_)
    intro goes
    cases accepted : (b.put v).1 with
    | true => rfl
    | false =>
        exfalso
        apply goes
        have refused : device.put b v = (false, (b.put v).2) := Prod.ext accepted rfl
        rw [step_of_no_output h refused]

theorem advance_widen (before : Array Word) (later : List Word) (more : Nat) {n : Nat}
    (h : c.advance device n b = some (c', b')) :
    c.advance device n (b.widen before later more) = some (c', b'.widen before later more) := by
  refine advance_map (widen before later more) ?_ h
  intro c c' b b' running
  rw [step_widen before later more (.inr (by simp [running])) (.inr (by simp [running])), running]

theorem total_of_goes (h : c.Goes device b c' b') : b'.total = b.total := by
  cases h with
  | silent effect silent => rfl
  | input effect given fits => exact total_take given
  | output effect given => exact total_put given

theorem total_of_advance {n : Nat} (h : c.advance device n b = some (c', b')) :
    b'.total = b.total := by
  induction n generalizing c b with
  | zero =>
      cases h
      rfl
  | succ n ih =>
      obtain ⟨d, io, first, rest⟩ := advance_succ_iff.mp h
      calc
        b'.total = io.total := ih rest
        _ = b.total := total_of_goes (goes_of_step first)

end Core

end Shipboard
