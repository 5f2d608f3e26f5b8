import Shipboard.Proofs.Core.Growth

/-!
How a core breaks. Its sums cannot overflow: it looks at parameters only where a word decodes, and
such a word is a stored one, far from the end of the address range. What is left is a write so far
beyond the stored cells that these cannot grow to reach it.
-/

namespace Shipboard

namespace Memory

variable {m : Memory} {a : Address} {t : Trap}

/-- Of the addresses that a word can give, those from `2 ^ 59` on are beyond what can be stored. -/
theorem refusal_eq_some_iff (given : a.toNat < 2 ^ 63) :
    m.refusal a = some t ↔ t = .capacityOverflow ∧ 2 ^ 59 ≤ a.toNat ∧ m.size ≤ a.toNat := by
  have notLast : ¬ a.toNat + 1 = UInt64.size := by
    rw [UInt64.size]
    omega
  -- Eight bytes for each of `2 * a` cells are too many exactly from `2 ^ 59` on.
  have limit : byteLimit < 8 * grownSize a ↔ 2 ^ 59 ≤ a.toNat := by
    unfold byteLimit grownSize UInt64.size
    omega
  rw [refusal, if_neg notLast]
  simp only [limit]
  by_cases stored : a.toNat < m.size
  · rw [if_pos stored]
    constructor
    · intro accepted
      cases accepted
    · rintro ⟨-, -, beyond⟩
      exact absurd stored (Nat.not_lt.mpr beyond)
  · rw [if_neg stored]
    have beyond := Nat.not_lt.mp stored
    by_cases far : 2 ^ 59 ≤ a.toNat
    · rw [if_pos far, Option.some.injEq, eq_comm]
      exact (and_iff_left ⟨far, beyond⟩).symm
    · rw [if_neg far]
      constructor
      · intro accepted
        cases accepted
      · rintro ⟨-, reached, -⟩
        exact absurd reached far

theorem fits_write_of_accepted (fits : m.Fits) (accepted : m.refusal a = none) (v : Word) :
    (m.write a v).Fits := by
  unfold Fits at *
  rw [size_write]
  by_cases stored : a.toNat < m.size
  · rw [if_pos stored]
    exact fits
  · rw [if_neg stored]
    rw [refusal, if_neg stored] at accepted
    split at accepted
    · cases accepted
    · split at accepted
      · cases accepted
      · rename_i small
        unfold byteLimit UInt64.size at small
        omega

end Memory

namespace Boundless

variable {r : Boundless} {k : Nat} {v : Word} {a : Address}

theorem toNat_of_no_addressFault (sound : r.addressFault v = none) :
    v.toUInt64.toNat < 2 ^ 63 := by
  have nonneg : ¬ v < 0 := by
    intro negative
    rw [addressFault, if_pos negative] at sound
    cases sound
  rw [Int64.lt_iff_toInt_lt, Int64.toInt_zero] at nonneg
  have number : v.toInt = v.toUInt64.toBitVec.toInt := rfl
  have natural : v.toUInt64.toBitVec.toNat = v.toUInt64.toNat := rfl
  rw [number, BitVec.toInt_eq_toNat_cond] at nonneg
  split at nonneg <;> omega

theorem destination_lt (sound : r.destinationFault k = none) :
    (r.destination k).toNat < 2 ^ 63 := by
  unfold destinationFault at sound
  split at sound
  · cases sound
  · exact toNat_of_no_addressFault sound

theorem meaning_of_effect {e : Effect} (effect : r.effect = .ok e) :
    ∃ row, r.opcode? = some row ∧ (∀ f ∈ r.parameterFaults row, f = none) ∧
      r.meaning row = e := by
  unfold Boundless.effect at effect
  split at effect
  · cases effect
  · rename_i row opcode
    split at effect
    · cases effect
    · rename_i none_found
      cases effect
      rw [List.findSome?_append, Option.or_eq_none_iff] at none_found
      exact ⟨row, opcode, List.findSome?_eq_none_iff.mp none_found.2, rfl⟩

theorem address_lt {e : Effect} (effect : r.effect = .ok e) (writes : e.address? = some a) :
    a.toNat < 2 ^ 63 := by
  obtain ⟨row, -, sound, rfl⟩ := meaning_of_effect effect
  cases row with
  | compute result =>
      cases writes
      exact destination_lt (sound _ (by simp [parameterFaults]))
  | input =>
      cases writes
      exact destination_lt (sound _ (by simp [parameterFaults]))
  | output => cases writes
  | jump required => cases writes
  | rebase => cases writes
  | halt => cases writes

end Boundless

namespace Core

variable {σ : Type} {D : Device σ} {c c' : Core} {io io' : σ} {i : Instruction} {t : Trap}

theorem inside_of_decode (fits : c.memory.Fits)
    (decoded : Instruction.decode (c.memory.read c.ip) c.ip = .ok i) : c.Inside := by
  have meaning := c.boundless.decoded
  have same : Instruction.decode c.boundless.word c.boundless.ip = .ok i := decoded
  rw [same] at meaning
  cases meaning with
  | good opcode _ _ _ _ => exact inside_of_opcode fits opcode

theorem effect_eq_trap_iff (fits : c.memory.Fits) :
    c.effect = .error (.trap t) ↔
      ∃ next a v, c.boundless.effect = .ok (.store next a v) ∧ c.memory.refusal a = some t := by
  rw [effect_eq fits]
  constructor
  · intro broken
    cases effect : c.boundless.effect with
    | error f =>
        rw [effect] at broken
        cases broken
    | ok e =>
        rw [effect] at broken
        cases e with
        | store next a v =>
            rw [allowed] at broken
            split at broken
            · rename_i refused
              cases broken
              exact ⟨next, a, v, rfl, refused⟩
            · cases broken
        | goto next => cases broken
        | rebase next base => cases broken
        | input next a => cases broken
        | output next v => cases broken
        | halt => cases broken
  · rintro ⟨next, a, v, effect, refused⟩
    rw [effect, allowed, refused]

theorem effect_eq_input_iff (fits : c.memory.Fits) {next a : Address} :
    c.effect = .ok (.input next a) ↔ c.boundless.effect = .ok (.input next a) := by
  rw [effect_eq fits]
  cases effect : c.boundless.effect with
  | error f => simp [allowed]
  | ok e =>
      cases e with
      | store next' a' v => cases refusal : c.memory.refusal a' <;> simp [allowed, refusal]
      | goto next => simp [allowed]
      | rebase next base => simp [allowed]
      | input next a => simp [allowed]
      | output next v => simp [allowed]
      | halt => simp [allowed]

/-- An instruction breaks only where it has nowhere to store what it has. -/
theorem step_eq_trap_iff (fits : c.memory.Fits) :
    c.step D io = (.failed (.trap t), c', io') ↔
      t = .capacityOverflow ∧ c' = c ∧ ∃ a, 2 ^ 59 ≤ a.toNat ∧ c.memory.size ≤ a.toNat ∧
        ((∃ next v, c.boundless.effect = .ok (.store next a v) ∧ io' = io) ∨
          ∃ next v, c.boundless.effect = .ok (.input next a) ∧ D.take io = (some v, io')) := by
  constructor
  · intro broken
    have still : (c.step D io).1 ≠ .running := by simp [broken]
    have left := step_core_of_not_running still
    rw [broken] at left
    have fails := fails_of_step broken
    -- Either the store itself is refused, or the cell for an input that has been taken already.
    cases fails with
    | itself effect =>
        obtain ⟨next, a, v, stores, refused⟩ := (effect_eq_trap_iff fits).mp effect
        have far := (Memory.refusal_eq_some_iff (Boundless.address_lt stores rfl)).mp refused
        exact ⟨far.1, left, a, far.2.1, far.2.2, .inl ⟨next, v, stores, rfl⟩⟩
    | unstored effect given refused =>
        have takes := (effect_eq_input_iff fits).mp effect
        have far := (Memory.refusal_eq_some_iff (Boundless.address_lt takes rfl)).mp refused
        exact ⟨far.1, left, _, far.2.1, far.2.2, .inr ⟨_, _, takes, given⟩⟩
  · rintro ⟨rfl, rfl, a, far, beyond, ⟨next, v, stores, rfl⟩ | ⟨next, v, takes, given⟩⟩
    · have refused := (Memory.refusal_eq_some_iff (Boundless.address_lt stores rfl)).mpr
        ⟨rfl, far, beyond⟩
      exact step_of_error ((effect_eq_trap_iff fits).mpr ⟨next, a, v, stores, refused⟩) io'
    · have refused := (Memory.refusal_eq_some_iff (Boundless.address_lt takes rfl)).mpr
        ⟨rfl, far, beyond⟩
      exact step_of_refused_input ((effect_eq_input_iff fits).mpr takes) given refused

theorem accepted_of_store (fits : c.memory.Fits) {next a : Address} {v : Word}
    (stores : c.effect = .ok (.store next a v)) : c.memory.refusal a = none := by
  rw [effect_eq fits] at stores
  cases effect : c.boundless.effect with
  | error f =>
      rw [effect] at stores
      cases stores
  | ok e =>
      rw [effect] at stores
      cases e with
      | store next' a' v' =>
          rw [allowed] at stores
          split at stores
          · cases stores
          · rename_i accepted
            cases stores
            exact accepted
      | goto next => cases stores
      | rebase next base => cases stores
      | input next a => cases stores
      | output next v => cases stores
      | halt => cases stores

/-- What fits still fits after an instruction. -/
theorem Goes.fits (goes : c.Goes D io c' io') (fits : c.memory.Fits) : c'.memory.Fits := by
  cases goes with
  | silent effect silent =>
      rename_i e
      cases e with
      | store next a v =>
          exact Memory.fits_write_of_accepted fits (accepted_of_store fits effect) v
      | goto next => exact fits
      | rebase next base => exact fits
      | input next a => cases silent
      | output next v => cases silent
      | halt => cases silent
  | input effect given accepted => exact Memory.fits_write_of_accepted fits accepted _
  | output effect given => exact fits

theorem runFrom_traps {count fuel : Nat} {stop : Stop σ} (fits : c.memory.Fits)
    (stopped : runFrom D count fuel c io = some stop) :
    stop.core.memory.Fits ∧
      ∀ t, stop.result = .error (.trap t) → t = .capacityOverflow := by
  induction fuel generalizing c io count with
  | zero => cases stopped
  | succ fuel ih =>
      rw [runFrom_succ] at stopped
      rcases step_cases D c io with ⟨c', io', step, goes⟩ | ⟨-, step⟩ | ⟨f, io', step, -⟩
      · rw [step] at stopped
        exact ih (goes.fits fits) stopped
      · rw [step] at stopped
        cases stopped
        exact ⟨fits, nofun⟩
      · rw [step] at stopped
        cases stopped
        refine ⟨fits, ?_⟩
        intro t same
        cases same
        exact ((step_eq_trap_iff fits).mp step).1

end Core

/-- A core whose memory is not too large never overflows a sum. Where its word decodes, the
addresses of all parameters and of the next instruction are in range; where it does not, no
parameter is looked at. The one way to break is a store, or an input that has been taken, at an
address from `2 ^ 59` on that is not stored, after all checks have passed; the core is then as it
was. Memory stays within its limit, so the same holds of whole runs. -/
theorem breaks_on_capacity_only {σ : Type} (D : Device σ) (c : Core) (io : σ)
    (fits : c.memory.size ≤ 2 ^ 60 - 1) :
    (∀ i, Instruction.decode (c.memory.read c.ip) c.ip = .ok i →
      (∀ k ≤ 2, c.ip.toNat + 1 + k < UInt64.size ∧
        c.parameter k = .ok (c.memory.read (c.ip + 1 + UInt64.ofNat k))) ∧
      c.ip.toNat + i.opcode.width < UInt64.size ∧
      c.next i.opcode = .ok (c.ip + UInt64.ofNat i.opcode.width)) ∧
    (∀ f, Instruction.decode (c.memory.read c.ip) c.ip = .error f →
      c.step D io = (.failed (.fault f), c, io)) ∧
    (∀ t c' io', c.step D io = (.failed (.trap t), c', io') ↔
      t = .capacityOverflow ∧ c' = c ∧ ∃ a, 2 ^ 59 ≤ a.toNat ∧ c.memory.size ≤ a.toNat ∧
        ((∃ next v, c.boundless.effect = .ok (.store next a v) ∧ io' = io) ∨
          ∃ next v, c.boundless.effect = .ok (.input next a) ∧ D.take io = (some v, io'))) ∧
    ∀ fuel stop, c.run D fuel io = some stop →
      stop.core.memory.size ≤ 2 ^ 60 - 1 ∧
        ∀ t, stop.result = .error (.trap t) → t = .capacityOverflow := by
  refine ⟨?decoded, ?undecoded, ?breaks, ?runs⟩
  case decoded =>
    intro i decoded
    have inside := Core.inside_of_decode fits decoded
    have near : c.ip.toNat < 2 ^ 60 := inside
    have small : i.opcode.width ≤ 4 := by cases i.opcode <;> decide
    rw [UInt64.size]
    refine ⟨?_, by omega, Core.next_eq inside i.opcode⟩
    intro k third
    exact ⟨by omega, Core.parameter_eq inside third⟩
  case undecoded =>
    intro f decoded
    apply Core.step_of_error
    rw [Core.effect, decoded]
    rfl
  case breaks =>
    intro t c' io'
    exact Core.step_eq_trap_iff fits
  case runs =>
    intro fuel stop stopped
    exact Core.runFrom_traps fits stopped

/-- Takes an input for the first address that cannot be reached, in relative mode. -/
def farInput : Core := { base := 576460752303423487, memory := Memory.ofList [203, 1] }

def lastAddress : Core := { ip := 18446744073709551615, memory := Memory.ofList [99] }

theorem breaks_on_capacity_only_farInput :
    farInput.memory.size ≤ 2 ^ 60 - 1 ∧
    farInput.step Buffer.device { input := [5, 6] } =
      (.failed (.trap .capacityOverflow), farInput, { input := [6] }) ∧
    lastAddress.memory.size ≤ 2 ^ 60 - 1 ∧
    lastAddress.step Buffer.device {} =
      (.failed (.fault (.unknownOpcode 0 18446744073709551615)), lastAddress, {}) := by
  have fits : farInput.memory.size ≤ 2 ^ 60 - 1 := by decide
  have fits' : lastAddress.memory.size ≤ 2 ^ 60 - 1 := by decide
  obtain ⟨-, -, breaks, -⟩ :=
    breaks_on_capacity_only Buffer.device farInput { input := [5, 6] } fits
  obtain ⟨-, undecoded, -, -⟩ := breaks_on_capacity_only Buffer.device lastAddress {} fits'
  have unstored : lastAddress.memory.read lastAddress.ip = 0 := by decide +kernel
  refine ⟨fits, (breaks _ _ _).mpr ⟨rfl, rfl, 576460752303423488, ?_, ?_, .inr ?_⟩,
    fits', undecoded _ ?_⟩
  · decide +kernel
  · decide +kernel
  · exact ⟨2, 5, rfl, rfl⟩
  · rw [unstored]
    rfl

end Shipboard
