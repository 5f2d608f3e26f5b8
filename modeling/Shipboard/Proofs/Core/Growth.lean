import Shipboard.Proofs.Core.Boundless
import Shipboard.Proofs.Core.Advance

/-!
Growth of memory cannot be seen: a core whose memory is not too large and whose writes stay low does
exactly what a core with a word at every address does.
-/

namespace Shipboard

variable {σ : Type}

def Memory.Fits (m : Memory) : Prop := m.size ≤ 2 ^ 60 - 1

namespace Memory

theorem read_eq_zero {m : Memory} {a : Address} (beyond : m.size ≤ a.toNat) : m.read a = 0 := by
  have outside : m.cells[a.toNat]? = none := Array.getElem?_eq_none beyond
  simp [read, outside]

theorem refusal_of_low (m : Memory) {a : Address} (low : a.toNat < 2 ^ 59) :
    m.refusal a = none := by
  unfold refusal byteLimit grownSize UInt64.size
  split
  · rfl
  · rw [if_neg (by omega), if_neg (by omega)]

theorem fits_write {m : Memory} (fits : m.Fits) {a : Address} (low : a.toNat < 2 ^ 59) (v : Word) :
    (m.write a v).Fits := by
  unfold Fits at *
  rw [size_write]
  split
  · exact fits
  · unfold grownSize UInt64.size
    omega

end Memory

def Opcode.row : Opcode → Boundless.Row
  | .add => .compute fun a b => a + b
  | .mul => .compute fun a b => a * b
  | .input => .input
  | .output => .output
  | .jumpIfTrue => .jump fun a => a ≠ 0
  | .jumpIfFalse => .jump fun a => a = 0
  | .lessThan => .compute fun a b => if a < b then 1 else 0
  | .equals => .compute fun a b => if a = b then 1 else 0
  | .adjustBase => .rebase
  | .halt => .halt

theorem Boundless.row?_eq (n : Nat) : row? n = (Opcode.ofNumber? n).map Opcode.row := by
  unfold row? Opcode.ofNumber?
  split <;> simp_all [Opcode.row]

/-- What decoding finds, in terms of the table and the digits. -/
inductive Boundless.Decoded (r : Boundless) : Except Fault Instruction → Prop
  | unknown (opcode : r.opcode? = none) : Decoded r (.error r.opcodeFault)
  | badMode {row : Row} {f : Fault} (opcode : r.opcode? = some row)
      (mode : r.modeFaults.findSome? id = some f) : Decoded r (.error f)
  | good {i : Instruction} (opcode : r.opcode? = some i.opcode.row)
      (mode : r.modeFaults.findSome? id = none) (first : i.first.number = r.digit 0)
      (second : i.second.number = r.digit 1) (third : i.third.number = r.digit 2) :
      Decoded r (.ok i)

theorem Boundless.decodeMode_eq (r : Boundless) (k : Nat) :
    (∃ m : Mode, Instruction.decodeMode (r.digit k) r.ip = .ok m ∧ r.modeFault k = none ∧
      m.number = r.digit k) ∨
    ∃ f, Instruction.decodeMode (r.digit k) r.ip = .error f ∧ r.modeFault k = some f := by
  unfold Instruction.decodeMode modeFault
  cases h : Mode.ofNumber? (r.digit k) with
  | some m =>
      have small : r.digit k ≤ 2 := by
        apply Decidable.byContradiction
        intro large
        rw [(Mode.ofNumber?_eq_none_iff _).mpr large] at h
        cases h
      exact .inl ⟨m, rfl, if_pos small, Mode.number_of_ofNumber? h⟩
  | none =>
      have large := (Mode.ofNumber?_eq_none_iff (r.digit k)).mp h
      exact .inr ⟨_, rfl, if_neg large⟩

theorem Boundless.decoded (r : Boundless) :
    r.Decoded (Instruction.decode r.word r.ip) := by
  unfold Instruction.decode
  by_cases negative : r.word < 0
  · have unknown : r.opcode? = none := by simp [opcode?, negative]
    have fault : r.opcodeFault = .unknownOpcode r.word.toInt r.ip := by
      simp [opcodeFault, negative]
    rw [if_pos negative, ← fault]
    exact .unknown unknown
  · have opcode : r.opcode? = (Opcode.ofNumber? (r.word.toInt.toNat % 100)).map Opcode.row := by
      rw [opcode?, if_neg negative, row?_eq]
    have nonneg : 0 ≤ r.word.toInt := by
      rw [Int64.lt_iff_toInt_lt, Int64.toInt_zero] at negative
      omega
    rw [if_neg negative, Instruction.decodeNumber]
    cases known : Opcode.ofNumber? (r.word.toInt.toNat % 100) with
    | none =>
        rw [known] at opcode
        have fault : r.opcodeFault = .unknownOpcode (r.word.toInt.toNat % 100 : Nat) r.ip := by
          rw [opcodeFault, if_neg negative]
          congr 1
          omega
        dsimp only
        rw [← fault]
        exact .unknown opcode
    | some o =>
        rw [known] at opcode
        have d0 : r.word.toInt.toNat / 100 % 10 = r.digit 0 := rfl
        have d1 : r.word.toInt.toNat / 1000 % 10 = r.digit 1 := rfl
        have d2 : r.word.toInt.toNat / 10000 % 10 = r.digit 2 := rfl
        dsimp only
        rw [d0, d1, d2]
        -- Decoding stops at the lowest mode that means nothing; the table looks at all three.
        rcases r.decodeMode_eq 0 with ⟨m0, e0, f0, n0⟩ | ⟨f, e0, f0⟩
        · rcases r.decodeMode_eq 1 with ⟨m1, e1, f1, n1⟩ | ⟨f, e1, f1⟩
          · rcases r.decodeMode_eq 2 with ⟨m2, e2, f2, n2⟩ | ⟨f, e2, f2⟩
            · rw [e0, e1, e2]
              exact .good opcode (by simp [modeFaults, f0, f1, f2]) n0 n1 n2
            · rw [e0, e1, e2]
              exact .badMode opcode (by simp [modeFaults, f0, f1, f2])
          · rw [e0, e1]
            exact .badMode opcode (by simp [modeFaults, f0, f1])
        · rw [e0]
          exact .badMode opcode (by simp [modeFaults, f0])

/-- A value, unless there is a fault in the way. -/
def guarded {α : Type} (f : Option Fault) (a : α) : Except Failure α :=
  match f with
  | some f => .error (.fault f)
  | none => .ok a

theorem guarded_bind {α β : Type} (f : Option Fault) (a : α) (k : α → Except Failure β) :
    (guarded f a >>= k) = match f with
      | some f => .error (.fault f)
      | none => k a := by
  cases f <;> rfl

/-- The instruction pointer stands on a cell, far from the end of the address range. -/
def Core.Inside (c : Core) : Prop := c.ip.toNat < 2 ^ 60

namespace Core

variable {c : Core}

theorem plus_of_inside (inside : c.Inside) {n : Nat} (small : n ≤ 4) :
    c.ip.plus n = .ok (c.ip + UInt64.ofNat n) := by
  apply Address.plus_eq_ok
  rw [UInt64.size]
  unfold Inside at inside
  omega

theorem parameter_eq (inside : c.Inside) {k : Nat} (small : k ≤ 2) :
    c.parameter k = .ok (c.boundless.parameter k) := by
  rw [parameter, plus_of_inside inside (by omega), UInt64.ofNat_add, ← UInt64.add_assoc]
  rfl

theorem address_eq (v : Word) :
    c.address v = guarded (c.boundless.addressFault v) v.toUInt64 := by
  unfold address Boundless.addressFault
  split <;> rfl

theorem wrap_base (v : Word) : Boundless.wrap (v.toInt + c.base.toInt) = v + c.base := by
  rw [Boundless.wrap, Int64.ofInt_add, Int64.ofInt_toInt, Int64.ofInt_toInt]

theorem operand_eq (inside : c.Inside) {k : Nat} (small : k ≤ 2) {m : Mode}
    (mode : m.number = c.boundless.digit k) :
    c.operand m k = guarded (c.boundless.operandFault k) (c.boundless.operand k) := by
  rw [operand, parameter_eq inside small]
  unfold Boundless.operandFault Boundless.operand Boundless.pointer
  rw [← mode]
  cases m with
  | position =>
      show (c.address (c.boundless.parameter k) >>= fun a => pure (c.memory.read a)) = _
      rw [address_eq, guarded_bind]
      rfl
  | immediate => rfl
  | relative =>
      show (c.address (c.boundless.parameter k + c.base) >>= fun a => pure (c.memory.read a)) = _
      have base : c.boundless.base = c.base := rfl
      rw [address_eq, guarded_bind, base, ← wrap_base]
      rfl

theorem destination_eq (inside : c.Inside) {k : Nat} (small : k ≤ 2) {m : Mode}
    (mode : m.number = c.boundless.digit k) :
    c.destination m k = guarded (c.boundless.destinationFault k) (c.boundless.destination k) := by
  rw [destination, parameter_eq inside small]
  unfold Boundless.destinationFault Boundless.destination Boundless.pointer
  rw [← mode]
  cases m with
  | position => exact address_eq _
  | immediate => rfl
  | relative =>
      show c.address (c.boundless.parameter k + c.base) = _
      have base : c.boundless.base = c.base := rfl
      rw [address_eq, base, ← wrap_base]
      rfl

theorem next_eq (inside : c.Inside) (o : Opcode) :
    c.next o = .ok (c.ip + UInt64.ofNat o.width) := by
  have small : o.width ≤ 4 := by cases o <;> decide
  rw [next, plus_of_inside inside small]
  rfl

theorem toInt_eq_zero_iff (a : Word) : a.toInt = 0 ↔ a = 0 := by
  rw [← Int64.toInt_inj, Int64.toInt_zero]

/-- The effect as stored cells allow it: a store may be refused. -/
def allowed (c : Core) : Except Fault Effect → Except Failure Effect
  | .error f => .error (.fault f)
  | .ok (.store next a v) =>
      match c.memory.refusal a with
      | some t => .error (.trap t)
      | none => .ok (.store next a v)
  | .ok e => .ok e

theorem storing_eq (inside : c.Inside) {i : Instruction} {result : Int → Int → Int}
    {f : Word → Word → Word} (agree : ∀ a b, f a b = Boundless.wrap (result a.toInt b.toInt))
    (width : i.opcode.width = 4) (first : i.first.number = c.boundless.digit 0)
    (second : i.second.number = c.boundless.digit 1)
    (third : i.third.number = c.boundless.digit 2) :
    c.storing i f = c.allowed
      (match (c.boundless.parameterFaults (.compute result)).findSome? id with
      | some f => .error f
      | none => .ok (c.boundless.meaning (.compute result))) := by
  rw [storing, operand_eq inside (by decide) first, operand_eq inside (by decide) second,
    destination_eq inside (by decide) third, next_eq inside, width]
  simp only [guarded_bind, Boundless.parameterFaults, Boundless.meaning]
  cases c.boundless.operandFault 0 with
  | some f => rfl
  | none =>
      cases c.boundless.operandFault 1 with
      | some f => rfl
      | none =>
          cases c.boundless.destinationFault 2 with
          | some f => rfl
          | none =>
              rw [agree]
              rfl

theorem jumping_eq (inside : c.Inside) {i : Instruction} {required : Int → Bool}
    {taken : Word → Bool} (agree : ∀ a, taken a = required a.toInt)
    (width : i.opcode.width = 3) (first : i.first.number = c.boundless.digit 0)
    (second : i.second.number = c.boundless.digit 1) :
    c.jumping i taken = c.allowed
      (match (c.boundless.parameterFaults (.jump required)).findSome? id with
      | some f => .error f
      | none => .ok (c.boundless.meaning (.jump required))) := by
  rw [jumping, operand_eq inside (by decide) first, operand_eq inside (by decide) second,
    next_eq inside, width]
  -- Only a jump that is taken looks at its target.
  by_cases goes : required (c.boundless.operand 0).toInt = true
  · have faults : c.boundless.parameterFaults (.jump required) = [c.boundless.operandFault 0,
        c.boundless.operandFault 1, c.boundless.addressFault (c.boundless.operand 1)] := by
      simp [Boundless.parameterFaults, Boundless.jumps, goes]
    have target : c.boundless.meaning (.jump required) =
        .goto (c.boundless.operand 1).toUInt64 := by
      simp [Boundless.meaning, Boundless.jumps, goes]
    rw [faults, target]
    simp only [guarded_bind, agree, goes, if_true, address_eq]
    cases c.boundless.operandFault 0 with
    | some f => rfl
    | none =>
        cases c.boundless.operandFault 1 with
        | some f => rfl
        | none => cases c.boundless.addressFault (c.boundless.operand 1) <;> rfl
  · have faults : c.boundless.parameterFaults (.jump required) =
        [c.boundless.operandFault 0] := by
      simp [Boundless.parameterFaults, Boundless.jumps, goes]
    have target : c.boundless.meaning (.jump required) = .goto (c.boundless.ip + 3) := by
      simp [Boundless.meaning, Boundless.jumps, goes]
    rw [faults, target]
    simp only [guarded_bind, agree, goes]
    cases c.boundless.operandFault 0 <;> rfl

theorem perform_eq (inside : c.Inside) {i : Instruction}
    (first : i.first.number = c.boundless.digit 0)
    (second : i.second.number = c.boundless.digit 1)
    (third : i.third.number = c.boundless.digit 2) :
    c.perform i = c.allowed
      (match (c.boundless.parameterFaults i.opcode.row).findSome? id with
      | some f => .error f
      | none => .ok (c.boundless.meaning i.opcode.row)) := by
  unfold perform
  -- The table leaves the arithmetic to be compared: words wrap by themselves, integers when stored.
  cases opcode : i.opcode with
  | add =>
      refine storing_eq inside ?_ (by rw [opcode]; rfl) first second third
      intro a b
      rw [Boundless.wrap, Int64.ofInt_add, Int64.ofInt_toInt, Int64.ofInt_toInt]
  | mul =>
      refine storing_eq inside ?_ (by rw [opcode]; rfl) first second third
      intro a b
      rw [Boundless.wrap, Int64.ofInt_mul, Int64.ofInt_toInt, Int64.ofInt_toInt]
  | lessThan =>
      refine storing_eq inside ?_ (by rw [opcode]; rfl) first second third
      intro a b
      by_cases below : a.toInt < b.toInt <;>
        simp [truth, Boundless.wrap, Int64.lt_iff_toInt_lt, below]
  | equals =>
      refine storing_eq inside ?_ (by rw [opcode]; rfl) first second third
      intro a b
      by_cases same : a = b <;> simp [truth, Boundless.wrap, Int64.toInt_inj, same]
  | jumpIfTrue =>
      refine jumping_eq inside ?_ (by rw [opcode]; rfl) first second
      intro a
      by_cases zero : a = 0 <;> simp [bne, toInt_eq_zero_iff, zero]
  | jumpIfFalse =>
      refine jumping_eq inside ?_ (by rw [opcode]; rfl) first second
      intro a
      by_cases zero : a = 0 <;> simp [toInt_eq_zero_iff, zero]
  | input =>
      dsimp only
      rw [destination_eq inside (by decide) first, guarded_bind]
      simp only [Opcode.row, Boundless.parameterFaults, Boundless.meaning]
      cases c.boundless.destinationFault 0 with
      | some f => rfl
      | none =>
          rw [next_eq inside]
          rfl
  | output =>
      dsimp only
      rw [operand_eq inside (by decide) first, guarded_bind]
      simp only [Opcode.row, Boundless.parameterFaults, Boundless.meaning]
      cases c.boundless.operandFault 0 with
      | some f => rfl
      | none =>
          rw [next_eq inside]
          rfl
  | adjustBase =>
      dsimp only
      rw [operand_eq inside (by decide) first, guarded_bind]
      simp only [Opcode.row, Boundless.parameterFaults, Boundless.meaning]
      cases c.boundless.operandFault 0 with
      | some f => rfl
      | none =>
          rw [next_eq inside, Boundless.wrap, Int64.ofInt_add, Int64.ofInt_toInt,
            Int64.ofInt_toInt]
          rfl
  | halt => rfl

/-- Past the end there is no opcode, so that a core with one stands on a cell. -/
theorem inside_of_opcode (fits : c.memory.Fits) {row : Boundless.Row}
    (h : c.boundless.opcode? = some row) : c.Inside := by
  unfold Inside
  unfold Memory.Fits at fits
  apply Decidable.byContradiction
  intro far
  -- Past the end a word is zero, and zero is no opcode.
  have beyond : c.memory.size ≤ c.ip.toNat := by omega
  have zero : c.boundless.word = 0 := Memory.read_eq_zero beyond
  rw [Boundless.opcode?, zero] at h
  cases h

theorem effect_eq (fits : c.memory.Fits) : c.effect = c.allowed c.boundless.effect := by
  have found : Instruction.decode (c.memory.read c.ip) c.ip =
      Instruction.decode c.boundless.word c.boundless.ip := rfl
  rw [effect, found, Boundless.effect]
  generalize read : Instruction.decode c.boundless.word c.boundless.ip = decoded
  have meaning := c.boundless.decoded
  rw [read] at meaning
  cases meaning with
  | unknown opcode =>
      rw [opcode]
      rfl
  | badMode opcode mode =>
      rw [opcode]
      simp only [List.findSome?_append, mode]
      rfl
  | good opcode mode first second third =>
      rw [opcode]
      simp only [List.findSome?_append, mode]
      exact perform_eq (inside_of_opcode fits opcode) first second third

/-- What shows of a step: how it ended, the registers, the reads and the device. -/
def seen (s : Progress × Core × σ) : Progress × Boundless × σ := (s.1, s.2.1.boundless, s.2.2)

theorem boundless_store (next a : Address) (v : Word) :
    (c.after (.store next a v)).boundless = c.boundless.store next a v := by
  unfold boundless Boundless.store after
  congr 1
  funext b
  by_cases here : b = a
  · rw [here, Memory.read_write_self, if_pos rfl]
  · rw [Memory.read_write_of_ne _ _ (Ne.symm here), if_neg here]

variable {D : Device σ}

theorem seen_step (fits : c.memory.Fits) {io : σ}
    (low : (c.boundless.target? D io).all (fun a => a.toNat < 2 ^ 59) = true) :
    seen (c.step D io) = c.boundless.step D io ∧ (c.step D io).2.1.memory.Fits := by
  -- A store past the limit is the only effect that memory forbids, and low writes stay within it.
  have effect := effect_eq fits
  cases h : c.boundless.effect with
  | error f =>
      rw [h] at effect
      rw [step_of_error effect, Boundless.step.eq_def, h]
      exact ⟨rfl, fits⟩
  | ok e =>
      rw [h] at effect
      cases e with
      | store next a v =>
          have below : a.toNat < 2 ^ 59 := by simpa [Boundless.target?, h] using low
          rw [allowed, Memory.refusal_of_low _ below] at effect
          rw [step_of_silent effect rfl, Boundless.step.eq_def, h]
          refine ⟨?_, Memory.fits_write fits below v⟩
          simp only [seen, boundless_store]
      | goto next =>
          rw [step_of_silent effect rfl, Boundless.step.eq_def, h]
          exact ⟨rfl, fits⟩
      | rebase next base =>
          rw [step_of_silent effect rfl, Boundless.step.eq_def, h]
          exact ⟨rfl, fits⟩
      | input next a =>
          rcases given : D.take io with ⟨v, io'⟩
          rw [Boundless.step.eq_def, h]
          cases v with
          | none =>
              rw [step_of_no_input effect given]
              simp only [given]
              exact ⟨rfl, fits⟩
          | some v =>
              have below : a.toNat < 2 ^ 59 := by simpa [Boundless.target?, h, given] using low
              rw [step_of_input effect given (Memory.refusal_of_low _ below)]
              simp only [given, ← boundless_store]
              exact ⟨rfl, Memory.fits_write fits below v⟩
      | output next v =>
          rcases given : D.put io v with ⟨accepted, io'⟩
          rw [Boundless.step.eq_def, h]
          cases accepted with
          | false =>
              rw [step_of_no_output effect given]
              simp only [given]
              exact ⟨rfl, fits⟩
          | true =>
              rw [step_of_output effect given]
              simp only [given]
              exact ⟨rfl, fits⟩
      | halt =>
          rw [step_of_halt effect, Boundless.step.eq_def, h]
          exact ⟨rfl, fits⟩

theorem seen_trace {limit : Nat} (fits : c.memory.Fits) {io : σ}
    (low : c.boundless.writesBelow D (2 ^ 59) limit io = true) :
    (c.trace D limit io).map seen = c.boundless.trace D limit io := by
  induction limit generalizing c io with
  | zero => rfl
  | succ limit ih =>
      rw [Boundless.writesBelow_succ, Bool.and_eq_true] at low
      obtain ⟨same, fits'⟩ := seen_step fits low.1
      rcases step : c.step D io with ⟨progress, c', io'⟩
      rw [step] at same fits'
      have later := low.2
      rw [← same] at later
      rw [trace_succ, Boundless.trace_succ, step, ← same]
      cases progress with
      | running => exact congrArg _ (ih fits' later)
      | halted => rfl
      | failed f => rfl

def seenStop (s : Stop σ) : Except Failure Nat × Boundless × σ :=
  (s.result, s.core.boundless, s.device)

theorem seen_runFrom (count : Nat) {fuel : Nat} (fits : c.memory.Fits) {io : σ}
    (low : c.boundless.writesBelow D (2 ^ 59) fuel io = true) :
    (runFrom D count fuel c io).map seenStop = Boundless.runFrom D count fuel c.boundless io := by
  induction fuel generalizing c io count with
  | zero => rfl
  | succ fuel ih =>
      rw [Boundless.writesBelow_succ, Bool.and_eq_true] at low
      obtain ⟨same, fits'⟩ := seen_step fits low.1
      rcases step : c.step D io with ⟨progress, c', io'⟩
      rw [step] at same fits'
      have later := low.2
      rw [← same] at later
      rw [runFrom_succ, Boundless.runFrom_succ, step, ← same]
      cases progress with
      | running => exact ih (count + 1) fits' later
      | halted => rfl
      | failed f => rfl

end Core

/-- As long as all writes are low, a core goes step by step, and to the same end, as one whose
memory never grows; so cores that read alike behave alike, whatever they have stored. -/
theorem growth_invisible (D : Device σ) (c : Core) (io : σ) (limit : Nat)
    (fits : c.memory.size ≤ 2 ^ 60 - 1)
    (low : c.boundless.writesBelow D (2 ^ 59) limit io = true) :
    (c.trace D limit io).map Core.seen = c.boundless.trace D limit io ∧
    (c.run D limit io).map Core.seenStop = c.boundless.run D limit io ∧
    ∀ twin : Core, twin.memory.size ≤ 2 ^ 60 - 1 → twin.ip = c.ip → twin.base = c.base →
      (∀ a, twin.memory.read a = c.memory.read a) →
      (twin.trace D limit io).map Core.seen = (c.trace D limit io).map Core.seen ∧
      (twin.run D limit io).map Core.seenStop = (c.run D limit io).map Core.seenStop := by
  have steps := Core.seen_trace fits low
  have ends := Core.seen_runFrom 0 fits low
  refine ⟨steps, ends, ?_⟩
  intro twin fits' ip base reads
  have alike : twin.boundless = c.boundless := by
    rw [Core.boundless, Core.boundless, ip, base]
    congr 1
    funext a
    exact reads a
  rw [← alike] at low
  have steps' := Core.seen_trace fits' low
  have ends' := Core.seen_runFrom 0 fits' low
  constructor
  · rw [steps, steps', alike]
  · rw [Core.run, Core.run, ends, ends', alike]

/-- A program that takes its input beyond its end, in relative mode, and writes it out again. -/
def echoBeyond : Core := { memory := Memory.ofList [109, 20, 203, 5, 204, 5, 99] }

theorem growth_invisible_echoBeyond :
    echoBeyond.memory.size ≤ 2 ^ 60 - 1 ∧
    echoBeyond.boundless.writesBelow Buffer.device (2 ^ 59) 10 { input := [-9] } = true ∧
    (echoBeyond.run Buffer.device 10 { input := [-9] }).map Core.seenStop =
      echoBeyond.boundless.run Buffer.device 10 { input := [-9] } := by
  have fits : echoBeyond.memory.size ≤ 2 ^ 60 - 1 := by decide
  have low : echoBeyond.boundless.writesBelow Buffer.device (2 ^ 59) 10 { input := [-9] } =
      true := by
    decide +kernel
  exact ⟨fits, low, (growth_invisible Buffer.device echoBeyond { input := [-9] } 10 fits low).2.1⟩

end Shipboard
