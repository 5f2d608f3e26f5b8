import Shipboard.Proofs.Core.Failing
import Shipboard.Proofs.Core.Growth

/-!
Modes of parameters. It does not matter in which way a parameter names its address: instructions
with the same opcode whose parameters come to the same have the same effect, even if their own
cells differ.
-/

namespace Shipboard

namespace Opcode

/-- The parameter that names where to write. -/
def destination? : Opcode → Option Nat
  | .add | .mul | .lessThan | .equals => some 2
  | .input => some 0
  | _ => none

end Opcode

def Instruction.mode (i : Instruction) : Nat → Mode
  | 0 => i.first
  | 1 => i.second
  | _ => i.third

namespace Core

def raw (c : Core) (k : Nat) : Word := c.memory.read (c.ip + 1 + UInt64.ofNat k)

/-- The word that parameter `k` gives for an address when it is not immediate. -/
def pointer (c : Core) (i : Instruction) (k : Nat) : Word :=
  match i.mode k with
  | .relative => c.raw k + c.base
  | _ => c.raw k

def Occupies (c : Core) (i : Instruction) (a : Address) : Prop :=
  c.ip.toNat ≤ a.toNat ∧ a.toNat < c.ip.toNat + i.opcode.width

/-- The parameters whose values are looked at. The target of a jump is one only if it is taken. -/
def Uses (c : Core) (i : Instruction) (k : Nat) : Prop :=
  match i.opcode with
  | .add | .mul | .lessThan | .equals => k = 0 ∨ k = 1
  | .jumpIfTrue => k = 0 ∨ k = 1 ∧ ∃ v, c.operand i.first 0 = .ok v ∧ v ≠ 0
  | .jumpIfFalse => k = 0 ∨ k = 1 ∧ c.operand i.first 0 = .ok 0
  | .output | .adjustBase => k = 0
  | .input | .halt => False

/-- Parameter `k` of two instructions comes to the same: both are immediate with the same value, or
both name the same address. -/
def Alike (c : Core) (i : Instruction) (c' : Core) (i' : Instruction) (k : Nat) : Prop :=
  (i.mode k = .immediate ∧ i'.mode k = .immediate ∧ c'.raw k = c.raw k) ∨
    (i.mode k ≠ .immediate ∧ i'.mode k ≠ .immediate ∧ c'.pointer i' k = c.pointer i k ∧
      0 ≤ c.pointer i k)

/-- Two cores at instructions with the same opcode and parameters that come to the same. Memory
may differ in the instructions' own cells, but no value is read from there. -/
structure Interchangeable (c : Core) (i : Instruction) (c' : Core) (i' : Instruction) : Prop where
  ip : c'.ip = c.ip
  base : c'.base = c.base
  decoded : Instruction.decode (c.memory.read c.ip) c.ip = .ok i
  decoded' : Instruction.decode (c'.memory.read c'.ip) c'.ip = .ok i'
  opcode : i'.opcode = i.opcode
  agree : ∀ a, ¬ c.Occupies i a → c'.memory.read a = c.memory.read a
  alike : ∀ k, k + 1 < i.opcode.width → c.Alike i c' i' k
  apart : ∀ k, c.Uses i k → i.mode k ≠ .immediate → ¬ c.Occupies i (c.pointer i k).toUInt64
  low : ∀ k, i.opcode.destination? = some k → i.mode k ≠ .immediate →
    (c.pointer i k).toUInt64.toNat < 2 ^ 59

variable {c c' : Core} {i i' : Instruction} {k : Nat} {a : Address}

theorem parameter_cases (c : Core) (k : Nat) :
    (∃ t, c.ip.plus (1 + k) = .error t ∧ c.parameter k = .error (.trap t)) ∨
      c.ip.plus (1 + k) = .ok (c.ip + 1 + UInt64.ofNat k) ∧ c.parameter k = .ok (c.raw k) := by
  by_cases within : c.ip.toNat + (1 + k) < UInt64.size
  · have place : c.ip.plus (1 + k) = .ok (c.ip + 1 + UInt64.ofNat k) := by
      rw [Address.plus_eq_ok within, UInt64.ofNat_add, ← UInt64.add_assoc]
      rfl
    refine .inr ⟨place, ?_⟩
    rw [parameter, place]
    rfl
  · have outside : c.ip.plus (1 + k) = .error .addOverflow := by
      rw [Address.plus, if_neg within]
    refine .inl ⟨_, outside, ?_⟩
    rw [parameter, outside]
    rfl

theorem address_of_nonneg {v : Word} (nonneg : 0 ≤ v) : c.address v = .ok v.toUInt64 := by
  rw [address, if_neg (Int64.not_lt.mpr nonneg)]

theorem eq_of_address {v : Word} (named : c.address v = .ok a) : a = v.toUInt64 := by
  unfold address at named
  split at named
  · cases named
  · cases named
    rfl

theorem destination_of_placed (read : c.parameter k = .ok (c.raw k))
    (placed : i.mode k ≠ .immediate) :
    c.destination (i.mode k) k = c.address (c.pointer i k) := by
  rw [destination, read, pointer]
  cases mode : i.mode k with
  | position => rfl
  | immediate => exact absurd mode placed
  | relative => rfl

theorem operand_of_placed (read : c.parameter k = .ok (c.raw k))
    (placed : i.mode k ≠ .immediate) :
    c.operand (i.mode k) k = c.address (c.pointer i k) >>= fun a => pure (c.memory.read a) := by
  rw [operand, read, pointer]
  cases mode : i.mode k with
  | position => rfl
  | immediate => exact absurd mode placed
  | relative => rfl

theorem pointer_of_destination (named : c.destination (i.mode k) k = .ok a) :
    i.mode k ≠ .immediate ∧ a = (c.pointer i k).toUInt64 := by
  rcases c.parameter_cases k with ⟨t, -, read⟩ | ⟨-, read⟩
  · rw [destination, read] at named
    cases named
  · by_cases immediate : i.mode k = .immediate
    · rw [destination, read, immediate] at named
      cases named
    · rw [destination_of_placed read immediate] at named
      exact ⟨immediate, eq_of_address named⟩

theorem computes (destination : i.opcode.destination? = some 2) :
    i.opcode.width = 4 ∧ c.Uses i 0 ∧ c.Uses i 1 := by
  unfold Uses
  cases opcode : i.opcode <;> simp_all [Opcode.destination?, Opcode.width]

namespace Interchangeable

theorem parameters (same : c.Interchangeable i c' i') (k : Nat) :
    (∃ t, c.parameter k = .error (.trap t) ∧ c'.parameter k = .error (.trap t)) ∨
      (c.parameter k = .ok (c.raw k) ∧ c'.parameter k = .ok (c'.raw k)) := by
  rcases c.parameter_cases k with ⟨t, outside, read⟩ | ⟨place, read⟩
  · rcases c'.parameter_cases k with ⟨t', outside', read'⟩ | ⟨place', -⟩
    · rw [same.ip, outside] at outside'
      cases outside'
      exact .inl ⟨t, read, read'⟩
    · rw [same.ip, outside] at place'
      cases place'
  · rcases c'.parameter_cases k with ⟨t', outside', -⟩ | ⟨-, read'⟩
    · rw [same.ip, place] at outside'
      cases outside'
    · exact .inr ⟨read, read'⟩

theorem operand_eq (same : c.Interchangeable i c' i') (among : k + 1 < i.opcode.width)
    (used : c.Uses i k) : c'.operand (i'.mode k) k = c.operand (i.mode k) k := by
  rcases same.parameters k with ⟨t, read, read'⟩ | ⟨read, read'⟩
  · rw [operand, operand, read, read']
    rfl
  · rcases same.alike k among with ⟨mode, mode', raw⟩ | ⟨placed, placed', pointer, nonneg⟩
    · rw [operand, operand, read, read', mode, mode', raw]
    · have outside := same.agree _ (same.apart k used placed)
      rw [operand_of_placed read placed, operand_of_placed read' placed', pointer,
        address_of_nonneg nonneg, address_of_nonneg nonneg]
      exact congrArg Except.ok outside

theorem destination_eq (same : c.Interchangeable i c' i') (among : k + 1 < i.opcode.width) :
    c'.destination (i'.mode k) k = c.destination (i.mode k) k := by
  rcases same.parameters k with ⟨t, read, read'⟩ | ⟨read, read'⟩
  · rw [destination, destination, read, read']
    rfl
  · rcases same.alike k among with ⟨mode, mode', raw⟩ | ⟨placed, placed', pointer, nonneg⟩
    · rw [destination, destination, read, read', mode, mode', same.ip]
      rfl
    · rw [destination_of_placed read placed, destination_of_placed read' placed', pointer,
        address_of_nonneg nonneg, address_of_nonneg nonneg]

theorem next_eq (same : c.Interchangeable i c' i') : c'.next i'.opcode = c.next i.opcode := by
  rw [next, next, same.ip, same.opcode]

theorem accepted (same : c.Interchangeable i c' i') (destination : i.opcode.destination? = some k)
    (named : c.destination (i.mode k) k = .ok a) :
    c.memory.refusal a = none ∧ c'.memory.refusal a = none := by
  obtain ⟨placed, rfl⟩ := pointer_of_destination named
  have low := same.low k destination placed
  exact ⟨Memory.refusal_of_low _ low, Memory.refusal_of_low _ low⟩

theorem storing_eq (same : c.Interchangeable i c' i')
    (destination : i.opcode.destination? = some 2) (f : Word → Word → Word) :
    c'.storing i' f = c.storing i f := by
  obtain ⟨width, uses, uses'⟩ := computes (c := c) destination
  have first : c'.operand i'.first 0 = c.operand i.first 0 :=
    same.operand_eq (by rw [width]; decide) uses
  have second : c'.operand i'.second 1 = c.operand i.second 1 :=
    same.operand_eq (by rw [width]; decide) uses'
  have third : c'.destination i'.third 2 = c.destination i.third 2 :=
    same.destination_eq (by rw [width]; decide)
  rw [storing, storing, first, second, third, same.next_eq]
  cases named : c.destination i.third 2 with
  | error f => rfl
  | ok d =>
      obtain ⟨stored, stored'⟩ := same.accepted destination named
      simp only [bind, Except.bind, stored, stored']

theorem jumping_eq (same : c.Interchangeable i c' i') (width : i.opcode.width = 3)
    {taken : Word → Bool} (uses : c.Uses i 0)
    (uses' : ∀ v, c.operand i.first 0 = .ok v → taken v = true → c.Uses i 1) :
    c'.jumping i' taken = c.jumping i taken := by
  have first : c'.operand i'.first 0 = c.operand i.first 0 :=
    same.operand_eq (by rw [width]; decide) uses
  have target : ∀ v, c'.address v = c.address v := by
    intro v
    rw [address, address, same.ip]
  rw [jumping, jumping, first, same.next_eq]
  cases named : c.operand i.first 0 with
  | error f => rfl
  | ok v =>
      by_cases goes : taken v = true
      · have second : c'.operand i'.second 1 = c.operand i.second 1 :=
          same.operand_eq (by rw [width]; decide) (uses' v named goes)
        simp only [bind, Except.bind, goes, if_true, second, target]
      · simp only [bind, Except.bind, goes]
        rfl

theorem perform_eq (same : c.Interchangeable i c' i') : c'.perform i' = c.perform i := by
  unfold perform
  rw [same.opcode]
  cases opcode : i.opcode with
  | add => exact same.storing_eq (by rw [opcode]; rfl) _
  | mul => exact same.storing_eq (by rw [opcode]; rfl) _
  | lessThan => exact same.storing_eq (by rw [opcode]; rfl) _
  | equals => exact same.storing_eq (by rw [opcode]; rfl) _
  | jumpIfTrue =>
      refine same.jumping_eq (by rw [opcode]; rfl) (by simp [Uses, opcode]) ?_
      intro v named goes
      simpa [Uses, opcode, named] using goes
  | jumpIfFalse =>
      refine same.jumping_eq (by rw [opcode]; rfl) (by simp [Uses, opcode]) ?_
      intro v named goes
      simpa [Uses, opcode, named] using goes
  | input =>
      have first : c'.destination i'.first 0 = c.destination i.first 0 :=
        same.destination_eq (by rw [opcode]; decide)
      have next := same.next_eq
      rw [same.opcode, opcode] at next
      dsimp only
      rw [first, next]
  | output =>
      have first : c'.operand i'.first 0 = c.operand i.first 0 :=
        same.operand_eq (by rw [opcode]; decide) (by simp [Uses, opcode])
      have next := same.next_eq
      rw [same.opcode, opcode] at next
      dsimp only
      rw [first, next]
  | adjustBase =>
      have first : c'.operand i'.first 0 = c.operand i.first 0 :=
        same.operand_eq (by rw [opcode]; decide) (by simp [Uses, opcode])
      have next := same.next_eq
      rw [same.opcode, opcode] at next
      dsimp only
      rw [first, next, same.base]
  | halt => rfl

theorem effect_eq (same : c.Interchangeable i c' i') : c'.effect = c.effect := by
  rw [effect, effect, same.decoded, same.decoded']
  exact same.perform_eq

end Interchangeable

theorem store_of_storing {f : Word → Word → Word} {e : Effect} (stores : c.storing i f = .ok e) :
    ∃ a, e.address? = some a ∧ c.destination i.third 2 = .ok a := by
  obtain ⟨v, -, stores⟩ := ok_of_bind stores
  obtain ⟨v', -, stores⟩ := ok_of_bind stores
  obtain ⟨d, named, stores⟩ := ok_of_bind stores
  split at stores
  · cases stores
  · obtain ⟨next, -, stores⟩ := ok_of_bind stores
    cases stores
    exact ⟨d, rfl, named⟩

theorem address?_of_jumping {taken : Word → Bool} {e : Effect}
    (jumps : c.jumping i taken = .ok e) : e.address? = none := by
  obtain ⟨v, -, jumps⟩ := ok_of_bind jumps
  split at jumps
  · obtain ⟨target, -, jumps⟩ := ok_of_bind jumps
    obtain ⟨next, -, jumps⟩ := ok_of_bind jumps
    cases jumps
    rfl
  · obtain ⟨next, -, jumps⟩ := ok_of_bind jumps
    cases jumps
    rfl

theorem destination_of_effect {e : Effect}
    (decoded : Instruction.decode (c.memory.read c.ip) c.ip = .ok i) (effect : c.effect = .ok e) :
    (e.address? = none ∧ i.opcode.destination? = none) ∨
      ∃ k a, e.address? = some a ∧ i.opcode.destination? = some k ∧
        c.destination (i.mode k) k = .ok a := by
  rw [Core.effect, decoded] at effect
  have performed : c.perform i = .ok e := effect
  unfold perform at performed
  cases opcode : i.opcode with
  | add | mul | lessThan | equals =>
      rw [opcode] at performed
      obtain ⟨a, writes, named⟩ := store_of_storing performed
      exact .inr ⟨2, a, writes, rfl, named⟩
  | jumpIfTrue | jumpIfFalse =>
      rw [opcode] at performed
      exact .inl ⟨address?_of_jumping performed, rfl⟩
  | input =>
      rw [opcode] at performed
      obtain ⟨d, named, performed⟩ := ok_of_bind performed
      obtain ⟨next, -, performed⟩ := ok_of_bind performed
      cases performed
      exact .inr ⟨0, d, rfl, rfl, named⟩
  | output | adjustBase =>
      rw [opcode] at performed
      obtain ⟨v, -, performed⟩ := ok_of_bind performed
      obtain ⟨next, -, performed⟩ := ok_of_bind performed
      cases performed
      exact .inl ⟨rfl, rfl⟩
  | halt =>
      rw [opcode] at performed
      cases performed
      exact .inl ⟨rfl, rfl⟩

theorem exists_destination {e : Effect}
    (decoded : Instruction.decode (c.memory.read c.ip) c.ip = .ok i) (effect : c.effect = .ok e)
    (writes : e.address? = some a) :
    ∃ k, i.opcode.destination? = some k ∧ c.destination (i.mode k) k = .ok a := by
  rcases destination_of_effect decoded effect with ⟨idle, -⟩ | ⟨k, b, writes', found, named⟩
  · rw [idle] at writes
    cases writes
  · rw [writes] at writes'
    cases writes'
    exact ⟨k, found, named⟩

theorem destination?_eq_none {e : Effect}
    (decoded : Instruction.decode (c.memory.read c.ip) c.ip = .ok i) (effect : c.effect = .ok e)
    (idle : e.address? = none) : i.opcode.destination? = none := by
  rcases destination_of_effect decoded effect with ⟨-, found⟩ | ⟨k, a, writes, -, -⟩
  · exact found
  · rw [idle] at writes
    cases writes

/-- The cores `d` and `d'` come out alike, with progress `p`, from instructions that were
interchangeable. If these go on and have a destination, the same value is written there; otherwise
nothing is written. The memories agree outside the instructions' own cells, and at a destination
always, but for one that lies in these cells and has not come to be written. -/
structure Interchanged (c : Core) (i : Instruction) (c' : Core) (p : Progress) (d d' : Core) :
    Prop where
  ip : d'.ip = d.ip
  base : d'.base = d.base
  written : ∀ k, i.opcode.destination? = some k → p = .running → i.mode k ≠ .immediate ∧
    ∃ v, d.memory = c.memory.write (c.pointer i k).toUInt64 v ∧
      d'.memory = c'.memory.write (c.pointer i k).toUInt64 v ∧
      d.memory.read (c.pointer i k).toUInt64 = v ∧ d'.memory.read (c.pointer i k).toUInt64 = v
  unwritten : i.opcode.destination? = none ∨ p ≠ .running →
    d.memory = c.memory ∧ d'.memory = c'.memory
  agree : ∀ a, ¬ c.Occupies i a → d'.memory.read a = d.memory.read a
  there : ∀ k, i.opcode.destination? = some k → i.mode k ≠ .immediate →
    p = .running ∨ ¬ c.Occupies i (c.pointer i k).toUInt64 →
    d'.memory.read (c.pointer i k).toUInt64 = d.memory.read (c.pointer i k).toUInt64

variable {p : Progress} {d d' : Core}

theorem Interchangeable.unwritten (same : c.Interchangeable i c' i')
    (idle : i.opcode.destination? = none ∨ p ≠ .running) (ip : d'.ip = d.ip)
    (base : d'.base = d.base) (memory : d.memory = c.memory) (memory' : d'.memory = c'.memory) :
    c.Interchanged i c' p d d' := by
  have agree : ∀ a, ¬ c.Occupies i a → d'.memory.read a = d.memory.read a := by
    intro a outside
    rw [memory, memory']
    exact same.agree a outside
  have still : ∀ k, i.opcode.destination? = some k → p ≠ .running := by
    intro k destination
    rcases idle with aimless | still
    · rw [aimless] at destination
      cases destination
    · exact still
  refine { ip, base, agree, written := ?_, unwritten := fun _ => ⟨memory, memory'⟩, there := ?_ }
  · intro k destination running
    exact absurd running (still k destination)
  · intro k destination _ reached
    exact agree _ (reached.resolve_left (still k destination))

theorem Interchangeable.stored (same : c.Interchangeable i c' i') {e : Effect}
    (effect : c.effect = .ok e) (writes : e.address? = some a) (next : Address) (v : Word) :
    c.Interchanged i c' .running (c.after (.store next a v)) (c'.after (.store next a v)) := by
  obtain ⟨k, found, named⟩ := exists_destination same.decoded effect writes
  obtain ⟨placed, rfl⟩ := pointer_of_destination named
  have here := (Memory.read_write_self c'.memory (c.pointer i k).toUInt64 v).trans
    (Memory.read_write_self c.memory (c.pointer i k).toUInt64 v).symm
  refine { ip := rfl, base := same.base, written := ?_, unwritten := ?_, agree := ?_, there := ?_ }
  · intro l destination _
    rw [found] at destination
    cases destination
    exact ⟨placed, v, rfl, rfl, Memory.read_write_self _ _ _, Memory.read_write_self _ _ _⟩
  · intro idle
    rcases idle with aimless | still
    · rw [found] at aimless
      cases aimless
    · exact absurd rfl still
  · intro b outside
    by_cases place : (c.pointer i k).toUInt64 = b
    · subst place
      exact here
    · have before := Memory.read_write_of_ne c.memory v place
      have before' := Memory.read_write_of_ne c'.memory v place
      exact before'.trans ((same.agree b outside).trans before.symm)
  · intro l destination _ _
    rw [found] at destination
    cases destination
    exact here

end Core

/-- Instructions whose parameters come to the same do the same, in whatever modes these are given:
they go on, halt or fail alike, ask the same of every device, and leave the same registers. Both
write nothing, or the same value at the same destination, and the memories agree there and still
agree outside the instructions' own cells. -/
theorem modes_interchangeable {c c' : Core} {i i' : Instruction}
    (same : c.Interchangeable i c' i') {σ : Type} (D : Device σ) (io : σ) :
    ∃ p d d' io', c.step D io = (p, d, io') ∧ c'.step D io = (p, d', io') ∧
      c.Interchanged i c' p d d' := by
  have unmoved : ∀ p ≠ .running, c.Interchanged i c' p c c' := fun p still =>
    same.unwritten (.inr still) same.ip same.base rfl rfl
  -- The effects are equal; the memories are not, so what is stored is looked at cell by cell.
  have effect' := same.effect_eq
  cases effect : c.effect with
  | error f =>
      rw [effect] at effect'
      exact ⟨_, _, _, _, Core.step_of_error effect io, Core.step_of_error effect' io,
        unmoved _ nofun⟩
  | ok e =>
      rw [effect] at effect'
      have aimless : e.address? = none → i.opcode.destination? = none :=
        Core.destination?_eq_none same.decoded effect
      cases e with
      | store next a v =>
          exact ⟨_, _, _, _, Core.step_of_silent effect rfl io, Core.step_of_silent effect' rfl io,
            same.stored effect rfl next v⟩
      | goto next =>
          exact ⟨_, _, _, _, Core.step_of_silent effect rfl io, Core.step_of_silent effect' rfl io,
            same.unwritten (.inl (aimless rfl)) rfl same.base rfl rfl⟩
      | rebase next base =>
          exact ⟨_, _, _, _, Core.step_of_silent effect rfl io, Core.step_of_silent effect' rfl io,
            same.unwritten (.inl (aimless rfl)) rfl rfl rfl rfl⟩
      | halt =>
          exact ⟨_, _, _, _, Core.step_of_halt effect io, Core.step_of_halt effect' io,
            unmoved _ nofun⟩
      | input next a =>
          rcases given : D.take io with ⟨v, io'⟩
          cases v with
          | none =>
              have dry' := Core.step_of_no_input effect' given
              rw [same.ip] at dry'
              exact ⟨_, _, _, _, Core.step_of_no_input effect given, dry', unmoved _ nofun⟩
          | some v =>
              obtain ⟨k, destination, named⟩ :=
                Core.exists_destination same.decoded effect rfl
              obtain ⟨fits, fits'⟩ := same.accepted destination named
              exact ⟨_, _, _, _, Core.step_of_input effect given fits,
                Core.step_of_input effect' given fits', same.stored effect rfl next v⟩
      | output next v =>
          rcases given : D.put io v with ⟨accepted, io'⟩
          cases accepted with
          | false =>
              have full' := Core.step_of_no_output effect' given
              rw [same.ip] at full'
              exact ⟨_, _, _, _, Core.step_of_no_output effect given, full', unmoved _ nofun⟩
          | true =>
              exact ⟨_, _, _, _, Core.step_of_output effect given,
                Core.step_of_output effect' given,
                same.unwritten (.inl (aimless rfl)) rfl same.base rfl rfl⟩

/-- A sum of a cell and a number that is written over the first parameter of the sum itself. -/
def sumInPosition : Core := { base := 2, memory := Memory.ofList [1001, 6, 5, 1, 99, 0, 40] }

def sumInRelation : Core := { base := 2, memory := Memory.ofList [21201, 4, 5, -1, 99, 0, 40] }

theorem modes_interchangeable_sums :
    sumInPosition.Interchangeable ⟨.add, .position, .immediate, .position⟩ sumInRelation
        ⟨.add, .relative, .immediate, .relative⟩ ∧
      ∃ d d' io', sumInPosition.step Buffer.device {} = (.running, d, io') ∧
        sumInRelation.step Buffer.device {} = (.running, d', io') ∧
        sumInPosition.Interchanged ⟨.add, .position, .immediate, .position⟩ sumInRelation .running
          d d' ∧
        d.memory.read 1 = 45 ∧ d'.memory.read 1 = 45 := by
  have same : sumInPosition.Interchangeable ⟨.add, .position, .immediate, .position⟩ sumInRelation
      ⟨.add, .relative, .immediate, .relative⟩ := by
    refine { ip := rfl, base := rfl, decoded := rfl, decoded' := rfl, opcode := rfl, agree := ?_,
             alike := ?_, apart := ?_, low := ?_ }
    · intro a outside
      have behind : 4 ≤ a.toNat := by
        simpa [Core.Occupies, sumInPosition, Opcode.width] using outside
      obtain ⟨n, far⟩ := Nat.exists_eq_add_of_le' behind
      simp [Memory.read, far, sumInRelation, sumInPosition, Memory.ofList]
    · intro k among
      have third : k = 0 ∨ k = 1 ∨ k = 2 := by
        simp only [Opcode.width] at among
        omega
      rcases third with rfl | rfl | rfl
      · exact .inr (by decide +kernel)
      · exact .inl (by decide +kernel)
      · exact .inr (by decide +kernel)
    · intro k used placed
      rcases used with rfl | rfl
      · rintro ⟨-, within⟩
        exact absurd within (by decide +kernel)
      · exact absurd rfl placed
    · intro k destination placed
      cases destination
      decide +kernel
  obtain ⟨p, d, d', io', step, step', alike⟩ := modes_interchangeable same Buffer.device {}
  cases step
  cases step'
  exact ⟨same, _, _, _, rfl, rfl, alike, by decide +kernel, by decide +kernel⟩

/-- Where an input is refused, nothing is written, so the cells of the instructions still differ,
the destination among them. -/
example : ∃ d d' : Core,
    Core.step Buffer.device { base := 5, memory := .ofList [3, 1] } {} =
      (.failed (.fault (.inputClosed 0)), d, {}) ∧
    Core.step Buffer.device { base := 5, memory := .ofList [203, -4] } {} =
      (.failed (.fault (.inputClosed 0)), d', {}) ∧
    d.memory.read 1 = 1 ∧ d'.memory.read 1 = -4 :=
  ⟨_, _, rfl, rfl, rfl, rfl⟩

end Shipboard
