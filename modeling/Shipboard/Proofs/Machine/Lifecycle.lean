import Shipboard.Proofs.Core.Histories
import Shipboard.Proofs.Machine.Faulting

/-!
The life of a machine, which is poked and run in any order. It stays running over any failures,
until a run ends on a halt instruction; from then on it rests, and only pokes change anything, and
only the cells that they name.
-/

namespace Shipboard

namespace Core

variable {σ : Type} {D : Device σ} {c c' : Core} {io io' : σ} {i : Instruction}

theorem storing_ne_halt (f : Word → Word → Word) : c.storing i f ≠ .ok .halt := by
  intro halts
  obtain ⟨a, -, halts⟩ := ok_of_bind halts
  obtain ⟨b, -, halts⟩ := ok_of_bind halts
  obtain ⟨d, -, halts⟩ := ok_of_bind halts
  split at halts
  · cases halts
  · obtain ⟨next, -, halts⟩ := ok_of_bind halts
    cases halts

theorem jumping_ne_halt (taken : Word → Bool) : c.jumping i taken ≠ .ok .halt := by
  intro halts
  obtain ⟨v, -, halts⟩ := ok_of_bind halts
  split at halts
  · obtain ⟨target, -, halts⟩ := ok_of_bind halts
    obtain ⟨next, -, halts⟩ := ok_of_bind halts
    cases halts
  · obtain ⟨next, -, halts⟩ := ok_of_bind halts
    cases halts

theorem opcode_of_perform (halts : c.perform i = .ok .halt) : i.opcode = .halt := by
  unfold perform at halts
  split at halts
  · exact absurd halts (storing_ne_halt _)
  · exact absurd halts (storing_ne_halt _)
  · exact absurd halts (storing_ne_halt _)
  · exact absurd halts (storing_ne_halt _)
  · exact absurd halts (jumping_ne_halt _)
  · exact absurd halts (jumping_ne_halt _)
  · obtain ⟨d, -, halts⟩ := ok_of_bind halts
    obtain ⟨next, -, halts⟩ := ok_of_bind halts
    cases halts
  · obtain ⟨v, -, halts⟩ := ok_of_bind halts
    obtain ⟨next, -, halts⟩ := ok_of_bind halts
    cases halts
  · obtain ⟨v, -, halts⟩ := ok_of_bind halts
    obtain ⟨next, -, halts⟩ := ok_of_bind halts
    cases halts
  · assumption

theorem decode_of_halted (halts : c.step D io = (.halted, c', io')) :
    ∃ i, Instruction.decode (c.memory.read c.ip) c.ip = .ok i ∧ i.opcode = .halt := by
  rcases step_cases D c io with ⟨d, mid, step, -⟩ | ⟨effect, -⟩ | ⟨f, mid, step, -⟩
  · rw [step] at halts
    cases halts
  · obtain ⟨i, decoded, performed⟩ := ok_of_bind effect
    exact ⟨i, ok_of_mapError decoded, opcode_of_perform performed⟩
  · rw [step] at halts
    cases halts

end Core

theorem Memory.read_writeAll_of_unwritten (m : Memory) {ws : List (Address × Word)} {a : Address}
    (unwritten : ∀ v, (a, v) ∉ ws) : (m.writeAll ws).read a = m.read a := by
  have none_last : lastWritten? ws a = none := by
    rw [lastWritten?, List.lookup_eq_none_iff]
    rintro ⟨b, v⟩ among
    rw [bne_iff_ne]
    rintro rfl
    exact unwritten v (List.mem_reverse.mp among)
  rw [read_writeAll, none_last]
  rfl

namespace Machine

/-- Something that was asked of a machine, with what came of it. Each run may use its own device. -/
inductive Call : Type 1
  | poke (a : Address) (v : Word) (result : Except Trap Unit)
  | run {σ : Type} (D : Device σ) (io : σ) (result : Except Failure Unit) (left : σ)
  | runBuffered (input : List Word) (result : Except Failure (List Word))

namespace Call

def ending? : Call → Option (Except Failure Unit)
  | .poke _ _ _ => none
  | .run _ _ result _ => some result
  | .runBuffered _ result => some (result.map fun _ => ())

def Succeeds (c : Call) : Prop := c.ending? = some (.ok ())

/-- If the call was a run, it succeeded without taking or giving a value. -/
def Idle : Call → Prop
  | .poke _ _ _ => True
  | .run _ io result left => result = .ok () ∧ left = io
  | .runBuffered _ result => result = .ok []

def written? : Call → Option (Address × Word)
  | .poke a v (.ok _) => some (a, v)
  | _ => none

theorem written?_of_ending {c : Call} {r : Except Failure Unit} (ending : c.ending? = some r) :
    c.written? = none := by
  cases c with
  | poke a v result => cases ending
  | run D io result left => rfl
  | runBuffered input result => rfl

theorem idle_of_poke {c : Call} (poke : c.ending? = none) : c.Idle := by
  cases c with
  | poke a v result => trivial
  | run D io result left => cases poke
  | runBuffered input result => cases poke

end Call

/-- The machine `m` is asked for something and is `m'` afterwards. A poke that is refused changes
nothing, and a run that never ends is no call. -/
inductive Serves (m : Machine) : Call → Machine → Prop
  | poke {a : Address} {v : Word} {m' : Machine} (accepted : m.poke? a v = .ok m') :
      Serves m (.poke a v (.ok ())) m'
  | refused {a : Address} {v : Word} {t : Trap} (refused : m.poke? a v = .error t) :
      Serves m (.poke a v (.error t)) m
  | run {σ : Type} {D : Device σ} {fuel : Nat} {io : σ} {o : Outcome σ}
      (stopped : m.run D fuel io = some o) : Serves m (.run D io o.result o.device) o.machine
  | runBuffered {fuel : Nat} {input : List Word} {result : Except Failure (List Word)}
      {m' : Machine} (stopped : m.runBuffered fuel input = some (result, m')) :
      Serves m (.runBuffered input result) m'

inductive Lives : Machine → List Call → Machine → Prop
  | refl (m : Machine) : Lives m [] m
  | cons {m m₁ m' : Machine} {c : Call} {cs : List Call} (first : Serves m c m₁)
      (later : Lives m₁ cs m') : Lives m (c :: cs) m'

def patched (m : Machine) (ws : List (Address × Word)) : Machine :=
  { m with core := { m.core with memory := m.core.memory.writeAll ws } }

/-- The core stands on an instruction that fails in this way on some device. -/
def StuckOn (c : Core) (f : Failure) : Prop :=
  ∃ (σ : Type) (D : Device σ) (io left : σ), c.step D io = (.failed f, c, left)

/-- All that a call can do to a machine. -/
inductive Fares (m : Machine) (c : Call) : Machine → Prop
  | poked (poke : c.ending? = none) : Fares m c (m.patched c.written?.toList)
  | rests (succeeds : c.Succeeds) (halted : m.state = .halted) (idle : c.Idle) : Fares m c m
  | halts {m' : Machine} {i : Instruction} (succeeds : c.Succeeds) (running : m.state = .running)
      (halted : m'.state = .halted)
      (decoded : Instruction.decode (m'.core.memory.read m'.core.ip) m'.core.ip = .ok i)
      (opcode : i.opcode = .halt) : Fares m c m'
  | fails {m' : Machine} {f : Failure} (fails : c.ending? = some (.error f))
      (running : m.state = .running) (running' : m'.state = .running)
      (stuck : StuckOn m'.core f) : Fares m c m'

variable {σ : Type} {D : Device σ} {m m' : Machine} {io left : σ} {fuel : Nat} {c : Call}
  {cs : List Call} {a : Address} {v : Word} {f : Failure} {r : Except Failure Unit}

theorem patched_nil (m : Machine) : m.patched [] = m := rfl

theorem patched_patched (m : Machine) (ws ws' : List (Address × Word)) :
    (m.patched ws).patched ws' = m.patched (ws ++ ws') := by
  simp [patched, Memory.writeAll]

theorem eq_patched_of_poke (accepted : m.poke? a v = .ok m') : m' = m.patched [(a, v)] := by
  obtain ⟨memory, written, same⟩ := ok_of_bind accepted
  cases same
  rw [Memory.write?] at written
  split at written
  · cases written
  · cases written
    rfl

theorem fares_of_run (stopped : m.run D fuel io = some ⟨r, m', left⟩) (ending : c.ending? = some r)
    (idle : r = .ok () → left = io → c.Idle) : Fares m c m' := by
  rcases m with ⟨start, state⟩
  cases state with
  | halted =>
      rw [run_halted rfl] at stopped
      cases stopped
      exact .rests ending rfl (idle rfl rfl)
  | running =>
      obtain ⟨n, c', mid, -, -, stops⟩ := run_eq_some_iff.mp stopped
      cases stops with
      | halted step =>
          obtain ⟨i, decoded, opcode⟩ := Core.decode_of_halted step
          exact .halts ending rfl rfl decoded opcode
      | failed step => exact .fails ending rfl rfl ⟨_, _, _, _, step⟩

theorem fares_of_runBuffered {input : List Word} {result : Except Failure (List Word)}
    (stopped : m.runBuffered fuel input = some (result, m')) :
    Fares m (.runBuffered input result) m' := by
  obtain ⟨⟨ending, machine, b⟩, ran, same⟩ := Option.map_eq_some_iff.mp stopped
  cases same
  refine fares_of_run ran ?_ ?_
  · cases ending <;> rfl
  · rintro rfl rfl
    rfl

theorem Serves.fares (serves : Serves m c m') : Fares m c m' := by
  cases serves with
  | poke accepted =>
      rw [eq_patched_of_poke accepted]
      exact .poked rfl
  | refused refused => exact .poked rfl
  | run stopped => exact fares_of_run stopped rfl fun ok same => ⟨ok, same⟩
  | runBuffered stopped => exact fares_of_runBuffered stopped

theorem Fares.halted_iff (fares : Fares m c m') :
    m'.state = .halted ↔ m.state = .halted ∨ c.Succeeds := by
  cases fares with
  | poked poke => simp [patched, Call.Succeeds, poke]
  | rests succeeds halted idle => simp [halted]
  | halts succeeds running halted decoded opcode => simp [halted, succeeds]
  | fails fails running running' stuck => simp [running, running', Call.Succeeds, fails]

theorem Fares.eq_patched (fares : Fares m c m') (still : m.state = .halted ∨ c.ending? = none) :
    m' = m.patched c.written?.toList := by
  cases fares with
  | poked poke => rfl
  | rests succeeds halted idle => rw [Call.written?_of_ending succeeds, Option.toList, patched_nil]
  | halts succeeds running halted decoded opcode =>
      rcases still with rested | poke
      · cases rested.symm.trans running
      · cases poke.symm.trans succeeds
  | fails fails running running' stuck =>
      rcases still with rested | poke
      · cases rested.symm.trans running
      · cases poke.symm.trans fails

theorem Fares.idle (fares : Fares m c m') (halted : m.state = .halted) : c.Idle := by
  cases fares with
  | poked poke => exact Call.idle_of_poke poke
  | rests succeeds halted idle => exact idle
  | halts succeeds running halted' decoded opcode => cases halted.symm.trans running
  | fails fails running running' stuck => cases halted.symm.trans running

theorem Fares.decoded (fares : Fares m c m') (succeeds : c.Succeeds)
    (running : m.state = .running) :
    ∃ i, Instruction.decode (m'.core.memory.read m'.core.ip) m'.core.ip = .ok i ∧
      i.opcode = .halt := by
  cases fares with
  | poked poke => cases poke.symm.trans succeeds
  | rests succeeds halted idle => cases halted.symm.trans running
  | halts succeeds running halted decoded opcode => exact ⟨_, decoded, opcode⟩
  | fails fails running running' stuck => cases fails.symm.trans succeeds

theorem Fares.failed (fares : Fares m c m') (failed : c.ending? = some (.error f)) :
    m.state = .running ∧ m'.state = .running ∧ StuckOn m'.core f := by
  cases fares with
  | poked poke => cases poke.symm.trans failed
  | rests succeeds halted idle => cases succeeds.symm.trans failed
  | halts succeeds running halted decoded opcode => cases succeeds.symm.trans failed
  | fails fails running running' stuck =>
      cases fails.symm.trans failed
      exact ⟨running, running', stuck⟩

theorem StuckOn.ip_eq {c : Core} {g : Fault} (stuck : StuckOn c (.fault g)) : g.ip = c.ip := by
  obtain ⟨σ, D, io, left, step⟩ := stuck
  exact (Core.fails_of_step step).ip_eq

theorem Lives.split {front back : List Call} (lives : Lives m (front ++ back) m') :
    ∃ between, Lives m front between ∧ Lives between back m' := by
  induction front generalizing m with
  | nil => exact ⟨m, .refl m, lives⟩
  | cons c front ih =>
      cases lives with
      | cons first later =>
          obtain ⟨between, before, after⟩ := ih later
          exact ⟨between, .cons first before, after⟩

theorem Lives.halted_iff (lives : Lives m cs m') :
    m'.state = .halted ↔ m.state = .halted ∨ ∃ c ∈ cs, c.Succeeds := by
  induction lives with
  | refl m => simp
  | cons first later ih => simp [ih, first.fares.halted_iff, or_assoc]

theorem Lives.eq_patched (lives : Lives m cs m')
    (still : m.state = .halted ∨ ∀ c ∈ cs, c.ending? = none) :
    m' = m.patched (cs.filterMap Call.written?) := by
  induction lives with
  | refl m => rfl
  | @cons m m₁ m' c cs first later ih =>
      have changed := first.fares.eq_patched <|
        still.imp_right fun pokes => pokes c List.mem_cons_self
      subst changed
      have others : (m.patched c.written?.toList).state = .halted ∨
          ∀ d ∈ cs, d.ending? = none :=
        still.imp_right fun pokes d among => pokes d (List.mem_cons_of_mem c among)
      rw [ih others, patched_patched]
      cases written : c.written? <;> simp [written]

theorem Lives.idle (lives : Lives m cs m') (halted : m.state = .halted) : ∀ c ∈ cs, c.Idle := by
  induction lives with
  | refl m => simp
  | @cons m m₁ m' c cs first later ih =>
      intro d among
      rcases List.mem_cons.mp among with rfl | other
      · exact first.fares.idle halted
      · exact ih (first.fares.halted_iff.mpr (.inl halted)) d other

theorem runBuffered_halted (halted : m.state = .halted) (fuel : Nat) (input : List Word) :
    m.runBuffered fuel input = some (.ok [], m) := by
  rw [runBuffered, run_halted halted]
  rfl

theorem Lives.stands {front back : List Call} {g : Fault} (lives : Lives m (front ++ c :: back) m')
    (failed : c.ending? = some (.error (.fault g))) (pokes : ∀ d ∈ back, d.ending? = none) :
    m'.state = .running ∧ m'.core.ip = g.ip := by
  obtain ⟨before, -, onward⟩ := lives.split
  cases onward with
  | cons first later =>
      obtain ⟨-, running, stuck⟩ := first.fares.failed failed
      -- Pokes write memory only, so the machine still stands where the run has left it.
      rw [later.eq_patched (.inr pokes)]
      exact ⟨running, stuck.ip_eq.symm⟩

end Machine

open Machine in
/-- A machine that is poked and run in any order has halted exactly if some run has succeeded. The
first run to succeed leaves it on a halt instruction; runs that fail leave it running, on the
instruction that failed, where pokes do not move it. From the first success on it stays where it is
and every run comes back at once, with nothing taken or given; memory changes by pokes alone, even
if these overwrite the halt instruction. -/
theorem halts_once {program : List Word} {before : List Call} {m : Machine}
    (lived : Lives (ofProgram program) before m) :
    (m.state = .halted ↔ ∃ c ∈ before, c.Succeeds) ∧
    (∀ front c back f, before = front ++ c :: back → c.ending? = some (.error (.fault f)) →
      (∀ d ∈ back, d.ending? = none) → m.state = .running ∧ m.core.ip = f.ip) ∧
    (∀ c m', Serves m c m' →
      (c.Succeeds → m'.state = .halted) ∧
      (c.Succeeds → m.state = .running → ∃ i,
        Instruction.decode (m'.core.memory.read m'.core.ip) m'.core.ip = .ok i ∧
          i.opcode = .halt) ∧
      ∀ f, c.ending? = some (.error f) →
        m.state = .running ∧ m'.state = .running ∧ StuckOn m'.core f) ∧
    (m.state = .halted → ∀ later m', Lives m later m' →
      m'.state = .halted ∧ m'.core.ip = m.core.ip ∧ m'.core.base = m.core.base ∧
      (∀ c ∈ later, c.Idle) ∧
      (∀ {σ : Type} (D : Device σ) (fuel : Nat) (io : σ),
        m'.run D fuel io = some ⟨.ok (), m', io⟩) ∧
      (∀ fuel input, m'.runBuffered fuel input = some (.ok [], m')) ∧
      m'.core.memory = m.core.memory.writeAll (later.filterMap Call.written?) ∧
      ∀ a, (∀ v, (a, v) ∉ later.filterMap Call.written?) →
        m'.core.memory.read a = m.core.memory.read a) := by
  refine ⟨?halted, ?stands, ?next, ?rests⟩
  case halted =>
    have fresh : (ofProgram program).state ≠ .halted := by simp [ofProgram]
    rw [lived.halted_iff, or_iff_right fresh]
  case stands =>
    rintro front c back f rfl failed pokes
    exact lived.stands failed pokes
  case next =>
    intro c m' serves
    refine ⟨?_, serves.fares.decoded, fun f => serves.fares.failed⟩
    intro succeeds
    exact serves.fares.halted_iff.mpr (.inr succeeds)
  case rests =>
    intro halted later m' lives
    have same := lives.eq_patched (.inl halted)
    have halted' : m'.state = .halted := lives.halted_iff.mpr (.inl halted)
    refine ⟨halted', ?_, ?_, lives.idle halted, fun D fuel io => run_halted halted' fuel io,
      runBuffered_halted halted', ?_, ?_⟩
    · rw [same, patched]
    · rw [same, patched]
    · rw [same, patched]
    · intro a unwritten
      rw [same]
      exact Memory.read_writeAll_of_unwritten _ unwritten

def echoOnce : Machine := .ofProgram [3, 0, 4, 0, 99]

/-- The same when a cell behind the program has been written and a seven has been given back. -/
def echoedSeven : Machine :=
  { core := { ip := 4, memory := echoOnce.core.memory.writeAll [(9, 5), (0, 7)] }
    state := .halted }

def starved : List Machine.Call :=
  [.run Buffer.device {} (.error (.fault (.inputClosed 0))) {}, .poke 9 5 (.ok ())]

def overwritten : List Machine.Call :=
  [.poke 4 1 (.ok ()), .run Buffer.device { input := [8] } (.ok ()) { input := [8] }]

open Machine in
theorem halts_once_echoOnce :
    ∃ m m', Lives echoOnce starved m ∧ m.state = .running ∧ m.core.ip = 0 ∧
      Lives echoOnce (starved ++ [.runBuffered [7] (.ok [7])]) echoedSeven ∧
      echoedSeven.state = .halted ∧ Lives echoedSeven overwritten m' ∧
      m'.state = .halted ∧ m'.core.ip = 4 ∧ m'.core.memory.read 4 = 1 ∧
      m'.core.memory.read 0 = 7 ∧ ∀ c ∈ overwritten, c.Idle := by
  have dry : Serves echoOnce (.run Buffer.device {} (.error (.fault (.inputClosed 0))) {})
      echoOnce := @Serves.run _ _ _ 1 _ ⟨_, _, _⟩ rfl
  have poked : Serves echoOnce (.poke 9 5 (.ok ())) (echoOnce.patched [(9, 5)]) := .poke rfl
  have echoes : Serves (echoOnce.patched [(9, 5)]) (.runBuffered [7] (.ok [7])) echoedSeven :=
    @Serves.runBuffered _ 3 _ _ _ rfl
  have changed : Serves echoedSeven (.poke 4 1 (.ok ())) (echoedSeven.patched [(4, 1)]) :=
    .poke rfl
  have idle : Serves (echoedSeven.patched [(4, 1)])
      (.run Buffer.device { input := [8] } (.ok ()) { input := [8] })
      (echoedSeven.patched [(4, 1)]) := @Serves.run _ _ _ 0 _ ⟨_, _, _⟩ rfl
  have starving : Lives echoOnce starved _ := .cons dry <| .cons poked <| .refl _
  have echoing : Lives echoOnce (starved ++ [.runBuffered [7] (.ok [7])]) _ :=
    .cons dry <| .cons poked <| .cons echoes <| .refl _
  have resting : Lives echoedSeven overwritten _ := .cons changed <| .cons idle <| .refl _
  obtain ⟨-, stands, -⟩ := halts_once starving
  obtain ⟨halted, -, -, afterwards⟩ := halts_once echoing
  have rested : echoedSeven.state = .halted :=
    halted.mpr ⟨.runBuffered [7] (.ok [7]), by simp, rfl⟩
  obtain ⟨still, ip, -, idles, -, -, memory, unwritten⟩ := afterwards rested _ _ resting
  obtain ⟨running, here⟩ := stands [] _ _ _ rfl rfl (by simp [Call.ending?])
  refine ⟨_, _, starving, running, here, echoing, rested, resting, still, ip, ?_, ?_, idles⟩
  · rw [memory]
    rfl
  · rw [unwritten 0 (by simp [overwritten, Call.written?])]
    rfl

end Shipboard
