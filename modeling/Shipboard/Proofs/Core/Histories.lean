import Mathlib.Data.List.Induction
import Shipboard.Proofs.Core.Growth

/-!
Memory after any history of writes. What is read depends on the last write to the address alone, so
writes to different addresses may change places. The length does depend on their order, but it only
grows, to no more than twice the largest address, and by a factor of at least two.
-/

namespace Shipboard

namespace Memory

variable {m m' : Memory} {a b : Address} {v : Word} {ws ws' front back : List (Address × Word)}

/-- Writes in order, until one is refused. -/
def writeAll? (m : Memory) (ws : List (Address × Word)) : Except Trap Memory :=
  ws.foldlM (fun m w => m.write? w.1 w.2) m

def writeAll (m : Memory) (ws : List (Address × Word)) : Memory :=
  ws.foldl (fun m w => m.write w.1 w.2) m

def lastWritten? (ws : List (Address × Word)) (a : Address) : Option Word := ws.reverse.lookup a

def largest (ws : List (Address × Word)) : Nat := (ws.map fun w => w.1.toNat).foldr max 0

/-- Every write is at an address that memory can grow to. -/
def Low (ws : List (Address × Word)) : Prop := ∀ w ∈ ws, w.1.toNat < 2 ^ 59

theorem writeAll_snoc (m : Memory) (ws : List (Address × Word)) (a : Address) (v : Word) :
    m.writeAll (ws ++ [(a, v)]) = (m.writeAll ws).write a v := by
  simp [writeAll]

theorem write?_of_low (m : Memory) (low : a.toNat < 2 ^ 59) (v : Word) :
    m.write? a v = .ok (m.write a v) := by
  simp [write?, refusal_of_low m low]

theorem writeAll?_of_low (m : Memory) (low : Low ws) : m.writeAll? ws = .ok (m.writeAll ws) := by
  induction ws generalizing m with
  | nil => rfl
  | cons w ws ih =>
      have first := write?_of_low m (low w List.mem_cons_self) w.2
      have rest := ih (m.write w.1 w.2) fun w' among => low w' (List.mem_cons_of_mem w among)
      simp only [writeAll?, List.foldlM_cons, first]
      exact rest

theorem read_ofList (program : List Word) (a : Address) :
    (ofList program).read a = program[a.toNat]?.getD 0 := by
  simp [ofList, read]

theorem read_write (m : Memory) (a b : Address) (v : Word) :
    (m.write a v).read b = if b = a then v else m.read b := by
  by_cases same : b = a
  · rw [same, read_write_self, if_pos rfl]
  · rw [read_write_of_ne m v (Ne.symm same), if_neg same]

theorem lastWritten?_snoc (ws : List (Address × Word)) (a b : Address) (v : Word) :
    lastWritten? (ws ++ [(a, v)]) b = if b = a then some v else lastWritten? ws b := by
  by_cases same : b = a
  · simp [lastWritten?, same]
  · have other : (b == a) = false := beq_false_of_ne same
    simp [lastWritten?, List.lookup_cons, same, other]

theorem read_writeAll (m : Memory) (ws : List (Address × Word)) (b : Address) :
    (m.writeAll ws).read b = (lastWritten? ws b).getD (m.read b) := by
  induction ws using List.reverseRecOn with
  | nil => rfl
  | append_singleton ws w ih =>
      obtain ⟨a, v⟩ := w
      rw [writeAll_snoc, read_write, lastWritten?_snoc, ih]
      split <;> rfl

theorem lastWritten?_eq_some_iff (once : (ws.map Prod.fst).Nodup) :
    lastWritten? ws a = some v ↔ (a, v) ∈ ws := by
  induction ws using List.reverseRecOn with
  | nil => simp [lastWritten?]
  | append_singleton ws w ih =>
      obtain ⟨b, u⟩ := w
      rw [List.map_append, List.nodup_append] at once
      obtain ⟨before, -, apart⟩ := once
      rw [lastWritten?_snoc, List.mem_append, List.mem_singleton, Prod.mk.injEq]
      split
      · rename_i same
        subst same
        have unwritten : (a, v) ∉ ws := by
          intro among
          exact apart a (List.mem_map_of_mem among) a (by simp) rfl
        simp [unwritten, eq_comm]
      · rename_i other
        simp [ih before, other]

theorem lastWritten?_perm (perm : ws.Perm ws') (once : (ws.map Prod.fst).Nodup) (a : Address) :
    lastWritten? ws a = lastWritten? ws' a := by
  have once' := (perm.map Prod.fst).nodup once
  ext v
  rw [lastWritten?_eq_some_iff once, lastWritten?_eq_some_iff once', perm.mem_iff]

theorem read_writeAll_perm (m : Memory) (perm : ws.Perm ws') (once : (ws.map Prod.fst).Nodup)
    (a : Address) : (m.writeAll ws').read a = (m.writeAll ws).read a := by
  rw [read_writeAll, read_writeAll, lastWritten?_perm perm once]

theorem size_le_write (m : Memory) (a : Address) (v : Word) : m.size ≤ (m.write a v).size := by
  have grown := lt_grownSize a
  rw [size_write]
  split <;> omega

theorem lt_size_write (m : Memory) (a : Address) (v : Word) : a.toNat < (m.write a v).size := by
  have grown := lt_grownSize a
  rw [size_write]
  split <;> omega

theorem size_write_of_lt (inside : a.toNat < m.size) (v : Word) :
    (m.write a v).size = m.size := by
  rw [size_write, if_pos inside]

theorem two_mul_size_le (low : a.toNat < 2 ^ 59) (grows : m.size < (m.write a v).size) :
    2 * m.size ≤ (m.write a v).size := by
  rw [size_write] at grows ⊢
  split at grows
  · omega
  · rename_i outside
    rw [if_neg outside, grownSize, UInt64.size]
    omega

theorem size_write_le (m : Memory) (a : Address) (v : Word) :
    (m.write a v).size ≤ max m.size (max 1 (2 * a.toNat)) := by
  rw [size_write, grownSize]
  split <;> omega

theorem size_le_writeAll (m : Memory) (ws : List (Address × Word)) :
    m.size ≤ (m.writeAll ws).size := by
  induction ws generalizing m with
  | nil => exact Nat.le_refl _
  | cons w ws ih => exact Nat.le_trans (size_le_write m w.1 w.2) (ih _)

theorem lt_size_writeAll (m : Memory) (among : (a, v) ∈ ws) :
    a.toNat < (m.writeAll ws).size := by
  obtain ⟨front, back, rfl⟩ := List.append_of_mem among
  have stored := lt_size_write (m.writeAll front) a v
  have later := size_le_writeAll ((m.writeAll front).write a v) back
  simp only [writeAll, List.foldl_append, List.foldl_cons] at stored later ⊢
  omega

theorem size_writeAll_le (m : Memory) (ws : List (Address × Word)) :
    (m.writeAll ws).size ≤ max m.size (max 1 (2 * largest ws)) := by
  induction ws generalizing m with
  | nil => exact Nat.le_max_left _ _
  | cons w ws ih =>
      have first := size_write_le m w.1 w.2
      have rest := ih (m.write w.1 w.2)
      simp only [writeAll, largest, List.foldl_cons, List.map_cons, List.foldr_cons] at rest ⊢
      omega

/-- The order of writes can be seen in the length. -/
theorem exists_perm_size_ne :
    ∃ ws ws' m m', ws.Perm ws' ∧ (ws.map Prod.fst).Nodup ∧
      (ofList []).writeAll? ws = .ok m ∧ (ofList []).writeAll? ws' = .ok m' ∧ m.size ≠ m'.size :=
  ⟨[(2, 7), (3, 8)], [(3, 8), (2, 7)], _, _, .swap _ _ _, by decide, rfl, rfl, by decide⟩

/-- After any history of writes that memory can grow to, an address reads as the last word written
there, else as it did in the program, else as zero. Writes to different addresses may come in any
order, except that the length may differ. The length exceeds every written address and is at most
the length of the program, one, or twice the largest written address. No write makes memory shorter,
one inside it leaves its length alone, and one that makes it longer at least doubles it. -/
theorem history_determines_memory (program : List Word) (ws : List (Address × Word))
    (low : Low ws) :
    ∃ m, (ofList program).writeAll? ws = .ok m ∧
      (∀ a, m.read a = ((lastWritten? ws a).or program[a.toNat]?).getD 0) ∧
      (∀ ws', ws.Perm ws' → (ws.map Prod.fst).Nodup →
        ∃ m', (ofList program).writeAll? ws' = .ok m' ∧ ∀ a, m'.read a = m.read a) ∧
      (∃ ws₁ ws₂ m₁ m₂, ws₁.Perm ws₂ ∧ (ws₁.map Prod.fst).Nodup ∧
        (ofList []).writeAll? ws₁ = .ok m₁ ∧ (ofList []).writeAll? ws₂ = .ok m₂ ∧
        m₁.size ≠ m₂.size) ∧
      program.length ≤ m.size ∧ (∀ w ∈ ws, w.1.toNat < m.size) ∧
      m.size ≤ max program.length (max 1 (2 * largest ws)) ∧
      ∀ front a v back, ws = front ++ (a, v) :: back →
        ∃ before after, (ofList program).writeAll? front = .ok before ∧
          before.write? a v = .ok after ∧ after.writeAll? back = .ok m ∧
          before.size ≤ after.size ∧ after.size ≤ m.size ∧ a.toNat < after.size ∧
          (a.toNat < before.size → after.size = before.size) ∧
          (before.size < after.size → 2 * before.size ≤ after.size) := by
  have length : (ofList program).size = program.length := by simp [ofList, size]
  refine ⟨_, writeAll?_of_low _ low, ?reads, ?order, exists_perm_size_ne, ?grown, ?above, ?below,
    ?steps⟩
  case reads =>
    intro a
    rw [read_writeAll, read_ofList]
    cases lastWritten? ws a <;> rfl
  case order =>
    intro ws' perm once
    have low' : Low ws' := fun w among => low w (perm.mem_iff.mpr among)
    exact ⟨_, writeAll?_of_low _ low', read_writeAll_perm _ perm once⟩
  case grown =>
    rw [← length]
    exact size_le_writeAll _ ws
  case above =>
    intro w among
    exact lt_size_writeAll _ among
  case below =>
    rw [← length]
    exact size_writeAll_le _ ws
  case steps =>
    intro front a v back split
    subst split
    have first : Low front := fun w among => low w (List.mem_append_left _ among)
    have here : a.toNat < 2 ^ 59 := low (a, v) (by simp)
    have later : Low back := fun w among => low w (by simp [among])
    refine ⟨_, _, writeAll?_of_low _ first, write?_of_low _ here v, ?_, size_le_write _ a v, ?_,
      lt_size_write _ a v, fun inside => size_write_of_lt inside v, two_mul_size_le here⟩
    · rw [writeAll?_of_low _ later]
      simp [writeAll]
    · have further := size_le_writeAll (((ofList program).writeAll front).write a v) back
      simpa [writeAll] using further

def farAndNear : List (Address × Word) := [(40, 5), (1, 2), (40, -6)]

theorem history_determines_memory_farAndNear :
    Low farAndNear ∧ ∃ m, (ofList [7, -8, 9]).writeAll? farAndNear = .ok m ∧
      m.read 40 = -6 ∧ m.read 1 = 2 ∧ m.read 2 = 9 ∧ m.read 50 = 0 ∧ 40 < m.size ∧ m.size ≤ 80 := by
  have low : Low farAndNear := by
    simp [Low, farAndNear]
  obtain ⟨m, written, reads, -, -, -, above, below, -⟩ :=
    history_determines_memory [7, -8, 9] farAndNear low
  refine ⟨low, m, written, ?_, ?_, ?_, ?_, above (40, 5) (by decide), ?_⟩
  · rw [reads]
    decide
  · rw [reads]
    decide
  · rw [reads]
    decide
  · rw [reads]
    decide
  · exact below

end Memory

end Shipboard
