import Szarp.Boruta.ModbusCycles

/-!
# Blocks of a register set

`find_continuous_reg_block` from the beginning of a set to its end, as `next_query` calls it in the
course of a cycle.
-/

namespace Szarp
namespace Boruta
namespace ModbusClient

/-- `find_continuous_reg_block` is called until the iterator is at the end; `none` when that takes
more rounds. -/
def regBlocks : ℕ → List Reg → Option (List (Reg × ℕ))
  | 0, _ => none
  | rounds + 1, regs =>
    match findContinuousRegBlock regs with
    | none => some []
    | some (r, n) => (regBlocks rounds (regs.drop n)).map ((r, n) :: ·)

/-! ## Lengths -/

theorem blockLength_le (registerType : RegisterType) (current regsCount : ℕ) (rest : List Reg)
    (h : regsCount ≤ 125) : blockLength registerType current regsCount rest ≤ 125 := by
  induction rest generalizing current regsCount with
  | nil => exact h
  | cons r rest ih =>
    rw [blockLength]
    split
    · rename_i hnext
      exact ih r.2 (regsCount + 1) hnext.1
    · exact h

theorem findContinuousRegBlock_le {regs : List Reg} {r : Reg} {n : ℕ}
    (h : findContinuousRegBlock regs = some (r, n)) : n ≤ 125 := by
  cases regs with
  | nil => contradiction
  | cons s rest =>
    obtain ⟨-, rfl⟩ := Prod.mk.inj (Option.some.inj h)
    exact blockLength_le s.1 s.2 1 rest (by omega)

/-! ## Partition -/

/-- The blocks of a set, one after the other, are the set. -/
theorem regBlocks_flatMap (regs : List Reg) (hsorted : regs.Pairwise Before) :
    ∃ blocks, (∀ rounds, regs.length < rounds → regBlocks rounds regs = some blocks) ∧
      (∀ b ∈ blocks, 1 ≤ b.2 ∧ b.2 ≤ 125) ∧ blocks.flatMap (fun b => block b.1 b.2) = regs := by
  induction hlen : regs.length using Nat.strong_induction_on generalizing regs with
  | _ len ih =>
    subst hlen
    cases hblock : findContinuousRegBlock regs with
    | none =>
      refine ⟨[], ?_, fun b hb => absurd hb List.not_mem_nil, (findContinuousRegBlock_none hblock).symm⟩
      intro rounds hrounds
      cases rounds with
      | zero => omega
      | succ rounds => rw [regBlocks, hblock]
    | some b =>
      obtain ⟨r, n⟩ := b
      obtain ⟨htake, hpos⟩ := findContinuousRegBlock_eq hsorted hblock
      have hle : n ≤ regs.length := by
        have hlength := congrArg List.length htake
        rw [List.length_take, block, List.length_map, List.length_range] at hlength
        omega
      have hdrop : (regs.drop n).length = regs.length - n := List.length_drop
      obtain ⟨blocks, hblocks, hcounts, hflat⟩ :=
        ih (regs.drop n).length (by omega) (regs.drop n) hsorted.drop rfl
      refine ⟨(r, n) :: blocks, ?_, ?_, ?_⟩
      · intro rounds hrounds
        cases rounds with
        | zero => omega
        | succ rounds =>
          rw [regBlocks, hblock]
          simp only
          rw [hblocks rounds (by omega), Option.map_some]
      · intro b hb
        obtain rfl | hb := List.mem_cons.mp hb
        · exact ⟨hpos, findContinuousRegBlock_le hblock⟩
        · exact hcounts b hb
      · rw [List.flatMap_cons, hflat, ← htake, List.take_append_drop]

/-- From the beginning to the end of a set of registers there are finitely many blocks, each of 1 to
125 consecutive registers of one type; they are disjoint and cover the set. -/
theorem regBlocks_partition (s : RSet) :
    ∃ blocks, (∀ rounds, s.elements.length < rounds → regBlocks rounds s.elements = some blocks) ∧
      (∀ b ∈ blocks, 1 ≤ b.2 ∧ b.2 ≤ 125) ∧
      blocks.Pairwise (fun b c => List.Disjoint (block b.1 b.2) (block c.1 c.2)) ∧
      ∀ r, r ∈ s.elements ↔ ∃ b ∈ blocks, r ∈ block b.1 b.2 := by
  obtain ⟨blocks, hblocks, hcounts, hflat⟩ := regBlocks_flatMap s.elements s.sorted
  refine ⟨blocks, hblocks, hcounts, ?_, ?_⟩
  · have hnodup := Tracked.nodup_elements s
    rw [← hflat] at hnodup
    exact (List.nodup_flatMap.mp hnodup).2
  · intro r
    rw [← hflat, List.mem_flatMap]

end ModbusClient
end Boruta
end Szarp
