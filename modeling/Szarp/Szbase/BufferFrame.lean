import Szarp.Szbase.BufferRuns

/-!
# What the links of the cache leave alone

Most of a cache operation moves links between locators.  The hash maps, the objects and the lock
count are changed in few places, and this file says which.
-/

namespace Szarp
namespace Szbase
namespace Buffer

variable {P : Type} {s s' : Buffer P}

/-- The buffers differ in their links at most. -/
structure Relinked (s s' : Buffer P) : Prop where
  data : s'.datastorage = s.datastorage
  probe : s'.probestorage = s.probestorage
  blocks : s'.blocks = s.blocks
  locators : s'.locators = s.locators
  blocksC : s'.blocksC = s.blocksC
  maxBlocks : s'.maxBlocks = s.maxBlocks
  locked : s'.locked = s.locked

theorem Relinked.refl (s : Buffer P) : Relinked s s := ⟨rfl, rfl, rfl, rfl, rfl, rfl, rfl⟩

theorem Relinked.trans {s₁ s₂ s₃ : Buffer P} (h : Relinked s₁ s₂) (h' : Relinked s₂ s₃) :
    Relinked s₁ s₃ :=
  ⟨h'.data.trans h.data, h'.probe.trans h.probe, h'.blocks.trans h.blocks,
    h'.locators.trans h.locators, h'.blocksC.trans h.blocksC, h'.maxBlocks.trans h.maxBlocks,
    h'.locked.trans h.locked⟩

theorem Relinked.storage (h : Relinked s s') (type : BlockType) :
    s'.storage type = s.storage type := by
  cases type
  · exact h.data
  · exact h.probe

theorem Relinked.of_ends {newest oldest : Option ℕ}
    (h : Relinked { s with newestBlock := newest, oldestBlock := oldest } s') : Relinked s s' :=
  ⟨h.data, h.probe, h.blocks, h.locators, h.blocksC, h.maxBlocks, h.locked⟩

section fields

variable {l : ℕ} {v : Option ℕ}

theorem relinked_setNewer (h : s.setNewer l v = some s') : Relinked s s' := by
  rw [setNewer] at h
  split at h
  · exact absurd h (by simp)
  · cases h
    exact ⟨rfl, rfl, rfl, rfl, rfl, rfl, rfl⟩

theorem relinked_setOlder (h : s.setOlder l v = some s') : Relinked s s' := by
  rw [setOlder] at h
  split at h
  · exact absurd h (by simp)
  · cases h
    exact ⟨rfl, rfl, rfl, rfl, rfl, rfl, rfl⟩

theorem relinked_setNextSameParam (h : s.setNextSameParam l v = some s') : Relinked s s' := by
  rw [setNextSameParam] at h
  split at h
  · exact absurd h (by simp)
  · cases h
    exact ⟨rfl, rfl, rfl, rfl, rfl, rfl, rfl⟩

theorem relinked_setPrevSameParam (h : s.setPrevSameParam l v = some s') : Relinked s s' := by
  rw [setPrevSameParam] at h
  split at h
  · exact absurd h (by simp)
  · cases h
    exact ⟨rfl, rfl, rfl, rfl, rfl, rfl, rfl⟩

theorem relinked_setPrevSameParamOf {p : Option ℕ} (h : s.setPrevSameParamOf p v = some s') :
    Relinked s s' := by
  cases p with
  | none =>
    cases h
    exact Relinked.refl s
  | some p => exact relinked_setPrevSameParam h

end fields

theorem relinked_unlinkUsage {l : ℕ} (h : s.unlinkUsage l = some s') : Relinked s s' := by
  rw [unlinkUsage] at h
  split at h
  · split at h
    · cases h
      exact ⟨rfl, rfl, rfl, rfl, rfl, rfl, rfl⟩
    · exact absurd h (by simp)
  · split at h
    · split at h
      · exact (relinked_setNewer h).of_ends
      · exact absurd h (by simp)
    · split at h
      · split at h
        · exact (relinked_setOlder h).of_ends
        · exact absurd h (by simp)
      · split at h
        · rw [Option.bind_eq_bind, Option.bind_eq_some_iff] at h
          obtain ⟨s₁, hs₁, h⟩ := h
          exact (relinked_setOlder hs₁).trans (relinked_setNewer h)
        · exact absurd h (by simp)

theorem relinked_linkUsage {l : ℕ} (h : s.linkUsage l = some s') : Relinked s s' := by
  rw [linkUsage] at h
  split at h
  · cases h
    exact ⟨rfl, rfl, rfl, rfl, rfl, rfl, rfl⟩
  · simp only [Option.bind_eq_bind, Option.bind_eq_some_iff] at h
    obtain ⟨s₁, hs₁, s₂, hs₂, h⟩ := h
    cases h
    exact ((relinked_setOlder hs₁).trans (relinked_setNewer hs₂)).trans
      ⟨rfl, rfl, rfl, rfl, rfl, rfl, rfl⟩

/-- The end of `BlockLocator::Used`, where the locator becomes the newest. -/
theorem relinked_toFront {s₁ : Buffer P} {l : ℕ} (h₁ : Relinked s s₁)
    (h : (do
      let s ← s₁.setNewer l none
      let s ← s.setOlder l s.newestBlock
      let o ← s.newestBlock
      let s ← s.setNewer o (some l)
      some { s with newestBlock := some l }) = some s') : Relinked s s' := by
  simp only [Option.bind_eq_bind, Option.bind_eq_some_iff] at h
  obtain ⟨s₂, hs₂, s₃, hs₃, o, -, s₄, hs₄, h⟩ := h
  cases h
  have h₄ := ((h₁.trans (relinked_setNewer hs₂)).trans (relinked_setOlder hs₃)).trans
    (relinked_setNewer hs₄)
  exact ⟨h₄.data, h₄.probe, h₄.blocks, h₄.locators, h₄.blocksC, h₄.maxBlocks, h₄.locked⟩

theorem relinked_used {l : ℕ} (h : s.used l = some s') : Relinked s s' := by
  rw [used] at h
  by_cases hnewest : some l = s.newestBlock
  · rw [if_pos hnewest] at h
    split at h
    · cases h
      exact Relinked.refl s
    · exact absurd h (by simp)
  · rw [if_neg hnewest] at h
    by_cases holdest : some l = s.oldestBlock
    · rw [if_pos holdest] at h
      cases ho : s.older l <;> cases hn : s.newer l <;> rw [ho, hn] at h
      case none.some n =>
        simp only [Option.bind_eq_bind] at h
        rw [Option.bind_eq_some_iff] at h
        obtain ⟨s₁, hs₁, h⟩ := h
        exact relinked_toFront (relinked_setOlder hs₁).of_ends h
      all_goals exact absurd h (by simp)
    · rw [if_neg holdest] at h
      cases ho : s.older l <;> cases hn : s.newer l <;> rw [ho, hn] at h
      case some.some o n =>
        simp only [Option.bind_eq_bind] at h
        rw [Option.bind_eq_some_iff] at h
        obtain ⟨s₁, hs₁, h⟩ := h
        rw [Option.bind_eq_some_iff] at h
        obtain ⟨s₂, hs₂, h⟩ := h
        exact relinked_toFront ((relinked_setOlder hs₁).trans (relinked_setNewer hs₂)) h
      all_goals exact absurd h (by simp)

/-- A block that is used exists. -/
theorem relinked_markAsUsed {b : ℕ} (h : s.markAsUsed b = some s') :
    Relinked s s' ∧ s.blocks b ≠ none := by
  simp only [markAsUsed, Option.bind_eq_bind, Option.bind_eq_some_iff] at h
  obtain ⟨block, hblock, l, -, h⟩ := h
  refine ⟨relinked_used h, ?_⟩
  rw [hblock]
  exact Option.some_ne_none block

variable [DecidableEq P]

theorem relinked_setParamindex (s : Buffer P) (p : P) (v : Option ℕ) :
    Relinked s (s.setParamindex p v) :=
  ⟨rfl, rfl, rfl, rfl, rfl, rfl, rfl⟩

theorem relinked_unlinkParam {l : ℕ} {p : P} (h : s.unlinkParam l p = some s') :
    Relinked s s' := by
  rw [unlinkParam] at h
  split at h
  · rw [Option.bind_eq_bind, Option.bind_eq_some_iff] at h
    obtain ⟨s₁, hs₁, h⟩ := h
    exact (relinked_setNextSameParam hs₁).trans (relinked_setPrevSameParamOf h)
  · exact (relinked_setParamindex s p _).trans (relinked_setPrevSameParamOf h)

theorem relinked_linkParam {l : ℕ} {p : P} (h : s.linkParam l p = some s') : Relinked s s' := by
  rw [linkParam] at h
  split at h
  · cases h
    exact relinked_setParamindex s p _
  · simp only [Option.bind_eq_bind, Option.bind_eq_some_iff] at h
    obtain ⟨s₁, hs₁, s₂, hs₂, h⟩ := h
    cases h
    exact ((relinked_setNextSameParam hs₁).trans (relinked_setPrevSameParam hs₂)).trans
      (relinked_setParamindex s₂ p _)

/-! ## Adding and deleting -/

theorem evict_room (n : ℕ) (h : s.blocksC ≤ s.maxBlocks) : evict n s = some s := by
  cases n <;> rw [evict, if_neg (by omega)]

/-- Without an eviction a new locator is an object more, and links. -/
theorem newLocator_frame {l b : ℕ} (h : s.newLocator l b = some s')
    (hroom : s.locked ≠ 0 ∨ s.blocksC + 1 ≤ s.maxBlocks) :
    Relinked { s with
      locators := Function.update s.locators l (some b), blocksC := s.blocksC + 1 } s' := by
  simp only [newLocator, Option.bind_eq_bind, Option.bind_eq_some_iff] at h
  obtain ⟨block, -, s₁, hs₁, s₂, hs₂, h⟩ := h
  have h₁ := relinked_linkUsage hs₁
  have h₂ := h₁.trans (relinked_linkParam hs₂)
  have hmax : s₂.maxBlocks = s.maxBlocks := h₂.maxBlocks
  have hcount : s₂.blocksC = s.blocksC := h₂.blocksC
  have hlocked : s₂.locked = s.locked := h₂.locked
  have hs' : s' = { s₂ with blocksC := s₂.blocksC + 1 } := by
    split at h
    · rename_i hzero
      have hle : s.blocksC + 1 ≤ s.maxBlocks := hroom.resolve_left fun hne => hne (by
        rw [← hlocked]
        exact hzero)
      rw [evictAll, evict_room _ (by dsimp only; omega)] at h
      exact (Option.some.inj h).symm
    · exact (Option.some.inj h).symm
  rw [hs']
  exact ⟨h₂.data, h₂.probe, h₂.blocks, h₂.locators, by rw [hcount], hmax, hlocked⟩

theorem deleteLocator_frame {l : ℕ} (h : s.deleteLocator l = some s') :
    s'.datastorage = s.datastorage ∧ s'.probestorage = s.probestorage ∧ s'.blocks = s.blocks ∧
      s'.locked = s.locked := by
  simp only [deleteLocator, Option.bind_eq_bind, Option.bind_eq_some_iff] at h
  obtain ⟨b, -, block, -, s₁, hs₁, s₂, hs₂, h⟩ := h
  cases h
  have hlink := (relinked_unlinkParam hs₁).trans (relinked_unlinkUsage hs₂)
  exact ⟨hlink.data, hlink.probe, hlink.blocks, hlink.locked⟩

theorem destroyBlock_frame {b : ℕ} (h : s.destroyBlock b = some s') :
    s'.datastorage = s.datastorage ∧ s'.probestorage = s.probestorage ∧
      s'.blocks = Function.update s.blocks b none ∧ s'.locked = s.locked := by
  simp only [destroyBlock, Option.bind_eq_bind, Option.bind_eq_some_iff] at h
  obtain ⟨block, -, h⟩ := h
  cases hlocator : block.locator with
  | none =>
    rw [hlocator] at h
    cases h
    exact ⟨rfl, rfl, rfl, rfl⟩
  | some l =>
    rw [hlocator] at h
    simp only [Option.bind_eq_some_iff] at h
    obtain ⟨s₁, hs₁, h⟩ := h
    cases h
    obtain ⟨hdata, hprobe, hblocks, hlocked⟩ := deleteLocator_frame hs₁
    exact ⟨hdata, hprobe, by rw [hblocks], hlocked⟩

end Buffer
end Szbase
end Szarp
