import Mathlib.Logic.Relation
import Szarp.Szbase.BufferFrame
import Szarp.Szbase.ExecutionEngine

/-!
# The blocks of a running evaluation

`LuaExec::ExecutionEngine` keeps pointers to the blocks that a script has read, of any number of
buffers, while more blocks are loaded.  Its constructor locks one buffer.
-/

namespace Szarp
namespace Szbase

variable {P : Type}

/-- The key that `szb_get_block` looks for. -/
def blockKey (bt : BlockType) (param : P) (time : ℤ) : BufferKey P :=
  match bt with
  | .min10 => (param, probe2time 0 (szbTime2my time).1 (szbTime2my time).2)
  | .sec10 => (param, time)

variable [DecidableEq P]

namespace Buffer

def findBlock (s : Buffer P) (bt : BlockType) (param : P) (time : ℤ) : Option (Buffer P) :=
  match bt with
  | .min10 => s.findDataBlock param (szbTime2my time).1 (szbTime2my time).2
  | .sec10 => s.findProbeBlock param time

/-- The pointer that a search for the key finds. -/
def lookupBlock (s : Buffer P) (bt : BlockType) (k : BufferKey P) : Option ℕ :=
  ((s.storage bt).find k).1

/-- The buffer holds the block `b` under a key; the object has the type and the key `r`. -/
def HeldAt (s : Buffer P) (bt : BlockType) (k : BufferKey P) (b : ℕ)
    (r : BlockType × BufferKey P) : Prop :=
  s.lookupBlock bt k = some b ∧ ∃ block, s.blocks b = some block ∧ (block.type, block.key) = r

/-! ### What keeps a block held -/

variable {s s' : Buffer P} {bt : BlockType} {k : BufferKey P} {b : ℕ}

theorem lookup_filter_key {m : Storage P} {k k' : BufferKey P} (h : k ≠ k') :
    (m.filter fun e => e.1 ≠ k').lookup k = m.lookup k := by
  induction m with
  | nil => rfl
  | cons e m ih =>
    obtain ⟨x, v⟩ := e
    by_cases hx : x = k'
    · have hkx : (k == x) = false := by simp [hx, h]
      rw [List.filter_cons_of_neg (by simp [hx]), ih, List.lookup_cons, hkx]
    · rw [List.filter_cons_of_pos (by simp [hx]), List.lookup_cons, List.lookup_cons, ih]

theorem find_eq_some_iff {m : Storage P} : (m.find k).1 = some b ↔ m.lookup k = some (some b) := by
  rw [Storage.find]
  cases m.lookup k with
  | none => simp
  | some v => simp

/-- A search leaves what is found under every key as it was. -/
theorem find_find {m : Storage P} (k k' : BufferKey P) :
    ((m.find k').2.find k).1 = (m.find k).1 := by
  rw [Storage.find.eq_def m k']
  cases hk' : m.lookup k' with
  | some v => rfl
  | none =>
    dsimp only
    by_cases hk : k = k'
    · subst hk
      rw [Storage.find, Storage.find, hk', List.lookup_cons, beq_self_eq_true]
    · have hne : (k == k') = false := by simp [hk]
      rw [Storage.find, Storage.find, List.lookup_cons, hne]
      cases m.lookup k <;> rfl

omit [DecidableEq P] in
theorem setStorage_storage (s : Buffer P) (bt bt' : BlockType) (m : Storage P) :
    (s.setStorage bt m).storage bt' = if bt' = bt then m else s.storage bt' := by
  cases bt <;> cases bt' <;> rfl

theorem findBlock_eq (s : Buffer P) (bt : BlockType) (param : P) (time : ℤ) :
    s.findBlock bt param time =
      match s.lookupBlock bt (blockKey bt param time) with
      | some b => (s.setStorage bt ((s.storage bt).find (blockKey bt param time)).2).markAsUsed b
      | none => some (s.setStorage bt ((s.storage bt).find (blockKey bt param time)).2) := by
  cases bt <;> rfl

/-- A search finds a block that exists, and changes nothing that is held. -/
theorem findBlock_frame {param : P} {time : ℤ} (h : s.findBlock bt param time = some s') :
    s'.locked = s.locked ∧ s'.blocks = s.blocks ∧
      (∀ bt' k', s'.lookupBlock bt' k' = s.lookupBlock bt' k') ∧
      ∀ b, s.lookupBlock bt (blockKey bt param time) = some b → s.blocks b ≠ none := by
  rw [findBlock_eq] at h
  have hstorage : ∀ bt' k', (s.setStorage bt
      ((s.storage bt).find (blockKey bt param time)).2).lookupBlock bt' k' =
        s.lookupBlock bt' k' := by
    intro bt' k'
    rw [lookupBlock, setStorage_storage]
    split_ifs with hbt
    · rw [find_find, hbt, lookupBlock]
    · rfl
  have hlocked : ∀ m, (s.setStorage bt m).locked = s.locked := by
    intro m
    cases bt <;> rfl
  have hblocks : ∀ m, (s.setStorage bt m).blocks = s.blocks := by
    intro m
    cases bt <;> rfl
  cases hfound : s.lookupBlock bt (blockKey bt param time) with
  | none =>
    rw [hfound] at h
    cases h
    refine ⟨hlocked _, hblocks _, hstorage, ?_⟩
    intro b hb
    exact absurd hb (by simp)
  | some c =>
    rw [hfound] at h
    obtain ⟨hlinks, hexists⟩ := relinked_markAsUsed h
    refine ⟨hlinks.locked.trans (hlocked _), hlinks.blocks.trans (hblocks _), ?_, ?_⟩
    · intro bt' k'
      rw [lookupBlock, hlinks.storage]
      exact hstorage bt' k'
    · intro b hb
      cases hb
      rwa [hblocks] at hexists

theorem find_assign {m : Storage P} (k k' : BufferKey P) (v : ℕ) :
    ((m.assign k' (some v)).find k).1 = if k = k' then some v else (m.find k).1 := by
  rw [Storage.find, Storage.assign, List.lookup_cons]
  by_cases hk : k = k'
  · have heq : (k == k') = true := by simp [hk]
    rw [heq, if_pos hk]
  · have hne : (k == k') = false := by simp [hk]
    rw [hne, if_neg hk]
    dsimp only
    rw [lookup_filter_key hk, Storage.find]
    cases m.lookup k <;> rfl

theorem store_lookupBlock (s : Buffer P) (bt bt' : BlockType) (k k' : BufferKey P) (b : ℕ) :
    (s.store bt' k' b).lookupBlock bt k =
      if bt = bt' ∧ k = k' then some b else s.lookupBlock bt k := by
  cases bt <;> cases bt' <;> simp [lookupBlock, store, storage, find_assign]

/-- Where there is room a new block takes the place of no block under another key. -/
theorem addBlock_frame {e : Entry P} (h : s.exec (.addBlock e) = some s')
    (hroom : s.locked ≠ 0 ∨ s.blocksC + 1 ≤ s.maxBlocks) :
    s'.locked = s.locked ∧
      (∀ bt' k', s'.lookupBlock bt' k' =
        if bt' = e.type ∧ k' = e.key then some e.block else s.lookupBlock bt' k') ∧
      (∀ c, c ≠ e.block → s'.blocks c = s.blocks c) ∧
      s'.blocks e.block = some (e.object (some e.loc)) ∧
      ∀ l, l ≠ e.loc → s'.locators l = s.locators l := by
  simp only [exec, addBlock, Function.update_self, Option.bind_eq_bind, Option.bind_some,
    Option.bind_eq_some_iff] at h
  obtain ⟨s₁, hs₁, block, hblock, h⟩ := h
  cases h
  set s₀ : Buffer P := { s with blocks := Function.update s.blocks e.block (some (e.object none)) }
    with hs₀
  have hstore : (s₀.store e.type e.key e.block).blocks = s₀.blocks ∧
      (s₀.store e.type e.key e.block).locators = s₀.locators ∧
      (s₀.store e.type e.key e.block).locked = s₀.locked ∧
      (s₀.store e.type e.key e.block).blocksC = s₀.blocksC ∧
      (s₀.store e.type e.key e.block).maxBlocks = s₀.maxBlocks := by
    cases e.type <;> exact ⟨rfl, rfl, rfl, rfl, rfl⟩
  obtain ⟨hblocks, hlocators, hlocked, hcount, hmax⟩ := hstore
  -- the new locator changes links only, since nothing has to go
  have hlinks := newLocator_frame hs₁ (by
    change (s₀.store e.type e.key e.block).locked ≠ 0 ∨
      (s₀.store e.type e.key e.block).blocksC + 1 ≤ (s₀.store e.type e.key e.block).maxBlocks
    rw [hlocked, hcount, hmax]
    exact hroom)
  refine ⟨?_, ?_, ?_, ?_, ?_⟩
  · exact hlinks.locked.trans hlocked
  · intro bt' k'
    have hlookup : s₁.lookupBlock bt' k' =
        (s₀.store e.type e.key e.block).lookupBlock bt' k' := by
      rw [lookupBlock, hlinks.storage]
      cases bt' <;> rfl
    change s₁.lookupBlock bt' k' = _
    rw [hlookup, store_lookupBlock]
    cases bt' <;> rfl
  · intro c hc
    change Function.update s₁.blocks e.block _ c = _
    rw [Function.update_of_ne hc, hlinks.blocks]
    change (s₀.store e.type e.key e.block).blocks c = _
    rw [hblocks, hs₀]
    exact Function.update_of_ne hc _ _
  · change Function.update s₁.blocks e.block _ e.block = _
    rw [hlinks.blocks] at hblock
    change (s₀.store e.type e.key e.block).blocks e.block = some block at hblock
    rw [hblocks] at hblock
    change Function.update s.blocks e.block (some (e.object none)) e.block = some block at hblock
    rw [Function.update_self] at hblock
    cases hblock
    rw [Function.update_self]
    rfl
  · intro l hl
    change s₁.locators l = _
    rw [hlinks.locators]
    change Function.update (s₀.store e.type e.key e.block).locators e.loc _ l = _
    rw [Function.update_of_ne hl, hlocators]

theorem find_erase {m m' : Storage P} {k k' : BufferKey P} (h : m.erase k' = some m')
    (hk : k ≠ k') : (m'.find k).1 = (m.find k).1 := by
  rw [Storage.erase] at h
  split at h
  · cases h
    rw [Storage.find, lookup_filter_key hk, Storage.find]
    cases m.lookup k <;> rfl
  · exact absurd h (by simp)

/-- Deleting a block takes nothing that is held under another key. -/
theorem deleteBlock_frame {c : ℕ} {block : Block P} (hblock : s.blocks c = some block)
    (h : s.deleteBlock c = some s') :
    s'.locked = s.locked ∧ s'.blocks = Function.update s.blocks c none ∧
      ∀ bt' k', ¬ (bt' = block.type ∧ k' = block.key) →
        s'.lookupBlock bt' k' = s.lookupBlock bt' k' := by
  simp only [deleteBlock, hblock, Option.bind_eq_bind, Option.bind_some,
    Option.bind_eq_some_iff] at h
  obtain ⟨s₁, hs₁, h⟩ := h
  obtain ⟨hdata, hprobe, hblocks, hlocked⟩ := destroyBlock_frame h
  cases htype : block.type with
  | min10 =>
    simp only [eraseKey, htype, Option.map_eq_some_iff] at hs₁
    obtain ⟨m, hm, rfl⟩ := hs₁
    refine ⟨hlocked, hblocks, ?_⟩
    intro bt' k' hne
    cases bt' with
    | min10 =>
      have hk : k' ≠ block.key := fun hk => hne ⟨rfl, hk⟩
      rw [lookupBlock, storage, hdata, find_erase hm hk]
      rfl
    | sec10 => rw [lookupBlock, storage, hprobe]; rfl
  | sec10 =>
    simp only [eraseKey, htype, Option.map_eq_some_iff] at hs₁
    obtain ⟨m, hm, rfl⟩ := hs₁
    refine ⟨hlocked, hblocks, ?_⟩
    intro bt' k' hne
    cases bt' with
    | min10 => rw [lookupBlock, storage, hdata]; rfl
    | sec10 =>
      have hk : k' ≠ block.key := fun hk => hne ⟨rfl, hk⟩
      rw [lookupBlock, storage, hprobe, find_erase hm hk]
      rfl

theorem HeldAt.mem_held {r : BlockType × BufferKey P} (h : s.HeldAt bt k b r) : b ∈ s.held := by
  have hmem : ∀ m : Storage P, (m.find k).1 = some b → b ∈ m.filterMap Prod.snd := by
    intro m hm
    obtain ⟨l₁, l₂, hsplit, -⟩ := List.lookup_eq_some_iff.mp (find_eq_some_iff.mp hm)
    rw [hsplit]
    simp
  rw [held, List.mem_append]
  cases bt with
  | min10 => exact .inl (hmem _ h.1)
  | sec10 => exact .inr (hmem _ h.1)

end Buffer

/-! ## Loading -/

section Loading

variable {ι : Type} [DecidableEq ι]

/-- `load` is a call of `szb_get_block`; `activity` is what the code does inside such a call or
between two of them: other loads, some of them while a buffer is locked. -/
inductive Task (ι P : Type) where
  | load (i : ι) (bt : BlockType) (param : P) (time : ℤ)
  | activity

open Function (update)

/-- `Runs task bs r bs'`: the task leaves the buffers `bs'` and returns the block `r`.  A block that
is made is a new object. -/
inductive Runs : Task ι P → (ι → Buffer P) → Option ℕ → (ι → Buffer P) → Prop
  | hit {i bt param time bs b s} : (bs i).lookupBlock bt (blockKey bt param time) = some b →
      (bs i).findBlock bt param time = some s →
      Runs (.load i bt param time) bs (some b) (update bs i s)
  /-- No block is made. -/
  | refused {i param time bs s} : (bs i).lookupBlock .min10 (blockKey .min10 param time) = none →
      (bs i).findBlock .min10 param time = some s →
      Runs (.load i .min10 param time) bs none (update bs i s)
  /-- A block is constructed, added, and its initialization finished. -/
  | created {i bt param time bs s bs₁ e s₂ bs₂} :
      (bs i).lookupBlock bt (blockKey bt param time) = none →
      (bs i).findBlock bt param time = some s →
      Runs .activity (update bs i s) none bs₁ →
      (bs₁ i).blocks e.block = none → (bs₁ i).locators e.loc = none →
      e.type = bt → e.key = blockKey bt param time →
      (bs₁ i).exec (.addBlock e) = some s₂ →
      Runs .activity (update bs₁ i s₂) none bs₂ →
      Runs (.load i bt param time) bs (some e.block) bs₂
  /-- A block that is not initialized is deleted again. -/
  | rejected {i param time bs s bs₁ e s₂ bs₂ s₃} :
      (bs i).lookupBlock .min10 (blockKey .min10 param time) = none →
      (bs i).findBlock .min10 param time = some s →
      Runs .activity (update bs i s) none bs₁ →
      (bs₁ i).blocks e.block = none → (bs₁ i).locators e.loc = none →
      e.type = .min10 → e.key = blockKey .min10 param time →
      (bs₁ i).exec (.addBlock e) = some s₂ →
      Runs .activity (update bs₁ i s₂) none bs₂ →
      (bs₂ i).deleteBlock e.block = some s₃ →
      Runs (.load i .min10 param time) bs none (update bs₂ i s₃)
  | done {bs} : Runs .activity bs none bs
  | next {i bt param time bs r bs₁ bs₂} : Runs (.load i bt param time) bs r bs₁ →
      Runs .activity bs₁ none bs₂ → Runs .activity bs none bs₂
  | locked {i bs bs₁ s bs₂} : Runs .activity (update bs i (bs i).lock) none bs₁ →
      (bs₁ i).unlock = some s → Runs .activity (update bs₁ i s) none bs₂ →
      Runs .activity bs none bs₂

/-! ### A locked buffer -/

/-- What a task leaves of a locked buffer: the lock, and all that was held. -/
structure Keeps (s s' : Buffer P) : Prop where
  locked : s'.locked = s.locked
  held : ∀ bt k b r, s.HeldAt bt k b r → s'.HeldAt bt k b r

theorem Keeps.refl (s : Buffer P) : Keeps s s := ⟨rfl, fun _ _ _ _ h => h⟩

theorem Keeps.trans {s₁ s₂ s₃ : Buffer P} (h : Keeps s₁ s₂) (h' : Keeps s₂ s₃) : Keeps s₁ s₃ :=
  ⟨h'.locked.trans h.locked, fun bt k b r hb => h'.held bt k b r (h.held bt k b r hb)⟩

variable {s s' : Buffer P} {bt : BlockType} {param : P} {time : ℤ}

theorem keeps_findBlock (h : s.findBlock bt param time = some s') : Keeps s s' := by
  obtain ⟨hlocked, hblocks, hlookup, -⟩ := Buffer.findBlock_frame h
  refine ⟨hlocked, ?_⟩
  intro bt' k b r hb
  rw [Buffer.HeldAt, hlookup, hblocks]
  exact hb

/-- A new block does not take the place of a block that was there before its key was missed. -/
theorem held_addBlock {e : Entry P} (h : s.exec (.addBlock e) = some s') (hlocked : s.locked ≠ 0)
    (hfresh : s.blocks e.block = none) {bt' : BlockType} {k : BufferKey P} {b : ℕ}
    {r : BlockType × BufferKey P} (hne : ¬ (bt' = e.type ∧ k = e.key)) (hb : s.HeldAt bt' k b r) :
    s'.HeldAt bt' k b r := by
  obtain ⟨-, hlookup, hblocks, -⟩ := Buffer.addBlock_frame h (.inl hlocked)
  obtain ⟨hfind, block, hblock, hr⟩ := hb
  have hbe : b ≠ e.block := by
    intro hbe
    rw [hbe, hfresh] at hblock
    exact absurd hblock (by simp)
  refine ⟨?_, block, ?_, hr⟩
  · rw [hlookup, if_neg hne]
    exact hfind
  · rw [hblocks b hbe]
    exact hblock

theorem heldAt_addBlock {e : Entry P} (h : s.exec (.addBlock e) = some s')
    (hlocked : s.locked ≠ 0) : s'.HeldAt e.type e.key e.block (e.type, e.key) := by
  obtain ⟨-, hlookup, -, hobject, -⟩ := Buffer.addBlock_frame h (.inl hlocked)
  exact ⟨by rw [hlookup, if_pos ⟨rfl, rfl⟩], _, hobject, rfl⟩

theorem keeps_lock_unlock (h : s.unlock = some s') (hlocked : 1 < s.locked) :
    s' = { s with locked := s.locked - 1 } := by
  rw [Buffer.unlock] at h
  dsimp only at h
  rw [if_neg (by omega), if_pos (by omega)] at h
  exact (Option.some.inj h).symm

theorem keeps_update {bs : ι → Buffer P} {i j : ι} (h : j = i → Keeps (bs j) s) :
    Keeps (bs i) (update bs j s i) := by
  by_cases hj : j = i
  · subst hj
    rw [Function.update_self]
    exact h rfl
  · rw [Function.update_of_ne (Ne.symm hj)]
    exact Keeps.refl _

theorem keeps_create {bs bs₁ : ι → Buffer P} {i j : ι} {e : Entry P} {s₂ : Buffer P}
    (hlocked : 0 < (bs i).locked)
    (hlookup : (bs j).lookupBlock bt (blockKey bt param time) = none)
    (hfind : (bs j).findBlock bt param time = some s) (hmake : Keeps (update bs j s i) (bs₁ i))
    (hfresh : (bs₁ j).blocks e.block = none) (htype : e.type = bt)
    (hkey : e.key = blockKey bt param time) (hadd : (bs₁ j).exec (.addBlock e) = some s₂) :
    Keeps (bs i) (update bs₁ j s₂ i) ∧
      (j = i → (update bs₁ j s₂ i).HeldAt bt (blockKey bt param time) e.block
        (bt, blockKey bt param time)) := by
  have hbefore : Keeps (bs i) (bs₁ i) := (keeps_update fun _ => keeps_findBlock hfind).trans hmake
  have hlock₁ : (bs₁ i).locked ≠ 0 := by
    rw [hbefore.locked]
    omega
  by_cases hj : j = i
  · subst hj
    rw [Function.update_self]
    refine ⟨⟨?_, ?_⟩, ?_⟩
    · rw [(Buffer.addBlock_frame hadd (.inl hlock₁)).1, hbefore.locked]
    · intro bt' k b r hb
      refine held_addBlock hadd hlock₁ hfresh ?_ (hbefore.held bt' k b r hb)
      rw [htype, hkey]
      rintro ⟨rfl, rfl⟩
      rw [hb.1] at hlookup
      exact absurd hlookup (by simp)
    · intro _
      have hheld := heldAt_addBlock hadd hlock₁
      rwa [htype, hkey] at hheld
  · rw [Function.update_of_ne (Ne.symm hj)]
    exact ⟨hbefore, fun h => absurd h hj⟩

/-- While a buffer is locked a task keeps what it holds, and a block that is loaded from it is
held. -/
theorem Runs.keeps {task : Task ι P} {bs bs' : ι → Buffer P} {ret : Option ℕ}
    (h : Runs task bs ret bs') (i : ι) (hlocked : 0 < (bs i).locked) :
    Keeps (bs i) (bs' i) ∧ ∀ bt param time b, task = .load i bt param time → ret = some b →
      ∃ k r, (bs' i).HeldAt bt k b r := by
  induction h with
  | @hit j bt param time bs b s hlookup hfind =>
    refine ⟨keeps_update fun _ => keeps_findBlock hfind, ?_⟩
    intro bt' param' time' b' htask hret
    cases htask
    cases hret
    obtain ⟨-, hblocks, hsame, hexists⟩ := Buffer.findBlock_frame hfind
    obtain ⟨block, hblock⟩ := Option.ne_none_iff_exists'.mp (hexists b hlookup)
    refine ⟨blockKey bt param time, (block.type, block.key), ?_⟩
    rw [Function.update_self, Buffer.HeldAt, hsame, hblocks]
    exact ⟨hlookup, block, hblock, rfl⟩
  | refused hlookup hfind =>
    refine ⟨keeps_update fun _ => keeps_findBlock hfind, ?_⟩
    intro bt' param' time' b' htask hret
    exact absurd hret (by simp)
  | @created j bt param time bs s bs₁ e s₂ bs₂ hlookup hfind hmake hfresh hloc htype hkey hadd
      hfinish ihmake ihfinish =>
    have hfound : Keeps (bs i) (update bs j s i) := keeps_update fun _ => keeps_findBlock hfind
    obtain ⟨hcreate, hnew⟩ := keeps_create hlocked hlookup hfind
      (ihmake (by rw [hfound.locked]; exact hlocked)).1 hfresh htype hkey hadd
    have hrest := (ihfinish (by rw [hcreate.locked]; exact hlocked)).1
    refine ⟨hcreate.trans hrest, ?_⟩
    intro bt' param' time' b' htask hret
    cases htask
    cases hret
    exact ⟨_, _, hrest.held _ _ _ _ (hnew rfl)⟩
  | @rejected j param time bs s bs₁ e s₂ bs₂ s₃ hlookup hfind hmake hfresh hloc htype hkey hadd
      hfinish hdelete ihmake ihfinish =>
    have hfound : Keeps (bs i) (update bs j s i) := keeps_update fun _ => keeps_findBlock hfind
    have hmade := (ihmake (by rw [hfound.locked]; exact hlocked)).1
    obtain ⟨hcreate, hnew⟩ := keeps_create hlocked hlookup hfind hmade hfresh htype hkey hadd
    have hrest := (ihfinish (by rw [hcreate.locked]; exact hlocked)).1
    refine ⟨?_, fun _ _ _ _ _ hret => absurd hret (by simp)⟩
    by_cases hj : j = i
    · subst hj
      have hkept := hcreate.trans hrest
      obtain ⟨-, block, hblock, hr⟩ := hrest.held _ _ _ _ (hnew rfl)
      simp only [Prod.mk.injEq] at hr
      obtain ⟨hlock₃, hblocks₃, hlookup₃⟩ := Buffer.deleteBlock_frame hblock hdelete
      rw [Function.update_self]
      refine ⟨hlock₃.trans hkept.locked, ?_⟩
      intro bt' k b r hb
      obtain ⟨hfindb, blockb, hblockb, hrb⟩ := hkept.held bt' k b r hb
      -- the key of the deleted block was missed, and its address was not in use
      have hne : ¬ (bt' = block.type ∧ k = block.key) := by
        rw [hr.1, hr.2]
        rintro ⟨rfl, rfl⟩
        rw [hb.1] at hlookup
        exact absurd hlookup (by simp)
      have hbe : b ≠ e.block := by
        intro hbe
        obtain ⟨-, block₁, hblock₁, -⟩ := (hfound.trans hmade).held bt' k b r hb
        rw [hbe, hfresh] at hblock₁
        exact absurd hblock₁ (by simp)
      refine ⟨(hlookup₃ bt' k hne).trans hfindb, blockb, ?_, hrb⟩
      rw [hblocks₃, Function.update_of_ne hbe]
      exact hblockb
    · rw [Function.update_of_ne (Ne.symm hj)]
      exact hcreate.trans hrest
  | done => exact ⟨Keeps.refl _, fun _ _ _ _ htask => absurd htask (by simp)⟩
  | next hload hrest ihload ihrest =>
    have hfirst := (ihload hlocked).1
    have hsecond := (ihrest (by rw [hfirst.locked]; exact hlocked)).1
    exact ⟨hfirst.trans hsecond, fun _ _ _ _ htask => absurd htask (by simp)⟩
  | @locked j bs bs₁ s bs₂ hin hunlock hrest ihin ihrest =>
    have hfirst : Keeps (bs i) (update bs₁ j s i) := by
      by_cases hj : j = i
      · subst hj
        obtain ⟨hlock, hheld⟩ := (ihin (by
          rw [Function.update_self]
          change 0 < (bs j).locked + 1
          omega)).1
        rw [Function.update_self] at hlock hheld ⊢
        have hlock' : (bs₁ j).locked = (bs j).locked + 1 := hlock
        rw [keeps_lock_unlock hunlock (by omega)]
        exact ⟨by dsimp only; omega, fun bt k b r hb => hheld bt k b r hb⟩
      · have hin := (ihin (by rw [Function.update_of_ne (Ne.symm hj)]; exact hlocked)).1
        rw [Function.update_of_ne (Ne.symm hj)] at hin ⊢
        exact hin
    have hsecond := (ihrest (by rw [hfirst.locked]; exact hlocked)).1
    exact ⟨hfirst.trans hsecond, fun _ _ _ _ htask => absurd htask (by simp)⟩

/-! ## The engine -/

/-- What an engine is made for: the buffer of the parameter that is evaluated, and the buffers and
parameters that its script reads. -/
structure LuaParam (ι P : Type) where
  buffer : ι
  parRefs : List (ι × P)

abbrev EngineState (ι P : Type) := (ι → Buffer P) × ExecutionEngine (Option ℕ)

/-- `GetBlock` finds an entry, or has `szb_get_block` load a block and its data refreshed.
Anything else may be loaded in between. -/
inductive LuaParam.Step (lp : LuaParam ι P) : EngineState ι P → EngineState ι P → Prop
  | served {c bs lists lists' b} : ExecutionEngine.getBlock lists c = some (lists', b, false) →
      lp.Step (bs, lists) (bs, lists')
  | asked {c r bs bs₁ bs₂ lists lists' b} : lp.parRefs[c.paramIndex]? = some r →
      Runs (.load r.1 c.type r.2 c.time) bs c.fetched bs₁ → Runs .activity bs₁ none bs₂ →
      ExecutionEngine.getBlock lists c = some (lists', b, true) →
      lp.Step (bs, lists) (bs₂, lists')
  | other {bs bs₁ lists} : Runs .activity bs none bs₁ → lp.Step (bs, lists) (bs₁, lists)

/-- The constructor of the engine: one buffer is locked, and the lists are empty. -/
def LuaParam.start (lp : LuaParam ι P) (bs : ι → Buffer P) : EngineState ι P :=
  (update bs lp.buffer (bs lp.buffer).lock, ExecutionEngine.new)

def LuaParam.Alive (lp : LuaParam ι P) (st : EngineState ι P) : Prop :=
  ∀ key r, lp.parRefs[key.2]? = some r → ∀ e ∈ (st.2 key).blocks, ∀ b, e.block = some b →
    b ∈ (st.1 r.1).held ∧ (st.1 r.1).blocks b ≠ none

/-- Whatever the buffers hold when the engine starts and whatever is loaded while it runs, its
blocks stay alive. -/
def LuaParam.KeepsBlocks (lp : LuaParam ι P) (size : ι → ℤ) : Prop :=
  ∀ bs : ι → Buffer P, (∀ i, (bs i).maxBlocks = size i ∧ 0 ≤ (bs i).locked) →
    ∀ st, Relation.ReflTransGen lp.Step (lp.start bs) st → lp.Alive st

/-! ### The entries of the lists -/

theorem getBlock_mem {lists lists' : ExecutionEngine (Option ℕ)}
    {c : ExecutionEngine.Call (Option ℕ)} {b : Option ℕ} {asked : Bool}
    (h : ExecutionEngine.getBlock lists c = some (lists', b, asked)) {key : BlockType × ℕ}
    {e : ListEntry (Option ℕ)} (he : e ∈ (lists' key).blocks) :
    e ∈ (lists key).blocks ∨ asked = true ∧ key = c.key ∧ e.block = c.fetched := by
  rw [ExecutionEngine.getBlock, Option.map_eq_some_iff] at h
  obtain ⟨f, hf, heq⟩ := h
  simp only [Prod.mk.injEq] at heq
  obtain ⟨rfl, -, rfl⟩ := heq
  by_cases hkey : key = c.key
  · rw [hkey, Function.update_self] at he
    rcases (BlockList.extends_getBlock hf).mem e he with hold | ⟨hasked, rfl⟩
    · exact .inl (hkey ▸ hold)
    · exact .inr ⟨hasked, hkey, rfl⟩
  · rw [Function.update_of_ne hkey] at he
    exact .inl he

/-! ### Buffers that are locked -/

variable {lp : LuaParam ι P}

/-- The engine's buffer is locked and holds the blocks of the lists. -/
structure LuaParam.Safe (lp : LuaParam ι P) (st : EngineState ι P) : Prop where
  locked : 0 < (st.1 lp.buffer).locked
  held : ∀ key r, lp.parRefs[key.2]? = some r → ∀ e ∈ (st.2 key).blocks, ∀ b, e.block = some b →
    ∃ bt k x, (st.1 lp.buffer).HeldAt bt k b x

omit [DecidableEq ι] in
theorem LuaParam.Safe.of_keeps {st : EngineState ι P} (h : lp.Safe st) {bs : ι → Buffer P}
    (hkeeps : Keeps (st.1 lp.buffer) (bs lp.buffer)) : lp.Safe (bs, st.2) := by
  refine ⟨by rw [hkeeps.locked]; exact h.locked, ?_⟩
  intro key r hr e he b hb
  obtain ⟨bt, k, x, hheld⟩ := h.held key r hr e he b hb
  exact ⟨bt, k, x, hkeeps.held bt k b x hheld⟩

theorem LuaParam.Step.safe {st st' : EngineState ι P} (h : lp.Step st st')
    (hown : ∀ r ∈ lp.parRefs, r.1 = lp.buffer) (hsafe : lp.Safe st) : lp.Safe st' := by
  cases h with
  | served hget =>
    refine ⟨hsafe.locked, ?_⟩
    intro key r hr e he b hb
    rcases getBlock_mem hget he with hold | ⟨hasked, -⟩
    · exact hsafe.held key r hr e hold b hb
    · exact absurd hasked (by decide)
  | @asked c r bs bs₁ bs₂ lists lists' b hr hload hrefresh hget =>
    obtain ⟨hkeeps, hnew⟩ := hload.keeps lp.buffer hsafe.locked
    have hrest := (hrefresh.keeps lp.buffer (by rw [hkeeps.locked]; exact hsafe.locked)).1
    have hafter := hsafe.of_keeps (hkeeps.trans hrest)
    refine ⟨hafter.locked, ?_⟩
    intro key r' hr' e he b' hb'
    rcases getBlock_mem hget he with hold | ⟨-, -, hfetched⟩
    · exact hafter.held key r' hr' e hold b' hb'
    · obtain ⟨k, x, hheld⟩ := hnew c.type r.2 c.time b'
        (by rw [hown r (List.mem_of_getElem? hr)]) (hfetched.symm.trans hb')
      exact ⟨c.type, k, x, hrest.held _ _ _ _ hheld⟩
  | other hactivity => exact hsafe.of_keeps (hactivity.keeps lp.buffer hsafe.locked).1

theorem LuaParam.keepsBlocks_of_own (hown : ∀ r ∈ lp.parRefs, r.1 = lp.buffer) (size : ι → ℤ) :
    lp.KeepsBlocks size := by
  intro bs hbs st hrun
  have hsafe : lp.Safe st := by
    induction hrun with
    | refl =>
      refine ⟨?_, fun key r hr e he => absurd he List.not_mem_nil⟩
      change 0 < (update bs lp.buffer (bs lp.buffer).lock lp.buffer).locked
      rw [Function.update_self]
      have hlocked := (hbs lp.buffer).2
      change 0 < (bs lp.buffer).locked + 1
      omega
    | tail _ hstep ih => exact hstep.safe hown ih
  intro key r hr e he b hb
  obtain ⟨bt, k, x, hheld⟩ := hsafe.held key r hr e he b hb
  rw [hown r (List.mem_of_getElem? hr)]
  refine ⟨hheld.mem_held, ?_⟩
  obtain ⟨-, block, hblock, -⟩ := hheld
  rw [hblock]
  exact Option.some_ne_none block

/-! ### Buffers that are not -/

/-- The blocks after `n` loads of one parameter, five hours apart. -/
def entriesDown (param : P) : ℕ → List (Entry P)
  | 0 => []
  | n + 1 => ⟨n, n, .sec10, param, 18000 * n⟩ :: entriesDown param n

omit [DecidableEq P] in
theorem mem_entriesDown {param : P} {n : ℕ} {e : Entry P} (h : e ∈ entriesDown param n) :
    e.block < n ∧ e.startTime = 18000 * e.block := by
  induction n with
  | zero => exact absurd h List.not_mem_nil
  | succ n ih =>
    rcases List.mem_cons.mp h with rfl | h
    · exact ⟨Nat.lt_succ_self n, rfl⟩
    · have := ih h
      exact ⟨by omega, this.2⟩

omit [DecidableEq P] in
theorem length_entriesDown (param : P) (n : ℕ) : (entriesDown param n).length = n := by
  induction n with
  | zero => rfl
  | succ n ih => rw [entriesDown, List.length_cons, ih]

omit [DecidableEq P] in
/-- The first block is the one used least recently. -/
theorem zero_not_mem_take (param : P) (n : ℕ) :
    0 ∉ ((entriesDown param (n + 1)).take n).map Entry.block := by
  induction n with
  | zero => simp
  | succ n ih =>
    rw [entriesDown, List.take_succ_cons, List.map_cons, List.mem_cons, not_or]
    exact ⟨(Nat.succ_ne_zero n).symm, ih⟩

/-- The buffer is not locked and holds just the first `n` blocks. -/
structure Filled (s : Buffer P) (param : P) (n : ℕ) : Prop where
  rep : s.Rep (entriesDown param n) none
  locked : s.locked = 0
  maxBlocks : 1 ≤ s.maxBlocks
  fresh : ∀ c, n ≤ c → s.blocks c = none ∧ s.locators c = none

theorem filled_empty {size : ℤ} (h : 1 ≤ size) (param : P) :
    Filled (Buffer.empty size) param 0 :=
  ⟨Buffer.rep_empty size, rfl, h, fun _ _ => ⟨rfl, rfl⟩⟩

theorem Filled.load {bs : ι → Buffer P} {j : ι} {n : ℕ} (h : Filled (bs j) param n) :
    ∃ s', Runs (.load j .sec10 param (18000 * n)) bs (some n) (update bs j s') ∧
      s'.Rep ((entriesDown param (n + 1)).take (bs j).maxBlocks.toNat) none ∧
      s'.maxBlocks = (bs j).maxBlocks ∧ (n < (bs j).maxBlocks → Filled s' param (n + 1)) := by
  -- no block starts at the new time yet
  have habsent : ∀ b, ((param, 18000 * (n : ℤ)), some b) ∉ (bs j).storage .sec10 := by
    intro b hb
    obtain ⟨e, he, -, hk, -⟩ := ((h.rep.stored .sec10).mem _ b).mp hb
    obtain ⟨hlt, htime⟩ := mem_entriesDown he
    simp only [Entry.key, Prod.mk.injEq] at hk
    omega
  obtain ⟨hstored, hfound⟩ := (h.rep.stored .sec10).find (param, 18000 * (n : ℤ))
  have hlookup : (bs j).lookupBlock .sec10 (blockKey .sec10 param (18000 * n)) = none := by
    cases hl : (bs j).lookupBlock .sec10 (blockKey .sec10 param (18000 * n)) with
    | none => rfl
    | some b => exact absurd ((hfound b).mp hl) (habsent b)
  set s := (bs j).setStorage .sec10 (((bs j).storage .sec10).find (param, 18000 * (n : ℤ))).2 with hs
  have hfind : (bs j).findBlock .sec10 param (18000 * n) = some s := by
    rw [Buffer.findBlock_eq, hlookup]
    rfl
  have hrep : s.Rep (entriesDown param n) none := h.rep.setStorage hstored
  set e : Entry P := ⟨n, n, .sec10, param, 18000 * n⟩ with he
  have hlegal : s.Legal (.addBlock e) := by
    refine ⟨(h.fresh n le_rfl).1, (h.fresh n le_rfl).2, ?_⟩
    intro b hb
    obtain ⟨e', he', -, hk, -⟩ := ((hrep.stored .sec10).mem _ b).mp hb
    obtain ⟨hlt, htime⟩ := mem_entriesDown he'
    simp only [Entry.key, Prod.mk.injEq, he] at hk
    omega
  obtain ⟨s', hadd, hrep', hmax, hlocked⟩ := Buffer.exec_spec hrep h.maxBlocks hlegal
  have hlocked₀ : s.locked = 0 := h.locked
  have hentries : s.entriesAfter (entriesDown param n) (.addBlock e) =
      (entriesDown param (n + 1)).take (bs j).maxBlocks.toNat := by
    rw [Buffer.entriesAfter, if_pos hlocked₀]
    rfl
  rw [hentries] at hrep'
  have hself : update bs j s j = s := Function.update_self _ _ _
  refine ⟨s', ?_, hrep', hmax, ?_⟩
  · have hruns : Runs (.load j .sec10 param (18000 * n)) bs (some e.block)
        (update (update bs j s) j s') :=
      Runs.created hlookup hfind Runs.done (by rw [hself]; exact hlegal.1)
        (by rw [hself]; exact hlegal.2.1) rfl rfl (by rw [hself]; exact hadd) Runs.done
    rwa [Function.update_idem] at hruns
  -- while there is room nothing is evicted
  · intro hlt
    have hcount : s.blocksC = n := by
      rw [hrep.count, length_entriesDown]
    have hmax₀ : s.maxBlocks = (bs j).maxBlocks := rfl
    obtain ⟨-, -, hblocks, -, hlocators⟩ := Buffer.addBlock_frame hadd (.inr (by omega))
    refine ⟨?_, by rw [hlocked, hlocked₀]; rfl, by rw [hmax]; exact h.maxBlocks, ?_⟩
    · rwa [List.take_of_length_le (by rw [length_entriesDown]; omega)] at hrep'
    · intro c hc
      rw [hblocks c (show c ≠ n by omega), hlocators c (show c ≠ n by omega)]
      exact h.fresh c (by omega)

theorem getBlock_append {β : Type} {before : List (ListEntry β)} {e : ListEntry β} {time : ℤ}
    (bt : BlockType) (fetched : β) (hstart : e.startTime ≤ time) (hend : e.endTime ≤ time) :
    (BlockList.mk before [e]).getBlock time bt fetched =
      some (BlockList.addBlock (getBlockEntry fetched time bt) (e :: before) []) := by
  have hne : (BlockList.mk before [e]).blocks.length ≠ 0 := by simp [BlockList.blocks]
  have hholds : ¬ e.Holds time := fun h => absurd h.2 (not_lt.mpr hend)
  rw [BlockList.getBlock, if_pos hne]
  dsimp only
  rw [if_neg hholds, if_neg (not_lt.mpr hstart)]
  rfl

/-- The list of a parameter after `n` loads, five hours apart. -/
structure ReadUpTo (l : BlockList (Option ℕ)) (n : ℕ) : Prop where
  shape : n = 0 ∧ l = ⟨[], []⟩ ∨
    ∃ before e, l = ⟨before, [e]⟩ ∧ e.startTime ≤ 18000 * n ∧ e.endTime ≤ 18000 * n
  first : 0 < n → ∃ e ∈ l.blocks, e.block = some 0

theorem ReadUpTo.read {l : BlockList (Option ℕ)} {n : ℕ} (h : ReadUpTo l n) :
    ∃ f, l.getBlock (18000 * n) .sec10 (some n) = some f ∧ f.asked = true ∧
      ReadUpTo f.list (n + 1) := by
  have hstart : (getBlockEntry (some n) (18000 * (n : ℤ)) .sec10).startTime = 18000 * n := by
    change entryStart .sec10 (18000 * (n : ℤ)) = _
    rw [entryStart_sec10 (.inl (by omega))]
    omega
  have hend : (getBlockEntry (some n) (18000 * (n : ℤ)) .sec10).endTime = 18000 * n + 18000 := by
    change entryEnd .sec10 (18000 * (n : ℤ)) = _
    rw [entryEnd_sec10]
    exact congrArg (· + 18000) hstart
  have hnext : ∀ before, (0 < n → ∃ e ∈ before, ListEntry.block e = some 0) → ReadUpTo
      (BlockList.addBlock (getBlockEntry (some n) (18000 * n) .sec10) before []).list (n + 1) := by
    intro before hfirst
    refine ⟨.inr ⟨before, _, rfl, by rw [hstart]; push_cast; omega, by rw [hend]; push_cast; omega⟩,
      fun _ => ?_⟩
    rcases Nat.eq_zero_or_pos n with rfl | hpos
    · exact ⟨_, List.mem_append_right _ List.mem_cons_self, rfl⟩
    · obtain ⟨e, he, hblock⟩ := hfirst hpos
      exact ⟨e, List.mem_append_left _ (List.mem_reverse.mpr he), hblock⟩
  rcases h.shape with ⟨rfl, rfl⟩ | ⟨before, e, rfl, hestart, heend⟩
  · exact ⟨_, rfl, rfl, hnext [] fun h => absurd h (lt_irrefl 0)⟩
  · refine ⟨_, getBlock_append .sec10 (some n) hestart heend, rfl, hnext (e :: before) ?_⟩
    intro hpos
    obtain ⟨e', he', hblock⟩ := h.first hpos
    refine ⟨e', ?_, hblock⟩
    rcases List.mem_append.mp he' with he' | he'
    · exact List.mem_cons_of_mem _ (List.mem_reverse.mp he')
    · exact List.mem_singleton.mp he' ▸ List.mem_cons_self

theorem LuaParam.step_read {st : EngineState ι P} {i : ℕ} {r : ι × P}
    (hr : lp.parRefs[i]? = some r) {n : ℕ} (hfilled : Filled (st.1 r.1) r.2 n)
    (hread : ReadUpTo (st.2 (.sec10, i)) n) :
    ∃ st', lp.Step st st' ∧ ReadUpTo (st'.2 (.sec10, i)) (n + 1) ∧
      (st'.1 r.1).maxBlocks = (st.1 r.1).maxBlocks ∧
      (st'.1 r.1).Rep ((entriesDown r.2 (n + 1)).take (st.1 r.1).maxBlocks.toNat) none ∧
      (n < (st.1 r.1).maxBlocks → Filled (st'.1 r.1) r.2 (n + 1)) := by
  obtain ⟨s', hload, hrep, hmax, hnext⟩ := hfilled.load
  obtain ⟨f, hf, hasked, hread'⟩ := hread.read
  let c : ExecutionEngine.Call (Option ℕ) := ⟨i, 18000 * n, .sec10, some n⟩
  have hget : ExecutionEngine.getBlock st.2 c =
      some (Function.update st.2 c.key f.list, f.block, true) := by
    have hf' : BlockList.getBlock (st.2 c.key) c.time c.type c.fetched = some f := hf
    rw [ExecutionEngine.getBlock, hf', ← hasked]
    rfl
  have hself : update st.1 r.1 s' r.1 = s' := Function.update_self _ _ _
  refine ⟨(update st.1 r.1 s', Function.update st.2 c.key f.list),
    .asked (c := c) hr hload .done hget, ?_, ?_, ?_, ?_⟩
  · have hlist : Function.update st.2 c.key f.list (.sec10, i) = f.list := Function.update_self _ _ _
    change ReadUpTo (Function.update st.2 c.key f.list (.sec10, i)) (n + 1)
    rw [hlist]
    exact hread'
  · exact (congrArg Buffer.maxBlocks hself).trans hmax
  · change (update st.1 r.1 s' r.1).Rep _ none
    rw [hself]
    exact hrep
  · intro hlt
    change Filled (update st.1 r.1 s' r.1) r.2 (n + 1)
    rw [hself]
    exact hnext hlt

/-- More loads than the buffer may hold blocks evict the first of them. -/
theorem LuaParam.not_keepsBlocks {r : ι × P} (hr : r ∈ lp.parRefs) (hne : r.1 ≠ lp.buffer)
    {size : ι → ℤ} (hsize : ∀ i, 1 ≤ size i) : ¬ lp.KeepsBlocks size := by
  intro hkeeps
  obtain ⟨i, hi⟩ := List.getElem?_of_mem hr
  have hstart : (lp.start fun i => (Buffer.empty (size i) : Buffer P)).1 r.1 =
      Buffer.empty (size r.1) := by
    change update (fun i => Buffer.empty (size i)) lp.buffer _ r.1 = _
    rw [Function.update_of_ne hne]
  have hfill : ∀ n : ℕ, (n : ℤ) ≤ size r.1 → ∃ st : EngineState ι P,
      Relation.ReflTransGen lp.Step (lp.start fun i => Buffer.empty (size i)) st ∧
        Filled (st.1 r.1) r.2 n ∧ (st.1 r.1).maxBlocks = size r.1 ∧
        ReadUpTo (st.2 (.sec10, i)) n := by
    intro n
    induction n with
    | zero =>
      intro _
      refine ⟨_, .refl, ?_, ?_, ⟨.inl ⟨rfl, rfl⟩, fun h => absurd h (lt_irrefl 0)⟩⟩
      · rw [hstart]
        exact filled_empty (hsize r.1) r.2
      · rw [hstart]
        rfl
    | succ n ih =>
      intro hn
      obtain ⟨st, hrun, hfilled, hmax, hread⟩ := ih (by omega)
      obtain ⟨st', hstep, hread', hmax', -, hnext⟩ := lp.step_read hi hfilled hread
      exact ⟨st', hrun.tail hstep, hnext (by omega), hmax'.trans hmax, hread'⟩
  have hpos := hsize r.1
  obtain ⟨st, hrun, hfilled, hmax, hread⟩ := hfill (size r.1).toNat (by omega)
  obtain ⟨st', hstep, hread', -, hrep, -⟩ := lp.step_read hi hfilled hread
  obtain ⟨e, he, hblock⟩ := hread'.first (by omega)
  have halive := hkeeps (fun i => Buffer.empty (size i)) (fun i => ⟨rfl, le_rfl⟩) st'
    (hrun.tail hstep) (.sec10, i) r hi e he 0 hblock
  rw [hmax] at hrep
  exact zero_not_mem_take r.2 _ (hrep.mem_held.mp halive.1)

/-- The blocks stay alive exactly when the script reads only parameters of the buffer that the
engine locks. -/
theorem LuaParam.keepsBlocks_iff (lp : LuaParam ι P) (size : ι → { n : ℤ // 1 ≤ n }) :
    lp.KeepsBlocks (fun i => (size i).1) ↔ ∀ r ∈ lp.parRefs, r.1 = lp.buffer := by
  constructor
  · intro hkeeps r hr
    by_contra hne
    exact LuaParam.not_keepsBlocks hr hne (fun i => (size i).2) hkeeps
  · intro hown
    exact LuaParam.keepsBlocks_of_own hown _

/-- A script of one configuration that reads a parameter of another one. -/
theorem otherBuffer_evicted :
    ¬ (LuaParam.mk false [(true, ())]).KeepsBlocks fun _ => 1 :=
  LuaParam.not_keepsBlocks (r := (true, ())) List.mem_cons_self (by decide) fun _ => le_rfl

end Loading

end Szbase
end Szarp
