import Szarp.Lib.Run
import Szarp.Szbase.BufferCache

/-!
# Runs of the block cache

Every run of operations keeps the structures of the cache consistent, and what is evicted was used
before everything that stays.
-/

namespace Szarp
namespace Szbase
namespace Buffer

open Dll

variable {P : Type} [DecidableEq P] {s : Buffer P} {es : List (Entry P)}

/-! ## Finding and clearing -/

def moveFront (b : ℕ) (es : List (Entry P)) : List (Entry P) :=
  (es.filter fun e => e.block = b) ++ es.filter fun e => e.block ≠ b

omit [DecidableEq P] in
theorem filter_block_ne {a c : List (Entry P)} {e : Entry P}
    (h : ((a ++ e :: c).map Entry.block).Nodup) :
    ((a ++ e :: c).filter fun f => f.block ≠ e.block) = a ++ c := by
  rw [List.map_append, List.map_cons, List.nodup_middle, ← List.map_append, List.nodup_cons] at h
  rw [List.filter_append, List.filter_cons_of_neg (by simp), ← List.filter_append,
    List.filter_eq_self]
  intro f hf
  simp only [ne_eq, decide_not, Bool.not_eq_true', decide_eq_false_iff_not]
  exact fun heq => h.1 (heq ▸ List.mem_map_of_mem hf)

omit [DecidableEq P] in
theorem moveFront_eq {a c : List (Entry P)} {e : Entry P}
    (h : ((a ++ e :: c).map Entry.block).Nodup) :
    moveFront e.block (a ++ e :: c) = e :: (a ++ c) := by
  rw [moveFront, filter_block_ne h]
  rw [List.map_append, List.map_cons, List.nodup_middle, ← List.map_append, List.nodup_cons] at h
  have hnone : ∀ f ∈ a ++ c, f.block ≠ e.block :=
    fun f hf heq => h.1 (heq ▸ List.mem_map_of_mem hf)
  have ha : (a.filter fun f => f.block = e.block) = [] := by
    simp only [List.filter_eq_nil_iff, decide_eq_true_eq]
    exact fun f hf => hnone f (List.mem_append_left _ hf)
  have hc : (c.filter fun f => f.block = e.block) = [] := by
    simp only [List.filter_eq_nil_iff, decide_eq_true_eq]
    exact fun f hf => hnone f (List.mem_append_right _ hf)
  rw [List.filter_append, List.filter_cons_of_pos (by simp), ha, hc]
  rfl

theorem Rep.used_block {b : ℕ} (h : s.Rep es none) (hb : b ∈ es.map Entry.block) :
    ∃ s', s.markAsUsed b = some s' ∧ s'.Rep (moveFront b es) none ∧
      s'.maxBlocks = s.maxBlocks ∧ s'.locked = s.locked := by
  obtain ⟨e, he, rfl⟩ := List.mem_map.mp hb
  obtain ⟨a, c, rfl⟩ := List.append_of_mem he
  rw [moveFront_eq h.nodup]
  exact h.markAsUsed

theorem Rep.delete_block {b : ℕ} (h : s.Rep es none) (hb : b ∈ es.map Entry.block) :
    ∃ s', s.deleteBlock b = some s' ∧ s'.Rep (es.filter fun e => e.block ≠ b) none ∧
      s'.maxBlocks = s.maxBlocks ∧ s'.locked = s.locked := by
  obtain ⟨e, he, rfl⟩ := List.mem_map.mp hb
  obtain ⟨a, c, rfl⟩ := List.append_of_mem he
  rw [filter_block_ne h.nodup]
  exact h.deleteBlock (by simp)

theorem Rep.stored (h : s.Rep es none) (type : BlockType) : Stored (s.storage type) type es := by
  cases type with
  | min10 => exact h.data
  | sec10 => exact h.probe

def afterFind (found : Option ℕ) (es : List (Entry P)) : List (Entry P) :=
  match found with
  | some b => moveFront b es
  | none => es

theorem Rep.setStorage (h : s.Rep es none) {type : BlockType} {m : Storage P}
    (hm : Stored m type es) : (s.setStorage type m).Rep es none := by
  cases type with
  | min10 => exact ⟨h.toCore.setStorage m s.probestorage, hm, h.probe⟩
  | sec10 => exact ⟨h.toCore.setStorage s.datastorage m, h.data, hm⟩

theorem Rep.setLocked (h : s.Rep es none) (n : ℤ) : Rep { s with locked := n } es none :=
  ⟨⟨⟨h.usage.linked, h.usage.newest, h.usage.oldest, h.usage.live⟩,
    fun q => (h.chains q).imp fun _ hys => ⟨⟨hys.1.linked, hys.1.index, hys.1.live⟩, hys.2⟩,
    h.locators, h.blocks, h.nodup, h.count⟩, h.data, h.probe⟩

theorem Rep.find (h : s.Rep es none) (type : BlockType) (k : BufferKey P) :
    ∃ s', (match ((s.storage type).find k).1 with
        | some b => (s.setStorage type ((s.storage type).find k).2).markAsUsed b
        | none => some (s.setStorage type ((s.storage type).find k).2)) = some s' ∧
      s'.Rep (afterFind ((s.storage type).find k).1 es) none ∧
      s'.maxBlocks = s.maxBlocks ∧ s'.locked = s.locked := by
  obtain ⟨hstored, hfound⟩ := (h.stored type).find k
  have hrep := h.setStorage hstored
  have hframe : (s.setStorage type ((s.storage type).find k).2).maxBlocks = s.maxBlocks ∧
      (s.setStorage type ((s.storage type).find k).2).locked = s.locked := by
    cases type <;> exact ⟨rfl, rfl⟩
  cases hf : ((s.storage type).find k).1 with
  | none => exact ⟨_, rfl, hrep, hframe⟩
  | some b =>
    obtain ⟨e, he, -, -, hb⟩ := ((h.stored type).mem k b).mp ((hfound b).mp hf)
    obtain ⟨s', hs', hrep', hmax, hlocked⟩ := hrep.used_block (List.mem_map.mpr ⟨e, he, hb⟩)
    exact ⟨s', hs', hrep', hmax.trans hframe.1, hlocked.trans hframe.2⟩

theorem Rep.clearParam_done {p : P} (h : s.Rep es none) (hindex : s.paramindex p = none) (n : ℕ) :
    Buffer.clearParam p n s = some s ∧ (es.filter fun e => e.param ≠ p) = es := by
  obtain ⟨ys, hchain, hperm⟩ := h.chains p
  have hys : ys = [] := List.head?_eq_none_iff.mp (hchain.index.symm.trans hindex)
  rw [hys] at hperm
  refine ⟨by rw [Buffer.clearParam, hindex], List.filter_eq_self.mpr fun e he => ?_⟩
  have hnil := List.map_eq_nil_iff.mp hperm.nil_eq.symm
  simpa using List.filter_eq_nil_iff.mp hnil e he

theorem Rep.clearParam (p : P) (n : ℕ) (h : s.Rep es none)
    (hn : (es.filter fun e => e.param = p).length ≤ n) :
    ∃ s', Buffer.clearParam p n s = some s' ∧ s'.Rep (es.filter fun e => e.param ≠ p) none ∧
      s'.maxBlocks = s.maxBlocks ∧ s'.locked = s.locked := by
  induction n generalizing s es with
  | zero =>
    obtain ⟨ys, hchain, hperm⟩ := h.chains p
    rw [List.eq_nil_of_length_eq_zero (Nat.le_zero.mp hn), List.map_nil] at hperm
    have hindex := hchain.index
    rw [hperm.eq_nil, List.head?_nil] at hindex
    obtain ⟨hdone, hall⟩ := h.clearParam_done hindex 0
    rw [hall]
    exact ⟨s, hdone, h, rfl, rfl⟩
  | succ n ih =>
    obtain ⟨ys, hchain, hperm⟩ := h.chains p
    cases ys with
    | nil =>
      obtain ⟨hdone, hall⟩ := h.clearParam_done hchain.index (n + 1)
      rw [hall]
      exact ⟨s, hdone, h, rfl, rfl⟩
    | cons l ys =>
      have hindex : s.paramindex p = some l := hchain.index
      obtain ⟨e, he, hep, rfl⟩ := (mem_chain hperm).mp (List.mem_cons_self : l ∈ l :: ys)
      obtain ⟨a, c, rfl⟩ := List.append_of_mem he
      obtain ⟨s₁, hdel, hrep, hm₁, hl₁⟩ := h.deleteBlock (by simp : none ≠ some e.loc)
      have hloc := h.locators e he
      rw [List.filter_append, List.filter_cons_of_pos (by simpa using hep), List.length_append,
        List.length_cons] at hn
      obtain ⟨s₂, hclear, hrep₂, hm₂, hl₂⟩ := ih hrep (by
        rw [List.filter_append, List.length_append]
        omega)
      refine ⟨s₂, ?_, ?_, hm₂.trans hm₁, hl₂.trans hl₁⟩
      · rw [Buffer.clearParam]
        simp only [hindex, hloc, hdel, Option.bind_eq_bind, Option.bind_some]
        exact hclear
      · rw [List.filter_append, List.filter_cons_of_neg (by simpa using hep), ← List.filter_append]
        exact hrep₂

theorem Stored.tail {m : Storage P} {type : BlockType} {k : BufferKey P} {e : Entry P}
    {a c : List (Entry P)} (h : Stored ((k, some e.block) :: m) type (a ++ e :: c))
    (hnodup : ((a ++ e :: c).map Entry.block).Nodup) (hk : e.key = k) (ht : e.type = type) :
    Stored m type (a ++ c) := by
  have hkeys := h.keys
  rw [List.map_cons, List.nodup_cons] at hkeys
  obtain ⟨m', hm', hstored⟩ := h.erase hnodup ht
  have hfilter : (((k, some e.block) :: m).filter fun x => x.1 ≠ e.key) = m := by
    rw [hk, List.filter_cons_of_neg (by simp), List.filter_eq_self]
    intro x hx
    simp only [ne_eq, decide_not, Bool.not_eq_true', decide_eq_false_iff_not]
    exact fun heq => hkeys.1 (List.mem_map.mpr ⟨x, hx, heq⟩)
  rw [Storage.erase, if_pos (by simp [hk]), hfilter, Option.some.injEq] at hm'
  rw [hm']
  exact hstored

theorem Core.freeStorage {type other : BlockType} (hto : other ≠ type) (m : Storage P)
    (h : s.Core es none) (hm : Stored m type es) (ho : Stored (s.storage other) other es)
    (hs : s.storage type = m) :
    ∃ s' es', Buffer.freeStorage type m s = some s' ∧ s'.Core es' none ∧
      (∀ e ∈ es', e ∈ es ∧ e.type ≠ type) ∧ Stored (s'.storage other) other es' ∧
      s'.storage other = s.storage other ∧ s'.storage type = [] ∧ s'.maxBlocks = s.maxBlocks ∧
      s'.locked = s.locked := by
  have hset : ∀ (t : Buffer P) (r : Storage P), (t.setStorage type r).storage type = r ∧
      (t.setStorage type r).storage other = t.storage other ∧
      (t.setStorage type r).maxBlocks = t.maxBlocks ∧ (t.setStorage type r).locked = t.locked := by
    intro t r
    cases type <;> cases other <;> first | exact absurd rfl hto | exact ⟨rfl, rfl, rfl, rfl⟩
  have hcore : ∀ {t : Buffer P} {fs : List (Entry P)} (r : Storage P), t.Core fs none →
      (t.setStorage type r).Core fs none := by
    intro t fs r ht
    cases type with
    | min10 => exact ht.setStorage r t.probestorage
    | sec10 => exact ht.setStorage t.datastorage r
  -- The induction is on the hash map of this type; the other one only loses nothing.
  induction m generalizing s es with
  | nil =>
    refine ⟨s, es, rfl, h, fun e he => ⟨he, fun ht => ?_⟩, ho, rfl, hs, rfl, rfl⟩
    have hnone := (hm.mem e.key e.block).mpr ⟨e, he, ht, rfl, rfl⟩
    simp at hnone
  | cons x m ih =>
    obtain ⟨k, v⟩ := x
    cases v with
    -- a key without a block
    | none =>
      obtain ⟨hs₁, ho₁, hm₁, hl₁⟩ := hset s m
      have hkeys := hm.keys
      rw [List.map_cons, List.nodup_cons] at hkeys
      have hm' : Stored m type es :=
        ⟨hkeys.2, fun k' b => by rw [← hm.mem k' b, List.mem_cons]; simp⟩
      obtain ⟨s', es', hfree, hcore', hsub, hother, heq, hnil, hmax, hlocked⟩ :=
        ih (hcore m h) hm' (by rw [ho₁]; exact ho) hs₁
      exact ⟨s', es', hfree, hcore', hsub, hother, heq.trans ho₁, hnil, hmax.trans hm₁,
        hlocked.trans hl₁⟩
    -- the block of the first entry is deleted, and its entry leaves the list
    | some b =>
      obtain ⟨e, he, ht, hk, rfl⟩ := (hm.mem k b).mp (by simp)
      obtain ⟨a, c, rfl⟩ := List.append_of_mem he
      obtain ⟨s₁, hdestroy, hcore₁, hd₁, hp₁, hmax₁, hlocked₁⟩ := h.destroyBlock (by simp)
      obtain ⟨hs₂, ho₂, hm₂, hl₂⟩ := hset s₁ m
      have hother₁ : s₁.storage other = s.storage other := by
        cases other with
        | min10 => exact hd₁
        | sec10 => exact hp₁
      have hskip := ho.skip (by rw [ht]; exact hto.symm)
      obtain ⟨s', es', hfree, hcore', hsub, hother, heq, hnil, hmax, hlocked⟩ :=
        ih (hcore m hcore₁) (hm.tail h.nodup hk ht) (by rw [ho₂, hother₁]; exact hskip) hs₂
      refine ⟨s', es', ?_, hcore', fun f hf => ?_, hother, heq.trans (ho₂.trans hother₁), hnil,
        hmax.trans (hm₂.trans hmax₁), hlocked.trans (hl₂.trans hlocked₁)⟩
      · simp only [Buffer.freeStorage, hdestroy, Option.bind_eq_bind, Option.bind_some]
        exact hfree
      · obtain ⟨hin, hne⟩ := hsub f hf
        refine ⟨?_, hne⟩
        simp only [List.mem_append, List.mem_cons] at hin ⊢
        tauto

theorem Rep.reset (h : s.Rep es none) :
    ∃ s', s.reset = some s' ∧ s'.Rep [] none ∧ s'.maxBlocks = s.maxBlocks ∧
      s'.locked = s.locked := by
  obtain ⟨s₁, es₁, hfree₁, hcore₁, hsub₁, hprobe₁, -, hnil₁, hmax₁, hlocked₁⟩ :=
    h.toCore.freeStorage (show BlockType.sec10 ≠ .min10 by decide) s.datastorage h.data h.probe rfl
  obtain ⟨s₂, es₂, hfree₂, hcore₂, hsub₂, -, heq₂, hnil₂, hmax₂, hlocked₂⟩ :=
    hcore₁.freeStorage (show BlockType.min10 ≠ .sec10 by decide) s₁.probestorage hprobe₁
      (by
        refine ⟨by rw [hnil₁]; exact List.nodup_nil, fun k b => ?_⟩
        rw [hnil₁]
        constructor
        · intro hmem
          simp at hmem
        · rintro ⟨e, he, ht, -, -⟩
          exact absurd ht (hsub₁ e he).2) rfl
  -- nothing of either type is left
  have hes : es₂ = [] := by
    refine List.eq_nil_iff_forall_not_mem.mpr fun e he => ?_
    obtain ⟨hin, hne⟩ := hsub₂ e he
    have hne' := (hsub₁ e hin).2
    cases ht : e.type with
    | min10 => exact hne' ht
    | sec10 => exact hne ht
  subst hes
  have hdata : s₂.datastorage = [] := heq₂.trans hnil₁
  have hprobe : s₂.probestorage = [] := hnil₂
  refine ⟨s₂, ?_, ⟨hcore₂, ?_, ?_⟩, hmax₂.trans hmax₁, hlocked₂.trans hlocked₁⟩
  · have hcount : s₂.blocksC = 0 := hcore₂.count
    simp only [Buffer.reset, freeBlocks, hfree₁, hfree₂, Option.bind_eq_bind, Option.bind_some,
      hcount, if_true]
  · rw [hdata]
    exact ⟨List.nodup_nil, by simp⟩
  · rw [hprobe]
    exact ⟨List.nodup_nil, by simp⟩

end Buffer

/-! ## Operations -/

/-- `addBlock` is given the object of the block and the addresses of it and its locator.  A hash
map may be rearranged at any time. -/
inductive Op (P : Type) where
  | addBlock (e : Entry P)
  | findDataBlock (param : P) (year : ℤ) (month : ℕ)
  | findProbeBlock (param : P) (startTime : ℤ)
  | markAsUsed (b : ℕ)
  | deleteBlock (b : ℕ)
  | clearParamFromCache (param : P)
  | reset
  | lock
  | unlock
  | rehash (type : BlockType) (m : Storage P)

def Op.lockChange {P : Type} : Op P → ℤ
  | .lock => 1
  | .unlock => -1
  | _ => 0

namespace Buffer

open Dll

variable {P : Type} [DecidableEq P] {s : Buffer P} {es : List (Entry P)}

def exec (s : Buffer P) : Op P → Option (Buffer P)
  | .addBlock e =>
    addBlock { s with blocks := Function.update s.blocks e.block (some (e.object none)) } e.block
      e.loc
  | .findDataBlock param year month => s.findDataBlock param year month
  | .findProbeBlock param startTime => s.findProbeBlock param startTime
  | .markAsUsed b => s.markAsUsed b
  | .deleteBlock b => s.deleteBlock b
  | .clearParamFromCache param => s.clearParamFromCache param
  | .reset => s.reset
  | .lock => some s.lock
  | .unlock => s.unlock
  | .rehash type m => some (s.setStorage type m)

def held (s : Buffer P) : List ℕ :=
  s.datastorage.filterMap Prod.snd ++ s.probestorage.filterMap Prod.snd

/-- What callers keep to: a block that is added is a new object and its key is not in use, a block
that is used or deleted is held, and locks are released as often as they are taken. -/
def Legal (s : Buffer P) : Op P → Prop
  | .addBlock e => s.blocks e.block = none ∧ s.locators e.loc = none ∧
      ∀ b, (e.key, some b) ∉ s.storage e.type
  | .markAsUsed b => b ∈ s.held
  | .deleteBlock b => b ∈ s.held
  | .unlock => 0 < s.locked
  | .rehash type m => (s.storage type).Perm m
  | _ => True

/-- The block that an operation adds or uses. -/
def usedBlock (s : Buffer P) : Op P → Option ℕ
  | .addBlock e => some e.block
  | .findDataBlock param year month => (s.datastorage.find (param, probe2time 0 year month)).1
  | .findProbeBlock param startTime => (s.probestorage.find (param, startTime)).1
  | .markAsUsed b => some b
  | _ => none

def entriesAfter (s : Buffer P) (es : List (Entry P)) : Op P → List (Entry P)
  | .addBlock e => if s.locked = 0 then (e :: es).take s.maxBlocks.toNat else e :: es
  | .deleteBlock b => es.filter fun e => e.block ≠ b
  | .clearParamFromCache param => es.filter fun e => e.param ≠ param
  | .reset => []
  | .unlock => if s.locked = 1 then es.take s.maxBlocks.toNat else es
  | op => afterFind (s.usedBlock op) es

theorem Rep.mem_held (h : s.Rep es none) {b : ℕ} : b ∈ s.held ↔ b ∈ es.map Entry.block := by
  have hvalue : ∀ {m : Storage P} {type : BlockType}, Stored m type es →
      (b ∈ m.filterMap Prod.snd ↔ ∃ e ∈ es, e.type = type ∧ e.block = b) := by
    intro m type hm
    rw [List.mem_filterMap]
    constructor
    · rintro ⟨⟨k, v⟩, hkv, rfl⟩
      obtain ⟨e, he, ht, -, hb⟩ := (hm.mem k b).mp hkv
      exact ⟨e, he, ht, hb⟩
    · rintro ⟨e, he, ht, hb⟩
      exact ⟨(e.key, some b), (hm.mem e.key b).mpr ⟨e, he, ht, rfl, hb⟩, rfl⟩
  rw [held, List.mem_append, hvalue h.data, hvalue h.probe, List.mem_map]
  constructor
  · rintro (⟨e, he, -, hb⟩ | ⟨e, he, -, hb⟩) <;> exact ⟨e, he, hb⟩
  · rintro ⟨e, he, hb⟩
    cases ht : e.type with
    | min10 => exact Or.inl ⟨e, he, ht, hb⟩
    | sec10 => exact Or.inr ⟨e, he, ht, hb⟩

/-- Every legal operation succeeds and does on the list what the abstract operation does. -/
theorem exec_spec (h : s.Rep es none) (hmax : 1 ≤ s.maxBlocks) {op : Op P} (hop : s.Legal op) :
    ∃ s', s.exec op = some s' ∧ s'.Rep (s.entriesAfter es op) none ∧
      s'.maxBlocks = s.maxBlocks ∧
      s'.locked = s.locked + op.lockChange := by
  cases op with
  | addBlock e =>
    obtain ⟨hblock, hlocator, habsent⟩ := hop
    -- the addresses of the new block and its locator are not in use
    have hfresh : e.block ∉ es.map Entry.block := by
      intro hmem
      obtain ⟨f, hf, hfe⟩ := List.mem_map.mp hmem
      rw [← hfe, h.blocks f hf] at hblock
      simp at hblock
    have hloc : e.loc ∉ es.map Entry.loc := by
      intro hmem
      obtain ⟨f, hf, hfe⟩ := List.mem_map.mp hmem
      rw [← hfe, h.locators f hf] at hlocator
      simp at hlocator
    have habsent' : ∀ b, (e.key, some b) ∉
        ({ s with blocks := Function.update s.blocks e.block (some (e.object none)) } :
          Buffer P).storage e.type := by
      cases ht : e.type <;> rw [ht] at habsent <;> exact habsent
    obtain ⟨s', hs', hrep, hm, hl⟩ := (h.newBlock hfresh).addBlock hmax
      (Function.update_self _ _ _) hloc hfresh habsent'
    exact ⟨s', hs', hrep, hm, by rw [hl]; simp [Op.lockChange]⟩
  | findDataBlock param year month =>
    obtain ⟨s', hs', hrep, hm, hl⟩ := h.find .min10 (param, probe2time 0 year month)
    exact ⟨s', hs', hrep, hm, by rw [hl]; simp [Op.lockChange]⟩
  | findProbeBlock param startTime =>
    obtain ⟨s', hs', hrep, hm, hl⟩ := h.find .sec10 (param, startTime)
    exact ⟨s', hs', hrep, hm, by rw [hl]; simp [Op.lockChange]⟩
  | markAsUsed b =>
    obtain ⟨s', hs', hrep, hm, hl⟩ := h.used_block (h.mem_held.mp hop)
    exact ⟨s', hs', hrep, hm, by rw [hl]; simp [Op.lockChange]⟩
  | deleteBlock b =>
    obtain ⟨s', hs', hrep, hm, hl⟩ := h.delete_block (h.mem_held.mp hop)
    exact ⟨s', hs', hrep, hm, by rw [hl]; simp [Op.lockChange]⟩
  | clearParamFromCache param =>
    have hcount := h.count
    have hlen := List.length_filter_le (fun e : Entry P => decide (e.param = param)) es
    obtain ⟨s', hs', hrep, hm, hl⟩ := h.clearParam param s.blocksC.toNat (by omega)
    exact ⟨s', hs', hrep, hm, by rw [hl]; simp [Op.lockChange]⟩
  | reset =>
    obtain ⟨s', hs', hrep, hm, hl⟩ := h.reset
    exact ⟨s', hs', hrep, hm, by rw [hl]; simp [Op.lockChange]⟩
  | lock => exact ⟨s.lock, rfl, h.setLocked _, rfl, rfl⟩
  | unlock =>
    have hpos : 0 < s.locked := hop
    simp only [exec, unlock, entriesAfter]
    rw [if_neg (by omega)]
    -- the last unlock evicts what is too much
    by_cases hone : s.locked = 1
    · rw [if_neg (by omega), if_pos hone]
      obtain ⟨s', hs', hrep, hm, hl⟩ := (h.setLocked (s.locked - 1)).evictAll hmax (by simp)
      exact ⟨s', hs', hrep, hm, hl⟩
    · rw [if_pos (by omega), if_neg hone]
      exact ⟨_, rfl, h.setLocked _, rfl, rfl⟩
  | rehash type m =>
    refine ⟨_, rfl, h.setStorage ((h.stored type).perm hop), ?_⟩
    cases type <;> exact ⟨rfl, by simp [setStorage, Op.lockChange]⟩

/-! ## Consistency -/

def paramOf (s : Buffer P) (l : ℕ) : Option P := do
  let b ← s.locators l
  let block ← s.blocks b
  some block.param

/-- The locators `ls`, from the newest block to the oldest one, are those of the blocks held. -/
structure Consistent (s : Buffer P) (ls : List ℕ) : Prop where
  older : Follows s.older s.newestBlock ls
  newer : Follows s.newer s.oldestBlock ls.reverse
  nodup : ls.Nodup
  blocks : (ls.map s.locators).Perm (s.held.map some)
  keys : ∀ type k b, (k, some b) ∈ s.storage type →
    ∃ block, s.blocks b = some block ∧ block.type = type ∧ block.key = k
  count : s.blocksC = s.held.length
  chains : ∀ p, ∃ ys, Follows s.nextSameParam (s.paramindex p) ys ∧
    Linked s.nextSameParam s.prevSameParam ys ∧ ∀ l, l ∈ ys ↔ l ∈ ls ∧ s.paramOf l = some p
  bound : s.locked = 0 → s.blocksC ≤ s.maxBlocks

omit [DecidableEq P] in
theorem Stored.values_nodup {m : Storage P} {type : BlockType} (h : Stored m type es)
    (hnodup : (es.map Entry.block).Nodup) : (m.filterMap Prod.snd).Nodup := by
  refine List.pairwise_filterMap.mpr ((List.Nodup.of_map _ h.keys).imp_of_mem ?_)
  rintro ⟨k, v⟩ ⟨k', v'⟩ hx hx' hne b hb b' hb' rfl
  dsimp only at hb hb'
  subst hb hb'
  obtain ⟨e, he, -, rfl, heb⟩ := (h.mem k b).mp hx
  obtain ⟨f, hf, -, rfl, hfb⟩ := (h.mem k' b).mp hx'
  obtain rfl := List.inj_on_of_nodup_map hnodup he hf (heb.trans hfb.symm)
  exact hne rfl

theorem Rep.held_perm (h : s.Rep es none) : s.held.Perm (es.map Entry.block) := by
  refine (List.perm_ext_iff_of_nodup ?_ h.nodup).mpr fun b => h.mem_held
  refine List.nodup_append.mpr ⟨h.data.values_nodup h.nodup, h.probe.values_nodup h.nodup, ?_⟩
  rintro b hb b' hb' rfl
  obtain ⟨⟨k, v⟩, hkv, rfl⟩ := List.mem_filterMap.mp hb
  obtain ⟨⟨k', v'⟩, hkv', rfl⟩ := List.mem_filterMap.mp hb'
  obtain ⟨e, he, hte, -, heb⟩ := (h.data.mem k b).mp hkv
  obtain ⟨f, hf, htf, -, hfb⟩ := (h.probe.mem k' b).mp hkv'
  obtain rfl := h.block_inj he hf (heb.trans hfb.symm)
  rw [hte] at htf
  exact absurd htf (by decide)

theorem Rep.paramOf (h : s.Rep es none) {e : Entry P} (he : e ∈ es) :
    s.paramOf e.loc = some e.param := by
  simp only [Buffer.paramOf, h.locators e he, h.blocks e he, Option.bind_eq_bind,
    Option.bind_some]
  rfl

theorem Rep.consistent (h : s.Rep es none) (hmax : 1 ≤ s.maxBlocks)
    (hbound : s.locked = 0 → es.length ≤ s.maxBlocks.toNat) :
    s.Consistent (es.map Entry.loc) := by
  have hheld := h.held_perm
  refine ⟨?_, ?_, h.usage.linked.nodup, ?_, fun type k b hkb => ?_, ?_, fun p => ?_, fun hl => ?_⟩
  · rw [h.usage.newest]
    exact h.usage.linked.follows
  · rw [h.usage.oldest, ← List.head?_reverse]
    exact h.usage.linked.reverse.follows
  · have hmap : (es.map Entry.loc).map s.locators = (es.map Entry.block).map some := by
      rw [List.map_map, List.map_map]
      exact List.map_congr_left fun e he => h.locators e he
    rw [hmap]
    exact (hheld.symm).map some
  · obtain ⟨e, he, ht, hk, rfl⟩ := ((h.stored type).mem k b).mp hkb
    exact ⟨_, h.blocks e he, ht, hk⟩
  · rw [h.count, hheld.length_eq, List.length_map]
  · obtain ⟨ys, hchain, hperm⟩ := h.chains p
    refine ⟨ys, ?_, hchain.linked, fun l => ?_⟩
    · rw [hchain.index]
      exact hchain.linked.follows
    · rw [mem_chain hperm, List.mem_map]
      constructor
      · rintro ⟨e, he, hp, rfl⟩
        exact ⟨⟨e, he, rfl⟩, by rw [h.paramOf he, hp]⟩
      · rintro ⟨⟨e, he, rfl⟩, hp⟩
        rw [h.paramOf he, Option.some.injEq] at hp
        exact ⟨e, he, hp, rfl⟩
  · have hlen := hbound hl
    have hcount := h.count
    omega

end Buffer

/-! ## Traced runs -/

/-- A buffer and a record of when each block was added or used last. -/
structure Traced (P : Type) where
  buffer : Buffer P
  clock : ℕ
  lastUse : ℕ → ℕ

namespace Traced

variable {P : Type} [DecidableEq P]

def init (size : ℤ) : Traced P := ⟨Buffer.empty size, 0, fun _ => 0⟩

/-- The record after a block was added or used. -/
def useNow (t : Traced P) (used : Option ℕ) : ℕ → ℕ :=
  match used with
  | some b => Function.update t.lastUse b t.clock
  | none => t.lastUse

def step (t : Traced P) (op : Op P) : Option (Traced P) :=
  (t.buffer.exec op).map fun s => ⟨s, t.clock + 1, t.useNow (t.buffer.usedBlock op)⟩

/-- The blocks that adding a block or unlocking evicts were used before all that are left. -/
def EvictsOldest (t : Traced P) (op : Op P) (t' : Traced P) : Prop :=
  (∃ e, op = .addBlock e) ∨ op = .unlock →
    ∀ b, b ∈ t.buffer.held ∨ t.buffer.usedBlock op = some b → b ∉ t'.buffer.held →
      ∀ c ∈ t'.buffer.held, t'.lastUse b < t'.lastUse c

/-- No operation of the run fails, every state is consistent, and evictions take the least
recently used blocks. -/
def SafeRun (t : Traced P) (ops : List (Op P)) : Prop :=
  Run.SafeRun step (fun t => ∃ ls, t.buffer.Consistent ls) EvictsOldest t ops

def LegalRun (t : Traced P) (ops : List (Op P)) : Prop :=
  Run.LegalRun step (fun t op => t.buffer.Legal op) t ops

end Traced

/-! ## The order of the last uses -/

section Ordered

variable {P : Type}

/-- The list is in the order of the last uses `u`, which were before `now`. -/
def Ordered (u : ℕ → ℕ) (now : ℕ) (es : List (Entry P)) : Prop :=
  (es.Pairwise fun e f => u f.block < u e.block) ∧ ∀ e ∈ es, u e.block < now

variable {u : ℕ → ℕ} {now : ℕ} {es fs : List (Entry P)}

theorem Ordered.sublist (h : Ordered u now es) (hsub : fs.Sublist es) : Ordered u now fs :=
  ⟨h.1.sublist hsub, fun e he => h.2 e (hsub.subset he)⟩

theorem Ordered.later (h : Ordered u now es) : Ordered u (now + 1) es :=
  ⟨h.1, fun e he => (h.2 e he).trans (Nat.lt_succ_self now)⟩

theorem Ordered.use (h : Ordered u now es) {e : Entry P} (he : e.block ∉ es.map Entry.block) :
    Ordered (Function.update u e.block now) (now + 1) (e :: es) := by
  have hother : ∀ f ∈ es, Function.update u e.block now f.block = u f.block := by
    intro f hf
    apply Function.update_of_ne
    exact fun heq => he (heq ▸ List.mem_map_of_mem hf)
  have hself : Function.update u e.block now e.block = now := Function.update_self ..
  constructor
  · rw [List.pairwise_cons]
    constructor
    · intro f hf
      rw [hother f hf, hself]
      exact h.2 f hf
    · apply h.1.imp_of_mem
      intro f g hf hg hlt
      rw [hother f hf, hother g hg]
      exact hlt
  · intro f hf
    rcases List.mem_cons.mp hf with rfl | hf
    · rw [hself]
      exact Nat.lt_succ_self now
    · rw [hother f hf]
      exact (h.2 f hf).trans (Nat.lt_succ_self now)

theorem Ordered.moveFront (h : Ordered u now es) (hnodup : (es.map Entry.block).Nodup) {b : ℕ}
    (hb : b ∈ es.map Entry.block) :
    Ordered (Function.update u b now) (now + 1) (Buffer.moveFront b es) := by
  obtain ⟨e, he, rfl⟩ := List.mem_map.mp hb
  obtain ⟨a, c, rfl⟩ := List.append_of_mem he
  rw [Buffer.moveFront_eq hnodup]
  rw [List.map_append, List.map_cons, List.nodup_middle, ← List.map_append, List.nodup_cons]
    at hnodup
  apply Ordered.use _ hnodup.1
  exact h.sublist ((List.Sublist.refl a).append (List.sublist_cons_self e c))

theorem Ordered.evicted (h : Ordered u now es) (n : ℕ) {b c : ℕ} (hb : b ∈ es.map Entry.block)
    (hgone : b ∉ (es.take n).map Entry.block) (hc : c ∈ (es.take n).map Entry.block) :
    u b < u c := by
  have hsorted := h.1
  rw [← List.take_append_drop n es, List.pairwise_append] at hsorted
  rw [← List.take_append_drop n es, List.map_append, List.mem_append] at hb
  obtain ⟨e, he, rfl⟩ := List.mem_map.mp (hb.resolve_left hgone)
  obtain ⟨f, hf, rfl⟩ := List.mem_map.mp hc
  exact hsorted.2.2 f hf e he

end Ordered

/-! ## Runs -/

namespace Traced

variable {P : Type} [DecidableEq P] {t : Traced P} {es : List (Entry P)} {op : Op P}

structure Inv (t : Traced P) (es : List (Entry P)) : Prop where
  rep : t.buffer.Rep es none
  max_pos : 1 ≤ t.buffer.maxBlocks
  locked_nonneg : 0 ≤ t.buffer.locked
  bound : t.buffer.locked = 0 → es.length ≤ t.buffer.maxBlocks.toNat
  ordered : Ordered t.lastUse t.clock es

theorem inv_init {size : ℤ} (hsize : 1 ≤ size) : (init size : Traced P).Inv [] :=
  ⟨Buffer.rep_empty size, hsize, le_rfl, fun _ => Nat.zero_le _, List.Pairwise.nil, by simp⟩

theorem Inv.fresh (h : t.Inv es) {e : Entry P} (hop : t.buffer.Legal (.addBlock e)) :
    e.block ∉ es.map Entry.block := by
  intro hmem
  obtain ⟨f, hf, hfe⟩ := List.mem_map.mp hmem
  have hblock := hop.1
  rw [← hfe, h.rep.blocks f hf] at hblock
  simp at hblock

theorem Inv.ordered_find (h : t.Inv es) {found : Option ℕ}
    (hfound : ∀ b, found = some b → b ∈ t.buffer.held) :
    Ordered (t.useNow found) (t.clock + 1) (Buffer.afterFind found es) := by
  cases found with
  | none => exact h.ordered.later
  | some b => exact h.ordered.moveFront h.rep.nodup (h.rep.mem_held.mp (hfound b rfl))

theorem Inv.held_of_find (h : t.Inv es) {type : BlockType} {k : BufferKey P} {b : ℕ}
    (hb : ((t.buffer.storage type).find k).1 = some b) : b ∈ t.buffer.held := by
  rw [h.rep.mem_held]
  have hmem := (((h.rep.stored type).find k).2 b).mp hb
  obtain ⟨e, he, -, -, hblock⟩ := ((h.rep.stored type).mem k b).mp hmem
  exact List.mem_map.mpr ⟨e, he, hblock⟩

theorem Inv.ordered_step (h : t.Inv es) (hop : t.buffer.Legal op) :
    Ordered (t.useNow (t.buffer.usedBlock op)) (t.clock + 1) (t.buffer.entriesAfter es op) := by
  cases op with
  | addBlock e =>
    have huse := h.ordered.use (h.fresh hop)
    simp only [Buffer.entriesAfter]
    split
    · exact huse.sublist (List.take_sublist _ _)
    · exact huse
  | findDataBlock param year month =>
    exact h.ordered_find fun b hb => h.held_of_find (show ((t.buffer.storage .min10).find _).1 = _
      from hb)
  | findProbeBlock param startTime =>
    exact h.ordered_find fun b hb => h.held_of_find (show ((t.buffer.storage .sec10).find _).1 = _
      from hb)
  | markAsUsed b =>
    apply h.ordered_find
    rintro c ⟨⟩
    exact hop
  | deleteBlock b => exact h.ordered.later.sublist List.filter_sublist
  | clearParamFromCache param => exact h.ordered.later.sublist List.filter_sublist
  | reset => exact h.ordered.later.sublist (List.nil_sublist es)
  | lock => exact h.ordered.later
  | unlock =>
    simp only [Buffer.entriesAfter]
    split
    · exact h.ordered.later.sublist (List.take_sublist _ _)
    · exact h.ordered.later
  | rehash type m => exact h.ordered.later

omit [DecidableEq P] in
theorem length_moveFront (b : ℕ) (es : List (Entry P)) :
    (Buffer.moveFront b es).length = es.length := by
  have hlen := List.length_eq_length_filter_add (fun e : Entry P => decide (e.block = b)) (l := es)
  simp only [Buffer.moveFront, List.length_append, ne_eq, decide_not]
  exact hlen.symm

/-- Without a lock there are at most `max_blocks` blocks. -/
theorem Inv.bound_step (h : t.Inv es) (hop : t.buffer.Legal op)
    (hlocked : t.buffer.locked + op.lockChange = 0) :
    (t.buffer.entriesAfter es op).length ≤ t.buffer.maxBlocks.toNat := by
  have hfind : ∀ found, t.buffer.locked = 0 →
      (Buffer.afterFind found es).length ≤ t.buffer.maxBlocks.toNat := by
    intro found hzero
    cases found with
    | none => exact h.bound hzero
    | some b =>
      rw [Buffer.afterFind, length_moveFront]
      exact h.bound hzero
  have hnonneg := h.locked_nonneg
  cases op with
  | addBlock e =>
    simp only [Buffer.entriesAfter]
    rw [if_pos (by simpa [Op.lockChange] using hlocked), List.length_take]
    exact min_le_left _ _
  | findDataBlock param year month => exact hfind _ (by simpa [Op.lockChange] using hlocked)
  | findProbeBlock param startTime => exact hfind _ (by simpa [Op.lockChange] using hlocked)
  | markAsUsed b => exact hfind (some b) (by simpa [Op.lockChange] using hlocked)
  | deleteBlock b =>
    exact (List.length_filter_le _ es).trans (h.bound (by simpa [Op.lockChange] using hlocked))
  | clearParamFromCache param =>
    exact (List.length_filter_le _ es).trans (h.bound (by simpa [Op.lockChange] using hlocked))
  | reset => exact Nat.zero_le _
  | lock =>
    simp only [Op.lockChange] at hlocked
    omega
  | unlock =>
    simp only [Op.lockChange] at hlocked
    simp only [Buffer.entriesAfter]
    rw [if_pos (by omega), List.length_take]
    exact min_le_left _ _
  | rehash type m => exact hfind none (by simpa [Op.lockChange] using hlocked)

theorem Inv.evictsOldest (h : t.Inv es) (hop : t.buffer.Legal op) {t' : Traced P}
    (hrep : t'.buffer.Rep (t.buffer.entriesAfter es op) none)
    (huse : t'.lastUse = t.useNow (t.buffer.usedBlock op)) : t.EvictsOldest op t' := by
  intro hkind b hb hgone c hc
  rw [hrep.mem_held] at hgone hc
  rw [h.rep.mem_held] at hb
  rcases hkind with ⟨e, rfl⟩ | rfl
  · have hordered := h.ordered.use (h.fresh hop)
    have hb' : b ∈ (e :: es).map Entry.block := by
      rw [List.map_cons, List.mem_cons]
      rcases hb with hb | hb
      · exact Or.inr hb
      · exact Or.inl (Option.some.inj hb).symm
    simp only [Buffer.entriesAfter] at hgone hc
    rw [huse]
    split at hgone
    next hzero =>
      rw [if_pos hzero] at hc
      exact hordered.evicted _ hb' hgone hc
    next => exact absurd hb' hgone
  · have hb' : b ∈ es.map Entry.block := hb.resolve_right (by simp [Buffer.usedBlock])
    simp only [Buffer.entriesAfter] at hgone hc
    rw [huse]
    split at hgone
    next hone =>
      rw [if_pos hone] at hc
      exact h.ordered.evicted _ hb' hgone hc
    next => exact absurd hb' hgone

theorem Inv.step (h : t.Inv es) (hop : t.buffer.Legal op) :
    ∃ t', t.step op = some t' ∧ t'.Inv (t.buffer.entriesAfter es op) ∧ t.EvictsOldest op t' := by
  obtain ⟨s', hexec, hrep, hmax, hlocked⟩ := Buffer.exec_spec h.rep h.max_pos hop
  refine ⟨⟨s', t.clock + 1, t.useNow (t.buffer.usedBlock op)⟩, ?_, ⟨hrep, ?_, ?_, ?_, ?_⟩, ?_⟩
  · rw [Traced.step, hexec]
    rfl
  · rw [hmax]
    exact h.max_pos
  · have hnonneg := h.locked_nonneg
    rw [hlocked]
    cases op with
    | unlock =>
      have hpos : 0 < t.buffer.locked := hop
      simp only [Op.lockChange]
      omega
    | _ =>
      simp only [Op.lockChange]
      omega
  · intro hzero
    rw [hlocked] at hzero
    rw [hmax]
    exact h.bound_step hop hzero
  · exact h.ordered_step hop
  · exact h.evictsOldest hop hrep rfl

/-- From an empty buffer, every run of legal calls is safe. -/
theorem run_safe {size : ℤ} (hsize : 1 ≤ size) (ops : List (Op P))
    (hlegal : (init size).LegalRun ops) : (init size).SafeRun ops := by
  unfold LegalRun at hlegal
  unfold SafeRun
  apply Run.safeRun_of_inv (fun t : Traced P => ∃ es, t.Inv es) _ _ ⟨[], inv_init hsize⟩ hlegal
  · rintro t op ⟨es, hinv⟩ hop
    obtain ⟨t', hstep, hinv', hevicts⟩ := hinv.step hop
    exact ⟨t', hstep, hevicts, _, hinv'⟩
  · rintro t ⟨es, hinv⟩
    exact ⟨_, hinv.rep.consistent hinv.max_pos hinv.bound⟩

/-- A block is added under a lock and evicts the one that was there when the lock is released. -/
theorem run_safe_evicting : (init 1 : Traced ℕ).SafeRun
    [.addBlock ⟨10, 20, .min10, 0, 0⟩, .lock, .addBlock ⟨11, 21, .sec10, 0, 10⟩, .unlock] := by
  apply run_safe (by decide)
  refine ⟨⟨rfl, rfl, fun b hb => nomatch hb⟩, fun t₁ h₁ => ?_⟩
  obtain rfl := Option.some.inj h₁
  refine ⟨trivial, fun t₂ h₂ => ?_⟩
  obtain rfl := Option.some.inj h₂
  refine ⟨⟨rfl, rfl, fun b hb => nomatch hb⟩, fun t₃ h₃ => ?_⟩
  obtain rfl := Option.some.inj h₃
  refine ⟨Int.zero_lt_one, fun _ _ => trivial⟩

end Traced

end Szbase
end Szarp
