import Szarp.Szbase.BufferLinks

/-!
# The block cache as a list

The abstract view of the cache is a list of the blocks it holds, from the one used last to the
one used least recently.  Every operation of the buffer is an operation of that list.
-/

namespace Szarp
namespace Szbase

/-- A block that is held, with the addresses of the locator and the block. -/
structure Entry (P : Type) where
  loc : ℕ
  block : ℕ
  type : BlockType
  param : P
  startTime : ℤ

namespace Entry

variable {P : Type}

def key (e : Entry P) : BufferKey P := (e.param, e.startTime)

def object (e : Entry P) (locator : Option ℕ) : Block P := ⟨e.type, e.param, e.startTime, locator⟩

end Entry

namespace Buffer

open Dll

variable {P : Type} [DecidableEq P] {s : Buffer P} {es : List (Entry P)}

/-- The objects and links of a buffer that holds `es`; `pending` is a locator that its block does
not know yet. -/
structure Core (s : Buffer P) (es : List (Entry P)) (pending : Option ℕ) : Prop where
  usage : s.Usage (es.map Entry.loc)
  chains : ∀ p, ∃ ys, s.Chain p ys ∧ ys.Perm ((es.filter fun e => e.param = p).map Entry.loc)
  locators : ∀ e ∈ es, s.locators e.loc = some e.block
  blocks : ∀ e ∈ es, s.blocks e.block =
    some (e.object (if pending = some e.loc then none else some e.loc))
  nodup : (es.map Entry.block).Nodup
  count : s.blocksC = es.length

theorem Core.loc_inj {pending : Option ℕ} (h : s.Core es pending) {e f : Entry P} (he : e ∈ es)
    (hf : f ∈ es) (heq : e.loc = f.loc) : e = f :=
  List.inj_on_of_nodup_map h.usage.linked.nodup he hf heq

theorem Core.block_inj {pending : Option ℕ} (h : s.Core es pending) {e f : Entry P} (he : e ∈ es)
    (hf : f ∈ es) (heq : e.block = f.block) : e = f :=
  List.inj_on_of_nodup_map h.nodup he hf heq

theorem mem_chain {ys : List ℕ} {p : P}
    (h : ys.Perm ((es.filter fun e => e.param = p).map Entry.loc)) {y : ℕ} :
    y ∈ ys ↔ ∃ e ∈ es, e.param = p ∧ e.loc = y := by
  rw [h.mem_iff]
  simp [and_assoc]

/-- The lists of two parameters have nothing in common. -/
theorem Core.chains_disjoint {pending : Option ℕ} (h : s.Core es pending) {p q : P} (hpq : p ≠ q)
    {ys zs : List ℕ} (hy : ys.Perm ((es.filter fun e => e.param = p).map Entry.loc))
    (hz : zs.Perm ((es.filter fun e => e.param = q).map Entry.loc)) {x : ℕ} (hx : x ∈ ys) :
    x ∉ zs := by
  intro hx'
  obtain ⟨e, he, rfl, rfl⟩ := (mem_chain hy).mp hx
  obtain ⟨f, hf, rfl, hloc⟩ := (mem_chain hz).mp hx'
  exact hpq (by rw [h.loc_inj hf he hloc])

/-- What deleting a locator leaves. -/
def withoutLocator (s : Buffer P) (e : Entry P) (a c : List (Entry P)) (y z : List ℕ) : Buffer P :=
  { s with
    blocksC := s.blocksC - 1
    paramindex := Function.update s.paramindex e.param (y ++ z).head?
    nextSameParam := Dll.set s.nextSameParam y.getLast? z.head?
    prevSameParam := Dll.set s.prevSameParam z.head? y.getLast?
    newestBlock := (a.map Entry.loc ++ c.map Entry.loc).head?
    oldestBlock := (a.map Entry.loc ++ c.map Entry.loc).getLast?
    older := Dll.set s.older (a.map Entry.loc).getLast? (c.map Entry.loc).head?
    newer := Dll.set s.newer (c.map Entry.loc).head? (a.map Entry.loc).getLast?
    locators := Function.update s.locators e.loc none }

theorem Core.deleteLocator {pending : Option ℕ} {a c : List (Entry P)} {e : Entry P}
    (h : s.Core (a ++ e :: c) pending) {y z : List ℕ} (hc : s.Chain e.param (y ++ e.loc :: z)) :
    s.deleteLocator e.loc = some (withoutLocator s e a c y z) := by
  have hmem : e ∈ a ++ e :: c := by simp
  have husage := h.usage
  rw [List.map_append, List.map_cons] at husage
  have hchain' : Chain { s with blocksC := s.blocksC - 1 } e.param (y ++ e.loc :: z) :=
    ⟨hc.linked, hc.index, hc.live⟩
  have husage' : Usage { s with
      blocksC := s.blocksC - 1
      paramindex := Function.update s.paramindex e.param (y ++ z).head?
      nextSameParam := Dll.set s.nextSameParam y.getLast? z.head?
      prevSameParam := Dll.set s.prevSameParam z.head? y.getLast? }
      (a.map Entry.loc ++ e.loc :: c.map Entry.loc) :=
    ⟨husage.linked, husage.newest, husage.oldest, husage.live⟩
  simp only [Buffer.deleteLocator, h.locators e hmem, h.blocks e hmem, Entry.object,
    Option.bind_eq_bind, Option.bind_some, hchain'.unlink, husage'.unlink]
  rfl

theorem Core.withoutLocator {pending : Option ℕ} {a c : List (Entry P)} {e : Entry P}
    (h : s.Core (a ++ e :: c) pending) {y z : List ℕ} (hc : s.Chain e.param (y ++ e.loc :: z))
    (hperm : (y ++ e.loc :: z).Perm
      (((a ++ e :: c).filter fun f => f.param = e.param).map Entry.loc)) :
    Core { Buffer.withoutLocator s e a c y z with
      blocks := Function.update s.blocks e.block none } (a ++ c) pending := by
  have husage := h.usage
  rw [List.map_append, List.map_cons] at husage
  have hsub : ∀ f ∈ a ++ c, f ∈ a ++ e :: c := by
    intro f hf
    simp only [List.mem_append, List.mem_cons] at hf ⊢
    tauto
  have hnodup := h.nodup
  rw [List.map_append, List.map_cons, List.nodup_middle, ← List.map_append, List.nodup_cons] at hnodup
  have hne : ∀ f ∈ a ++ c, f ≠ e := by
    rintro f hf rfl
    exact hnodup.1 (List.mem_map_of_mem hf)
  have hloc : ∀ f ∈ a ++ c, f.loc ≠ e.loc :=
    fun f hf heq => hne f hf (h.loc_inj (hsub f hf) (by simp) heq)
  have hlive : ∀ f ∈ a ++ c, Function.update s.locators e.loc none f.loc = some f.block := by
    intro f hf
    rw [Function.update_of_ne (hloc f hf), h.locators f (hsub f hf)]
  refine ⟨⟨?_, ?_, ?_, ?_⟩, fun p => ?_, hlive, fun f hf => ?_, hnodup.2, ?_⟩
  · rw [List.map_append]
    exact husage.linked.remove
  · rw [List.map_append]
    rfl
  · rw [List.map_append]
    rfl
  · rintro x hx
    obtain ⟨f, hf, rfl⟩ := List.mem_map.mp hx
    change Function.update s.locators e.loc none f.loc ≠ none
    rw [hlive f hf]
    simp
  · by_cases hp : p = e.param
    · subst hp
      have hperm' : (y ++ z).Perm (((a ++ c).filter fun f => f.param = e.param).map Entry.loc) := by
        have hmiddle := List.perm_middle.symm.trans hperm
        rw [List.filter_append, List.filter_cons_of_pos (by simp), List.map_append,
          List.map_cons] at hmiddle
        rw [List.filter_append, List.map_append]
        exact (hmiddle.trans List.perm_middle).cons_inv
      refine ⟨y ++ z, ⟨hc.linked.remove, Function.update_self _ _ _, fun x hx => ?_⟩, hperm'⟩
      obtain ⟨f, hf, -, rfl⟩ := (mem_chain hperm').mp hx
      change Function.update s.locators e.loc none f.loc ≠ none
      rw [hlive f hf]
      simp
    · obtain ⟨ys, hys, hysperm⟩ := h.chains p
      have hysperm' : ys.Perm (((a ++ c).filter fun f => f.param = p).map Entry.loc) := by
        rw [List.filter_append, List.filter_cons_of_neg (by simpa using Ne.symm hp)] at hysperm
        rw [List.filter_append]
        exact hysperm
      -- the links that change are not in the list of `p`
      have hout : ∀ x ∈ ys, y.getLast? ≠ some x ∧ z.head? ≠ some x := by
        intro x hx
        have hnot := h.chains_disjoint hp hysperm hperm hx
        refine ⟨fun hh => hnot ?_, fun hh => hnot ?_⟩
        · exact List.mem_append_left _ (List.mem_of_getLast? hh)
        · exact List.mem_append_right _ (List.mem_cons_of_mem _
            (List.mem_of_mem_head? (by rw [hh]; rfl)))
      refine ⟨ys, ⟨hys.linked.congr (fun x hx => set_of_ne (hout x hx).1 _)
        (fun x hx => set_of_ne (hout x hx).2 _), ?_, fun x hx => ?_⟩, hysperm'⟩
      · exact (Function.update_of_ne hp _ _).trans hys.index
      · obtain ⟨f, hf, -, rfl⟩ := (mem_chain hysperm').mp hx
        change Function.update s.locators e.loc none f.loc ≠ none
        rw [hlive f hf]
        simp
  · have hblock : f.block ≠ e.block :=
      fun heq => hne f hf (h.block_inj (hsub f hf) (by simp) heq)
    exact (Function.update_of_ne hblock _ _).trans (h.blocks f (hsub f hf))
  · have hcount := h.count
    change s.blocksC - 1 = _
    rw [hcount]
    simp only [List.length_append, List.length_cons]
    push_cast
    ring

theorem Core.destroyBlock {pending : Option ℕ} {a c : List (Entry P)} {e : Entry P}
    (h : s.Core (a ++ e :: c) pending) (hp : pending ≠ some e.loc) :
    ∃ s', s.destroyBlock e.block = some s' ∧ s'.Core (a ++ c) pending ∧
      s'.datastorage = s.datastorage ∧ s'.probestorage = s.probestorage ∧
      s'.maxBlocks = s.maxBlocks ∧ s'.locked = s.locked := by
  obtain ⟨ys, hchain, hperm⟩ := h.chains e.param
  have hmem : e.loc ∈ ys := (mem_chain hperm).mpr ⟨e, by simp, rfl, rfl⟩
  obtain ⟨y, z, rfl⟩ := List.append_of_mem hmem
  refine ⟨_, ?_, h.withoutLocator hchain hperm, rfl, rfl, rfl, rfl⟩
  have hblock := h.blocks e (by simp)
  rw [if_neg hp] at hblock
  simp only [Buffer.destroyBlock, hblock, Entry.object, Option.bind_eq_bind, Option.bind_some,
    h.deleteLocator hchain]
  rfl

/-! ## The hash maps -/

/-- The blocks of one type are stored, each under its own key. -/
structure Stored (m : Storage P) (type : BlockType) (es : List (Entry P)) : Prop where
  keys : (m.map Prod.fst).Nodup
  mem : ∀ k b, (k, some b) ∈ m ↔ ∃ e ∈ es, e.type = type ∧ e.key = k ∧ e.block = b

variable {m : Storage P} {type : BlockType}

omit [DecidableEq P] in
theorem Stored.congr (h : Stored m type es) {fs : List (Entry P)}
    (hmem : ∀ e, e.type = type → (e ∈ fs ↔ e ∈ es)) : Stored m type fs := by
  refine ⟨h.keys, fun k b => (h.mem k b).trans ⟨?_, ?_⟩⟩
  · rintro ⟨e, he, ht, hk, hb⟩
    exact ⟨e, (hmem e ht).mpr he, ht, hk, hb⟩
  · rintro ⟨e, he, ht, hk, hb⟩
    exact ⟨e, (hmem e ht).mp he, ht, hk, hb⟩

omit [DecidableEq P] in
theorem Stored.perm (h : Stored m type es) {m' : Storage P} (hperm : m.Perm m') :
    Stored m' type es :=
  ⟨((hperm.map Prod.fst).nodup_iff).mp h.keys, fun k b => hperm.mem_iff.symm.trans (h.mem k b)⟩

omit [DecidableEq P] in
theorem Stored.value_unique (h : Stored m type es) {k : BufferKey P} {v w : Option ℕ}
    (hv : (k, v) ∈ m) (hw : (k, w) ∈ m) : v = w :=
  congrArg Prod.snd (List.inj_on_of_nodup_map h.keys hv hw rfl)

omit [DecidableEq P] in
theorem Stored.key_inj (h : Stored m type es) (hnodup : (es.map Entry.block).Nodup)
    {e f : Entry P} (he : e ∈ es) (hf : f ∈ es) (hte : e.type = type) (htf : f.type = type)
    (hkey : e.key = f.key) : e = f := by
  have hv := (h.mem e.key e.block).mpr ⟨e, he, hte, rfl, rfl⟩
  have hw := (h.mem e.key f.block).mpr ⟨f, hf, htf, hkey.symm, rfl⟩
  exact List.inj_on_of_nodup_map hnodup he hf (Option.some.inj (h.value_unique hv hw))

theorem keys_filter_nodup (h : (m.map Prod.fst).Nodup) (k : BufferKey P) :
    ((m.filter fun x => x.1 ≠ k).map Prod.fst).Nodup :=
  h.sublist (List.filter_sublist.map _)

theorem Stored.erase {a c : List (Entry P)} {e : Entry P} (h : Stored m type (a ++ e :: c))
    (hnodup : ((a ++ e :: c).map Entry.block).Nodup) (ht : e.type = type) :
    ∃ m', m.erase e.key = some m' ∧ Stored m' type (a ++ c) := by
  have hstored := (h.mem e.key e.block).mpr ⟨e, by simp, ht, rfl, rfl⟩
  refine ⟨_, if_pos (List.mem_map_of_mem hstored), keys_filter_nodup h.keys _, fun k b => ?_⟩
  rw [List.mem_filter, h.mem]
  constructor
  · rintro ⟨⟨f, hf, htf, rfl, rfl⟩, hne⟩
    have hne' : f ≠ e := by
      rintro rfl
      simp at hne
    refine ⟨f, ?_, htf, rfl, rfl⟩
    simp only [List.mem_append, List.mem_cons] at hf ⊢
    tauto
  · rintro ⟨f, hf, htf, rfl, rfl⟩
    have hf' : f ∈ a ++ e :: c := by
      simp only [List.mem_append, List.mem_cons] at hf ⊢
      tauto
    refine ⟨⟨f, hf', htf, rfl, rfl⟩, ?_⟩
    simp only [ne_eq, decide_not, Bool.not_eq_true', decide_eq_false_iff_not]
    intro hkey
    obtain rfl := h.key_inj hnodup hf' (by simp) htf ht hkey
    rw [List.map_append, List.map_cons, List.nodup_middle, ← List.map_append,
      List.nodup_cons] at hnodup
    exact hnodup.1 (List.mem_map_of_mem hf)

theorem Stored.assign (h : Stored m type es) {e : Entry P} (ht : e.type = type)
    (habsent : ∀ b, (e.key, some b) ∉ m) :
    Stored (m.assign e.key (some e.block)) type (e :: es) := by
  refine ⟨?_, fun k b => ?_⟩
  · rw [Storage.assign, List.map_cons, List.nodup_cons]
    refine ⟨?_, keys_filter_nodup h.keys _⟩
    simp only [List.mem_map, List.mem_filter]
    rintro ⟨x, ⟨-, hne⟩, hx⟩
    simp [hx] at hne
  · rw [Storage.assign, List.mem_cons, List.mem_filter, h.mem]
    constructor
    · rintro (heq | ⟨⟨f, hf, htf, hk, hb⟩, -⟩)
      · rw [Prod.mk.injEq, Option.some.injEq] at heq
        exact ⟨e, by simp, ht, heq.1.symm, heq.2.symm⟩
      · exact ⟨f, by simp [hf], htf, hk, hb⟩
    · rintro ⟨f, hf, htf, rfl, rfl⟩
      rcases List.mem_cons.mp hf with rfl | hf
      · exact Or.inl rfl
      · have hin := (h.mem f.key f.block).mpr ⟨f, hf, htf, rfl, rfl⟩
        refine Or.inr ⟨⟨f, hf, htf, rfl, rfl⟩, ?_⟩
        simp only [ne_eq, decide_not, Bool.not_eq_true', decide_eq_false_iff_not]
        intro hkey
        rw [hkey] at hin
        exact habsent f.block hin

/-- A key that is looked up is stored afterwards, and no block is stored or removed by that. -/
theorem Stored.find (h : Stored m type es) (k : BufferKey P) :
    Stored (m.find k).2 type es ∧ ∀ b, (m.find k).1 = some b ↔ (k, some b) ∈ m := by
  rw [Storage.find]
  cases hlookup : m.lookup k with
  | none =>
    have hnot : ∀ v, (k, v) ∉ m := by
      intro v hv
      have hall := List.lookup_eq_none_iff.mp hlookup (k, v) hv
      simp at hall
    refine ⟨⟨?_, fun k' b => ?_⟩, fun b => ⟨fun hb => by simp at hb, fun hb => absurd hb (hnot _)⟩⟩
    · rw [List.map_cons, List.nodup_cons]
      refine ⟨fun hk => ?_, h.keys⟩
      obtain ⟨⟨k', v⟩, hv, rfl⟩ := List.mem_map.mp hk
      exact hnot v hv
    · rw [← h.mem k' b, List.mem_cons]
      simp
  | some v =>
    have hv : (k, v) ∈ m := by
      obtain ⟨l₁, l₂, hm, -⟩ := List.lookup_eq_some_iff.mp hlookup
      simp [hm]
    refine ⟨h, fun b => ⟨?_, fun hb => h.value_unique hv hb⟩⟩
    rintro rfl
    exact hv

/-! ## Buffers that hold a list of blocks -/

structure Rep (s : Buffer P) (es : List (Entry P)) (pending : Option ℕ) : Prop extends
    s.Core es pending where
  data : Stored s.datastorage .min10 es
  probe : Stored s.probestorage .sec10 es

theorem rep_empty (size : ℤ) : (empty size : Buffer P).Rep [] none where
  usage := ⟨linked_nil, rfl, rfl, by simp⟩
  chains p := ⟨[], ⟨linked_nil, rfl, by simp⟩, List.Perm.nil⟩
  locators := by simp
  blocks := by simp
  nodup := List.nodup_nil
  count := rfl
  data := ⟨List.nodup_nil, by simp [empty]⟩
  probe := ⟨List.nodup_nil, by simp [empty]⟩

theorem Core.setStorage {pending : Option ℕ} (h : s.Core es pending) (d p : Storage P) :
    Core { s with datastorage := d, probestorage := p } es pending :=
  ⟨⟨h.usage.linked, h.usage.newest, h.usage.oldest, h.usage.live⟩,
    fun q => (h.chains q).imp fun _ hys => ⟨⟨hys.1.linked, hys.1.index, hys.1.live⟩, hys.2⟩,
    h.locators, h.blocks, h.nodup, h.count⟩

omit [DecidableEq P] in
theorem Stored.skip {a c : List (Entry P)} {e : Entry P} (h : Stored m type (a ++ e :: c))
    (ht : e.type ≠ type) : Stored m type (a ++ c) := by
  refine h.congr fun f hf => ?_
  have hne : f ≠ e := fun heq => ht (heq ▸ hf)
  simp only [List.mem_append, List.mem_cons]
  tauto

theorem Rep.eraseKey {pending : Option ℕ} {a c : List (Entry P)} {e : Entry P}
    (h : s.Rep (a ++ e :: c) pending) :
    ∃ d p, s.eraseKey e.type e.key = some { s with datastorage := d, probestorage := p } ∧
      Stored d .min10 (a ++ c) ∧ Stored p .sec10 (a ++ c) := by
  cases ht : e.type with
  | min10 =>
    obtain ⟨d, hd, hstored⟩ := h.data.erase h.nodup ht
    refine ⟨d, s.probestorage, ?_, hstored, h.probe.skip (by rw [ht]; decide)⟩
    rw [Buffer.eraseKey, hd]
    rfl
  | sec10 =>
    obtain ⟨p, hp, hstored⟩ := h.probe.erase h.nodup ht
    refine ⟨s.datastorage, p, ?_, h.data.skip (by rw [ht]; decide), hstored⟩
    rw [Buffer.eraseKey, hp]
    rfl

theorem Rep.deleteBlock {pending : Option ℕ} {a c : List (Entry P)} {e : Entry P}
    (h : s.Rep (a ++ e :: c) pending) (hp : pending ≠ some e.loc) :
    ∃ s', s.deleteBlock e.block = some s' ∧ s'.Rep (a ++ c) pending ∧
      s'.maxBlocks = s.maxBlocks ∧ s'.locked = s.locked := by
  obtain ⟨d, p, herase, hd, hprobe⟩ := h.eraseKey
  obtain ⟨s', hs', hcore, hsd, hsp, hmax, hlocked⟩ := (h.toCore.setStorage d p).destroyBlock hp
  refine ⟨s', ?_, ⟨hcore, ?_, ?_⟩, hmax, hlocked⟩
  · have hkey : ∀ l, (e.object l).key = e.key := fun _ => rfl
    have htype : ∀ l, (e.object l).type = e.type := fun _ => rfl
    simp only [Buffer.deleteBlock, h.blocks e (by simp), hkey, htype, herase, Option.bind_eq_bind,
      Option.bind_some]
    exact hs'
  · rw [hsd]
    exact hd
  · rw [hsp]
    exact hprobe

/-- Blocks are evicted from the end of the list. -/
theorem Rep.evict {pending : Option ℕ} (n : ℕ) (h : s.Rep es pending) (hmax : 1 ≤ s.maxBlocks)
    (hn : es.length ≤ n + s.maxBlocks.toNat)
    (hp : ∀ l, pending = some l → es.head?.map Entry.loc = some l) :
    ∃ s', evict n s = some s' ∧ s'.Rep (es.take s.maxBlocks.toNat) pending ∧
      s'.maxBlocks = s.maxBlocks ∧ s'.locked = s.locked := by
  induction n generalizing s es with
  | zero =>
    have hcount := h.count
    rw [Buffer.evict, if_neg (by omega), List.take_of_length_le (by omega)]
    exact ⟨s, rfl, h, rfl, rfl⟩
  | succ n ih =>
    have hcount := h.count
    rw [Buffer.evict]
    by_cases hgt : s.blocksC > s.maxBlocks
    · rw [if_pos hgt]
      rcases List.eq_nil_or_concat es with rfl | ⟨init, e, rfl⟩
      · simp only [List.length_nil, Nat.cast_zero] at hcount
        omega
      rw [List.concat_eq_append] at *
      -- the block in the front stays, so the one that is deleted has its locator
      have hne : pending ≠ some e.loc := by
        intro heq
        have hhead := hp e.loc heq
        obtain ⟨f, init', rfl⟩ : ∃ f init', init = f :: init' := by
          refine List.exists_cons_of_ne_nil ?_
          rintro rfl
          simp only [List.nil_append, List.length_singleton, Nat.cast_one] at hcount
          omega
        have hloc := h.usage.linked.nodup
        simp only [List.cons_append, List.head?_cons, Option.map_some, Option.some.injEq] at hhead
        simp [hhead] at hloc
      obtain ⟨s₁, hdel, hrep, hm₁, hl₁⟩ := h.deleteBlock hne
      rw [List.append_nil] at hrep
      have holdest := h.usage.oldest
      rw [List.map_append, List.map_singleton, List.getLast?_concat] at holdest
      have hloc := h.locators e (by simp)
      simp only [List.length_append, List.length_singleton] at hn hcount
      push_cast at hcount
      obtain ⟨s₂, hev, hrep₂, hm₂, hl₂⟩ := ih hrep (by rw [hm₁]; exact hmax) (by rw [hm₁]; omega) (by
        intro l hl
        have hhead := hp l hl
        cases init with
        | nil =>
          simp only [List.length_nil, Nat.cast_zero] at hcount
          omega
        | cons f init => simpa using hhead)
      refine ⟨s₂, ?_, ?_, hm₂.trans hm₁, hl₂.trans hl₁⟩
      · simp only [holdest, hloc, hdel, Option.bind_eq_bind, Option.bind_some]
        exact hev
      · rw [hm₁] at hrep₂
        rw [List.take_append_of_le_length (by omega)]
        exact hrep₂
    · rw [if_neg hgt, List.take_of_length_le (by omega)]
      exact ⟨s, rfl, h, rfl, rfl⟩

theorem Rep.evictAll {pending : Option ℕ} (h : s.Rep es pending) (hmax : 1 ≤ s.maxBlocks)
    (hp : ∀ l, pending = some l → es.head?.map Entry.loc = some l) :
    ∃ s', s.evictAll = some s' ∧ s'.Rep (es.take s.maxBlocks.toNat) pending ∧
      s'.maxBlocks = s.maxBlocks ∧ s'.locked = s.locked := by
  have hcount := h.count
  exact h.evict _ hmax (by omega) hp

/-! ## Adding a block -/

/-- What the constructor of a locator leaves before it evicts blocks. -/
def withLocator (s : Buffer P) (e : Entry P) (xs ys : List ℕ) : Buffer P :=
  { s with
    locators := Function.update s.locators e.loc (some e.block)
    newestBlock := some e.loc
    oldestBlock := (e.loc :: xs).getLast?
    older := Dll.set (Dll.set s.older (some e.loc) none) (some e.loc) xs.head?
    newer := Dll.set (Dll.set s.newer (some e.loc) none) xs.head? (some e.loc)
    paramindex := Function.update s.paramindex e.param (some e.loc)
    nextSameParam := Dll.set (Dll.set s.nextSameParam (some e.loc) none) (some e.loc) ys.head?
    prevSameParam := Dll.set (Dll.set s.prevSameParam (some e.loc) none) ys.head? (some e.loc)
    blocksC := s.blocksC + 1 }

/-- Links do not change when a node that is not among them is written. -/
theorem linked_set {next prev : ℕ → Option ℕ} {xs : List ℕ} (h : Linked next prev xs) {x : ℕ}
    (hx : x ∉ xs) (v w : Option ℕ) : Linked (Dll.set next (some x) v) (Dll.set prev (some x) w) xs :=
  h.congr (fun y hy => set_of_ne (by rintro ⟨⟩; exact hx hy) v)
    (fun y hy => set_of_ne (by rintro ⟨⟩; exact hx hy) w)

omit [DecidableEq P] in
theorem update_locators_ne_none {x y : ℕ} (b : ℕ) (h : s.locators y ≠ none) :
    Function.update s.locators x (some b) y ≠ none := by
  by_cases hxy : y = x
  · rw [hxy, Function.update_self]
    simp
  · rw [Function.update_of_ne hxy]
    exact h

theorem newLocator_eq {e : Entry P} {xs ys : List ℕ} (hblock : s.blocks e.block = some (e.object none))
    (hx : s.Usage xs) (hy : s.Chain e.param ys) (hxs : e.loc ∉ xs) (hys : e.loc ∉ ys) :
    s.newLocator e.loc e.block =
      if s.locked = 0 then (withLocator s e xs ys).evictAll else some (withLocator s e xs ys) := by
  have husage : Usage { s with
      locators := Function.update s.locators e.loc (some e.block)
      newer := Dll.set s.newer (some e.loc) none
      older := Dll.set s.older (some e.loc) none
      nextSameParam := Dll.set s.nextSameParam (some e.loc) none
      prevSameParam := Dll.set s.prevSameParam (some e.loc) none } xs :=
    ⟨linked_set hx.linked hxs none none, hx.newest, hx.oldest,
      fun x h => update_locators_ne_none e.block (hx.live x h)⟩
  have hlive : Function.update s.locators e.loc (some e.block) e.loc ≠ none := by
    rw [Function.update_self]
    simp
  have hchain : Chain { s with
      locators := Function.update s.locators e.loc (some e.block)
      newestBlock := some e.loc
      oldestBlock := (e.loc :: xs).getLast?
      older := Dll.set (Dll.set s.older (some e.loc) none) (some e.loc) xs.head?
      newer := Dll.set (Dll.set s.newer (some e.loc) none) xs.head? (some e.loc)
      nextSameParam := Dll.set s.nextSameParam (some e.loc) none
      prevSameParam := Dll.set s.prevSameParam (some e.loc) none } e.param ys :=
    ⟨linked_set hy.linked hys none none, hy.index,
      fun y h => update_locators_ne_none e.block (hy.live y h)⟩
  simp only [newLocator, hblock, Entry.object, Option.bind_eq_bind, Option.bind_some,
    husage.link hlive (set_self _ _ _), hchain.link hlive (set_self _ _ _)]
  rfl

theorem Core.withLocator (h : s.Core es none) {e : Entry P}
    (hblock : s.blocks e.block = some (e.object none)) (hloc : e.loc ∉ es.map Entry.loc)
    (hfresh : e.block ∉ es.map Entry.block) {ys : List ℕ} (hy : s.Chain e.param ys)
    (hperm : ys.Perm ((es.filter fun f => f.param = e.param).map Entry.loc)) :
    Core (Buffer.withLocator s e (es.map Entry.loc) ys) (e :: es) (some e.loc) := by
  have hys : e.loc ∉ ys := by
    intro hmem
    obtain ⟨f, hf, -, hfe⟩ := (mem_chain hperm).mp hmem
    exact hloc (hfe ▸ List.mem_map_of_mem hf)
  have hne : ∀ f ∈ es, f.loc ≠ e.loc := fun f hf heq => hloc (heq ▸ List.mem_map_of_mem hf)
  have hlive : ∀ f ∈ e :: es,
      Function.update s.locators e.loc (some e.block) f.loc = some f.block := by
    intro f hf
    rcases List.mem_cons.mp hf with rfl | hf
    · exact Function.update_self _ _ _
    · rw [Function.update_of_ne (hne f hf), h.locators f hf]
  refine ⟨⟨?_, rfl, rfl, ?_⟩, fun p => ?_, hlive, fun f hf => ?_, ?_, ?_⟩
  -- the list of use, with the new locator in front
  · exact (linked_set h.usage.linked hloc none none).cons hloc (set_self _ _ _)
  · rintro x hx
    obtain ⟨f, hf, rfl⟩ := List.mem_map.mp hx
    change Function.update s.locators e.loc (some e.block) f.loc ≠ none
    rw [hlive f hf]
    simp
  -- the list of its own parameter, and the others, with which it has no locator in common
  · by_cases hp : p = e.param
    · subst hp
      refine ⟨e.loc :: ys, ⟨?_, Function.update_self _ _ _, fun x hx => ?_⟩, ?_⟩
      · exact (linked_set hy.linked hys none none).cons hys (set_self _ _ _)
      · rcases List.mem_cons.mp hx with rfl | hx
        · change Function.update s.locators e.loc (some e.block) e.loc ≠ none
          rw [Function.update_self]
          simp
        · exact update_locators_ne_none e.block (hy.live x hx)
      · rw [List.filter_cons_of_pos (by simp), List.map_cons]
        exact hperm.cons _
    · obtain ⟨zs, hzs, hzperm⟩ := h.chains p
      have hez : e.loc ∉ zs := by
        intro hmem
        obtain ⟨f, hf, -, hfe⟩ := (mem_chain hzperm).mp hmem
        exact hne f hf hfe
      have hout : ∀ x ∈ zs, ys.head? ≠ some x := fun x hx hh =>
        h.chains_disjoint hp hzperm hperm hx (List.mem_of_mem_head? (by rw [hh]; rfl))
      refine ⟨zs, ⟨?_, ?_, fun x hx => update_locators_ne_none e.block (hzs.live x hx)⟩, ?_⟩
      · exact (linked_set hzs.linked hez none none).congr
          (fun x hx => set_of_ne (by rintro ⟨⟩; exact hez hx) _)
          (fun x hx => set_of_ne (hout x hx) _)
      · exact (Function.update_of_ne hp _ _).trans hzs.index
      · rw [List.filter_cons_of_neg (by simpa using Ne.symm hp)]
        exact hzperm
  -- the new block does not know its locator yet
  · rcases List.mem_cons.mp hf with rfl | hf
    · rw [if_pos rfl]
      exact hblock
    · have hblocks := h.blocks f hf
      rw [if_neg (by simp)] at hblocks
      rw [if_neg (by simpa using Ne.symm (hne f hf))]
      exact hblocks
  · exact List.nodup_cons.mpr ⟨hfresh, h.nodup⟩
  · change s.blocksC + 1 = _
    rw [h.count, List.length_cons]
    push_cast
    rfl

omit [DecidableEq P] in
theorem Stored.extend (h : Stored m type es) {e : Entry P} (ht : e.type ≠ type) :
    Stored m type (e :: es) := by
  refine h.congr fun f hf => ?_
  have hne : f ≠ e := fun heq => ht (heq ▸ hf)
  simp [hne]

theorem store_eq (h : s.Rep es none) {e : Entry P}
    (habsent : ∀ b, (e.key, some b) ∉ s.storage e.type) :
    ∃ d p, s.store e.type e.key e.block = { s with datastorage := d, probestorage := p } ∧
      Stored d .min10 (e :: es) ∧ Stored p .sec10 (e :: es) := by
  cases ht : e.type with
  | min10 =>
    rw [ht] at habsent
    exact ⟨_, s.probestorage, rfl, h.data.assign ht habsent, h.probe.extend (by rw [ht]; decide)⟩
  | sec10 =>
    rw [ht] at habsent
    exact ⟨s.datastorage, _, rfl, h.data.extend (by rw [ht]; decide), h.probe.assign ht habsent⟩

theorem Rep.setLocator {e : Entry P} (h : s.Rep (e :: es) (some e.loc)) :
    Rep { s with blocks := Function.update s.blocks e.block (some (e.object (some e.loc))) }
      (e :: es) none := by
  refine ⟨⟨⟨h.usage.linked, h.usage.newest, h.usage.oldest, h.usage.live⟩,
    fun q => (h.chains q).imp fun _ hys => ⟨⟨hys.1.linked, hys.1.index, hys.1.live⟩, hys.2⟩,
    h.locators, fun f hf => ?_, h.nodup, h.count⟩, h.data, h.probe⟩
  rw [if_neg (by simp)]
  by_cases hfe : f = e
  · rw [hfe]
    exact Function.update_self _ _ _
  · have hblock : f.block ≠ e.block := fun heq => hfe (h.block_inj hf (by simp) heq)
    have hloc : f.loc ≠ e.loc := fun heq => hfe (h.loc_inj hf (by simp) heq)
    have hblocks := h.blocks f hf
    rw [if_neg (by simpa using Ne.symm hloc)] at hblocks
    exact (Function.update_of_ne hblock _ _).trans hblocks

theorem Rep.newBlock (h : s.Rep es none) {e : Entry P} (hfresh : e.block ∉ es.map Entry.block) :
    Rep { s with blocks := Function.update s.blocks e.block (some (e.object none)) } es none := by
  refine ⟨⟨⟨h.usage.linked, h.usage.newest, h.usage.oldest, h.usage.live⟩,
    fun q => (h.chains q).imp fun _ hys => ⟨⟨hys.1.linked, hys.1.index, hys.1.live⟩, hys.2⟩,
    h.locators, fun f hf => ?_, h.nodup, h.count⟩, h.data, h.probe⟩
  have hblock : f.block ≠ e.block := fun heq => hfresh (heq ▸ List.mem_map_of_mem hf)
  exact (Function.update_of_ne hblock _ _).trans (h.blocks f hf)

theorem Rep.addBlock (h : s.Rep es none) (hmax : 1 ≤ s.maxBlocks) {e : Entry P}
    (hblock : s.blocks e.block = some (e.object none)) (hloc : e.loc ∉ es.map Entry.loc)
    (hfresh : e.block ∉ es.map Entry.block)
    (habsent : ∀ b, (e.key, some b) ∉ s.storage e.type) :
    ∃ s', s.addBlock e.block e.loc = some s' ∧
      s'.Rep (if s.locked = 0 then (e :: es).take s.maxBlocks.toNat else e :: es) none ∧
      s'.maxBlocks = s.maxBlocks ∧ s'.locked = s.locked := by
  obtain ⟨d, p, hstore, hd, hprobe⟩ := store_eq h habsent
  have hcore := h.toCore.setStorage d p
  obtain ⟨ys, hchain, hperm⟩ := hcore.chains e.param
  have hys : e.loc ∉ ys := by
    intro hmem
    obtain ⟨f, hf, -, hfe⟩ := (mem_chain hperm).mp hmem
    exact hloc (hfe ▸ List.mem_map_of_mem hf)
  have hnew := newLocator_eq (s := { s with datastorage := d, probestorage := p }) hblock
    hcore.usage hchain hloc hys
  have hrep : Rep (Buffer.withLocator { s with datastorage := d, probestorage := p } e
      (es.map Entry.loc) ys) (e :: es) (some e.loc) :=
    ⟨hcore.withLocator hblock hloc hfresh hchain hperm, hd, hprobe⟩
  -- the new block is the first of what is left after the eviction
  obtain ⟨s₁, hs₁, rest, hrest, hrep₁, hmax₁, hlocked₁⟩ : ∃ s₁,
      (Buffer.newLocator { s with datastorage := d, probestorage := p } e.loc e.block = some s₁) ∧
      ∃ rest, (if s.locked = 0 then (e :: es).take s.maxBlocks.toNat else e :: es) = e :: rest ∧
        s₁.Rep (e :: rest) (some e.loc) ∧ s₁.maxBlocks = s.maxBlocks ∧ s₁.locked = s.locked := by
    rw [hnew]
    by_cases hlocked : s.locked = 0
    · obtain ⟨s₁, hs₁, hrep₁, hm₁, hl₁⟩ := hrep.evictAll hmax (by simp)
      have htake : (e :: es).take s.maxBlocks.toNat = e :: es.take (s.maxBlocks.toNat - 1) := by
        rw [show s.maxBlocks.toNat = s.maxBlocks.toNat - 1 + 1 by omega, List.take_succ_cons]
        rfl
      change s₁.Rep ((e :: es).take s.maxBlocks.toNat) _ at hrep₁
      rw [htake] at hrep₁
      rw [if_pos hlocked, if_pos hlocked]
      exact ⟨s₁, hs₁, _, htake, hrep₁, hm₁, hl₁⟩
    · rw [if_neg hlocked, if_neg hlocked]
      exact ⟨_, rfl, es, rfl, hrep, rfl, rfl⟩
  have hblock₁ := hrep₁.blocks e (by simp)
  rw [if_pos rfl] at hblock₁
  have hkey : (e.object none).key = e.key := rfl
  have htype : (e.object none).type = e.type := rfl
  rw [hrest]
  refine ⟨_, ?_, hrep₁.setLocator, hmax₁, hlocked₁⟩
  simp only [Buffer.addBlock, hblock, hkey, htype, hstore, hs₁, hblock₁, Option.bind_eq_bind,
    Option.bind_some]
  rfl

/-! ## Using a block -/

theorem Rep.markAsUsed {a c : List (Entry P)} {e : Entry P} (h : s.Rep (a ++ e :: c) none) :
    ∃ s', s.markAsUsed e.block = some s' ∧ s'.Rep (e :: (a ++ c)) none ∧
      s'.maxBlocks = s.maxBlocks ∧ s'.locked = s.locked := by
  have hblock := h.blocks e (by simp)
  rw [if_neg (by simp)] at hblock
  have hmark : s.markAsUsed e.block = s.used e.loc := by
    simp only [Buffer.markAsUsed, hblock, Entry.object, Option.bind_eq_bind, Option.bind_some]
  have husage := h.usage
  rw [List.map_append, List.map_cons] at husage
  rw [hmark]
  rcases eq_or_ne a [] with rfl | ha
  · exact ⟨s, husage.used_newest, h, rfl, rfl⟩
  have hmem : ∀ g, g ∈ e :: (a ++ c) ↔ g ∈ a ++ e :: c := by
    intro g
    simp only [List.mem_append, List.mem_cons]
    tauto
  have hperm : (a ++ e :: c).Perm (e :: (a ++ c)) := List.perm_middle
  have hloc : e.loc ∉ (a ++ c).map Entry.loc := by
    have hnodup := (hperm.map Entry.loc).nodup_iff.mp h.usage.linked.nodup
    rw [List.map_cons, List.nodup_cons] at hnodup
    exact hnodup.1
  refine ⟨_, husage.used_other (by simpa using ha), ⟨⟨⟨?_, rfl, ?_, ?_⟩, fun p => ?_, ?_, ?_, ?_, ?_⟩,
    h.data.congr fun g _ => hmem g, h.probe.congr fun g _ => hmem g⟩, rfl, rfl⟩
  · have hremoved := husage.linked.remove
    rw [← List.map_append] at hremoved
    have hself : Linked (Dll.set s.older (a.map Entry.loc).getLast? (c.map Entry.loc).head?)
        (Dll.set (Dll.set s.newer (c.map Entry.loc).head? (a.map Entry.loc).getLast?)
          (some e.loc) none) ((a ++ c).map Entry.loc) :=
      hremoved.congr (fun _ _ => rfl) (fun x hx => set_of_ne (by rintro ⟨⟩; exact hloc hx) _)
    have hcons := hself.cons hloc (set_self _ _ _)
    rw [List.map_append] at hcons
    rw [List.map_cons, List.map_append]
    exact hcons
  · rw [List.map_cons, List.map_append]
  · rintro x hx
    obtain ⟨g, hg, rfl⟩ := List.mem_map.mp hx
    exact h.usage.live g.loc (List.mem_map_of_mem ((hmem g).mp hg))
  · obtain ⟨ys, hchain, hys⟩ := h.chains p
    exact ⟨ys, ⟨hchain.linked, hchain.index, hchain.live⟩,
      hys.trans ((hperm.filter _).map _)⟩
  · exact fun g hg => h.locators g ((hmem g).mp hg)
  · exact fun g hg => h.blocks g ((hmem g).mp hg)
  · exact (hperm.map Entry.block).nodup_iff.mp h.nodup
  · have hcount := h.count
    rw [hperm.length_eq] at hcount
    exact hcount

end Buffer
end Szbase
end Szarp
