import Szarp.Lib.Intervals
import Szarp.Lib.Run
import Szarp.Szbase.AvgProbe
import Szarp.Szbase.Buffer

/-!
# Block lists of the execution engine

`ExecutionEngine` of `loptcalculate.cc` keeps the blocks that a parameter has read so far in one
list for each block type and each parameter that the script refers to, with an iterator into it.
-/

namespace Szarp
namespace Szbase

structure ListEntry (β : Type) where
  startTime : ℤ
  endTime : ℤ
  block : β

/-- A list with its iterator, which points at the head of `after`.  The entries in front of it
are in `before`, the nearest one first. -/
structure BlockList (β : Type) where
  before : List (ListEntry β)
  after : List (ListEntry β)

/-- What a search leaves and returns, and whether `szb_get_block` was called for it. -/
structure Found (β : Type) where
  list : BlockList β
  block : β
  asked : Bool

def entryStart : BlockType → ℤ → ℤ
  | .min10, t => probe2time 0 (szbTime2my t).1 (szbTime2my t).2
  | .sec10, t => szbRoundToProbeBlockStart t

def entryEnd : BlockType → ℤ → ℤ
  | .min10, t =>
    entryStart .min10 t + dataSpan * szbProbecnt (szbTime2my t).1 (szbTime2my t).2
  | .sec10, t => entryStart .sec10 t + probeSpan * probesPerBlock

variable {β : Type}

def ListEntry.Holds (e : ListEntry β) (t : ℤ) : Prop := e.startTime ≤ t ∧ t < e.endTime

instance (e : ListEntry β) (t : ℤ) : Decidable (e.Holds t) := inferInstanceAs (Decidable (_ ∧ _))

/-- `fetched` is what `szb_get_block` returns. -/
def getBlockEntry (fetched : β) (t : ℤ) (bt : BlockType) : ListEntry β :=
  ⟨entryStart bt t, entryEnd bt t, fetched⟩

namespace BlockList

def blocks (s : BlockList β) : List (ListEntry β) := s.before.reverse ++ s.after

/-- The entry goes in front of the iterator, which then points at it. -/
def addBlock (le : ListEntry β) (before after : List (ListEntry β)) : Found β :=
  ⟨⟨before, le :: after⟩, le.block, true⟩

/-- `SearchBlockLeft`, with the iterator between the two lists. -/
def searchBlockLeft (le : ListEntry β) (t : ℤ) :
    List (ListEntry β) → List (ListEntry β) → Found β
  | [], after => addBlock le [] after
  | e :: before, after =>
    if e.endTime ≤ t then addBlock le (e :: before) after
    else if e.startTime ≤ t then ⟨⟨before, e :: after⟩, e.block, false⟩
    else searchBlockLeft le t before (e :: after)

/-- `SearchBlockRight`, with the iterator behind `before`. -/
def searchBlockRight (le : ListEntry β) (t : ℤ) :
    List (ListEntry β) → List (ListEntry β) → Found β
  | before, [] => addBlock le before []
  | before, e :: after =>
    if e.startTime > t then addBlock le before (e :: after)
    else if e.endTime > t then ⟨⟨before, e :: after⟩, e.block, false⟩
    else searchBlockRight le t (e :: before) after

/-- `none`: the iterator points at no entry. -/
def getBlock (s : BlockList β) (time : ℤ) (bt : BlockType) (fetched : β) : Option (Found β) :=
  if s.blocks.length ≠ 0 then
    match s.after with
    | [] => none
    | e :: after =>
      if e.Holds time then some ⟨s, e.block, false⟩
      else if e.startTime > time then
        some (searchBlockLeft (getBlockEntry fetched time bt) time s.before (e :: after))
      else some (searchBlockRight (getBlockEntry fetched time bt) time (e :: s.before) after)
  else some (addBlock (getBlockEntry fetched time bt) [] [])

end BlockList

abbrev ExecutionEngine (β : Type) := BlockType × ℕ → BlockList β

namespace ExecutionEngine

/-- A call of `GetBlock`; `fetched` is what `szb_get_block` returns if it is called. -/
structure Call (β : Type) where
  paramIndex : ℕ
  time : ℤ
  type : BlockType
  fetched : β

def Call.key (c : Call β) : BlockType × ℕ := (c.type, c.paramIndex)

def Call.entry (c : Call β) : ListEntry β := getBlockEntry c.fetched c.time c.type

def new : ExecutionEngine β := fun _ => ⟨[], []⟩

def getBlock (s : ExecutionEngine β) (c : Call β) : Option (ExecutionEngine β × β × Bool) :=
  (BlockList.getBlock (s c.key) c.time c.type c.fetched).map fun f =>
    (Function.update s c.key f.list, f.block, f.asked)

end ExecutionEngine

/-! ## The intervals of the entries -/

/-- The times that lie in the interval of their own entry. -/
def Regular : BlockType → ℤ → Prop
  | .min10, t => minYear ≤ (szbTime2my t).1 ∧ (szbTime2my t).1 ≤ maxYear
  | .sec10, t => 0 ≤ t ∨ (18000 : ℤ) ∣ t

instance (bt : BlockType) (t : ℤ) : Decidable (Regular bt t) := by
  cases bt <;> unfold Regular <;> infer_instance

theorem entryStart_min10 (t : ℤ) :
    entryStart .min10 t = monthStart (szbTime2my t).1 (szbTime2my t).2 := by
  obtain ⟨hm, hm'⟩ := szbTime2my_month t
  rw [entryStart, probe2time_eq 0 _ hm hm']
  simp

theorem entryEnd_min10 {t : ℤ} (h : Regular .min10 t) :
    entryEnd .min10 t = monthStart (nextMonth (szbTime2my t).1 (szbTime2my t).2).1
      (nextMonth (szbTime2my t).1 (szbTime2my t).2).2 := by
  obtain ⟨hm, hm'⟩ := szbTime2my_month t
  have hnext := probe2time_next_month h.1 h.2 hm hm'
  rw [probe2time_eq 0 _ (nextMonth_mem hm').1 (nextMonth_mem hm').2] at hnext
  simpa [entryEnd, entryStart, dataSpan] using hnext

theorem entryEnd_min10_of_not {t : ℤ} (h : ¬ Regular .min10 t) :
    entryEnd .min10 t = entryStart .min10 t := by
  have hyear : (szbTime2my t).1 < minYear ∨ (szbTime2my t).1 > maxYear := by
    by_contra hno
    rw [not_or, not_lt, gt_iff_lt, not_lt] at hno
    exact h hno
  rw [entryEnd, szbProbecnt, if_pos hyear, mul_zero, add_zero]

theorem cells_min10 : Intervals.Cells (entryStart .min10) (entryEnd .min10) (Regular .min10) where
  inside t := by
    constructor
    · intro h
      rw [entryEnd_min10 h, entryStart_min10]
      exact ⟨monthStart_le t, lt_monthStart_nextMonth t⟩
    · rintro ⟨hstart, hend⟩
      by_contra h
      rw [entryEnd_min10_of_not h] at hend
      exact absurd (hstart.trans_lt hend) (lt_irrefl _)
  start t h := by
    obtain ⟨hm, hm'⟩ := szbTime2my_month t
    have hmonth := szbTime2my_monthStart (szbTime2my t).1 hm hm'
    rw [← entryStart_min10] at hmonth
    change minYear ≤ (szbTime2my (entryStart .min10 t)).1 ∧ _ ≤ maxYear
    rw [hmonth]
    exact h
  same t u ht hu hstart hend := by
    obtain ⟨hm, hm'⟩ := szbTime2my_month t
    rw [entryEnd_min10 ht] at hend
    rw [entryStart_min10] at hstart
    have hmonth := szbTime2my_of_mem hm hm' hstart hend
    rw [entryEnd_min10 hu, entryEnd_min10 ht, entryStart_min10, entryStart_min10, hmonth]
    exact ⟨rfl, rfl⟩

theorem entryStart_sec10 {t : ℤ} (h : Regular .sec10 t) : entryStart .sec10 t = t - t % 18000 := by
  have hdef : entryStart .sec10 t = t - t.tmod 18000 := rfl
  rw [hdef]
  rcases h with h | h
  · rw [Int.tmod_eq_emod_of_nonneg h]
  · rw [Int.tmod_eq_zero_of_dvd h, Int.emod_eq_zero_of_dvd h]

/-- A negative time is rounded up. -/
theorem lt_entryStart_sec10 {t : ℤ} (h : ¬ Regular .sec10 t) : t < entryStart .sec10 t := by
  have hdef : entryStart .sec10 t = t - t.tmod 18000 := rfl
  obtain ⟨hneg, hdvd⟩ := not_or.mp h
  have hmod : (-t).tmod 18000 = -t % 18000 := Int.tmod_eq_emod_of_nonneg (by omega)
  rw [Int.neg_tmod] at hmod
  rw [hdef]
  omega

theorem entryEnd_sec10 (t : ℤ) : entryEnd .sec10 t = entryStart .sec10 t + 18000 := rfl

theorem cells_sec10 : Intervals.Cells (entryStart .sec10) (entryEnd .sec10) (Regular .sec10) where
  inside t := by
    rw [entryEnd_sec10]
    by_cases h : Regular .sec10 t
    · rw [entryStart_sec10 h]
      exact iff_of_true h (by omega)
    · have := lt_entryStart_sec10 h
      exact iff_of_false h (by omega)
  start t h := by
    rw [entryStart_sec10 h]
    exact .inr (by omega)
  same t u ht hu hstart hend := by
    rw [entryEnd_sec10] at *
    rw [entryEnd_sec10, entryStart_sec10 ht, entryStart_sec10 hu] at *
    omega

theorem cells (bt : BlockType) : Intervals.Cells (entryStart bt) (entryEnd bt) (Regular bt) :=
  match bt with
  | .min10 => cells_min10
  | .sec10 => cells_sec10

/-! ## Searches -/

/-- The intervals of a list of entries are sorted and disjoint. -/
abbrev SortedEntries (l : List (ListEntry β)) : Prop :=
  Intervals.Sorted ListEntry.startTime ListEntry.endTime l

namespace BlockList

/-- A search stops at an entry that holds the time, or adds one behind everything that ends before
the time and in front of everything that starts after it. -/
inductive Searched (le : ListEntry β) (t : ℤ) (entries : List (ListEntry β)) : Found β → Prop where
  | hit (before after : List (ListEntry β)) (e : ListEntry β)
      (hlist : before.reverse ++ e :: after = entries) (he : e.Holds t) :
      Searched le t entries ⟨⟨before, e :: after⟩, e.block, false⟩
  | added (before after : List (ListEntry β)) (hlist : before.reverse ++ after = entries)
      (hbefore : ∀ e ∈ before, e.endTime ≤ t) (hafter : ∀ e ∈ after, t < e.startTime) :
      Searched le t entries (addBlock le before after)

theorem searchBlockLeft_searched (le : ListEntry β) {t : ℤ} (before after : List (ListEntry β))
    (hs : SortedEntries (before.reverse ++ after)) (hafter : ∀ e ∈ after, t < e.startTime) :
    Searched le t (before.reverse ++ after) (searchBlockLeft le t before after) := by
  induction before generalizing after with
  | nil => exact .added [] after rfl (fun _ he => absurd he List.not_mem_nil) hafter
  | cons e before ih =>
    have hlist : (e :: before).reverse ++ after = before.reverse ++ e :: after := by
      rw [List.reverse_cons, List.append_assoc, List.singleton_append]
    rw [searchBlockLeft]
    split_ifs with hend hstart
    · refine .added (e :: before) after rfl (fun a ha => ?_) hafter
      rcases List.mem_cons.mp ha with rfl | ha
      · exact hend
      · -- the entries further on the left end before `e` starts
        rw [hlist] at hs
        exact (hs.left (List.mem_reverse.mpr ha)).trans (hs.lt.le.trans hend)
    · rw [hlist]
      exact .hit before after e rfl ⟨hstart, not_le.mp hend⟩
    · rw [hlist] at hs ⊢
      exact ih (e :: after) hs (List.forall_mem_cons.mpr ⟨not_le.mp hstart, hafter⟩)

theorem searchBlockRight_searched (le : ListEntry β) {t : ℤ} (before after : List (ListEntry β))
    (hs : SortedEntries (before.reverse ++ after)) (hbefore : ∀ e ∈ before, e.endTime ≤ t) :
    Searched le t (before.reverse ++ after) (searchBlockRight le t before after) := by
  induction after generalizing before with
  | nil => exact .added before [] rfl hbefore fun _ he => absurd he List.not_mem_nil
  | cons e after ih =>
    rw [searchBlockRight]
    split_ifs with hstart hend
    · refine .added before (e :: after) rfl hbefore (fun a ha => ?_)
      rcases List.mem_cons.mp ha with rfl | ha
      · exact hstart
      · exact hstart.trans (hs.lt.trans_le (hs.right ha))
    · exact .hit before after e rfl ⟨not_lt.mp hstart, hend⟩
    · have hlist : before.reverse ++ e :: after = (e :: before).reverse ++ after := by
        rw [List.reverse_cons, List.append_assoc, List.singleton_append]
      rw [hlist] at hs ⊢
      exact ih (e :: before) hs (List.forall_mem_cons.mpr ⟨not_lt.mp hend, hbefore⟩)

/-- `GetBlock` on a sorted list whose iterator points at an entry. -/
theorem getBlock_searched {s : BlockList β} (time : ℤ) (bt : BlockType) (fetched : β)
    (hs : SortedEntries s.blocks) (hpoints : s.blocks ≠ [] → s.after ≠ []) :
    ∃ f, s.getBlock time bt fetched = some f ∧
      Searched (getBlockEntry fetched time bt) time s.blocks f := by
  obtain ⟨before, after⟩ := s
  unfold getBlock
  by_cases hempty : (BlockList.mk before after).blocks = []
  · rw [hempty, List.length_nil, if_neg (not_not.mpr rfl)]
    refine ⟨_, rfl, .added [] [] rfl ?_ ?_⟩ <;> exact fun _ he => absurd he List.not_mem_nil
  · rw [if_pos (by rw [ne_eq, List.length_eq_zero_iff]; exact hempty)]
    cases after with
    | nil => exact absurd rfl (hpoints hempty)
    | cons e after =>
      have hs' : SortedEntries (before.reverse ++ e :: after) := hs
      dsimp only
      split_ifs with hhit hleft
      · exact ⟨_, rfl, .hit before after e rfl hhit⟩
      · refine ⟨_, rfl, searchBlockLeft_searched _ before (e :: after) hs ?_⟩
        refine List.forall_mem_cons.mpr ⟨hleft, fun a ha => ?_⟩
        exact hleft.trans (hs'.lt.trans_le (hs'.right ha))
      · have hend : e.endTime ≤ time := by
          by_contra hlt
          exact hhit ⟨not_lt.mp hleft, not_le.mp hlt⟩
        have hlist : (BlockList.mk before (e :: after)).blocks = (e :: before).reverse ++ after := by
          rw [blocks, List.reverse_cons, List.append_assoc, List.singleton_append]
        refine ⟨_, rfl, ?_⟩
        rw [hlist] at hs ⊢
        refine searchBlockRight_searched _ (e :: before) after hs ?_
        refine List.forall_mem_cons.mpr ⟨hend, fun a ha => ?_⟩
        exact (hs'.left (List.mem_reverse.mpr ha)).trans (hs'.lt.le.trans hend)

/-! ### Lists in any order -/

/-- A search returns the block of an old entry that holds the time and adds nothing, or it returns
the block of its own entry and adds that. -/
structure Extends (le : ListEntry β) (t : ℤ) (entries : List (ListEntry β)) (f : Found β) :
    Prop where
  mem : ∀ e ∈ f.list.blocks, e ∈ entries ∨ f.asked = true ∧ e = le
  found : (f.asked = false ∧ ∃ e ∈ entries, e.Holds t ∧ f.block = e.block) ∨
    f.asked = true ∧ f.block = le.block
  points : f.list.after ≠ []

theorem extends_addBlock (le : ListEntry β) (t : ℤ) (before after : List (ListEntry β)) :
    Extends le t (before.reverse ++ after) (addBlock le before after) := by
  refine ⟨?_, .inr ⟨rfl, rfl⟩, List.cons_ne_nil le after⟩
  intro e he
  rcases List.mem_append.mp he with he | he
  · exact .inl (List.mem_append_left _ he)
  · rcases List.mem_cons.mp he with rfl | he
    · exact .inr ⟨rfl, rfl⟩
    · exact .inl (List.mem_append_right _ he)

theorem extends_hit (le : ListEntry β) {t : ℤ} (before after : List (ListEntry β))
    {e : ListEntry β} (he : e.Holds t) :
    Extends le t (before.reverse ++ e :: after) ⟨⟨before, e :: after⟩, e.block, false⟩ :=
  ⟨fun _ he' => .inl he', .inl ⟨rfl, e, List.mem_append_right _ List.mem_cons_self, he, rfl⟩,
    List.cons_ne_nil e after⟩

theorem extends_searchBlockLeft (le : ListEntry β) (t : ℤ) (before after : List (ListEntry β)) :
    Extends le t (before.reverse ++ after) (searchBlockLeft le t before after) := by
  induction before generalizing after with
  | nil => exact extends_addBlock le t [] after
  | cons e before ih =>
    have hlist : (e :: before).reverse ++ after = before.reverse ++ e :: after := by
      rw [List.reverse_cons, List.append_assoc, List.singleton_append]
    rw [searchBlockLeft]
    split_ifs with hend hstart
    · exact extends_addBlock le t (e :: before) after
    · rw [hlist]
      exact extends_hit le before after ⟨hstart, not_le.mp hend⟩
    · rw [hlist]
      exact ih (e :: after)

theorem extends_searchBlockRight (le : ListEntry β) (t : ℤ) (before after : List (ListEntry β)) :
    Extends le t (before.reverse ++ after) (searchBlockRight le t before after) := by
  induction after generalizing before with
  | nil => exact extends_addBlock le t before []
  | cons e after ih =>
    have hlist : before.reverse ++ e :: after = (e :: before).reverse ++ after := by
      rw [List.reverse_cons, List.append_assoc, List.singleton_append]
    rw [searchBlockRight]
    split_ifs with hstart hend
    · exact extends_addBlock le t before (e :: after)
    · exact extends_hit le before after ⟨not_lt.mp hstart, hend⟩
    · rw [hlist]
      exact ih (e :: before)

theorem extends_getBlock {s : BlockList β} {time : ℤ} {bt : BlockType} {fetched : β} {f : Found β}
    (h : s.getBlock time bt fetched = some f) :
    Extends (getBlockEntry fetched time bt) time s.blocks f := by
  obtain ⟨before, after⟩ := s
  rw [getBlock] at h
  split_ifs at h with hempty
  · cases after with
    | nil => exact absurd h (by simp)
    | cons e after =>
      have hlist : (BlockList.mk before (e :: after)).blocks = (e :: before).reverse ++ after := by
        rw [blocks, List.reverse_cons, List.append_assoc, List.singleton_append]
      dsimp only at h
      split_ifs at h with hhit
      · cases h
        exact extends_hit _ before after hhit
      · cases h
        exact extends_searchBlockLeft _ time before (e :: after)
      · cases h
        rw [hlist]
        exact extends_searchBlockRight _ time (e :: before) after
  · cases h
    refine ⟨fun e he => .inr ⟨rfl, ?_⟩, .inr ⟨rfl, rfl⟩, List.cons_ne_nil _ _⟩
    simpa [addBlock, blocks] using he

theorem getBlock_isSome {s : BlockList β} (hpoints : s.blocks ≠ [] → s.after ≠ []) (time : ℤ)
    (bt : BlockType) (fetched : β) : ∃ f, s.getBlock time bt fetched = some f := by
  obtain ⟨before, after⟩ := s
  rw [getBlock]
  split_ifs with hempty
  · cases after with
    | nil =>
      rw [ne_eq, List.length_eq_zero_iff] at hempty
      exact absurd rfl (hpoints hempty)
    | cons e after =>
      dsimp only
      split_ifs <;> exact ⟨_, rfl⟩
  · exact ⟨_, rfl⟩

end BlockList

end Szbase
end Szarp
