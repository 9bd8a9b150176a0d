import Szarp.Szbase.ExecutionEngine

/-!
# Calls on one engine

What holds of the block lists after any sequence of calls of `GetBlock`.
-/

namespace Szarp
namespace Szbase
namespace ExecutionEngine

open Run BlockList

variable {β : Type}

/-- An engine with the calls that it has served, and with those that needed `szb_get_block`. -/
structure Watched (β : Type) where
  engine : ExecutionEngine β
  served : List (Call β × β)
  requests : List (Call β)

namespace Watched

def new : Watched β := ⟨ExecutionEngine.new, [], []⟩

def step (w : Watched β) (c : Call β) : Option (Watched β) :=
  (w.engine.getBlock c).map fun (engine, block, asked) =>
    ⟨engine, w.served ++ [(c, block)], if asked then w.requests ++ [c] else w.requests⟩

def list (w : Watched β) (key : BlockType × ℕ) : List (ListEntry β) := (w.engine key).blocks

/-- The lists are sorted, the iterators point into them, every call has returned the block of the
entry whose interval holds its time, and no interval was requested twice. -/
structure Good (w : Watched β) : Prop where
  sorted : ∀ key, SortedEntries (w.list key)
  points : ∀ key, w.list key ≠ [] → (w.engine key).after ≠ []
  served : ∀ c b, (c, b) ∈ w.served → ∃ e ∈ w.list c.key, e.Holds c.time ∧ e.block = b
  once : ∀ key, ∀ e ∈ w.list key,
    w.requests.countP (fun c => c.key = key ∧ e.Holds c.time) ≤ 1

/-- The entries are those of the requests. -/
structure Requested (w : Watched β) : Prop where
  perm : ∀ key, (w.list key).Perm ((w.requests.filter fun c => c.key = key).map Call.entry)
  regular : ∀ c ∈ w.requests, Regular c.type c.time
  calls : ∀ c ∈ w.requests, c ∈ w.served.map Prod.fst

end Watched

/-- The time lies in the interval that is computed from it, or in that of an earlier call of which
this is true. -/
def Covered (earlier : List (Call β)) (c : Call β) : Prop :=
  Regular c.type c.time ∨
    ∃ c' ∈ earlier, c'.key = c.key ∧ Regular c'.type c'.time ∧ c'.entry.Holds c.time

def CoveredRun : List (Call β) → List (Call β) → Prop
  | _, [] => True
  | earlier, c :: calls => Covered earlier c ∧ CoveredRun (earlier ++ [c]) calls

theorem Call.holds_self {c : Call β} : c.entry.Holds c.time ↔ Regular c.type c.time :=
  ((cells c.type).inside c.time).symm

/-- Entries of one list whose times lie in them are the same interval or apart. -/
theorem Call.entry_apart {c c' : Call β} (hkey : c'.key = c.key) (h : Regular c.type c.time)
    (h' : Regular c'.type c'.time) :
    (c'.entry.startTime = c.entry.startTime ∧ c'.entry.endTime = c.entry.endTime) ∨
      c.entry.endTime ≤ c'.entry.startTime ∨ c'.entry.endTime ≤ c.entry.startTime := by
  have htype : c'.type = c.type := congrArg Prod.fst hkey
  have hentry : c'.entry = getBlockEntry c'.fetched c'.time c.type := by rw [Call.entry, htype]
  rw [htype] at h'
  rw [hentry]
  exact (cells c.type).apart h h'

namespace Watched

variable {w t : Watched β} {c : Call β}

theorem good_new : (new : Watched β).Good where
  sorted _ := Intervals.sorted_nil
  points _ h := absurd rfl h
  served _ _ h := absurd h List.not_mem_nil
  once _ _ h := absurd h List.not_mem_nil

theorem requested_new : (new : Watched β).Requested where
  perm _ := .nil
  regular _ h := absurd h List.not_mem_nil
  calls _ h := absurd h List.not_mem_nil

theorem list_of_update {engine : ExecutionEngine β} {f : BlockList β} {served : List (Call β × β)}
    {requests : List (Call β)} (key key' : BlockType × ℕ) :
    (Watched.mk (Function.update engine key f) served requests).list key' =
      if key' = key then f.blocks else (engine key').blocks := by
  by_cases h : key' = key
  · subst h
    rw [if_pos rfl]
    exact congrArg blocks (Function.update_self _ _ _)
  · rw [if_neg h]
    exact congrArg blocks (Function.update_of_ne h _ _)

theorem points_of_update {engine : ExecutionEngine β} {before after : List (ListEntry β)}
    {e : ListEntry β} (hpoints : ∀ key, (engine key).blocks ≠ [] → (engine key).after ≠ [])
    (key key' : BlockType × ℕ) :
    (Function.update engine key ⟨before, e :: after⟩ key').blocks ≠ [] →
      (Function.update engine key ⟨before, e :: after⟩ key').after ≠ [] := by
  by_cases h : key' = key
  · rw [h, Function.update_self]
    exact fun _ => List.cons_ne_nil e after
  · rw [Function.update_of_ne h]
    exact hpoints key'

/-- What a call does to good lists. -/
theorem step_searched (hgood : w.Good) (c : Call β) :
    ∃ f, Searched c.entry c.time (w.list c.key) f ∧
      w.step c = some ⟨Function.update w.engine c.key f.list, w.served ++ [(c, f.block)],
        if f.asked then w.requests ++ [c] else w.requests⟩ := by
  obtain ⟨f, hf, hsearched⟩ :=
    getBlock_searched c.time c.type c.fetched (hgood.sorted c.key) (hgood.points c.key)
  refine ⟨f, hsearched, ?_⟩
  rw [step, getBlock, hf]
  rfl

theorem Requested.mem (h : w.Requested) {key : BlockType × ℕ} {e : ListEntry β}
    (he : e ∈ w.list key) : ∃ c ∈ w.requests, c.key = key ∧ Regular c.type c.time ∧ c.entry = e := by
  have hmem := (h.perm key).mem_iff.mp he
  obtain ⟨c, hc, rfl⟩ := List.mem_map.mp hmem
  obtain ⟨hc, hkey⟩ := List.mem_filter.mp hc
  exact ⟨c, hc, of_decide_eq_true hkey, h.regular c hc, rfl⟩

theorem Requested.once (h : w.Requested) {key : BlockType × ℕ} (hs : SortedEntries (w.list key))
    {e : ListEntry β} (he : e ∈ w.list key) :
    w.requests.countP (fun c => c.key = key ∧ e.Holds c.time) ≤ 1 := by
  obtain ⟨ce, -, hkey, hregular, rfl⟩ := h.mem he
  have hcount := hs.countP_le_one ce.entry.startTime
  rw [(h.perm key).countP_eq, List.countP_map, List.countP_filter] at hcount
  refine (List.countP_mono_left fun c hc hholds => ?_).trans hcount
  obtain ⟨hckey, hce⟩ := of_decide_eq_true hholds
  have hself := (Call.holds_self (c := c)).mpr (h.regular c hc)
  have hne := (Call.holds_self (c := ce)).mpr hregular
  -- the two intervals have a time in common
  rcases Call.entry_apart (hckey.trans hkey.symm) hregular (h.regular c hc) with heq | h' | h'
  · simp only [Function.comp, decide_eq_true_eq, Bool.and_eq_true]
    refine ⟨⟨heq.1.le, ?_⟩, hckey⟩
    rw [heq.2]
    exact hne.1.trans_lt hne.2
  · exact absurd (hce.2.trans_le (h'.trans hself.1)) (lt_irrefl _)
  · exact absurd (hself.2.trans_le (h'.trans hce.1)) (lt_irrefl _)

theorem good_of_hit (hgood : w.Good) (hreq : w.Requested) {before after : List (ListEntry β)}
    {e : ListEntry β} (hlist : before.reverse ++ e :: after = w.list c.key) (he : e.Holds c.time) :
    let t : Watched β := ⟨Function.update w.engine c.key ⟨before, e :: after⟩,
      w.served ++ [(c, e.block)], w.requests⟩
    t.Good ∧ t.Requested := by
  intro t
  have hsame : ∀ key, t.list key = w.list key := by
    intro key
    rw [list_of_update]
    split_ifs with h
    · rw [h, ← hlist]
      rfl
    · rfl
  have hrequested : t.Requested := by
    refine ⟨fun key => ?_, hreq.regular, fun c hc => ?_⟩
    · rw [hsame]
      exact hreq.perm key
    · rw [List.map_append]
      exact List.mem_append_left _ (hreq.calls c hc)
  have hsorted : ∀ key, SortedEntries (t.list key) := fun key => hsame key ▸ hgood.sorted key
  refine ⟨⟨hsorted, fun key hne => ?_, fun c' b hb => ?_, fun key _ => hrequested.once (hsorted key)⟩,
    hrequested⟩
  · exact points_of_update hgood.points c.key key hne
  · rw [hsame]
    rcases List.mem_append.mp hb with hb | hb
    · exact hgood.served c' b hb
    · obtain ⟨rfl, rfl⟩ := Prod.mk.inj (List.mem_singleton.mp hb)
      rw [← hlist]
      exact ⟨e, List.mem_append_right _ List.mem_cons_self, he, rfl⟩

theorem good_of_added (hgood : w.Good) (hreq : w.Requested) {before after : List (ListEntry β)}
    (hlist : before.reverse ++ after = w.list c.key) (hbefore : ∀ e ∈ before, e.endTime ≤ c.time)
    (hafter : ∀ e ∈ after, c.time < e.startTime) (hregular : Regular c.type c.time) :
    let t : Watched β := ⟨Function.update w.engine c.key ⟨before, c.entry :: after⟩,
      w.served ++ [(c, c.entry.block)], w.requests ++ [c]⟩
    t.Good ∧ t.Requested := by
  intro t
  have hself := Call.holds_self.mpr hregular
  have hlistOf : ∀ key, t.list key =
      if key = c.key then before.reverse ++ c.entry :: after else w.list key :=
    fun key => list_of_update c.key key
  -- the entries are still those of the requests, in another order
  have hrequested : t.Requested := by
    refine ⟨fun key => ?_, fun c' hc' => ?_, fun c' hc' => ?_⟩
    · rw [hlistOf, List.filter_append, List.map_append]
      split_ifs with h
      · have hc : [c].filter (fun c' => c'.key = key) = [c] := by simp [h]
        rw [hc]
        have hold := hreq.perm key
        rw [h, ← hlist, ← h] at hold
        exact List.perm_middle.trans ((hold.cons c.entry).trans (List.perm_append_singleton _ _).symm)
      · have hc : [c].filter (fun c' => c'.key = key) = [] := by simp [Ne.symm h]
        rw [hc, List.map_nil, List.append_nil]
        exact hreq.perm key
    · rcases List.mem_append.mp hc' with hc' | hc'
      · exact hreq.regular c' hc'
      · exact List.mem_singleton.mp hc' ▸ hregular
    · rw [List.map_append]
      rcases List.mem_append.mp hc' with hc' | hc'
      · exact List.mem_append_left _ (hreq.calls c' hc')
      · exact List.mem_append_right _ (by simpa using hc')
  have hsorted : ∀ key, SortedEntries (t.list key) := by
    intro key
    rw [hlistOf]
    -- the new entry lies between those in front of the iterator and those behind it
    split_ifs with h
    · have hold := hgood.sorted c.key
      rw [← hlist] at hold
      refine hold.insert (hself.1.trans_lt hself.2) (fun a ha => ?_) (fun b hb => ?_)
      · have ha' := List.mem_reverse.mp ha
        have hne := hold.1 a (List.mem_append_left after ha)
        have hmem : a ∈ w.list c.key := hlist ▸ List.mem_append_left after ha
        obtain ⟨c', -, hkey, hc', rfl⟩ := hreq.mem hmem
        have hend := hbefore _ ha'
        rcases Call.entry_apart hkey.symm hc' hregular with heq | h' | h'
        · exact absurd (heq.2 ▸ hself.2) (not_lt.mpr hend)
        · exact h'
        · exact absurd (hself.2.trans_le (h'.trans (hne.le.trans hend))) (lt_irrefl _)
      · have hne := hold.1 b (List.mem_append_right _ hb)
        have hmem : b ∈ w.list c.key := hlist ▸ List.mem_append_right _ hb
        obtain ⟨c', -, hkey, hc', rfl⟩ := hreq.mem hmem
        have hstart := hafter _ hb
        rcases Call.entry_apart hkey.symm hc' hregular with heq | h' | h'
        · exact absurd (heq.1 ▸ hself.1) (not_le.mpr hstart)
        · exact absurd (hstart.trans (hne.trans_le (h'.trans hself.1))) (lt_irrefl _)
        · exact h'
    · exact hgood.sorted key
  refine ⟨⟨hsorted, fun key hne => ?_, fun c' b hb => ?_, fun key _ => hrequested.once (hsorted key)⟩,
    hrequested⟩
  · exact points_of_update hgood.points c.key key hne
  -- no entry goes, so what was served before still is
  · have hmem : ∀ e ∈ w.list c'.key, e ∈ t.list c'.key := by
      intro e he
      rw [hlistOf]
      split_ifs with h
      · rw [h, ← hlist] at he
        rcases List.mem_append.mp he with he | he
        · exact List.mem_append_left _ he
        · exact List.mem_append_right _ (List.mem_cons_of_mem _ he)
      · exact he
    rcases List.mem_append.mp hb with hb | hb
    · obtain ⟨e, he, hholds⟩ := hgood.served c' b hb
      exact ⟨e, hmem e he, hholds⟩
    · obtain ⟨rfl, rfl⟩ := Prod.mk.inj (List.mem_singleton.mp hb)
      rw [hlistOf, if_pos rfl]
      exact ⟨c'.entry, List.mem_append_right _ List.mem_cons_self, hself, rfl⟩

/-- A time that an old entry holds is found again. -/
theorem regular_of_covered (hgood : w.Good) (hreq : w.Requested)
    (hcovered : Covered (w.served.map Prod.fst) c) (hnone : ∀ e ∈ w.list c.key, ¬ e.Holds c.time) :
    Regular c.type c.time := by
  rcases hcovered with h | ⟨c', hc', hkey, hregular, hholds⟩
  · exact h
  · -- the entry that served `c'` has its interval, and would have been found
    obtain ⟨⟨_, b⟩, hb, rfl⟩ := List.mem_map.mp hc'
    obtain ⟨e, he, heholds, -⟩ := hgood.served _ b hb
    dsimp only at hkey hregular hholds he heholds
    obtain ⟨ce, -, hkeye, hregulare, rfl⟩ := hreq.mem he
    have hself := Call.holds_self.mpr hregular
    rw [hkey] at he
    rcases Call.entry_apart hkeye hregular hregulare with heq | h' | h'
    · refine absurd ?_ (hnone _ he)
      unfold ListEntry.Holds at hholds ⊢
      rwa [heq.1, heq.2]
    · exact absurd (hself.2.trans_le (h'.trans heholds.1)) (lt_irrefl _)
    · exact absurd (heholds.2.trans_le (h'.trans hself.1)) (lt_irrefl _)

/-- A call keeps the lists good exactly when its time is covered. -/
theorem step_good_iff (hgood : w.Good) (hreq : w.Requested) (c : Call β) :
    ∃ t, w.step c = some t ∧ t.served.map Prod.fst = w.served.map Prod.fst ++ [c] ∧
      (t.Good ↔ Covered (w.served.map Prod.fst) c) ∧ (t.Good → t.Requested) := by
  obtain ⟨f, hsearched, hstep⟩ := step_searched hgood c
  refine ⟨_, hstep, by simp, ?_⟩
  generalize hl : w.list c.key = entries at hsearched
  cases hsearched with
  | hit before after e hlist he =>
    obtain ⟨hgood', hreq'⟩ := good_of_hit hgood hreq (hlist.trans hl.symm) he
    refine ⟨iff_of_true hgood' ?_, fun _ => hreq'⟩
    have hmem : e ∈ w.list c.key := hl ▸ hlist ▸ List.mem_append_right _ List.mem_cons_self
    obtain ⟨c', hc', hkey, hregular, rfl⟩ := hreq.mem hmem
    exact .inr ⟨c', hreq.calls c' hc', hkey, hregular, he⟩
  | added before after hlist hbefore hafter =>
    have hnone : ∀ e ∈ w.list c.key, ¬ e.Holds c.time := by
      rw [hl, ← hlist]
      intro e he hholds
      rcases List.mem_append.mp he with he | he
      · exact absurd hholds.2 (not_lt.mpr (hbefore e (List.mem_reverse.mp he)))
      · exact absurd hholds.1 (not_le.mpr (hafter e he))
    have hall := good_of_added hgood hreq (hlist.trans hl.symm) hbefore hafter
    have hregular : ∀ {t : Watched β}, t = ⟨Function.update w.engine c.key
        ⟨before, c.entry :: after⟩, w.served ++ [(c, c.entry.block)], w.requests ++ [c]⟩ →
        t.Good → Regular c.type c.time := by
      rintro t rfl hgood'
      obtain ⟨e, he, hholds, -⟩ := hgood'.served c c.entry.block (by simp)
      rw [list_of_update, if_pos rfl] at he
      rcases List.mem_append.mp he with he | he
      · exact absurd hholds (hnone e (hl ▸ hlist ▸ List.mem_append_left after he))
      · rcases List.mem_cons.mp he with rfl | he
        · exact Call.holds_self.mp hholds
        · exact absurd hholds (hnone e (hl ▸ hlist ▸ List.mem_append_right _ he))
    refine ⟨⟨fun hgood' => .inl (hregular rfl hgood'), fun hcovered => ?_⟩, fun hgood' => ?_⟩
    · exact (hall (regular_of_covered hgood hreq hcovered hnone)).1
    · exact (hall (hregular rfl hgood')).2

end Watched

open Watched

/-- From good lists, all calls are served well exactly when their times are covered. -/
theorem safeRun_iff_coveredRun {w : Watched β} (hgood : w.Good) (hreq : w.Requested)
    (calls : List (Call β)) :
    SafeRun step Good (fun _ _ _ => True) w calls ↔ CoveredRun (w.served.map Prod.fst) calls := by
  induction calls generalizing w with
  | nil => exact iff_of_true hgood trivial
  | cons c calls ih =>
    obtain ⟨t, ht, hserved, hiff, hreq'⟩ := step_good_iff hgood hreq c
    constructor
    · rintro ⟨-, t', ht', -, hrest⟩
      obtain rfl := Option.some.inj (ht.symm.trans ht')
      have hgood' : t.Good := by
        cases calls with
        | nil => exact hrest
        | cons c calls => exact hrest.1
      refine ⟨hiff.mp hgood', ?_⟩
      rw [← hserved]
      exact (ih hgood' (hreq' hgood')).mp hrest
    · rintro ⟨hcovered, hrest⟩
      have hgood' := hiff.mpr hcovered
      rw [← hserved] at hrest
      exact ⟨hgood, t, ht, trivial, (ih hgood' (hreq' hgood')).mpr hrest⟩

/-- The lists of an engine stay sorted and serve every call from the right entry exactly when the
time of every call is covered. -/
theorem blockLists_iff (calls : List (Call β)) :
    SafeRun step Good (fun _ _ _ => True) (Watched.new : Watched β) calls ↔ CoveredRun [] calls :=
  safeRun_iff_coveredRun good_new requested_new calls

/-- A time before 1970 gets a block of the interval behind it. -/
theorem negative_not_served :
    ¬ SafeRun step Good (fun _ _ _ => True) (Watched.new : Watched ℕ) [⟨0, -5, .sec10, 7⟩] := by
  rintro ⟨-, t, ht, -, hgood⟩
  obtain rfl := Option.some.inj ht
  obtain ⟨e, he, hholds, -⟩ := hgood.served ⟨0, -5, .sec10, 7⟩ 7 (List.mem_singleton.mpr rfl)
  obtain rfl := List.mem_singleton.mp he
  exact absurd hholds (by decide)

end ExecutionEngine
end Szbase
end Szarp
