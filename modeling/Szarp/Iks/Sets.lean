import Szarp.Lib.MultiIndex
import Szarp.Lib.Run
import Mathlib.Data.Rat.Defs
import Mathlib.Algebra.Order.Ring.Rat

/-!
# The set store of the iks server

`Sets` keeps the sets of a base under their names (`iks/server/data/sets.cpp`, `set.cpp`).  An order
is a number or, where `none`, not a number.  Descriptions are property trees, of which only equality
counts, and the hash of names is the one of the standard library.
-/

namespace Szarp
namespace Iks

variable {Desc : Type}

/-- `Set`; its parameters stand in the order of their index. -/
structure Set (Desc : Type) where
  name : String
  order : Option ℚ
  params : List (String × Desc)
  setDesc : Desc
deriving DecidableEq

namespace Set

def hasOrder (s : Set Desc) : Bool := s.order.isSome

def empty (s : Set Desc) : Bool := s.name = ""

/-- `Set::update_hash` -/
def hash (hashFn : String → UInt64) (s : Set Desc) : UInt64 :=
  s.params.foldl (fun h p => h ^^^ hashFn p.1) 0

/-- The loop of `operator==`; it ends with the shorter list. -/
def sameParams [DecidableEq Desc] : List (String × Desc) → List (String × Desc) → Bool
  | a :: as, b :: bs => if a.2 ≠ b.2 then false else sameParams as bs
  | _, _ => true

/-- `operator==` of numbers; one that is not a number is not equal to anything. -/
def sameOrder : Option ℚ → Option ℚ → Bool
  | some a, some b => a = b
  | _, _ => false

/-- `operator==` -/
def same [DecidableEq Desc] (hashFn : String → UInt64) (a b : Set Desc) : Bool :=
  sameParams a.params b.params && a.name = b.name && a.setDesc = b.setDesc &&
    a.hash hashFn = b.hash hashFn && sameOrder a.order b.order

end Set

structure SetEntry (Desc : Type) where
  first : String
  order : ℚ
  set : Set Desc

abbrev SetsMap (Desc : Type) := MultiIndex (@SetEntry.first Desc) (@SetEntry.order Desc)

/-- `Sets`; every set has a name and is stored under it. -/
structure Sets (Desc : Type) where
  sets : SetsMap Desc
  named : ∀ e ∈ sets.entries, e.set.name = e.first ∧ e.set.empty = false

abbrev Signal (Desc : Type) := String × Option (Set Desc)

namespace Sets

def new : Sets Desc := ⟨MultiIndex.empty, nofun⟩

def getSet (st : Sets Desc) (name : String) : Option (Set Desc) :=
  (st.sets.find name).map SetEntry.set

def hasSet (st : Sets Desc) (name : String) : Bool := (st.sets.find name).isSome

def insert (st : Sets Desc) (s : Set Desc) (h : s.empty = false) (order : ℚ) : Sets Desc where
  sets := st.sets.insert ⟨s.name, order, s⟩
  named := by
    intro e he
    obtain rfl | he := MultiIndex.mem_insert he
    · exact ⟨rfl, h⟩
    · exact st.named e he

def erase (st : Sets Desc) (name : String) : Sets Desc where
  sets := st.sets.erase name
  named := fun e he => st.named e (MultiIndex.mem_erase he)

/-- The order behind the last set; there is none in an empty store. -/
def nextOrder (st : Sets Desc) : Option ℚ := st.sets.entries.getLast?.map fun e => e.order + 1

/-- `Sets::update_set`, with what it emits.  Nothing is defined where an element is read that is not
there: the last one of an empty store, or one that has been erased. -/
def updateSet [DecidableEq Desc] (hashFn : String → UInt64) (st : Sets Desc) (s : Set Desc)
    (oldName : String) : Option (Sets Desc × List (Signal Desc)) :=
  let on := if oldName = "" then s.name else oldName
  if h : st.hasSet on = false ∧ s.empty = false then do
    let order ← s.order.or st.nextOrder
    return (st.insert s h.2 order, [(on, some s)])
  else
    match st.sets.find on with
    | none => if s.empty then some (st, []) else none
    | some entry =>
      if h : s.empty then some (st.erase on, [(on, none)])
      else if !entry.set.same hashFn s then do
        let left := if s.name ≠ on then st.erase on else st
        let order ← s.order.or (if s.name ≠ on then none else some entry.order)
        return (left.insert s (by simpa using h) order, [(on, some s)])
      else some (st, [])

/-! ## What is found -/

theorem getSet_eq_none {st : Sets Desc} {name : String} :
    st.getSet name = none ↔ st.sets.find name = none := Option.map_eq_none_iff

theorem getSet_name {st : Sets Desc} {name : String} {s : Set Desc} (h : st.getSet name = some s) :
    s.name = name ∧ s.empty = false := by
  obtain ⟨e, he, rfl⟩ := Option.map_eq_some_iff.mp h
  obtain ⟨hmem, hname⟩ := MultiIndex.find_eq_some.mp he
  exact ⟨(st.named e hmem).1.trans hname, (st.named e hmem).2⟩

theorem getSet_insert (st : Sets Desc) (s : Set Desc) (h : s.empty = false) (order : ℚ)
    (name : String) : (st.insert s h order).getSet name =
      if s.name = name ∧ st.getSet name = none then some s else st.getSet name := by
  have hfind := st.sets.find_insert ⟨s.name, order, s⟩ name
  simp only [getSet_eq_none]
  rw [getSet, insert, hfind]
  split <;> rfl

theorem getSet_erase (st : Sets Desc) (name name' : String) :
    (st.erase name).getSet name' = if name' = name then none else st.getSet name' := by
  rw [getSet, erase, MultiIndex.find_erase]
  split <;> rfl

theorem nextOrder_isSome {st : Sets Desc} : st.nextOrder.isSome ↔ st.sets.entries ≠ [] := by
  rw [nextOrder, Option.isSome_map, List.getLast?_isSome]

end Sets

namespace Set

theorem sameParams_self [DecidableEq Desc] (ps : List (String × Desc)) : sameParams ps ps := by
  induction ps with
  | nil => rfl
  | cons p ps ih => simpa [sameParams] using ih

/-- A set equals itself only if it has an order. -/
theorem same_self [DecidableEq Desc] (hashFn : String → UInt64) (s : Set Desc) :
    s.same hashFn s = s.hasOrder := by
  have horder : sameOrder s.order s.order = s.order.isSome := by
    cases s.order <;> simp [sameOrder]
  simp [same, sameParams_self, horder, hasOrder]

theorem name_eq_of_same [DecidableEq Desc] {hashFn : String → UInt64} {s t : Set Desc}
    (h : s.same hashFn t) : s.name = t.name := by
  simp only [same, Bool.and_eq_true, decide_eq_true_eq] at h
  exact h.1.1.1.2

end Set

/-! ## What a store is for -/

structure Call (Desc : Type) where
  set : Set Desc
  oldName : String := ""

def Call.old (c : Call Desc) : String := if c.oldName = "" then c.set.name else c.oldName

theorem old_eq (c : Call Desc) : (if c.oldName = "" then c.set.name else c.oldName) = c.old := rfl

abbrev Store (Desc : Type) := String → Option (Set Desc)

/-- A call puts its set under its name, and takes away what has been under the old one. -/
def Call.apply (m : Store Desc) (c : Call Desc) : Store Desc := fun name =>
  if ¬ c.set.empty ∧ c.set.name = name then some c.set
  else if c.old = name then none
  else m name

/-- A signal carries the set that is stored now. -/
def Sets.Carries (st : Sets Desc) : Signal Desc → Prop
  | (name, none) => st.getSet name = none
  | (_, some s) => st.getSet s.name = some s

theorem apply_of_empty {c : Call Desc} (h : c.set.empty) (m : Store Desc) (name : String) :
    c.apply m name = if c.old = name then none else m name := by
  simp [Call.apply, h]

theorem apply_of_not_empty {c : Call Desc} (h : c.set.empty = false) (m : Store Desc)
    (name : String) : c.apply m name =
      if c.set.name = name then some c.set else if c.old = name then none else m name := by
  simp [Call.apply, h]

/-- What a call should do: the store has what the call leaves of it, all signals carry what is
stored, and a set that is stored already changes nothing. -/
structure Works (st : Sets Desc) (c : Call Desc) (st' : Sets Desc) (signals : List (Signal Desc)) :
    Prop where
  stored : st'.getSet = c.apply st.getSet
  carried : ∀ signal ∈ signals, st'.Carries signal
  quiet : st.getSet c.old = some c.set → st' = st ∧ signals = []

/-- There is no other set of the name, and an order is known. -/
def Fits (st : Sets Desc) (c : Call Desc) : Prop :=
  c.set.empty ∨
    (st.getSet c.set.name = none ∨ st.getSet c.set.name = some c.set) ∧
      (c.set.hasOrder ∨ st.getSet c.old = none ∧ st.sets.entries ≠ [])

section Calls

variable [DecidableEq Desc] {hashFn : String → UInt64} {st : Sets Desc} {c : Call Desc}

theorem updateSet_empty (h : c.set.empty) : st.updateSet hashFn c.set c.oldName =
    some (if (st.getSet c.old).isSome then (st.erase c.old, [(c.old, none)]) else (st, [])) := by
  cases hfind : st.sets.find c.old with
  | none => simp [Sets.updateSet, old_eq, h, Sets.getSet, hfind]
  | some entry => simp [Sets.updateSet, old_eq, h, Sets.getSet, hfind]

theorem updateSet_new (h : c.set.empty = false) (hold : st.getSet c.old = none) :
    st.updateSet hashFn c.set c.oldName =
      (c.set.order.or st.nextOrder).map fun order =>
        (st.insert c.set h order, [(c.old, some c.set)]) := by
  have hfind := Sets.getSet_eq_none.mp hold
  simp [Sets.updateSet, old_eq, h, Sets.hasSet, hfind, Option.map_eq_bind]

theorem updateSet_stored (h : c.set.empty = false) {entry : SetEntry Desc}
    (hfind : st.sets.find c.old = some entry) :
    st.updateSet hashFn c.set c.oldName =
      if entry.set.same hashFn c.set then some (st, [])
      else if c.set.name = c.old then
        some (st.insert c.set h (c.set.order.getD entry.order), [(c.old, some c.set)])
      else c.set.order.map fun order =>
        ((st.erase c.old).insert c.set h order, [(c.old, some c.set)]) := by
  simp only [Sets.updateSet, old_eq]
  by_cases hname : c.set.name = c.old <;> cases horder : c.set.order <;>
    cases hsame : entry.set.same hashFn c.set <;>
    simp [h, Sets.hasSet, hfind, hsame, hname]

/-! ## One call -/

theorem works_of_empty (h : c.set.empty) : ∃ st' signals,
    st.updateSet hashFn c.set c.oldName = some (st', signals) ∧ Works st c st' signals := by
  rw [updateSet_empty h]
  cases hget : st.getSet c.old with
  | none =>
    refine ⟨st, [], rfl, ?_, nofun, fun _ => ⟨rfl, rfl⟩⟩
    funext name
    rw [apply_of_empty h]
    split
    · rename_i hold
      rw [← hold, hget]
    · rfl
  | some t =>
    refine ⟨st.erase c.old, [(c.old, none)], rfl, ?_, ?_, ?_⟩
    · funext name
      rw [apply_of_empty h, Sets.getSet_erase]
      simp only [eq_comm]
    · intro signal hsignal
      obtain rfl := List.mem_singleton.mp hsignal
      rw [Sets.Carries, Sets.getSet_erase, if_pos rfl]
    · intro hsame
      exact absurd h (by simp [(Sets.getSet_name hsame).2])

omit [DecidableEq Desc] in
/-- A set that is put into what is left of a store gets in if there is no other of its name. -/
theorem insert_stored_iff (h : c.set.empty = false) {left : Sets Desc} (order : ℚ)
    (hname : left.getSet c.set.name = st.getSet c.set.name)
    (hleft : ∀ name, name ≠ c.set.name →
      left.getSet name = if c.old = name then none else st.getSet name) :
    (left.insert c.set h order).getSet = c.apply st.getSet ↔
      st.getSet c.set.name = none ∨ st.getSet c.set.name = some c.set := by
  constructor
  · intro heq
    have hget := congrFun heq c.set.name
    rw [apply_of_not_empty h, if_pos rfl, Sets.getSet_insert, hname] at hget
    split at hget
    · rename_i hnone
      exact .inl hnone.2
    · exact .inr hget
  · intro hor
    funext name
    rw [apply_of_not_empty h, Sets.getSet_insert]
    by_cases hne : c.set.name = name
    · rw [← hne, hname]
      obtain hnone | hsome := hor
      · simp [hnone]
      · simp [hsome]
    · rw [if_neg (fun hand => hne hand.1), if_neg hne, hleft name (Ne.symm hne)]

omit [DecidableEq Desc] in
/-- The signal of a set that is put in carries what is stored. -/
theorem works_insert_iff (h : c.set.empty = false) {left : Sets Desc} (order : ℚ)
    (hname : left.getSet c.set.name = st.getSet c.set.name)
    (hleft : ∀ name, name ≠ c.set.name →
      left.getSet name = if c.old = name then none else st.getSet name)
    (hother : st.getSet c.old ≠ some c.set) :
    Works st c (left.insert c.set h order) [(c.old, some c.set)] ↔
      st.getSet c.set.name = none ∨ st.getSet c.set.name = some c.set := by
  rw [← insert_stored_iff h order hname hleft]
  constructor
  · exact Works.stored
  · intro hstored
    refine ⟨hstored, fun signal hsignal => ?_, fun hsame => absurd hsame hother⟩
    obtain rfl := List.mem_singleton.mp hsignal
    rw [Sets.Carries, hstored, apply_of_not_empty h, if_pos rfl]

theorem works_iff_of_new (h : c.set.empty = false) (hget : st.getSet c.old = none) :
    (∃ st' signals, st.updateSet hashFn c.set c.oldName = some (st', signals) ∧
      Works st c st' signals) ↔ Fits st c := by
  have horder : (c.set.order.or st.nextOrder).isSome ↔
      c.set.hasOrder ∨ st.getSet c.old = none ∧ st.sets.entries ≠ [] := by
    rw [Option.isSome_or, Bool.or_eq_true, Sets.nextOrder_isSome, Set.hasOrder]
    simp [hget]
  have hleft : ∀ name, st.getSet name = if c.old = name then none else st.getSet name := by
    intro name
    split
    · rename_i hold
      rw [← hold, hget]
    · rfl
  have hworks := fun order => works_insert_iff h order rfl (fun name _ => hleft name)
    (by simp [hget])
  rw [updateSet_new h hget, Fits, h, ← horder]
  constructor
  · rintro ⟨st', signals, heq, hw⟩
    obtain ⟨order, ho, heq⟩ := Option.map_eq_some_iff.mp heq
    obtain ⟨rfl, rfl⟩ := Prod.mk.inj heq
    exact .inr ⟨(hworks order).mp hw, by simp [ho]⟩
  · rintro (hfalse | ⟨hor, hsome⟩)
    · exact nomatch hfalse
    · obtain ⟨order, ho⟩ := Option.isSome_iff_exists.mp hsome
      exact ⟨_, _, by rw [ho]; rfl, (hworks order).mpr hor⟩

theorem works_iff_of_renamed (h : c.set.empty = false) {entry : SetEntry Desc}
    (hfind : st.sets.find c.old = some entry) (hne : c.set.name ≠ c.old) :
    (∃ st' signals, st.updateSet hashFn c.set c.oldName = some (st', signals) ∧
      Works st c st' signals) ↔ Fits st c := by
  have hget : st.getSet c.old = some entry.set := by rw [Sets.getSet, hfind]; rfl
  have hentry : entry.set.name = c.old := (Sets.getSet_name hget).1
  have hother : st.getSet c.old ≠ some c.set := by
    intro hsame
    exact hne (Sets.getSet_name hsame).1
  have hdiffer : entry.set.same hashFn c.set = false := by
    rw [← Bool.not_eq_true]
    intro hsame
    exact hne ((Set.name_eq_of_same hsame).symm.trans hentry)
  have hworks := fun order => works_insert_iff h order
    (by rw [Sets.getSet_erase, if_neg hne])
    (fun name _ => by simp only [Sets.getSet_erase, eq_comm]) hother
  rw [updateSet_stored h hfind, hdiffer, if_neg (by simp), if_neg hne, Fits, h, Set.hasOrder]
  constructor
  · rintro ⟨st', signals, heq, hw⟩
    obtain ⟨order, ho, heq⟩ := Option.map_eq_some_iff.mp heq
    obtain ⟨rfl, rfl⟩ := Prod.mk.inj heq
    exact .inr ⟨(hworks order).mp hw, .inl (by simp [ho])⟩
  · rintro (hfalse | ⟨hor, hsome | ⟨hnone, -⟩⟩)
    · exact nomatch hfalse
    · obtain ⟨order, ho⟩ := Option.isSome_iff_exists.mp hsome
      exact ⟨_, _, by rw [ho]; rfl, (hworks order).mpr hor⟩
    · exact nomatch hget.symm.trans hnone

theorem works_iff_of_stored (h : c.set.empty = false) {entry : SetEntry Desc}
    (hfind : st.sets.find c.old = some entry) (heq : c.set.name = c.old) :
    (∃ st' signals, st.updateSet hashFn c.set c.oldName = some (st', signals) ∧
      Works st c st' signals) ↔ Fits st c := by
  have hget : st.getSet c.old = some entry.set := by rw [Sets.getSet, hfind]; rfl
  have hfits : Fits st c ↔ entry.set = c.set ∧ c.set.hasOrder := by
    simp [Fits, h, heq, hget]
  rw [hfits, updateSet_stored h hfind, if_pos heq]
  constructor
  · rintro ⟨st', signals, hupdate, hw⟩
    have hstored := congrFun hw.stored c.old
    rw [apply_of_not_empty h, if_pos heq] at hstored
    split at hupdate
    · rename_i hsame
      obtain ⟨rfl, rfl⟩ := Prod.mk.inj (Option.some.inj hupdate)
      have hset : entry.set = c.set := Option.some.inj (hget.symm.trans hstored)
      rw [hset, Set.same_self] at hsame
      exact ⟨hset, hsame⟩
    · -- the container has a set of that name, and keeps it
      obtain ⟨rfl, rfl⟩ := Prod.mk.inj (Option.some.inj hupdate)
      rw [Sets.getSet_insert, if_neg (by simp [hget])] at hstored
      exact nomatch (hw.quiet hstored).2
  · rintro ⟨hset, horder⟩
    have hsame : entry.set.same hashFn c.set := by rw [hset, Set.same_self, horder]
    refine ⟨st, [], if_pos hsame, ?_, nofun, fun _ => ⟨rfl, rfl⟩⟩
    funext name
    rw [apply_of_not_empty h, heq]
    split
    · rename_i hold
      rw [← hold, hget, hset]
    · rfl

theorem works_iff (hashFn : String → UInt64) (st : Sets Desc) (c : Call Desc) :
    (∃ st' signals, st.updateSet hashFn c.set c.oldName = some (st', signals) ∧
      Works st c st' signals) ↔ Fits st c := by
  cases h : c.set.empty with
  | true => exact ⟨fun _ => .inl h, fun _ => works_of_empty h⟩
  | false =>
    cases hfind : st.sets.find c.old with
    | none => exact works_iff_of_new h (Sets.getSet_eq_none.mpr hfind)
    | some entry =>
      by_cases hname : c.set.name = c.old
      · exact works_iff_of_stored h hfind hname
      · exact works_iff_of_renamed h hfind hname

/-! ## All calls -/

variable (hashFn)

def step (r : Sets Desc × Store Desc) (c : Call Desc) : Option (Sets Desc × Store Desc) :=
  (r.1.updateSet hashFn c.set c.oldName).map fun u => (u.1, c.apply r.2)

def Current (r : Sets Desc × Store Desc) : Prop := r.1.getSet = r.2

/-- All signals carry what is stored, and a set that is stored already changes nothing. -/
def Tells (r : Sets Desc × Store Desc) (c : Call Desc) (r' : Sets Desc × Store Desc) : Prop :=
  ∃ signals, r.1.updateSet hashFn c.set c.oldName = some (r'.1, signals) ∧
    (∀ signal ∈ signals, r'.1.Carries signal) ∧
    (r.1.getSet c.old = some c.set → r'.1 = r.1 ∧ signals = [])

theorem step_iff {r : Sets Desc × Store Desc} (hr : Current r) (c : Call Desc) :
    (∃ r', step hashFn r c = some r' ∧ Tells hashFn r c r' ∧ Current r') ↔ Fits r.1 c := by
  rw [← works_iff hashFn]
  obtain ⟨st, m⟩ := r
  obtain rfl : st.getSet = m := hr
  constructor
  · rintro ⟨⟨st', m'⟩, hstep, ⟨signals, hupdate, hcarried, hquiet⟩, hcurrent⟩
    rw [step, hupdate, Option.map_some, Option.some.injEq, Prod.mk.injEq] at hstep
    refine ⟨st', signals, hupdate, ?_, hcarried, hquiet⟩
    exact hcurrent.trans hstep.2.symm
  · rintro ⟨st', signals, hupdate, hworks⟩
    refine ⟨(st', c.apply st.getSet), by rw [step, hupdate]; rfl, ?_, hworks.stored⟩
    exact ⟨signals, hupdate, hworks.carried, hworks.quiet⟩

/-- After any calls the store has what they have left, and they tell no more than that, exactly when
each of them fits the store it is made on. -/
theorem updateSet_run_iff (calls : List (Call Desc)) :
    Run.SafeRun (step hashFn) Current (Tells hashFn) (Sets.new, fun _ => none) calls ↔
      Run.LegalRun (step hashFn) (fun r => Fits r.1) (Sets.new, fun _ => none) calls := by
  apply Run.safeRun_iff_legalRun
  · exact fun r c hr => step_iff hashFn hr c
  · rfl

end Calls

/-! ### A set that is drawn anew -/

def nameHash (name : String) : UInt64 := name.length.toUInt64

def boilerSet : Set String := ⟨"Boiler", some 1, [("Inlet", "#ff0000")], "boiler"⟩

def redrawnSet : Set String := { boilerSet with params := [("Inlet", "#0000ff")] }

theorem redrawnSet_lost : ¬ Run.SafeRun (step nameHash) Current (Tells nameHash)
    (Sets.new, fun _ => none) [⟨boilerSet, ""⟩, ⟨redrawnSet, ""⟩] := by
  have hkept : ((Sets.new : Sets String).updateSet nameHash boilerSet "").bind
      (fun u => (u.1.updateSet nameHash redrawnSet "").map fun u => u.1.getSet "Boiler") =
        some (some boilerSet) := by decide +kernel
  rintro ⟨-, r, hr, -, -, r', hr', -, hcurrent⟩
  obtain ⟨u, hu, rfl⟩ := Option.map_eq_some_iff.mp hr
  obtain ⟨u', hu', rfl⟩ := Option.map_eq_some_iff.mp hr'
  simp only at hu hu'
  rw [hu, Option.bind_some, hu', Option.map_some, Option.some.injEq] at hkept
  have hstored : some redrawnSet = some boilerSet :=
    (congrFun hcurrent "Boiler").symm.trans hkept
  exact absurd hstored (by decide +kernel)

end Iks
end Szarp
