import Mathlib.Data.Int.Notation
import Mathlib.Data.List.TakeWhile
import Mathlib.Tactic.Common

/-!
# Alarms of executed sections

`texecute.cc` and `texecsect.cc` of `meaner3`: commands are run at given times, and one interval
timer serves the list of alarms that end a cycle or a command.
-/

namespace Szarp
namespace Meaner

inductive AlarmType where
  | newcl
  | strm
  | skill
  | rem
deriving DecidableEq

structure Alarm where
  type : AlarmType
  exptime : ℤ
  sect : Option ℕ
  isset : Bool

def basePeriod : ℤ := 600

def newCycleAlarm (settime : ℤ) : Alarm :=
  ⟨.newcl, settime - settime.tmod basePeriod + basePeriod, none, false⟩

def newTermAlarm (exptime : ℤ) (i : ℕ) : Alarm := ⟨.strm, exptime, some i, false⟩

def newKillAlarm (exptime : ℤ) (i : ℕ) : Alarm := ⟨.skill, exptime, some i, false⟩

structure CronTime where
  wday : ℕ
  mon : ℕ
  mday : ℕ
  hour : ℕ
  min : ℕ

/-- `TExecSection`, with the masks of the times at which it is run. -/
structure ExecSection where
  wday : BitVec 32
  month : BitVec 32
  day : BitVec 32
  hour : BitVec 32
  min10 : BitVec 32
  retry : ℕ
  parallel : Bool
  limit : ℕ
  fails : ℕ
  pid : ℤ
  torun : Bool

namespace ExecSection

def checkTime (wday month mday hour min10 : ℕ) (s : ExecSection) : Bool :=
  s.wday.getLsbD wday && s.month.getLsbD month && s.day.getLsbD mday && s.hour.getLsbD hour &&
    s.min10.getLsbD min10

def checkRun (s : ExecSection) : Bool := s.torun && s.pid = 0

def checkRetry (s : ExecSection) : ExecSection :=
  if s.retry > 0 then { s with fails := if s.fails < s.retry then s.fails + 1 else 0 } else s

end ExecSection

/-- Where the main program is in `WaitForCycle`: outside or waiting, behind the loop, and behind
the insertion of the next cycle. -/
inductive Main where
  | idle
  | leaving
  | inserted
deriving DecidableEq

/-- `TExecute`, the interval timer with its value in seconds and microseconds, and whether a signal
of the timer is pending. -/
structure Execute where
  sections : List ExecSection
  current : Option ℕ
  alarms : List Alarm
  nextCycle : Bool
  timer : Option (ℤ × ℤ)
  pending : Bool
  main : Main

/-- The functions whose assertions may fail. -/
inductive Assertion where
  | nextAlarm
  | sigAlrmHandler
  | getReady
  | sigChldHandler
deriving DecidableEq

namespace Execute

def nextAlarm (t : ℤ) (s : Execute) : Except Assertion Execute :=
  match s.alarms.dropWhile (·.type = .rem) with
  | [] => .ok { s with alarms := [] }
  | a :: rest =>
    if a.isset then .error .nextAlarm
    else
      .ok { s with
        alarms := { a with isset := true } :: rest
        timer := some (if a.exptime - t ≤ 0 then (0, 10) else (a.exptime - t, 0)) }

/-- The search for the position behind `tmp`. -/
def insertBehind (alarm : Alarm) : List Alarm → List Alarm
  | [] => [alarm]
  | a :: rest =>
    if a.exptime ≤ alarm.exptime then a :: insertBehind alarm rest else alarm :: a :: rest

/-- `InsertAlarm`; `t` is the time that `NextAlarm` reads. -/
def insertAlarm (alarm : Alarm) (t : ℤ) (s : Execute) : Except Assertion Execute :=
  match s.alarms with
  | [] => .ok { s with alarms := [alarm] }
  | a :: rest =>
    if alarm.exptime < a.exptime then
      if a.isset then
        nextAlarm t { s with alarms := alarm :: { a with isset := false } :: rest }
      else .ok { s with alarms := alarm :: a :: rest }
    else if a.isset = false ∧ alarm.exptime < a.exptime then
      .ok { s with alarms := alarm :: a :: rest }
    else .ok { s with alarms := a :: insertBehind alarm rest }

/-- The timer expires, if it is running. -/
def expire (s : Execute) : Execute :=
  if s.timer = none then s else { s with timer := none, pending := true }

structure Input where
  time : ℤ
  pid : ℤ
  early : Bool
  late : Bool
  termTime : ℤ
  killTime : ℤ

def setAlarm (i limit : ℕ) (inp : Input) (s : Execute) : Except Assertion Execute :=
  if limit = 0 then .ok s
  else
    let t := inp.time - inp.time.tmod basePeriod + limit
    (insertAlarm (newTermAlarm (t - 1) i) inp.termTime (if inp.early then s.expire else s)).bind
      fun s => insertAlarm (newKillAlarm t i) inp.killTime (if inp.late then s.expire else s)

/-- `Launch` of section `i`. -/
def launch (i : ℕ) (inp : Input) (s : Execute) : Except Assertion Execute :=
  match s.sections[i]? with
  | none => .ok s
  | some sect =>
    let s := { s with sections := s.sections.set i { sect with pid := inp.pid } }
    if inp.pid > 0 then setAlarm i sect.limit inp s else .ok s

/-- `current = current->GetNext()` -/
def advance (s : Execute) : Execute :=
  { s with
    current := s.current.bind fun i => if i + 1 < s.sections.length then some (i + 1) else none }

/-- `RunSections` while signals are blocked; the loop has a bound. -/
def runSections (inputs : ℕ → Input) : ℕ → Execute → Except Assertion Execute
  | 0, s => .ok s
  | n + 1, s =>
    match s.current with
    | none => .ok s
    | some i =>
      match s.sections[i]? with
      | none => .ok s
      | some sect =>
        if sect.checkRun then
          (launch i (inputs i) s).bind fun s =>
            if sect.parallel then runSections inputs n s.advance else .ok s
        else runSections inputs n s.advance

/-- A child that `waitpid` finds: its `pid`, whether it was successful, and what the launches of
further sections get. -/
structure Exit where
  pid : ℤ
  success : Bool
  inputs : ℕ → Input

/-- One pass of the loop of `SigChldHandler`. -/
def childExit (s : Execute) (e : Exit) : Except Assertion Execute :=
  match s.sections.findIdx? (·.pid = e.pid) with
  | none => .error .sigChldHandler
  | some i =>
    let s := { s with
      alarms := s.alarms.map fun a =>
        if a.sect = some i ∧ a.isset = false then { a with type := .rem } else a
      sections := s.sections.modify i fun sect =>
        let sect := { sect with pid := 0 }
        if e.success then sect else sect.checkRetry }
    if s.current = some i then runSections e.inputs (s.sections.length + 1) s.advance else .ok s

def sigChldHandler (exits : List Exit) (s : Execute) : Except Assertion Execute :=
  exits.foldlM childExit s

def sigAlrmHandler (t : ℤ) (s : Execute) : Except Assertion Execute :=
  match s.alarms with
  | [] => .error .sigAlrmHandler
  | a :: rest =>
    if a.isset = false then .error .sigAlrmHandler
    else if (a.type = .strm ∨ a.type = .skill) ∧ a.sect = none then .error .sigAlrmHandler
    else
      let s := { s with
        pending := false
        alarms := rest
        nextCycle := s.nextCycle || a.type = .newcl }
      if a.type = .newcl then .ok s else nextAlarm t s

/-- `GetReady`, with the two times that it reads. -/
def getReady (t t' : ℤ) (s : Execute) : Except Assertion Execute :=
  if s.alarms = [] then
    (insertAlarm (newCycleAlarm t) t' { s with nextCycle := false }).bind (nextAlarm t')
  else .error .getReady

def markToRun (lt : CronTime) (s : Execute) : Execute :=
  { s with
    sections := s.sections.map fun sect =>
      { sect with
        torun := sect.fails > 0 ||
          sect.checkTime ((lt.wday + 6) % 7) lt.mon (lt.mday - 1) lt.hour (lt.min / 10) }
    current := if s.sections = [] then none else some 0 }

/-- The loop of `RunSections` in the main program, up to the end of `Launch`. -/
def review (inp : Input) (s : Execute) : Except Assertion Execute :=
  match s.current with
  | none => .ok s
  | some i =>
    match s.sections[i]? with
    | none => .ok s
    | some sect => if sect.checkRun then launch i inp s else .ok s

/-! ## Runs -/

/-- What happens between two operations of the main program, and these operations. -/
inductive Event where
  | expire
  | sigalrm (t : ℤ)
  | sigchld (exits : List Exit)
  | markToRun (lt : CronTime)
  | review (inp : Input)
  | advance
  | leaveWait
  | insertCycle (t t' : ℤ)
  | armCycle (t : ℤ)

/-- An event that is not possible changes nothing. -/
def step (s : Execute) : Event → Except Assertion Execute
  | .expire => .ok s.expire
  | .sigalrm t => if s.pending then sigAlrmHandler t s else .ok s
  | .sigchld exits => sigChldHandler exits s
  | .markToRun lt => .ok (s.markToRun lt)
  | .review inp => review inp s
  | .advance => .ok s.advance
  | .leaveWait =>
    if s.nextCycle ∧ s.main = .idle then .ok { s with nextCycle := false, main := .leaving }
    else .ok s
  | .insertCycle t t' =>
    if s.main = .leaving then
      (insertAlarm (newCycleAlarm t) t' s).map fun s => { s with main := .inserted }
    else .ok s
  | .armCycle t =>
    if s.main = .inserted then (nextAlarm t s).map fun s => { s with main := .idle } else .ok s

def new (sections : List ExecSection) : Execute := ⟨sections, none, [], false, none, false, .idle⟩

def run (s : Execute) (events : List Event) : Except Assertion Execute := events.foldlM step s

/-! ## The list of alarms -/

def cycles (alarms : List Alarm) : ℕ := alarms.countP (·.type = .newcl)

def Sorted (alarms : List Alarm) : Prop := alarms.Pairwise fun a b => a.exptime ≤ b.exptime

/-- The timer is running for the first alarm, or no alarm is set. -/
inductive Phase (s : Execute) : Prop
  | armed (a : Alarm) (rest : List Alarm) (halarms : s.alarms = a :: rest) (hset : a.isset = true)
    (hrest : ∀ b ∈ rest, b.isset = false) (hcycles : cycles s.alarms = 1)
    (htimer : s.timer ≠ none ∨ s.pending = true)
    (hone : a.type = .newcl → s.timer = none ∨ s.pending = false)
    (hmain : s.main = .idle) (hnext : s.nextCycle = false)
  | unarmed (hunset : ∀ a ∈ s.alarms, a.isset = false) (htimer : s.timer = none)
    (hpending : s.pending = false) (hcycles : cycles s.alarms = if s.main = .inserted then 1 else 0)
    (hnext : s.main ≠ .idle → s.nextCycle = false)

/-- What is known of a list of alarms, whichever are set. -/
structure WellFormed (alarms : List Alarm) : Prop where
  sorted : Sorted alarms
  sect : ∀ a ∈ alarms, a.type = .strm ∨ a.type = .skill → a.sect ≠ none
  cycle : ∀ a ∈ alarms, a.type = .newcl → a.sect = none

structure Inv (s : Execute) : Prop where
  wellFormed : WellFormed s.alarms
  phase : Phase s

theorem insertBehind_perm (alarm : Alarm) (alarms : List Alarm) :
    (insertBehind alarm alarms).Perm (alarm :: alarms) := by
  induction alarms with
  | nil => exact List.Perm.refl _
  | cons a rest ih =>
    rw [insertBehind]
    split_ifs
    · exact (ih.cons a).trans (List.Perm.swap alarm a rest)
    · exact List.Perm.refl _

theorem insertBehind_sorted (alarm : Alarm) {alarms : List Alarm} (h : Sorted alarms) :
    Sorted (insertBehind alarm alarms) := by
  induction alarms with
  | nil => exact List.pairwise_singleton _ _
  | cons a rest ih =>
    obtain ⟨ha, hrest⟩ := List.pairwise_cons.mp h
    rw [insertBehind]
    split_ifs with hle
    · refine List.pairwise_cons.mpr ⟨fun b hb => ?_, ih hrest⟩
      rcases List.mem_cons.mp ((insertBehind_perm alarm rest).mem_iff.mp hb) with rfl | hb
      · exact hle
      · exact ha b hb
    · refine List.pairwise_cons.mpr ⟨fun b hb => ?_, h⟩
      rcases List.mem_cons.mp hb with rfl | hb
      · omega
      · have := ha b hb
        omega

/-- Where an alarm is put in a list whose first alarm is not set again. -/
def insertList (alarm : Alarm) : List Alarm → List Alarm
  | [] => [alarm]
  | a :: rest =>
    if alarm.exptime < a.exptime then alarm :: a :: rest else a :: insertBehind alarm rest

theorem insertList_perm (alarm : Alarm) (alarms : List Alarm) :
    (insertList alarm alarms).Perm (alarm :: alarms) := by
  cases alarms with
  | nil => exact List.Perm.refl _
  | cons a rest =>
    rw [insertList]
    split_ifs
    · exact List.Perm.refl _
    · exact ((insertBehind_perm alarm rest).cons a).trans (List.Perm.swap alarm a rest)

theorem insertList_sorted (alarm : Alarm) {alarms : List Alarm} (h : Sorted alarms) :
    Sorted (insertList alarm alarms) := by
  cases alarms with
  | nil => exact List.pairwise_singleton _ _
  | cons a rest =>
    obtain ⟨ha, hrest⟩ := List.pairwise_cons.mp h
    rw [insertList]
    split_ifs with hlt
    · refine List.pairwise_cons.mpr ⟨fun b hb => ?_, h⟩
      rcases List.mem_cons.mp hb with rfl | hb
      · omega
      · have := ha b hb
        omega
    · refine List.pairwise_cons.mpr ⟨fun b hb => ?_, insertBehind_sorted alarm hrest⟩
      rcases List.mem_cons.mp ((insertBehind_perm alarm rest).mem_iff.mp hb) with rfl | hb
      · omega
      · exact ha b hb

theorem insertAlarm_unset (alarm : Alarm) (t : ℤ) {s : Execute}
    (h : ∀ a ∈ s.alarms, a.isset = false) :
    insertAlarm alarm t s = .ok { s with alarms := insertList alarm s.alarms } := by
  unfold insertAlarm
  cases halarms : s.alarms with
  | nil => rfl
  | cons a rest =>
    have ha : a.isset = false := h a (by rw [halarms]; exact List.mem_cons_self)
    dsimp only
    rw [insertList]
    split_ifs with h1 h2 h3
    · rw [ha] at h2
      exact absurd h2 (by decide)
    · rfl
    · exact absurd h3.2 h1
    · rfl

/-- The first alarm is set: it stays so, or the new alarm is set in its place. -/
theorem insertAlarm_set {alarm : Alarm} (halarm : alarm.isset = false) (hrem : alarm.type ≠ .rem)
    (t : ℤ) {s : Execute} {a : Alarm} {rest : List Alarm} (h : s.alarms = a :: rest)
    (hset : a.isset = true) :
    insertAlarm alarm t s =
      if alarm.exptime < a.exptime then
        .ok { s with
          alarms := { alarm with isset := true } :: { a with isset := false } :: rest
          timer := some (if alarm.exptime - t ≤ 0 then (0, 10) else (alarm.exptime - t, 0)) }
      else .ok { s with alarms := a :: insertBehind alarm rest } := by
  unfold insertAlarm
  rw [h]
  dsimp only
  by_cases hlt : alarm.exptime < a.exptime
  · rw [if_pos hlt, if_pos hlt, if_pos hset, nextAlarm]
    dsimp only
    rw [List.dropWhile_cons_of_neg (by simpa using hrem)]
    dsimp only
    rw [halarm, if_neg (by decide)]
  · rw [if_neg hlt, if_neg hlt, if_neg (fun hand => hlt hand.2)]

/-- There is an alarm for a new cycle, which was not removed: the first alarm that was not is
set. -/
theorem nextAlarm_unset (t : ℤ) {s : Execute} (h : ∀ a ∈ s.alarms, a.isset = false)
    (hcycles : cycles s.alarms ≠ 0) :
    ∃ removed a rest, s.alarms = removed ++ a :: rest ∧ (∀ b ∈ removed, b.type = .rem) ∧
      ∃ value, nextAlarm t s =
        .ok { s with alarms := { a with isset := true } :: rest, timer := some value } := by
  obtain ⟨c, hc, htype⟩ : ∃ c ∈ s.alarms, c.type = .newcl := by
    have hpos : 0 < cycles s.alarms := Nat.pos_of_ne_zero hcycles
    rw [cycles, List.countP_pos_iff] at hpos
    simpa using hpos
  have hsplit := List.takeWhile_append_dropWhile (p := (·.type = .rem)) (l := s.alarms)
  cases hdrop : s.alarms.dropWhile (·.type = .rem) with
  | nil =>
    rw [hdrop, List.append_nil] at hsplit
    rw [← hsplit] at hc
    have hrem := List.mem_takeWhile_imp hc
    rw [htype] at hrem
    exact absurd hrem (by decide)
  | cons a rest =>
    rw [hdrop] at hsplit
    refine ⟨_, a, rest, hsplit.symm, fun b hb => by simpa using List.mem_takeWhile_imp hb, ?_⟩
    have ha : a.isset = false := h a (by rw [← hsplit]; simp)
    unfold nextAlarm
    rw [hdrop]
    dsimp only
    rw [if_neg (by rw [ha]; decide)]
    exact ⟨_, rfl⟩

theorem cycles_perm {alarms alarms' : List Alarm} (h : alarms.Perm alarms') :
    cycles alarms = cycles alarms' := h.countP_eq _

theorem cycles_cons (a : Alarm) (alarms : List Alarm) :
    cycles (a :: alarms) = cycles alarms + if a.type = .newcl then 1 else 0 := by
  rw [cycles, List.countP_cons]
  simp [cycles]

theorem cycles_append (alarms alarms' : List Alarm) :
    cycles (alarms ++ alarms') = cycles alarms + cycles alarms' := List.countP_append

theorem cycles_removed {alarms : List Alarm} (h : ∀ a ∈ alarms, a.type = .rem) :
    cycles alarms = 0 := by
  rw [cycles, List.countP_eq_zero]
  intro a ha
  rw [h a ha]
  decide

namespace WellFormed

variable {alarms : List Alarm} {a : Alarm}

theorem of_subset {alarms' : List Alarm} (h : WellFormed alarms) (hsorted : Sorted alarms')
    (hmem : ∀ b ∈ alarms', b ∈ alarms) : WellFormed alarms' :=
  ⟨hsorted, fun b hb => h.sect b (hmem b hb), fun b hb => h.cycle b (hmem b hb)⟩

theorem tail (h : WellFormed (a :: alarms)) : WellFormed alarms :=
  h.of_subset (List.pairwise_cons.mp h.sorted).2 fun _ hb => List.mem_cons_of_mem a hb

theorem append_right {alarms' : List Alarm} (h : WellFormed (alarms ++ alarms')) :
    WellFormed alarms' :=
  h.of_subset (List.pairwise_append.mp h.sorted).2.1 fun _ hb => List.mem_append_right alarms hb

/-- It does not matter whether the first alarm is set. -/
theorem head (h : WellFormed (a :: alarms)) (isset : Bool) :
    WellFormed ({ a with isset := isset } :: alarms) := by
  obtain ⟨ha, hrest⟩ := List.pairwise_cons.mp h.sorted
  refine ⟨List.pairwise_cons.mpr ⟨ha, hrest⟩, fun b hb => ?_, fun b hb => ?_⟩
  · rcases List.mem_cons.mp hb with rfl | hb
    · exact h.sect a List.mem_cons_self
    · exact h.sect b (List.mem_cons_of_mem a hb)
  · rcases List.mem_cons.mp hb with rfl | hb
    · exact h.cycle a List.mem_cons_self
    · exact h.cycle b (List.mem_cons_of_mem a hb)

theorem insert {alarms' : List Alarm} (h : WellFormed alarms) (hsorted : Sorted alarms')
    (hperm : alarms'.Perm (a :: alarms))
    (hsect : a.type = .strm ∨ a.type = .skill → a.sect ≠ none)
    (hcycle : a.type = .newcl → a.sect = none) : WellFormed alarms' := by
  refine ⟨hsorted, fun b hb => ?_, fun b hb => ?_⟩
  · rcases List.mem_cons.mp (hperm.mem_iff.mp hb) with rfl | hb
    · exact hsect
    · exact h.sect b hb
  · rcases List.mem_cons.mp (hperm.mem_iff.mp hb) with rfl | hb
    · exact hcycle
    · exact h.cycle b hb

theorem remove (h : WellFormed alarms) (p : Alarm → Prop) [DecidablePred p] :
    WellFormed (alarms.map fun a => if p a then { a with type := .rem } else a) := by
  refine ⟨?_, fun b hb => ?_, fun b hb => ?_⟩
  · rw [Sorted, List.pairwise_map]
    refine h.sorted.imp fun {a b} hab => ?_
    split_ifs <;> exact hab
  · obtain ⟨a, ha, rfl⟩ := List.mem_map.mp hb
    split_ifs
    · rintro (h1 | h1) <;> exact nomatch h1
    · exact h.sect a ha
  · obtain ⟨a, ha, rfl⟩ := List.mem_map.mp hb
    split_ifs
    · exact nofun
    · exact h.cycle a ha

end WellFormed

/-! ## Operations -/

section Operations

variable {s : Execute}

/-- Only the alarms, the timer and the progress of the main program matter. -/
theorem Inv.frame {s' : Execute} (h : Inv s) (halarms : s'.alarms = s.alarms)
    (htimer : s'.timer = s.timer) (hpending : s'.pending = s.pending) (hmain : s'.main = s.main)
    (hnext : s'.nextCycle = s.nextCycle) : Inv s' := by
  refine ⟨by rw [halarms]; exact h.wellFormed, ?_⟩
  cases h.phase with
  | armed a rest h1 h2 h3 h4 h5 h6 h7 h8 =>
    rw [← halarms] at h1 h4
    rw [← htimer, ← hpending] at h5 h6
    rw [← hmain] at h7
    rw [← hnext] at h8
    exact .armed a rest h1 h2 h3 h4 h5 h6 h7 h8
  | unarmed h1 h2 h3 h4 h5 =>
    rw [← halarms] at h1 h4
    rw [← htimer] at h2
    rw [← hpending] at h3
    rw [← hmain] at h4 h5
    rw [← hnext] at h5
    exact .unarmed h1 h2 h3 h4 h5

theorem Inv.insertAlarm (h : Inv s) (alarm : Alarm) (hunset : alarm.isset = false)
    (htype : alarm.type = .strm ∨ alarm.type = .skill) (hsect : alarm.sect ≠ none) (t : ℤ) :
    ∃ s', Execute.insertAlarm alarm t s = .ok s' ∧ Inv s' := by
  have hnew : alarm.type ≠ .newcl := by rcases htype with h1 | h1 <;> rw [h1] <;> decide
  have hrem : alarm.type ≠ .rem := by rcases htype with h1 | h1 <;> rw [h1] <;> decide
  have hwf := h.wellFormed
  -- no alarm is set, or the first one is
  cases h.phase with
  | unarmed h1 h2 h3 h4 h5 =>
    have hperm := insertList_perm alarm s.alarms
    refine ⟨_, insertAlarm_unset alarm t h1, hwf.insert (insertList_sorted alarm hwf.sorted) hperm
      (fun _ => hsect) (fun hc => absurd hc hnew), .unarmed ?_ h2 h3 ?_ h5⟩
    · intro a ha
      rcases List.mem_cons.mp (hperm.mem_iff.mp ha) with rfl | ha
      · exact hunset
      · exact h1 a ha
    · rw [cycles_perm hperm, cycles_cons, if_neg hnew]
      exact h4
  | armed a rest h1 h2 h3 h4 h5 h6 h7 h8 =>
    rw [insertAlarm_set hunset hrem t h1 h2]
    rw [h1] at hwf h4
    obtain ⟨ha, hrest⟩ := List.pairwise_cons.mp hwf.sorted
    by_cases hlt : alarm.exptime < a.exptime
    · -- the new alarm is set; a signal of the old one may be pending
      rw [if_pos hlt]
      have hsorted : Sorted (alarm :: { a with isset := false } :: rest) := by
        refine List.pairwise_cons.mpr ⟨fun b hb => ?_, (hwf.head false).sorted⟩
        rcases List.mem_cons.mp hb with rfl | hb
        · exact Int.le_of_lt hlt
        · have := ha b hb
          omega
      have hinsert := (hwf.head false).insert hsorted (List.Perm.refl _) (fun _ => hsect)
        (fun hc => absurd hc hnew)
      refine ⟨_, rfl, hinsert.head true, .armed _ _ rfl rfl ?_ ?_ (Or.inl (Option.some_ne_none _))
        (fun hc => absurd hc hnew) h7 h8⟩
      · intro b hb
        rcases List.mem_cons.mp hb with rfl | hb
        · rfl
        · exact h3 b hb
      · rw [cycles_cons] at h4
        rw [cycles_cons, cycles_cons, if_neg hnew]
        exact h4
    -- the new alarm comes behind the one that is set
    · rw [if_neg hlt]
      have hperm : (a :: insertBehind alarm rest).Perm (alarm :: a :: rest) :=
        ((insertBehind_perm alarm rest).cons a).trans (List.Perm.swap alarm a rest)
      have hsorted : Sorted (a :: insertBehind alarm rest) := by
        refine List.pairwise_cons.mpr ⟨fun b hb => ?_, insertBehind_sorted alarm hrest⟩
        rcases List.mem_cons.mp ((insertBehind_perm alarm rest).mem_iff.mp hb) with rfl | hb
        · omega
        · exact ha b hb
      refine ⟨_, rfl, hwf.insert hsorted hperm (fun _ => hsect) (fun hc => absurd hc hnew),
        .armed a _ rfl h2 ?_ ?_ h5 h6 h7 h8⟩
      · intro b hb
        rcases List.mem_cons.mp ((insertBehind_perm alarm rest).mem_iff.mp hb) with rfl | hb
        · exact hunset
        · exact h3 b hb
      · rw [cycles_perm hperm, cycles_cons, if_neg hnew]
        exact h4

theorem Inv.nextAlarm (hwf : WellFormed s.alarms) (hunset : ∀ a ∈ s.alarms, a.isset = false)
    (hcycles : cycles s.alarms = 1) (hpending : s.pending = false) (hnext : s.nextCycle = false)
    (t : ℤ) :
    ∃ s', Execute.nextAlarm t s = .ok s' ∧ s'.main = s.main ∧ Inv { s' with main := .idle } := by
  obtain ⟨removed, a, rest, hsplit, hremoved, value, hok⟩ :=
    nextAlarm_unset t hunset (by rw [hcycles]; decide)
  rw [hsplit] at hwf hcycles hunset
  rw [cycles_append, cycles_removed hremoved, Nat.zero_add] at hcycles
  refine ⟨_, hok, rfl, hwf.append_right.head true, .armed _ rest rfl rfl ?_ ?_
    (Or.inl (Option.some_ne_none _)) (fun _ => Or.inr hpending) rfl hnext⟩
  · exact fun b hb => hunset b (List.mem_append_right _ (List.mem_cons_of_mem a hb))
  · rw [cycles_cons] at hcycles ⊢
    exact hcycles

theorem Inv.expire (h : Inv s) : Inv s.expire := by
  unfold Execute.expire
  split_ifs with hnone
  · exact h
  · refine ⟨h.wellFormed, ?_⟩
    cases h.phase with
    | armed a rest h1 h2 h3 h4 h5 h6 h7 h8 =>
      exact .armed a rest h1 h2 h3 h4 (Or.inr rfl) (fun _ => Or.inl rfl) h7 h8
    | unarmed h1 h2 h3 h4 h5 => exact absurd h2 hnone

theorem Inv.sigAlrmHandler (h : Inv s) (hpending : s.pending = true) (t : ℤ) :
    ∃ s', Execute.sigAlrmHandler t s = .ok s' ∧ Inv s' := by
  cases h.phase with
  | unarmed h1 h2 h3 h4 h5 =>
    rw [h3] at hpending
    exact absurd hpending (by decide)
  | armed a rest h1 h2 h3 h4 h5 h6 h7 h8 =>
    have hwf := h.wellFormed
    rw [h1] at hwf h4
    have hsect : ¬ ((a.type = .strm ∨ a.type = .skill) ∧ a.sect = none) :=
      fun hand => hwf.sect a List.mem_cons_self hand.1 hand.2
    unfold Execute.sigAlrmHandler
    rw [h1]
    dsimp only
    rw [if_neg (by rw [h2]; decide), if_neg hsect]
    rw [cycles_cons] at h4
    by_cases htype : a.type = .newcl
    · -- the list stays unset until the next cycle is inserted
      rw [if_pos htype]
      rw [if_pos htype] at h4
      have htimer : s.timer = none := by
        rcases h6 htype with h6 | h6
        · exact h6
        · rw [hpending] at h6
          exact absurd h6 (by decide)
      refine ⟨_, rfl, hwf.tail, .unarmed h3 htimer rfl ?_ (fun hne => absurd h7 hne)⟩
      dsimp only
      rw [h7, if_neg (by decide)]
      omega
    · rw [if_neg htype]
      rw [if_neg htype] at h4
      have hcycle : (s.nextCycle || decide (a.type = .newcl)) = false := by
        rw [h8, decide_eq_false htype]
        -- an alarm of a section: the next alarm is set, among which there is the one for a new
        -- cycle
        rfl
      obtain ⟨s', hok, hmain, hinv⟩ := Inv.nextAlarm (s := { s with
        pending := false
        alarms := rest
        nextCycle := s.nextCycle || a.type = .newcl }) hwf.tail h3 h4 rfl hcycle t
      exact ⟨s', hok, hinv.frame rfl rfl rfl (hmain.trans h7) rfl⟩

theorem Inv.remove (h : Inv s) (i : ℕ) :
    Inv { s with alarms := s.alarms.map fun a =>
      if a.sect = some i ∧ a.isset = false then { a with type := .rem } else a } := by
  have hcount : cycles (s.alarms.map fun a =>
      if a.sect = some i ∧ a.isset = false then { a with type := .rem } else a) =
        cycles s.alarms := by
    rw [cycles, List.countP_map, cycles]
    apply List.countP_congr
    intro a ha
    dsimp only [Function.comp_apply]
    -- an alarm for a new cycle belongs to no section
    split_ifs with hp
    · have hcycle := h.wellFormed.cycle a ha
      rw [hp.1] at hcycle
      have hne : a.type ≠ .newcl := fun hc => absurd (hcycle hc) (by simp)
      simp [hne]
    · rfl
  refine ⟨h.wellFormed.remove _, ?_⟩
  cases h.phase with
  | armed a rest h1 h2 h3 h4 h5 h6 h7 h8 =>
    refine .armed a (rest.map fun a =>
      if a.sect = some i ∧ a.isset = false then { a with type := .rem } else a) ?_ h2 ?_
      (hcount.trans h4) h5 h6 h7 h8
    · dsimp only
      rw [h1, List.map_cons, if_neg (by rw [h2]; simp)]
    · intro b hb
      obtain ⟨c, hc, rfl⟩ := List.mem_map.mp hb
      split_ifs
      · exact h3 c hc
      · exact h3 c hc
  | unarmed h1 h2 h3 h4 h5 =>
    refine .unarmed ?_ h2 h3 (hcount.trans h4) h5
    intro b hb
    obtain ⟨c, hc, rfl⟩ := List.mem_map.mp hb
    split_ifs
    · exact h1 c hc
    · exact h1 c hc

theorem Inv.setAlarm (h : Inv s) (i limit : ℕ) (inp : Input) :
    ∃ s', Execute.setAlarm i limit inp s = .ok s' ∧ Inv s' := by
  have hexpire : ∀ (b : Bool) {s : Execute}, Inv s → Inv (if b then s.expire else s) := by
    intro b s hs
    cases b with
    | false => exact hs
    | true => exact hs.expire
  unfold Execute.setAlarm
  by_cases hlimit : limit = 0
  · rw [if_pos hlimit]
    exact ⟨s, rfl, h⟩
  · rw [if_neg hlimit]
    dsimp only
    obtain ⟨s1, h1, hinv1⟩ := (hexpire inp.early h).insertAlarm
      (newTermAlarm (inp.time - inp.time.tmod basePeriod + limit - 1) i) rfl (Or.inl rfl)
      (Option.some_ne_none i) inp.termTime
    obtain ⟨s2, h2, hinv2⟩ := (hexpire inp.late hinv1).insertAlarm
      (newKillAlarm (inp.time - inp.time.tmod basePeriod + limit) i) rfl (Or.inr rfl)
      (Option.some_ne_none i) inp.killTime
    exact ⟨s2, by rw [h1]; exact h2, hinv2⟩

theorem Inv.launch (h : Inv s) (i : ℕ) (inp : Input) :
    ∃ s', Execute.launch i inp s = .ok s' ∧ Inv s' := by
  unfold Execute.launch
  cases s.sections[i]? with
  | none => exact ⟨s, rfl, h⟩
  | some sect =>
    dsimp only
    have hframe : Inv { s with sections := s.sections.set i { sect with pid := inp.pid } } :=
      h.frame rfl rfl rfl rfl rfl
    split_ifs
    · exact hframe.setAlarm i sect.limit inp
    · exact ⟨_, rfl, hframe⟩

theorem Inv.runSections (h : Inv s) (inputs : ℕ → Input) (n : ℕ) :
    ∃ s', Execute.runSections inputs n s = .ok s' ∧ Inv s' := by
  have hadvance : ∀ {s : Execute}, Inv s → Inv s.advance := fun hs => hs.frame rfl rfl rfl rfl rfl
  induction n generalizing s with
  | zero => exact ⟨s, rfl, h⟩
  | succ n ih =>
    rw [Execute.runSections]
    cases s.current with
    | none => exact ⟨s, rfl, h⟩
    | some i =>
      dsimp only
      cases s.sections[i]? with
      | none => exact ⟨s, rfl, h⟩
      | some sect =>
        dsimp only
        split_ifs with hrun hparallel
        · obtain ⟨s1, h1, hinv1⟩ := h.launch i (inputs i)
          obtain ⟨s2, h2, hinv2⟩ := ih (hadvance hinv1)
          exact ⟨s2, by rw [h1]; exact h2, hinv2⟩
        · obtain ⟨s1, h1, hinv1⟩ := h.launch i (inputs i)
          exact ⟨s1, by rw [h1]; rfl, hinv1⟩
        · exact ih (hadvance h)

theorem Inv.childExit_found (h : Inv s) {e : Exit} {i : ℕ}
    (hfound : s.sections.findIdx? (·.pid = e.pid) = some i) :
    ∃ s', Execute.childExit s e = .ok s' ∧ Inv s' := by
  unfold Execute.childExit
  rw [hfound]
  dsimp only
  by_cases hcurrent : s.current = some i
  · rw [if_pos hcurrent]
    apply Inv.runSections
    exact (h.remove i).frame rfl rfl rfl rfl rfl
  · rw [if_neg hcurrent]
    exact ⟨_, rfl, (h.remove i).frame rfl rfl rfl rfl rfl⟩

/-- One child that ended; only the assertion that its section is known may fail. -/
theorem Inv.childExit (h : Inv s) (e : Exit) :
    Execute.childExit s e = .error .sigChldHandler ∨
      ∃ s', Execute.childExit s e = .ok s' ∧ Inv s' := by
  cases hfound : s.sections.findIdx? (·.pid = e.pid) with
  | none =>
    left
    unfold Execute.childExit
    rw [hfound]
  | some i => exact Or.inr (h.childExit_found hfound)

theorem Inv.sigChldHandler (h : Inv s) (exits : List Exit) :
    Execute.sigChldHandler exits s = .error .sigChldHandler ∨
      ∃ s', Execute.sigChldHandler exits s = .ok s' ∧ Inv s' := by
  unfold Execute.sigChldHandler
  induction exits generalizing s with
  | nil => exact Or.inr ⟨s, rfl, h⟩
  | cons e exits ih =>
    rw [List.foldlM_cons]
    rcases h.childExit e with herror | ⟨s1, h1, hinv1⟩
    · rw [herror]
      exact Or.inl rfl
    · rw [h1]
      exact ih hinv1

theorem Inv.review (h : Inv s) (inp : Input) :
    ∃ s', Execute.review inp s = .ok s' ∧ Inv s' := by
  unfold Execute.review
  cases s.current with
  | none => exact ⟨s, rfl, h⟩
  | some i =>
    dsimp only
    cases s.sections[i]? with
    | none => exact ⟨s, rfl, h⟩
    | some sect =>
      dsimp only
      split_ifs
      · exact h.launch i inp
      · exact ⟨s, rfl, h⟩

/-- The alarm for the next cycle is inserted after the last one has been handled. -/
theorem Inv.insertCycle (h : Inv s) (hmain : s.main = .leaving) (t t' : ℤ) :
    ∃ s', Execute.insertAlarm (newCycleAlarm t) t' s = .ok s' ∧
      Inv { s' with main := .inserted } := by
  cases h.phase with
  | armed a rest h1 h2 h3 h4 h5 h6 h7 h8 =>
    rw [h7] at hmain
    exact nomatch hmain
  | unarmed h1 h2 h3 h4 h5 =>
    have hwf := h.wellFormed
    have hperm := insertList_perm (newCycleAlarm t) s.alarms
    refine ⟨_, insertAlarm_unset _ t' h1, hwf.insert (insertList_sorted _ hwf.sorted) hperm
      (by rintro (h | h) <;> exact nomatch h) (fun _ => rfl),
      .unarmed ?_ h2 h3 ?_ (fun _ => h5 (by rw [hmain]; decide))⟩
    · intro a ha
      rcases List.mem_cons.mp (hperm.mem_iff.mp ha) with rfl | ha
      · rfl
      · exact h1 a ha
    · rw [hmain, if_neg (by decide)] at h4
      dsimp only
      rw [cycles_perm hperm, cycles_cons, h4]
      rfl

theorem Inv.armCycle (h : Inv s) (hmain : s.main = .inserted) (t : ℤ) :
    ∃ s', Execute.nextAlarm t s = .ok s' ∧ Inv { s' with main := .idle } := by
  cases h.phase with
  | armed a rest h1 h2 h3 h4 h5 h6 h7 h8 =>
    rw [h7] at hmain
    exact nomatch hmain
  | unarmed h1 h2 h3 h4 h5 =>
    rw [if_pos hmain] at h4
    obtain ⟨s', hok, -, hinv⟩ :=
      Inv.nextAlarm h.wellFormed h1 h4 h3 (h5 (by rw [hmain]; decide)) t
    exact ⟨s', hok, hinv⟩

/-- No assertion fails when no child ended. -/
theorem Inv.step_ok (h : Inv s) {ev : Event} (hev : ∀ exits, ev ≠ .sigchld exits) :
    ∃ s', Execute.step s ev = .ok s' ∧ Inv s' := by
  cases ev with
  | expire => exact ⟨_, rfl, h.expire⟩
  | sigalrm t =>
    rw [Execute.step]
    split_ifs with hpending
    · exact h.sigAlrmHandler hpending t
    · exact ⟨s, rfl, h⟩
  | sigchld exits => exact absurd rfl (hev exits)
  | markToRun lt => exact ⟨_, rfl, h.frame rfl rfl rfl rfl rfl⟩
  | review inp => exact h.review inp
  | advance => exact ⟨_, rfl, h.frame rfl rfl rfl rfl rfl⟩
  | leaveWait =>
    rw [Execute.step]
    split_ifs with hleave
    · refine ⟨_, rfl, h.wellFormed, ?_⟩
      cases h.phase with
      | armed a rest h1 h2 h3 h4 h5 h6 h7 h8 =>
        rw [h8] at hleave
        exact absurd hleave.1 (by decide)
      | unarmed h1 h2 h3 h4 h5 =>
        rw [hleave.2, if_neg (by decide)] at h4
        exact .unarmed h1 h2 h3 h4 (fun _ => rfl)
    · exact ⟨s, rfl, h⟩
  | insertCycle t t' =>
    rw [Execute.step]
    split_ifs with hmain
    · obtain ⟨s1, h1, hinv1⟩ := h.insertCycle hmain t t'
      exact ⟨_, by rw [h1]; rfl, hinv1⟩
    · exact ⟨s, rfl, h⟩
  | armCycle t =>
    rw [Execute.step]
    split_ifs with hmain
    · obtain ⟨s1, h1, hinv1⟩ := h.armCycle hmain t
      exact ⟨_, by rw [h1]; rfl, hinv1⟩
    · exact ⟨s, rfl, h⟩

theorem Inv.step (h : Inv s) (ev : Event) :
    Execute.step s ev = .error .sigChldHandler ∨ ∃ s', Execute.step s ev = .ok s' ∧ Inv s' := by
  by_cases hev : ∃ exits, ev = .sigchld exits
  · obtain ⟨exits, rfl⟩ := hev
    exact h.sigChldHandler exits
  · exact Or.inr (h.step_ok fun exits heq => hev ⟨exits, heq⟩)

theorem inv_getReady (sections : List ExecSection) (t t' : ℤ) :
    ∃ s, getReady t t' (new sections) = .ok s ∧ Inv s := by
  have hwf : WellFormed [newCycleAlarm t] := by
    refine ⟨List.pairwise_singleton _ _, fun a ha => ?_, fun a ha _ => ?_⟩
    · rw [List.mem_singleton.mp ha]
      rintro (h | h) <;> exact nomatch h
    · rw [List.mem_singleton.mp ha]
      rfl
  have hunset : ∀ a ∈ [newCycleAlarm t], a.isset = false := by
    intro a ha
    rw [List.mem_singleton.mp ha]
    rfl
  obtain ⟨s, hok, hmain, hinv⟩ := Inv.nextAlarm (s := { new sections with
    alarms := [newCycleAlarm t] }) hwf hunset rfl rfl rfl t'
  exact ⟨s, hok, hinv.frame rfl rfl rfl hmain rfl⟩

theorem run_inv (h : Inv s) (events : List Event) :
    run s events = .error .sigChldHandler ∨ ∃ s', run s events = .ok s' ∧ Inv s' := by
  unfold run
  induction events generalizing s with
  | nil => exact Or.inr ⟨s, rfl, h⟩
  | cons ev events ih =>
    rw [List.foldlM_cons]
    rcases h.step ev with herror | ⟨s1, h1, hinv1⟩
    · rw [herror]
      exact Or.inl rfl
    · rw [h1]
      exact ih hinv1

end Operations

/-- The alarms are sorted, only the first may be set, the timer is running or its signal is pending
exactly when it is, and there is at most one alarm for a new cycle. -/
structure InOrder (s : Execute) : Prop where
  sorted : s.alarms.Pairwise fun a b => a.exptime ≤ b.exptime
  tail : ∀ a ∈ s.alarms.tail, a.isset = false
  timer : s.timer ≠ none ∨ s.pending = true ↔ ∃ a, s.alarms.head? = some a ∧ a.isset = true
  cycles : s.alarms.countP (·.type = .newcl) ≤ 1

theorem Inv.inOrder {s : Execute} (h : Inv s) : InOrder s := by
  cases h.phase with
  | armed a rest h1 h2 h3 h4 h5 h6 h7 h8 =>
    refine ⟨h.wellFormed.sorted, ?_, ⟨fun _ => ⟨a, ?_, h2⟩, fun _ => h5⟩, h4.le⟩
    · rw [h1]
      exact h3
    · rw [h1]
      rfl
  | unarmed h1 h2 h3 h4 h5 =>
    refine ⟨h.wellFormed.sorted, fun a ha => h1 a (List.mem_of_mem_tail ha), ?_, ?_⟩
    · constructor
      · rintro (htimer | hpending)
        · exact absurd h2 htimer
        · rw [h3] at hpending
          exact absurd hpending (by decide)
      · rintro ⟨a, ha, hset⟩
        rw [h1 a (List.mem_of_mem_head? ha)] at hset
        exact absurd hset (by decide)
    · change Execute.cycles s.alarms ≤ 1
      rw [h4]
      split_ifs <;> decide

/-- Whatever happens after the start, the alarms are in order and no assertion about them fails;
only a child that no section knows ends the program. -/
theorem run_inOrder (sections : List ExecSection) (t t' : ℤ) (events : List Event) :
    ∃ s, getReady t t' (new sections) = .ok s ∧
      (run s events = .error .sigChldHandler ∨ ∃ s', run s events = .ok s' ∧ InOrder s') := by
  obtain ⟨s, hok, hinv⟩ := inv_getReady sections t t'
  refine ⟨s, hok, ?_⟩
  rcases run_inv hinv events with herror | ⟨s', hrun, hinv'⟩
  · exact Or.inl herror
  · exact Or.inr ⟨s', hrun, hinv'.inOrder⟩

end Execute
end Meaner
end Szarp
