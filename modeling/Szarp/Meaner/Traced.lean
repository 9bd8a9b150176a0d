import Mathlib.Logic.Function.Basic
import Szarp.Lib.Run
import Szarp.Meaner.Execute

/-!
# The executor with its processes

The executor together with what the program does not know: the processes that were not reaped, the
launch that each alarm was made for, and how the runs of each section ended. Without these it is
the executor of `Execute`.
-/

namespace Szarp
namespace Meaner

/-- An alarm with the launch that it was made for. -/
structure OwnedAlarm where
  alarm : Alarm
  launch : ℕ

/-- A process that was not reaped, with its section and its launch. -/
structure Child where
  pid : ℤ
  sect : ℕ
  launch : ℕ

/-- What `waitpid` reports. -/
inductive WaitStatus where
  | exited (code : ℕ)
  | signaled
  | stopped
deriving DecidableEq

/-- `fail` of the handler is unset. -/
def WaitStatus.success : WaitStatus → Bool
  | .exited code => code = 0
  | _ => false

/-- A child that `waitpid` reports, and what the launches of further sections get. -/
structure Report where
  pid : ℤ
  status : WaitStatus
  inputs : ℕ → Execute.Input

/-- The processes that are left; a process that is stopped is still there. -/
def Report.remaining (r : Report) (children : List Child) : List Child :=
  if r.status = .stopped then children else children.filter (·.pid ≠ r.pid)

def Report.exit (r : Report) : Execute.Exit := ⟨r.pid, r.status.success, r.inputs⟩

/-- The executor, whose alarms are kept aside with their launches. -/
structure Traced where
  base : Execute
  alarms : List OwnedAlarm
  /-- The number of launches. -/
  launches : ℕ
  /-- The last launch of each section. -/
  last : ℕ → ℕ
  children : List Child
  /-- Whether the runs of a section that ended were successful, the last one first. -/
  outcomes : ℕ → List Bool
  /-- The time with which sections were marked. -/
  marked : Option CronTime

namespace Traced

open Execute (Input)

def erase (x : Traced) : Execute := { x.base with alarms := x.alarms.map OwnedAlarm.alarm }

def nextAlarm (t : ℤ) (x : Traced) : Except Assertion Traced :=
  match x.alarms.dropWhile (·.alarm.type = .rem) with
  | [] => .ok { x with alarms := [] }
  | a :: rest =>
    if a.alarm.isset then .error .nextAlarm
    else
      .ok { x with
        alarms := { a with alarm := { a.alarm with isset := true } } :: rest
        base := { x.base with
          timer := some (if a.alarm.exptime - t ≤ 0 then (0, 10) else (a.alarm.exptime - t, 0)) } }

def insertBehind (alarm : OwnedAlarm) : List OwnedAlarm → List OwnedAlarm
  | [] => [alarm]
  | a :: rest =>
    if a.alarm.exptime ≤ alarm.alarm.exptime then a :: insertBehind alarm rest
    else alarm :: a :: rest

/-- `InsertAlarm`; `t` is the time that `NextAlarm` reads. -/
def insertAlarm (alarm : OwnedAlarm) (t : ℤ) (x : Traced) : Except Assertion Traced :=
  match x.alarms with
  | [] => .ok { x with alarms := [alarm] }
  | a :: rest =>
    if alarm.alarm.exptime < a.alarm.exptime then
      if a.alarm.isset then
        nextAlarm t { x with
          alarms := alarm :: { a with alarm := { a.alarm with isset := false } } :: rest }
      else .ok { x with alarms := alarm :: a :: rest }
    else if a.alarm.isset = false ∧ alarm.alarm.exptime < a.alarm.exptime then
      .ok { x with alarms := alarm :: a :: rest }
    else .ok { x with alarms := a :: insertBehind alarm rest }

def expire (x : Traced) : Traced := { x with base := x.base.expire }

def setAlarm (i limit launch : ℕ) (inp : Input) (x : Traced) : Except Assertion Traced :=
  if limit = 0 then .ok x
  else
    let t := inp.time - inp.time.tmod basePeriod + limit
    (insertAlarm ⟨newTermAlarm (t - 1) i, launch⟩ inp.termTime
      (if inp.early then x.expire else x)).bind
      fun x => insertAlarm ⟨newKillAlarm t i, launch⟩ inp.killTime
        (if inp.late then x.expire else x)

def launch (i : ℕ) (inp : Input) (x : Traced) : Except Assertion Traced :=
  match x.base.sections[i]? with
  | none => .ok x
  | some sect =>
    let x := { x with
      base := { x.base with sections := x.base.sections.set i { sect with pid := inp.pid } }
      launches := x.launches + 1
      last := Function.update x.last i x.launches
      children := if inp.pid > 0 then ⟨inp.pid, i, x.launches⟩ :: x.children else x.children }
    if inp.pid > 0 then setAlarm i sect.limit (x.last i) inp x else .ok x

def advance (x : Traced) : Traced := { x with base := x.base.advance }

/-- `RunSections` while signals are blocked. -/
def runSections (inputs : ℕ → Input) : ℕ → Traced → Except Assertion Traced
  | 0, x => .ok x
  | n + 1, x =>
    match x.base.current with
    | none => .ok x
    | some i =>
      match x.base.sections[i]? with
      | none => .ok x
      | some sect =>
        if sect.checkRun then
          (launch i (inputs i) x).bind fun x =>
            if sect.parallel then runSections inputs n x.advance else .ok x
        else runSections inputs n x.advance

/-- The pass of the loop of `SigChldHandler` for a child that is reported. -/
def childReport (x : Traced) (r : Report) : Except Assertion Traced :=
  match x.base.sections.findIdx? (·.pid = r.pid) with
  | none => .error .sigChldHandler
  | some i =>
    let x := { x with
      alarms := x.alarms.map fun a =>
        if a.alarm.sect = some i ∧ a.alarm.isset = false then
          { a with alarm := { a.alarm with type := .rem } }
        else a
      base := { x.base with
        sections := x.base.sections.modify i fun sect =>
          let sect := { sect with pid := 0 }
          if r.status.success then sect else sect.checkRetry }
      children := r.remaining x.children
      outcomes := if r.status = .stopped then x.outcomes
        else Function.update x.outcomes i (r.status.success :: x.outcomes i) }
    if x.base.current = some i then runSections r.inputs (x.base.sections.length + 1) x.advance
    else .ok x

def sigAlrmHandler (t : ℤ) (x : Traced) : Except Assertion Traced :=
  match x.alarms with
  | [] => .error .sigAlrmHandler
  | a :: rest =>
    if a.alarm.isset = false then .error .sigAlrmHandler
    else if (a.alarm.type = .strm ∨ a.alarm.type = .skill) ∧ a.alarm.sect = none then
      .error .sigAlrmHandler
    else
      let x := { x with
        alarms := rest
        base := { x.base with
          pending := false
          nextCycle := x.base.nextCycle || a.alarm.type = .newcl } }
      if a.alarm.type = .newcl then .ok x else nextAlarm t x

def markToRun (lt : CronTime) (x : Traced) : Traced :=
  { x with base := x.base.markToRun lt, marked := some lt }

/-- The loop of `RunSections` in the main program, up to the end of `Launch`. -/
def review (inp : Input) (x : Traced) : Except Assertion Traced :=
  match x.base.current with
  | none => .ok x
  | some i =>
    match x.base.sections[i]? with
    | none => .ok x
    | some sect => if sect.checkRun then launch i inp x else .ok x

/-- What happens; a handler that finds several children is a sequence of reports. -/
inductive Event where
  | expire
  | sigalrm (t : ℤ)
  | report (r : Report)
  | markToRun (lt : CronTime)
  | review (inp : Input)
  | advance
  | leaveWait
  | insertCycle (t t' : ℤ)
  | armCycle (t : ℤ)

def Event.erase : Event → Execute.Event
  | .expire => .expire
  | .sigalrm t => .sigalrm t
  | .report r => .sigchld [r.exit]
  | .markToRun lt => .markToRun lt
  | .review inp => .review inp
  | .advance => .advance
  | .leaveWait => .leaveWait
  | .insertCycle t t' => .insertCycle t t'
  | .armCycle t => .armCycle t

def stepExcept (x : Traced) : Event → Except Assertion Traced
  | .expire => .ok x.expire
  | .sigalrm t => if x.base.pending then sigAlrmHandler t x else .ok x
  | .report r => childReport x r
  | .markToRun lt => .ok (x.markToRun lt)
  | .review inp => review inp x
  | .advance => .ok x.advance
  | .leaveWait =>
    if x.base.nextCycle ∧ x.base.main = .idle then
      .ok { x with base := { x.base with nextCycle := false, main := .leaving } }
    else .ok x
  | .insertCycle t t' =>
    if x.base.main = .leaving then
      (insertAlarm ⟨newCycleAlarm t, 0⟩ t' x).map fun x =>
        { x with base := { x.base with main := .inserted } }
    else .ok x
  | .armCycle t =>
    if x.base.main = .inserted then
      (nextAlarm t x).map fun x => { x with base := { x.base with main := .idle } }
    else .ok x

/-- A step; a failed assertion ends the program. -/
def step (x : Traced) (ev : Event) : Option Traced := (stepExcept x ev).toOption

def start (sections : List ExecSection) (t t' : ℤ) : Except Assertion Traced :=
  (insertAlarm ⟨newCycleAlarm t, 0⟩ t'
    ⟨Execute.new sections, [], 0, fun _ => 0, [], fun _ => [], none⟩).bind (nextAlarm t')

/-! ## Erasure -/

section Erasure

theorem erase_nextAlarm (t : ℤ) (x : Traced) :
    (nextAlarm t x).map erase = Execute.nextAlarm t x.erase := by
  rw [nextAlarm, Execute.nextAlarm]
  have hdrop : x.erase.alarms.dropWhile (·.type = .rem) =
      (x.alarms.dropWhile (·.alarm.type = .rem)).map OwnedAlarm.alarm := List.dropWhile_map
  rw [hdrop]
  cases x.alarms.dropWhile (·.alarm.type = .rem) with
  | nil => rfl
  | cons a rest =>
    rw [List.map_cons]
    dsimp only
    by_cases hset : a.alarm.isset = true
    · rw [if_pos hset, if_pos hset]
      rfl
    · rw [if_neg hset, if_neg hset]
      rfl

theorem erase_insertBehind (alarm : OwnedAlarm) (alarms : List OwnedAlarm) :
    (insertBehind alarm alarms).map OwnedAlarm.alarm =
      Execute.insertBehind alarm.alarm (alarms.map OwnedAlarm.alarm) := by
  induction alarms with
  | nil => rfl
  | cons a rest ih =>
    rw [insertBehind, List.map_cons, Execute.insertBehind]
    split_ifs
    · rw [List.map_cons, ih]
    · rfl

theorem erase_insertAlarm (alarm : OwnedAlarm) (t : ℤ) (x : Traced) :
    (insertAlarm alarm t x).map erase = Execute.insertAlarm alarm.alarm t x.erase := by
  rw [insertAlarm, Execute.insertAlarm]
  have halarms : x.erase.alarms = x.alarms.map OwnedAlarm.alarm := rfl
  rw [halarms]
  cases hx : x.alarms with
  | nil => rfl
  | cons a rest =>
    rw [List.map_cons]
    dsimp only
    split_ifs with h1 h2 h3
    · exact erase_nextAlarm t _
    · rfl
    · rfl
    · rw [← erase_insertBehind]
      rfl

theorem erase_expire (x : Traced) : x.expire.erase = x.erase.expire := by
  rw [expire, erase, Execute.expire, Execute.expire]
  split_ifs <;> first | rfl | contradiction

theorem erase_ite_expire (b : Bool) (x : Traced) :
    (if b then x.expire else x).erase = if b then x.erase.expire else x.erase := by
  cases b with
  | false => rfl
  | true => exact erase_expire x

theorem erase_bind {r : Except Assertion Traced} {f : Traced → Except Assertion Traced}
    {g : Execute → Except Assertion Execute} (h : ∀ x, (f x).map erase = g x.erase) :
    (r.bind f).map erase = (r.map erase).bind g := by
  cases r with
  | error e => rfl
  | ok x => exact h x

theorem erase_setAlarm (i limit launch : ℕ) (inp : Input) (x : Traced) :
    (setAlarm i limit launch inp x).map erase = Execute.setAlarm i limit inp x.erase := by
  rw [setAlarm, Execute.setAlarm]
  by_cases hlimit : limit = 0
  · rw [if_pos hlimit, if_pos hlimit]
    rfl
  · rw [if_neg hlimit, if_neg hlimit]
    dsimp only
    rw [erase_bind (g := fun s => Execute.insertAlarm
      (newKillAlarm (inp.time - inp.time.tmod basePeriod + limit) i) inp.killTime
      (if inp.late then s.expire else s))]
    · rw [erase_insertAlarm, erase_ite_expire]
    · intro x
      rw [erase_insertAlarm, erase_ite_expire]

theorem erase_launch (i : ℕ) (inp : Input) (x : Traced) :
    (launch i inp x).map erase = Execute.launch i inp x.erase := by
  rw [launch, Execute.launch]
  have hsections : x.erase.sections = x.base.sections := rfl
  rw [hsections]
  cases x.base.sections[i]? with
  | none => rfl
  | some sect =>
    dsimp only
    split_ifs
    · exact erase_setAlarm i sect.limit _ inp _
    · rfl

theorem erase_runSections (inputs : ℕ → Input) (n : ℕ) (x : Traced) :
    (runSections inputs n x).map erase = Execute.runSections inputs n x.erase := by
  induction n generalizing x with
  | zero => rfl
  | succ n ih =>
    rw [runSections, Execute.runSections]
    have hcurrent : x.erase.current = x.base.current := rfl
    have hsections : x.erase.sections = x.base.sections := rfl
    rw [hcurrent, hsections]
    cases x.base.current with
    | none => rfl
    | some i =>
      dsimp only
      cases x.base.sections[i]? with
      | none => rfl
      | some sect =>
        dsimp only
        split_ifs
        · rw [erase_bind (g := fun s => Execute.runSections inputs n s.advance) (fun x => ih x.advance),
            erase_launch]
        · rw [erase_bind (g := fun s => .ok s) (fun x => rfl), erase_launch]
        · exact ih x.advance

theorem erase_childReport (x : Traced) (r : Report) :
    (childReport x r).map erase = Execute.childExit x.erase r.exit := by
  rw [childReport, Execute.childExit]
  have hsections : x.erase.sections = x.base.sections := rfl
  have hcurrent : x.erase.current = x.base.current := rfl
  have hpid : r.exit.pid = r.pid := rfl
  rw [hsections, hcurrent, hpid]
  cases x.base.sections.findIdx? (·.pid = r.pid) with
  | none => rfl
  | some i =>
    dsimp only
    have halarms : (x.alarms.map fun a =>
        if a.alarm.sect = some i ∧ a.alarm.isset = false then
          { a with alarm := { a.alarm with type := .rem } }
        else a).map OwnedAlarm.alarm = x.erase.alarms.map fun a =>
          if a.sect = some i ∧ a.isset = false then { a with type := .rem } else a := by
      rw [erase, List.map_map, List.map_map]
      apply List.map_congr_left
      intro a _
      dsimp only [Function.comp_apply]
      split_ifs <;> rfl
    rw [← halarms]
    by_cases hi : x.base.current = some i
    · rw [if_pos hi, if_pos hi]
      exact erase_runSections r.inputs _ _
    · rw [if_neg hi, if_neg hi]
      rfl

theorem erase_sigAlrmHandler (t : ℤ) (x : Traced) :
    (sigAlrmHandler t x).map erase = Execute.sigAlrmHandler t x.erase := by
  rw [sigAlrmHandler, Execute.sigAlrmHandler]
  have halarms : x.erase.alarms = x.alarms.map OwnedAlarm.alarm := rfl
  rw [halarms]
  cases x.alarms with
  | nil => rfl
  | cons a rest =>
    rw [List.map_cons]
    dsimp only
    split_ifs
    · rfl
    · rfl
    · rfl
    · exact erase_nextAlarm t _

theorem erase_review (inp : Input) (x : Traced) :
    (review inp x).map erase = Execute.review inp x.erase := by
  rw [review, Execute.review]
  have hcurrent : x.erase.current = x.base.current := rfl
  have hsections : x.erase.sections = x.base.sections := rfl
  rw [hcurrent, hsections]
  cases x.base.current with
  | none => rfl
  | some i =>
    dsimp only
    cases x.base.sections[i]? with
    | none => rfl
    | some sect =>
      dsimp only
      split_ifs
      · exact erase_launch i inp x
      · rfl

/-- Without what the program does not know, a step is a step of the executor. -/
theorem erase_stepExcept (x : Traced) (ev : Event) :
    (stepExcept x ev).map erase = Execute.step x.erase ev.erase := by
  cases ev with
  | expire => exact congrArg Except.ok (erase_expire x)
  | sigalrm t =>
    have hpending : x.erase.pending = x.base.pending := rfl
    rw [stepExcept, Event.erase, Execute.step, hpending]
    split_ifs
    · exact erase_sigAlrmHandler t x
    · rfl
  | report r =>
    rw [stepExcept, Event.erase, Execute.step, Execute.sigChldHandler, List.foldlM_cons,
      erase_childReport]
    exact (bind_pure _).symm
  | markToRun lt => rfl
  | review inp => exact erase_review inp x
  | advance => rfl
  | leaveWait =>
    have hnext : x.erase.nextCycle = x.base.nextCycle := rfl
    have hmain : x.erase.main = x.base.main := rfl
    rw [stepExcept, Event.erase, Execute.step, hnext, hmain]
    split_ifs <;> rfl
  | insertCycle t t' =>
    have hmain : x.erase.main = x.base.main := rfl
    rw [stepExcept, Event.erase, Execute.step, hmain]
    split_ifs
    · rw [← erase_insertAlarm ⟨newCycleAlarm t, 0⟩]
      cases insertAlarm ⟨newCycleAlarm t, 0⟩ t' x <;> rfl
    · rfl
  | armCycle t =>
    have hmain : x.erase.main = x.base.main := rfl
    rw [stepExcept, Event.erase, Execute.step, hmain]
    split_ifs
    · rw [← erase_nextAlarm]
      cases nextAlarm t x <;> rfl
    · rfl

theorem erase_start (sections : List ExecSection) (t t' : ℤ) :
    (start sections t t').map erase = Execute.getReady t t' (Execute.new sections) := by
  rw [start, erase_bind (erase_nextAlarm t'), erase_insertAlarm]
  rfl

end Erasure

/-- Where the executor goes on, so does the executor with its processes. -/
theorem stepExcept_ok {x : Traced} {ev : Event} {s : Execute}
    (h : Execute.step x.erase ev.erase = .ok s) : ∃ y, stepExcept x ev = .ok y ∧ y.erase = s := by
  rw [← erase_stepExcept] at h
  cases hstep : stepExcept x ev with
  | error e =>
    rw [hstep] at h
    exact nomatch h
  | ok y =>
    rw [hstep] at h
    exact ⟨y, rfl, Except.ok.inj h⟩

theorem inv_stepExcept {x y : Traced} (h : Execute.Inv x.erase) {ev : Event}
    (hstep : stepExcept x ev = .ok y) : Execute.Inv y.erase := by
  have herase := erase_stepExcept x ev
  rw [hstep] at herase
  rcases h.step ev.erase with herror | ⟨s, hok, hinv⟩
  · exact nomatch herase.trans herror
  · exact (Except.ok.inj (herase.trans hok)) ▸ hinv

/-! ## What an operation leaves -/

/-- What concerns the sections and their processes is the same. -/
structure SameProcesses (x y : Traced) : Prop where
  sections : y.base.sections = x.base.sections
  current : y.base.current = x.base.current
  launches : y.launches = x.launches
  last : y.last = x.last
  children : y.children = x.children
  outcomes : y.outcomes = x.outcomes
  marked : y.marked = x.marked

/-- The launch, the section and the type of an alarm. -/
def tag (a : OwnedAlarm) : ℕ × Option ℕ × AlarmType := (a.launch, a.alarm.sect, a.alarm.type)

def tags (alarms : List OwnedAlarm) : List (ℕ × Option ℕ × AlarmType) :=
  alarms.map tag

section Frames

variable {x y : Traced}

theorem sameProcesses_alarms (x : Traced) (alarms : List OwnedAlarm) :
    SameProcesses x { x with alarms := alarms } :=
  ⟨rfl, rfl, rfl, rfl, rfl, rfl, rfl⟩

theorem SameProcesses.trans {z : Traced} (h : SameProcesses x y) (h' : SameProcesses y z) :
    SameProcesses x z :=
  ⟨h'.sections.trans h.sections, h'.current.trans h.current, h'.launches.trans h.launches,
    h'.last.trans h.last, h'.children.trans h.children, h'.outcomes.trans h.outcomes,
    h'.marked.trans h.marked⟩

theorem nextAlarm_frame {t : ℤ} (h : nextAlarm t x = .ok y) :
    SameProcesses x y ∧ tags y.alarms ⊆ tags x.alarms := by
  unfold nextAlarm at h
  have hsub : tags (x.alarms.dropWhile (·.alarm.type = .rem)) ⊆ tags x.alarms :=
    List.map_subset _ (List.dropWhile_subset _)
  cases hdrop : x.alarms.dropWhile (·.alarm.type = .rem) with
  | nil =>
    rw [hdrop] at h
    cases h
    exact ⟨sameProcesses_alarms x _, List.nil_subset _⟩
  | cons a rest =>
    rw [hdrop] at h hsub
    dsimp only at h
    by_cases hset : a.alarm.isset = true
    · rw [if_pos hset] at h
      exact nomatch h
    · rw [if_neg hset] at h
      cases h
      exact ⟨⟨rfl, rfl, rfl, rfl, rfl, rfl, rfl⟩, hsub⟩

theorem insertBehind_perm (alarm : OwnedAlarm) (alarms : List OwnedAlarm) :
    (insertBehind alarm alarms).Perm (alarm :: alarms) := by
  induction alarms with
  | nil => exact List.Perm.refl _
  | cons a rest ih =>
    rw [insertBehind]
    split_ifs
    · exact (ih.cons a).trans (List.Perm.swap alarm a rest)
    · exact List.Perm.refl _

theorem insertAlarm_frame {alarm : OwnedAlarm} {t : ℤ} (h : insertAlarm alarm t x = .ok y) :
    SameProcesses x y ∧ tags y.alarms ⊆ tag alarm :: tags x.alarms := by
  unfold insertAlarm at h
  cases halarms : x.alarms with
  | nil =>
    rw [halarms] at h
    cases h
    exact ⟨sameProcesses_alarms x _, List.Subset.refl _⟩
  | cons a rest =>
    rw [halarms] at h
    dsimp only at h
    split_ifs at h with h1 h2 h3
    · obtain ⟨hsame, hsub⟩ := nextAlarm_frame h
      exact ⟨(sameProcesses_alarms x _).trans hsame, hsub⟩
    · cases h
      exact ⟨sameProcesses_alarms x _, List.Subset.refl _⟩
    · exact absurd h3.2 h1
    · cases h
      refine ⟨sameProcesses_alarms x _, ?_⟩
      have hperm : (a :: insertBehind alarm rest).Perm (alarm :: a :: rest) :=
        ((insertBehind_perm alarm rest).cons a).trans (List.Perm.swap alarm a rest)
      exact (hperm.map tag).subset

theorem sameProcesses_ite_expire (b : Bool) (x : Traced) :
    SameProcesses x (if b then x.expire else x) := by
  cases b with
  | false => exact sameProcesses_alarms x _
  | true =>
    unfold expire Execute.expire
    split_ifs <;> exact ⟨rfl, rfl, rfl, rfl, rfl, rfl, rfl⟩

theorem alarms_ite_expire (b : Bool) (x : Traced) :
    (if b then x.expire else x).alarms = x.alarms := by
  cases b <;> rfl

theorem bind_ok {r : Except Assertion Traced} {f : Traced → Except Assertion Traced}
    (h : r.bind f = .ok y) : ∃ z, r = .ok z ∧ f z = .ok y := by
  cases r with
  | error e => exact nomatch h
  | ok z => exact ⟨z, rfl, h⟩

theorem setAlarm_frame {i limit launch : ℕ} {inp : Input}
    (h : setAlarm i limit launch inp x = .ok y) :
    SameProcesses x y ∧
      ∀ tag ∈ tags y.alarms, tag.1 = launch ∧ tag.2.1 = some i ∨ tag ∈ tags x.alarms := by
  unfold setAlarm at h
  by_cases hlimit : limit = 0
  · rw [if_pos hlimit] at h
    cases h
    exact ⟨sameProcesses_alarms x _, fun tag htag => Or.inr htag⟩
  · rw [if_neg hlimit] at h
    obtain ⟨z, hz, hy⟩ := bind_ok h
    obtain ⟨hsame, hsub⟩ := insertAlarm_frame hz
    obtain ⟨hsame', hsub'⟩ := insertAlarm_frame hy
    rw [alarms_ite_expire] at hsub hsub'
    refine ⟨(sameProcesses_ite_expire inp.early x).trans
      (hsame.trans ((sameProcesses_ite_expire inp.late z).trans hsame')), fun tag htag => ?_⟩
    rcases List.mem_cons.mp (hsub' htag) with rfl | htag
    · exact Or.inl ⟨rfl, rfl⟩
    · rcases List.mem_cons.mp (hsub htag) with rfl | htag
      · exact Or.inl ⟨rfl, rfl⟩
      · exact Or.inr htag

/-- Section `i` with its new process. -/
def spawned (i : ℕ) (inp : Input) (sect : ExecSection) (x : Traced) : Traced :=
  { x with
    base := { x.base with sections := x.base.sections.set i { sect with pid := inp.pid } }
    launches := x.launches + 1
    last := Function.update x.last i x.launches
    children := if inp.pid > 0 then ⟨inp.pid, i, x.launches⟩ :: x.children else x.children }

theorem launch_frame {i : ℕ} {inp : Input} {sect : ExecSection}
    (hsect : x.base.sections[i]? = some sect) (h : launch i inp x = .ok y) :
    SameProcesses (spawned i inp sect x) y ∧
      ∀ tag ∈ tags y.alarms, tag.1 = x.launches ∧ tag.2.1 = some i ∨ tag ∈ tags x.alarms := by
  unfold launch at h
  rw [hsect] at h
  dsimp only at h
  split_ifs at h with hpid
  · obtain ⟨hsame, htags⟩ := setAlarm_frame h
    rw [Function.update_self] at htags
    refine ⟨?_, htags⟩
    rw [spawned, if_pos hpid]
    exact hsame
  · cases h
    rw [spawned, if_neg hpid]
    exact ⟨sameProcesses_alarms _ _, fun tag htag => Or.inr htag⟩

theorem sigAlrmHandler_frame {t : ℤ} (h : sigAlrmHandler t x = .ok y) :
    SameProcesses x y ∧ tags y.alarms ⊆ tags x.alarms := by
  unfold sigAlrmHandler at h
  cases halarms : x.alarms with
  | nil =>
    rw [halarms] at h
    exact nomatch h
  | cons a rest =>
    rw [halarms] at h
    dsimp only at h
    have htail : tags rest ⊆ tags (a :: rest) := List.subset_cons_self _ _
    split_ifs at h with h1 h2 h3
    · cases h
      exact ⟨⟨rfl, rfl, rfl, rfl, rfl, rfl, rfl⟩, htail⟩
    · obtain ⟨hsame, hsub⟩ := nextAlarm_frame h
      exact ⟨⟨hsame.sections, hsame.current, hsame.launches, hsame.last, hsame.children,
        hsame.outcomes, hsame.marked⟩, fun _ htag => htail (hsub htag)⟩

/-- Events that do not concern the sections. -/
def Event.quiet : Event → Bool
  | .report _ | .markToRun _ | .review _ | .advance => false
  | _ => true

theorem quiet_frame {ev : Event} (hev : ev.quiet = true) (h : stepExcept x ev = .ok y) :
    SameProcesses x y ∧ ∀ tag ∈ tags y.alarms, tag.2.1 = none ∨ tag ∈ tags x.alarms := by
  have hbase : ∀ {z : Traced} {main : Main}, SameProcesses x z →
      SameProcesses x { z with base := { z.base with main := main } } :=
    fun hz => ⟨hz.sections, hz.current, hz.launches, hz.last, hz.children, hz.outcomes, hz.marked⟩
  cases ev with
  | report r => exact nomatch hev
  | markToRun lt => exact nomatch hev
  | review inp => exact nomatch hev
  | advance => exact nomatch hev
  | expire =>
    cases h
    exact ⟨sameProcesses_ite_expire true x, fun _ htag => Or.inr htag⟩
  -- a signal that is not pending does nothing
  | sigalrm t =>
    rw [stepExcept] at h
    split_ifs at h
    · obtain ⟨hsame, hsub⟩ := sigAlrmHandler_frame h
      exact ⟨hsame, fun _ htag => Or.inr (hsub htag)⟩
    · cases h
      exact ⟨sameProcesses_alarms _ _, fun _ htag => Or.inr htag⟩
  | leaveWait =>
    rw [stepExcept] at h
    split_ifs at h
    · cases h
      exact ⟨⟨rfl, rfl, rfl, rfl, rfl, rfl, rfl⟩, fun _ htag => Or.inr htag⟩
    · cases h
      exact ⟨sameProcesses_alarms _ _, fun _ htag => Or.inr htag⟩
  -- only this event makes an alarm that is for no section
  | insertCycle t t' =>
    rw [stepExcept] at h
    split_ifs at h
    · cases hinsert : insertAlarm ⟨newCycleAlarm t, 0⟩ t' x with
      | error e =>
        rw [hinsert] at h
        exact nomatch h
      | ok z =>
        rw [hinsert] at h
        cases h
        obtain ⟨hsame, hsub⟩ := insertAlarm_frame hinsert
        refine ⟨hbase hsame, fun tag htag => ?_⟩
        rcases List.mem_cons.mp (hsub htag) with rfl | htag
        · exact Or.inl rfl
        · exact Or.inr htag
    · cases h
      exact ⟨sameProcesses_alarms _ _, fun _ htag => Or.inr htag⟩
  | armCycle t =>
    rw [stepExcept] at h
    split_ifs at h
    · cases hnext : nextAlarm t x with
      | error e =>
        rw [hnext] at h
        exact nomatch h
      | ok z =>
        rw [hnext] at h
        cases h
        obtain ⟨hsame, hsub⟩ := nextAlarm_frame hnext
        exact ⟨hbase hsame, fun _ htag => Or.inr (hsub htag)⟩
    · cases h
      exact ⟨sameProcesses_alarms _ _, fun _ htag => Or.inr htag⟩

/-- What holds when `RunSections` is begun, and is kept by a launch and by going on, leads to what
holds when it ends. -/
theorem runSections_rule {I K : Traced → Prop} {inputs : ℕ → Input} (hend : ∀ x, I x → K x)
    (hskip : ∀ x i sect, I x → x.base.current = some i → x.base.sections[i]? = some sect →
      sect.checkRun = false → I x.advance)
    (hlaunch : ∀ x y i sect, I x → x.base.current = some i → x.base.sections[i]? = some sect →
      sect.checkRun = true → launch i (inputs i) x = .ok y → K y ∧ (sect.parallel → I y.advance))
    {n : ℕ} (h : I x) (hrun : runSections inputs n x = .ok y) : K y := by
  -- The induction is on the bound; a section that is not parallel ends the loop.
  induction n generalizing x with
  | zero =>
    cases hrun
    exact hend _ h
  | succ n ih =>
    rw [runSections] at hrun
    cases hcurrent : x.base.current with
    | none =>
      rw [hcurrent] at hrun
      cases hrun
      exact hend _ h
    | some i =>
      rw [hcurrent] at hrun
      dsimp only at hrun
      cases hsect : x.base.sections[i]? with
      | none =>
        rw [hsect] at hrun
        cases hrun
        exact hend _ h
      | some sect =>
        rw [hsect] at hrun
        dsimp only at hrun
        cases hcheck : sect.checkRun with
        | false =>
          rw [hcheck, if_neg Bool.false_ne_true] at hrun
          exact ih (hskip x i sect h hcurrent hsect hcheck) hrun
        | true =>
          rw [hcheck, if_pos rfl] at hrun
          obtain ⟨z, hz, hy⟩ := bind_ok hrun
          obtain ⟨hK, hI⟩ := hlaunch x z i sect h hcurrent hsect hcheck hz
          split_ifs at hy with hparallel
          · exact ih (hI hparallel) hy
          · cases hy
            exact hK

end Frames

end Traced
end Meaner
end Szarp
