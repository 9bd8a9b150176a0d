import Mathlib.Data.List.Nodup
import Szarp.Meaner.Traced

/-!
# The processes of the sections

`texecsect.cc` and `texecute.cc`: the `pid` of a section says whether its process was reaped.
-/

namespace Szarp
namespace Meaner
namespace Traced

open Execute (Input)

/-! ## What the system does -/

/-- `fork` fails, or gives a number that no process has. -/
def ForkOk (children : List Child) (inp : Input) : Prop :=
  inp.pid = -1 ∨ 0 < inp.pid ∧ ∀ c ∈ children, c.pid ≠ inp.pid

/-- `waitpid` reports a process that was not reaped, and processes have different numbers. -/
def System (x : Traced) : Event → Prop
  | .report r => (∃ c ∈ x.children, c.pid = r.pid) ∧
      (∀ j, ForkOk (r.remaining x.children) (r.inputs j)) ∧
      ∀ j k, j ≠ k → (r.inputs j).pid = (r.inputs k).pid → (r.inputs j).pid = -1
  | .review inp => ForkOk x.children inp
  | _ => True

/-- What is known of processes, whatever is reported. -/
structure Live (x : Traced) : Prop where
  pid : ∀ (i : ℕ) (sect : ExecSection), x.base.sections[i]? = some sect → -1 ≤ sect.pid
  live : ∀ (i : ℕ) (sect : ExecSection), x.base.sections[i]? = some sect → 0 < sect.pid →
    ∃ c ∈ x.children, c.sect = i ∧ c.pid = sect.pid ∧ c.launch = x.last i
  distinct : (x.children.map Child.pid).Nodup
  positive : ∀ c ∈ x.children, 0 < c.pid

theorem Live.frame {x y : Traced} (h : Live x) (hsame : SameProcesses x y) : Live y := by
  refine ⟨?_, ?_, ?_, ?_⟩
  · rw [hsame.sections]
    exact h.pid
  · rw [hsame.sections, hsame.children, hsame.last]
    exact h.live
  · rw [hsame.children]
    exact h.distinct
  · rw [hsame.children]
    exact h.positive

/-- Processes of one number are one. -/
theorem Live.unique {x : Traced} (h : Live x) {c c' : Child} (hc : c ∈ x.children)
    (hc' : c' ∈ x.children) (hpid : c.pid = c'.pid) : c = c' :=
  List.inj_on_of_nodup_map h.distinct hc hc' hpid

theorem getElem?_spawned {x : Traced} {i : ℕ} {inp : Input} {sect : ExecSection}
    (hsect : x.base.sections[i]? = some sect) (j : ℕ) :
    (spawned i inp sect x).base.sections[j]? =
      if i = j then some { sect with pid := inp.pid } else x.base.sections[j]? := by
  obtain ⟨hlt, -⟩ := List.getElem?_eq_some_iff.mp hsect
  rw [spawned, List.getElem?_set]
  split_ifs <;> rfl

theorem mem_spawned {x : Traced} {i : ℕ} {inp : Input} {sect : ExecSection} {c : Child}
    (hc : c ∈ x.children) : c ∈ (spawned i inp sect x).children := by
  rw [spawned]
  dsimp only
  split_ifs
  · exact List.mem_cons_of_mem _ hc
  · exact hc

theorem Live.spawned {x : Traced} (h : Live x) {i : ℕ} {inp : Input} {sect : ExecSection}
    (hsect : x.base.sections[i]? = some sect) (hinp : ForkOk x.children inp) :
    Live (Traced.spawned i inp sect x) := by
  refine ⟨fun j sect' hj => ?_, fun j sect' hj hpos => ?_, ?_, ?_⟩
  · rw [getElem?_spawned hsect] at hj
    split_ifs at hj with hij
    · cases hj
      rcases hinp with hfail | ⟨hpos, -⟩
      · exact Int.le_of_eq hfail.symm
      · dsimp only
        omega
    · exact h.pid j sect' hj
  · rw [getElem?_spawned hsect] at hj
    split_ifs at hj with hij
    · cases hj
      subst hij
      refine ⟨⟨inp.pid, i, x.launches⟩, ?_, rfl, rfl, ?_⟩
      · rw [Traced.spawned]
        dsimp only
        rw [if_pos hpos]
        exact List.mem_cons_self
      · exact (Function.update_self i x.launches x.last).symm
    · obtain ⟨c, hc, hsect', hpid, hlast⟩ := h.live j sect' hj hpos
      refine ⟨c, mem_spawned hc, hsect', hpid, hlast.trans ?_⟩
      exact (Function.update_of_ne (Ne.symm hij) x.launches x.last).symm
  · rw [Traced.spawned]
    dsimp only
    split_ifs with hpos
    · rw [List.map_cons, List.nodup_cons]
      refine ⟨fun hmem => ?_, h.distinct⟩
      obtain ⟨c, hc, hpid⟩ := List.mem_map.mp hmem
      rcases hinp with hfail | ⟨-, hfresh⟩
      · omega
      · exact hfresh c hc hpid
    · exact h.distinct
  · rw [Traced.spawned]
    dsimp only
    split_ifs with hpos
    · exact List.forall_mem_cons.mpr ⟨hpos, h.positive⟩
    · exact h.positive

/-- A section whose process is reported is cleared. -/
def cleared (i : ℕ) (r : Report) (x : Traced) : Traced :=
  { x with
    alarms := x.alarms.map fun a =>
      if a.alarm.sect = some i ∧ a.alarm.isset = false then
        { a with alarm := { a.alarm with type := .rem } }
      else a
    base := { x.base with
      sections := x.base.sections.modify i fun sect =>
        let sect := { sect with pid := 0 }
        if r.status.success then sect else sect.checkRetry }
    children := r.remaining x.children
    outcomes := if r.status = .stopped then x.outcomes
      else Function.update x.outcomes i (r.status.success :: x.outcomes i) }

theorem childReport_cleared {x y : Traced} {r : Report} (h : childReport x r = .ok y) :
    ∃ i sect, x.base.sections.findIdx? (·.pid = r.pid) = some i ∧
      x.base.sections[i]? = some sect ∧ sect.pid = r.pid ∧
      if x.base.current = some i then
        runSections r.inputs ((cleared i r x).base.sections.length + 1) (cleared i r x).advance =
          .ok y
      else cleared i r x = y := by
  unfold childReport at h
  cases hfound : x.base.sections.findIdx? (·.pid = r.pid) with
  | none =>
    rw [hfound] at h
    exact nomatch h
  | some i =>
    rw [hfound] at h
    obtain ⟨hlt, hpid, -⟩ := List.findIdx?_eq_some_iff_getElem.mp hfound
    refine ⟨i, x.base.sections[i], rfl, List.getElem?_eq_getElem hlt, of_decide_eq_true hpid, ?_⟩
    dsimp only at h
    by_cases hi : x.base.current = some i
    · rw [if_pos hi] at h ⊢
      exact h
    · rw [if_neg hi] at h ⊢
      exact Except.ok.inj h

theorem getElem?_cleared {x : Traced} {i : ℕ} {r : Report} {sect : ExecSection}
    (hsect : x.base.sections[i]? = some sect) (j : ℕ) :
    (cleared i r x).base.sections[j]? =
      if i = j then some (if r.status.success then { sect with pid := 0 }
        else ({ sect with pid := 0 } : ExecSection).checkRetry)
      else x.base.sections[j]? := by
  rw [cleared]
  dsimp only
  rw [List.getElem?_modify]
  by_cases hij : i = j
  · subst hij
    rw [if_pos rfl, hsect]
    simp
  · simp [hij]

theorem checkRetry_pid (sect : ExecSection) : sect.checkRetry.pid = sect.pid := by
  unfold ExecSection.checkRetry
  split_ifs <;> rfl

theorem cleared_pid {x : Traced} {i : ℕ} {r : Report} {sect sect' : ExecSection}
    (hsect : x.base.sections[i]? = some sect)
    (h : (cleared i r x).base.sections[i]? = some sect') : sect'.pid = 0 := by
  rw [getElem?_cleared hsect, if_pos rfl] at h
  cases h
  split_ifs
  · rfl
  · exact checkRetry_pid _

theorem mem_remaining {r : Report} {children : List Child} {c : Child} :
    c ∈ r.remaining children ↔ c ∈ children ∧ (r.status = .stopped ∨ c.pid ≠ r.pid) := by
  rw [Report.remaining]
  split_ifs with hstopped
  · simp [hstopped]
  · simp [hstopped]

theorem Live.cleared {x : Traced} (h : Live x) {i : ℕ} {r : Report} {sect : ExecSection}
    (hsect : x.base.sections[i]? = some sect) (hpid : sect.pid = r.pid) (hpos : 0 < r.pid) :
    Live (Traced.cleared i r x) := by
  refine ⟨fun j sect' hj => ?_, fun j sect' hj hj0 => ?_, ?_,
    fun c hc => h.positive c (mem_remaining.mp hc).1⟩
  · by_cases hij : i = j
    · subst hij
      rw [cleared_pid hsect hj]
      decide
    · rw [getElem?_cleared hsect, if_neg hij] at hj
      exact h.pid j sect' hj
  · by_cases hij : i = j
    · subst hij
      rw [cleared_pid hsect hj] at hj0
      exact absurd hj0 (Int.lt_irrefl 0)
    · rw [getElem?_cleared hsect, if_neg hij] at hj
      obtain ⟨c, hc, hcsect, hcpid, hlast⟩ := h.live j sect' hj hj0
      refine ⟨c, mem_remaining.mpr ⟨hc, Or.inr fun heq => hij ?_⟩, hcsect, hcpid, hlast⟩
      -- the reported process belongs to section `i`
      obtain ⟨c', hc', hcsect', hcpid', -⟩ := h.live i sect hsect (hpid ▸ hpos)
      have hsame := h.unique hc hc' (heq.trans (hpid.symm.trans hcpid'.symm))
      rw [← hcsect', ← hcsect, hsame]
  · refine h.distinct.sublist (List.Sublist.map _ ?_)
    change (r.remaining x.children).Sublist x.children
    rw [Report.remaining]
    split_ifs
    · exact List.Sublist.refl _
    · exact List.filter_sublist

/-! ## Bookkeeping -/

/-- A section has a positive `pid` exactly while its process was not reaped. -/
def Mirrors (x : Traced) : Prop :=
  ∀ (i : ℕ) (sect : ExecSection), x.base.sections[i]? = some sect →
    (0 < sect.pid ↔ ∃ c ∈ x.children, c.sect = i)

/-- The assertion of `ClearPid` holds, and a section that is marked and has no process can be
run. -/
def KeptBy (x : Traced) (ev : Event) (y : Traced) : Prop :=
  match ev with
  | .report r => ∀ (i : ℕ) (sect : ExecSection), x.base.sections.findIdx? (·.pid = r.pid) = some i →
      x.base.sections[i]? = some sect → sect.pid ≠ 0
  | .markToRun _ => ∀ (i : ℕ) (sect : ExecSection), y.base.sections[i]? = some sect →
      sect.torun → (∀ c ∈ y.children, c.sect ≠ i) → sect.checkRun
  | _ => True

/-- No stop is reported, and no section whose `fork` failed is to be marked. -/
def Regular (x : Traced) : Event → Prop
  | .report r => r.status ≠ .stopped
  | .markToRun lt => ∀ sect ∈ x.base.sections, sect.pid < 0 → sect.fails = 0 ∧
      sect.checkTime ((lt.wday + 6) % 7) lt.mon (lt.mday - 1) lt.hour (lt.min / 10) = false
  | _ => True

/-- Every process is that of its section. -/
def Known (x : Traced) : Prop :=
  ∀ c ∈ x.children, ∃ sect : ExecSection, x.base.sections[c.sect]? = some sect ∧ sect.pid = c.pid

theorem Live.mirrors {x : Traced} (h : Live x) (hknown : Known x) : Mirrors x := by
  intro i sect hsect
  constructor
  · intro hpos
    obtain ⟨c, hc, hcsect, -⟩ := h.live i sect hsect hpos
    exact ⟨c, hc, hcsect⟩
  · rintro ⟨c, hc, hcsect⟩
    obtain ⟨sect', hsect', hpid⟩ := hknown c hc
    rw [hcsect, hsect] at hsect'
    cases hsect'
    rw [hpid]
    exact h.positive c hc

theorem Known.frame {x y : Traced} (h : Known x) (hsame : SameProcesses x y) : Known y := by
  unfold Known
  rw [hsame.sections, hsame.children]
  exact h

theorem Known.spawned {x : Traced} (h : Known x) (hlive : Live x) {i : ℕ} {inp : Input}
    {sect : ExecSection} (hsect : x.base.sections[i]? = some sect) (hcheck : sect.checkRun = true) :
    Known (Traced.spawned i inp sect x) := by
  have hold : ∀ c ∈ x.children, ∃ sect' : ExecSection,
      (Traced.spawned i inp sect x).base.sections[c.sect]? = some sect' ∧ sect'.pid = c.pid := by
    intro c hc
    obtain ⟨sect', hsect', hpid⟩ := h c hc
    refine ⟨sect', ?_, hpid⟩
    rw [getElem?_spawned hsect, if_neg, hsect']
    -- the section that is launched had no process
    rintro rfl
    rw [hsect] at hsect'
    cases hsect'
    have hpos := hlive.positive c hc
    unfold ExecSection.checkRun at hcheck
    simp at hcheck
    omega
  intro c hc
  unfold Traced.spawned at hc
  dsimp only at hc
  split_ifs at hc with hpos
  · rcases List.mem_cons.mp hc with rfl | hc
    · exact ⟨{ sect with pid := inp.pid }, by rw [getElem?_spawned hsect, if_pos rfl], rfl⟩
    · exact hold c hc
  · exact hold c hc

theorem Known.cleared {x : Traced} (h : Known x) {i : ℕ} {r : Report} {sect : ExecSection}
    (hsect : x.base.sections[i]? = some sect) (hpid : sect.pid = r.pid)
    (hstatus : r.status ≠ .stopped) : Known (Traced.cleared i r x) := by
  intro c hc
  obtain ⟨hc, hrest⟩ := mem_remaining.mp hc
  obtain ⟨sect', hsect', hpid'⟩ := h c hc
  refine ⟨sect', ?_, hpid'⟩
  rw [getElem?_cleared hsect, if_neg, hsect']
  rintro rfl
  rw [hsect] at hsect'
  cases hsect'
  exact hrest.resolve_left hstatus (hpid'.symm.trans hpid)

theorem runSections_keeps {K : Traced → Prop} {inputs : ℕ → Input}
    (hframe : ∀ x y, SameProcesses x y → K x → K y) (hadvance : ∀ x, K x → K x.advance)
    (hspawn : ∀ x i sect, K x → x.base.current = some i → x.base.sections[i]? = some sect →
      sect.checkRun = true → ForkOk x.children (inputs i) → K (spawned i (inputs i) sect x))
    (hinputs : ∀ j k, j ≠ k → (inputs j).pid = (inputs k).pid → (inputs j).pid = -1)
    {x y : Traced} (h : K x) (hfork : ∀ j, ForkOk x.children (inputs j)) {n : ℕ}
    (hrun : runSections inputs n x = .ok y) : K y := by
  have hlater : ∀ {x : Traced} {i : ℕ}, x.base.current = some i →
      ∀ c, x.advance.base.current = some c → i < c := by
    intro x i hcurrent c hc
    unfold advance Execute.advance at hc
    dsimp only at hc
    rw [hcurrent, Option.bind_some] at hc
    split_ifs at hc
    cases hc
    exact Nat.lt_succ_self i
  refine runSections_rule (I := fun x => K x ∧ ∀ c, x.base.current = some c →
    ∀ j, c ≤ j → ForkOk x.children (inputs j)) (fun _ hx => hx.1) ?_ ?_ ⟨h, fun _ _ j _ => hfork j⟩
    hrun
  · rintro x i sect ⟨hK, hok⟩ hcurrent - -
    refine ⟨hadvance x hK, fun c hc j hj => hok i hcurrent j ?_⟩
    have := hlater hcurrent c hc
    omega
  · rintro x y i sect ⟨hK, hok⟩ hcurrent hsect hcheck hlaunch
    obtain ⟨hsame, -⟩ := launch_frame hsect hlaunch
    have hy := hframe _ _ hsame (hspawn x i sect hK hcurrent hsect hcheck
      (hok i hcurrent i (Nat.le_refl i)))
    refine ⟨hy, fun _ => ⟨hadvance y hy, fun c hc j hj => ?_⟩⟩
    have hlt := hlater (x := y) (i := i) (by rw [hsame.current]; exact hcurrent) c hc
    have hij : i < j := Nat.lt_of_lt_of_le hlt hj
    -- the process of section `i` has a number of its own
    have hchildren : y.advance.children = (spawned i (inputs i) sect x).children := hsame.children
    rw [hchildren]
    rcases hok i hcurrent j hij.le with hfail | ⟨hpos, hfresh⟩
    · exact Or.inl hfail
    · refine Or.inr ⟨hpos, fun c' hc' heq => ?_⟩
      unfold spawned at hc'
      dsimp only at hc'
      split_ifs at hc' with hposi
      · rcases List.mem_cons.mp hc' with rfl | hc'
        · have hfail := hinputs i j hij.ne heq
          omega
        · exact hfresh c' hc' heq
      · exact hfresh c' hc' heq

/-- What frames, launches and going on keep, a step keeps, where a report and a mark do. -/
theorem step_keeps {K : Traced → Prop} (hframe : ∀ x y, SameProcesses x y → K x → K y)
    (hadvance : ∀ x, K x → K x.advance)
    (hspawn : ∀ x i inp sect, K x → x.base.current = some i → x.base.sections[i]? = some sect →
      sect.checkRun = true → ForkOk x.children inp → K (spawned i inp sect x))
    {x y : Traced} {ev : Event} (hmark : ∀ lt, ev = .markToRun lt → K (x.markToRun lt))
    (hcleared : ∀ r i sect, ev = .report r → x.base.sections[i]? = some sect → sect.pid = r.pid →
      if x.base.current = some i then K (cleared i r x).advance else K (cleared i r x))
    (hsys : System x ev) (h : K x) (hstep : stepExcept x ev = .ok y) : K y := by
  -- the quiet events leave the processes alone
  by_cases hquiet : ev.quiet = true
  · exact hframe x y (quiet_frame hquiet hstep).1 h
  cases ev with
  | report r =>
    obtain ⟨-, hfork, hinputs⟩ := hsys
    obtain ⟨i, sect, -, hsect, hpid, hrest⟩ := childReport_cleared hstep
    have hclear := hcleared r i sect rfl hsect hpid
    -- only behind the end of the current section further sections are run
    split_ifs at hrest hclear
    · exact runSections_keeps hframe hadvance (fun x i sect => hspawn x i (r.inputs i) sect)
        hinputs hclear hfork hrest
    · exact hrest ▸ hclear
  | markToRun lt =>
    cases hstep
    exact hmark lt rfl
  | review inp =>
    rw [stepExcept, review] at hstep
    cases hcurrent : x.base.current with
    | none =>
      rw [hcurrent] at hstep
      cases hstep
      exact h
    | some i =>
      rw [hcurrent] at hstep
      dsimp only at hstep
      cases hsect : x.base.sections[i]? with
      | none =>
        rw [hsect] at hstep
        cases hstep
        exact h
      | some sect =>
        rw [hsect] at hstep
        dsimp only at hstep
        split_ifs at hstep with hcheck
        · exact hframe _ _ (launch_frame hsect hstep).1 (hspawn x i inp sect h hcurrent hsect hcheck
            hsys)
        · cases hstep
          exact h
  | advance =>
    cases hstep
    exact hadvance x h
  | expire => exact absurd rfl hquiet
  | sigalrm t => exact absurd rfl hquiet
  | leaveWait => exact absurd rfl hquiet
  | insertCycle t t' => exact absurd rfl hquiet
  | armCycle t => exact absurd rfl hquiet

theorem Live.advance {x : Traced} (h : Live x) : Live x.advance :=
  ⟨h.pid, h.live, h.distinct, h.positive⟩

theorem getElem?_markToRun (lt : CronTime) (x : Traced) (i : ℕ) :
    (x.markToRun lt).base.sections[i]? = x.base.sections[i]?.map fun sect =>
      { sect with torun := sect.fails > 0 ||
          sect.checkTime ((lt.wday + 6) % 7) lt.mon (lt.mday - 1) lt.hour (lt.min / 10) } :=
  List.getElem?_map

theorem Live.markToRun {x : Traced} (h : Live x) (lt : CronTime) : Live (x.markToRun lt) := by
  refine ⟨fun i sect hi => ?_, fun i sect hi hpos => ?_, h.distinct, h.positive⟩
  · rw [getElem?_markToRun] at hi
    obtain ⟨sect', hsect', rfl⟩ := Option.map_eq_some_iff.mp hi
    exact h.pid i sect' hsect'
  · rw [getElem?_markToRun] at hi
    obtain ⟨sect', hsect', rfl⟩ := Option.map_eq_some_iff.mp hi
    exact h.live i sect' hsect' hpos

theorem Known.markToRun {x : Traced} (h : Known x) (lt : CronTime) : Known (x.markToRun lt) := by
  intro c hc
  obtain ⟨sect, hsect, hpid⟩ := h c hc
  exact ⟨_, (getElem?_markToRun lt x c.sect).trans (congrArg (Option.map _) hsect), hpid⟩

theorem Live.step {x y : Traced} (h : Live x) {ev : Event} (hsys : System x ev)
    (hstep : stepExcept x ev = .ok y) : Live y := by
  apply step_keeps (fun _ _ hsame hx => hx.frame hsame) (fun _ hx => hx.advance)
    (fun x i inp sect hx _ hsect _ hinp => hx.spawned hsect hinp) (fun lt _ => h.markToRun lt) ?_
    hsys h hstep
  rintro r i sect rfl hsect hpid
  obtain ⟨⟨c, hc, hcpid⟩, -⟩ := hsys
  have hclear := h.cleared hsect hpid (hcpid ▸ h.positive c hc)
  split_ifs
  · exact hclear.advance
  · exact hclear

theorem Known.step {x y : Traced} (h : Known x) (hlive : Live x) {ev : Event}
    (hsys : System x ev) (hev : ∀ r, ev = .report r → r.status ≠ .stopped)
    (hstep : stepExcept x ev = .ok y) : Known y := by
  refine (step_keeps (K := fun x => Live x ∧ Known x)
    (fun _ _ hsame hx => ⟨hx.1.frame hsame, hx.2.frame hsame⟩)
    (fun _ hx => ⟨hx.1.advance, hx.2⟩)
    (fun x i inp sect hx _ hsect hcheck hinp =>
      ⟨hx.1.spawned hsect hinp, hx.2.spawned hx.1 hsect hcheck⟩)
    (fun lt _ => ⟨hlive.markToRun lt, h.markToRun lt⟩) ?_ hsys ⟨hlive, h⟩ hstep).2
  rintro r i sect rfl hsect hpid
  obtain ⟨⟨c, hc, hcpid⟩, -⟩ := hsys
  have hclear := hlive.cleared hsect hpid (hcpid ▸ hlive.positive c hc)
  have hknown := h.cleared hsect hpid (hev r rfl)
  split_ifs
  · exact ⟨hclear.advance, hknown⟩
  · exact ⟨hclear, hknown⟩

/-- A process that is stopped is not known any more. -/
theorem not_mirrors_of_stopped {x y : Traced} (hlive : Live x) {r : Report}
    (hsys : System x (.report r)) (hstatus : r.status = .stopped)
    (hstep : childReport x r = .ok y) : ¬ Mirrors y := by
  obtain ⟨⟨c₀, hc₀, hcpid₀⟩, hfork, hinputs⟩ := hsys
  obtain ⟨i, sect, -, hsect, hpid, hrest⟩ := childReport_cleared hstep
  have hpos : 0 < sect.pid := by
    rw [hpid, ← hcpid₀]
    exact hlive.positive c₀ hc₀
  obtain ⟨c, hc, hcsect, -⟩ := hlive.live i sect hsect hpos
  -- section `i` is behind, without a process, and its process is still there
  let K : Traced → Prop := fun x => (∃ sect : ExecSection, x.base.sections[i]? = some sect ∧
    sect.pid = 0) ∧ c ∈ x.children ∧ ∀ j, x.base.current = some j → i < j
  have hclear : (∃ sect : ExecSection, (cleared i r x).base.sections[i]? = some sect ∧
      sect.pid = 0) ∧ c ∈ (cleared i r x).children := by
    refine ⟨⟨_, by rw [getElem?_cleared hsect, if_pos rfl], ?_⟩,
      mem_remaining.mpr ⟨hc, Or.inl hstatus⟩⟩
    split_ifs
    · rfl
    · exact checkRetry_pid _
  have hend : (∃ sect : ExecSection, y.base.sections[i]? = some sect ∧ sect.pid = 0) ∧
      c ∈ y.children := by
    split_ifs at hrest with hcurrent
    · have hK : K y := by
        apply runSections_keeps (K := K) ?_ ?_ ?_ hinputs ?_ hfork hrest
        · rintro x y hsame ⟨h1, h2, h3⟩
          refine ⟨?_, ?_, ?_⟩
          · rw [hsame.sections]
            exact h1
          · rw [hsame.children]
            exact h2
          · rw [hsame.current]
            exact h3
        · rintro x ⟨h1, h2, h3⟩
          refine ⟨h1, h2, fun j hj => ?_⟩
          obtain ⟨k, hk, hjk⟩ := Option.bind_eq_some_iff.mp hj
          split_ifs at hjk
          cases hjk
          exact (h3 k hk).trans (Nat.lt_succ_self k)
        · rintro x j sect' ⟨⟨sect, h1, h1'⟩, h2, h3⟩ hj hsect' - -
          refine ⟨⟨sect, ?_, h1'⟩, mem_spawned h2, h3⟩
          rw [getElem?_spawned hsect', if_neg (h3 j hj).ne', h1]
        · refine ⟨hclear.1, hclear.2, fun j hj => ?_⟩
          obtain ⟨k, hk, hjk⟩ := Option.bind_eq_some_iff.mp hj
          cases hcurrent.symm.trans hk
          split_ifs at hjk
          cases hjk
          exact Nat.lt_succ_self i
      exact ⟨hK.1, hK.2.1⟩
    · exact hrest ▸ hclear
  intro hmirrors
  obtain ⟨⟨sect', hsect', hzero⟩, hcy⟩ := hend
  have := (hmirrors i sect' hsect').mpr ⟨c, hcy, hcsect⟩
  omega

/-- A mark makes every section without a process eligible only where no section whose `fork` failed
is to be marked. -/
theorem markToRun_kept {x : Traced} (hmirrors : Mirrors x) (lt : CronTime) :
    KeptBy x (.markToRun lt) (x.markToRun lt) ↔ Regular x (.markToRun lt) := by
  constructor
  · intro hkept sect hmem hneg
    obtain ⟨i, hlt, hi⟩ := List.mem_iff_getElem.mp hmem
    have hsect : x.base.sections[i]? = some sect := by rw [List.getElem?_eq_getElem hlt, hi]
    have hnone : ∀ c ∈ (x.markToRun lt).children, c.sect ≠ i := by
      intro c hc hcsect
      have := (hmirrors i sect hsect).mpr ⟨c, hc, hcsect⟩
      omega
    have hrun := hkept i _ (by rw [getElem?_markToRun, hsect]; rfl)
    by_contra hsel
    have hmarked : (decide (sect.fails > 0) || sect.checkTime ((lt.wday + 6) % 7) lt.mon
        (lt.mday - 1) lt.hour (lt.min / 10)) = true := by
      rw [Bool.or_eq_true, decide_eq_true_eq]
      by_contra hnot
      rw [not_or, Bool.not_eq_true] at hnot
      exact hsel ⟨by omega, hnot.2⟩
    have hcheck := hrun hmarked hnone
    unfold ExecSection.checkRun at hcheck
    simp at hcheck
    omega
  · intro hreg i sect' hsect' htorun hnone
    rw [getElem?_markToRun] at hsect'
    obtain ⟨sect, hsect, rfl⟩ := Option.map_eq_some_iff.mp hsect'
    have hnot : ¬ 0 < sect.pid := by
      intro hpos
      obtain ⟨c, hc, hcsect⟩ := (hmirrors i sect hsect).mp hpos
      exact hnone c hc hcsect
    have hzero : sect.pid = 0 := by
      by_contra hne
      obtain ⟨hfails, htime⟩ := hreg sect (List.mem_of_getElem? hsect) (by omega)
      dsimp only at htorun
      rw [htime, hfails] at htorun
      exact absurd htorun (by decide)
    unfold ExecSection.checkRun
    simp only [hzero, decide_true, Bool.and_true]
    exact htorun

theorem step_ok {x : Traced} (hinv : Execute.Inv x.erase) (hknown : Known x) {ev : Event}
    (hsys : System x ev) : ∃ y, stepExcept x ev = .ok y ∧ Execute.Inv y.erase := by
  have hbase : ∃ s, Execute.step x.erase ev.erase = .ok s ∧ Execute.Inv s := by
    cases ev with
    | report r =>
      obtain ⟨⟨c, hc, hcpid⟩, -⟩ := hsys
      obtain ⟨sect, hsect, hpid⟩ := hknown c hc
      have hsome : (x.base.sections.findIdx? (·.pid = r.pid)).isSome = true := by
        rw [List.findIdx?_isSome, List.any_eq_true]
        exact ⟨sect, List.mem_of_getElem? hsect, decide_eq_true (hpid.trans hcpid)⟩
      obtain ⟨i, hi⟩ := Option.isSome_iff_exists.mp hsome
      obtain ⟨s, hok, hs⟩ := hinv.childExit_found (e := r.exit) hi
      refine ⟨s, ?_, hs⟩
      rw [Event.erase, Execute.step, Execute.sigChldHandler, List.foldlM_cons, hok]
      rfl
    | expire => exact hinv.step_ok (by simp [Event.erase])
    | sigalrm t => exact hinv.step_ok (by simp [Event.erase])
    | markToRun lt => exact hinv.step_ok (by simp [Event.erase])
    | review inp => exact hinv.step_ok (by simp [Event.erase])
    | advance => exact hinv.step_ok (by simp [Event.erase])
    | leaveWait => exact hinv.step_ok (by simp [Event.erase])
    | insertCycle t t' => exact hinv.step_ok (by simp [Event.erase])
    | armCycle t => exact hinv.step_ok (by simp [Event.erase])
  obtain ⟨s, hok, hs⟩ := hbase
  obtain ⟨y, hy, rfl⟩ := stepExcept_ok hok
  exact ⟨y, hy, hs⟩

structure Sound (x : Traced) : Prop where
  inv : Execute.Inv x.erase
  live : Live x
  known : Known x

theorem step_eq_some {x y : Traced} {ev : Event} : step x ev = some y ↔ stepExcept x ev = .ok y := by
  rw [step]
  cases stepExcept x ev with
  | error e => simp [Except.toOption]
  | ok z => simp [Except.toOption]

/-- A step keeps the bookkeeping exactly when it is regular. -/
theorem step_iff {x : Traced} (h : Sound x) {ev : Event} (hsys : System x ev) :
    (∃ y, step x ev = some y ∧ KeptBy x ev y ∧ Mirrors y) ↔ Regular x ev := by
  obtain ⟨y, hy, hinv⟩ := step_ok h.inv h.known hsys
  have hmirrors : Regular x ev → Mirrors y := by
    intro hreg
    refine (h.live.step hsys hy).mirrors (h.known.step h.live hsys ?_ hy)
    rintro r rfl
    exact hreg
  constructor
  · rintro ⟨z, hz, hkept, hz'⟩
    rw [step_eq_some, hy] at hz
    cases hz
    -- only reports and marks can spoil something
    cases ev with
    | report r =>
      intro hstatus
      exact not_mirrors_of_stopped h.live hsys hstatus hy hz'
    | markToRun lt =>
      cases hy
      exact (markToRun_kept (h.live.mirrors h.known) lt).mp hkept
    | expire => exact trivial
    | sigalrm t => exact trivial
    | review inp => exact trivial
    | advance => exact trivial
    | leaveWait => exact trivial
    | insertCycle t t' => exact trivial
    | armCycle t => exact trivial
  · intro hreg
    refine ⟨y, step_eq_some.mpr hy, ?_, hmirrors hreg⟩
    cases ev with
    -- a process that is reported has a positive number, so its section is not without one
    | report r =>
      intro i sect hfound hsect hzero
      obtain ⟨hlt, hpid, -⟩ := List.findIdx?_eq_some_iff_getElem.mp hfound
      rw [List.getElem?_eq_getElem hlt] at hsect
      cases hsect
      obtain ⟨⟨c, hc, hcpid⟩, -⟩ := hsys
      have hpos := h.live.positive c hc
      have hr := of_decide_eq_true hpid
      omega
    | markToRun lt =>
      cases hy
      exact (markToRun_kept (h.live.mirrors h.known) lt).mpr hreg
    | expire => exact trivial
    | sigalrm t => exact trivial
    | review inp => exact trivial
    | advance => exact trivial
    | leaveWait => exact trivial
    | insertCycle t t' => exact trivial
    | armCycle t => exact trivial

/-! ## Runs -/

theorem start_ok (sections : List ExecSection) (t t' : ℤ) :
    ∃ x, start sections t t' = .ok x ∧ Execute.Inv x.erase ∧ x.base.sections = sections ∧
      x.base.current = none ∧ x.children = [] ∧ x.outcomes = (fun _ => []) ∧ x.marked = none := by
  obtain ⟨s, hok, hinv⟩ := Execute.inv_getReady sections t t'
  have herase := erase_start sections t t'
  rw [hok] at herase
  cases hstart : start sections t t' with
  | error e =>
    rw [hstart] at herase
    exact nomatch herase
  | ok x =>
    rw [hstart] at herase
    obtain ⟨z, hz, hx⟩ := bind_ok hstart
    have hsame := (insertAlarm_frame hz).1.trans (nextAlarm_frame hx).1
    exact ⟨x, rfl, (Except.ok.inj herase) ▸ hinv, hsame.sections, hsame.current, hsame.children,
      hsame.outcomes, hsame.marked⟩

theorem sound_start {sections : List ExecSection} (hnew : ∀ sect ∈ sections, sect.pid = 0)
    {t t' : ℤ} {x : Traced} (hstart : start sections t t' = .ok x) : Sound x := by
  obtain ⟨x', hx', hinv, hsections, -, hchildren, -⟩ := start_ok sections t t'
  cases hstart.symm.trans hx'
  have hpid : ∀ (i : ℕ) (sect : ExecSection), x.base.sections[i]? = some sect → sect.pid = 0 := by
    intro i sect hsect
    rw [hsections] at hsect
    exact hnew sect (List.mem_of_getElem? hsect)
  refine ⟨hinv, ⟨fun i sect hsect => ?_, fun i sect hsect hpos => ?_, ?_, ?_⟩, ?_⟩
  · rw [hpid i sect hsect]
    decide
  · rw [hpid i sect hsect] at hpos
    exact absurd hpos (Int.lt_irrefl 0)
  · rw [hchildren]
    exact List.nodup_nil
  · rw [hchildren]
    exact fun _ hc => nomatch hc
  · unfold Known
    rw [hchildren]
    exact fun _ hc => nomatch hc

/-- From the start, the bookkeeping is kept in exactly those runs that report no stop and mark no
section whose `fork` failed. -/
theorem bookkeeping_iff {sections : List ExecSection} (hnew : ∀ sect ∈ sections, sect.pid = 0)
    {t t' : ℤ} {x : Traced} (hstart : start sections t t' = .ok x) {events : List Event}
    (hevents : Run.LegalRun step System x events) :
    Run.SafeRun step Mirrors KeptBy x events ↔ Run.LegalRun step Regular x events := by
  have hsound := sound_start hnew hstart
  refine Run.safeRun_iff_of_step Sound (fun x ev hx _ hsys => step_iff hx hsys) ?_ hsound
    (hsound.live.mirrors hsound.known) hevents
  intro x ev y hx hmirrors hsys hstep hgood
  have hy := step_eq_some.mp hstep
  refine ⟨inv_stepExcept hx.inv hy, hx.live.step hsys hy, ?_⟩
  -- only a stop is forgotten, and then a process is not mirrored
  apply hx.known.step hx.live hsys ?_ hy
  rintro r rfl hstatus
  exact not_mirrors_of_stopped hx.live hsys hstatus hy hgood

/-! ## One section -/

def everyCycle : ExecSection where
  wday := 0x7F#32
  month := 0xFFF#32
  day := 0x7FFFFFFF#32
  hour := 0xFFFFFF#32
  min10 := 0x3F#32
  retry := 0
  parallel := false
  limit := 0
  fails := 0
  pid := 0
  torun := false

def oneSection : Traced where
  base := { Execute.new [everyCycle] with timer := some (600, 0) }
  alarms := [⟨{ newCycleAlarm 0 with isset := true }, 0⟩]
  launches := 0
  last := fun _ => 0
  children := []
  outcomes := fun _ => []
  marked := none

/-- The section is run as process 5, and `status` is reported. -/
def oneRun (status : WaitStatus) : List Event :=
  [.markToRun ⟨1, 0, 1, 0, 10⟩, .review ⟨0, 5, false, false, 0, 0⟩,
    .report ⟨5, status, fun _ => ⟨0, -1, false, false, 0, 0⟩⟩]

theorem system_oneRun (status : WaitStatus) :
    Run.LegalRun step System oneSection (oneRun status) := by
  refine ⟨trivial, fun y hy => ?_⟩
  cases hy
  refine ⟨Or.inr ⟨by decide, fun _ hc => nomatch hc⟩, fun y hy => ?_⟩
  cases hy
  refine ⟨⟨⟨⟨5, 0, 0⟩, List.mem_singleton_self _, rfl⟩, fun _ => Or.inl rfl, fun _ _ _ _ => rfl⟩,
    fun _ _ => trivial⟩

theorem bookkeeping_iff_exited :
    Run.SafeRun step Mirrors KeptBy oneSection (oneRun (.exited 0)) := by
  refine (@bookkeeping_iff [everyCycle] (by decide) 0 0 _ rfl _ (system_oneRun _)).mpr
    ⟨fun sect hsect hneg => ?_, fun y hy => ?_⟩
  · cases List.mem_singleton.mp hsect
    exact absurd hneg (by decide)
  · cases hy
    refine ⟨trivial, fun y hy => ?_⟩
    cases hy
    exact ⟨nofun, fun _ _ => trivial⟩

/-- When the process of the section is stopped, its `pid` is cleared. -/
theorem stopped_not_kept :
    ¬ Run.SafeRun step Mirrors KeptBy oneSection (oneRun .stopped) := by
  rintro ⟨-, y, hy, -, -, y, hy', -, -, y, hy'', -, hmirrors⟩
  cases hy
  cases hy'
  cases hy''
  exact absurd ((hmirrors 0 _ rfl).mpr ⟨⟨5, 0, 0⟩, List.mem_singleton_self _, rfl⟩) (by decide)

end Traced
end Meaner
end Szarp
