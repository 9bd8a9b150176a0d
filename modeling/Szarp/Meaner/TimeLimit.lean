import Szarp.Meaner.Bookkeeping

/-!
# Time limits

`texecute.cc`: an alarm of a section sends a signal to the process that the section has when the
alarm expires.
-/

namespace Szarp
namespace Meaner
namespace Traced

open Execute (Input)

/-- The signal that `SigAlrmHandler` sends: the process, and the alarm that it is sent for. -/
def killed (x : Traced) : Option (ℤ × OwnedAlarm) :=
  match x.alarms with
  | [] => none
  | a :: _ =>
    if a.alarm.type = .strm ∨ a.alarm.type = .skill then
      match a.alarm.sect.bind (x.base.sections[·]?) with
      | none => none
      | some sect => if sect.pid > 0 then some (sect.pid, a) else none
    else none

/-- A signal is sent to a process that was not reaped and that the launch of the alarm made. -/
def Meant (x : Traced) : Event → Prop
  | .sigalrm _ => x.base.pending = true → ∀ pid a, killed x = some (pid, a) →
      ∃ c ∈ x.children, c.pid = pid ∧ c.launch = a.launch
  | _ => True

/-- All alarms of section `i` are removed. -/
def Clean (alarms : List OwnedAlarm) (i : ℕ) : Prop :=
  ∀ a ∈ alarms, a.alarm.sect = some i → a.alarm.type = .rem

/-- The sections that `RunSections` launches, from section `i` on. -/
def launched : ℕ → List ExecSection → List ℕ
  | _, [] => []
  | i, sect :: rest =>
    if sect.checkRun then i :: if sect.parallel then launched (i + 1) rest else []
    else launched (i + 1) rest

/-- No section is launched that has an alarm. -/
def Unlimited (x : Traced) : Event → Prop
  | .review _ => ∀ (i : ℕ) (sect : ExecSection), x.base.current = some i →
      x.base.sections[i]? = some sect → sect.checkRun = true → Clean x.alarms i
  | .report r => ∀ i, x.base.sections.findIdx? (·.pid = r.pid) = some i →
      x.base.current = some i → ∀ j ∈ launched (i + 1) (x.base.sections.drop (i + 1)),
        Clean x.alarms j
  | _ => True

/-- The alarms of a section are those of its last launch. -/
def Recent (x : Traced) : Prop :=
  ∀ a ∈ x.alarms, a.alarm.type ≠ .rem → ∀ i, a.alarm.sect = some i → a.launch = x.last i

theorem le_of_mem_launched {i j : ℕ} {sections : List ExecSection}
    (h : j ∈ launched i sections) : i ≤ j := by
  induction sections generalizing i with
  | nil => exact nomatch h
  | cons sect rest ih =>
    rw [launched] at h
    split_ifs at h
    · rcases List.mem_cons.mp h with rfl | h
      · exact Nat.le_refl _
      · exact (Nat.le_succ i).trans (ih h)
    · rw [List.mem_singleton.mp h]
    · exact (Nat.le_succ i).trans (ih h)

/-- An alarm that is there afterwards was there, removed or not, or is for section `i`. -/
theorem mem_of_tag {alarms : List OwnedAlarm} {a : OwnedAlarm} (h : tag a ∈ tags alarms) :
    ∃ b ∈ alarms, b.launch = a.launch ∧ b.alarm.sect = a.alarm.sect ∧ b.alarm.type = a.alarm.type := by
  obtain ⟨b, hb, htag⟩ := List.mem_map.mp h
  obtain ⟨hlaunch, hrest⟩ := Prod.mk.inj htag
  obtain ⟨hsect, htype⟩ := Prod.mk.inj hrest
  exact ⟨b, hb, hlaunch, hsect, htype⟩

theorem Recent.quiet {x y : Traced} (h : Recent x) (hlast : y.last = x.last)
    (htags : ∀ t ∈ tags y.alarms, t.2.1 = none ∨ t ∈ tags x.alarms) : Recent y := by
  intro a ha hrem i hi
  rcases htags (tag a) (List.mem_map_of_mem ha) with hnone | hmem
  · exact nomatch hi.symm.trans hnone
  · obtain ⟨b, hb, hlaunch, hsect, htype⟩ := mem_of_tag hmem
    rw [hlast, ← hlaunch]
    exact h b hb (htype ▸ hrem) i (hsect.trans hi)

theorem Recent.launch {x y : Traced} (h : Recent x) {i : ℕ} {inp : Input} {sect : ExecSection}
    (hsect : x.base.sections[i]? = some sect) (hclean : Clean x.alarms i)
    (hlaunch : launch i inp x = .ok y) : Recent y := by
  obtain ⟨hsame, htags⟩ := launch_frame hsect hlaunch
  intro a ha hrem j hj
  rw [hsame.last]
  rcases htags (tag a) (List.mem_map_of_mem ha) with ⟨hnew, hi⟩ | hmem
  · cases hi.symm.trans hj
    exact hnew.trans (Function.update_self i x.launches x.last).symm
  · obtain ⟨b, hb, hlaunch', hsect', htype⟩ := mem_of_tag hmem
    have hji : j ≠ i := by
      rintro rfl
      exact hrem (htype.symm.trans (hclean b hb (hsect'.trans hj)))
    have hlast : (spawned i inp sect x).last j = x.last j := by
      rw [spawned]
      exact Function.update_of_ne hji _ _
    rw [← hlaunch', hlast]
    exact h b hb (htype ▸ hrem) j (hsect'.trans hj)

theorem Clean.launch {x y : Traced} {i j : ℕ} (h : Clean x.alarms j) {inp : Input}
    {sect : ExecSection} (hsect : x.base.sections[i]? = some sect) (hij : i ≠ j)
    (hlaunch : launch i inp x = .ok y) : Clean y.alarms j := by
  intro a ha hj
  rcases (launch_frame hsect hlaunch).2 (tag a) (List.mem_map_of_mem ha) with ⟨-, hi⟩ | hmem
  · exact absurd (Option.some.inj (hi.symm.trans hj)) hij
  · obtain ⟨b, hb, -, hsect', htype⟩ := mem_of_tag hmem
    exact htype.symm.trans (h b hb (hsect'.trans hj))

theorem mem_cleared {x : Traced} {i : ℕ} {r : Report} {a : OwnedAlarm}
    (ha : a ∈ (cleared i r x).alarms) : ∃ b ∈ x.alarms, b.launch = a.launch ∧
      b.alarm.sect = a.alarm.sect ∧ (a.alarm.type = .rem ∨ a.alarm.type = b.alarm.type) := by
  obtain ⟨b, hb, rfl⟩ := List.mem_map.mp ha
  refine ⟨b, hb, ?_⟩
  split_ifs
  · exact ⟨rfl, rfl, Or.inl rfl⟩
  · exact ⟨rfl, rfl, Or.inr rfl⟩

theorem Recent.cleared {x : Traced} (h : Recent x) (i : ℕ) (r : Report) :
    Recent (Traced.cleared i r x) := by
  intro a ha hrem j hj
  obtain ⟨b, hb, hlaunch, hsect, htype⟩ := mem_cleared ha
  rw [← hlaunch]
  exact h b hb ((htype.resolve_left hrem) ▸ hrem) j (hsect.trans hj)

theorem Clean.cleared {x : Traced} {j : ℕ} (h : Clean x.alarms j) (i : ℕ) (r : Report) :
    Clean (Traced.cleared i r x).alarms j := by
  intro a ha hj
  obtain ⟨b, hb, -, hsect, htype⟩ := mem_cleared ha
  rcases htype with hrem | htype
  · exact hrem
  · exact htype.trans (h b hb (hsect.trans hj))

theorem drop_cleared (x : Traced) (i : ℕ) (r : Report) :
    (cleared i r x).base.sections.drop (i + 1) = x.base.sections.drop (i + 1) := by
  apply List.ext_getElem?
  intro k
  have hne : i ≠ i + 1 + k := by omega
  rw [List.getElem?_drop, List.getElem?_drop, cleared]
  simp [hne]

theorem Recent.runSections {x y : Traced} (h : Recent x) {inputs : ℕ → Input} {n : ℕ}
    (hclean : ∀ c, x.base.current = some c →
      ∀ j ∈ launched c (x.base.sections.drop c), Clean x.alarms j)
    (hrun : runSections inputs n x = .ok y) : Recent y := by
  have hcurrent : ∀ {x : Traced} {i c : ℕ}, x.base.current = some i →
      x.advance.base.current = some c → c = i + 1 := by
    intro x i c hi hc
    obtain ⟨k, hk, hck⟩ := Option.bind_eq_some_iff.mp hc
    cases hi.symm.trans hk
    split_ifs at hck
    exact (Option.some.inj hck).symm
  have hdrop : ∀ {x : Traced} {i : ℕ} {sect : ExecSection}, x.base.sections[i]? = some sect →
      x.base.sections.drop i = sect :: x.base.sections.drop (i + 1) := by
    intro x i sect hsect
    obtain ⟨hlt, hget⟩ := List.getElem?_eq_some_iff.mp hsect
    rw [List.drop_eq_getElem_cons hlt, hget]
  refine runSections_rule (I := fun x => Recent x ∧ ∀ c, x.base.current = some c →
    ∀ j ∈ launched c (x.base.sections.drop c), Clean x.alarms j) (fun _ hx => hx.1) ?_ ?_
    ⟨h, hclean⟩ hrun
  · rintro x i sect ⟨hx, hlist⟩ hi hsect hcheck
    refine ⟨hx, fun c hc j hj => hlist i hi j ?_⟩
    rw [hcurrent hi hc] at hj
    rw [hdrop hsect, launched, hcheck, if_neg Bool.false_ne_true]
    exact hj
  · rintro x y i sect ⟨hx, hlist⟩ hi hsect hcheck hlaunch
    have hlist' := hlist i hi
    rw [hdrop hsect, launched, hcheck, if_pos rfl] at hlist'
    have hy := hx.launch hsect (hlist' i List.mem_cons_self) hlaunch
    refine ⟨hy, fun hparallel => ⟨hy, fun c hc j hj => ?_⟩⟩
    obtain ⟨hsame, -⟩ := launch_frame hsect hlaunch
    rw [if_pos hparallel] at hlist'
    rw [hcurrent (hsame.current.trans hi) hc] at hj
    have hsections : y.advance.base.sections.drop (i + 1) = x.base.sections.drop (i + 1) := by
      change y.base.sections.drop (i + 1) = _
      rw [hsame.sections]
      exact List.drop_set_of_lt (Nat.lt_succ_self i)
    rw [hsections] at hj
    have hij := le_of_mem_launched hj
    have hclean : Clean y.alarms j := (hlist' j (List.mem_cons_of_mem i hj)).launch hsect
      (Nat.ne_of_lt hij) hlaunch
    exact hclean

theorem Recent.step {x y : Traced} (h : Recent x) {ev : Event} (hev : Unlimited x ev)
    (hstep : stepExcept x ev = .ok y) : Recent y := by
  by_cases hquiet : ev.quiet = true
  · obtain ⟨hsame, htags⟩ := quiet_frame hquiet hstep
    exact h.quiet hsame.last htags
  cases ev with
  | report r =>
    obtain ⟨i, sect, hfound, hsect, -, hrest⟩ := childReport_cleared hstep
    -- behind the current section others may be launched; the hypothesis is about just those
    split_ifs at hrest with hcurrent
    · refine Recent.runSections (x := (Traced.cleared i r x).advance) (h.cleared i r)
        (fun c hc j hj => ?_) hrest
      obtain ⟨k, hk, hck⟩ := Option.bind_eq_some_iff.mp hc
      cases hcurrent.symm.trans hk
      split_ifs at hck
      cases hck
      change j ∈ launched (i + 1) ((Traced.cleared i r x).base.sections.drop (i + 1)) at hj
      rw [drop_cleared] at hj
      exact (hev i hfound hcurrent j hj).cleared i r
    · exact hrest ▸ h.cleared i r
  | review inp =>
    rw [stepExcept, review] at hstep
    cases hcurrent : x.base.current with
    | none =>
      rw [hcurrent] at hstep
      cases hstep
      exact h
    | some i =>
      rw [hcurrent] at hstep
      dsimp only at hstep
      cases hsect : x.base.sections[i]? with
      | none =>
        rw [hsect] at hstep
        cases hstep
        exact h
      | some sect =>
        rw [hsect] at hstep
        dsimp only at hstep
        -- a launch puts its own alarms in place of none
        split_ifs at hstep with hcheck
        · exact h.launch hsect (hev i sect hcurrent hsect hcheck) hstep
        · cases hstep
          exact h
  | markToRun lt =>
    cases hstep
    exact h
  | advance =>
    cases hstep
    exact h
  | expire => exact absurd rfl hquiet
  | sigalrm t => exact absurd rfl hquiet
  | leaveWait => exact absurd rfl hquiet
  | insertCycle t t' => exact absurd rfl hquiet
  | armCycle t => exact absurd rfl hquiet

/-- Where the alarms are those of the last launches, a signal is sent to the process it is meant
for. -/
theorem Recent.meant {x : Traced} (h : Recent x) (hlive : Live x) (ev : Event) : Meant x ev := by
  cases ev with
  | sigalrm t =>
    intro _ pid a hkill
    unfold killed at hkill
    cases halarms : x.alarms with
    | nil =>
      rw [halarms] at hkill
      exact nomatch hkill
    | cons b rest =>
      rw [halarms] at hkill
      dsimp only at hkill
      split_ifs at hkill with htype
      cases hbind : b.alarm.sect.bind (x.base.sections[·]?) with
      | none =>
        rw [hbind] at hkill
        exact nomatch hkill
      | some sect =>
        rw [hbind] at hkill
        dsimp only at hkill
        split_ifs at hkill with hpos
        cases hkill
        obtain ⟨i, hi, hsect⟩ := Option.bind_eq_some_iff.mp hbind
        obtain ⟨c, hc, -, hpid, hlast⟩ := hlive.live i sect hsect hpos
        refine ⟨c, hc, hpid, hlast.trans (h a (halarms ▸ List.mem_cons_self) ?_ i hi).symm⟩
        rcases htype with htype | htype <;> rw [htype] <;> decide
  | report r => exact trivial
  | markToRun lt => exact trivial
  | review inp => exact trivial
  | advance => exact trivial
  | expire => exact trivial
  | leaveWait => exact trivial
  | insertCycle t t' => exact trivial
  | armCycle t => exact trivial

/-- From the start, the signals of alarms are sent to the processes they are meant for, in the runs
in which no section is launched while it has an alarm of an earlier launch. -/
theorem limits_meant {sections : List ExecSection} (hnew : ∀ sect ∈ sections, sect.pid = 0)
    {t t' : ℤ} {x : Traced} (hstart : start sections t t' = .ok x) {events : List Event}
    (hevents : Run.LegalRun step System x events)
    (hunlimited : Run.LegalRun step Unlimited x events) : Run.LegalRun step Meant x events := by
  have hsound := sound_start hnew hstart
  have hrecent : Recent x := by
    obtain ⟨z, hz, hx⟩ := bind_ok hstart
    obtain ⟨-, hsub⟩ := insertAlarm_frame hz
    obtain ⟨-, hsub'⟩ := nextAlarm_frame hx
    intro a ha _ i hi
    have htag : tag a = tag ⟨newCycleAlarm t, 0⟩ :=
      List.mem_singleton.mp (hsub (hsub' (List.mem_map_of_mem ha)))
    have hnone : a.alarm.sect = none := congrArg (fun tag => tag.2.1) htag
    exact nomatch hi.symm.trans hnone
  refine Run.legalRun_of_inv (fun x => Live x ∧ Recent x) (fun x ev hx _ => hx.2.meant hx.1 ev) ?_
    ⟨hsound.live, hrecent⟩ (hevents.and hunlimited)
  rintro x ev y ⟨hlive, hx⟩ ⟨hsys, hev⟩ hy
  exact ⟨hlive.step hsys (step_eq_some.mp hy), hx.step hev (step_eq_some.mp hy)⟩

/-- The program with a section that is limited to 300 seconds, started at time 0. -/
def oneLimited : Traced :=
  { oneSection with base := { oneSection.base with
      sections := [{ everyCycle with limit := 300 }] } }

/-- The section is run as process 5, which is still there when its time is over. -/
def limitedRun : List Event :=
  [.markToRun ⟨1, 0, 1, 0, 10⟩, .review ⟨0, 5, false, false, 0, 0⟩, .expire, .sigalrm 299,
    .report ⟨5, .signaled, fun _ => ⟨299, -1, false, false, 299, 299⟩⟩]

theorem system_limitedRun : Run.LegalRun step System oneLimited limitedRun := by
  refine ⟨trivial, fun y hy => ?_⟩
  cases hy
  refine ⟨Or.inr ⟨by decide, fun _ hc => nomatch hc⟩, fun y hy => ⟨trivial, fun z hz =>
    ⟨trivial, fun w hw => ?_⟩⟩⟩
  cases hy
  cases hz
  cases hw
  exact ⟨⟨⟨⟨5, 0, 0⟩, List.mem_singleton_self _, rfl⟩, fun _ => Or.inl rfl, fun _ _ _ _ => rfl⟩,
    fun _ _ => trivial⟩

/-- The signal that the alarm sends goes to process 5. -/
theorem limits_meant_limitedRun :
    Run.LegalRun step Meant oneLimited limitedRun ∧
      ∃ x, (limitedRun.take 3).foldlM step oneLimited = some x ∧ x.base.pending = true ∧
        (killed x).map Prod.fst = some 5 := by
  refine ⟨@limits_meant [{ everyCycle with limit := 300 }] (by decide) 0 0 _ rfl _
    system_limitedRun ⟨trivial, fun y hy => ?_⟩, _, rfl, rfl, rfl⟩
  cases hy
  refine ⟨fun i _ hi _ _ a ha hsect => ?_, fun y hy => ⟨trivial, fun z hz =>
    ⟨trivial, fun w hw => ?_⟩⟩⟩
  · cases List.mem_singleton.mp ha
    exact nomatch hsect
  · cases hy
    cases hz
    cases hw
    refine ⟨fun i _ hi j hj => ?_, fun _ _ => trivial⟩
    cases hi
    exact nomatch hj

/-- Two sections; the time limit of the second one ends behind the next cycle. -/
def twoSections : Traced :=
  { oneSection with base := { oneSection.base with
      sections := [everyCycle, { everyCycle with limit := 900 }] } }

/-- The second section is run as process 5. In the next cycle it is behind the first one, process 5
ends, and the section is run again as process 7. -/
def relaunched : List Event :=
  [.expire, .sigalrm 600, .leaveWait, .insertCycle 600 600, .armCycle 600,
    .markToRun ⟨1, 0, 1, 0, 10⟩, .review ⟨600, 4, false, false, 600, 600⟩,
    .report ⟨4, .exited 0, fun _ => ⟨610, 5, false, false, 610, 610⟩⟩,
    .expire, .sigalrm 1200, .leaveWait, .insertCycle 1200 1200, .armCycle 1200,
    .markToRun ⟨1, 0, 1, 0, 20⟩, .review ⟨1200, 6, false, false, 1200, 1200⟩,
    .report ⟨5, .exited 0, fun _ => ⟨1250, -1, false, false, 1250, 1250⟩⟩,
    .report ⟨6, .exited 0, fun _ => ⟨1300, 7, false, false, 1300, 1300⟩⟩, .expire]

/-- Then the alarm of process 5 ends process 7. -/
theorem relaunched_not_meant :
    ¬ Run.LegalRun step Meant twoSections (relaunched ++ [.sigalrm 1499]) := by
  intro h
  obtain ⟨c, hc, -, hlaunch⟩ := h.apply rfl rfl 7 _ rfl
  cases List.mem_singleton.mp hc
  exact absurd hlaunch (by decide)

end Traced
end Meaner
end Szarp
