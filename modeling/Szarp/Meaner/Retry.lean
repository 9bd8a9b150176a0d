import Szarp.Meaner.Bookkeeping

/-!
# Retries

`texecsect.cc` counts the failures of a section, and `texecute.cc` marks a section whose count is
not 0 in every cycle.
-/

namespace Szarp
namespace Meaner
namespace Traced

open Execute (Input)

/-- How many failing retries followed the original failure, where the most recent run failed. -/
def failing (retry : ℕ) : List Bool → Option ℕ
  | [] => none
  | true :: _ => none
  | false :: older =>
    match failing retry older with
    | none => some 0
    | some j => if j < retry then some (j + 1) else some 0

/-- The most recent run failed, and a retry is left. -/
def Wanted (retry : ℕ) (outcomes : List Bool) : Prop :=
  ∃ j, failing retry outcomes = some j ∧ j < retry

/-- Section `i` of `x` is selected by its masks at the time of the last mark. -/
def Selected (x : Traced) (sect : ExecSection) : Prop :=
  ∃ lt : CronTime, x.marked = some lt ∧
    sect.checkTime ((lt.wday + 6) % 7) lt.mon (lt.mday - 1) lt.hour (lt.min / 10) = true

/-- Sections are marked where their masks or a retry want it, and a section that is started is
selected unless its most recent run failed. -/
structure Retried (x : Traced) (ev : Event) (y : Traced) : Prop where
  marks : ∀ lt, ev = .markToRun lt → ∀ (i : ℕ) (sect : ExecSection),
    y.base.sections[i]? = some sect →
      (sect.torun = true ↔ Selected y sect ∨ Wanted sect.retry (y.outcomes i))
  starts : ∀ c ∈ y.children, x.launches ≤ c.launch → ∀ sect : ExecSection,
    y.base.sections[c.sect]? = some sect → (y.outcomes c.sect).head? ≠ some false → Selected y sect

/-- No stop is reported, and no command is successful while its section has failures. -/
def Steady (x : Traced) : Event → Prop
  | .report r => r.status ≠ .stopped ∧ (r.status.success = true →
      ∀ sect ∈ x.base.sections, sect.pid = r.pid → sect.fails = 0)
  | _ => True

/-! ## The count of failures -/

/-- The count that goes with the failing retries. -/
def counter (retry : ℕ) : Option ℕ → ℕ
  | none => 0
  | some j => if j < retry then j + 1 else 0

theorem wanted_iff (retry : ℕ) (outcomes : List Bool) :
    Wanted retry outcomes ↔ 0 < counter retry (failing retry outcomes) := by
  unfold Wanted
  cases failing retry outcomes with
  | none => simp [counter]
  | some j =>
    rw [counter]
    split_ifs with hj
    · simp [hj]
    · simp [hj]

theorem head?_of_failing {retry : ℕ} {outcomes : List Bool}
    (h : failing retry outcomes ≠ none) : outcomes.head? = some false := by
  cases outcomes with
  | nil => exact absurd rfl h
  | cons success older =>
    cases success with
    | true => exact absurd rfl h
    | false => rfl

theorem checkRetry_fails {sect : ExecSection} {older : List Bool}
    (h : sect.fails = counter sect.retry (failing sect.retry older)) :
    sect.checkRetry.fails = counter sect.retry (failing sect.retry (false :: older)) := by
  unfold ExecSection.checkRetry
  rw [failing]
  cases hfail : failing sect.retry older with
  | none =>
    rw [hfail, counter] at h
    split_ifs with hretry hlt
    · simp [counter, h, hretry]
    · omega
    · simp [counter, h, hretry]
  | some j =>
    rw [hfail, counter] at h
    dsimp only
    by_cases hj : j < sect.retry
    · rw [if_pos hj] at h
      rw [if_pos hj, if_pos (by omega), counter]
      dsimp only
      rw [h]
    · rw [if_neg hj] at h
      rw [if_neg hj, counter]
      split_ifs with hretry hlt
      · dsimp only
        omega
      · omega
      · exact h

/-- The sections count their failures. -/
def Counted (x : Traced) : Prop :=
  ∀ (i : ℕ) (sect : ExecSection), x.base.sections[i]? = some sect →
    sect.fails = counter sect.retry (failing sect.retry (x.outcomes i))

/-- A marked section is selected, or it failed and, where it is still to come, it will not end in
another way before it is started. -/
def Due (x : Traced) : Prop :=
  ∀ (i : ℕ) (sect : ExecSection), x.base.sections[i]? = some sect → sect.torun = true →
    Selected x sect ∨ ∀ c, x.base.current = some c → c ≤ i →
      (x.outcomes i).head? = some false ∧ (0 < sect.fails ∨ sect.pid ≤ 0 ∨ c = i)

/-- What is known of retries in a step that began after `n` launches. -/
structure Kept (n : ℕ) (x : Traced) : Prop where
  live : Live x
  counted : Counted x
  due : Due x
  launches : n ≤ x.launches
  earlier : ∀ c ∈ x.children, c.launch < x.launches
  starts : ∀ c ∈ x.children, n ≤ c.launch → ∀ sect : ExecSection,
    x.base.sections[c.sect]? = some sect → (x.outcomes c.sect).head? ≠ some false → Selected x sect

namespace Kept

variable {n : ℕ} {x y : Traced}

theorem frame (h : Kept n x) (hsame : SameProcesses x y) : Kept n y := by
  obtain ⟨h1, h2, h3, h4, h5, h6⟩ := h
  refine ⟨h1.frame hsame, ?_, ?_, ?_, ?_, ?_⟩
  · unfold Counted
    rw [hsame.sections, hsame.outcomes]
    exact h2
  · unfold Due Selected
    rw [hsame.sections, hsame.outcomes, hsame.current, hsame.marked]
    exact h3
  · rw [hsame.launches]
    exact h4
  · rw [hsame.children, hsame.launches]
    exact h5
  · unfold Selected
    rw [hsame.children, hsame.sections, hsame.outcomes, hsame.marked]
    exact h6

theorem advance (h : Kept n x) : Kept n x.advance := by
  refine ⟨h.live.advance, h.counted, fun i sect hsect htorun => ?_, h.launches, h.earlier, h.starts⟩
  refine (h.due i sect hsect htorun).imp_right fun hnext c hc hci => ?_
  obtain ⟨k, hk, hck⟩ := Option.bind_eq_some_iff.mp hc
  split_ifs at hck
  cases hck
  obtain ⟨hhead, hrest⟩ := hnext k hk (by omega)
  refine ⟨hhead, ?_⟩
  rcases hrest with hfails | hpid | heq
  · exact Or.inl hfails
  · exact Or.inr (Or.inl hpid)
  · omega

theorem spawned (h : Kept n x) {i : ℕ} {inp : Input} {sect : ExecSection}
    (hcurrent : x.base.current = some i) (hsect : x.base.sections[i]? = some sect)
    (hcheck : sect.checkRun = true) (hinp : ForkOk x.children inp) :
    Kept n (Traced.spawned i inp sect x) := by
  have htorun : sect.torun = true := (Bool.and_eq_true_iff.mp hcheck).1
  refine ⟨h.live.spawned hsect hinp, fun j sect' hj => ?_, fun j sect' hj htorun' => ?_,
    h.launches.trans (Nat.le_succ _), fun c hc => ?_, fun c hc hn sect' hc' hhead => ?_⟩
  · rw [getElem?_spawned hsect] at hj
    split_ifs at hj with hij
    · cases hj
      subst hij
      exact h.counted i sect hsect
    · exact h.counted j sect' hj
  · rw [getElem?_spawned hsect] at hj
    split_ifs at hj with hij
    · cases hj
      subst hij
      refine (h.due i sect hsect htorun).imp_right fun hnext c hc hci => ?_
      refine ⟨(hnext c hc hci).1, Or.inr (Or.inr ?_)⟩
      exact (Option.some.inj (hcurrent.symm.trans hc)).symm
    · exact h.due j sect' hj htorun'
  · unfold Traced.spawned at hc ⊢
    dsimp only at hc ⊢
    split_ifs at hc
    · rcases List.mem_cons.mp hc with rfl | hc
      · exact Nat.lt_succ_self _
      · exact (h.earlier c hc).trans (Nat.lt_succ_self _)
    · exact (h.earlier c hc).trans (Nat.lt_succ_self _)
  · rw [getElem?_spawned hsect] at hc'
    have hown : i = c.sect → (x.outcomes i).head? ≠ some false → Selected x sect := by
      intro _ hhead
      refine (h.due i sect hsect htorun).resolve_right fun hnext => hhead ?_
      exact (hnext i hcurrent (Nat.le_refl i)).1
    split_ifs at hc' with hij
    · cases hc'
      exact hown hij (hij ▸ hhead)
    · have hold : c ∈ x.children := by
        unfold Traced.spawned at hc
        dsimp only at hc
        split_ifs at hc
        · rcases List.mem_cons.mp hc with rfl | hc
          · exact absurd rfl hij
          · exact hc
        · exact hc
      exact h.starts c hold hn sect' hc' hhead

theorem no_starts (h : Kept n x) : ∀ c ∈ x.children, ¬ x.launches ≤ c.launch :=
  fun c hc => Nat.not_le.mpr (h.earlier c hc)

theorem markToRun (h : Kept n x) (lt : CronTime) :
    Kept x.launches (x.markToRun lt) := by
  refine ⟨h.live.markToRun lt, fun i sect hi => ?_, fun i sect hi htorun => ?_, Nat.le_refl _,
    h.earlier, fun c hc hn => absurd hn (h.no_starts c hc)⟩
  · rw [getElem?_markToRun] at hi
    obtain ⟨sect', hsect', rfl⟩ := Option.map_eq_some_iff.mp hi
    exact h.counted i sect' hsect'
  · rw [getElem?_markToRun] at hi
    obtain ⟨sect', hsect', rfl⟩ := Option.map_eq_some_iff.mp hi
    dsimp only at htorun
    rw [Bool.or_eq_true, decide_eq_true_eq] at htorun
    rcases htorun with hfails | htime
    · right
      intro c _ _
      refine ⟨@head?_of_failing sect'.retry _ fun hnone => ?_, Or.inl hfails⟩
      have hcount := h.counted i sect' hsect'
      change failing sect'.retry (x.outcomes i) = none at hnone
      rw [hnone, counter] at hcount
      omega
    · exact Or.inl ⟨lt, rfl, htime⟩

theorem cleared_section {i : ℕ} {r : Report} {sect sect' : ExecSection}
    (hsect : x.base.sections[i]? = some sect)
    (h : (Traced.cleared i r x).base.sections[i]? = some sect') :
    sect'.torun = sect.torun ∧ sect'.retry = sect.retry ∧ ∀ wday month mday hour min10,
      sect'.checkTime wday month mday hour min10 = sect.checkTime wday month mday hour min10 := by
  rw [getElem?_cleared hsect, if_pos rfl] at h
  cases h
  unfold ExecSection.checkRetry
  split_ifs <;> exact ⟨rfl, rfl, fun _ _ _ _ _ => rfl⟩

theorem counted_cleared (h : Kept n x) {i : ℕ} {r : Report} {sect : ExecSection}
    (hsect : x.base.sections[i]? = some sect) (hstatus : r.status ≠ .stopped)
    (hsuccess : r.status.success = true → sect.fails = 0) : Counted (Traced.cleared i r x) := by
  intro j sect' hj
  have houtcomes : (Traced.cleared i r x).outcomes =
      Function.update x.outcomes i (r.status.success :: x.outcomes i) := if_neg hstatus
  rw [houtcomes]
  by_cases hij : i = j
  · subst hij
    rw [getElem?_cleared hsect, if_pos rfl] at hj
    rw [Function.update_self]
    cases hj
    cases hs : r.status.success with
    | true =>
      rw [if_pos rfl]
      exact hsuccess hs
    | false =>
      rw [if_neg Bool.false_ne_true]
      have hretry : ({ sect with pid := 0 } : ExecSection).checkRetry.retry = sect.retry := by
        unfold ExecSection.checkRetry
        split_ifs <;> rfl
      rw [hretry]
      exact @checkRetry_fails { sect with pid := 0 } _ (h.counted i sect hsect)
  · rw [Function.update_of_ne (Ne.symm hij)]
    rw [getElem?_cleared hsect, if_neg hij] at hj
    exact h.counted j sect' hj

/-- A section that was not launched in this cycle runs because it failed, and fails again. -/
theorem due_cleared (h : Kept n x) {i : ℕ} {r : Report} {sect : ExecSection}
    (hsect : x.base.sections[i]? = some sect) (hpid : sect.pid = r.pid) (hpos : 0 < r.pid)
    (hstatus : r.status ≠ .stopped) (hsuccess : r.status.success = true → sect.fails = 0)
    {j : ℕ} {sect' : ExecSection} (hj : (Traced.cleared i r x).base.sections[j]? = some sect')
    (htorun : sect'.torun = true) :
    Selected x sect' ∨ ∀ c, x.base.current = some c → c ≤ j → c ≠ i ∨ j ≠ i →
      ((Traced.cleared i r x).outcomes j).head? = some false ∧
        (0 < sect'.fails ∨ sect'.pid ≤ 0 ∨ c = j) := by
  have houtcomes : (Traced.cleared i r x).outcomes =
      Function.update x.outcomes i (r.status.success :: x.outcomes i) := if_neg hstatus
  rw [houtcomes]
  by_cases hij : i = j
  · subst hij
    obtain ⟨ht, -, htime⟩ := cleared_section hsect hj
    rw [ht] at htorun
    rcases h.due i sect hsect htorun with ⟨lt, hlt, hsel⟩ | hnext
    · exact Or.inl ⟨lt, hlt, (htime _ _ _ _ _).trans hsel⟩
    · right
      intro c hc hci hne
      obtain ⟨-, hrest⟩ := hnext c hc hci
      have hci' : c ≠ i := hne.resolve_right (not_not.mpr rfl)
      have hfails : 0 < sect.fails := by
        rcases hrest with hfails | hle | heq
        · exact hfails
        · omega
        · exact absurd heq hci'
      refine ⟨?_, Or.inr (Or.inl (Int.le_of_eq (cleared_pid hsect hj)))⟩
      rw [Function.update_self, List.head?_cons]
      cases hs : r.status.success with
      | true =>
        have := hsuccess hs
        omega
      | false => rfl
  · rw [getElem?_cleared hsect, if_neg hij] at hj
    rw [Function.update_of_ne (Ne.symm hij)]
    exact (h.due j sect' hj htorun).imp_right fun hnext c hc hci _ => hnext c hc hci

theorem cleared (h : Kept n x) {i : ℕ} {r : Report} {sect : ExecSection}
    (hsect : x.base.sections[i]? = some sect) (hpid : sect.pid = r.pid) (hpos : 0 < r.pid)
    (hstatus : r.status ≠ .stopped) (hsuccess : r.status.success = true → sect.fails = 0) :
    if x.base.current = some i then Kept x.launches (Traced.cleared i r x).advance
    else Kept x.launches (Traced.cleared i r x) := by
  have hlive := h.live.cleared hsect hpid hpos
  have hcounted := h.counted_cleared hsect hstatus hsuccess
  have hearlier : ∀ c ∈ (Traced.cleared i r x).children, c.launch < x.launches :=
    fun c hc => h.earlier c (mem_remaining.mp hc).1
  split_ifs with hcurrent
  · refine ⟨hlive.advance, hcounted, fun j sect' hj htorun => ?_, Nat.le_refl _, hearlier,
      fun c hc hn => absurd hn (Nat.not_le.mpr (hearlier c hc))⟩
    refine (h.due_cleared hsect hpid hpos hstatus hsuccess hj htorun).imp_right
      fun hnext c hc hcj => ?_
    obtain ⟨k, hk, hck⟩ := Option.bind_eq_some_iff.mp hc
    cases hcurrent.symm.trans hk
    split_ifs at hck
    cases hck
    obtain ⟨hhead, hrest⟩ := hnext i hcurrent (by omega) (Or.inr (by omega))
    refine ⟨hhead, ?_⟩
    rcases hrest with hfails | hle | heq
    · exact Or.inl hfails
    · exact Or.inr (Or.inl hle)
    · omega
  · refine ⟨hlive, hcounted, fun j sect' hj htorun => ?_, Nat.le_refl _, hearlier,
      fun c hc hn => absurd hn (Nat.not_le.mpr (hearlier c hc))⟩
    refine (h.due_cleared hsect hpid hpos hstatus hsuccess hj htorun).imp_right
      fun hnext c hc hcj => hnext c hc hcj (Or.inl ?_)
    rintro rfl
    exact hcurrent hc

theorem step (h : Kept n x) {ev : Event} (hsys : System x ev) (hsteady : Steady x ev)
    (hstep : stepExcept x ev = .ok y) : Kept x.launches y := by
  have hbegin : Kept x.launches x :=
    ⟨h.live, h.counted, h.due, Nat.le_refl _, h.earlier,
      fun c hc hn => absurd hn (h.no_starts c hc)⟩
  apply step_keeps (fun _ _ hsame hx => hx.frame hsame) (fun _ hx => hx.advance)
    (fun _ _ _ _ hx hcurrent hsect hcheck hinp => hx.spawned hcurrent hsect hcheck hinp)
    (fun lt _ => h.markToRun lt) ?_ hsys hbegin hstep
  rintro r i sect rfl hsect hpid
  obtain ⟨⟨c, hc, hcpid⟩, -⟩ := hsys
  exact h.cleared hsect hpid (hcpid ▸ h.live.positive c hc) hsteady.1
    fun hs => hsteady.2 hs sect (List.mem_of_getElem? hsect) hpid

/-- What is kept gives what is promised of a step. -/
theorem retried {ev : Event} (h : Kept n x) (hy : Kept x.launches y)
    (hstep : stepExcept x ev = .ok y) : Retried x ev y := by
  refine ⟨?_, hy.starts⟩
  rintro lt rfl i sect hi
  cases hstep
  rw [getElem?_markToRun] at hi
  obtain ⟨sect', hsect', rfl⟩ := Option.map_eq_some_iff.mp hi
  have hcount := h.counted i sect' hsect'
  have hselected : Selected (x.markToRun lt) sect' ↔ sect'.checkTime ((lt.wday + 6) % 7) lt.mon
      (lt.mday - 1) lt.hour (lt.min / 10) = true := by
    constructor
    · rintro ⟨lt', hlt, htime⟩
      cases hlt
      exact htime
    · intro htime
      exact ⟨lt, rfl, htime⟩
  change (decide (sect'.fails > 0) || _) = true ↔ Selected (x.markToRun lt) sect' ∨
    Wanted sect'.retry (x.outcomes i)
  rw [wanted_iff, ← hcount, hselected, Bool.or_eq_true, decide_eq_true_eq]
  exact or_comm

end Kept

/-- From the start, sections are retried as they should be in the runs in which no command ends
successfully while its section has failures, and no stop is reported. -/
theorem retry_policy {sections : List ExecSection}
    (hnew : ∀ sect ∈ sections, sect.fails = 0 ∧ sect.pid = 0 ∧ sect.torun = false) {t t' : ℤ}
    {x : Traced} (hstart : start sections t t' = .ok x) {events : List Event}
    (hevents : Run.LegalRun step System x events) (hsteady : Run.LegalRun step Steady x events) :
    Run.SafeRun step (fun _ => True) Retried x events := by
  have hsound := sound_start (fun sect hs => (hnew sect hs).2.1) hstart
  obtain ⟨x', hx', -, hsections, -, hchildren, houtcomes, -⟩ := start_ok sections t t'
  cases hstart.symm.trans hx'
  have hsect : ∀ (i : ℕ) (sect : ExecSection), x.base.sections[i]? = some sect →
      sect.fails = 0 ∧ sect.torun = false := by
    intro i sect hi
    rw [hsections] at hi
    obtain ⟨h1, -, h3⟩ := hnew sect (List.mem_of_getElem? hi)
    exact ⟨h1, h3⟩
  have hkept : Kept 0 x := by
    refine ⟨hsound.live, fun i sect hi => ?_, fun i sect hi htorun => ?_, Nat.zero_le _, ?_, ?_⟩
    · rw [houtcomes]
      exact (hsect i sect hi).1
    · rw [(hsect i sect hi).2] at htorun
      exact nomatch htorun
    · rw [hchildren]
      exact fun _ hc => nomatch hc
    · rw [hchildren]
      exact fun _ hc => nomatch hc
  refine Run.safeRun_of_inv (fun x => Sound x ∧ ∃ n, Kept n x) ?_ (fun _ _ => trivial)
    ⟨hsound, 0, hkept⟩ (hevents.and hsteady)
  rintro x ev ⟨hx, n, hk⟩ ⟨hsys, hst⟩
  obtain ⟨y, hy, hinv⟩ := step_ok hx.inv hx.known hsys
  have hky := hk.step hsys hst hy
  refine ⟨y, step_eq_some.mpr hy, hk.retried hky hy, ⟨hinv, hky.live, ?_⟩, x.launches, hky⟩
  apply hx.known.step hx.live hsys ?_ hy
  rintro r rfl
  exact hst.1

/-- A section that is run at full hours and may be retried once. -/
def everyHour : ExecSection := { everyCycle with min10 := 1#32, retry := 1 }

/-- The program with this section, started at time 0. -/
def oneRetry : Traced := { oneSection with base := { oneSection.base with sections := [everyHour] } }

/-- The section fails at one o'clock, and its retry is successful. -/
def successfulRetry : List Event :=
  [.markToRun ⟨1, 0, 1, 1, 0⟩, .review ⟨3600, 5, false, false, 0, 0⟩,
    .report ⟨5, .exited 1, fun _ => ⟨3600, -1, false, false, 0, 0⟩⟩,
    .markToRun ⟨1, 0, 1, 1, 10⟩, .review ⟨4200, 6, false, false, 0, 0⟩,
    .report ⟨6, .exited 0, fun _ => ⟨4200, -1, false, false, 0, 0⟩⟩,
    .markToRun ⟨1, 0, 1, 1, 20⟩]

/-- The section fails at one o'clock, and so does its retry; at two it is run again. -/
def failedRetry : List Event :=
  [.markToRun ⟨1, 0, 1, 1, 0⟩, .review ⟨3600, 5, false, false, 0, 0⟩,
    .report ⟨5, .exited 1, fun _ => ⟨3600, -1, false, false, 0, 0⟩⟩,
    .markToRun ⟨1, 0, 1, 1, 10⟩, .review ⟨4200, 6, false, false, 0, 0⟩,
    .report ⟨6, .exited 1, fun _ => ⟨4200, -1, false, false, 0, 0⟩⟩,
    .markToRun ⟨1, 0, 1, 1, 20⟩, .markToRun ⟨1, 0, 1, 2, 0⟩]

theorem system_failedRetry : Run.LegalRun step System oneRetry failedRetry := by
  refine ⟨trivial, fun y hy => ⟨?_, fun z hz => ⟨?_, fun w hw => ⟨trivial, fun y' hy' =>
    ⟨?_, fun z' hz' => ⟨?_, fun _ _ => ⟨trivial, fun _ _ => ⟨trivial, fun _ _ => trivial⟩⟩⟩⟩⟩⟩⟩⟩
  · cases hy
    exact Or.inr ⟨by decide, fun _ hc => nomatch hc⟩
  · cases hy
    cases hz
    exact ⟨⟨⟨5, 0, 0⟩, List.mem_singleton_self _, rfl⟩, fun _ => Or.inl rfl, fun _ _ _ _ => rfl⟩
  · cases hy
    cases hz
    cases hw
    cases hy'
    exact Or.inr ⟨by decide, fun _ hc => nomatch hc⟩
  · cases hy
    cases hz
    cases hw
    cases hy'
    cases hz'
    exact ⟨⟨⟨6, 0, 1⟩, List.mem_singleton_self _, rfl⟩, fun _ => Or.inl rfl, fun _ _ _ _ => rfl⟩

theorem retry_policy_failedRetry :
    Run.SafeRun step (fun _ => True) Retried oneRetry failedRetry := by
  refine @retry_policy [everyHour] (by decide) 0 0 _ rfl _ system_failedRetry ⟨trivial, fun _ _ =>
    ⟨trivial, fun _ _ => ⟨⟨nofun, nofun⟩, fun _ _ => ⟨trivial, fun _ _ => ⟨trivial, fun _ _ =>
      ⟨⟨nofun, nofun⟩, fun _ _ => ⟨trivial, fun _ _ => ⟨trivial, fun _ _ => trivial⟩⟩⟩⟩⟩⟩⟩⟩

/-- After the successful retry the section is marked again. -/
theorem successfulRetry_not_retried :
    ¬ Run.SafeRun step (fun _ => True) Retried oneRetry successfulRetry := by
  rintro ⟨-, y, hy, -, -, y, hy', -, -, y, hy'', -, hrest⟩
  cases hy
  cases hy'
  cases hy''
  obtain ⟨-, y, hy, -, -, y, hy', -, -, y, hy'', -, -, y, hmark, hretried, -⟩ := hrest
  cases hy
  cases hy'
  cases hy''
  cases hmark
  rcases (hretried.marks _ rfl 0 _ rfl).mp rfl with ⟨lt, hlt, htime⟩ | ⟨j, hj, -⟩
  · cases hlt
    exact absurd htime (by decide)
  · exact nomatch hj

end Traced
end Meaner
end Szarp
