import Szarp.Meaner.DataWriter

/-!
# The time of a line

`update_time` computes the time of a line of `szbwriter` from its local time or from the line
before, and every writer leaves the line in UTC for the next one.
-/

namespace Szarp
namespace Meaner
open Szbase Gregorian

/-- The fields that `update_time` compares. -/
def SameHour (tm tm' : Tm) : Prop :=
  tm.tmYear = tm'.tmYear ∧ tm.tmMon = tm'.tmMon ∧ tm.tmMday = tm'.tmMday ∧ tm.tmHour = tm'.tmHour

instance (tm tm' : Tm) : Decidable (SameHour tm tm') :=
  inferInstanceAs (Decidable (_ ∧ _ ∧ _ ∧ _))

/-- A line of the input, with its local time. -/
structure Line where
  name : List Char
  isDouble : Bool
  tm : Tm
  value : ℚ

section Operations

variable (z : Zone) (throws : List Saved → Saved → Bool)

/-- `mktime`, which also corrects the fields. -/
def mktime (tm : Tm) : ℤ × Tm :=
  let t := timegm tm - z.utcOffset
  (t, gmtime (t + z.utcOffset))

def updateTime (newtm : Tm) (oldt : ℤ) (oldtm : Tm) : ℤ × Tm :=
  if ¬ SameHour newtm oldtm then mktime z newtm
  else (oldt + (newtm.tmMin - oldtm.tmMin) * 60 + (newtm.tmSec - oldtm.tmSec), newtm)

/-- `add_data` of a writer; what is left of the line is its time in UTC. -/
def DataWriter.addData (l : Line) (tm : Tm) (w : DataWriter) : (DataWriter × Bool) × Tm :=
  let r := updateTime z tm w.t w.tm
  (DataWriter.addAt throws l.name l.isDouble r.1 l.value { w with t := r.1, tm := r.2 }, gmtime r.1)

structure SzbaseWriter where
  min10 : DataWriter
  sec10 : Option DataWriter

/-- `add_data` of a parameter that is known, and the times that the writers used; the second writer
is not reached when the first one fails. -/
def SzbaseWriter.addData (l : Line) (s : SzbaseWriter) : SzbaseWriter × List ℤ :=
  let first := s.min10.addData z throws l l.tm
  if first.1.2 then (⟨first.1.1, s.sec10⟩, [first.1.1.t])
  else
    match s.sec10 with
    | none => (⟨first.1.1, none⟩, [first.1.1.t])
    | some w =>
      let second := w.addData z throws l first.2
      (⟨first.1.1, some second.1.1⟩, [first.1.1.t, second.1.1.t])

def timesOf : SzbaseWriter → List Line → List (Line × List ℤ)
  | _, [] => []
  | s, l :: lines =>
    let r := s.addData z throws l
    (l, r.2) :: timesOf r.1 lines

/-- All writers use the time that is meant. -/
def Agree (s : SzbaseWriter) (lines : List Line) : Prop :=
  ∀ x ∈ timesOf z throws s lines, ∀ t ∈ x.2, t = (mktime z x.1.tm).1

instance (s : SzbaseWriter) (lines : List Line) : Decidable (Agree z throws s lines) :=
  inferInstanceAs (Decidable (∀ x ∈ timesOf z throws s lines, _))

def passed : DataWriter → List Line → List Line
  | _, [] => []
  | w, l :: lines =>
    let r := (w.addData z throws l l.tm).1
    if r.2 then passed r.1 lines else l :: passed r.1 lines

end Operations

/-- What a writer has as its last time does no harm to a line at time `t`. -/
def Harmless (w : DataWriter) (tm : Tm) (t : ℤ) : Prop :=
  SameHour tm w.tm → w.t + (tm.tmMin - w.tm.tmMin) * 60 + (tm.tmSec - w.tm.tmSec) = t

instance (w : DataWriter) (tm : Tm) (t : ℤ) : Decidable (Harmless w tm t) :=
  inferInstanceAs (Decidable (_ → _))

/-- The first writer does not mistake the first line for one behind another, and local time is UTC
or all lines that pass it are in the hour that the second writer has, without a line, as its last
one. -/
structure InUtc (z : Zone) (throws : List Saved → Saved → Bool) (s : SzbaseWriter)
    (lines : List Line) : Prop where
  first : ∀ l, lines.head? = some l → Harmless s.min10 l.tm (mktime z l.tm).1
  second : ∀ w, s.sec10 = some w → ∀ l ls, passed z throws s.min10 lines = l :: ls →
    Harmless w (gmtime (mktime z l.tm).1) (mktime z l.tm).1 ∧
      (z.utcOffset = 0 ∨ ∀ l' ∈ l :: ls, SameHour (gmtime (mktime z l'.tm).1) w.tm)

/-- A time that `mktime` does not correct. -/
def Valid (tm : Tm) : Prop := gmtime (timegm tm) = tm

/-! ## One writer -/

section Writer

variable {z : Zone} {throws : List Saved → Saved → Bool}

/-- The last time of a writer is the same. -/
def SameTime (w w' : DataWriter) : Prop := w'.t = w.t ∧ w'.tm = w.tm

theorem sameTime_saveData (w : DataWriter) : SameTime w (DataWriter.saveData throws w).1 := by
  unfold DataWriter.saveData
  split_ifs
  · exact ⟨rfl, rfl⟩
  · dsimp only
    split_ifs <;> exact ⟨rfl, rfl⟩

theorem sameTime_fillLoop (stop : ℤ) (sum : ℚ) (count : ℤ) (n : ℕ) (t : ℤ) (w : DataWriter) :
    SameTime w (DataWriter.fillLoop throws stop sum count n t w).1 := by
  induction n generalizing t w with
  | zero => exact ⟨rfl, rfl⟩
  | succ n ih =>
    rw [DataWriter.fillLoop]
    split_ifs
    · have hsave : SameTime w (DataWriter.saveData throws
          { w with curT := t, curCnt := count, curSum := sum }).1 := sameTime_saveData _
      generalize DataWriter.saveData throws { w with curT := t, curCnt := count, curSum := sum } = r
        at hsave ⊢
      obtain ⟨w', failed⟩ := r
      cases failed with
      | true => exact hsave
      | false =>
        have hrest := ih (t + w'.probeLength) w'
        exact ⟨hrest.1.trans hsave.1, hrest.2.trans hsave.2⟩
    · exact ⟨rfl, rfl⟩

theorem sameTime_fillGaps (start stop : ℤ) (sum : ℚ) (count : ℤ) (w : DataWriter) :
    SameTime w (DataWriter.fillGaps throws start stop sum count w).1 := by
  unfold DataWriter.fillGaps
  split_ifs
  · exact ⟨rfl, rfl⟩
  · have hloop := @sameTime_fillLoop throws stop sum count (stop - start).toNat start w
    generalize DataWriter.fillLoop throws stop sum count (stop - start).toNat start w = r at hloop ⊢
    obtain ⟨w', failed⟩ := r
    cases failed with
    | true => exact hloop
    | false => exact hloop

theorem sameTime_addValue (t : ℤ) (data : ℚ) (w : DataWriter) :
    SameTime w (DataWriter.addValue throws t data w).1 := by
  unfold DataWriter.addValue
  split_ifs
  · exact ⟨rfl, rfl⟩
  · have hsave := @sameTime_saveData throws w
    generalize DataWriter.saveData throws w = r at hsave ⊢
    obtain ⟨w', failed⟩ := r
    cases failed with
    | true => exact hsave
    | false =>
      dsimp only
      split_ifs
      · have hfill : SameTime w' (DataWriter.fillGaps throws (int32 w.curT + w.probeLength)
            (int32 (int32 w.curT + int32 (w'.probeStart t - int32 w.curT))) w.curSum w.curCnt
            { w' with curT := w'.probeStart t }).1 := sameTime_fillGaps _ _ _ _ _
        generalize DataWriter.fillGaps throws (int32 w.curT + w.probeLength)
          (int32 (int32 w.curT + int32 (w'.probeStart t - int32 w.curT))) w.curSum w.curCnt
          { w' with curT := w'.probeStart t } = r at hfill ⊢
        obtain ⟨w'', failed⟩ := r
        have hboth : SameTime w w'' := ⟨hfill.1.trans hsave.1, hfill.2.trans hsave.2⟩
        cases failed with
        | true => exact hboth
        | false => exact hboth
      · exact hsave

theorem sameTime_addAt (name : List Char) (isDbl : Bool) (t : ℤ) (data : ℚ) (w : DataWriter) :
    SameTime w (DataWriter.addAt throws name isDbl t data w).1 := by
  unfold DataWriter.addAt
  split_ifs
  · have hsave := @sameTime_saveData throws w
    generalize DataWriter.saveData throws w = r at hsave ⊢
    obtain ⟨w', failed⟩ := r
    cases failed with
    | true => exact hsave
    | false =>
      have hadd : SameTime w' (DataWriter.addValue throws t data { w' with
        isDouble := isDbl, curSum := 0, curCnt := 0, curT := w'.probeStart t, curName := name }).1 :=
        sameTime_addValue _ _ _
      exact ⟨hadd.1.trans hsave.1, hadd.2.trans hsave.2⟩
  · exact sameTime_addValue t data w

theorem addData_t (l : Line) (tm : Tm) (w : DataWriter) :
    (w.addData z throws l tm).1.1.t = (updateTime z tm w.t w.tm).1 ∧
      (w.addData z throws l tm).1.1.tm = (updateTime z tm w.t w.tm).2 :=
  sameTime_addAt _ _ _ _ _

theorem mktime_of_valid {tm : Tm} (h : Valid tm) : mktime z tm = (timegm tm - z.utcOffset, tm) := by
  rw [mktime, sub_add_cancel, h]

theorem timegm_sameHour {tm tm' : Tm} (h : SameHour tm tm') :
    timegm tm = timegm tm' + (tm.tmMin - tm'.tmMin) * 60 + (tm.tmSec - tm'.tmSec) := by
  obtain ⟨h1, h2, h3, h4⟩ := h
  rw [timegm, timegm, h1, h2, h3, h4]
  ring

theorem updateTime_of_valid {tm : Tm} (h : Valid tm) (oldt : ℤ) (oldtm : Tm) :
    updateTime z tm oldt oldtm = (if SameHour tm oldtm then
      oldt + (tm.tmMin - oldtm.tmMin) * 60 + (tm.tmSec - oldtm.tmSec)
      else timegm tm - z.utcOffset, tm) := by
  rw [updateTime]
  by_cases hsame : SameHour tm oldtm
  · rw [if_neg (not_not.mpr hsame), if_pos hsame]
  · rw [if_pos hsame, if_neg hsame, mktime_of_valid h]

theorem valid_gmtime (t : ℤ) : Valid (gmtime t) := by rw [Valid, timegm_gmtime]

/-- What the last time of a writer is after a right line. -/
def Settled (z : Zone) (w : DataWriter) : Prop := w.t = timegm w.tm - z.utcOffset

theorem harmless_of_settled {w : DataWriter} (h : Settled z w) {tm : Tm} (hvalid : Valid tm) :
    Harmless w tm (mktime z tm).1 := by
  intro hsame
  rw [h, mktime_of_valid hvalid, timegm_sameHour hsame]
  ring

theorem addData_of_harmless {l : Line} {tm : Tm} (hvalid : Valid tm) {w : DataWriter}
    (h : Harmless w tm (mktime z tm).1) :
    (w.addData z throws l tm).1.1.t = (mktime z tm).1 ∧ (w.addData z throws l tm).1.1.tm = tm ∧
      (w.addData z throws l tm).2 = gmtime (mktime z tm).1 := by
  have htime : updateTime z tm w.t w.tm = ((mktime z tm).1, tm) := by
    rw [updateTime_of_valid hvalid]
    split_ifs with hsame
    · rw [h hsame]
    · rw [mktime_of_valid hvalid]
  have hfields := @addData_t z throws l tm w
  rw [htime] at hfields
  refine ⟨hfields.1, hfields.2, ?_⟩
  rw [DataWriter.addData, htime]

end Writer

/-! ## Lines in UTC -/

section InUtc

variable {z : Zone} {throws : List Saved → Saved → Bool}

/-- A writer that gets the lines in UTC, with `t` and `tm` as its last time, uses the time that is
meant. -/
def RightInUtc (z : Zone) : ℤ → Tm → List Line → Prop
  | _, _, [] => True
  | t, tm, l :: lines =>
    (updateTime z (gmtime (mktime z l.tm).1) t tm).1 = (mktime z l.tm).1 ∧
      RightInUtc z (mktime z l.tm).1 (gmtime (mktime z l.tm).1) lines

theorem updateTime_gmtime (t oldt : ℤ) (oldtm : Tm) :
    (updateTime z (gmtime t) oldt oldtm).1 = t ↔
      (SameHour (gmtime t) oldtm →
        oldt + ((gmtime t).tmMin - oldtm.tmMin) * 60 + ((gmtime t).tmSec - oldtm.tmSec) = t) ∧
      (z.utcOffset = 0 ∨ SameHour (gmtime t) oldtm) := by
  rw [updateTime_of_valid (valid_gmtime t), timegm_gmtime]
  by_cases hsame : SameHour (gmtime t) oldtm
  · simp only [hsame, if_true, true_imp_iff, or_true, and_true]
  · simp only [hsame, if_false, false_imp_iff, or_false, true_and]
    omega

theorem SameHour.trans {a b c : Tm} (h : SameHour a b) (h' : SameHour b c) : SameHour a c :=
  ⟨h.1.trans h'.1, h.2.1.trans h'.2.1, h.2.2.1.trans h'.2.2.1, h.2.2.2.trans h'.2.2.2⟩

theorem SameHour.symm {a b : Tm} (h : SameHour a b) : SameHour b a :=
  ⟨h.1.symm, h.2.1.symm, h.2.2.1.symm, h.2.2.2.symm⟩

/-- Behind a right line only the hour matters. -/
theorem rightInUtc_gmtime (t : ℤ) (lines : List Line) :
    RightInUtc z t (gmtime t) lines ↔
      z.utcOffset = 0 ∨ ∀ l ∈ lines, SameHour (gmtime (mktime z l.tm).1) (gmtime t) := by
  induction lines generalizing t with
  | nil => simp [RightInUtc]
  | cons l lines ih =>
    have hminutes : SameHour (gmtime (mktime z l.tm).1) (gmtime t) →
        t + ((gmtime (mktime z l.tm).1).tmMin - (gmtime t).tmMin) * 60 +
          ((gmtime (mktime z l.tm).1).tmSec - (gmtime t).tmSec) = (mktime z l.tm).1 := by
      intro hsame
      have hgm := timegm_sameHour hsame
      rw [timegm_gmtime, timegm_gmtime] at hgm
      exact hgm.symm
    rw [RightInUtc, updateTime_gmtime, and_iff_right hminutes, ih]
    constructor
    · rintro ⟨hzero | hsame, hrest⟩
      · exact Or.inl hzero
      · refine hrest.imp_right fun hrest l' hl' => ?_
        rcases List.mem_cons.mp hl' with rfl | hl'
        · exact hsame
        · exact (hrest l' hl').trans hsame
    · rintro (hzero | hall)
      · exact ⟨Or.inl hzero, Or.inl hzero⟩
      · have hsame := hall l List.mem_cons_self
        exact ⟨Or.inr hsame, Or.inr fun l' hl' =>
          (hall l' (List.mem_cons_of_mem _ hl')).trans hsame.symm⟩

theorem rightInUtc_iff (w : DataWriter) (lines : List Line) :
    RightInUtc z w.t w.tm lines ↔ ∀ l ls, lines = l :: ls →
      Harmless w (gmtime (mktime z l.tm).1) (mktime z l.tm).1 ∧
        (z.utcOffset = 0 ∨ ∀ l' ∈ l :: ls, SameHour (gmtime (mktime z l'.tm).1) w.tm) := by
  cases lines with
  | nil => simp [RightInUtc]
  | cons l lines =>
    rw [RightInUtc, updateTime_gmtime, rightInUtc_gmtime]
    have hhours : ((z.utcOffset = 0 ∨ SameHour (gmtime (mktime z l.tm).1) w.tm) ∧
        (z.utcOffset = 0 ∨ ∀ l' ∈ lines,
          SameHour (gmtime (mktime z l'.tm).1) (gmtime (mktime z l.tm).1))) ↔
        (z.utcOffset = 0 ∨ ∀ l' ∈ l :: lines, SameHour (gmtime (mktime z l'.tm).1) w.tm) := by
      rw [← or_and_left, List.forall_mem_cons]
      refine or_congr_right (and_congr_right fun hsame => ?_)
      exact ⟨fun h l' hl' => (h l' hl').trans hsame, fun h l' hl' => (h l' hl').trans hsame.symm⟩
    rw [and_assoc, hhours]
    constructor
    · intro h l' ls hcons
      obtain ⟨rfl, rfl⟩ := List.cons.inj hcons
      exact h
    · intro h
      exact h l lines rfl

end InUtc

/-! ## Both writers -/

section Writers

variable {z : Zone} {throws : List Saved → Saved → Bool}

theorem agree_cons (s : SzbaseWriter) (l : Line) (lines : List Line) :
    Agree z throws s (l :: lines) ↔ (∀ t ∈ (s.addData z throws l).2, t = (mktime z l.tm).1) ∧
      Agree z throws (s.addData z throws l).1 lines := by
  simp only [Agree, timesOf, List.forall_mem_cons]

/-- The first writer is right once it was; the second one gets the lines in UTC. -/
theorem agree_iff_rightInUtc (s : SzbaseWriter) {lines : List Line}
    (hvalid : ∀ l ∈ lines, Valid l.tm)
    (hfirst : ∀ l, lines.head? = some l → Harmless s.min10 l.tm (mktime z l.tm).1) :
    Agree z throws s lines ↔
      ∀ w, s.sec10 = some w → RightInUtc z w.t w.tm (passed z throws s.min10 lines) := by
  induction lines generalizing s with
  | nil => simp [Agree, timesOf, passed, RightInUtc]
  | cons l lines ih =>
    obtain ⟨hl, hlines⟩ := List.forall_mem_cons.mp hvalid
    obtain ⟨ht, htm, hutc⟩ := @addData_of_harmless z throws l l.tm hl s.min10
      (hfirst l rfl)
    have hsettled : Settled z (s.min10.addData z throws l l.tm).1.1 := by
      rw [Settled, ht, htm, mktime_of_valid hl]
    have hnext : ∀ l', lines.head? = some l' →
        Harmless (s.min10.addData z throws l l.tm).1.1 l'.tm (mktime z l'.tm).1 := by
      intro l' hl'
      exact harmless_of_settled hsettled (hlines l' (List.mem_of_mem_head? hl'))
    rw [agree_cons, passed, SzbaseWriter.addData]
    dsimp only
    cases hfailed : (s.min10.addData z throws l l.tm).1.2 with
    | true =>
      rw [if_pos rfl, if_pos rfl]
      rw [ih ⟨_, s.sec10⟩ hlines hnext]
      refine and_iff_right fun t hmem => ?_
      rw [List.mem_singleton.mp hmem, ht]
    | false =>
      rw [if_neg Bool.false_ne_true, if_neg Bool.false_ne_true]
      cases hsec : s.sec10 with
      | none =>
        have hrest := ih ⟨(s.min10.addData z throws l l.tm).1.1, none⟩ hlines hnext
        simp [hrest, ht]
      | some w =>
        dsimp only
        rw [hutc, ih _ hlines hnext]
        obtain ⟨ht', htm'⟩ := @addData_t z throws l (gmtime (mktime z l.tm).1) w
        rw [updateTime_of_valid (valid_gmtime _)] at htm'
        simp only [Option.some.injEq, forall_eq', List.forall_mem_cons, ht, ht', htm', RightInUtc,
          List.not_mem_nil, false_imp_iff, forall_const, and_true, true_and]
        refine and_congr_right fun hright => ?_
        rw [hright]

/-- Both writers file a line under its own time only when local time is UTC or no line leaves the
hour that the second one began with. -/
theorem agree_iff (z : Zone) (throws : List Saved → Saved → Bool) (s : SzbaseWriter)
    {lines : List Line} (hvalid : ∀ l ∈ lines, Valid l.tm) :
    Agree z throws s lines ↔ InUtc z throws s lines := by
  have hfirst : Agree z throws s lines → ∀ l, lines.head? = some l →
      Harmless s.min10 l.tm (mktime z l.tm).1 := by
    intro h l hl hsame
    obtain ⟨rest, rfl⟩ : ∃ rest, lines = l :: rest := by
      cases lines with
      | nil => exact absurd hl (by simp)
      | cons l' rest => exact ⟨rest, by rw [Option.some.inj hl]⟩
    have hright := ((agree_cons s l rest).mp h).1 (s.min10.addData z throws l l.tm).1.1.t (by
      rw [SzbaseWriter.addData]
      dsimp only
      split_ifs
      · exact List.mem_singleton_self _
      · cases s.sec10 <;> exact List.mem_cons_self)
    rw [(addData_t l l.tm s.min10).1, updateTime_of_valid (hvalid l List.mem_cons_self),
      if_pos hsame] at hright
    exact hright
  constructor
  · intro h
    have hutc := (agree_iff_rightInUtc s hvalid (hfirst h)).mp h
    exact ⟨hfirst h, fun w hw l ls hls => (rightInUtc_iff w _).mp (hutc w hw) l ls hls⟩
  · intro h
    exact (agree_iff_rightInUtc s hvalid h.first).mpr fun w hw =>
      (rightInUtc_iff w _).mpr (h.second w hw)

/-- A line at the hour `hour` of 2 January 2012. -/
def lineAt (hour : ℤ) : Line := ⟨['a'], false, gmtime (1325462400 + hour * 3600), 7⟩

def utc : Zone := ⟨0, by decide⟩

def hourEast : Zone := ⟨3600, by decide⟩

/-- The two writers of `szbwriter`, which have seen no line. -/
def freshWriters : SzbaseWriter where
  min10 := DataWriter.new 600 0 (gmtime 0) 0
  sec10 := some (DataWriter.new 10 0 (gmtime 0) 0)

theorem agree_iff_utc : Agree utc (fun _ _ => false) freshWriters [lineAt 0] :=
  (agree_iff utc (fun _ _ => false) freshWriters (fun _ h => by
    rw [List.mem_singleton.mp h]
    exact valid_gmtime _)).mpr
    ⟨fun l h => by cases h; decide, fun _ h _ _ hls => by
      cases h
      cases hls
      exact ⟨by decide, Or.inl rfl⟩⟩

/-- One hour east of UTC the second writer files the line an hour early. -/
theorem lineAt_disagree : ¬ Agree hourEast (fun _ _ => false) freshWriters [lineAt 0] := by
  decide +kernel

end Writers

end Meaner
end Szarp
