import Szarp.Lib.Overlay
import Szarp.Szbase.MonthFiles
import Szarp.Szbase.RealDatablock

/-!
# The files of a parameter

`tsaveparam.cc` of `meaner3`: the probes of a parameter are written to one file for each month,
through a descriptor that stays open between the writes.
-/

namespace Szarp
namespace Meaner
open Szbase Numeral PyText

structure SaveParam where
  files : List Char → Option (List Word)
  -- the file behind the descriptor; `none` is descriptor -1
  fd : Option (List Char)
  path : List Char
  lastPath : List Char
  -- what is counted in the status: calls with data
  notNull : ℕ

/-- The arguments of a call, and whether the directory of the file is there or can be made, and
whether the file can be opened. -/
structure Call where
  t : ℤ
  data : List Word
  status : Bool
  overwrite : Bool
  forceNodata : Bool
  parent : Bool
  opens : Bool

namespace SaveParam

def closeFile (s : SaveParam) : SaveParam :=
  if s.fd = none then s else { s with fd := none, lastPath := [] }

/-- The part of a path behind the base directory. -/
def createFilePath (cname : List Char) (year : ℤ) (month : ℕ) (probeLength : ℤ) (s : SaveParam) :
    SaveParam :=
  { s with
    path := szbCreatefilenameNe cname year month
      (if probeLength = dataSpan then ".szb".toList else ".szc".toList) }

/-- The file is opened, and is made when it is missing; a base directory cannot be opened. -/
def openFile (c : Call) (s : SaveParam) : Option SaveParam :=
  if c.parent ∧ c.opens ∧ s.path ≠ [] then
    some { s with
      files := Function.update s.files s.path (some ((s.files s.path).getD []))
      fd := some s.path
      lastPath := s.path }
  else none

def fillGap (index : ℕ) (file : List Word) : List Word :=
  (List.range' file.length (index - file.length)).foldl
    (fun file last => Overlay.pwrite file last [fileNodata]) file

/-- The part of `WriteBuffered` behind the opening of the file. -/
def writeFile (c : Call) (index : ℕ) (path : List Char) (s : SaveParam) : ℕ × SaveParam :=
  let file := (s.files path).getD []
  if file.length > index ∧ c.overwrite = false then (1, s)
  else
    let file := Overlay.pwrite (fillGap index file) index c.data
    (0, { s with files := Function.update s.files path (some file) })

/-- `WriteBuffered`; no number is returned when an assertion fails.  `gmtime_r` fails when the year
is no `int`. -/
def writeBuffered (cname : List Char) (probeLength : ℤ) (forceSameFile : Bool) (c : Call)
    (s : SaveParam) : Option ℕ × SaveParam :=
  let index := szbProbeind c.t probeLength
  let (year, month) := szbTime2my c.t
  if index < 0 then (none, s)
  else if year - 1900 ≥ 2 ^ 31 then (none, s)
  else
    let dataFound := c.data.any (· ≠ fileNodata)
    if (!c.forceNodata || c.status) && (!dataFound && !c.forceNodata) then (some 0, s)
    else
      let s := if dataFound && c.status then { s with notNull := s.notNull + 1 } else s
      let s := if forceSameFile then s else s.createFilePath cname year month probeLength
      if s.fd = none ∨ s.lastPath ≠ s.path then
        let s := s.closeFile
        match s.openFile c with
        | none => (some 1, s)
        | some s =>
          let (ret, s) := s.writeFile c index.toNat s.path
          (some ret, s)
      else
        let (ret, s) := s.writeFile c index.toNat (s.fd.getD [])
        (some ret, s)

/-- `Write`; when an assertion fails the process ends, which closes the file. -/
def write (cname : List Char) (probeLength : ℤ) (s : SaveParam) (c : Call) :
    Option ℕ × SaveParam :=
  let (ret, s) := writeBuffered cname probeLength false c s
  if ret = some 0 then (ret, s) else (ret, s.closeFile)

def new : SaveParam := ⟨fun _ => none, none, [], [], 0⟩

end SaveParam

/-! ## Names -/

/-- A year and a month that the files of the data base may have. -/
def ValidMonth (year : ℤ) (month : ℕ) : Prop :=
  0 ≤ year ∧ year ≤ 9999 ∧ 1 ≤ month ∧ month ≤ 12

theorem szbCreatefilenameNe_ne_nil {cparam suffix : List Char} {year : ℤ} {month : ℕ} :
    szbCreatefilenameNe cparam year month suffix ≠ [] ↔ cparam ≠ [] ∧ ValidMonth year month := by
  unfold szbCreatefilenameNe ValidMonth minYear maxYear
  constructor
  · intro h
    split_ifs at h with h1 h2 h3
    · exact absurd rfl h
    · exact absurd rfl h
    · exact absurd rfl h
    · exact ⟨h1, by omega⟩
  · rintro ⟨h1, h2⟩
    rw [if_neg h1, if_neg (by omega), if_neg (by omega)]
    simp

theorem szbCreatefilenameNe_inj {cparam cparam' suffix : List Char} {year year' : ℤ}
    {month month' : ℕ} (hne : szbCreatefilenameNe cparam year month suffix ≠ [])
    (h : szbCreatefilenameNe cparam year month suffix =
      szbCreatefilenameNe cparam' year' month' suffix) :
    cparam = cparam' ∧ (year, month) = (year', month') := by
  have hne' := hne
  rw [h] at hne'
  obtain ⟨hc, hy, hy9, hm, hm12⟩ := szbCreatefilenameNe_ne_nil.mp hne
  obtain ⟨hc', hy', hy9', hm', hm12'⟩ := szbCreatefilenameNe_ne_nil.mp hne'
  have hvalid : ∀ {c : List Char} {y : ℤ} {m : ℕ}, c ≠ [] → 0 ≤ y → y ≤ 9999 → 1 ≤ m → m ≤ 12 →
      szbCreatefilenameNe c y m suffix = c ++ '/' :: (padded 4 y.toNat ++ padded 2 m ++ suffix) := by
    intro c y m h0 h1 h2 h3 h4
    unfold szbCreatefilenameNe minYear maxYear
    rw [if_neg h0, if_neg (by omega), if_neg (by omega), leafName]
  have hlen4 : ∀ {y : ℤ}, 0 ≤ y → y ≤ 9999 → (padded 4 y.toNat).length = 4 :=
    fun h0 h1 => length_padded (by decide) (by omega)
  have hlen2 : ∀ {m : ℕ}, m ≤ 12 → (padded 2 m).length = 2 :=
    fun h0 => length_padded (by decide) (by omega)
  have hinj : ∀ {width n n' : ℕ}, padded width n = padded width n' → n = n' := by
    intro width n n' hpadded
    rw [← ofDigitChars_padded width n, hpadded, ofDigitChars_padded]
  rw [hvalid hc hy hy9 hm hm12, hvalid hc' hy' hy9' hm' hm12'] at h
  obtain ⟨hcparam, htail⟩ := List.append_inj' h (by
    simp only [List.length_cons, List.length_append, hlen4 hy hy9, hlen4 hy' hy9', hlen2 hm12,
      hlen2 hm12'])
  rw [List.cons.injEq, List.append_cancel_right_eq] at htail
  obtain ⟨hyear, hmonth⟩ := List.append_inj htail.2 (by rw [hlen4 hy hy9, hlen4 hy' hy9'])
  have h4 := hinj hyear
  have h2 := hinj hmonth
  refine ⟨hcparam, ?_⟩
  rw [Prod.mk.injEq]
  exact ⟨by omega, h2⟩

theorem szbProbeind_nonneg (t : ℤ) {probeLength : ℤ} (h : 0 < probeLength) :
    0 ≤ szbProbeind t probeLength := by
  obtain ⟨-, -, h3, h4, h5, h6, h7, -, h9, -⟩ := Gregorian.gmtime_fields t
  have h31 := h4.trans (Gregorian.monthLength_pos _ _).2
  unfold szbProbeind
  dsimp only
  apply Int.ediv_nonneg _ h.le
  rw [daySec_getD h3 h31, hourSec_getD h5 h6]
  omega

namespace SaveParam

theorem fillGap_eq (index : ℕ) (file : List Word) :
    fillGap index file = file ++ List.replicate (index - file.length) fileNodata := by
  unfold fillGap
  induction hn : index - file.length generalizing file with
  | zero => simp
  | succ n ih =>
    rw [List.range'_succ, List.foldl_cons, Overlay.pwrite_end]
    have hlen : (file ++ [fileNodata]).length = file.length + 1 := by simp
    have hstep := ih (file ++ [fileNodata]) (by omega)
    rw [hlen] at hstep
    rw [hstep, List.append_assoc, List.singleton_append, ← List.replicate_succ]

/-! ## One call -/

section Write

variable {cname : List Char} {probeLength : ℤ}

def monthFile (cname : List Char) (probeLength : ℤ) (my : ℤ × ℕ) : List Char :=
  szbCreatefilenameNe cname my.1 my.2
    (if probeLength = dataSpan then ".szb".toList else ".szc".toList)

/-- There is no data in the call, and writing is not forced. -/
def Skipped (c : Call) : Prop := (∀ w ∈ c.data, w = fileNodata) ∧ c.forceNodata = false

def written (probeLength : ℤ) (c : Call) (file : List Word) : List Word :=
  Overlay.pwrite (fillGap (szbProbeind c.t probeLength).toNat file)
    (szbProbeind c.t probeLength).toNat c.data

/-- An open file is the last one. -/
def Opened (s : SaveParam) : Prop := ∀ p, s.fd = some p → s.lastPath = p ∧ p ≠ []

/-- The file was opened: nothing changes, or the file is written. -/
theorem writeFile_cases (c : Call) (index : ℕ) (path : List Char) (s : SaveParam) :
    (s.writeFile c index path = (1, s) ∧ index < ((s.files path).getD []).length) ∨
      s.writeFile c index path = (0, { s with
        files := Function.update s.files path
          (some (Overlay.pwrite (fillGap index ((s.files path).getD [])) index c.data)) }) := by
  unfold writeFile
  dsimp only
  split_ifs with h
  · exact Or.inl ⟨rfl, h.1⟩
  · exact Or.inr rfl

/-- The outcome of a call once the name of the file is known. -/
inductive Outcome (c : Call) (index : ℕ) (path : List Char) (s : SaveParam) :
    ℕ × SaveParam → Prop
  | failed (s' : SaveParam) (hfiles : s'.files = s.files) : Outcome c index path s (1, s')
  | done (s' : SaveParam) (hpath : path ≠ [])
    (hfiles : s'.files = Function.update s.files path
      (some (Overlay.pwrite (fillGap index ((s.files path).getD [])) index c.data)))
    (hfd : s'.fd = some path) (hlast : s'.lastPath = path) : Outcome c index path s (0, s')

theorem closeFile_files (s : SaveParam) : s.closeFile.files = s.files := by
  unfold closeFile
  split_ifs <;> rfl

theorem closeFile_path (s : SaveParam) : s.closeFile.path = s.path := by
  unfold closeFile
  split_ifs <;> rfl

theorem closeFile_fd (s : SaveParam) : s.closeFile.fd = none := by
  unfold closeFile
  split_ifs with h
  · exact h
  · rfl

theorem outcome_of_closed (c : Call) (index : ℕ) (s : SaveParam) :
    (s.closeFile.openFile c = none) ∨
      ∃ s', s.closeFile.openFile c = some s' ∧
        Outcome c index s.path s (s'.writeFile c index s'.path) := by
  unfold openFile
  rw [closeFile_path, closeFile_files]
  split_ifs with h
  · refine Or.inr ⟨_, rfl, ?_⟩
    change Outcome c index s.path s (writeFile c index s.path _)
    generalize hs' : ({ s.closeFile with
      files := Function.update s.files s.path (some ((s.files s.path).getD []))
      fd := some s.path
      path := s.path
      lastPath := s.path } : SaveParam) = s'
    have hfile : s'.files s.path = some ((s.files s.path).getD []) := by
      rw [← hs']
      exact Function.update_self _ _ _
    have hfiles : s'.files = Function.update s.files s.path (some ((s.files s.path).getD [])) := by
      rw [← hs']
    rcases writeFile_cases c index s.path s' with ⟨heq, hlt⟩ | heq
    · rw [heq]
      refine .failed s' ?_
      -- a file that is longer than the index is no new one
      rw [hfile, Option.getD_some] at hlt
      cases hold : s.files s.path with
      | none =>
        rw [hold, Option.getD_none] at hlt
        exact absurd hlt (Nat.not_lt_zero _)
      | some f => rw [hfiles, hold, Option.getD_some, ← hold, Function.update_eq_self]
    · rw [heq]
      refine .done _ h.2.2 ?_ (by rw [← hs']) (by rw [← hs'])
      dsimp only
      rw [hfile, hfiles, Function.update_idem, Option.getD_some]
  · exact Or.inl rfl

theorem outcome_of_opened {s : SaveParam} (h : Opened s) (hfd : s.fd ≠ none)
    (hlast : s.lastPath = s.path) (c : Call) (index : ℕ) :
    Outcome c index s.path s (s.writeFile c index (s.fd.getD [])) := by
  obtain ⟨p, hp⟩ := Option.ne_none_iff_exists'.mp hfd
  obtain ⟨hlp, hne⟩ := h p hp
  have hpath : p = s.path := by rw [← hlp, hlast]
  rw [hp, Option.getD_some]
  subst hpath
  rcases writeFile_cases c index s.path s with ⟨heq, -⟩ | heq
  · rw [heq]
    exact .failed s rfl
  · rw [heq]
    exact .done _ hne rfl hp hlast

/-- The states before and after a call of `Write`, with what it returns. -/
inductive Step (cname : List Char) (probeLength : ℤ) (c : Call) (s : SaveParam) :
    Option ℕ × SaveParam → Prop
  | aborted (s' : SaveParam) (hyear : 2 ^ 31 ≤ (szbTime2my c.t).1 - 1900)
    (hfiles : s'.files = s.files) (hfd : s'.fd = none) : Step cname probeLength c s (none, s')
  | skipped (h : Skipped c) : Step cname probeLength c s (some 0, s)
  | failed (s' : SaveParam) (h : ¬ Skipped c) (hfiles : s'.files = s.files) (hfd : s'.fd = none) :
    Step cname probeLength c s (some 1, s')
  | done (s' : SaveParam) (h : ¬ Skipped c)
    (hpath : monthFile cname probeLength (szbTime2my c.t) ≠ [])
    (hfiles : s'.files = Function.update s.files (monthFile cname probeLength (szbTime2my c.t))
      (some (written probeLength c
        ((s.files (monthFile cname probeLength (szbTime2my c.t))).getD []))))
    (hfd : s'.fd = some (monthFile cname probeLength (szbTime2my c.t)))
    (hlast : s'.lastPath = monthFile cname probeLength (szbTime2my c.t)) :
    Step cname probeLength c s (some 0, s')

theorem skipped_iff (c : Call) :
    ((!c.forceNodata || c.status) && (!c.data.any (· ≠ fileNodata) && !c.forceNodata)) = true ↔
      Skipped c := by
  unfold Skipped
  cases c.forceNodata <;> simp

theorem step_of_outcome {c : Call} {s s1 : SaveParam} {r : ℕ × SaveParam} (h : ¬ Skipped c)
    (hfiles : s1.files = s.files)
    (ho : Outcome c (szbProbeind c.t probeLength).toNat
      (monthFile cname probeLength (szbTime2my c.t)) s1 r) :
    Step cname probeLength c s
      (if some r.1 = some 0 then (some r.1, r.2) else (some r.1, r.2.closeFile)) := by
  cases ho with
  | failed s' hf =>
    rw [if_neg (by simp)]
    exact .failed _ h (by rw [closeFile_files, hf, hfiles]) (closeFile_fd _)
  | done s' hpath hf hfd hlast =>
    rw [if_pos rfl]
    exact .done _ h hpath (by rw [hf, hfiles]; rfl) hfd hlast

theorem write_step (cname : List Char) (hlen : 0 < probeLength) {s : SaveParam} (h : Opened s)
    (c : Call) :
    Step cname probeLength c s (write cname probeLength s c) := by
  unfold write writeBuffered
  dsimp only
  rw [if_neg (not_lt.mpr (szbProbeind_nonneg c.t hlen))]
  by_cases hyear : (szbTime2my c.t).1 - 1900 ≥ 2 ^ 31
  · rw [if_pos hyear]
    exact .aborted _ hyear (closeFile_files s) (closeFile_fd s)
  rw [if_neg hyear]
  by_cases hskip : Skipped c
  · rw [if_pos ((skipped_iff c).mpr hskip)]
    exact .skipped hskip
  rw [if_neg (fun hs => hskip ((skipped_iff c).mp hs))]
  simp only [Bool.false_eq_true, if_false]
  -- the counter and the path are not looked at any more
  generalize hs1 : createFilePath cname (szbTime2my c.t).1 (szbTime2my c.t).2 probeLength
    (if (c.data.any (· ≠ fileNodata) && c.status) = true then
      { s with notNull := s.notNull + 1 } else s) = s1
  have hfields : s1.files = s.files ∧ s1.fd = s.fd ∧ s1.lastPath = s.lastPath ∧
      s1.path = monthFile cname probeLength (szbTime2my c.t) := by
    rw [← hs1]
    split_ifs <;> exact ⟨rfl, rfl, rfl, rfl⟩
  obtain ⟨hfiles, hfd, hlast, hpath⟩ := hfields
  have hopened : Opened s1 := by
    intro p hp
    rw [hlast]
    exact h p (hfd ▸ hp)
  by_cases hreopen : s1.fd = none ∨ s1.lastPath ≠ s1.path
  · rw [if_pos hreopen]
    rcases outcome_of_closed c (szbProbeind c.t probeLength).toNat s1 with hnone | ⟨s2, hsome, ho⟩
    · rw [hnone]
      dsimp only
      rw [if_neg (by simp)]
      exact .failed _ hskip (by rw [closeFile_files, closeFile_files, hfiles]) (closeFile_fd _)
    · rw [hsome]
      rw [hpath] at ho
      exact step_of_outcome hskip hfiles ho
  · rw [if_neg hreopen]
    push Not at hreopen
    have ho := outcome_of_opened hopened hreopen.1 hreopen.2 c (szbProbeind c.t probeLength).toNat
    rw [hpath] at ho
    exact step_of_outcome hskip hfiles ho

end Write

/-! ## Sequences of calls -/

abbrev Piece := (ℤ × ℕ) × ℕ × List Word

/-- A call is accepted when it returns 0 and is not skipped. -/
def accepted (cname : List Char) (probeLength : ℤ) : SaveParam → List Call → List Piece
  | _, [] => []
  | s, c :: cs =>
    let (ret, s') := write cname probeLength s c
    (if ret = some 0 ∧ ¬ ((∀ w ∈ c.data, w = fileNodata) ∧ c.forceNodata = false) then
      [(szbTime2my c.t, (szbProbeind c.t probeLength).toNat, c.data)] else []) ++
      accepted cname probeLength s' cs

def run (cname : List Char) (probeLength : ℤ) (s : SaveParam) (cs : List Call) : SaveParam :=
  cs.foldl (fun s c => (write cname probeLength s c).2) s

def piecesOf (my : ℤ × ℕ) (ps : List Piece) : List (ℕ × List Word) :=
  (ps.filter fun p => p.1 = my).map Prod.snd

structure Inv (cname : List Char) (probeLength : ℤ) (ps : List Piece) (s : SaveParam) : Prop where
  opened : Opened s
  directory : s.files [] = none
  missing : ∀ my, s.files (monthFile cname probeLength my) = none ↔ piecesOf my ps = []
  holds : ∀ my file, s.files (monthFile cname probeLength my) = some file →
    Overlay.Holds fileNodata (piecesOf my ps) file

section Run

variable {cname : List Char} {probeLength : ℤ} {s : SaveParam} {ps : List Piece}

theorem inv_new : Inv cname probeLength [] new where
  opened := fun _ h => nomatch h
  directory := rfl
  missing := fun _ => ⟨fun _ => rfl, fun _ => rfl⟩
  holds := fun _ _ h => nomatch h

theorem piecesOf_append (my : ℤ × ℕ) (ps ps' : List Piece) :
    piecesOf my (ps ++ ps') = piecesOf my ps ++ piecesOf my ps' := by
  rw [piecesOf, List.filter_append, List.map_append]
  rfl

theorem Inv.of_files {s' : SaveParam} (h : Inv cname probeLength ps s) (hfiles : s'.files = s.files)
    (hfd : s'.fd = none) : Inv cname probeLength ps s' := by
  refine ⟨fun p hp => ?_, ?_, ?_, ?_⟩
  · rw [hfd] at hp
    exact nomatch hp
  · rw [hfiles]
    exact h.directory
  · rw [hfiles]
    exact h.missing
  · rw [hfiles]
    exact h.holds

theorem Inv.before (h : Inv cname probeLength ps s) (my : ℤ × ℕ) :
    Overlay.Holds fileNodata (piecesOf my ps)
      ((s.files (monthFile cname probeLength my)).getD []) := by
  cases hfile : s.files (monthFile cname probeLength my) with
  | none =>
    rw [(h.missing my).mp hfile]
    exact Overlay.holds_nil
  | some file => exact h.holds my file hfile

theorem monthFile_inj {cname' : List Char} {my my' : ℤ × ℕ}
    (hne : monthFile cname probeLength my ≠ [])
    (h : monthFile cname probeLength my = monthFile cname' probeLength my') :
    cname = cname' ∧ my = my' :=
  szbCreatefilenameNe_inj hne h

theorem Inv.done (h : Inv cname probeLength ps s) {c : Call} {s' : SaveParam}
    (hpath : monthFile cname probeLength (szbTime2my c.t) ≠ [])
    (hfiles : s'.files = Function.update s.files (monthFile cname probeLength (szbTime2my c.t))
      (some (written probeLength c
        ((s.files (monthFile cname probeLength (szbTime2my c.t))).getD []))))
    (hfd : s'.fd = some (monthFile cname probeLength (szbTime2my c.t)))
    (hlast : s'.lastPath = monthFile cname probeLength (szbTime2my c.t)) :
    Inv cname probeLength
      (ps ++ [(szbTime2my c.t, (szbProbeind c.t probeLength).toNat, c.data)]) s' := by
  obtain ⟨my, hmy⟩ : ∃ my, my = szbTime2my c.t := ⟨_, rfl⟩
  rw [← hmy] at hpath hfiles hfd hlast ⊢
  -- the files of other months are the same
  have hsame : ∀ my', my' ≠ my →
      s'.files (monthFile cname probeLength my') = s.files (monthFile cname probeLength my') := by
    intro my' hne
    rw [hfiles, Function.update_of_ne (fun heq => hne (monthFile_inj hpath heq.symm).2.symm)]
  have hpieces : ∀ my', my' ≠ my → piecesOf my' (ps ++
      [(my, (szbProbeind c.t probeLength).toNat, c.data)]) = piecesOf my' ps := by
    intro my' hne
    rw [piecesOf_append]
    simp [piecesOf, Ne.symm hne]
  have hpiece : piecesOf my (ps ++ [(my, (szbProbeind c.t probeLength).toNat, c.data)]) =
      piecesOf my ps ++ [((szbProbeind c.t probeLength).toNat, c.data)] := by
    rw [piecesOf_append]
    simp [piecesOf]
  have hnew : s'.files (monthFile cname probeLength my) = some (written probeLength c
      ((s.files (monthFile cname probeLength my)).getD [])) := by
    rw [hfiles, Function.update_self]
  refine ⟨?_, ?_, fun my' => ?_, fun my' file hfile => ?_⟩
  · intro p hp
    rw [hfd, Option.some.injEq] at hp
    rw [hlast, ← hp]
    exact ⟨rfl, hpath⟩
  · rw [hfiles, Function.update_of_ne hpath.symm]
    exact h.directory
  · by_cases hne : my' = my
    · rw [hne, hnew, hpiece]
      simp
    · rw [hsame my' hne, hpieces my' hne]
      exact h.missing my'
  · by_cases hne : my' = my
    · rw [hne, hnew, Option.some.injEq] at hfile
      rw [hne, hpiece, ← hfile, written, fillGap_eq]
      exact (h.before my).pwrite _ _
    · rw [hsame my' hne] at hfile
      rw [hpieces my' hne]
      exact h.holds my' file hfile

theorem run_inv (cname : List Char) (hlen : 0 < probeLength) (h : Inv cname probeLength ps s)
    (cs : List Call) :
    Inv cname probeLength (ps ++ accepted cname probeLength s cs) (run cname probeLength s cs) := by
  induction cs generalizing s ps with
  | nil =>
    rw [accepted, List.append_nil]
    exact h
  | cons c cs ih =>
    rw [accepted, run, List.foldl_cons, ← run]
    have hstep := write_step cname hlen h.opened c
    generalize write cname probeLength s c = r at hstep ⊢
    dsimp only
    rw [← List.append_assoc]
    apply ih
    cases hstep with
    | aborted s' hyear hfiles hfd =>
      rw [if_neg (by simp), List.append_nil]
      exact h.of_files hfiles hfd
    | skipped hskip =>
      rw [if_neg (fun hs => hs.2 hskip), List.append_nil]
      exact h
    | failed s' hskip hfiles hfd =>
      rw [if_neg (by simp), List.append_nil]
      exact h.of_files hfiles hfd
    | done s' hskip hpath hfiles hfd hlast =>
      rw [if_pos ⟨rfl, hskip⟩]
      exact h.done hpath hfiles hfd hlast

/-- All pieces of a month end before it does. -/
theorem size_piecesOf_le {n : ℕ} {my : ℤ × ℕ}
    (h : ∀ p ∈ ps, p.1 = my → p.2.1 + p.2.2.length ≤ n) : Overlay.size (piecesOf my ps) ≤ n := by
  induction ps with
  | nil => exact Nat.zero_le n
  | cons p ps ih =>
    have hrest := ih fun q hq => h q (List.mem_cons_of_mem p hq)
    unfold piecesOf at hrest ⊢
    rw [List.filter_cons]
    split_ifs with hp
    · rw [List.map_cons, Overlay.size]
      exact max_le (h p List.mem_cons_self (by simpa using hp)) hrest
    · exact hrest

theorem mem_accepted {cs : List Call} {p : Piece} (h : p ∈ accepted cname probeLength s cs) :
    ∃ c ∈ cs, p = (szbTime2my c.t, (szbProbeind c.t probeLength).toNat, c.data) := by
  induction cs generalizing s with
  | nil => simp [accepted] at h
  | cons c cs ih =>
    rw [accepted, List.mem_append] at h
    rcases h with h | h
    · refine ⟨c, List.mem_cons_self, ?_⟩
      split_ifs at h
      · exact List.mem_singleton.mp h
      · simp at h
    · obtain ⟨d, hd, heq⟩ := ih h
      exact ⟨d, List.mem_cons_of_mem c hd, heq⟩

end Run

/-- A call as `meaner3` and the probes server make it: there is data, and it ends before the month
does. -/
structure Fits (probeLength : ℤ) (c : Call) : Prop where
  time : 0 ≤ c.t
  data : c.data ≠ []
  month : szbProbeind c.t probeLength + c.data.length ≤
    Gregorian.monthLength (szbTime2my c.t).1 (szbTime2my c.t).2 * 86400 / probeLength

/-- No file of a run is longer than its month. -/
theorem length_run_le (cname : List Char) {cs : List Call} (h : ∀ c ∈ cs, Fits dataSpan c)
    {my : ℤ × ℕ} {file : List Word}
    (hfile : (run cname dataSpan new cs).files (monthFile cname dataSpan my) = some file) :
    file.length ≤ (szbProbecnt my.1 my.2).toNat := by
  have hinv := run_inv cname (show (0 : ℤ) < dataSpan by decide) inv_new cs
  rw [List.nil_append] at hinv
  have hne : monthFile cname dataSpan my ≠ [] := by
    intro hnil
    rw [hnil, hinv.directory] at hfile
    exact nomatch hfile
  obtain ⟨-, hy, hy9, hm, hm12⟩ := szbCreatefilenameNe_ne_nil.mp hne
  rw [(hinv.holds my file hfile).length]
  apply size_piecesOf_le
  intro p hp hmy
  obtain ⟨c, hc, rfl⟩ := mem_accepted hp
  have hfits := (h c hc).month
  have hnonneg := szbProbeind_nonneg c.t (show (0 : ℤ) < dataSpan by decide)
  dsimp only at hmy
  rw [hmy] at hfits
  rw [szbProbecnt_eq hy hy9 hm hm12]
  dsimp only
  rw [show dataSpan = 600 from rfl] at hfits hnonneg ⊢
  omega

/-- The block of a month that is loaded from its file has the last value that was written for every
probe. -/
theorem getData_of_run (cname : List Char) {cs : List Call} (h : ∀ c ∈ cs, Fits dataSpan c)
    {my : ℤ × ℕ} {file : List Word}
    (hfile : (run cname dataSpan new cs).files (monthFile cname dataSpan my) = some file)
    (prec : ℕ) (date last : ℤ) :
    (RealDatablock.create my.1 my.2 prec (some file) date last).getData =
      (List.range (szbProbecnt my.1 my.2).toNat).map fun i =>
        ((Overlay.valueAt (piecesOf my (accepted cname dataSpan new cs)) i).map
          (realProbe prec)).getD .nodata := by
  have hinv := run_inv cname (show (0 : ℤ) < dataSpan by decide) inv_new cs
  rw [List.nil_append] at hinv
  have hholds := hinv.holds my file hfile
  have hlen := length_run_le cname h hfile
  obtain ⟨hcurrent, -, -, hyear, hmonth⟩ := RealDatablock.create_current my.1 my.2 prec date last hlen
  have hmax : (RealDatablock.create my.1 my.2 prec (some file) date last).maxProbes =
      (szbProbecnt my.1 my.2).toNat := by
    rw [Datablock.maxProbes, hyear, hmonth]
  rw [hcurrent.1, hmax]
  apply List.ext_getElem?
  intro i
  rw [List.getElem?_append, List.length_map, List.getElem?_map, List.getElem?_map]
  by_cases hlt : i < file.length
  · rw [if_pos hlt, hholds.value i hlt, List.getElem?_range (by omega), Option.map_some,
      Option.map_some]
    cases Overlay.valueAt (piecesOf my (accepted cname dataSpan new cs)) i with
    | none => rw [Option.getD_none, Option.map_none, Option.getD_none, realProbe, if_pos rfl]
    | some w => rw [Option.getD_some, Option.map_some, Option.getD_some]
  · rw [if_neg hlt, List.getElem?_replicate]
    by_cases hin : i < (szbProbecnt my.1 my.2).toNat
    · rw [if_pos (by omega), List.getElem?_range hin, Option.map_some,
        Overlay.valueAt_eq_none (by rw [← hholds.length]; omega), Option.map_none, Option.getD_none]
    · rw [if_neg (by omega), List.getElem?_eq_none (by rw [List.length_range]; omega),
        Option.map_none]

/-- After any calls, the file of every month is as long as the farthest of the accepted writes and
has at every index the last value that was written there; calls that return 1 change no file, and
those without data change nothing at all. -/
theorem run_files (cname : List Char) {probeLength : ℤ} (hlen : probeLength = 600 ∨ probeLength = 10)
    (cs : List Call) (h : ∀ c ∈ cs, Fits probeLength c) :
    (∀ my, ((run cname probeLength new cs).files (monthFile cname probeLength my) = none ↔
        piecesOf my (accepted cname probeLength new cs) = []) ∧
      ∀ file, (run cname probeLength new cs).files (monthFile cname probeLength my) = some file →
        Overlay.Holds fileNodata (piecesOf my (accepted cname probeLength new cs)) file ∧
        (probeLength = dataSpan → ∀ prec date last,
          (RealDatablock.create my.1 my.2 prec (some file) date last).getData =
            (List.range (szbProbecnt my.1 my.2).toNat).map fun i =>
              ((Overlay.valueAt (piecesOf my (accepted cname probeLength new cs)) i).map
                (realProbe prec)).getD .nodata)) ∧
    ∀ c, (((write cname probeLength (run cname probeLength new cs) c).1 = none →
        2 ^ 31 ≤ (szbTime2my c.t).1 - 1900) ∧
      ((write cname probeLength (run cname probeLength new cs) c).1 ≠ some 0 →
        (write cname probeLength (run cname probeLength new cs) c).2.files =
          (run cname probeLength new cs).files) ∧
      ((∀ w ∈ c.data, w = fileNodata) → c.forceNodata = false →
        (szbTime2my c.t).1 - 1900 < 2 ^ 31 →
        write cname probeLength (run cname probeLength new cs) c =
          (some 0, run cname probeLength new cs))) := by
  have hpos : 0 < probeLength := by omega
  have hinv := run_inv cname hpos inv_new cs
  rw [List.nil_append] at hinv
  refine ⟨fun my => ⟨hinv.missing my, fun file hfile => ⟨hinv.holds my file hfile, ?_⟩⟩, fun c => ?_⟩
  · rintro rfl prec date last
    exact getData_of_run cname h hfile prec date last
  · have hstep := write_step cname hpos hinv.opened c
    generalize write cname probeLength (run cname probeLength new cs) c = r at hstep ⊢
    cases hstep with
    | aborted s' hyear hfiles hfd =>
      exact ⟨fun _ => hyear, fun _ => hfiles, fun _ _ hlt => absurd hlt (by omega)⟩
    | skipped hskip => exact ⟨nofun, fun hne => absurd rfl hne, fun _ _ _ => rfl⟩
    | failed s' hskip hfiles hfd =>
      exact ⟨nofun, fun _ => hfiles, fun hw hf _ => absurd ⟨hw, hf⟩ hskip⟩
    | done s' hskip hpath hfiles hfd hlast =>
      exact ⟨nofun, fun hne => absurd rfl hne, fun hw hf _ => absurd ⟨hw, hf⟩ hskip⟩

/-- A probe at twenty minutes past midnight, and then one at midnight. -/
def twoCalls : List Call :=
  [⟨1200, [5], false, false, false, true, true⟩, ⟨0, [7], false, true, false, true, true⟩]

theorem run_files_twoCalls :
    (run ['a'] 600 new twoCalls).files (monthFile ['a'] 600 (1970, 1)) =
        some [7, fileNodata, 5] ∧
      Overlay.Holds fileNodata (piecesOf (1970, 1) (accepted ['a'] 600 new twoCalls))
        [7, fileNodata, 5] := by
  have hfile : (run ['a'] 600 new twoCalls).files (monthFile ['a'] 600 (1970, 1)) =
      some [7, fileNodata, 5] := by decide +kernel
  have hfits : ∀ c ∈ twoCalls, Fits 600 c := by
    intro c hc
    rcases List.mem_cons.mp hc with rfl | hc
    · exact ⟨by decide, by decide, by decide +kernel⟩
    · rw [List.mem_singleton.mp hc]
      exact ⟨by decide, by decide, by decide +kernel⟩
  exact ⟨hfile, (((run_files ['a'] (Or.inl rfl) twoCalls hfits).1 (1970, 1)).2 _ hfile).1⟩

end SaveParam
end Meaner
end Szarp
