import Szarp.Lib.Run
import Szarp.Meaner4.WholeRecords

/-!
# Records that stay

When all records stay where they are, over any messages and restarts.
-/

namespace Szarp
namespace Meaner4

open Run Saving

inductive TypedEvent (V : Type) where
  | msg (m : TypedMsg V)
  | replace

variable {V : Type}

namespace TypedParam

variable (p : TypedParam V)

/-- `none`: an exception. -/
def step (s : Saving V) : TypedEvent V → Option (Saving V)
  | .msg m => (s.processMsg p m).result
  | .replace => some { s with saver := {} }

/-- The file that an event finds open. -/
def currentFile (s : Saving V) : TypedEvent V → Option File
  | .msg m => (s.prepared p m).saver.file
  | .replace => none

/-- A file keeps its records and gets more of them, or it is the current one and the time of its
last record changes. -/
def KeepsDir (current : Option File) (dir dir' : Dir) : Prop :=
  ∀ name ∈ dir.names, name ∈ dir'.names ∧
    (dir.content name <+: dir'.content name ∨
      ∃ f, current = some f ∧ f.name = name ∧ ∃ front time time',
        dir.content name = front ++ time ∧ dir'.content name = front ++ time' ∧
          time.length = p.timePrec ∧ time'.length = p.timePrec)

def Keeps (s : Saving V) (e : TypedEvent V) (t : Saving V) : Prop :=
  p.KeepsDir (p.currentFile s e) s.dir t.dir

def WholeFiles (s : Saving V) : Prop := ∀ name, p.recordLength ∣ (s.dir.content name).length

def bytes (m : TypedMsg V) : List UInt8 :=
  (p.format.toBinary m.value).getD [] ++ (p.timeToBinary m.time m.nanotime).getD []

/-- Where a new value finds no room in the current file, the file that is named after its time does
not exist, or it holds nothing but the very record of the message. -/
def HarmlessMsg (s : Saving V) (m : TypedMsg V) : Prop :=
  s.isCurrent p m.value = false → s.Full p → s.dir.content (p.path m) <+: p.bytes m

def Harmless (s : Saving V) : TypedEvent V → Prop
  | .msg m => p.writtenToBase → p.HarmlessMsg (s.prepared p m) m
  | .replace => True

end TypedParam

variable {p : TypedParam V} {s t : Saving V} {m : TypedMsg V} {f : File}

theorem keepsDir_refl (current : Option File) (dir : Dir) : p.KeepsDir current dir dir :=
  fun _ hname => ⟨hname, .inl List.prefix_rfl⟩

theorem keepsDir_put {current : Option File} {dir : Dir} {name : List Char}
    {content : List UInt8} :
    p.KeepsDir current dir (dir.put name content) ↔ (name ∈ dir.names →
      dir.content name <+: content ∨
      ∃ f, current = some f ∧ f.name = name ∧ ∃ front time time',
        dir.content name = front ++ time ∧ content = front ++ time' ∧
          time.length = p.timePrec ∧ time'.length = p.timePrec) := by
  constructor
  · intro h hname
    have hkeep := (h name hname).2
    rwa [Dir.content_put_self] at hkeep
  · intro h name' hname'
    refine ⟨?_, ?_⟩
    · rw [Dir.names_put]
      split_ifs
      · exact hname'
      · exact List.mem_append_left _ hname'
    · by_cases heq : name' = name
      · subst heq
        rw [Dir.content_put_self]
        exact h hname'
      · rw [Dir.content_put_of_ne heq]
        exact .inl List.prefix_rfl

section Store

variable {v b : List UInt8} (h : Whole p s) (hf : s.saver.file = some f)
  (hfirst : s.saver.firstWrite = false) (hv : p.format.toBinary m.value = some v)
  (hb : p.timeToBinary m.time m.nanotime = some b)
include hv hb

theorem bytes_eq : p.bytes m = v ++ b := by
  rw [TypedParam.bytes, hv, hb]
  rfl

theorem length_bytes : (v ++ b).length = p.recordLength := by
  rw [List.length_append, p.format.length_toBinary _ _ hv, p.length_timeToBinary hb,
    TypedParam.recordLength, Nat.add_comm]

theorem bytes_ne_nil : v ++ b ≠ [] := by
  have hrec := p.recordLength_bounds
  have hlen := length_bytes hv hb
  exact List.ne_nil_of_length_pos (by omega)

include h hf hfirst

omit hv in
/-- The time of the last record changes. -/
theorem store_current_keeps (hcurrent : s.isCurrent p m.value = true) :
    ∃ t, s.store p m = ⟨t, none⟩ ∧ Whole p t ∧ p.KeepsDir s.saver.file s.dir t.dir := by
  obtain ⟨c, hc, heq⟩ := (Option.any_eq_true _ _).mp hcurrent
  have hnonempty : s.data f ≠ [] := fun hnil => by
    rw [(h.current f hf).mpr hnil] at hc
    exact absurd hc (Option.some_ne_none c).symm
  have hle : p.recordLength ≤ (s.data f).length := h.recordLength_le hnonempty
  have hrec := p.recordLength_bounds
  have hlen : ((s.data f).take ((s.data f).length - p.timePrec) ++ b).length =
      (s.data f).length := by
    rw [List.length_append, List.length_take, p.length_timeToBinary hb]
    omega
  refine ⟨_, store_current h hf hfirst hc heq hb, ?_, ?_⟩
  · refine whole_ended h.lengths ?_ (List.ne_nil_of_length_pos (by omega))
    rw [hlen]
    exact h.lengths f.name
  · apply keepsDir_put.mpr
    refine fun _ => .inr ⟨f, hf, rfl, _, (s.data f).drop ((s.data f).length - p.timePrec), b,
      (List.take_append_drop _ _).symm, rfl, ?_, p.length_timeToBinary hb⟩
    rw [List.length_drop]
    omega

theorem store_append_keeps (hcurrent : s.isCurrent p m.value = false) (hfull : ¬ s.Full p) :
    ∃ t, s.store p m = ⟨t, none⟩ ∧ Whole p t ∧ p.KeepsDir s.saver.file s.dir t.dir := by
  refine ⟨_, store_append h hf hfirst hcurrent hfull hv hb, whole_ended h.lengths ?_ ?_, ?_⟩
  · rw [List.length_append, length_bytes hv hb]
    exact Nat.dvd_add (h.lengths f.name) dvd_rfl
  · exact List.append_ne_nil_of_right_ne_nil _ (bytes_ne_nil hv hb)
  · exact keepsDir_put.mpr fun _ => .inl (List.prefix_append _ _)

/-- A new file is made, or an old one is emptied. -/
theorem store_full_keeps (hcurrent : s.isCurrent p m.value = false) (hfull : s.Full p) :
    ∃ t, s.store p m = ⟨t, none⟩ ∧ Whole p t ∧
      (p.KeepsDir s.saver.file s.dir t.dir ↔ s.dir.content (p.path m) <+: v ++ b) := by
  have hlen := length_bytes hv hb
  refine ⟨_, store_full hfirst hcurrent hfull hv hb, ?_, ?_⟩
  · exact whole_ended h.lengths (hlen ▸ dvd_rfl) (bytes_ne_nil hv hb)
  · refine keepsDir_put.trans ⟨fun hkeep => ?_, fun hprefix _ => .inl hprefix⟩
    by_cases hname : p.path m ∈ s.dir.names
    · rcases hkeep hname with hprefix | ⟨g, hg, hname, front, time, time', hold, hnew, hl, hl'⟩
      · exact hprefix
      · -- a full file is longer than a record
        obtain rfl := Option.some.inj (hf.symm.trans hg)
        have hsize := h.size f hf
        have hrec := p.recordLength_bounds
        have hlen' := congrArg List.length hnew
        have hlen'' := congrArg List.length hold
        rw [hlen, List.length_append] at hlen'
        rw [List.length_append, ← hname] at hlen''
        change (s.data f).length = _ at hlen''
        unfold Full dataFileSize at hfull
        unfold TypedParam.recordLength at *
        omega
    · rw [Dir.content_of_notMem hname]
      exact List.nil_prefix

theorem store_keeps :
    ∃ t, s.store p m = ⟨t, none⟩ ∧ Whole p t ∧
      (p.KeepsDir s.saver.file s.dir t.dir ↔ p.HarmlessMsg s m) := by
  unfold TypedParam.HarmlessMsg
  rw [bytes_eq hv hb]
  cases hcurrent : s.isCurrent p m.value with
  | true =>
    obtain ⟨t, ht, hwhole, hkeeps⟩ := store_current_keeps h hf hfirst hb hcurrent
    exact ⟨t, ht, hwhole, iff_of_true hkeeps fun hno => absurd hno (by decide)⟩
  | false =>
    by_cases hfull : s.Full p
    · obtain ⟨t, ht, hwhole, hkeeps⟩ := store_full_keeps h hf hfirst hv hb hcurrent hfull
      exact ⟨t, ht, hwhole, hkeeps.trans ⟨fun h _ _ => h, fun h => h rfl hfull⟩⟩
    · obtain ⟨t, ht, hwhole, hkeeps⟩ := store_append_keeps h hf hfirst hv hb hcurrent hfull
      exact ⟨t, ht, hwhole, iff_of_true hkeeps fun _ hno => absurd hno hfull⟩

end Store

theorem step_msg (hbase : p.writtenToBase = true) (s : Saving V) (m : TypedMsg V) :
    p.step s (.msg m) = ((s.prepared p m).store p m).result := by
  change (s.processMsg p m).result = _
  rw [processMsg, hbase]
  rfl

/-- A message that fits keeps the files whole, and the records where it is harmless. -/
theorem processMsg_keeps (h : Whole p s) (hfits : p.Fits m) :
    ∃ t, p.step s (.msg m) = some t ∧ Whole p t ∧
      (p.Keeps s (.msg m) t ↔ p.Harmless s (.msg m)) := by
  by_cases hbase : p.writtenToBase
  · obtain ⟨v, hv⟩ := Option.isSome_iff_exists.mp hfits.1
    obtain ⟨b, hb⟩ := Option.isSome_iff_exists.mp hfits.2
    obtain ⟨hwhole, hfirst, hdir⟩ := prepared_whole h m
    obtain ⟨f, hf⟩ := Option.isSome_iff_exists.mp (hwhole.file hfirst)
    obtain ⟨t, ht, hwhole', hkeeps⟩ := store_keeps hwhole hf hfirst hv hb
    refine ⟨t, ?_, hwhole', ?_⟩
    · rw [step_msg hbase, ht]
      rfl
    · have hharmless : p.Harmless s (.msg m) ↔ p.HarmlessMsg (s.prepared p m) m :=
        ⟨fun h => h hbase, fun h _ => h⟩
      rw [hharmless, ← hkeeps]
      by_cases hnil : s.dir = []
      · -- an empty directory has nothing to lose
        have hcontent : (s.prepared p m).dir.content (p.path m) = [] := by
          split_ifs at hdir
          · rw [hdir]
            exact Dir.content_new _ _
          · rw [hdir, hnil]
            rfl
        refine iff_of_true (fun name hname => ?_) (hkeeps.mpr fun _ _ => ?_)
        · rw [hnil] at hname
          exact absurd hname List.not_mem_nil
        · rw [hcontent]
          exact List.nil_prefix
      · rw [if_neg fun hand => hnil hand.2] at hdir
        rw [hdir]
        rfl
  · rw [Bool.not_eq_true] at hbase
    refine ⟨s, ?_, h, iff_of_true (keepsDir_refl _ _) ?_⟩
    · change (s.processMsg p m).result = _
      rw [processMsg, hbase]
      rfl
    · intro hbase'
      rw [hbase] at hbase'
      exact absurd hbase' (by decide)

/-- Records stay where they are exactly when no new file takes the place of one with records. -/
theorem kept_iff (p : TypedParam V) (events : List (TypedEvent V))
    (hfits : ∀ m, .msg m ∈ events → p.Fits m) :
    SafeRun p.step p.WholeFiles p.Keeps {} events ↔ LegalRun p.step p.Harmless {} events := by
  have hdomain : ∀ s : Saving V, LegalRun p.step
      (fun _ e => ∀ m, e = .msg m → p.Fits m) s events := by
    induction events with
    | nil => exact fun _ => trivial
    | cons e events ih =>
      refine fun s => ⟨fun m hm => hfits m (hm ▸ List.mem_cons_self), fun t _ => ?_⟩
      exact ih (fun m hm => hfits m (List.mem_cons_of_mem e hm)) t
  have hnew : ∀ name, p.recordLength ∣ (Dir.content [] name).length := fun _ => dvd_zero _
  refine safeRun_iff_of_domain (Whole p) ?_ (whole_new hnew) hnew (hdomain {})
  intro s e h _ he
  cases e with
  | msg m =>
    obtain ⟨t, ht, hwhole, hiff⟩ := processMsg_keeps h (he m rfl)
    exact ⟨t, ht, hwhole, (and_iff_left hwhole.lengths).trans hiff⟩
  | replace =>
    refine ⟨_, rfl, whole_new h.lengths, iff_of_true ⟨?_, h.lengths⟩ trivial⟩
    exact keepsDir_refl none s.dir

/-- An integer parameter with nanoseconds, whose records take twelve bytes. -/
def nanoParam : TypedParam ℤ := ⟨true, DataType.format .int, 8, timePrec_nanosecond⟩

theorem kept_iff_twoMessages :
    SafeRun nanoParam.step nanoParam.WholeFiles nanoParam.Keeps {}
        [.msg ⟨5, 0, 1⟩, .replace, .msg ⟨4, 0, 2⟩] ↔
      LegalRun nanoParam.step nanoParam.Harmless {}
        [.msg ⟨5, 0, 1⟩, .replace, .msg ⟨4, 0, 2⟩] := by
  apply kept_iff
  intro m hm
  simp only [List.mem_cons, TypedEvent.msg.injEq, reduceCtorEq, List.not_mem_nil, or_false,
    false_or] at hm
  rcases hm with rfl | rfl <;> exact ⟨by decide, by decide⟩

/-- Messages of one second with the values 0 and 1 in turn. -/
def inTurn (n : ℕ) : TypedMsg ℤ := ⟨5, 0, (n % 2 : ℕ)⟩

def alternating : ℕ → ℕ → List (TypedEvent ℤ)
  | 0, _ => []
  | k + 1, n => .msg (inTurn n) :: alternating k (n + 1)

/-- The object that has filled a file with `n` of them. -/
def filled (n : ℕ) (content : List UInt8) : Saving ℤ :=
  ended [] (nanoParam.path (inTurn n)) content (inTurn (n + 1)).value

section filled

variable {n : ℕ} {content : List UInt8}

theorem fits_inTurn (n : ℕ) :
    ∃ v b, nanoParam.format.toBinary (inTurn n).value = some v ∧
      nanoParam.timeToBinary (inTurn n).time (inTurn n).nanotime = some b := by
  have hv : (nanoParam.format.toBinary ((n % 2 : ℕ) : ℤ)).isSome := by
    rcases Nat.mod_two_eq_zero_or_one n with h | h <;> rw [h] <;> decide
  have hb : (nanoParam.timeToBinary 5 0).isSome := by decide
  obtain ⟨v, hv⟩ := Option.isSome_iff_exists.mp hv
  obtain ⟨b, hb⟩ := Option.isSome_iff_exists.mp hb
  exact ⟨v, b, hv, hb⟩

theorem whole_filled (hn : 0 < n) (hlen : content.length = 12 * n) :
    Whole nanoParam (filled n content) := by
  refine whole_ended (fun _ => dvd_zero _) ?_ (List.ne_nil_of_length_pos (by omega))
  exact Dvd.intro n hlen.symm

theorem content_filled (n : ℕ) (content : List UInt8) :
    (filled n content).dir.content (nanoParam.path (inTurn n)) = content :=
  Dir.content_put_self [] _ content

theorem isCurrent_filled (n : ℕ) (content : List UInt8) :
    (filled n content).isCurrent nanoParam (inTurn n).value = false := by
  change decide (((n % 2 : ℕ) : ℤ) = (((n + 1) % 2 : ℕ) : ℤ)) = false
  rw [decide_eq_false_iff_not]
  omega

theorem full_filled (hlen : content.length = 12 * n) :
    (filled n content).Full nanoParam ↔ 682 ≤ n := by
  have hsize : (filled n content).saver.fileSize = content.length := rfl
  have hprec : nanoParam.timePrec = 8 := rfl
  have hlength : nanoParam.format.length = 4 := rfl
  rw [Full, hsize, hprec, hlength, dataFileSize]
  omega

theorem step_filled (n : ℕ) (content : List UInt8) :
    nanoParam.step (filled n content) (.msg (inTurn n)) =
      ((filled n content).store nanoParam (inTurn n)).result := by
  rw [step_msg rfl, prepared_of_not_firstWrite rfl]

theorem filled_next (hn : 0 < n) (hlen : content.length = 12 * n) (hlt : n < 682) :
    ∃ content', content'.length = 12 * (n + 1) ∧
      nanoParam.step (filled n content) (.msg (inTurn n)) = some (filled (n + 1) content') := by
  obtain ⟨v, b, hv, hb⟩ := fits_inTurn n
  have hrecord : (v ++ b).length = 12 := length_bytes hv hb
  have hfull : ¬ (filled n content).Full nanoParam := by
    rw [full_filled hlen]
    omega
  refine ⟨content ++ (v ++ b), by rw [List.length_append, hrecord, hlen]; omega, ?_⟩
  have happend := store_append (whole_filled hn hlen) rfl rfl (isCurrent_filled n content) hfull hv hb
  rw [step_filled, happend, Outcome.result]
  have hdata : (filled n content).data ⟨nanoParam.path (inTurn n), content.length⟩ = content :=
    content_filled n content
  have hdir : (filled n content).dir = Dir.put [] (nanoParam.path (inTurn n)) content := rfl
  have hvalue : (inTurn n).value = (inTurn (n + 1 + 1)).value := by
    unfold inTurn
    dsimp only
    omega
  rw [hdata]
  dsimp only
  rw [hdir, hvalue, ended, Dir.put_put]
  rfl

/-- The record that does not fit any more takes the place of all others. -/
theorem filled_not_keeps (hn : 0 < n) (hlen : content.length = 12 * n) (hle : 682 ≤ n)
    {t : Saving ℤ} (ht : nanoParam.step (filled n content) (.msg (inTurn n)) = some t) :
    ¬ nanoParam.Keeps (filled n content) (.msg (inTurn n)) t := by
  obtain ⟨v, b, hv, hb⟩ := fits_inTurn n
  have hrecord : (v ++ b).length = 12 := length_bytes hv hb
  obtain ⟨t', ht', -, hiff⟩ := store_full_keeps (whole_filled hn hlen) rfl rfl hv hb
    (isCurrent_filled n content) ((full_filled hlen).mpr hle)
  rw [step_filled, ht'] at ht
  obtain rfl := Option.some.inj ht
  intro hkeeps
  have hprefix := (hiff.mp hkeeps).length_le
  rw [content_filled, hrecord] at hprefix
  omega

/-- The file is filled, and then its own name is used again. -/
theorem filled_not_kept (k : ℕ) : ∀ n content, n + k = 682 → content.length = 12 * n → 0 < n →
    ¬ SafeRun nanoParam.step nanoParam.WholeFiles nanoParam.Keeps (filled n content)
      (alternating (k + 1) n) := by
  induction k with
  | zero =>
    rintro n content hk hlen hn ⟨-, t, ht, hkeeps, -⟩
    exact filled_not_keeps hn hlen hk.ge ht hkeeps
  | succ k ih =>
    rintro n content hk hlen hn ⟨-, t, ht, -, hrest⟩
    obtain ⟨content', hlen', hnext⟩ := filled_next hn hlen (by omega)
    obtain rfl := Option.some.inj (hnext.symm.trans ht)
    exact ih (n + 1) content' (by omega) hlen' (by omega) hrest

end filled

theorem filled_first : ∃ content, content.length = 12 * 1 ∧
    nanoParam.step {} (.msg (inTurn 0)) = some (filled 1 content) := by
  obtain ⟨v, b, hv, hb⟩ := fits_inTurn 0
  have hnew : ∀ name, nanoParam.recordLength ∣ (Dir.content [] name).length := fun _ => dvd_zero _
  obtain ⟨hwhole, -, -⟩ := prepared_whole (whole_new hnew) (inTurn 0)
  have hprepared : ({} : Saving ℤ).prepared nanoParam (inTurn 0) = _ :=
    prepared_of_nil rfl rfl (inTurn 0)
  rw [step_msg rfl]
  rw [hprepared] at hwhole ⊢
  have hdata : Dir.content [(nanoParam.path (inTurn 0), [])] (nanoParam.path (inTurn 0)) = [] :=
    Dir.content_new _ _
  have hfull : ¬ Full nanoParam ⟨[(nanoParam.path (inTurn 0), [])],
      ⟨some ⟨nanoParam.path (inTurn 0), 0⟩, 0, none, false⟩⟩ := by
    have hprec : nanoParam.timePrec = 8 := rfl
    have hlength : nanoParam.format.length = 4 := rfl
    rw [Full, hprec, hlength, dataFileSize]
    decide
  refine ⟨v ++ b, length_bytes hv hb, ?_⟩
  rw [store_append hwhole rfl rfl rfl hfull hv hb, data, hdata, List.nil_append]
  have hput : Dir.put [(nanoParam.path (inTurn 0), [])] (nanoParam.path (inTurn 0)) (v ++ b) =
      Dir.put [] (nanoParam.path (inTurn 0)) (v ++ b) := Dir.put_put [] _ [] _
  rw [Outcome.result]
  dsimp only
  rw [ended, hput]
  rfl

/-- A second with more values than one file has room for. -/
theorem alternating_destroys :
    ¬ SafeRun nanoParam.step nanoParam.WholeFiles nanoParam.Keeps {} (alternating 683 0) := by
  rintro ⟨-, t, ht, -, hrest⟩
  obtain ⟨content, hlen, hfirst⟩ := filled_first
  obtain rfl := Option.some.inj (hfirst.symm.trans ht)
  exact filled_not_kept 681 1 content rfl hlen (by decide) hrest

end Meaner4
end Szarp
