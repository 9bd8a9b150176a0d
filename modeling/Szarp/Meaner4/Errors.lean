import Szarp.Meaner4.Kept

/-!
# Messages that do not fit

What a message leaves behind that raises `struct.error`, and when it leaves nothing.
-/

namespace Szarp
namespace Meaner4

open Run Saving

variable {V : Type}

namespace TypedParam

variable (p : TypedParam V)

/-- An event, whether it raises an exception or not. -/
def next (s : Saving V) : TypedEvent V → Saving V
  | .msg m => (s.processMsg p m).state
  | .replace => { s with saver := {} }

def Fails (s : Saving V) (m : TypedMsg V) : Prop :=
  (s.processMsg p m).raised = some .structError

/-- The files after some messages, if none of them raises an exception. -/
def filesAfter (s : Saving V) (later : List (TypedMsg V)) : Option Dir :=
  (later.foldlM (fun s m => p.step s (.msg m)) s).map Saving.dir

/-- The files have the same records in them, and all later messages that fit succeed and yield the
files that they yield without the message. -/
structure LeavesNothing (s : Saving V) (m : TypedMsg V) : Prop where
  whole : p.WholeFiles (s.processMsg p m).state
  content : ∀ name, (s.processMsg p m).state.dir.content name = s.dir.content name
  later : ∀ later : List (TypedMsg V), (∀ m' ∈ later, p.Fits m') →
    ∃ dir, p.filesAfter (s.processMsg p m).state later = some dir ∧ p.filesAfter s later = some dir

/-- The message does not make the first file, and it is a known value at a file that has no more
room, or a new value that does not fit at a file that has room. -/
def FailsEarly (s : Saving V) (m : TypedMsg V) : Prop :=
  ¬ (s.saver.firstWrite ∧ s.dir = []) ∧
    ((s.prepared p m).isCurrent p m.value = true ∧ (s.prepared p m).Full p ∨
      (s.prepared p m).isCurrent p m.value = false ∧ ¬ (s.prepared p m).Full p ∧
        p.format.toBinary m.value = none)

end TypedParam

variable {p : TypedParam V} {s t : Saving V} {m : TypedMsg V} {f : File}

/-- The object that has gone back to the time of the last record. -/
def back (p : TypedParam V) (s : Saving V) (f : File) : Saving V :=
  ⟨s.dir, { s.saver with file := some ⟨f.name, (s.data f).length - p.timePrec⟩ }⟩

/-! ## What is left -/

section left

variable (h : Whole p s) (hf : s.saver.file = some f)
include h hf

theorem length_of_isCurrent {v : V} (hcurrent : s.isCurrent p v = true) :
    p.recordLength ≤ (s.data f).length := by
  obtain ⟨c, hc, -⟩ := (Option.any_eq_true _ _).mp hcurrent
  refine h.recordLength_le fun hnil => ?_
  rw [(h.current f hf).mpr hnil] at hc
  exact absurd hc (Option.some_ne_none c).symm

theorem store_current_fails (hcurrent : s.isCurrent p m.value = true)
    (hb : p.timeToBinary m.time m.nanotime = none) :
    s.store p m = ⟨back p s f, some .structError⟩ := by
  obtain ⟨c, hc, -⟩ := (Option.any_eq_true _ _).mp hcurrent
  have hne : s.saver.currentValue ≠ none := by rw [hc]; exact Option.some_ne_none c
  rw [store, if_pos hcurrent, updateLastTime_eq h hf hne, hb]
  rfl

theorem whole_back {v : V} (hcurrent : s.isCurrent p v = true) (hfull : s.Full p) :
    Whole p (back p s f) := by
  have hle := length_of_isCurrent h hf hcurrent
  have hrec := p.recordLength_bounds
  refine ⟨h.lengths, ?_, ?_, ?_, fun _ => rfl, ?_⟩
  all_goals
    intro g hg
    obtain rfl := Option.some.inj hg
  · exact h.names f hf
  · exact h.size f hf
  · refine .inr ⟨hfull, ?_⟩
    change (s.data f).length - p.timePrec + p.timePrec = (s.data f).length
    omega
  · exact h.current f hf

theorem store_append_fails (hnew : s.isCurrent p m.value = false) (hfull : ¬ s.Full p)
    (hfails : (s.store p m).raised = some .structError) :
    (p.format.toBinary m.value = none ∧ s.store p m = ⟨s, some .structError⟩) ∨
      ∃ v, p.format.toBinary m.value = some v ∧
        (s.store p m).state.dir = s.dir.put f.name (s.data f ++ v) := by
  have hpos : f.pos = (s.data f).length := (h.pos f hf).resolve_right fun hand => hfull hand.1
  have hcond : ¬ (s.isCurrent p m.value = true) := by rw [hnew]; decide
  rw [store, if_neg hcond, newValue, if_neg hfull, writeRecord_eq hf hpos] at hfails ⊢
  cases hv : p.format.toBinary m.value with
  | none => exact .inl ⟨rfl, rfl⟩
  | some v =>
    rw [hv] at hfails
    cases hb : p.timeToBinary m.time m.nanotime with
    | none => exact .inr ⟨v, rfl, rfl⟩
    | some b =>
      rw [hb] at hfails
      exact absurd hfails (by simp)

omit h hf in
theorem store_full_fails (hnew : s.isCurrent p m.value = false) (hfull : s.Full p)
    (hfails : (s.store p m).raised = some .structError) :
    (p.format.toBinary m.value = none ∧ s.store p m = ⟨s.openNew (p.path m), some .structError⟩) ∨
      ∃ v, p.format.toBinary m.value = some v ∧
        (s.store p m).state.dir = s.dir.put (p.path m) v := by
  have hdata : (s.openNew (p.path m)).data ⟨p.path m, 0⟩ = [] := Dir.content_put_self _ _ _
  have hpos : (0 : ℕ) = ((s.openNew (p.path m)).data ⟨p.path m, 0⟩).length := by rw [hdata]; rfl
  have hcond : ¬ (s.isCurrent p m.value = true) := by rw [hnew]; decide
  rw [store, if_neg hcond, newValue, if_pos hfull] at hfails ⊢
  change ((s.openNew (p.path m)).writeRecord p m.value m.time m.nanotime).raised = _ at hfails
  change (_ ∧ (s.openNew (p.path m)).writeRecord p m.value m.time m.nanotime = _) ∨
    ∃ v, _ ∧ ((s.openNew (p.path m)).writeRecord p m.value m.time m.nanotime).state.dir = _
  rw [writeRecord_eq rfl hpos] at hfails ⊢
  cases hv : p.format.toBinary m.value with
  | none => exact .inl ⟨rfl, rfl⟩
  | some v =>
    rw [hv] at hfails
    cases hb : p.timeToBinary m.time m.nanotime with
    | none =>
      refine .inr ⟨v, rfl, ?_⟩
      dsimp only
      rw [hdata]
      exact Dir.put_put _ _ _ _
    | some b =>
      rw [hb] at hfails
      exact absurd hfails (by simp)

end left

/-! ## Messages that leave nothing -/

theorem filesAfter_cons (s : Saving V) (m : TypedMsg V) (later : List (TypedMsg V)) :
    p.filesAfter s (m :: later) = (p.step s (.msg m)).bind fun t => p.filesAfter t later := by
  unfold TypedParam.filesAfter
  rw [List.foldlM_cons]
  cases p.step s (.msg m) <;> rfl

theorem exists_filesAfter (h : Whole p s) {later : List (TypedMsg V)}
    (hlater : ∀ m ∈ later, p.Fits m) : ∃ dir, p.filesAfter s later = some dir := by
  induction later generalizing s with
  | nil => exact ⟨s.dir, rfl⟩
  | cons m later ih =>
    obtain ⟨t, ht, hwhole, -⟩ := processMsg_keeps h (hlater m List.mem_cons_self)
    rw [filesAfter_cons, ht]
    exact ih hwhole fun m' hm' => hlater m' (List.mem_cons_of_mem m hm')

theorem filesAfter_eq (hdir : t.dir = s.dir)
    (hstep : ∀ m, p.Fits m → p.step t (.msg m) = p.step s (.msg m)) {later : List (TypedMsg V)}
    (hlater : ∀ m ∈ later, p.Fits m) : p.filesAfter t later = p.filesAfter s later := by
  cases later with
  | nil => exact congrArg some hdir
  | cons m later =>
    rw [filesAfter_cons, filesAfter_cons, hstep m (hlater m List.mem_cons_self)]

/-- Which message opens a file that exists does not matter. -/
theorem prepared_eq (hdir : ¬ (s.saver.firstWrite ∧ s.dir = [])) (m m' : TypedMsg V) :
    s.prepared p m' = s.prepared p m := by
  unfold prepared
  split_ifs with hfirst
  · have hpath : ∃ path, s.dir.findLatestPath = some path := by
      rw [← Option.ne_none_iff_exists']
      exact fun hnone => hdir ⟨hfirst, Dir.findLatestPath_eq_none.mp hnone⟩
    obtain ⟨path, hpath⟩ := hpath
    simp only [prepareForWriting, hpath]
  · rfl

/-- Where the file has no more room, it does not matter that the object has gone back. -/
theorem store_back (h : Whole p s) (hf : s.saver.file = some f)
    (hfirst : s.saver.firstWrite = false) (hfull : s.Full p) {v : V}
    (hcurrent : s.isCurrent p v = true) (hm : p.Fits m) :
    (back p s f).store p m = s.store p m := by
  obtain ⟨x, hx⟩ := Option.isSome_iff_exists.mp hm.1
  obtain ⟨b, hb⟩ := Option.isSome_iff_exists.mp hm.2
  have hback := whole_back h hf hcurrent hfull
  have hsame : (back p s f).isCurrent p m.value = s.isCurrent p m.value := rfl
  cases hm' : s.isCurrent p m.value with
  | true =>
    obtain ⟨c, hc, heq⟩ := (Option.any_eq_true _ _).mp hm'
    rw [store_current h hf hfirst hc heq hb,
      store_current hback rfl hfirst (c := c) (by exact hc) heq hb]
    rfl
  | false =>
    rw [store_full hfirst hm' hfull hx hb,
      store_full (s := back p s f) hfirst (hsame.trans hm') hfull hx hb]
    rfl

/-- The state behind an early failure. -/
theorem processMsg_of_failsEarly (h : Whole p s) (hbase : p.writtenToBase = true)
    (hfails : p.Fails s m) (hearly : p.FailsEarly s m) :
    Whole p (s.processMsg p m).state ∧ (s.processMsg p m).state.dir = s.dir ∧
      (s.processMsg p m).state.saver.firstWrite = false ∧
      ∀ m', p.Fits m' →
        (s.processMsg p m).state.store p m' = (s.prepared p m).store p m' := by
  obtain ⟨hexists, hcases⟩ := hearly
  obtain ⟨hwhole, hfirst, hdir⟩ := prepared_whole h m
  rw [if_neg hexists] at hdir
  obtain ⟨f, hf⟩ := Option.isSome_iff_exists.mp (hwhole.file hfirst)
  have hprocess : s.processMsg p m = (s.prepared p m).store p m := by
    rw [processMsg, hbase]
    rfl
  unfold TypedParam.Fails at hfails
  rw [hprocess] at hfails ⊢
  rcases hcases with ⟨hcurrent, hfull⟩ | ⟨hnew, hroom, hv⟩
  · have hb : p.timeToBinary m.time m.nanotime = none := by
      cases hb : p.timeToBinary m.time m.nanotime with
      | none => rfl
      | some b =>
        obtain ⟨c, hc, heq⟩ := (Option.any_eq_true _ _).mp hcurrent
        rw [store_current hwhole hf hfirst hc heq hb] at hfails
        exact absurd hfails (by simp)
    rw [store_current_fails hwhole hf hcurrent hb]
    exact ⟨whole_back hwhole hf hcurrent hfull, hdir, hfirst,
      fun m' hm' => store_back hwhole hf hfirst hfull hcurrent hm'⟩
  · rcases store_append_fails hwhole hf hnew hroom hfails with ⟨-, heq⟩ | ⟨v, hv', -⟩
    · rw [heq]
      exact ⟨hwhole, hdir, hfirst, fun _ _ => rfl⟩
    · rw [hv] at hv'
      exact absurd hv' (by simp)

theorem leavesNothing_of_failsEarly (h : Whole p s) (hfails : p.Fails s m)
    (hearly : p.FailsEarly s m) : p.LeavesNothing s m ∧ Whole p (s.processMsg p m).state := by
  have hbase : p.writtenToBase = true := by
    by_contra hno
    rw [Bool.not_eq_true] at hno
    unfold TypedParam.Fails processMsg at hfails
    rw [hno] at hfails
    exact nomatch hfails
  obtain ⟨hwhole, hdir, hfirst, hstore⟩ := processMsg_of_failsEarly h hbase hfails hearly
  refine ⟨⟨hwhole.lengths, fun name => by rw [hdir], fun later hlater => ?_⟩, hwhole⟩
  obtain ⟨dir, hafter⟩ := exists_filesAfter h hlater
  refine ⟨dir, ?_, hafter⟩
  rw [← hafter]
  refine filesAfter_eq hdir (fun m' hm' => ?_) hlater
  rw [step_msg hbase, step_msg hbase, prepared_of_not_firstWrite hfirst, hstore m' hm',
    prepared_eq hearly.1 m m']

/-! ## Messages that leave something -/

theorem createFilePath_inj (p : TypedParam V) {T T' : ℕ} (hT : T < 3) (hT' : T' < 3)
    (h : p.createFilePath T 0 = p.createFilePath T' 0) : T = T' := by
  have hfour : ∀ T < 3, ∀ T' < 3, Numeral.padded 10 T ++ ".sz4".toList =
      Numeral.padded 10 T' ++ ".sz4".toList → T = T' := by decide
  have height : ∀ T < 3, ∀ T' < 3,
      Numeral.padded 10 T ++ Numeral.padded 10 0 ++ ".sz4".toList =
        Numeral.padded 10 T' ++ Numeral.padded 10 0 ++ ".sz4".toList → T = T' := by decide
  unfold TypedParam.createFilePath at h
  split_ifs at h
  · exact hfour T hT T' hT' h
  · exact height T hT T' hT' h

theorem timeToBinary_inj (p : TypedParam V) {T T' : ℕ} (hT : T < 3) (hT' : T' < 3)
    (h : p.timeToBinary T 0 = p.timeToBinary T' 0) : T = T' := by
  have hfour : ∀ T < 3, ∀ T' < 3, packUnsigned 4 T = packUnsigned 4 T' → T = T' := by decide
  have height : ∀ T < 3, ∀ T' < 3,
      (packUnsigned 4 T).bind (fun a => (packUnsigned 4 0).map (a ++ ·)) =
        (packUnsigned 4 T').bind (fun a => (packUnsigned 4 0).map (a ++ ·)) → T = T' := by decide
  unfold TypedParam.timeToBinary at h
  split_ifs at h
  · exact height T hT T' hT' h
  · exact hfour T hT T' hT' h

theorem isSome_timeToBinary (p : TypedParam V) {T : ℕ} (hT : T < 3) :
    (p.timeToBinary T 0).isSome := by
  have hfour : ∀ T < 3, (packUnsigned 4 T).isSome := by decide
  have height : ∀ T < 3,
      ((packUnsigned 4 T).bind (fun a => (packUnsigned 4 0).map (a ++ ·))).isSome := by decide
  unfold TypedParam.timeToBinary
  split_ifs
  · exact height T hT
  · exact hfour T hT

theorem write_some (hf : s.saver.file = some f) (data : List UInt8) :
    s.write (some data) =
      ⟨⟨s.dir.put f.name ((s.data f).take f.pos ++ data ++ (s.data f).drop (f.pos + data.length)),
        { s.saver with file := some ⟨f.name, f.pos + data.length⟩ }⟩, none⟩ := by
  simp only [write, hf]
  rfl

theorem length_written {old data : List UInt8} {pos : ℕ} (h : pos ≤ old.length) :
    (old.take pos ++ data ++ old.drop (pos + data.length)).length =
      max old.length (pos + data.length) := by
  rw [List.length_append, List.length_append, List.length_take, List.length_drop]
  omega

/-- Two writes from the time of the last record on. -/
theorem store_back_room (hle : p.recordLength ≤ (s.data f).length) (hroom : ¬ s.Full p)
    (hnew : s.isCurrent p m.value = false) (hm : p.Fits m) :
    ∃ t, (back p s f).store p m = ⟨t, none⟩ ∧
      (t.dir.content f.name).length + p.timePrec = (s.data f).length + p.recordLength := by
  obtain ⟨x, hx⟩ := Option.isSome_iff_exists.mp hm.1
  obtain ⟨b, hb⟩ := Option.isSome_iff_exists.mp hm.2
  have hxlen := p.format.length_toBinary _ _ hx
  have hblen := p.length_timeToBinary hb
  have hrec := p.recordLength_bounds
  have hcond : ¬ ((back p s f).isCurrent p m.value = true) := by
    have hsame : (back p s f).isCurrent p m.value = s.isCurrent p m.value := rfl
    rw [hsame, hnew]
    decide
  have hroom' : ¬ (back p s f).Full p := hroom
  -- the value goes over the time, and the time behind it
  obtain ⟨u, hu, hufile, hulen⟩ : ∃ u, (back p s f).write (some x) = ⟨u, none⟩ ∧
      u.saver.file = some ⟨f.name, (s.data f).length - p.timePrec + x.length⟩ ∧
      (u.dir.content f.name).length =
        max (s.data f).length ((s.data f).length - p.timePrec + x.length) := by
    refine ⟨_, write_some rfl x, rfl, ?_⟩
    dsimp only
    rw [Dir.content_put_self]
    exact length_written (Nat.sub_le _ _)
  rw [store, if_neg hcond, newValue, if_neg hroom', writeRecord, hx, hb, hu, Outcome.andThen]
  dsimp only
  rw [write_some hufile, Outcome.andThen]
  refine ⟨_, rfl, ?_⟩
  dsimp only
  have hudata : u.data ⟨f.name, (s.data f).length - p.timePrec + x.length⟩ =
      u.dir.content f.name := rfl
  rw [Dir.content_put_self, hudata, length_written (by rw [hulen]; omega), hulen]
  unfold TypedParam.recordLength at *
  omega

theorem exists_fits (p : TypedParam V) (v : V) :
    ∃ w x, p.format.eq w v = false ∧ p.format.toBinary w = some x ∧
      ∀ T < 3, p.Fits ⟨T, 0, w⟩ := by
  obtain ⟨w, hw, hx⟩ := p.format.exists_other v
  obtain ⟨x, hx'⟩ := Option.isSome_iff_exists.mp hx
  exact ⟨w, x, hw, hx', fun T hT => ⟨hx, isSome_timeToBinary p hT⟩⟩

/-- Of three times, one makes another file name and another record. -/
theorem exists_time (p : TypedParam V) (name : List Char) (x content : List UInt8) :
    ∃ T < 3, p.createFilePath T 0 ≠ name ∧
      ∀ b, p.timeToBinary T 0 = some b → x ++ b ≠ content := by
  by_contra! hall
  have hpath : ∀ T < 3, ∀ T' < 3, p.createFilePath T 0 = name → p.createFilePath T' 0 = name →
      T = T' := fun T hT T' hT' h h' => createFilePath_inj p hT hT' (h.trans h'.symm)
  have htime : ∀ T < 3, ∀ T' < 3, (∃ b, p.timeToBinary T 0 = some b ∧ x ++ b = content) →
      (∃ b, p.timeToBinary T' 0 = some b ∧ x ++ b = content) → T = T' := by
    rintro T hT T' hT' ⟨b, hb, hx⟩ ⟨b', hb', hx'⟩
    have hsame := List.append_cancel_left (hx.trans hx'.symm)
    exact timeToBinary_inj p hT hT' (by rw [hb, hb', hsame])
  by_cases h0 : p.createFilePath 0 0 = name
  · have h1 := hall 1 (by decide) fun h => absurd (hpath 0 (by decide) 1 (by decide) h0 h) (by decide)
    have h2 := hall 2 (by decide) fun h => absurd (hpath 0 (by decide) 2 (by decide) h0 h) (by decide)
    exact absurd (htime 1 (by decide) 2 (by decide) h1 h2) (by decide)
  · have h0' := hall 0 (by decide) h0
    by_cases h1 : p.createFilePath 1 0 = name
    · have h2 := hall 2 (by decide) fun h =>
        absurd (hpath 1 (by decide) 2 (by decide) h1 h) (by decide)
      exact absurd (htime 0 (by decide) 2 (by decide) h0' h2) (by decide)
    · exact absurd (htime 0 (by decide) 1 (by decide) h0' (hall 1 (by decide) h1)) (by decide)

/-- What later messages must yield. -/
theorem LeavesNothing.one (hleaves : p.LeavesNothing s m) {m' : TypedMsg V} (hm' : p.Fits m') :
    ∃ u u', p.step (s.processMsg p m).state (.msg m') = some u ∧ p.step s (.msg m') = some u' ∧
      u.dir = u'.dir := by
  obtain ⟨dir, hdir, hdir'⟩ := hleaves.later [m'] fun m'' hm'' =>
    List.mem_singleton.mp hm'' ▸ hm'
  rw [filesAfter_cons] at hdir hdir'
  obtain ⟨u, hu, hdir⟩ := Option.bind_eq_some_iff.mp hdir
  obtain ⟨u', hu', hdir'⟩ := Option.bind_eq_some_iff.mp hdir'
  exact ⟨u, u', hu, hu', Option.some.inj (hdir.trans hdir'.symm)⟩

section leaves

variable (h : Whole p s) (hbase : p.writtenToBase = true) (hfails : p.Fails s m)
include hbase hfails

theorem processMsg_eq : s.processMsg p m = (s.prepared p m).store p m ∧
    ((s.prepared p m).store p m).raised = some .structError := by
  have heq : s.processMsg p m = (s.prepared p m).store p m := by
    rw [processMsg, hbase]
    rfl
  exact ⟨heq, heq ▸ hfails⟩

include h in
/-- The first file keeps the name of the message. -/
theorem not_leavesNothing_of_first (hexists : s.saver.firstWrite ∧ s.dir = []) :
    ¬ p.LeavesNothing s m := by
  intro hleaves
  obtain ⟨heq, hraised⟩ := processMsg_eq hbase hfails
  obtain ⟨hwhole, -, -⟩ := prepared_whole h m
  have hnew : ∀ m', s.prepared p m' = _ := prepared_of_nil hexists.1 hexists.2
  have hrec := p.recordLength_bounds
  have hroom : ∀ m', ¬ (s.prepared p m').Full p := by
    intro m'
    rw [hnew]
    unfold Full TypedParam.recordLength dataFileSize at *
    dsimp only
    omega
  have hcurrent : ∀ m' v, (s.prepared p m').isCurrent p v = false := by
    intro m' v
    rw [hnew]
    rfl
  have hf : ∀ m', (s.prepared p m').saver.file = some ⟨p.path m', 0⟩ := by
    intro m'
    rw [hnew]
  rcases store_append_fails hwhole (hf m) (hcurrent m m.value) (hroom m) hraised with
    ⟨-, hsame⟩ | ⟨v, hv, hdir⟩
  · obtain ⟨w, x, -, hx, hfits⟩ := exists_fits p m.value
    -- a later message at another time
    obtain ⟨T, hT, hpath⟩ : ∃ T < 3, p.createFilePath T 0 ≠ p.path m := by
      by_contra! hall
      have := createFilePath_inj p (by decide) (by decide)
        ((hall 0 (by decide)).trans (hall 1 (by decide)).symm)
      exact absurd this (by decide)
    obtain ⟨b, hb⟩ := Option.isSome_iff_exists.mp (hfits T hT).2
    obtain ⟨u, u', hu, hu', hdir⟩ := LeavesNothing.one hleaves (hfits T hT)
    have hfirst : (s.prepared p m).saver.firstWrite = false := by rw [hnew]
    have hwhole' := (prepared_whole h ⟨T, 0, w⟩).1
    have hfirst' : (s.prepared p ⟨T, 0, w⟩).saver.firstWrite = false := by rw [hnew]
    rw [heq, hsame, step_msg hbase, prepared_of_not_firstWrite hfirst,
      store_append hwhole (hf m) hfirst (hcurrent m w) (hroom m) hx hb] at hu
    rw [step_msg hbase, store_append hwhole' (hf _) hfirst' (hcurrent _ w) (hroom _) hx hb] at hu'
    obtain rfl := Option.some.inj hu
    obtain rfl := Option.some.inj hu'
    have hcontent := congrArg (fun d => Dir.content d (p.path ⟨T, 0, w⟩)) hdir
    have hpath' : p.path ⟨T, 0, w⟩ ≠ p.path m := hpath
    dsimp only [ended] at hcontent
    rw [Dir.content_put_of_ne hpath', Dir.content_put_self, hnew, Dir.content_new] at hcontent
    have hne : ∀ d : List UInt8, d ++ (x ++ b) ≠ [] := fun d =>
      List.append_ne_nil_of_right_ne_nil d (bytes_ne_nil (m := ⟨T, 0, w⟩) hx hb)
    exact hne _ hcontent.symm
  · have hcontent := hleaves.content (p.path m)
    rw [heq, hdir, Dir.content_put_self, hexists.2] at hcontent
    have hlen := congrArg List.length hcontent
    have hvlen := p.format.length_toBinary _ _ hv
    have hpos := p.format.length_pos
    rw [List.length_append, hvlen] at hlen
    change _ = 0 at hlen
    omega

variable (hexists : ¬ (s.saver.firstWrite ∧ s.dir = []))
include h

include hexists in
/-- The next value goes over the time of the last record. -/
theorem not_leavesNothing_of_current (hcurrent : (s.prepared p m).isCurrent p m.value = true)
    (hroom : ¬ (s.prepared p m).Full p) : ¬ p.LeavesNothing s m := by
  intro hleaves
  obtain ⟨heq, hraised⟩ := processMsg_eq hbase hfails
  obtain ⟨hwhole, hfirst, -⟩ := prepared_whole h m
  obtain ⟨f, hf⟩ := Option.isSome_iff_exists.mp (hwhole.file hfirst)
  have hle := length_of_isCurrent hwhole hf hcurrent
  obtain ⟨c, hc, heqc⟩ := (Option.any_eq_true _ _).mp hcurrent
  have hb : p.timeToBinary m.time m.nanotime = none := by
    cases hb : p.timeToBinary m.time m.nanotime with
    | none => rfl
    | some b =>
      rw [store_current hwhole hf hfirst hc heqc hb] at hraised
      exact absurd hraised (by simp)
  obtain ⟨w, x, hw, hx, hfits⟩ := exists_fits p c
  have hnew : (s.prepared p m).isCurrent p w = false := by
    rw [isCurrent, hc]
    exact hw
  have hfit := hfits 0 (by decide)
  obtain ⟨b, hb'⟩ := Option.isSome_iff_exists.mp hfit.2
  obtain ⟨u, u', hu, hu', hdir⟩ := LeavesNothing.one hleaves hfit
  obtain ⟨t, ht, hlen⟩ := store_back_room (f := f) hle hroom hnew hfit
  have hbackFirst : (back p (s.prepared p m) f).saver.firstWrite = false := hfirst
  rw [heq, store_current_fails hwhole hf hcurrent hb, step_msg hbase,
    prepared_of_not_firstWrite hbackFirst, ht] at hu
  rw [step_msg hbase, prepared_eq hexists m,
    store_append hwhole hf hfirst hnew hroom hx hb'] at hu'
  obtain rfl := Option.some.inj hu
  obtain rfl := Option.some.inj hu'
  have hcontent := congrArg (fun d => (Dir.content d f.name).length) hdir
  dsimp only [ended] at hcontent
  have hxb := length_bytes (m := ⟨0, 0, w⟩) hx hb'
  have hrec := p.recordLength_bounds
  rw [Dir.content_put_self, List.length_append, hxb] at hcontent
  omega

/-- Half a record is left. -/
theorem not_leavesNothing_of_append (hnew : (s.prepared p m).isCurrent p m.value = false)
    (hroom : ¬ (s.prepared p m).Full p) (hv : p.format.toBinary m.value ≠ none) :
    ¬ p.LeavesNothing s m := by
  intro hleaves
  obtain ⟨heq, hraised⟩ := processMsg_eq hbase hfails
  obtain ⟨hwhole, hfirst, -⟩ := prepared_whole h m
  obtain ⟨f, hf⟩ := Option.isSome_iff_exists.mp (hwhole.file hfirst)
  rcases store_append_fails hwhole hf hnew hroom hraised with ⟨hnone, -⟩ | ⟨v, hv', hdir⟩
  · exact hv hnone
  · have hdvd := hleaves.whole f.name
    have hold := hwhole.lengths f.name
    have hvlen := p.format.length_toBinary _ _ hv'
    have hpos := p.format.length_pos
    have hrec := p.recordLength_bounds
    rw [heq, hdir, Dir.content_put_self, List.length_append] at hdvd
    have hdvd' := (Nat.dvd_add_right hold).mp hdvd
    have hle := Nat.le_of_dvd (by omega) hdvd'
    unfold TypedParam.recordLength at *
    omega

include hexists in
/-- A new file is made, or an old one is emptied. -/
theorem not_leavesNothing_of_full (hnew : (s.prepared p m).isCurrent p m.value = false)
    (hfull : (s.prepared p m).Full p) : ¬ p.LeavesNothing s m := by
  intro hleaves
  obtain ⟨heq, hraised⟩ := processMsg_eq hbase hfails
  obtain ⟨hwhole, hfirst, -⟩ := prepared_whole h m
  rcases store_full_fails hnew hfull hraised with ⟨-, hopen⟩ | ⟨v, hv, hdir⟩
  · obtain ⟨w, x, hw, hx, hfits⟩ : ∃ w x, (s.prepared p m).isCurrent p w = false ∧
        p.format.toBinary w = some x ∧ ∀ T < 3, p.Fits ⟨T, 0, w⟩ := by
      cases hc : (s.prepared p m).saver.currentValue with
      | none =>
        obtain ⟨w, x, -, hx, hfits⟩ := exists_fits p m.value
        exact ⟨w, x, by rw [isCurrent, hc]; rfl, hx, hfits⟩
      | some c =>
        obtain ⟨w, x, hw, hx, hfits⟩ := exists_fits p c
        exact ⟨w, x, by rw [isCurrent, hc]; exact hw, hx, hfits⟩
    -- a later message at another time, whose record is not in the file already
    obtain ⟨T, hT, hpath, hother⟩ :=
      exists_time p (p.path m) x ((s.prepared p m).dir.content (p.path m))
    obtain ⟨b, hb⟩ := Option.isSome_iff_exists.mp (hfits T hT).2
    obtain ⟨u, u', hu, hu', hdir⟩ := LeavesNothing.one hleaves (hfits T hT)
    have hdata : ((s.prepared p m).openNew (p.path m)).data ⟨p.path m, 0⟩ = [] :=
      Dir.content_put_self _ _ _
    have hroom : ¬ ((s.prepared p m).openNew (p.path m)).Full p := by
      have hrec := p.recordLength_bounds
      have hsize : ((s.prepared p m).openNew (p.path m)).saver.fileSize = 0 := rfl
      unfold Full TypedParam.recordLength dataFileSize at *
      omega
    have hopenFirst : ((s.prepared p m).openNew (p.path m)).saver.firstWrite = false := hfirst
    rw [heq, hopen, step_msg hbase, prepared_of_not_firstWrite hopenFirst,
      store_append_of_end (f := ⟨p.path m, 0⟩) rfl hopenFirst (by rw [hdata]; rfl)
        (by rw [hdata]; rfl) hw hroom hx hb] at hu
    rw [step_msg hbase, prepared_eq hexists m, store_full hfirst hw hfull hx hb] at hu'
    obtain rfl := Option.some.inj hu
    obtain rfl := Option.some.inj hu'
    have hcontent := congrArg (fun d => Dir.content d (p.path m)) hdir
    have hpath' : p.path m ≠ p.path ⟨T, 0, w⟩ := Ne.symm hpath
    dsimp only [ended] at hcontent
    rw [Dir.content_put_self, Dir.content_put_of_ne hpath', hdata, List.nil_append] at hcontent
    exact hother b hb hcontent
  · have hdvd := hleaves.whole (p.path m)
    have hvlen := p.format.length_toBinary _ _ hv
    have hpos := p.format.length_pos
    have hrec := p.recordLength_bounds
    rw [heq, hdir, Dir.content_put_self] at hdvd
    have hle := Nat.le_of_dvd (by omega) hdvd
    unfold TypedParam.recordLength at *
    omega

end leaves

/-! ## Runs -/

/-- A failing message leaves nothing exactly when it fails early. -/
theorem leavesNothing_iff (h : Whole p s) (hfails : p.Fails s m) :
    p.LeavesNothing s m ↔ p.FailsEarly s m := by
  have hbase : p.writtenToBase = true := by
    by_contra hno
    rw [Bool.not_eq_true] at hno
    unfold TypedParam.Fails processMsg at hfails
    rw [hno] at hfails
    exact nomatch hfails
  constructor
  · intro hleaves
    by_cases hexists : s.saver.firstWrite ∧ s.dir = []
    · exact absurd hleaves (not_leavesNothing_of_first h hbase hfails hexists)
    · refine ⟨hexists, ?_⟩
      by_contra hnot
      rw [not_or] at hnot
      refine absurd hleaves ?_
      cases hcurrent : (s.prepared p m).isCurrent p m.value with
      | true =>
        have hroom : ¬ (s.prepared p m).Full p := fun hfull => hnot.1 ⟨hcurrent, hfull⟩
        exact not_leavesNothing_of_current h hbase hfails hexists hcurrent hroom
      | false =>
        by_cases hfull : (s.prepared p m).Full p
        · exact not_leavesNothing_of_full h hbase hfails hexists hcurrent hfull
        · exact not_leavesNothing_of_append h hbase hfails hcurrent hfull
            fun hv => hnot.2 ⟨hcurrent, hfull, hv⟩
  · exact fun hearly => (leavesNothing_of_failsEarly h hfails hearly).1

/-- A new value that is not written as a whole record raises an exception. -/
theorem newValue_fails (hf : s.saver.file = some f) (hpos : ¬ s.Full p → f.pos = (s.data f).length)
    {value : V} {time nanotime : ℕ}
    (h : p.format.toBinary value = none ∨ p.timeToBinary time nanotime = none) :
    (s.newValue p value time nanotime).raised = some .structError := by
  have hrecord : ∀ {s : Saving V} {f : File}, s.saver.file = some f →
      f.pos = (s.data f).length →
      (s.writeRecord p value time nanotime).raised = some .structError := by
    intro s f hf hpos
    rw [writeRecord_eq hf hpos]
    cases hv : p.format.toBinary value with
    | none => rfl
    | some v =>
      rw [h.resolve_left (by rw [hv]; exact Option.some_ne_none v)]
  unfold newValue
  split_ifs with hfull
  · refine hrecord (f := ⟨p.createFilePath time nanotime, 0⟩) rfl ?_
    have hdata : (s.openNew (p.createFilePath time nanotime)).data
        ⟨p.createFilePath time nanotime, 0⟩ = [] := Dir.content_put_self _ _ _
    rw [hdata]
    rfl
  · exact hrecord hf (hpos hfull)

theorem fails_or_whole (h : Whole p s) (m : TypedMsg V) :
    p.Fails s m ∨ Whole p (s.processMsg p m).state := by
  by_cases hbase : p.writtenToBase = true
  · obtain ⟨hwhole, hfirst, -⟩ := prepared_whole h m
    obtain ⟨f, hf⟩ := Option.isSome_iff_exists.mp (hwhole.file hfirst)
    have heq : s.processMsg p m = (s.prepared p m).store p m := by
      rw [processMsg, hbase]
      rfl
    unfold TypedParam.Fails
    rw [heq]
    cases hcurrent : (s.prepared p m).isCurrent p m.value with
    | true =>
      cases hb : p.timeToBinary m.time m.nanotime with
      | none =>
        rw [store_current_fails hwhole hf hcurrent hb]
        exact .inl rfl
      | some b =>
        obtain ⟨t, ht, hwhole', -⟩ := store_current_keeps hwhole hf hfirst hb hcurrent
        rw [ht]
        exact .inr hwhole'
    | false =>
      by_cases hfits : p.format.toBinary m.value = none ∨ p.timeToBinary m.time m.nanotime = none
      · left
        have hcond : ¬ ((s.prepared p m).isCurrent p m.value = true) := by
          rw [hcurrent]
          decide
        rw [store, if_neg hcond]
        exact newValue_fails hf
          (fun hroom => (hwhole.pos f hf).resolve_right fun hand => hroom hand.1) hfits
      · right
        rw [not_or, ← ne_eq, ← ne_eq, Option.ne_none_iff_exists', Option.ne_none_iff_exists'] at hfits
        obtain ⟨⟨v, hv⟩, b, hb⟩ := hfits
        obtain ⟨t, ht, hwhole', -⟩ := store_keeps hwhole hf hfirst hv hb
        rw [ht]
        exact hwhole'
  · right
    rw [Bool.not_eq_true] at hbase
    unfold processMsg
    rw [hbase]
    exact h

namespace TypedParam

def Atomic (p : TypedParam V) (s : Saving V) : TypedEvent V → Prop
  | .msg m => p.Fails s m → p.LeavesNothing s m
  | .replace => True

def Early (p : TypedParam V) (s : Saving V) : TypedEvent V → Prop
  | .msg m => p.Fails s m → p.FailsEarly s m
  | .replace => True

end TypedParam

/-- Over any run, the messages that fail leave nothing exactly when they all fail early. -/
theorem atomic_iff (p : TypedParam V) (events : List (TypedEvent V)) :
    Along p.next p.Atomic {} events ↔ Along p.next p.Early {} events := by
  have hlegal : ∀ s : Saving V, Along p.next (fun _ _ => True) s events := by
    induction events with
    | nil => exact fun _ => trivial
    | cons e events ih => exact fun s => ⟨trivial, ih _⟩
  have hnew : ∀ name, p.recordLength ∣ (Dir.content [] name).length := fun _ => dvd_zero _
  refine along_iff (fun s e (h : Whole p s) _ hearly => ?_) (fun s e h _ => ?_)
    (whole_new hnew) (hlegal {})
  · cases e with
    | msg m =>
      rcases fails_or_whole h m with hfails | hwhole
      · exact (leavesNothing_of_failsEarly h hfails (hearly hfails)).2
      · exact hwhole
    | replace => exact whole_new h.lengths
  · cases e with
    | msg m => exact forall_congr' fun hfails => leavesNothing_iff h hfails
    | replace => exact Iff.rfl

/-- A short parameter; its records take six bytes. -/
def secondParam : TypedParam ℤ := ⟨true, DataType.format .short, 4, timePrec_second⟩

/-- The first message of a parameter does not fit. -/
theorem tooLarge_not_atomic :
    ¬ Along secondParam.next secondParam.Atomic {} [.msg ⟨5, 0, 40000⟩] := by
  rintro ⟨hatomic, -⟩
  have hnew : ∀ name, secondParam.recordLength ∣ (Dir.content [] name).length :=
    fun _ => dvd_zero _
  have hfails : secondParam.Fails {} ⟨5, 0, 40000⟩ := by
    have hcontent := Dir.content_new (secondParam.path ⟨5, 0, (40000 : ℤ)⟩)
    have hlarge : secondParam.format.toBinary 40000 = none := by decide
    have hprepared : ({} : Saving ℤ).prepared secondParam ⟨5, 0, 40000⟩ = _ :=
      prepared_of_nil rfl rfl _
    have hstep : (({} : Saving ℤ).prepared secondParam ⟨5, 0, 40000⟩).newValue secondParam 40000 5 0 =
        ({} : Saving ℤ).processMsg secondParam ⟨5, 0, 40000⟩ := by
      unfold processMsg
      rw [hprepared]
      rfl
    unfold TypedParam.Fails
    rw [← hstep, hprepared]
    refine newValue_fails (f := ⟨secondParam.path ⟨5, 0, (40000 : ℤ)⟩, 0⟩) rfl (fun _ => ?_)
      (.inl hlarge)
    exact (congrArg List.length (hcontent _)).symm
  exact not_leavesNothing_of_first (whole_new hnew) rfl hfails ⟨rfl, rfl⟩ (hatomic hfails)

end Meaner4
end Szarp
