import Szarp.Meaner4.Files

/-!
# Writing and restarting

The object that writes keeps the files of the messages, from whatever message on it writes them.
-/

namespace Szarp
namespace Meaner4

/-! ## The directory -/

namespace Dir

variable {d : Dir} {name : List Char} {c c' : List UInt8}

theorem content_last (h : name ∉ d.names) : content (d ++ [(name, c)]) name = c := by
  have hnone : d.lookup name = none := by
    rw [List.lookup_eq_none_iff]
    intro f hf
    simpa using fun heq : name = f.1 => h (List.mem_map.mpr ⟨f, hf, heq.symm⟩)
  rw [content, List.lookup_append, hnone]
  simp

theorem put_new (h : name ∉ d.names) : put d name c = d ++ [(name, c)] := if_neg h

theorem put_last (h : name ∉ d.names) : put (d ++ [(name, c)]) name c' = d ++ [(name, c')] := by
  have hmem : name ∈ names (d ++ [(name, c)]) := by simp [names]
  rw [put, if_pos hmem, List.map_append]
  congr 1
  · refine (List.map_congr_left fun f hf => ?_).trans (List.map_id d)
    have hne : f.1 ≠ name := fun heq => h (List.mem_map.mpr ⟨f, hf, heq⟩)
    rw [if_neg hne, id]
  · simp

theorem findLatestPath_last (h : (names (d ++ [(name, c)])).Pairwise (· < ·)) :
    findLatestPath (d ++ [(name, c)]) = some name := by
  have hsorted : (names (d ++ [(name, c)])).Pairwise fun a b => decide (a ≤ b) = true :=
    h.imp fun hlt => decide_eq_true (le_of_lt hlt)
  rw [findLatestPath, List.mergeSort_of_pairwise hsorted, names, List.map_append]
  simp

end Dir

/-! ## The open file -/

def opened (d : Dir) (name : List Char) (c : List UInt8) (pos size : ℕ) (value : Option ℤ) : State where
  dir := d ++ [(name, c)]
  saver := ⟨some ⟨name, pos⟩, size, value, false⟩

section Opened

variable {p : Param} {d : Dir} {name : List Char} {c : List UInt8} {pos size : ℕ} {value : Option ℤ}
  {m : Msg}

theorem write_opened (h : name ∉ d.names) (data : List UInt8) :
    (opened d name c pos size value).write (some data) =
      ⟨opened d name (c.take pos ++ data ++ c.drop (pos + data.length)) (pos + data.length) size
        value, none⟩ := by
  simp [Saving.write, opened, Dir.content_last h, Dir.put_last h]

theorem write_end (h : name ∉ d.names) (data : List UInt8) :
    (opened d name c c.length size value).write (some data) =
      ⟨opened d name (c ++ data) (c ++ data).length size value, none⟩ := by
  rw [write_opened h, List.take_length, List.drop_of_length_le (by omega), List.append_nil,
    List.length_append]

theorem toBinary_eq (hm : p.InRange m) : p.typed.format.toBinary m.intValue =
    some (BigEndian.encode p.valueLength (m.intValue % 256 ^ p.valueLength).toNat).reverse :=
  if_pos ⟨hm.2.2.1, hm.2.2.2⟩

theorem timeToBinary_eq (hm : p.InRange m) : p.typed.timeToBinary m.time m.nanotime =
    some ((BigEndian.encode 4 m.time).reverse ++
      if p.timePrec = 8 then (BigEndian.encode 4 m.nanotime).reverse else []) := by
  have htime : m.time < 256 ^ 4 := by have := hm.1; omega
  have hnano : m.nanotime < 256 ^ 4 := by have := hm.2.1; omega
  rw [TypedParam.timeToBinary, packUnsigned, packUnsigned, if_pos htime, if_pos hnano]
  change (if p.timePrec = 8 then _ else _) = _
  split
  · rfl
  · rw [List.append_nil]

theorem encodeRecord_record (p : Param) (m : Msg) : p.encodeRecord (p.record m) =
    (BigEndian.encode p.valueLength (m.intValue % 256 ^ p.valueLength).toNat).reverse ++
      ((BigEndian.encode 4 m.time).reverse ++
        if p.timePrec = 8 then (BigEndian.encode 4 m.nanotime).reverse else []) := by
  rw [Param.encodeRecord, Param.record, Param.stamp, List.append_assoc]
  split <;> rfl

theorem length_timeBytes (p : Param) (t : ℕ × ℕ) :
    ((BigEndian.encode 4 t.1).reverse ++
      if p.timePrec = 8 then (BigEndian.encode 4 t.2).reverse else []).length = p.timePrec := by
  obtain h | h := p.timePrec_eq <;> simp [h]

theorem updateLastTime_opened (h : name ∉ d.names) (hm : p.InRange m) {r : Record}
    (hr : r.1 = m.intValue) :
    (opened d name (c ++ p.encodeRecord r) pos size value).updateLastTime p.typed m.time
        m.nanotime =
      ⟨opened d name (c ++ p.encodeRecord (p.record m))
        (c ++ p.encodeRecord (p.record m)).length size value, none⟩ := by
  have htime := length_timeBytes p r.2
  have htime' := length_timeBytes p (m.time, m.nanotime)
  have hsplit : c ++ p.encodeRecord r =
      (c ++ (BigEndian.encode p.valueLength (m.intValue % 256 ^ p.valueLength).toNat).reverse) ++
        ((BigEndian.encode 4 r.2.1).reverse ++
          if p.timePrec = 8 then (BigEndian.encode 4 r.2.2).reverse else []) := by
    rw [Param.encodeRecord, hr]
    simp only [List.append_assoc]
  have hseek : (opened d name (c ++ p.encodeRecord r) pos size value).seekEnd p.typed.timePrec =
      ⟨opened d name (c ++ p.encodeRecord r)
        ((c ++ p.encodeRecord r).length - p.timePrec) size value, none⟩ := by
    have hle : ¬ (c ++ p.encodeRecord r).length < p.typed.timePrec := by
      rw [hsplit, List.length_append, htime]
      exact not_lt.mpr (Nat.le_add_left _ _)
    simp only [Saving.seekEnd, opened, Dir.content_last h, if_neg hle]
    rfl
  rw [Saving.updateLastTime, hseek, timeToBinary_eq hm, Outcome.andThen]
  dsimp only
  rw [write_opened h, encodeRecord_record, hsplit, List.length_append, htime, Nat.add_sub_cancel,
    List.take_left, List.drop_of_length_le (by rw [List.length_append, htime, htime']),
    List.append_nil, ← htime', ← List.length_append]
  simp only [List.append_assoc]

theorem writeRecord_end (h : name ∉ d.names) (hm : p.InRange m) :
    (opened d name c c.length size value).writeRecord p.typed m.intValue m.time m.nanotime =
      ⟨opened d name (c ++ p.encodeRecord (p.record m))
        (c ++ p.encodeRecord (p.record m)).length (size + p.recordLength) (some m.intValue),
        none⟩ := by
  rw [Saving.writeRecord, toBinary_eq hm, write_end h, Outcome.andThen]
  dsimp only
  rw [timeToBinary_eq hm, write_end h, Outcome.andThen, List.append_assoc, ← encodeRecord_record]
  rfl

/-- Below the limit it is put into the open file. -/
theorem newValue_append (h : name ∉ d.names) (hm : p.InRange m)
    (hroom : size + p.recordLength < dataFileSize) :
    (opened d name c c.length size value).newValue p.typed m.intValue m.time m.nanotime =
      ⟨opened d name (c ++ p.encodeRecord (p.record m))
        (c ++ p.encodeRecord (p.record m)).length (size + p.recordLength) (some m.intValue),
        none⟩ := by
  have hfull : ¬ (opened d name c c.length size value).Full p.typed := by
    rw [Param.recordLength_eq, ← Nat.add_assoc] at hroom
    exact not_le.mpr hroom
  rw [Saving.newValue, if_neg hfull, writeRecord_end h hm]

/-- At the limit a new file is opened. -/
theorem newValue_rollover (hnew : p.path m ∉ (d ++ [(name, c)]).names) (hm : p.InRange m)
    (hfull : dataFileSize ≤ size + p.recordLength) :
    (opened d name c pos size value).newValue p.typed m.intValue m.time m.nanotime =
      ⟨opened (d ++ [(name, c)]) (p.path m) (p.encodeRecord (p.record m))
        (p.encodeRecord (p.record m)).length p.recordLength (some m.intValue), none⟩ := by
  have hge : (opened d name c pos size value).Full p.typed := by
    rw [Param.recordLength_eq, ← Nat.add_assoc] at hfull
    exact hfull
  have hopen : (opened d name c pos size value).openNew (p.typed.createFilePath m.time m.nanotime) =
      opened (d ++ [(name, c)]) (p.path m) [] ([] : List UInt8).length 0 value := by
    have hpath : p.typed.createFilePath m.time m.nanotime = p.path m := rfl
    rw [hpath, Saving.openNew, opened, opened, Dir.put_new hnew]
    rfl
  rw [Saving.newValue, if_pos hge, hopen, writeRecord_end hnew hm, List.nil_append, Nat.zero_add]

end Opened

/-! ## One message -/

def atEnd (p : Param) (init : Files) (name : List Char) (rs : List Record) (r : Record) : State :=
  let c := (rs ++ [r]).flatMap p.encodeRecord
  opened (init.map p.encodeFile) name c c.length c.length (some r.1)

/-- A directory has the files, and the object that writes to it is new or has the last one open. -/
def Matches (p : Param) (fs : Files) (s : State) : Prop :=
  s.dir = fs.map p.encodeFile ∧
    (s.saver = {} ∨ ∃ init name rs r, fs = init ++ [(name, rs ++ [r])] ∧ s = atEnd p init name rs r)

section Messages

variable {p : Param} {msgs : List Msg} {m : Msg} {fs : Files} {s : State}

theorem names_encodeFile (fs : Files) : Dir.names (fs.map p.encodeFile) = fs.map Prod.fst := by
  rw [Dir.names, List.map_map]
  rfl

theorem matches_atEnd (init : Files) (name : List Char) (rs : List Record) (r : Record) :
    Matches p (init ++ [(name, rs ++ [r])]) (atEnd p init name rs r) := by
  refine ⟨?_, .inr ⟨init, name, rs, r, rfl, rfl⟩⟩
  rw [List.map_append]
  rfl

theorem Param.Laid.name_notMem {init : Files} {name : List Char} {records : List Record}
    (h : p.Laid msgs (init ++ [(name, records)])) :
    name ∉ Dir.names (init.map p.encodeFile) := by
  intro hmem
  rw [names_encodeFile] at hmem
  have hnames := h.names
  rw [List.map_append, List.pairwise_append] at hnames
  exact List.lt_irrefl _ (hnames.2.2 name hmem name (by simp))

/-- What is done with a value when the last file is open. -/
theorem store_atEnd {init : Files} {name : List Char} {rs : List Record} {r : Record}
    (h : p.Laid msgs (init ++ [(name, rs ++ [r])]))
    (hvalid : p.Valid (msgs ++ [m])) :
    ∃ s', (atEnd p init name rs r).store p.typed m.typed = ⟨s', none⟩ ∧
      Matches p (p.add (init ++ [(name, rs ++ [r])]) m) s' := by
  have hm : p.InRange m := hvalid.range m (by simp)
  have hname := h.name_notMem
  have hflat : (rs ++ [r]).flatMap p.encodeRecord =
      rs.flatMap p.encodeRecord ++ p.encodeRecord r := by simp
  have hlength := length_flatMap_encodeRecord p (rs ++ [r])
  rw [List.length_append, List.length_singleton] at hlength
  have hstore : (atEnd p init name rs r).store p.typed m.typed =
      if decide (m.intValue = r.1) then
        (atEnd p init name rs r).updateLastTime p.typed m.time m.nanotime
      else (atEnd p init name rs r).newValue p.typed m.intValue m.time m.nanotime := rfl
  rw [add_last, hstore]
  by_cases hsame : r.1 = m.intValue
  · -- the time of the last record is written over
    rw [if_pos (decide_eq_true hsame.symm), if_pos hsame]
    refine ⟨atEnd p init name rs (p.record m), ?_, matches_atEnd init name rs (p.record m)⟩
    have hlength' := length_flatMap_encodeRecord p (rs ++ [p.record m])
    rw [List.length_append, List.length_singleton, ← hlength] at hlength'
    have hflat' : (rs ++ [p.record m]).flatMap p.encodeRecord =
        rs.flatMap p.encodeRecord ++ p.encodeRecord (p.record m) := by simp
    have hvalue : r.1 = (p.record m).1 := hsame
    simp only [atEnd]
    rw [hlength', hflat, hflat', updateLastTime_opened hname hm hsame, ← hflat, ← hflat',
      hlength', hvalue]
  · rw [if_neg fun heq => hsame (of_decide_eq_true heq).symm, if_neg hsame]
    have hsize := (h.sizes (name, rs ++ [r]) (by simp)).2
    rw [List.length_append, List.length_singleton] at hsize
    split
    · -- the record does not fit below the limit
      rename_i hfull
      refine ⟨atEnd p (init ++ [(name, rs ++ [r])]) (p.path m) [] (p.record m), ?_,
        matches_atEnd _ _ [] _⟩
      have hdir : (init ++ [(name, rs ++ [r])]).map p.encodeFile =
          init.map p.encodeFile ++ [(name, (rs ++ [r]).flatMap p.encodeRecord)] := by
        rw [List.map_append]
        rfl
      have hnew : p.path m ∉ Dir.names
          (init.map p.encodeFile ++ [(name, (rs ++ [r]).flatMap p.encodeRecord)]) := by
        rw [← hdir, names_encodeFile]
        intro hmem
        obtain ⟨f, hf, heq⟩ := List.mem_map.mp hmem
        exact List.lt_irrefl _ (heq ▸ h.lt_path hvalid f hf)
      have hone : ([] ++ [p.record m]).flatMap p.encodeRecord = p.encodeRecord (p.record m) := by simp
      have hrecord := length_encodeRecord p (p.record m)
      simp only [atEnd]
      rw [newValue_rollover hnew hm (by rw [hlength]; linarith), hdir,
        hone, hrecord]
      rfl
    -- the record is put behind the last one, and the file gets no other name
    · rename_i hroom
      refine ⟨atEnd p init name (rs ++ [r]) (p.record m), ?_, matches_atEnd _ _ _ _⟩
      have hflat' : (rs ++ [r] ++ [p.record m]).flatMap p.encodeRecord =
          (rs ++ [r]).flatMap p.encodeRecord ++ p.encodeRecord (p.record m) := by simp
      have hlength' : ((rs ++ [r] ++ [p.record m]).flatMap p.encodeRecord).length =
          ((rs ++ [r]).flatMap p.encodeRecord).length + p.recordLength := by
        rw [hflat', List.length_append, length_encodeRecord]
      simp only [atEnd]
      rw [newValue_append hname hm (by rw [hlength]; linarith), hlength', hflat', List.length_append,
        length_encodeRecord]
      rfl

/-- A record that ends the files comes from a message. -/
theorem Param.Laid.fits (h : p.Laid msgs fs) (hvalid : p.Valid msgs) {r : Record}
    (hr : (fs.flatMap Prod.snd).getLast? = some r) : p.Fits r := by
  rw [h.getLast?_records] at hr
  obtain ⟨m, hm, rfl⟩ := List.mem_map.mp (List.mem_of_getLast? hr)
  exact fits_record (hvalid.range m hm)

/-- A new object finds the last file and the last value. -/
theorem prepared_atEnd {init : Files} {name : List Char} {rs : List Record} {r : Record}
    (h : p.Laid msgs (init ++ [(name, rs ++ [r])])) (hvalid : p.Valid msgs)
    (hdir : s.dir = (init ++ [(name, rs ++ [r])]).map p.encodeFile) (hfirst : s.saver.firstWrite)
    (msg : TypedMsg ℤ) : s.prepared p.typed msg = atEnd p init name rs r := by
  have hname := h.name_notMem
  have hsplit : (init ++ [(name, rs ++ [r])]).map p.encodeFile =
      init.map p.encodeFile ++ [(name, (rs ++ [r]).flatMap p.encodeRecord)] := by
    rw [List.map_append]
    rfl
  have hsorted : (Dir.names (init.map p.encodeFile ++
      [(name, (rs ++ [r]).flatMap p.encodeRecord)])).Pairwise (· < ·) := by
    rw [← hsplit, names_encodeFile]
    exact h.names
  have hfits : p.Fits r := h.fits hvalid (by simp)
  have hrecord := length_encodeRecord p r
  have hflat : (rs ++ [r]).flatMap p.encodeRecord =
      rs.flatMap p.encodeRecord ++ p.encodeRecord r := by simp
  have hle : p.typed.timePrec + p.typed.format.length ≤
      ((rs ++ [r]).flatMap p.encodeRecord).length := by
    rw [hflat, List.length_append, hrecord]
    exact Nat.le_add_left _ _
  have hblob : p.typed.format.fromBinary ((((rs ++ [r]).flatMap p.encodeRecord).drop
      (((rs ++ [r]).flatMap p.encodeRecord).length - p.typed.recordLength)).take
        p.typed.format.length) = r.1 := by
    have hvalue := congrArg Prod.fst (decodeRecord_encodeRecord hfits)
    have hlength : ((rs ++ [r]).flatMap p.encodeRecord).length - p.typed.recordLength =
        (rs.flatMap p.encodeRecord).length := by
      rw [hflat, List.length_append, hrecord]
      exact Nat.add_sub_cancel _ _
    rw [hlength, hflat, List.drop_left]
    exact hvalue
  rw [hsplit] at hdir
  rw [Saving.prepared, if_pos hfirst]
  simp only [Saving.prepareForWriting, hdir, Dir.findLatestPath_last hsorted, Dir.content_last hname,
    if_pos hle, hblob]
  rfl

theorem processMsg_matches (hbase : p.writtenToBase) (h : p.Laid msgs fs)
    (hvalid : p.Valid (msgs ++ [m])) (hs : Matches p fs s) :
    ∃ s', s.processMsg p.typed m.typed = ⟨s', none⟩ ∧ Matches p (p.add fs m) s' := by
  have hbefore : p.Valid msgs :=
    ⟨fun m hm => hvalid.range m (List.mem_append_left _ hm), (List.pairwise_append.mp hvalid.later).1⟩
  have hwritten : ¬ (!p.typed.writtenToBase) = true := by
    rw [Bool.not_eq_true', Bool.not_eq_false]
    exact hbase
  rw [Saving.processMsg, if_neg hwritten]
  obtain ⟨hdir, hsaver | ⟨init, name, rs, r, rfl, rfl⟩⟩ := hs
  · have hfirst : s.saver.firstWrite := by rw [hsaver]
    by_cases hne : fs = []
    · -- nothing has been written yet
      subst hne
      have hm : p.InRange m := hvalid.range m (by simp)
      have hle := p.recordLength_le
      obtain rfl : s = {} := by
        obtain ⟨dir, saver⟩ := s
        exact congr (congrArg Saving.mk hdir) hsaver
      refine ⟨atEnd p [] (p.path m) [] (p.record m), ?_, matches_atEnd [] _ [] _⟩
      have hlatest : Dir.findLatestPath [] = none := by simp [Dir.findLatestPath, Dir.names]
      have hprepared : Saving.prepared p.typed {} m.typed =
          opened [] (p.path m) [] ([] : List UInt8).length 0 none := by
        rw [Saving.prepared, if_pos rfl]
        simp only [Saving.prepareForWriting, hlatest]
        rfl
      have hnew := @newValue_append p [] (p.path m) [] 0 none m (by simp [Dir.names]) hm
        (by rw [dataFileSize]; omega)
      have hone := List.flatMap_singleton p.encodeRecord (p.record m)
      have hstore : (opened [] (p.path m) [] ([] : List UInt8).length 0 none).store p.typed m.typed =
          (opened [] (p.path m) [] ([] : List UInt8).length 0 none).newValue p.typed m.intValue
            m.time m.nanotime := rfl
      rw [hprepared, hstore, hnew]
      simp only [atEnd, hone, length_encodeRecord, List.nil_append, Nat.zero_add]
      rfl
    · obtain ⟨init, name, rs, r, rfl⟩ := h.exists_last hne
      rw [prepared_atEnd h hbefore hdir hfirst]
      exact store_atEnd h hvalid
  · exact store_atEnd h hvalid

/-! ## All messages -/

/-- Whatever messages and restarts have come, the files are those of the messages. -/
theorem run_matches (hbase : p.writtenToBase)
    {events : List Event} (hvalid : p.Valid (messages events)) :
    ∃ s, run p events = some s ∧ Matches p (p.filesOf (messages events)) s := by
  induction events using List.reverseRecOn with
  | nil => exact ⟨{}, rfl, rfl, .inl rfl⟩
  | append_singleton events e ih =>
    rw [messages, List.filterMap_append, ← messages] at hvalid ⊢
    have hbefore : p.Valid (messages events) :=
      ⟨fun m hm => hvalid.range m (List.mem_append_left _ hm),
        (List.pairwise_append.mp hvalid.later).1⟩
    obtain ⟨s, hs, hmatches⟩ := ih hbefore
    rw [run] at hs ⊢
    rw [List.foldlM_append, hs]
    cases e with
    | msg m =>
      obtain ⟨s', hs', hmatches'⟩ := processMsg_matches hbase (laid_filesOf hbefore) hvalid
        hmatches
      refine ⟨s', ?_, ?_⟩
      · rw [Option.bind_eq_bind, Option.bind_some, List.foldlM_cons, step, hs', Outcome.result]
        rfl
      · rw [Param.filesOf, List.foldl_append]
        exact hmatches'
    | replace =>
      refine ⟨{ s with saver := {} }, rfl, ?_, .inl rfl⟩
      simpa using hmatches.1

/-- A parameter without `base_ind` has no files. -/
theorem run_of_not_writtenToBase (hbase : p.writtenToBase = false) (events : List Event) :
    ∃ s, run p events = some s ∧ s.dir = [] := by
  induction events using List.reverseRecOn with
  | nil => exact ⟨{}, rfl, rfl⟩
  | append_singleton events e ih =>
    obtain ⟨s, hs, hdir⟩ := ih
    rw [run] at hs ⊢
    rw [List.foldlM_append, hs]
    cases e with
    | msg m =>
      have hunwritten : (!p.typed.writtenToBase) = true := by
        rw [Bool.not_eq_true']
        exact hbase
      have hstep : step p s (.msg m) = some s := by
        rw [step, Saving.processMsg, if_pos hunwritten, Outcome.result]
      exact ⟨s, by rw [Option.bind_eq_bind, Option.bind_some, List.foldlM_cons, hstep]; rfl, hdir⟩
    | replace => exact ⟨{ s with saver := {} }, rfl, hdir⟩

theorem records_encodeFile (h : p.Laid msgs fs)
    (hvalid : p.Valid msgs) :
    p.records (fs.map p.encodeFile) = Runs.lasts Prod.fst (msgs.map p.record) := by
  have hfits : ∀ f ∈ fs, ∀ r ∈ f.2, p.Fits r := by
    intro f hf r hr
    have hmem : r ∈ fs.flatMap Prod.snd := List.mem_flatMap.mpr ⟨f, hf, hr⟩
    rw [h.records] at hmem
    obtain ⟨m, hm, rfl⟩ := List.mem_map.mp (Runs.mem_of_mem_lasts hmem)
    exact fits_record (hvalid.range m hm)
  have hsorted : (fs.map p.encodeFile).Pairwise fun f g => decide (f.1 ≤ g.1) = true := by
    rw [List.pairwise_map]
    have hnames := h.names
    rw [List.pairwise_map] at hnames
    exact hnames.imp fun hlt => decide_eq_true (le_of_lt hlt)
  rw [Param.records, List.mergeSort_of_pairwise hsorted, ← h.records, List.flatMap_map]
  apply List.flatMap_congr
  intro f hf
  exact decode_flatMap (hfits f hf)

end Messages

/-- For a parameter that is written to the base the files hold, in the order of their names, the last
record of every run of equal values; none grows to the limit, and restarts make no difference.  For
another parameter there are no files. -/
theorem files_runs (p : Param) (events : List Event)
    (hvalid : p.Valid (messages events)) :
    ∃ s, run p events = some s ∧
      (p.writtenToBase →
        p.records s.dir = Runs.lasts Prod.fst ((messages events).map p.record) ∧
        (∀ f ∈ s.dir, p.recordLength ∣ f.2.length ∧ f.2.length < dataFileSize) ∧
        ∀ events', messages events' = messages events →
          ∃ s', run p events' = some s' ∧ s'.dir = s.dir) ∧
      (p.writtenToBase = false → s.dir = []) := by
  cases hbase : p.writtenToBase with
  | false =>
    obtain ⟨s, hs, hdir⟩ := run_of_not_writtenToBase hbase events
    exact ⟨s, hs, nofun, fun _ => hdir⟩
  | true =>
    obtain ⟨s, hs, hmatches⟩ := run_matches hbase hvalid
    have hlaid := laid_filesOf hvalid
    refine ⟨s, hs, fun _ => ⟨?_, ?_, ?_⟩, nofun⟩
    · rw [hmatches.1]
      exact records_encodeFile hlaid hvalid
    · rw [hmatches.1]
      intro g hg
      obtain ⟨f, hf, rfl⟩ := List.mem_map.mp hg
      have hlength := length_flatMap_encodeRecord p f.2
      rw [Param.encodeFile, hlength]
      exact ⟨Dvd.intro_left _ rfl, (hlaid.sizes f hf).2⟩
    · intro events' heq
      obtain ⟨s', hs', hmatches'⟩ := run_matches hbase (heq ▸ hvalid)
      exact ⟨s', hs', by rw [hmatches'.1, hmatches.1, heq]⟩

def shortParam : Param := ⟨true, .short, 8, timePrec_nanosecond⟩

def fourMessages : List Event :=
  [.msg ⟨100, 0, 7⟩, .msg ⟨100, 500, 7⟩, .replace, .msg ⟨101, 0, 7⟩, .msg ⟨102, 0, 3⟩]

theorem fourMessages_runs : ∃ s, run shortParam fourMessages = some s ∧
    shortParam.records s.dir = [(7, 101, 0), (3, 102, 0)] := by
  have hvalid : shortParam.Valid (messages fourMessages) := by
    constructor
    · unfold Param.InRange
      decide
    · simp only [Prod.Lex.toLex_lt_toLex]
      decide
  obtain ⟨s, hs, hruns, -⟩ := files_runs shortParam fourMessages hvalid
  exact ⟨s, hs, (hruns rfl).1⟩

def unsavedParam : Param := { shortParam with writtenToBase := false }

theorem unsavedParam_empty : ∃ s, run unsavedParam fourMessages = some s ∧
    unsavedParam.records s.dir ≠
      Runs.lasts Prod.fst ((messages fourMessages).map unsavedParam.record) := by
  obtain ⟨s, hs, hdir⟩ := run_of_not_writtenToBase (p := unsavedParam) rfl fourMessages
  have hlast := @Runs.getLast?_lasts _ _ _ Prod.fst
    ((messages fourMessages).map unsavedParam.record)
  refine ⟨s, hs, fun heq => ?_⟩
  rw [← heq, hdir] at hlast
  simp [Param.records, messages, fourMessages] at hlast

end Meaner4
end Szarp
