import Szarp.Meaner4.Restarts

/-!
# Files of whole records

What a message does to files that hold whole records.
-/

namespace Szarp
namespace Meaner4

/-! ## Contents of a directory -/

namespace Dir

variable {d : Dir} {name name' : List Char} {c c' : List UInt8}

theorem content_of_notMem (h : name ∉ d.names) : d.content name = [] := by
  have hnone : d.lookup name = none := by
    rw [List.lookup_eq_none_iff]
    intro f hf
    simpa using fun heq : name = f.1 => h (List.mem_map.mpr ⟨f, hf, heq.symm⟩)
  rw [content, hnone]
  rfl

theorem names_put (d : Dir) (name : List Char) (c : List UInt8) :
    (d.put name c).names = if name ∈ d.names then d.names else d.names ++ [name] := by
  unfold put
  split_ifs with h
  · rw [names, List.map_map]
    refine List.map_congr_left fun f _ => ?_
    simp only [Function.comp]
    split_ifs with hf
    · exact hf.symm
    · rfl
  · rw [names, List.map_append]
    rfl

theorem lookup_map_put_self (h : name ∈ d.names) (c : List UInt8) :
    (d.map fun f => if f.1 = name then (name, c) else f).lookup name = some c := by
  induction d with
  | nil => exact absurd h List.not_mem_nil
  | cons f d ih =>
    rw [List.map_cons, List.lookup_cons]
    by_cases hf : f.1 = name
    · rw [if_pos hf, beq_self_eq_true]
    · rw [if_neg hf, beq_eq_false_iff_ne.mpr (Ne.symm hf)]
      exact ih ((List.mem_cons.mp h).resolve_left (Ne.symm hf))

theorem lookup_map_put_of_ne (h : name' ≠ name) (d : Dir) (c : List UInt8) :
    (d.map fun f => if f.1 = name then (name, c) else f).lookup name' = d.lookup name' := by
  induction d with
  | nil => rfl
  | cons f d ih =>
    rw [List.map_cons, List.lookup_cons, List.lookup_cons, ih]
    by_cases hf : f.1 = name
    · rw [if_pos hf, hf, beq_eq_false_iff_ne.mpr h]
    · rw [if_neg hf]

theorem content_put_self (d : Dir) (name : List Char) (c : List UInt8) :
    (d.put name c).content name = c := by
  unfold put
  by_cases h : name ∈ d.names
  · rw [if_pos h, content, lookup_map_put_self h]
    rfl
  · rw [if_neg h]
    exact content_last h

theorem content_put_of_ne (h : name' ≠ name) (d : Dir) (c : List UInt8) :
    (d.put name c).content name' = d.content name' := by
  unfold put
  by_cases hmem : name ∈ d.names
  · rw [if_pos hmem, content, lookup_map_put_of_ne h]
    rfl
  · have hlast : List.lookup name' [(name, c)] = none := by
      rw [List.lookup_cons, beq_eq_false_iff_ne.mpr h]
      rfl
    rw [if_neg hmem, content, List.lookup_append, hlast, Option.or_none]
    rfl

theorem content_put (d : Dir) (name name' : List Char) (c : List UInt8) :
    (d.put name c).content name' = if name' = name then c else d.content name' := by
  split_ifs with h
  · rw [h, content_put_self]
  · exact content_put_of_ne h d c

theorem content_new (name name' : List Char) : content [(name, [])] name' = [] := by
  have hput : content [(name, [])] name' = _ := content_put [] name name' []
  rw [hput]
  split_ifs <;> rfl

theorem put_put (d : Dir) (name : List Char) (c c' : List UInt8) :
    (d.put name c).put name c' = d.put name c' := by
  by_cases h : name ∈ d.names
  · have hmem : name ∈ (d.put name c).names := by
      rw [names_put, if_pos h]
      exact h
    rw [put, if_pos hmem, put, if_pos h, put, if_pos h, List.map_map]
    refine List.map_congr_left fun f _ => ?_
    simp only [Function.comp]
    split_ifs with hf hf'
    · rfl
    · exact absurd rfl hf'
    · rfl
  · rw [put_new h, put_last h, put_new h]

theorem findLatestPath_mem (h : d.findLatestPath = some name) : name ∈ d.names := by
  rw [findLatestPath] at h
  exact List.mem_mergeSort.mp (List.mem_of_getLast? h)

theorem findLatestPath_eq_none : d.findLatestPath = none ↔ d = [] := by
  rw [findLatestPath, List.getLast?_eq_none_iff]
  constructor
  · intro h
    have hlen := congrArg List.length h
    rw [List.length_mergeSort, names, List.length_map] at hlen
    exact List.length_eq_zero_iff.mp hlen
  · rintro rfl
    exact List.mergeSort_nil

end Dir

variable {V : Type} {p : TypedParam V} {s t : Saving V} {m : TypedMsg V} {f : File}

/-! ## Files of whole records -/

theorem TypedParam.recordLength_bounds (p : TypedParam V) :
    p.timePrec < p.recordLength ∧ p.recordLength ≤ 16 ∧ 0 < p.timePrec := by
  have := p.format.length_pos
  have := p.format.length_le
  have := p.timePrec_eq
  unfold TypedParam.recordLength
  omega

theorem TypedParam.length_timeToBinary {time nanotime : ℕ} {b : List UInt8}
    (h : p.timeToBinary time nanotime = some b) : b.length = p.timePrec := by
  have hlen : ∀ v b, packUnsigned 4 v = some b → b.length = 4 := by
    intro v b hb
    unfold packUnsigned at hb
    split_ifs at hb
    obtain rfl := Option.some.inj hb
    simp
  unfold TypedParam.timeToBinary at h
  split_ifs at h with hprec
  · obtain ⟨seconds, hs, h⟩ := Option.bind_eq_some_iff.mp h
    obtain ⟨nanoseconds, hn, h⟩ := Option.bind_eq_some_iff.mp h
    obtain rfl := Option.some.inj h
    rw [List.length_append, hlen _ _ hs, hlen _ _ hn, hprec]
  · rw [hlen _ _ h]
    exact (p.timePrec_eq.resolve_right hprec).symm

namespace Saving

def data (s : Saving V) (f : File) : List UInt8 := s.dir.content f.name

variable (p) in
/-- The files hold whole records, and the object knows its file: it stands at its end, except that
it may have gone back to a time in a file that gets no more records. -/
structure Whole (s : Saving V) : Prop where
  lengths : ∀ name, p.recordLength ∣ (s.dir.content name).length
  names : ∀ f, s.saver.file = some f → f.name ∈ s.dir.names
  size : ∀ f, s.saver.file = some f → s.saver.fileSize = (s.data f).length
  pos : ∀ f, s.saver.file = some f →
    f.pos = (s.data f).length ∨ s.Full p ∧ f.pos + p.timePrec = (s.data f).length
  file : s.saver.firstWrite = false → s.saver.file.isSome
  current : ∀ f, s.saver.file = some f → (s.saver.currentValue = none ↔ s.data f = [])

theorem whole_new {dir : Dir} (h : ∀ name, p.recordLength ∣ (dir.content name).length) :
    Whole p (⟨dir, {}⟩ : Saving V) where
  lengths := h
  names _ h := nomatch h
  size _ h := nomatch h
  pos _ h := nomatch h
  file h := nomatch h
  current _ h := nomatch h

theorem Whole.recordLength_le (h : Whole p s) {name : List Char} (hne : s.dir.content name ≠ []) :
    p.recordLength ≤ (s.dir.content name).length :=
  Nat.le_of_dvd (List.length_pos_iff.mpr hne) (h.lengths name)

/-- The object opens the last file, or makes the first one. -/
theorem prepareForWriting_cases (s : Saving V) (m : TypedMsg V) :
    (s.dir = [] ∧ s.prepareForWriting p m.time m.nanotime =
      ⟨[(p.path m, [])], ⟨some ⟨p.path m, 0⟩, 0, none, s.saver.firstWrite⟩⟩) ∨
    ∃ path ∈ s.dir.names, ∃ f value, f.name = path ∧
      s.prepareForWriting p m.time m.nanotime =
        ⟨s.dir, ⟨some f, (s.dir.content path).length, value, s.saver.firstWrite⟩⟩ ∧
      (p.recordLength ≤ (s.dir.content path).length ∧
          f.pos = (s.dir.content path).length ∧ value ≠ none ∨
        (s.dir.content path).length < p.recordLength ∧ f.pos = 0 ∧ value = none) := by
  unfold prepareForWriting
  cases hpath : s.dir.findLatestPath with
  | none =>
    have hdir := Dir.findLatestPath_eq_none.mp hpath
    left
    refine ⟨hdir, ?_⟩
    unfold openNew
    rw [hdir]
    rfl
  | some path =>
    right
    refine ⟨path, Dir.findLatestPath_mem hpath, ?_⟩
    dsimp only
    split_ifs with h
    · exact ⟨_, _, rfl, rfl, .inl ⟨h, rfl, Option.some_ne_none _⟩⟩
    · exact ⟨_, _, rfl, rfl, .inr ⟨not_le.mp h, rfl, rfl⟩⟩

theorem prepared_of_nil (hfirst : s.saver.firstWrite = true) (hdir : s.dir = [])
    (m : TypedMsg V) : s.prepared p m =
      ⟨[(p.path m, [])], ⟨some ⟨p.path m, 0⟩, 0, none, false⟩⟩ := by
  rw [prepared, if_pos hfirst]
  rcases prepareForWriting_cases s m with ⟨-, h⟩ | ⟨path, hpath, -⟩
  · rw [h]
  · rw [hdir] at hpath
    exact absurd hpath List.not_mem_nil

theorem prepared_of_not_firstWrite (h : s.saver.firstWrite = false) (m : TypedMsg V) :
    s.prepared p m = s := by
  rw [prepared, h]
  rfl

theorem prepared_whole (h : Whole p s) (m : TypedMsg V) :
    Whole p (s.prepared p m) ∧ (s.prepared p m).saver.firstWrite = false ∧
      if s.saver.firstWrite ∧ s.dir = [] then (s.prepared p m).dir = [(p.path m, [])]
      else (s.prepared p m).dir = s.dir := by
  by_cases hfirst : s.saver.firstWrite
  · rw [prepared, if_pos hfirst]
    rcases prepareForWriting_cases s m with ⟨hdir, heq⟩ | ⟨path, hpath, f, value, hf, heq, hpos⟩
    · rw [heq, if_pos ⟨hfirst, hdir⟩]
      have hcontent := Dir.content_new (p.path m)
      refine ⟨⟨fun name => ?_, ?_, ?_, ?_, fun _ => rfl, ?_⟩, rfl, rfl⟩
      · exact (hcontent name).symm ▸ dvd_zero _
      all_goals
        intro f hf
        obtain rfl := Option.some.inj hf
      · exact List.mem_singleton.mpr rfl
      · exact (congrArg List.length (hcontent _)).symm
      · exact .inl (congrArg List.length (hcontent _)).symm
      · exact iff_of_true rfl (hcontent _)
    · have hdir : s.dir ≠ [] := by
        intro hnil
        rw [hnil] at hpath
        exact absurd hpath List.not_mem_nil
      rw [heq, if_neg fun hand => hdir hand.2]
      subst hf
      -- a file that is too short for a record is empty
      have hempty : (s.dir.content f.name).length < p.recordLength →
          s.dir.content f.name = [] := by
        intro hlt
        by_contra hne
        exact absurd (h.recordLength_le hne) (not_le.mpr hlt)
      have hrec := p.recordLength_bounds
      refine ⟨⟨h.lengths, ?_, ?_, ?_, fun _ => rfl, ?_⟩, rfl, rfl⟩
      all_goals
        intro g hg
        obtain rfl := Option.some.inj hg
      · exact hpath
      · rfl
      · left
        rcases hpos with ⟨-, hpos, -⟩ | ⟨hlt, hpos, -⟩
        · exact hpos
        · rw [hpos, data, hempty hlt]
          rfl
      · rcases hpos with ⟨hle, -, hvalue⟩ | ⟨hlt, -, hvalue⟩
        · refine iff_of_false hvalue fun hnil => ?_
          change s.dir.content f.name = [] at hnil
          rw [hnil, List.length_nil] at hle
          omega
        · exact iff_of_true hvalue (hempty hlt)
  · rw [Bool.not_eq_true] at hfirst
    rw [prepared_of_not_firstWrite hfirst, hfirst]
    exact ⟨h, rfl, by simp⟩

/-! ## What a message does -/

theorem updateLastTime_eq (h : Whole p s) (hf : s.saver.file = some f)
    (hcurrent : s.saver.currentValue ≠ none) (time nanotime : ℕ) :
    s.updateLastTime p time nanotime =
      match p.timeToBinary time nanotime with
      | none => ⟨⟨s.dir, { s.saver with
          file := some ⟨f.name, (s.data f).length - p.timePrec⟩ }⟩, some .structError⟩
      | some b => ⟨⟨s.dir.put f.name ((s.data f).take ((s.data f).length - p.timePrec) ++ b),
          { s.saver with file := some ⟨f.name, (s.data f).length⟩ }⟩, none⟩ := by
  have hne : s.data f ≠ [] := fun hnil => hcurrent ((h.current f hf).mpr hnil)
  have hle : p.recordLength ≤ (s.data f).length := h.recordLength_le hne
  have hrec := p.recordLength_bounds
  have hseek : s.seekEnd p.timePrec = ⟨⟨s.dir, { s.saver with
      file := some ⟨f.name, (s.data f).length - p.timePrec⟩ }⟩, none⟩ := by
    rw [seekEnd, hf]
    exact if_neg (not_lt.mpr (by change p.timePrec ≤ (s.data f).length; omega))
  rw [updateLastTime, hseek, Outcome.andThen]
  cases hb : p.timeToBinary time nanotime with
  | none => rfl
  | some b =>
    have hlen := p.length_timeToBinary hb
    simp only [write]
    have hend : (s.data f).length - p.timePrec + b.length = (s.data f).length := by omega
    rw [hend]
    have hdrop : (s.dir.content f.name).drop (s.data f).length = [] := List.drop_length
    rw [hdrop, List.append_nil]
    rfl

theorem writeRecord_eq (hf : s.saver.file = some f) (hpos : f.pos = (s.data f).length)
    (value : V) (time nanotime : ℕ) :
    s.writeRecord p value time nanotime =
      match p.format.toBinary value, p.timeToBinary time nanotime with
      | none, _ => ⟨s, some .structError⟩
      | some v, none => ⟨⟨s.dir.put f.name (s.data f ++ v), { s.saver with
          file := some ⟨f.name, (s.data f ++ v).length⟩ }⟩, some .structError⟩
      | some v, some b => ⟨⟨s.dir.put f.name (s.data f ++ (v ++ b)),
          { s.saver with
            file := some ⟨f.name, (s.data f ++ (v ++ b)).length⟩
            fileSize := s.saver.fileSize + p.recordLength
            currentValue := some value }⟩, none⟩ := by
  have hend : ∀ data : List UInt8, s.write (some data) =
      ⟨⟨s.dir.put f.name (s.data f ++ data), { s.saver with
        file := some ⟨f.name, (s.data f ++ data).length⟩ }⟩, none⟩ := by
    intro data
    have htake : (s.dir.content f.name).take (s.data f).length = s.data f := List.take_length
    have hdrop : (s.dir.content f.name).drop ((s.data f).length + data.length) = [] :=
      List.drop_eq_nil_of_le (Nat.le_add_right _ _)
    simp only [write, hf]
    rw [hpos, htake, hdrop, List.append_nil, List.length_append]
  unfold writeRecord
  cases hv : p.format.toBinary value with
  | none =>
    simp only [write, hf]
    rfl
  | some v =>
    rw [hend, Outcome.andThen]
    dsimp only
    cases hb : p.timeToBinary time nanotime with
    | none => rfl
    | some b =>
      have hcontent : (s.dir.put f.name (s.data f ++ v)).content f.name = s.data f ++ v :=
        Dir.content_put_self _ _ _
      have htake : (s.data f ++ v).take (s.data f ++ v).length = s.data f ++ v := List.take_length
      have hdrop : (s.data f ++ v).drop ((s.data f ++ v).length + b.length) = [] :=
        List.drop_eq_nil_of_le (Nat.le_add_right _ _)
      simp only [write]
      rw [hcontent, htake, hdrop, List.append_nil, Dir.put_put, List.append_assoc,
        ← List.length_append, List.append_assoc]
      rfl

def ended (dir : Dir) (name : List Char) (content : List UInt8) (value : V) : Saving V :=
  ⟨dir.put name content, ⟨some ⟨name, content.length⟩, content.length, some value, false⟩⟩

theorem whole_ended {dir : Dir} {name : List Char} {content : List UInt8} {value : V}
    (hdir : ∀ name, p.recordLength ∣ (dir.content name).length)
    (hcontent : p.recordLength ∣ content.length) (hne : content ≠ []) :
    Whole p (ended dir name content value) := by
  have hdata : ∀ pos, (ended dir name content value).data ⟨name, pos⟩ = content :=
    fun _ => Dir.content_put_self _ _ _
  refine ⟨fun name' => ?_, ?_, ?_, ?_, fun _ => rfl, ?_⟩
  · change p.recordLength ∣ ((dir.put name content).content name').length
    rw [Dir.content_put]
    split_ifs
    · exact hcontent
    · exact hdir name'
  all_goals
    intro f hf
    obtain rfl := Option.some.inj hf
  · change name ∈ (dir.put name content).names
    rw [Dir.names_put]
    split_ifs with h
    · exact h
    · exact List.mem_append_right _ (List.mem_singleton.mpr rfl)
  · exact congrArg List.length (hdata _).symm
  · exact .inl (congrArg List.length (hdata _).symm)
  · exact iff_of_false (Option.some_ne_none value) (by rwa [hdata])

section Fits

variable {v b : List UInt8} (h : Whole p s) (hf : s.saver.file = some f)
  (hfirst : s.saver.firstWrite = false)
include h hf hfirst

theorem store_current {c : V} (hc : s.saver.currentValue = some c)
    (heq : p.format.eq m.value c = true) (hb : p.timeToBinary m.time m.nanotime = some b) :
    s.store p m =
      ⟨ended s.dir f.name ((s.data f).take ((s.data f).length - p.timePrec) ++ b) c, none⟩ := by
  have hne : s.saver.currentValue ≠ none := by rw [hc]; exact Option.some_ne_none c
  have hcurrent : s.isCurrent p m.value = true := by rw [isCurrent, hc]; exact heq
  have hle : p.recordLength ≤ (s.data f).length :=
    h.recordLength_le fun hnil => hne ((h.current f hf).mpr hnil)
  have hrec := p.recordLength_bounds
  have hlen : ((s.data f).take ((s.data f).length - p.timePrec) ++ b).length =
      (s.data f).length := by
    rw [List.length_append, List.length_take, p.length_timeToBinary hb]
    omega
  rw [store, if_pos hcurrent, updateLastTime_eq h hf hne, hb, ended, hlen, ← h.size f hf, ← hc,
    ← hfirst]

omit h in
theorem store_append_of_end (hpos : f.pos = (s.data f).length)
    (hsize : s.saver.fileSize = (s.data f).length) (hnew : s.isCurrent p m.value = false)
    (hfull : ¬ s.Full p) (hv : p.format.toBinary m.value = some v)
    (hb : p.timeToBinary m.time m.nanotime = some b) :
    s.store p m = ⟨ended s.dir f.name (s.data f ++ (v ++ b)) m.value, none⟩ := by
  have hlen : (s.data f ++ (v ++ b)).length = s.saver.fileSize + p.recordLength := by
    rw [List.length_append, List.length_append, p.format.length_toBinary _ _ hv,
      p.length_timeToBinary hb, hsize, TypedParam.recordLength, Nat.add_comm p.timePrec]
  have hcond : ¬ (s.isCurrent p m.value = true) := by rw [hnew]; decide
  rw [store, if_neg hcond, newValue, if_neg hfull, writeRecord_eq hf hpos, hv, hb]
  dsimp only
  rw [ended, hlen, ← hfirst]

theorem store_append (hnew : s.isCurrent p m.value = false) (hfull : ¬ s.Full p)
    (hv : p.format.toBinary m.value = some v)
    (hb : p.timeToBinary m.time m.nanotime = some b) :
    s.store p m = ⟨ended s.dir f.name (s.data f ++ (v ++ b)) m.value, none⟩ := by
  have hpos : f.pos = (s.data f).length := (h.pos f hf).resolve_right fun hand => hfull hand.1
  exact store_append_of_end hf hfirst hpos (h.size f hf) hnew hfull hv hb

omit h hf in
theorem store_full (hnew : s.isCurrent p m.value = false) (hfull : s.Full p)
    (hv : p.format.toBinary m.value = some v)
    (hb : p.timeToBinary m.time m.nanotime = some b) :
    s.store p m = ⟨ended s.dir (p.path m) (v ++ b) m.value, none⟩ := by
  have hdata : (s.openNew (p.path m)).data ⟨p.path m, 0⟩ = [] := Dir.content_put_self _ _ _
  have hlen : (v ++ b).length = 0 + p.recordLength := by
    rw [List.length_append, p.format.length_toBinary _ _ hv, p.length_timeToBinary hb,
      TypedParam.recordLength, Nat.add_comm p.timePrec, Nat.zero_add]
  have hcond : ¬ (s.isCurrent p m.value = true) := by rw [hnew]; decide
  rw [store, if_neg hcond, newValue, if_pos hfull]
  change (s.openNew (p.path m)).writeRecord p m.value m.time m.nanotime = _
  have hpos : (0 : ℕ) = ((s.openNew (p.path m)).data ⟨p.path m, 0⟩).length := by rw [hdata]; rfl
  have hdir : (s.openNew (p.path m)).dir.put (p.path m) (v ++ b) = s.dir.put (p.path m) (v ++ b) :=
    Dir.put_put _ _ _ _
  rw [writeRecord_eq rfl hpos, hv, hb, hdata]
  dsimp only
  rw [List.nil_append, hdir, ended, hlen, ← hfirst]
  rfl

end Fits

end Saving

end Meaner4
end Szarp
