import Szarp.Meaner4.Integers

/-!
# What meaner4 leaves in its files

The files of a parameter as lists of records.  They depend on the messages only, and hold the last
record of each run of equal values.
-/

namespace Szarp
namespace Meaner4

open Numeral

/-- Files by their names, oldest first. -/
abbrev Files := List (List Char × List Record)

namespace Param

variable (p : Param)

def path (m : Msg) : List Char := p.typed.path m.typed

theorem path_eq (m : Msg) : p.path m =
    if p.timePrec = 4 then padded 10 m.time ++ ".sz4".toList
    else padded 10 m.time ++ padded 10 m.nanotime ++ ".sz4".toList := rfl

def add (fs : Files) (m : Msg) : Files :=
  match fs.getLast? with
  | none => [(p.path m, [p.record m])]
  | some (name, rs) =>
    if rs.getLast?.map Prod.fst = some m.intValue then
      fs.dropLast ++ [(name, rs.dropLast ++ [p.record m])]
    else if dataFileSize ≤ (rs.length + 1) * p.recordLength then fs ++ [(p.path m, [p.record m])]
    else fs.dropLast ++ [(name, rs ++ [p.record m])]

def filesOf (msgs : List Msg) : Files := msgs.foldl p.add []

def encodeFile (f : List Char × List Record) : List Char × List UInt8 :=
  (f.1, f.2.flatMap p.encodeRecord)

/-- Files that hold the last records of the runs of messages. -/
structure Laid (msgs : List Msg) (fs : Files) : Prop where
  names : (fs.map Prod.fst).Pairwise (· < ·)
  origin : ∀ f ∈ fs, ∃ m ∈ msgs, f.1 = p.path m
  sizes : ∀ f ∈ fs, f.2 ≠ [] ∧ f.2.length * p.recordLength < dataFileSize
  records : fs.flatMap Prod.snd = Runs.lasts Prod.fst (msgs.map p.record)

end Param

section Laid

variable {p : Param} {msgs : List Msg} {m : Msg} {fs : Files}

theorem path_lt {m' : Msg} (hm : p.InRange m) (hm' : p.InRange m')
    (h : toLex (p.stamp m) < toLex (p.stamp m')) : p.path m < p.path m' := by
  have htime : m.time < 10 ^ 10 := by have := hm.1; omega
  have htime' : m'.time < 10 ^ 10 := by have := hm'.1; omega
  have hlen : (padded 10 m.time).length = (padded 10 m'.time).length := by
    rw [length_padded (by decide) htime, length_padded (by decide) htime']
  rw [Prod.Lex.toLex_lt_toLex] at h
  obtain hp | hp := p.timePrec_eq
  · have hlt : m.time < m'.time := by
      simpa [Param.stamp, hp] using h
    rw [Param.path_eq, Param.path_eq, if_pos hp, if_pos hp]
    exact append_lt_of_lt (padded_lt (by decide) hlt htime') hlen _ _
  · rw [Param.path_eq, Param.path_eq, if_neg (by omega), if_neg (by omega), List.append_assoc,
      List.append_assoc]
    simp only [Param.stamp, hp, if_true] at h
    obtain hlt | ⟨heq, hlt⟩ := h
    · exact append_lt_of_lt (padded_lt (by decide) hlt htime') hlen _ _
    · have hnano : m.nanotime < 10 ^ 10 := by have := hm.2.1; omega
      have hnano' : m'.nanotime < 10 ^ 10 := by have := hm'.2.1; omega
      rw [heq]
      apply append_lt_append
      apply append_lt_of_lt (padded_lt (by decide) hlt hnano')
      rw [length_padded (by decide) hnano, length_padded (by decide) hnano']

theorem Param.Laid.lt_path (h : p.Laid msgs fs)
    (hvalid : p.Valid (msgs ++ [m])) : ∀ f ∈ fs, f.1 < p.path m := by
  intro f hf
  obtain ⟨m', hm', heq⟩ := h.origin f hf
  rw [heq]
  have hlater := List.pairwise_append.mp hvalid.later
  exact path_lt (hvalid.range m' (List.mem_append_left _ hm')) (hvalid.range m (by simp))
    (hlater.2.2 m' hm' m (List.mem_singleton_self m))

theorem laid_nil : p.Laid [] [] := ⟨.nil, nofun, nofun, rfl⟩

/-- The last record is the one of the last message. -/
theorem Param.Laid.getLast?_records (h : p.Laid msgs fs) :
    (fs.flatMap Prod.snd).getLast? = (msgs.map p.record).getLast? := by
  rw [h.records, Runs.getLast?_lasts]

theorem Param.Laid.ne_nil (h : p.Laid msgs fs) (hmsgs : msgs ≠ []) : fs ≠ [] := by
  rintro rfl
  have hlast := h.getLast?_records
  rw [List.flatMap_nil, List.getLast?_nil] at hlast
  exact hmsgs (List.map_eq_nil_iff.mp (List.getLast?_eq_none_iff.mp hlast.symm))

/-- Files that are there end in a record. -/
theorem Param.Laid.exists_last (h : p.Laid msgs fs) (hne : fs ≠ []) :
    ∃ init name rs r, fs = init ++ [(name, rs ++ [r])] := by
  obtain ⟨init, ⟨name, records⟩, rfl⟩ := (List.eq_nil_or_concat' fs).resolve_left hne
  have hsome := (h.sizes (name, records) (by simp)).1
  obtain ⟨rs, r, hrs⟩ := (List.eq_nil_or_concat' records).resolve_left hsome
  exact ⟨init, name, rs, r, by rw [← hrs]⟩

theorem add_last (init : Files) (name : List Char) (rs : List Record) (r : Record) :
    p.add (init ++ [(name, rs ++ [r])]) m =
      if r.1 = m.intValue then init ++ [(name, rs ++ [p.record m])]
      else if dataFileSize ≤ (rs.length + 1 + 1) * p.recordLength then
        init ++ [(name, rs ++ [r])] ++ [(p.path m, [p.record m])]
      else init ++ [(name, rs ++ [r] ++ [p.record m])] := by
  simp [Param.add]

theorem Param.Laid.replace {init : Files} {name : List Char} {records : List Record}
    (h : p.Laid msgs (init ++ [(name, records)])) {records' : List Record} (hne : records' ≠ [])
    (hsize : records'.length * p.recordLength < dataFileSize)
    (hrecords : init.flatMap Prod.snd ++ records' =
      Runs.lasts Prod.fst ((msgs ++ [m]).map p.record)) :
    p.Laid (msgs ++ [m]) (init ++ [(name, records')]) where
  names := by
    have hnames := h.names
    rw [List.map_append] at hnames ⊢
    exact hnames
  origin := by
    intro f hf
    have hname : ∃ f' ∈ init ++ [(name, records)], f'.1 = f.1 := by
      obtain hf | hf := List.mem_append.mp hf
      · exact ⟨f, List.mem_append_left _ hf, rfl⟩
      · exact ⟨(name, records), by simp, by rw [List.mem_singleton.mp hf]⟩
    obtain ⟨f', hf', heq⟩ := hname
    obtain ⟨m', hm', hpath⟩ := h.origin f' hf'
    exact ⟨m', List.mem_append_left _ hm', heq.symm.trans hpath⟩
  sizes := by
    intro f hf
    obtain hf | hf := List.mem_append.mp hf
    · exact h.sizes f (List.mem_append_left _ hf)
    · rw [List.mem_singleton.mp hf]
      exact ⟨hne, hsize⟩
  records := by
    rw [List.flatMap_append, List.flatMap_singleton]
    exact hrecords

theorem Param.Laid.add (h : p.Laid msgs fs) (hvalid : p.Valid (msgs ++ [m])) :
    p.Laid (msgs ++ [m]) (p.add fs m) := by
  have hrecord := p.recordLength_le
  -- the first message makes the first file
  by_cases hne : fs = []
  · subst hne
    have hmsgs : msgs = [] := by
      by_contra hmsgs
      exact h.ne_nil hmsgs rfl
    subst hmsgs
    refine ⟨List.pairwise_singleton _ _, ?_, ?_, rfl⟩
    · intro f hf
      exact ⟨m, by simp, by rw [List.mem_singleton.mp hf]⟩
    · intro f hf
      rw [List.mem_singleton.mp hf]
      refine ⟨by simp, ?_⟩
      rw [List.length_singleton, dataFileSize]
      omega
  · obtain ⟨init, name, rs, r, rfl⟩ := h.exists_last hne
    have hflat : (init ++ [(name, rs ++ [r])]).flatMap Prod.snd =
        init.flatMap Prod.snd ++ rs ++ [r] := by simp
    have hlast : (msgs.map p.record).getLast? = some r := by
      rw [← h.getLast?_records, hflat, List.getLast?_concat]
    have hrecords := h.records
    rw [hflat] at hrecords
    have hsize := (h.sizes (name, rs ++ [r]) (by simp)).2
    rw [List.length_append, List.length_singleton] at hsize
    rw [add_last]
    split
    -- an equal value takes the place of the last record
    · rename_i hsame
      apply h.replace (by simp)
      · rwa [List.length_append, List.length_singleton]
      · rw [List.map_append, List.map_singleton, Runs.lasts_append_of_eq hlast hsame, ← hrecords,
          List.dropLast_concat, List.append_assoc]
    · rename_i hdiffer
      have hnew : Runs.lasts Prod.fst ((msgs ++ [m]).map p.record) =
          init.flatMap Prod.snd ++ rs ++ [r] ++ [p.record m] := by
        rw [List.map_append, List.map_singleton, Runs.lasts_append_of_ne, hrecords]
        intro b hb
        rw [hlast] at hb
        rwa [← Option.some.inj hb]
      split
      -- there is no room: a new file, whose name is the greatest
      · refine ⟨?_, ?_, ?_, ?_⟩
        · rw [List.map_append, List.pairwise_append]
          refine ⟨h.names, List.pairwise_singleton _ _, ?_⟩
          intro x hx y hy
          obtain ⟨f, hf, rfl⟩ := List.mem_map.mp hx
          rw [List.mem_singleton.mp hy]
          exact h.lt_path hvalid f hf
        · intro f hf
          obtain hf | hf := List.mem_append.mp hf
          · obtain ⟨m', hm', hpath⟩ := h.origin f hf
            exact ⟨m', List.mem_append_left _ hm', hpath⟩
          · exact ⟨m, by simp, by rw [List.mem_singleton.mp hf]⟩
        · intro f hf
          obtain hf | hf := List.mem_append.mp hf
          · exact h.sizes f hf
          · rw [List.mem_singleton.mp hf]
            refine ⟨by simp, ?_⟩
            rw [List.length_singleton, dataFileSize]
            omega
        · rw [hnew, List.flatMap_append, hflat]
          simp
      -- there is room for one more record in the last file
      · rename_i hroom
        apply h.replace (by simp)
        · simp only [List.length_append, List.length_singleton]
          omega
        · rw [hnew]
          simp

theorem laid_filesOf (hvalid : p.Valid msgs) :
    p.Laid msgs (p.filesOf msgs) := by
  induction msgs using List.reverseRecOn with
  | nil => exact laid_nil
  | append_singleton msgs m ih =>
    have hbefore : p.Valid msgs :=
      ⟨fun m hm => hvalid.range m (List.mem_append_left _ hm), (List.pairwise_append.mp hvalid.later).1⟩
    rw [Param.filesOf, List.foldl_append]
    exact (ih hbefore).add hvalid

end Laid

end Meaner4
end Szarp
