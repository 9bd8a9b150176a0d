import Szarp.Lib.BigEndian
import Szarp.Probes.WriteData

/-!
# Answers to GET

`GetProducer` of `probes_server.py` on the one side, `ProberConnection::Get` and `GetData` of
`proberconnection.cc` on the other.  The transport may pause a producer in any write, and resumes
it when it likes.
-/

namespace Szarp
namespace Probes

open Gregorian Szbase PyText Numeral

/-- What the transport was given so far, and in how many writes. -/
structure Output where
  bytes : List UInt8 := []
  writes : ℕ := 0

def Output.write (o : Output) (bytes : List UInt8) : Output := ⟨o.bytes ++ bytes, o.writes + 1⟩

def ascii (s : List Char) : List UInt8 := s.map fun c => UInt8.ofNat c.toNat

def getHeader (last size : ℤ) : List UInt8 :=
  ascii (intText last ++ ' ' :: intText size ++ ['\n'])

/-! ## The producer -/

structure GetProducer where
  start : ℤ
  stop : ℤ
  param : List Char
  paused : Bool
  size : Option ℤ
  last : ℤ

namespace GetProducer

variable (c : SzbCache) (pauses : ℕ → Bool)

/-- `GetProducer.__init__` -/
def create (start stop : ℤ) (param : List Char) : Except Exn GetProducer := do
  let (size, last) ← c.getSizeAndLast start stop param
  return { start, stop, param, paused := false, size := some size, last }

/-- The loop of `resumeProducing`; `pauses` says in which writes the transport pauses it. -/
def loop : ℕ → GetProducer → Output → Except Exn (GetProducer × Output)
  | rounds, p, o =>
    if p.paused ∨ p.stop ≤ p.start then .ok (p, o)
    else
      match rounds with
      | 0 => .error .rounds
      | rounds + 1 => do
        let (next, bytes) ← c.writeData p.start p.stop p.param
        loop rounds { p with start := next, paused := pauses o.writes } (o.write bytes)

/-- The rest of `resumeProducing`, after the first line; the flag says that the producer
finishes. -/
def produce (rounds : ℕ) (p : GetProducer) (o : Output) :
    Except Exn (GetProducer × Output × Bool) := do
  let (p, o) ← loop c pauses rounds p o
  return (p, o, decide (p.stop ≤ p.start))

def resumeProducing (rounds : ℕ) (p : GetProducer) (o : Output) :
    Except Exn (GetProducer × Output × Bool) :=
  match p.size with
  | none => produce c pauses rounds { p with paused := false } o
  | some size =>
    let p := { p with paused := pauses o.writes }
    if size = 0 then .ok (p, o.write (getHeader p.last size), true)
    else produce c pauses rounds { p with size := none } (o.write (getHeader p.last size))

end GetProducer

/-! ## The client -/

/-- `istream >> n` for a number in a range; `none` sets the fail bit. -/
def extract (low high : ℤ) (s : List Char) : Option (ℤ × List Char) :=
  let number := splitSign (s.dropWhile isSpace)
  let digits := number.2.takeWhile Char.isDigit
  let v := number.1 * Nat.ofDigitChars 10 digits 0
  if digits ≠ [] ∧ low ≤ v ∧ v ≤ high then some (v, number.2.dropWhile Char.isDigit) else none

/-- `ProberConnection` when a reply is in its input buffer; `stream` is what the socket has
behind it. -/
structure ProberConnection where
  serverTime : ℤ
  valuesCount : ℤ
  inputBuffer : List UInt8
  stream : List UInt8

namespace ProberConnection

/-- `HandleGetFirstLine` and the read of the data; `none` for an error and for a reply that does
not arrive. -/
def get (stream : List UInt8) : Option ProberConnection := do
  guard (10 ∈ stream)
  let line := (stream.takeWhile (· ≠ 10)).map fun b => Char.ofNat b.toNat
  let stream := (stream.dropWhile (· ≠ 10)).drop 1
  guard (line.take 5 ≠ "ERROR".toList)
  let (serverTime, line) ← extract (-2 ^ 63) (2 ^ 63 - 1) line
  let (length, _) ← extract 0 (2 ^ 64 - 1) line
  guard (length.toNat ≤ stream.length)
  return {
    serverTime
    valuesCount := (length / 2).bmod (2 ^ 32)
    inputBuffer := stream.take length.toNat
    stream := stream.drop length.toNat }

/-- A value of two bytes, the least significant one first. -/
def short (bytes : List UInt8) : ℤ := (BigEndian.decode bytes.reverse : ℤ).bmod (2 ^ 16)

def shorts : ℕ → List UInt8 → List ℤ
  | 0, _ => []
  | n + 1, bytes => short (bytes.take 2) :: shorts n (bytes.drop 2)

/-- `GetData`; `none` when an assertion fails. -/
def getData (conn : ProberConnection) (count : ℤ) : Option (List ℤ × ProberConnection) := do
  let count := min count conn.valuesCount
  guard (0 < conn.valuesCount)
  guard (2 * count.toNat ≤ conn.inputBuffer.length)
  return (shorts count.toNat conn.inputBuffer,
    { conn with
      inputBuffer := conn.inputBuffer.drop (2 * count.toNat)
      valuesCount := conn.valuesCount - count })

end ProberConnection

/-! ## The first and the last time -/

theorem monthStart_bounds {y : ℤ} {m : ℕ} (hy : 1 ≤ y ∧ y ≤ 9999) (hm : 1 ≤ m ∧ m ≤ 12) :
    -2 ^ 40 ≤ monthStart y m ∧ monthStart y m < 2 ^ 40 := by
  have hbefore := daysBeforeMonth_nonneg y m
  have hyear := daysBeforeMonth_mono y (by omega) (show m ≤ 13 by omega)
  have hleap := leapDay_cases y
  rw [daysBeforeMonth_thirteen] at hyear
  simp only [monthStart, dayNumber, daysBeforeYear, epochDay]
  omega

/-- Times of the years of four digits are less than `2 ^ 42` seconds apart. -/
theorem sub_lt_of_year {t t' : ℤ} (hy : 1 ≤ (szbTime2my t).1) (hle : t ≤ t')
    (hy' : (szbTime2my t').1 ≤ 9999) : t' - t < 2 ^ 42 := by
  have hyears := szbTime2my_year_mono hle
  have hm := szbTime2my_month t
  have hm' := szbTime2my_month t'
  have hlow := monthStart_bounds ⟨hy, by omega⟩ hm
  have hhigh := monthStart_bounds ⟨by omega, hy'⟩ hm'
  have hstart := monthStart_le t
  have hend := lt_monthStart_nextMonth t'
  have hlen := monthLength_pos (szbTime2my t').1 (szbTime2my t').2
  rw [monthStart_nextMonth _ hm'.1] at hend
  omega

theorem monthStart_mono_month (y : ℤ) {m m' : ℕ} (hm : 1 ≤ m) (h : m ≤ m') :
    monthStart y m ≤ monthStart y m' := by
  have := daysBeforeMonth_mono y hm h
  simp only [monthStart, dayNumber]
  omega

theorem monthStart_le_of_name {d : List Char} {f g : MonthFile}
    (h : join d (monthName f.year f.month) ≤ join d (monthName g.year g.month)) :
    monthStart f.year f.month ≤ monthStart g.year g.month := by
  have hf := f.year_mem
  have hg := g.year_mem
  have hfm := f.month_mem
  have hgm := g.month_mem
  by_contra hlt
  have hyears := szbTime2my_year_mono
    (show monthStart g.year g.month ≤ monthStart f.year f.month by omega)
  rw [szbTime2my_monthStart _ hgm.1 hgm.2, szbTime2my_monthStart _ hfm.1 hfm.2] at hyears
  dsimp only at hyears
  have hname : monthName g.year g.month < monthName f.year f.month := by
    obtain ⟨n, hn⟩ := Int.eq_ofNat_of_zero_le (show 0 ≤ g.year by omega)
    obtain ⟨k, hk⟩ := Int.eq_ofNat_of_zero_le (show 0 ≤ f.year by omega)
    rw [monthName_eq, monthName_eq, monthDigits, monthDigits, hn, hk, zeroPadded_natCast,
      zeroPadded_natCast, zeroPadded_natCast, zeroPadded_natCast, List.append_assoc,
      List.append_assoc]
    by_cases hyear : n < k
    · apply append_lt_of_lt (padded_lt (by decide) hyear (by omega))
      rw [length_padded (by decide) (by omega), length_padded (by decide) (by omega)]
    · have heq : g.year = f.year := by omega
      have hmonth : g.month < f.month := by
        by_contra hle
        have hmono := monthStart_mono_month f.year hfm.1 (show f.month ≤ g.month by omega)
        rw [heq] at hlt
        exact hlt hmono
      obtain rfl : n = k := by omega
      apply append_lt_append
      apply append_lt_of_lt (padded_lt (by decide) hmonth (by omega))
      rw [length_padded (by decide) (by omega), length_padded (by decide) (by omega)]
  exact not_le_of_gt (append_lt_append (List.cons_lt_cons_iff.mpr (Or.inr ⟨rfl, hname⟩))) h

theorem index2time_last (c : SzbCache) {d : List Char} {files : List MonthFile}
    (hd : c.listdir d = some files) {f : MonthFile} (hf : f ∈ files) :
    ∃ g ∈ files, c.index2time (join d (monthName f.year f.month)) (-1) =
      .ok (monthStart g.year g.month + (((g.data.length / 2 : ℕ) : ℤ) - 1) * 10) := by
  have hsome : (files.find? fun g => g.year = f.year ∧ g.month = f.month).isSome := by
    rw [List.find?_isSome]
    exact ⟨f, hf, by simp⟩
  obtain ⟨g, hg⟩ := Option.isSome_iff_exists.mp hsome
  have hmonth := List.find?_some hg
  rw [decide_eq_true_eq] at hmonth
  have hcontent := content_join c hd f.year f.month_mem.2
  rw [hg, Option.map_some] at hcontent
  obtain ⟨hy, hm⟩ := parseInt_monthDigits (by have := f.year_mem; omega) f.year_mem.2
    f.month_mem.2 szbcacheExt
  rw [← monthName_eq] at hy hm
  refine ⟨g, List.mem_of_find?_eq_some hg, ?_⟩
  rw [hmonth.1, hmonth.2]
  simp only [SzbCache.index2time, hcontent, afterLast_join, hy, hm,
    timegm_eq f.year_mem f.month_mem, if_true, bind, Except.bind, pure, Except.pure]
  rfl

/-- The first time is the start of the earliest file, and the last one the end of some file. -/
theorem searchFirstLast_eq (c : SzbCache) {d : List Char} {files : List MonthFile}
    (hd : c.listdir d = some files) (hne : files ≠ []) :
    ∃ f ∈ files, ∃ g ∈ files, (∀ e ∈ files,
        monthStart f.year f.month ≤ monthStart e.year e.month) ∧
      c.searchFirstLast d = .ok (monthStart f.year f.month,
        monthStart g.year g.month + (((g.data.length / 2 : ℕ) : ℤ) - 1) * 10) := by
  have hsorted := @List.pairwise_mergeSort _ (fun a b : List Char => decide (a ≤ b))
    (fun a b c hab hbc => decide_eq_true
      (le_trans (of_decide_eq_true hab) (of_decide_eq_true hbc)))
    (fun a b => by
      rw [Bool.or_eq_true, decide_eq_true_eq, decide_eq_true_eq]
      exact le_total a b)
    (files.map fun f => join d (monthName f.year f.month))
  have hmem : ∀ path, path ∈ (files.map fun f => join d (monthName f.year f.month)).mergeSort
      (fun a b => decide (a ≤ b)) ↔ ∃ f ∈ files, join d (monthName f.year f.month) = path := by
    intro path
    rw [List.mem_mergeSort, List.mem_map]
  rw [SzbCache.searchFirstLast, hd, Option.getD_some]
  generalize (files.map fun f => join d (monthName f.year f.month)).mergeSort
    (fun a b => decide (a ≤ b)) = l at hsorted hmem
  cases l with
  | nil =>
    obtain ⟨f, hf⟩ := List.exists_mem_of_ne_nil files hne
    exact absurd ((hmem _).mpr ⟨f, hf, rfl⟩) List.not_mem_nil
  | cons path rest =>
    obtain ⟨f, hf, rfl⟩ := (hmem path).mp List.mem_cons_self
    obtain ⟨f', hf', hpath⟩ := (hmem _).mp List.getLastD_mem_cons
    obtain ⟨g, hg, hlast⟩ := index2time_last c hd hf'
    rw [hpath] at hlast
    refine ⟨f, hf, g, hg, ?_, ?_⟩
    · intro e he
      apply monthStart_le_of_name (d := d)
      rcases List.mem_cons.mp ((hmem _).mpr ⟨e, he, rfl⟩) with heq | hrest
      · rw [heq]
      · exact of_decide_eq_true ((List.pairwise_cons.mp hsorted).1 _ hrest)
    · have hfirst := index2time_join c d f.year_mem f.month_mem (i := 0) (by decide)
      rw [zero_mul, add_zero] at hfirst
      simp only [hfirst, hlast]
      rfl

/-- The constructor announces the size. -/
theorem create_eq (c : SzbCache) {param : List Char} {files : List MonthFile}
    (hdir : IsParamDir c param files) (hne : files ≠ []) (start stop : ℤ) :
    ∃ last, -2 ^ 63 ≤ last ∧ last < 2 ^ 63 ∧ GetProducer.create c start stop param =
      .ok { start, stop, param, paused := false, last,
            size := some (2 * ((stop - start) / 10 + 1)) } := by
  obtain ⟨f, -, g, -, -, hsearch⟩ := searchFirstLast_eq c hdir.listdir hne
  have hfirst : monthStart f.year f.month ≠ -1 := by
    have := monthStart_mod f.year f.month
    omega
  obtain ⟨hlow, hhigh⟩ := monthStart_bounds g.year_mem g.month_mem
  have hfits := g.size_lt
  have hsize : ((stop - start) / szbcacheProbe + 1) * (szbcacheSize : ℤ) =
      2 * ((stop - start) / 10 + 1) := mul_comm _ _
  refine ⟨monthStart g.year g.month + (((g.data.length / 2 : ℕ) : ℤ) - 1) * 10, by omega,
    by omega, ?_⟩
  simp only [GetProducer.create, SzbCache.getSizeAndLast, hdir.checkPath, hdir.isdir, hsearch,
    hfirst, hsize, bind, Except.bind, pure, Except.pure, not_true_eq_false, if_false]

/-! ## Rounds of the loop -/

structure Serves (dpath : List Char) (t' t : ℤ) : Prop where
  lt : t < t'
  ne_monthStart : t' ≠ monthStart (szbTime2my t').1 (szbTime2my t').2
  undotted : szbTime2my t = szbTime2my t' ∨ '.' ∉ dpath
  year_pos : 1 ≤ (szbTime2my t).1
  year_le : (szbTime2my t').1 ≤ 9999

/-- A round writes slots; behind it the request is done, or goes on with a later month. -/
theorem writeData_serves (c : SzbCache) {param : List Char} {files : List MonthFile}
    (hdir : IsParamDir c param files) {t t' : ℤ} (h : Serves (join c.cachedir param) t' t) :
    ∃ next, t / 10 ≤ next / 10 ∧ t < next ∧
      c.writeData t t' param = .ok (next, slots files (t / 10) (next / 10 - t / 10).toNat) ∧
      (t' < next ∧ next / 10 = t' / 10 + 1 ∨ Serves (join c.cachedir param) t' next) := by
  have hyears := szbTime2my_year_mono h.lt.le
  have hle := h.year_le
  by_cases hmonth : szbTime2my t = szbTime2my t'
  · have hyear := h.year_pos
    have hwrite := writeData_sameMonth c hdir h.lt.le ⟨h.year_pos, by omega⟩ hmonth
    have hlt := h.lt
    have hcount : 10 * (t' / 10) + 10 = 10 * (t' / 10 + 1) := by ring
    have hdiv : (10 * (t' / 10) + 10) / 10 = t' / 10 + 1 := by omega
    have hlen : t' / 10 - t / 10 + 1 = (10 * (t' / 10) + 10) / 10 - t / 10 := by omega
    rw [hlen] at hwrite
    exact ⟨_, by omega, by omega, hwrite, Or.inl ⟨by omega, hdiv⟩⟩
  · have hdot := h.undotted.resolve_left hmonth
    obtain ⟨next, hnext, hlt, hle', hwrite⟩ :=
      writeData_nextMonth c hdir hdot h.lt.le h.year_pos h.year_le hmonth
    have hm := szbTime2my_month t
    have hmem : szbTime2my next = nextMonth (szbTime2my t).1 (szbTime2my t).2 := by
      rw [hnext]
      exact szbTime2my_monthStart _ (nextMonth_mem hm.2).1 (nextMonth_mem hm.2).2
    have hyear := szbTime2my_year_mono hlt.le
    have hpos := h.year_pos
    have hne : next ≠ t' := by
      rintro rfl
      apply h.ne_monthStart
      rw [hmem]
      exact hnext
    exact ⟨next, by omega, hlt, hwrite, Or.inr
      { lt := by omega
        ne_monthStart := h.ne_monthStart
        undotted := Or.inr hdot
        year_pos := by omega
        year_le := h.year_le }⟩

namespace GetProducer

def unwritten (files : List MonthFile) (p : GetProducer) : List UInt8 :=
  slots files (p.start / 10) (p.stop / 10 + 1 - p.start / 10).toNat

def remaining (files : List MonthFile) (p : GetProducer) : List UInt8 :=
  match p.size with
  | none => unwritten files p
  | some size => getHeader p.last size ++ if size = 0 then [] else unwritten files p

variable (c : SzbCache) (pauses : ℕ → Bool)

theorem loop_of_stop {p : GetProducer} (h : p.paused ∨ p.stop ≤ p.start) (rounds : ℕ) (o : Output) :
    loop c pauses rounds p o = .ok (p, o) := by
  cases rounds <;> rw [loop, if_pos h]

theorem unwritten_eq (files : List MonthFile) {p : GetProducer} {next : ℤ}
    (h : p.start / 10 ≤ next / 10) (h' : next / 10 ≤ p.stop / 10 + 1) :
    unwritten files p = slots files (p.start / 10) (next / 10 - p.start / 10).toNat ++
      unwritten files { p with start := next } := by
  have hadd := slots_add files (p.start / 10) (next / 10 - p.start / 10).toNat
    (p.stop / 10 + 1 - next / 10).toNat
  have hlen : (next / 10 - p.start / 10).toNat + (p.stop / 10 + 1 - next / 10).toNat =
      (p.stop / 10 + 1 - p.start / 10).toNat := by omega
  have hstart : p.start / 10 + ((next / 10 - p.start / 10).toNat : ℤ) = next / 10 := by omega
  rw [hlen, hstart] at hadd
  exact hadd

/-- The loop writes what is unwritten, up to where the transport pauses it. -/
theorem loop_spec {files : List MonthFile} {p : GetProducer} (hdir : IsParamDir c p.param files)
    (h : Serves (join c.cachedir p.param) p.stop p.start) {rounds : ℕ}
    (hrounds : (p.stop - p.start).toNat ≤ rounds) (o : Output) :
    ∃ next paused o' written, loop c pauses rounds p o =
        .ok ({ p with start := next, paused }, o') ∧ o'.bytes = o.bytes ++ written ∧
      written ++ unwritten files { p with start := next } = unwritten files p ∧
      (p.stop < next ∧ next / 10 = p.stop / 10 + 1 ∨
        paused ∧ Serves (join c.cachedir p.param) p.stop next ∧ p.start ≤ next ∧
          (p.paused ∨ p.start < next)) := by
  induction rounds generalizing p o with
  | zero =>
    have := h.lt
    omega
  | succ rounds ih =>
    have hlt := h.lt
    rw [loop]
    by_cases hpaused : p.paused
    · rw [if_pos (Or.inl hpaused)]
      exact ⟨p.start, p.paused, o, [], rfl, (List.append_nil _).symm, rfl,
        Or.inr ⟨hpaused, h, le_rfl, Or.inl hpaused⟩⟩
    · rw [if_neg (by rw [not_or]; exact ⟨hpaused, by omega⟩)]
      obtain ⟨next, hle, hnext, hwrite, hrest⟩ := writeData_serves c hdir h
      have hle' : next / 10 ≤ p.stop / 10 + 1 := by
        rcases hrest with ⟨-, heq⟩ | hserves
        · exact heq.le
        · have := hserves.lt
          omega
      have hbytes := unwritten_eq files hle hle'
      simp only [hwrite, bind, Except.bind]
      rcases hrest with hdone | hserves
      · exact ⟨next, pauses o.writes, _, _, loop_of_stop c pauses (Or.inr hdone.1.le) rounds _, rfl,
          hbytes.symm, Or.inl hdone⟩
      · obtain ⟨next', paused, o', written, hloop, hout, hsum, hend⟩ :=
          ih (p := { p with start := next, paused := pauses o.writes }) hdir hserves
            (by dsimp only; omega)
            (o.write (slots files (p.start / 10) (next / 10 - p.start / 10).toNat))
        rw [Output.write, List.append_assoc] at hout
        refine ⟨next', paused, o', _, hloop, hout, ?_, ?_⟩
        · rw [List.append_assoc, hbytes]
          exact congrArg _ hsum
        · rcases hend with hdone | ⟨hpause, hserves', hlater, -⟩
          · exact Or.inl hdone
          · have hnext' : p.start < next' := hnext.trans_le hlater
            exact Or.inr ⟨hpause, hserves', hnext'.le, Or.inr hnext'⟩

theorem produce_spec {files : List MonthFile} {p : GetProducer} (hdir : IsParamDir c p.param files)
    (h : Serves (join c.cachedir p.param) p.stop p.start) {rounds : ℕ}
    (hrounds : (p.stop - p.start).toNat ≤ rounds) (o : Output) :
    ∃ next paused o' written, o'.bytes = o.bytes ++ written ∧
      (produce c pauses rounds p o = .ok ({ p with start := next, paused }, o', true) ∧
        written = unwritten files p ∨
      produce c pauses rounds p o = .ok ({ p with start := next, paused }, o', false) ∧
        written ++ unwritten files { p with start := next } = unwritten files p ∧
        Serves (join c.cachedir p.param) p.stop next ∧ p.start ≤ next ∧
        (p.paused ∨ p.start < next)) := by
  obtain ⟨next, paused, o', written, hloop, hout, hsum, hend⟩ :=
    loop_spec c pauses hdir h hrounds o
  refine ⟨next, paused, o', written, hout, ?_⟩
  simp only [produce, hloop, bind, Except.bind, pure, Except.pure]
  rcases hend with ⟨hlt, hdiv⟩ | ⟨-, hserves, hle, hprogress⟩
  · have hnil : unwritten files { p with start := next } = [] := by
      have hcount : (p.stop / 10 + 1 - next / 10).toNat = 0 := by omega
      simp only [unwritten, hcount]
      rfl
    rw [hnil, List.append_nil] at hsum
    rw [decide_eq_true hlt.le]
    exact Or.inl ⟨rfl, hsum⟩
  · rw [decide_eq_false (not_le.mpr hserves.lt)]
    exact Or.inr ⟨rfl, hsum, hserves, hle, hprogress⟩

/-- A producer that will be served to its end. -/
def Sound (p : GetProducer) : Prop :=
  p.size = some 0 ∨ p.size ≠ some 0 ∧ Serves (join c.cachedir p.param) p.stop p.start

/-- What a producer still has to do: its first line and the time ahead of it. -/
def work (p : GetProducer) : ℕ := (p.stop - p.start).toNat + if p.size.isSome then 1 else 0

/-- In one call a sound producer writes what remains, or a part of it. -/
theorem resumeProducing_spec {files : List MonthFile} {p : GetProducer}
    (hdir : p.size ≠ some 0 → IsParamDir c p.param files) (h : Sound c p) {rounds : ℕ}
    (hrounds : p.size ≠ some 0 → (p.stop - p.start).toNat ≤ rounds) (o : Output) :
    ∃ p' o' written, o'.bytes = o.bytes ++ written ∧
      (resumeProducing c pauses rounds p o = .ok (p', o', true) ∧ written = remaining files p ∨
      resumeProducing c pauses rounds p o = .ok (p', o', false) ∧
        written ++ remaining files p' = remaining files p ∧ Sound c p' ∧
        p.size ≠ some 0 ∧ p'.size = none ∧ p'.param = p.param ∧ p'.stop = p.stop ∧
        p.start ≤ p'.start ∧ work p' < work p) := by
  obtain ⟨start, stop, param, paused, size, last⟩ := p
  cases size with
  | none =>
    have hserves := (h.resolve_left nofun).2
    obtain ⟨next, paused', o', written, hout, hprod⟩ := produce_spec c pauses
      (p := ⟨start, stop, param, false, none, last⟩) (hdir nofun) hserves (hrounds nofun) o
    refine ⟨⟨next, stop, param, paused', none, last⟩, o', written, hout, ?_⟩
    simp only [resumeProducing, remaining, work, Sound]
    rcases hprod with ⟨hok, hbytes⟩ | ⟨hok, hsum, hserves', hle, hprogress⟩
    · exact Or.inl ⟨hok, hbytes⟩
    · have hlt : start < next := hprogress.resolve_left nofun
      have hstop := hserves.lt
      dsimp only at hstop
      refine Or.inr ⟨hok, hsum, Or.inr ⟨nofun, hserves'⟩, nofun, trivial, trivial, trivial, hle, ?_⟩
      simp only [Option.isSome_none, Bool.false_eq_true, if_false]
      omega
  | some size =>
    by_cases h0 : size = 0
    · subst h0
      refine ⟨⟨start, stop, param, pauses o.writes, some 0, last⟩, o.write (getHeader last 0),
        getHeader last 0, rfl, Or.inl ?_⟩
      simp only [resumeProducing, remaining, if_true, List.append_nil]
      exact ⟨trivial, trivial⟩
    · have hne : some size ≠ some (0 : ℤ) := fun heq => h0 (Option.some.inj heq)
      have hserves := (h.resolve_left hne).2
      obtain ⟨next, paused', o', written, hout, hprod⟩ := produce_spec c pauses
        (p := ⟨start, stop, param, pauses o.writes, none, last⟩) (hdir hne) hserves (hrounds hne)
          (o.write (getHeader last size))
      rw [Output.write, List.append_assoc] at hout
      refine ⟨⟨next, stop, param, paused', none, last⟩, o', _, hout, ?_⟩
      simp only [resumeProducing, remaining, work, Sound, if_neg h0, List.append_assoc]
      rcases hprod with ⟨hok, hbytes⟩ | ⟨hok, hsum, hserves', hle, -⟩
      · exact Or.inl ⟨hok, congrArg _ hbytes⟩
      · dsimp only at hle hserves'
        refine Or.inr ⟨hok, congrArg _ hsum, Or.inr ⟨nofun, hserves'⟩, hne, trivial, trivial,
          trivial, hle, ?_⟩
        simp only [Option.isSome_none, Option.isSome_some, Bool.false_eq_true, if_false, if_true]
        omega

end GetProducer

end Probes
end Szarp
