import Mathlib.Data.Nat.Find
import Szarp.Szbase.RealDatablock

/-!
# Reading files in pieces

`szb_load_data` and `RealDatablock::LoadFromFile` call `read` until they have what they ask for or
the file ends.  A call may deliver less than it was asked for, or be interrupted.  After a short
read both set the position of the file to the length of what was read.
-/

namespace Szarp
namespace Szbase
namespace FileReading

abbrev Byte := BitVec 8

/-- How a call of `read` ends: with at most `n + 1` bytes, with `EINTR`, or with another error. -/
inductive ReadResult where
  | upTo (n : ℕ)
  | interrupted
  | failed
deriving DecidableEq

/-- The results of all calls of `read`, when no call fails and calls are not interrupted for
ever. -/
structure Deliveries where
  result : ℕ → ReadResult
  not_failed : ∀ n, result n ≠ .failed
  delivers : ∀ n, ∃ m, n ≤ m ∧ result m ≠ .interrupted

/-- What the loops leave; `failed` is an error of `read`. -/
inductive Loaded where
  | failed
  | bytes (buf : List Byte)
deriving DecidableEq

/-- The loop of both functions.  The first argument bounds the passes, and `none` is a loop that is
not over then; `call` counts the calls of `read`, `pos` is the position of the file. -/
def readLoop (file : List Byte) (result : ℕ → ReadResult) (count : ℕ) :
    ℕ → ℕ → ℕ → List Byte → Option Loaded
  | 0, _, _, _ => none
  | n + 1, call, pos, buf =>
    let toRead := count - buf.length
    if toRead = 0 then some (.bytes buf)
    else
      match result call with
      | .failed => some .failed
      | .interrupted => readLoop file result count n (call + 1) pos buf
      | .upTo k =>
        let chunk := (file.drop pos).take (min (k + 1) toRead)
        if chunk = [] then some (.bytes buf)
        else
          let pos := if chunk.length < toRead then chunk.length else pos + chunk.length
          readLoop file result count n (call + 1) pos (buf ++ chunk)

/-- `szb_load_data`; a missing file cannot be opened. -/
def loadData (n : ℕ) (result : ℕ → ReadResult) (file : Option (List Byte)) (start count : ℕ) :
    Option Loaded :=
  match file with
  | none => some .failed
  | some file => readLoop file result count n 0 start []

def samples : List Byte → List Word
  | [] => []
  | [_] => []
  | low :: high :: rest => (high ++ low : Word) :: samples rest

inductive LoadedSamples where
  | failed
  | aborted
  | samples (buf : List Word)
deriving DecidableEq

/-- What `LoadFromFile` does behind the loop. -/
def countSamples (maxProbes : ℕ) : Loaded → LoadedSamples
  | .failed => .failed
  | .bytes buf =>
    let toRead := maxProbes * 2 - buf.length
    if toRead % 2 ≠ 0 then .aborted
    else .samples ((samples buf).take (maxProbes - toRead / 2))

/-- The part of `RealDatablock::LoadFromFile` that reads the file. -/
def loadSamples (n : ℕ) (result : ℕ → ReadResult) (file : Option (List Byte)) (maxProbes : ℕ) :
    Option LoadedSamples :=
  match file with
  | none => some .failed
  | some file => (readLoop file result (maxProbes * 2) n 0 0 []).map (countSamples maxProbes)

/-! ## Passes -/

def Ends (file : List Byte) (result : ℕ → ReadResult) (count call pos : ℕ) (buf : List Byte)
    (o : Loaded) : Prop := ∃ n, readLoop file result count n call pos buf = some o

section Passes

attribute [local simp] readLoop

variable {file : List Byte} {result : ℕ → ReadResult} {count call pos : ℕ} {buf : List Byte}
  {o : Loaded}

theorem ends_iff_of_pass {call' pos' : ℕ} {buf' : List Byte}
    (h : ∀ n, readLoop file result count (n + 1) call pos buf =
      readLoop file result count n call' pos' buf') :
    Ends file result count call pos buf o ↔ Ends file result count call' pos' buf' o := by
  constructor
  · rintro ⟨n, hn⟩
    cases n with
    | zero => simp at hn
    | succ n => exact ⟨n, by rw [← h, hn]⟩
  · rintro ⟨n, hn⟩
    exact ⟨n + 1, by rw [h, hn]⟩

theorem ends_iff_of_stop {o' : Loaded}
    (h : ∀ n, readLoop file result count (n + 1) call pos buf = some o') :
    Ends file result count call pos buf o ↔ o = o' := by
  constructor
  · rintro ⟨n, hn⟩
    cases n with
    | zero => simp at hn
    | succ n =>
      rw [h] at hn
      exact (Option.some.inj hn).symm
  · intro ho
    exact ⟨1, by rw [h, ho]⟩

theorem ends_full (h : count ≤ buf.length) :
    Ends file result count call pos buf o ↔ o = .bytes buf := by
  apply ends_iff_of_stop
  intro n
  rw [readLoop]
  exact if_pos (by omega)

theorem ends_interrupted (h : buf.length < count) (hcall : result call = .interrupted) :
    Ends file result count call pos buf o ↔ Ends file result count (call + 1) pos buf o := by
  apply ends_iff_of_pass
  intro n
  have hopen : ¬ count - buf.length = 0 := by omega
  rw [readLoop]
  simp only [hopen, hcall, if_false]

theorem ends_end (h : buf.length < count) {k : ℕ} (hcall : result call = .upTo k)
    (hpos : file.length ≤ pos) :
    Ends file result count call pos buf o ↔ o = .bytes buf := by
  apply ends_iff_of_stop
  intro n
  have hopen : ¬ count - buf.length = 0 := by omega
  rw [readLoop]
  simp only [hopen, hcall, if_false, List.drop_eq_nil_of_le hpos, List.take_nil, if_true]

theorem ends_chunk (h : buf.length < count) {k : ℕ} (hcall : result call = .upTo k)
    (hpos : pos < file.length) {c : ℕ}
    (hc : c = min (k + 1) (min (count - buf.length) (file.length - pos))) :
    Ends file result count call pos buf o ↔
      Ends file result count (call + 1) (if c < count - buf.length then c else pos + c)
        (buf ++ (file.drop pos).take c) o := by
  apply ends_iff_of_pass
  intro n
  have hopen : ¬ count - buf.length = 0 := by omega
  have hchunk : (file.drop pos).take (min (k + 1) (count - buf.length)) =
      (file.drop pos).take c := by
    rw [List.take_eq_take_iff, List.length_drop]
    omega
  have hlen : ((file.drop pos).take c).length = c := by
    rw [List.length_take, List.length_drop]
    omega
  have hne : (file.drop pos).take c ≠ [] := List.length_pos_iff.mp (by omega)
  rw [readLoop]
  simp only [hopen, hcall, if_false, hchunk, hlen, hne]

end Passes

/-! ## Deliveries -/

namespace Deliveries

/-- The next call that is not interrupted. -/
def next (d : Deliveries) (call : ℕ) : ℕ := Nat.find (d.delivers call)

/-- How many bytes the next call that is not interrupted delivers at most. -/
def limit (d : Deliveries) (call : ℕ) : ℕ :=
  match d.result (d.next call) with
  | .upTo k => k + 1
  | _ => 0

theorem le_next (d : Deliveries) (call : ℕ) : call ≤ d.next call :=
  (Nat.find_spec (d.delivers call)).1

theorem interrupted_before (d : Deliveries) {call m : ℕ} (h : call ≤ m) (hm : m < d.next call) :
    d.result m = .interrupted := by
  by_contra hne
  exact Nat.find_min (d.delivers call) hm ⟨h, hne⟩

theorem result_next (d : Deliveries) (call : ℕ) :
    ∃ k, d.result (d.next call) = .upTo k ∧ d.limit call = k + 1 := by
  have hdelivers := (Nat.find_spec (d.delivers call)).2
  have hfailed := d.not_failed (d.next call)
  cases hr : d.result (d.next call) with
  | upTo k => exact ⟨k, rfl, by rw [limit, hr]⟩
  | interrupted => exact absurd hr hdelivers
  | failed => exact absurd hr hfailed

theorem limit_pos (d : Deliveries) (call : ℕ) : 0 < d.limit call := by
  obtain ⟨k, -, hk⟩ := d.result_next call
  omega

variable {d : Deliveries} {file : List Byte} {count call pos : ℕ} {buf : List Byte} {o : Loaded}

theorem ends_next (h : buf.length < count) :
    Ends file d.result count call pos buf o ↔
      Ends file d.result count (d.next call) pos buf o := by
  have hskip : ∀ m, call ≤ m → m ≤ d.next call →
      (Ends file d.result count call pos buf o ↔ Ends file d.result count m pos buf o) := by
    intro m hle
    induction m, hle using Nat.le_induction with
    | base => exact fun _ => Iff.rfl
    | succ m hle ih =>
      intro hm
      rw [ih (by omega), ends_interrupted h (d.interrupted_before hle (by omega))]
  exact hskip _ (d.le_next call) le_rfl

theorem ends_at_end (h : buf.length < count) (hpos : file.length ≤ pos) :
    Ends file d.result count call pos buf o ↔ o = .bytes buf := by
  obtain ⟨k, hk, -⟩ := d.result_next call
  rw [ends_next h, ends_end h hk hpos]

theorem ends_read (h : buf.length < count) (hpos : pos < file.length) {c : ℕ}
    (hc : c = min (d.limit call) (min (count - buf.length) (file.length - pos))) :
    Ends file d.result count call pos buf o ↔
      Ends file d.result count (d.next call + 1) (if c < count - buf.length then c else pos + c)
        (buf ++ (file.drop pos).take c) o := by
  obtain ⟨k, hk, hlimit⟩ := d.result_next call
  rw [hlimit] at hc
  rw [ends_next h, ends_chunk h hk hpos hc]

theorem chunk_length {c : ℕ} (hc : c ≤ file.length - pos) :
    (buf ++ (file.drop pos).take c).length = buf.length + c := by
  rw [List.length_append, List.length_take, List.length_drop]
  omega

/-- The loop ends in one way, with the bytes in the buffer in front. -/
theorem ends_exists (d : Deliveries) (file : List Byte) (count call pos : ℕ) (buf : List Byte) :
    ∃ out, buf <+: out ∧ ∀ o, Ends file d.result count call pos buf o ↔ o = .bytes out := by
  induction hn : count - buf.length using Nat.strong_induction_on generalizing call pos buf with
  | _ n ih =>
    by_cases hfull : count ≤ buf.length
    · exact ⟨buf, List.prefix_rfl, fun o => ends_full hfull⟩
    have hopen : buf.length < count := by omega
    by_cases hpos : file.length ≤ pos
    · exact ⟨buf, List.prefix_rfl, fun o => ends_at_end hopen hpos⟩
    have hin : pos < file.length := by omega
    obtain ⟨c, hc⟩ : ∃ c, c = min (d.limit call) (min (count - buf.length) (file.length - pos)) :=
      ⟨_, rfl⟩
    have hlimit := d.limit_pos call
    have hlen := @chunk_length file pos buf c (by omega)
    obtain ⟨out, hprefix, hends⟩ := ih _ (by omega) (d.next call + 1)
      (if c < count - buf.length then c else pos + c) (buf ++ (file.drop pos).take c) rfl
    refine ⟨out, (List.prefix_append _ _).trans hprefix, ?_⟩
    intro o
    rw [ends_read hopen hin hc, hends]

variable {out : List Byte}

theorem prefix_of_ends (h : Ends file d.result count call pos buf (.bytes out)) : buf <+: out := by
  obtain ⟨out', hprefix, hends⟩ := d.ends_exists file count call pos buf
  obtain rfl : out = out' := by simpa using (hends _).mp h
  exact hprefix

theorem ends_unique {o o' : Loaded} (h : Ends file d.result count call pos buf o)
    (h' : Ends file d.result count call pos buf o') : o = o' := by
  obtain ⟨out, -, hends⟩ := d.ends_exists file count call pos buf
  rw [(hends o).mp h, (hends o').mp h']

/-- The next byte in the buffer is the one at the position of the file. -/
theorem next_byte (hopen : buf.length < count) (hpos : pos < file.length)
    (h : Ends file d.result count call pos buf (.bytes out)) : out[buf.length]? = file[pos]? := by
  have hlimit := d.limit_pos call
  obtain ⟨c, hc⟩ : ∃ c, c = min (d.limit call) (min (count - buf.length) (file.length - pos)) :=
    ⟨_, rfl⟩
  have hlen := @chunk_length file pos buf c (by omega)
  obtain ⟨rest, rfl⟩ := prefix_of_ends ((ends_read hopen hpos hc).mp h)
  rw [List.getElem?_append_left (by omega), List.getElem?_append_right le_rfl, Nat.sub_self,
    List.getElem?_take_of_lt (by omega), List.getElem?_drop, Nat.add_zero]

/-- Once the position is inside the file, the loop goes on until the buffer is full. -/
theorem length_of_ends (hpos : 0 < pos) (hlt : pos < file.length) (hbuf : buf.length ≤ count)
    (h : Ends file d.result count call pos buf (.bytes out)) : out.length = count := by
  induction hn : count - buf.length using Nat.strong_induction_on generalizing call pos buf with
  | _ n ih =>
    by_cases hfull : count ≤ buf.length
    · have hout := (ends_full hfull).mp h
      rw [Loaded.bytes.injEq] at hout
      rw [hout]
      omega
    obtain ⟨c, hc⟩ : ∃ c, c = min (d.limit call) (min (count - buf.length) (file.length - pos)) :=
      ⟨_, rfl⟩
    have hlimit := d.limit_pos call
    have hlen := @chunk_length file pos buf c (by omega)
    have hread := (ends_read (by omega) hlt hc).mp h
    by_cases hshort : c < count - buf.length
    · rw [if_pos hshort] at hread
      exact ih _ (by omega) (by omega) (by omega) (by omega) hread rfl
    · have hout := (ends_full (by omega)).mp hread
      rw [Loaded.bytes.injEq] at hout
      rw [hout]
      omega

/-! ## Where the pieces do not matter -/

/-- The bytes that the first read delivers, from a file of `size` bytes. -/
def firstRead (d : Deliveries) (size start count : ℕ) : ℕ :=
  min (d.limit 0) (min count (size - start))

def secondRead (d : Deliveries) (size count c : ℕ) : ℕ :=
  min (d.limit (d.next 0 + 1)) (min (count - c) (size - c))

/-- No read is done at a wrong position: there is nothing to read, the first read delivers all, or
the first read from the start of the file is short and either the file ends there or the second
read delivers the rest. -/
def Whole (d : Deliveries) (size start count : ℕ) : Prop :=
  count = 0 ∨ size ≤ start ∨ d.firstRead size start count = count ∨
    start = 0 ∧ (d.firstRead size 0 count = size ∨
      d.secondRead size count (d.firstRead size 0 count) = count - d.firstRead size 0 count)

theorem ends_of_whole {start : ℕ} (h : d.Whole file.length start count) :
    Ends file d.result count 0 start [] (.bytes ((file.drop start).take count)) := by
  rcases Nat.eq_zero_or_pos count with rfl | hcount
  · exact (ends_full (Nat.zero_le _)).mpr (by rw [List.take_zero])
  by_cases hstart : file.length ≤ start
  · rw [ends_at_end hcount hstart, List.drop_eq_nil_of_le hstart, List.take_nil]
  have hin : start < file.length := by omega
  have hfirst : d.firstRead file.length start count =
      min (d.limit 0) (min (count - ([] : List Byte).length) (file.length - start)) := by
    rw [firstRead, List.length_nil, Nat.sub_zero]
  have hlen := @chunk_length file start [] (d.firstRead file.length start count)
    (by rw [firstRead]; omega)
  have hlimit := d.limit_pos 0
  rw [List.length_nil, Nat.zero_add, List.nil_append] at hlen
  rw [ends_read hcount hin hfirst, List.nil_append, List.length_nil, Nat.sub_zero]
  by_cases hall : d.firstRead file.length start count = count
  · rw [ends_full (by omega), hall]
  have hshort : d.firstRead file.length start count < count := by
    rw [firstRead] at hall ⊢
    omega
  obtain ⟨rfl, hrest⟩ : start = 0 ∧ (d.firstRead file.length 0 count = file.length ∨
      d.secondRead file.length count (d.firstRead file.length 0 count) =
        count - d.firstRead file.length 0 count) := by
    rcases h with h | h | h | h
    · omega
    · omega
    · exact absurd h hall
    · exact h
  rw [if_pos hshort, List.drop_zero]
  rw [List.drop_zero] at hlen
  rcases hrest with hsize | hsecond
  · -- the second read finds the end of the file
    rw [ends_at_end (by omega) (by omega), hsize, List.take_of_length_le le_rfl,
      List.take_of_length_le (by omega)]
  · generalize hc : d.firstRead file.length 0 count = c at *
    have hlt : c < file.length := by
      rw [secondRead] at hsecond
      omega
    have hread : count - c = min (d.limit (d.next 0 + 1))
        (min (count - (file.take c).length) (file.length - c)) := by
      rw [hlen]
      exact hsecond.symm
    have htake : file.take c ++ (file.drop c).take (count - c) = file.take count := by
      rw [← List.take_add, Nat.add_sub_cancel' hshort.le]
    rw [ends_read (by omega) hlt hread, htake, ends_full]
    rw [← htake, chunk_length (by omega)]
    omega

/-- A file with one byte that differs from the others. -/
def marked (size i : ℕ) : List Byte := (List.replicate size 0).set i 1

theorem length_marked (size i : ℕ) : (marked size i).length = size := by
  rw [marked, List.length_set, List.length_replicate]

theorem getElem?_marked {size i j : ℕ} (hi : i < size) :
    (marked size i)[j]? = some 1 ↔ j = i := by
  rw [marked, List.getElem?_set, List.length_replicate, List.getElem?_replicate]
  by_cases hj : i = j
  · simp [hj, hj ▸ hi]
  · simp [hj, Ne.symm hj]

/-- A file is not read as it is when a read is done at another position than the one behind the
bytes that have been read. -/
theorem not_ends_of_misplaced {size start : ℕ} (hopen : buf.length < count) (hpos : pos < size)
    (hne : pos ≠ start + buf.length)
    (h : ∀ o, Ends (marked size pos) d.result count 0 start [] o ↔
      Ends (marked size pos) d.result count call pos buf o) :
    ¬ Ends (marked size pos) d.result count 0 start []
      (.bytes (((marked size pos).drop start).take count)) := by
  intro hends
  have hbyte := next_byte hopen (by rwa [length_marked]) ((h _).mp hends)
  rw [(getElem?_marked hpos).mpr rfl, List.getElem?_take_of_lt hopen, List.getElem?_drop,
    getElem?_marked hpos] at hbyte
  exact hne hbyte.symm

/-- Every other way of splitting a file leaves a byte at a wrong place. -/
theorem whole_of_ends {size start : ℕ}
    (h : ∀ file : List Byte, file.length = size →
      Ends file d.result count 0 start [] (.bytes ((file.drop start).take count))) :
    d.Whole size start count := by
  rw [Whole]
  -- Were a read misplaced, a file with one marked byte there would tell.
  by_contra hnot
  push Not at hnot
  obtain ⟨hcount, hstart, hfirst, hzero⟩ := hnot
  have hlimit := d.limit_pos 0
  have hlimit' := d.limit_pos (d.next 0 + 1)
  generalize hc : d.firstRead size start count = c at hfirst
  have hc' : c = min (d.limit 0) (min count (size - start)) := by rw [← hc, firstRead]
  have hshort : c < count := by omega
  have hread : ∀ file : List Byte, file.length = size → ∀ o,
      (Ends file d.result count 0 start [] o ↔
        Ends file d.result count (d.next 0 + 1) c ((file.drop start).take c) o) := by
    intro file hsize o
    have hcfile : c = min (d.limit 0) (min (count - ([] : List Byte).length)
        (file.length - start)) := by rw [hsize, List.length_nil, Nat.sub_zero, hc']
    rw [ends_read (by rw [List.length_nil]; omega) (by omega) hcfile, List.nil_append,
      List.length_nil, Nat.sub_zero, if_pos hshort]
  have hlen : ∀ file : List Byte, file.length = size →
      ((file.drop start).take c).length = c := by
    intro file hsize
    rw [List.length_take, List.length_drop]
    omega
  -- from the start of the file the second read is misplaced, elsewhere the first one is
  rcases Nat.eq_zero_or_pos start with rfl | hpos
  · rw [hc] at hzero
    obtain ⟨hsize, hsecond⟩ := hzero rfl
    generalize hb : d.secondRead size count c = b at hsecond
    have hb' : b = min (d.limit (d.next 0 + 1)) (min (count - c) (size - c)) := by
      rw [← hb, secondRead]
    apply @not_ends_of_misplaced d count (d.next (d.next 0 + 1) + 1) b
      (((marked size b).drop 0).take c ++ ((marked size b).drop c).take b) size 0
    · rw [chunk_length (by rw [length_marked]; omega), hlen _ (length_marked size b)]
      omega
    · omega
    · rw [chunk_length (by rw [length_marked]; omega), hlen _ (length_marked size b)]
      omega
    · intro o
      rw [hread _ (length_marked size b), ends_read _ _ _, if_pos]
      · rw [hlen _ (length_marked size b)]
        omega
      · rw [hlen _ (length_marked size b)]
        omega
      · rw [length_marked]
        omega
      · rw [hlen _ (length_marked size b), length_marked, hb']
    · exact h _ (length_marked size b)
  · apply @not_ends_of_misplaced d count (d.next 0 + 1) c
      (((marked size c).drop start).take c) size start
    · rw [hlen _ (length_marked size c)]
      exact hshort
    · omega
    · rw [hlen _ (length_marked size c)]
      omega
    · exact hread _ (length_marked size c)
    · exact h _ (length_marked size c)

/-- The pieces do not matter exactly where no read is done at a wrong position. -/
theorem ends_iff_whole (d : Deliveries) (size start count : ℕ) :
    (∀ file : List Byte, file.length = size →
      Ends file d.result count 0 start [] (.bytes ((file.drop start).take count))) ↔
    d.Whole size start count := by
  refine ⟨whole_of_ends, ?_⟩
  intro h file hsize
  exact ends_of_whole (hsize ▸ h)

/-! ## Samples -/

theorem length_samples (l : List Byte) : (samples l).length = l.length / 2 := by
  fun_induction samples l with
  | case1 => rfl
  | case2 low => simp
  | case3 low high rest ih =>
    simp only [List.length_cons, ih]
    omega

theorem samples_take (l : List Byte) (n : ℕ) :
    samples (l.take (n * 2)) = (samples l).take n := by
  fun_induction samples l generalizing n with
  | case1 => rw [List.take_nil, List.take_nil, samples]
  | case2 low =>
    cases n with
    | zero => rfl
    | succ n => rw [List.take_of_length_le (by rw [List.length_singleton]; omega), samples,
        List.take_nil]
  | case3 low high rest ih =>
    cases n with
    | zero => rfl
    | succ n => rw [Nat.succ_mul, List.take_succ_cons, List.take_succ_cons, samples, ih,
        List.take_succ_cons]

theorem samples_injective {l l' : List Byte} (hl : l.length % 2 = 0) (hl' : l'.length % 2 = 0)
    (h : samples l = samples l') : l = l' := by
  fun_induction samples l generalizing l' with
  | case1 =>
    have hlength := congrArg List.length h
    rw [length_samples, List.length_nil] at hlength
    exact (List.length_eq_zero_iff.mp (by omega)).symm
  | case2 low => simp at hl
  | case3 low high rest ih =>
    fun_cases samples l' with
    | case1 => simp [samples] at h
    | case2 low' => simp at hl'
    | case3 low' high' rest' =>
      rw [samples, List.cons.injEq] at h
      have hlow : low = low' := by
        have hword := congrArg (BitVec.setWidth 8) h.1
        rwa [BitVec.setWidth_append_eq_right, BitVec.setWidth_append_eq_right] at hword
      have hhigh : high = high' := by
        rw [hlow] at h
        exact (BitVec.append_left_inj low').mp h.1
      rw [hlow, hhigh, ih _ _ h.2]
      · rw [List.length_cons, List.length_cons] at hl
        omega
      · rw [List.length_cons, List.length_cons] at hl'
        omega

/-- From the start of a file the loop fills the buffer or finds the end of the file. -/
theorem length_of_ends_start (h : Ends file d.result count call 0 [] (.bytes out)) :
    out.length = count ∨ out.length = file.length ∧ file.length ≤ count := by
  rcases Nat.eq_zero_or_pos count with rfl | hcount
  · have hout := (ends_full (Nat.zero_le _)).mp h
    rw [Loaded.bytes.injEq] at hout
    simp [hout]
  rcases Nat.eq_zero_or_pos file.length with hnil | hpos
  · have hout := (ends_at_end hcount hnil.le).mp h
    rw [Loaded.bytes.injEq] at hout
    simp [hout, hnil]
  obtain ⟨c, hc⟩ : ∃ c, c = min (d.limit call) (min (count - ([] : List Byte).length)
      (file.length - 0)) := ⟨_, rfl⟩
  have hlimit := d.limit_pos call
  have hlen := @chunk_length file 0 [] c (by omega)
  have hread := (ends_read hcount hpos hc).mp h
  rw [List.length_nil, Nat.sub_zero] at hc hread
  rw [List.length_nil, Nat.zero_add] at hlen
  by_cases hshort : c < count
  · rw [if_pos hshort] at hread
    by_cases hsize : c = file.length
    · have hout := (ends_at_end (by omega) hsize.ge).mp hread
      rw [Loaded.bytes.injEq] at hout
      rw [hout]
      omega
    · exact Or.inl (length_of_ends (by omega) (by omega) (by omega) hread)
  · have hout := (ends_full (by omega)).mp hread
    rw [Loaded.bytes.injEq] at hout
    rw [hout]
    omega

theorem countSamples_bytes {maxProbes : ℕ} {l : List Byte}
    (hl : l.length = maxProbes * 2 ∨ l.length % 2 = 0 ∧ l.length ≤ maxProbes * 2) :
    countSamples maxProbes (.bytes l) = .samples (samples l) := by
  have heven : ¬ (maxProbes * 2 - l.length) % 2 ≠ 0 := by omega
  rw [countSamples, if_neg heven, List.take_of_length_le]
  rw [length_samples]
  omega

theorem loadSamples_iff {maxProbes : ℕ} {o : LoadedSamples} :
    (∃ n, loadSamples n d.result (some file) maxProbes = some o) ↔
      ∃ r, Ends file d.result (maxProbes * 2) 0 0 [] r ∧ countSamples maxProbes r = o := by
  simp only [loadSamples, Option.map_eq_some_iff, Ends]
  constructor
  · rintro ⟨n, r, hr, ho⟩
    exact ⟨r, ⟨n, hr⟩, ho⟩
  · rintro ⟨r, ⟨n, hr⟩, ho⟩
    exact ⟨n, r, hr, ho⟩

theorem samples_of_whole {maxProbes : ℕ} (h : d.Whole file.length 0 (maxProbes * 2))
    (hsize : file.length % 2 = 0 ∨ maxProbes * 2 ≤ file.length) :
    ∃ n, loadSamples n d.result (some file) maxProbes =
      some (.samples ((samples file).take maxProbes)) := by
  have hends := ends_of_whole h
  rw [List.drop_zero] at hends
  rw [loadSamples_iff]
  refine ⟨_, hends, ?_⟩
  rw [countSamples_bytes, samples_take]
  rw [List.length_take]
  omega

/-- What the samples say about the bytes. -/
theorem ends_of_samples {maxProbes : ℕ} (h : ∃ n, loadSamples n d.result (some file) maxProbes =
      some (.samples ((samples file).take maxProbes))) :
    (file.length % 2 = 0 ∨ maxProbes * 2 ≤ file.length) ∧
      Ends file d.result (maxProbes * 2) 0 0 [] (.bytes (file.take (maxProbes * 2))) := by
  obtain ⟨out, -, hends⟩ := d.ends_exists file (maxProbes * 2) 0 0 []
  obtain ⟨r, hr, hsamples⟩ := loadSamples_iff.mp h
  have hout := (hends _).mpr rfl
  have hlength := length_of_ends_start hout
  rw [ends_unique hr hout] at hsamples
  have heven : (maxProbes * 2 - out.length) % 2 = 0 := by
    by_contra hodd
    rw [countSamples, if_pos (by omega)] at hsamples
    simp at hsamples
  rw [countSamples_bytes (by omega), LoadedSamples.samples.injEq, ← samples_take] at hsamples
  have hcount := congrArg List.length hsamples
  rw [length_samples, length_samples, List.length_take] at hcount
  refine ⟨by omega, ?_⟩
  rwa [samples_injective (by omega) (by rw [List.length_take]; omega) hsamples] at hout

/-- The samples of a file do not depend on the pieces exactly where its bytes do not and no half of
a sample is read. -/
theorem samples_iff_whole (d : Deliveries) (size maxProbes : ℕ) :
    (∀ file : List Byte, file.length = size →
      ∃ n, loadSamples n d.result (some file) maxProbes =
        some (.samples ((samples file).take maxProbes))) ↔
    d.Whole size 0 (maxProbes * 2) ∧ (size % 2 = 0 ∨ maxProbes * 2 ≤ size) := by
  constructor
  · intro h
    refine ⟨?_, ?_⟩
    · rw [← ends_iff_whole]
      intro file hsize
      rw [List.drop_zero]
      exact (ends_of_samples (h file hsize)).2
    · have hzeros := (ends_of_samples (h (List.replicate size 0) List.length_replicate)).1
      rwa [List.length_replicate] at hzeros
  · rintro ⟨hwhole, heven⟩ file rfl
    exact samples_of_whole hwhole heven

/-- A block that is made of these samples holds what one is that is made of the file. -/
theorem loadFromFile_of_whole {b : RealDatablock} (prec : ℕ)
    (h : d.Whole file.length 0 (b.maxProbes * 2))
    (hsize : file.length % 2 = 0 ∨ b.maxProbes * 2 ≤ file.length) :
    ∃ n buf, loadSamples n d.result (some file) b.maxProbes = some (.samples buf) ∧
      RealDatablock.loadFromFile prec buf b = RealDatablock.loadFromFile prec (samples file) b := by
  obtain ⟨n, hn⟩ := samples_of_whole h hsize
  refine ⟨n, _, hn, ?_⟩
  rw [RealDatablock.loadFromFile, RealDatablock.loadFromFile, szbLoadData_start,
    szbLoadData_start, List.take_take, min_self]

/-- A file of one sample, which is read with one call. -/
theorem loadFromFile_sample :
    ∃ n buf, loadSamples n (fun _ => .upTo 1) (some [1, 0]) (Datablock.new 2020 1).maxProbes =
        some (.samples buf) ∧
      RealDatablock.loadFromFile 0 buf ⟨Datablock.new 2020 1, 0⟩ =
        RealDatablock.loadFromFile 0 (samples [1, 0]) ⟨Datablock.new 2020 1, 0⟩ := by
  apply loadFromFile_of_whole
    (d := ⟨fun _ => .upTo 1, fun _ => by decide, fun n => ⟨n, le_rfl, by decide⟩⟩)
    (b := ⟨Datablock.new 2020 1, 0⟩) 0
  · exact Or.inr (Or.inr (Or.inr ⟨rfl, Or.inl rfl⟩))
  · exact Or.inl rfl

/-! ## The two functions -/

/-- `szb_load_data` and `LoadFromFile` come to an end, and what they load does not depend on the
pieces exactly where no read is done at a wrong position. -/
theorem pieces_iff (d : Deliveries) (size start count maxProbes : ℕ) :
    ((∀ file : List Byte, file.length = size →
        ∃ n, loadData n d.result (some file) start count =
          some (.bytes ((file.drop start).take count))) ↔ d.Whole size start count) ∧
      ((∀ file : List Byte, file.length = size →
        ∃ n, loadSamples n d.result (some file) maxProbes =
          some (.samples ((samples file).take maxProbes))) ↔
        d.Whole size 0 (maxProbes * 2) ∧ (size % 2 = 0 ∨ maxProbes * 2 ≤ size)) ∧
      ∀ file : List Byte,
        (∃ n o, loadData n d.result (some file) start count = some o) ∧
          ∃ n o, loadSamples n d.result (some file) maxProbes = some o := by
  refine ⟨d.ends_iff_whole size start count, d.samples_iff_whole size maxProbes, ?_⟩
  intro file
  constructor
  · obtain ⟨out, -, hends⟩ := d.ends_exists file count 0 start []
    obtain ⟨n, hn⟩ := (hends _).mpr rfl
    exact ⟨n, _, hn⟩
  · obtain ⟨out, -, hends⟩ := d.ends_exists file (maxProbes * 2) 0 0 []
    obtain ⟨n, hn⟩ := loadSamples_iff.mpr ⟨_, (hends _).mpr rfl, rfl⟩
    exact ⟨n, _, hn⟩

/-- Every read delivers one byte. -/
def oneByOne : Deliveries where
  result _ := .upTo 0
  not_failed _ := by decide
  delivers n := ⟨n, le_rfl, by decide⟩

/-- Of the bytes 1, 2, 3, 4, read one by one, the second is read three times. -/
theorem oneByOne_not_pieces :
    ¬ ∀ (d : Deliveries) (file : List Byte) (start count maxProbes : ℕ),
      (∃ n, loadData n d.result (some file) start count =
        some (.bytes ((file.drop start).take count))) ∧
      ∃ n, loadSamples n d.result (some file) maxProbes =
        some (.samples ((samples file).take maxProbes)) := by
  intro h
  have hclaimed := (h oneByOne [1, 2, 3, 4] 0 4 0).1
  have hread : Ends [1, 2, 3, 4] oneByOne.result 4 0 0 [] (.bytes [1, 2, 2, 2]) :=
    ⟨5, by decide⟩
  have hsame := ends_unique hclaimed hread
  revert hsame
  decide

end Deliveries
end FileReading
end Szbase
end Szarp
