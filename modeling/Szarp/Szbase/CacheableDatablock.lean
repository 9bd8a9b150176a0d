import Szarp.Lib.BigEndian
import Szarp.Lib.Dump
import Szarp.Lib.Numeral
import Szarp.Szbase.Date

/-!
# Cached month blocks

`CacheableDatablock::Cache` and `CacheableDatablock::LoadFromCache`: the fixed probes of a block
are dumped to a file when the block goes, and the file is read when the block is made again.
-/

namespace Szarp
namespace Szbase

open Numeral

/-! ## Probes -/

/-- `SZBASE_TYPE`: the bits of a double. -/
abbrev Double := BitVec 64

/-- `IS_SZB_NODATA`, that is `isnan`: an exponent of ones and a mantissa that is not zero. -/
def isSzbNodata (d : Double) : Bool := d.extractLsb' 52 11 == 0x7FF#11 && d.extractLsb' 0 52 != 0#52

def szbNodata : Double := 0x7FF8000000000000#64

/-- How an array of probes lies in memory. -/
def doubleLayout : Layout Double where
  width := 8
  encode d := (BigEndian.encode 8 d.toNat).reverse
  decode bs := BitVec.ofNat 64 (BigEndian.decode bs.reverse)
  encode_length d := by rw [List.length_reverse, BigEndian.encode_length]
  decode_encode d := by
    have hd : d.toNat < 256 ^ 8 := d.isLt
    rw [List.reverse_reverse, BigEndian.decode_encode hd, BitVec.ofNat_toNat, BitVec.setWidth_eq]

/-! ## Blocks -/

structure BlockKey where
  szbaseName : List Char
  year : ℤ
  month : ℕ
  year_pos : 0 < year
  probecnt_pos : 0 < szbProbecnt year month

def BlockKey.maxProbes (k : BlockKey) : ℕ := (szbProbecnt k.year k.month).toNat

/-- A block of the parameter and the month of `k`; a negative index stands for no data. -/
structure CacheBlock (k : BlockKey) where
  cachepath : List Char
  initialized : Bool
  data : List Double
  fixedProbesCount : ℕ
  firstDataProbeIndex : ℤ
  lastDataProbeIndex : ℤ
  blockTimestamp : ℤ
  data_length : data.length = k.maxProbes
  fixed_le : fixedProbesCount ≤ k.maxProbes

structure CacheFile where
  bytes : List UInt8
  /-- Whether `file_size` answers. -/
  hasSize : Bool
  /-- The answer of `last_write_time`. -/
  mtime : Option ℤ
  /-- Whether the file can be opened for reading. -/
  opens : Bool

/-- What `Cache` and `LoadFromCache` use of the process, the buffer and the disk. -/
structure CacheSite where
  writeCache : Bool
  home : Option (List Char)
  homeExists : Bool
  bufferPrefix : List Char
  cachepoison : Bool
  configurationDate : ℤ
  /-- The time of `szbase_stamp`, where it can be read. -/
  stampTime : Option ℤ
  /-- Whether the directory of the file is there or can be made. -/
  directory : Bool
  /-- Whether the file can be opened for writing. -/
  writable : Bool
  files : List Char → Option CacheFile

/-- `operator/` of paths. -/
def slash (p q : List Char) : List Char :=
  if q = [] then p
  else if p = [] ∨ p.getLast? = some '/' ∨ q.head? = some '/' then p ++ q
  else p ++ '/' :: q

def getBlockRelativePath (szbaseName : List Char) (year : ℤ) (month : ℕ) : List Char :=
  if month < 1 ∨ month > 12 then []
  else if year < minYear ∨ year > maxYear then []
  else slash szbaseName (padded 4 year.toNat ++ padded 2 month ++ ['.', 's', 'z', 'b'])

namespace CacheSite

def getCacheRootDirPath (s : CacheSite) : List Char :=
  match s.home with
  | none => []
  | some home =>
    if s.homeExists then
      slash (slash (slash (slash home ['.', 's', 'z', 'a', 'r', 'p'])
        ['s', 'z', 'b', 'a', 's', 'e']) ['c', 'a', 'c', 'h', 'e']) s.bufferPrefix
    else []

def getCacheFilePath (s : CacheSite) (k : BlockKey) : List Char :=
  if s.getCacheRootDirPath = [] then []
  else slash s.getCacheRootDirPath (getBlockRelativePath k.szbaseName k.year k.month)

def createCacheDirectory (s : CacheSite) : Bool := s.home.isSome && s.directory

/-- A block as its constructor has it when `LoadFromCache` is called, whatever its memory holds. -/
def construct (s : CacheSite) (k : BlockKey) (memory : Vector Double k.maxProbes) :
    CacheBlock k where
  cachepath := s.getCacheFilePath k
  initialized := true
  data := memory.toList
  fixedProbesCount := 0
  firstDataProbeIndex := -1
  lastDataProbeIndex := -1
  blockTimestamp := -1
  data_length := memory.length_toList
  fixed_le := Nat.zero_le _

variable {k : BlockKey}

/-! ## Writing -/

/-- The checks of `Cache` up to the writing of the file. -/
def Caches (s : CacheSite) (b : CacheBlock k) : Prop :=
  s.writeCache = true ∧ b.initialized = true ∧ s.cachepoison = false ∧ 0 < b.fixedProbesCount ∧
    b.cachepath ≠ [] ∧ s.createCacheDirectory = true ∧ s.writable = true

instance (s : CacheSite) (b : CacheBlock k) : Decidable (s.Caches b) := by
  unfold Caches
  infer_instance

/-- `Cache` at the time `now`. -/
def cache (s : CacheSite) (b : CacheBlock k) (now : ℤ) : CacheSite :=
  if s.Caches b then
    let dump := doubleLayout.dump (b.data.take b.fixedProbesCount)
    { s with files := Function.update s.files b.cachepath (some ⟨dump, true, some now, true⟩) }
  else s

/-! ## Reading -/

def toInt (v : ℤ) : ℤ := v.bmod (2 ^ 32)

/-- The conversion to `size_t`. -/
def toSize (v : ℤ) : ℤ := v % 2 ^ 64

def isCacheFileValid (s : CacheSite) (cachepath : List Char) : Option (ℤ × ℤ) :=
  match s.files cachepath with
  | none => none
  | some file =>
    if file.hasSize then
      match file.mtime with
      | none => none
      | some mtime =>
        let probes := toInt file.bytes.length
        if toSize probes % 8 ≠ 0 then none
        else if mtime < s.configurationDate then none
        else
          let probes := toInt (toSize probes / 8)
          match s.stampTime with
          | none => some (probes, mtime)
          | some bmt => if mtime > bmt then some (probes, mtime) else none
    else none

/-- A stream after `read`: the bytes that were read, and its flags. -/
structure Stream where
  got : List UInt8
  fail : Bool
  eof : Bool

/-- A file that is not open fails at once; a read that comes to the end of the file sets both
flags.  Of a negative number nothing is read. -/
def readStream (file : Option CacheFile) (count : ℤ) : Stream :=
  match file with
  | none => ⟨[], true, false⟩
  | some file =>
    if file.opens then
      let got := file.bytes.take count.toNat
      ⟨got, (got.length : ℤ) ≠ count, (got.length : ℤ) ≠ count⟩
    else ⟨[], true, false⟩

/-- The loop over the probes below `n` for the last one with `p`. -/
def lastBelow (p : ℕ → Bool) : ℕ → Option ℕ
  | 0 => none
  | i + 1 => if p i then some i else lastBelow p i

/-- The two loops over the fixed probes of a block for its first and last data. -/
def findIndices (b : CacheBlock k) : CacheBlock k :=
  let hasData i := !isSzbNodata (b.data.getD i szbNodata)
  let first := match (List.range b.fixedProbesCount).find? hasData with
    | some i => (i : ℤ)
    | none => b.firstDataProbeIndex
  let last := if first ≥ 0 then
      match lastBelow hasData b.fixedProbesCount with
      | some i => (i : ℤ)
      | none => b.lastDataProbeIndex
    else b.lastDataProbeIndex
  { b with firstDataProbeIndex := first, lastDataProbeIndex := last }

/-- A run of `LoadFromCache`: its result, `none` when an assertion fails, the block it leaves, and
the places of the data array that it stored to, inside the array or not. -/
structure LoadRun (k : BlockKey) where
  result : Option Bool
  block : CacheBlock k
  written : List ℕ

/-- `LoadFromCache` once the file is open and read. -/
def loadStream (b : CacheBlock k) (probes : ℤ) (ifs : Stream) : LoadRun k :=
  let read := Region.storeFrom 0 (doubleLayout.values (ifs.got.length / 8) ifs.got) ⟨b.data, []⟩
  let b := { b with
    data := read.cells
    data_length := by rw [Region.storeFrom_length, b.data_length] }
  if ifs.fail && !ifs.eof then ⟨some false, b, read.written⟩
  else if (ifs.got.length : ℤ) ≠ 8 * probes then ⟨none, b, read.written⟩
  else if h : probes ≤ k.maxProbes then
    let fixed := probes.toNat
    let filled := Region.storeFrom fixed (List.replicate (k.maxProbes - fixed) szbNodata) read
    let b := { b with
      data := filled.cells
      fixedProbesCount := fixed
      data_length := by rw [Region.storeFrom_length, b.data_length]
      fixed_le := by omega }
    ⟨some true, findIndices b, filled.written⟩
  else ⟨none, b, read.written⟩

def loadFromCache (s : CacheSite) (b : CacheBlock k) : LoadRun k :=
  if b.cachepath = [] then ⟨some false, b, []⟩
  else
    match s.isCacheFileValid b.cachepath with
    | none => ⟨some false, b, []⟩
    | some (probes, mod) =>
      loadStream { b with blockTimestamp := mod } probes
        (readStream (s.files b.cachepath) ((8 * toSize probes).bmod (2 ^ 64)))

/-! ## The number of probes of a file -/

theorem toInt_eq (n : ℤ) :
    toInt n = if n % 4294967296 < 2147483648 then n % 4294967296
      else n % 4294967296 - 4294967296 := by
  rw [toInt, Int.bmod]
  norm_num

theorem toSize_toInt_mod (n : ℤ) : toSize (toInt n) % 8 = n % 8 := by
  rw [toSize, toInt_eq]
  split_ifs <;> omega

theorem toInt_toSize_div {n : ℤ} (h : n % 8 = 0) :
    8 * toInt (toSize (toInt n) / 8) = toInt n := by
  rw [toInt_eq (toSize (toInt n) / 8), toSize, toInt_eq]
  split_ifs <;> omega

theorem bmod_toSize {n : ℤ} (h : n % 8 = 0) :
    (8 * toSize (toInt (toSize (toInt n) / 8))).bmod (2 ^ 64) = toInt n := by
  have hdiv := toInt_toSize_div h
  have hlow : -2147483648 ≤ toInt n := by
    rw [toInt_eq]
    split_ifs <;> omega
  have hhigh : toInt n < 2147483648 := by
    rw [toInt_eq]
    split_ifs <;> omega
  generalize toInt (toSize (toInt n) / 8) = q at hdiv
  have hcong : (8 * toSize q) % 18446744073709551616 = toInt n % 18446744073709551616 := by
    rw [toSize, ← hdiv]
    omega
  rw [Int.bmod]
  norm_num
  rw [hcong]
  split_ifs <;> omega

theorem maxProbes_le (k : BlockKey) : k.maxProbes ≤ 4464 := by
  obtain ⟨hy, hy', hm, hm'⟩ := valid_of_szbProbecnt k.probecnt_pos
  rw [BlockKey.maxProbes, szbProbecnt_eq hy hy' hm hm']
  have hlen := Gregorian.monthLength_pos k.year k.month
  omega

/-! ## Valid files -/

/-- A file that `IsCacheFileValid` accepts: of whole probes, not older than the configuration and
younger than the stamp of the base. -/
def Current (s : CacheSite) (file : CacheFile) : Prop :=
  file.hasSize = true ∧ file.bytes.length % 8 = 0 ∧
    ∃ mtime, file.mtime = some mtime ∧ s.configurationDate ≤ mtime ∧
      ∀ bmt, s.stampTime = some bmt → bmt < mtime

theorem isCacheFileValid_eq_some {s : CacheSite} {cachepath : List Char} {probes mod : ℤ}
    (h : s.isCacheFileValid cachepath = some (probes, mod)) :
    ∃ file, s.files cachepath = some file ∧ s.Current file ∧
      probes = toInt (toSize (toInt file.bytes.length) / 8) := by
  rw [isCacheFileValid] at h
  cases hfile : s.files cachepath with
  | none =>
    rw [hfile] at h
    exact absurd h (by simp)
  | some file =>
    rw [hfile] at h
    dsimp only at h
    refine ⟨file, rfl, ?_⟩
    by_cases hsize : file.hasSize = true
    · rw [if_pos hsize] at h
      cases hmtime : file.mtime with
      | none =>
        rw [hmtime] at h
        exact absurd h (by simp)
      | some mtime =>
        rw [hmtime] at h
        dsimp only at h
        rw [toSize_toInt_mod] at h
        -- the checks of the function in their order; all but the last lead to no result
        by_cases hmod : (file.bytes.length : ℤ) % 8 ≠ 0
        · rw [if_pos hmod] at h
          exact absurd h (by simp)
        · rw [if_neg hmod] at h
          by_cases hconf : mtime < s.configurationDate
          · rw [if_pos hconf] at h
            exact absurd h (by simp)
          · rw [if_neg hconf] at h
            have hwhole : file.bytes.length % 8 = 0 := by omega
            cases hstamp : s.stampTime with
            | none =>
              rw [hstamp] at h
              simp only [Option.some.injEq, Prod.mk.injEq] at h
              refine ⟨⟨hsize, hwhole, mtime, hmtime, by omega, by simp [hstamp]⟩, h.1.symm⟩
            | some bmt =>
              rw [hstamp] at h
              dsimp only at h
              by_cases hbmt : mtime > bmt
              · rw [if_pos hbmt] at h
                simp only [Option.some.injEq, Prod.mk.injEq] at h
                refine ⟨⟨hsize, hwhole, mtime, hmtime, by omega, ?_⟩, h.1.symm⟩
                intro bmt' hbmt'
                rw [hstamp] at hbmt'
                cases hbmt'
                exact hbmt
              · rw [if_neg hbmt] at h
                exact absurd h (by simp)
    · rw [if_neg hsize] at h
      exact absurd h (by simp)

theorem isCacheFileValid_current {s : CacheSite} {cachepath : List Char} {file : CacheFile}
    (hfile : s.files cachepath = some file) (h : s.Current file) :
    ∃ mod, s.isCacheFileValid cachepath =
      some (toInt (toSize (toInt file.bytes.length) / 8), mod) := by
  obtain ⟨hsize, hwhole, mtime, hmtime, hconf, hstamp⟩ := h
  refine ⟨mtime, ?_⟩
  have hmod : ¬ (file.bytes.length : ℤ) % 8 ≠ 0 := by omega
  rw [isCacheFileValid, hfile]
  dsimp only
  rw [if_pos hsize, hmtime]
  dsimp only
  rw [toSize_toInt_mod, if_neg hmod, if_neg (by omega)]
  cases hbmt : s.stampTime with
  | none => rfl
  | some bmt =>
    dsimp only
    rw [if_pos (hstamp bmt hbmt)]

/-! ## Loading -/

/-- Place `i` of the block holds a probe with data. -/
def HasData (b : CacheBlock k) (i : ℕ) : Prop :=
  isSzbNodata (b.data.getD i szbNodata) = false

/-- The indices are those of the first and the last data among the fixed probes. -/
structure Indexed (b : CacheBlock k) : Prop where
  first : (∃ i : ℕ, b.firstDataProbeIndex = i ∧ IsLeast {j | j < b.fixedProbesCount ∧ HasData b j} i)
    ∨ b.firstDataProbeIndex < 0 ∧ ∀ j < b.fixedProbesCount, ¬ HasData b j
  last : (∃ i : ℕ, b.lastDataProbeIndex = i ∧ IsGreatest {j | j < b.fixedProbesCount ∧ HasData b j} i)
    ∨ b.lastDataProbeIndex < 0 ∧ ∀ j < b.fixedProbesCount, ¬ HasData b j

structure HoldsPrefix (bytes : List UInt8) (b : CacheBlock k) : Prop where
  length_le : 8 * b.fixedProbesCount ≤ bytes.length
  data : b.data = doubleLayout.values b.fixedProbesCount bytes ++
    List.replicate (k.maxProbes - b.fixedProbesCount) szbNodata
  indexed : Indexed b

theorem lastBelow_eq_none {p : ℕ → Bool} {n : ℕ} : lastBelow p n = none ↔ ∀ i < n, p i = false := by
  induction n with
  | zero => simp [lastBelow]
  | succ n ih =>
    rw [lastBelow, Nat.forall_lt_succ_right]
    cases hp : p n with
    | false => simp [ih]
    | true => simp

theorem lastBelow_eq_some {p : ℕ → Bool} {n i : ℕ} (h : lastBelow p n = some i) :
    IsGreatest {j | j < n ∧ p j = true} i := by
  induction n with
  | zero => exact absurd h (by simp [lastBelow])
  | succ n ih =>
    rw [lastBelow] at h
    cases hp : p n with
    | false =>
      rw [hp] at h
      obtain ⟨hmem, hmax⟩ := ih h
      refine ⟨⟨hmem.1.trans (Nat.lt_succ_self n), hmem.2⟩, ?_⟩
      intro j hj
      refine hmax ⟨?_, hj.2⟩
      have hne : j ≠ n := by
        intro hjn
        have hpj : p j = true := hj.2
        rw [hjn, hp] at hpj
        exact absurd hpj (by decide)
      have := hj.1
      omega
    | true =>
      rw [hp] at h
      have hin : n = i := by simpa using h
      subst hin
      exact ⟨⟨Nat.lt_succ_self n, hp⟩, fun j hj => Nat.lt_succ_iff.mp hj.1⟩

theorem find?_range_isLeast {p : ℕ → Bool} {n i : ℕ} (h : (List.range n).find? p = some i) :
    IsLeast {j | j < n ∧ p j = true} i := by
  rw [List.find?_range_eq_some] at h
  refine ⟨⟨List.mem_range.mp h.2.1, h.1⟩, ?_⟩
  intro j hj
  by_contra hlt
  have hno := h.2.2 j (by omega)
  rw [hj.2] at hno
  exact absurd hno (by decide)

/-- The loops find the indices when there were none before. -/
theorem findIndices_indexed {b : CacheBlock k} (hfirst : b.firstDataProbeIndex < 0)
    (hlast : b.lastDataProbeIndex < 0) : Indexed (findIndices b) := by
  have hset : {j | j < b.fixedProbesCount ∧ HasData b j} = {j | j < b.fixedProbesCount ∧
      (!isSzbNodata (b.data.getD j szbNodata)) = true} := by
    ext j
    simp [HasData]
  cases hfind : (List.range b.fixedProbesCount).find?
      (fun i => !isSzbNodata (b.data.getD i szbNodata)) with
  | none =>
    have hnone : ∀ j < b.fixedProbesCount, ¬ HasData b j := by
      intro j hj hdata
      rw [List.find?_eq_none] at hfind
      apply hfind j (List.mem_range.mpr hj)
      rw [HasData] at hdata
      rw [hdata, Bool.not_false]
    constructor
    · right
      refine ⟨?_, hnone⟩
      simp only [findIndices, hfind]
      exact hfirst
    · right
      refine ⟨?_, hnone⟩
      simp only [findIndices, hfind]
      rw [if_neg (by omega)]
      exact hlast
  | some i =>
    have hleast := find?_range_isLeast hfind
    cases hbelow : lastBelow (fun i => !isSzbNodata (b.data.getD i szbNodata))
        b.fixedProbesCount with
    | none =>
      have hno := lastBelow_eq_none.mp hbelow i hleast.1.1
      exact absurd (hleast.1.2.symm.trans hno) (by decide)
    | some l =>
      have hgreatest := lastBelow_eq_some hbelow
      constructor
      · left
        refine ⟨i, ?_, ?_⟩
        · simp only [findIndices, hfind]
        · exact hset ▸ hleast
      · left
        refine ⟨l, ?_, ?_⟩
        · simp only [findIndices, hfind, hbelow]
          rw [if_pos (Int.natCast_nonneg i)]
        · exact hset ▸ hgreatest

def Source (s : CacheSite) (b : CacheBlock k) (file : CacheFile) : Prop :=
  b.cachepath ≠ [] ∧ s.files b.cachepath = some file ∧ s.Current file ∧ file.opens = true

/-- Without such a file the result is `false`, and nothing is stored. -/
theorem loadFromCache_refused {s : CacheSite} {b : CacheBlock k}
    (h : ∀ file, ¬ s.Source b file) :
    (s.loadFromCache b).result = some false ∧ (s.loadFromCache b).written = [] := by
  rw [loadFromCache]
  by_cases hpath : b.cachepath = []
  · rw [if_pos hpath]
    exact ⟨rfl, rfl⟩
  · rw [if_neg hpath]
    cases hvalid : s.isCacheFileValid b.cachepath with
    | none => exact ⟨rfl, rfl⟩
    | some r =>
      obtain ⟨probes, mod⟩ := r
      obtain ⟨file, hfile, hcurrent, -⟩ := isCacheFileValid_eq_some hvalid
      have hopens : ¬ file.opens = true := fun hopens => h file ⟨hpath, hfile, hcurrent, hopens⟩
      have hread (count : ℤ) : readStream (s.files b.cachepath) count = ⟨[], true, false⟩ := by
        rw [hfile, readStream]
        dsimp only
        rw [if_neg hopens]
      dsimp only
      rw [hread]
      exact ⟨rfl, rfl⟩

theorem loadStream_asserts {b : CacheBlock k} {probes : ℤ} {ifs : Stream} (heof : ifs.eof = ifs.fail)
    (h : ¬ ((ifs.got.length : ℤ) = 8 * probes ∧ probes ≤ k.maxProbes)) :
    (loadStream b probes ifs).result = none ∧ (loadStream b probes ifs).written =
      List.range' 0 (ifs.got.length / 8) := by
  have hflags : ¬ (ifs.fail && !ifs.eof) = true := by
    rw [heof]
    simp
  have hwritten := Region.storeFrom_written 0 (doubleLayout.values (ifs.got.length / 8) ifs.got)
    ⟨b.data, []⟩
  rw [Layout.values_length, List.nil_append] at hwritten
  simp only [loadStream]
  rw [if_neg hflags]
  by_cases hlen : (ifs.got.length : ℤ) = 8 * probes
  · rw [if_neg (not_not_intro hlen), dif_neg fun hle => h ⟨hlen, hle⟩]
    exact ⟨rfl, hwritten⟩
  · rw [if_pos hlen]
    exact ⟨rfl, hwritten⟩

theorem loadStream_loads {b : CacheBlock k} {n : ℕ} {ifs : Stream} (heof : ifs.eof = ifs.fail)
    (hlen : ifs.got.length = 8 * n) (hn : n ≤ k.maxProbes) (hfirst : b.firstDataProbeIndex < 0)
    (hlast : b.lastDataProbeIndex < 0) :
    (loadStream b n ifs).result = some true ∧
      (loadStream b n ifs).written = List.range' 0 k.maxProbes ∧
      (loadStream b n ifs).block.fixedProbesCount = n ∧
      HoldsPrefix ifs.got (loadStream b n ifs).block := by
  have hflags : ¬ (ifs.fail && !ifs.eof) = true := by
    rw [heof]
    simp
  have hdiv : ifs.got.length / 8 = n := by omega
  have hlen' : ¬ (ifs.got.length : ℤ) ≠ 8 * (n : ℤ) := by omega
  have hle : (n : ℤ) ≤ k.maxProbes := by omega
  have hroom : (doubleLayout.values n ifs.got).length ≤ b.data.length := by
    rw [Layout.values_length, b.data_length]
    omega
  have hfill := @Region.storeFrom_fill _ _ ⟨b.data, []⟩ szbNodata hroom
  rw [Layout.values_length, b.data_length, List.nil_append] at hfill
  simp only [loadStream]
  rw [if_neg hflags, if_neg hlen', dif_pos hle]
  simp only [Int.toNat_natCast, hdiv, hfill]
  refine ⟨trivial, trivial, rfl, ?_, rfl, findIndices_indexed hfirst hlast⟩
  change 8 * n ≤ ifs.got.length
  omega

theorem loadFromCache_source {s : CacheSite} {b : CacheBlock k} {file : CacheFile}
    (h : s.Source b file) :
    ∃ probes mod, 8 * probes = toInt file.bytes.length ∧ s.loadFromCache b =
      loadStream { b with blockTimestamp := mod } probes
        (readStream (some file) (toInt file.bytes.length)) := by
  obtain ⟨hpath, hfile, hcurrent, -⟩ := h
  have hwhole : (file.bytes.length : ℤ) % 8 = 0 := by
    have := hcurrent.2.1
    omega
  obtain ⟨mod, hvalid⟩ := isCacheFileValid_current hfile hcurrent
  refine ⟨_, mod, toInt_toSize_div hwhole, ?_⟩
  rw [loadFromCache, if_neg hpath, hvalid]
  dsimp only
  rw [hfile, bmod_toSize hwhole]

theorem readStream_opens {file : CacheFile} (h : file.opens = true) (count : ℤ) :
    (readStream (some file) count).got = file.bytes.take count.toNat ∧
      (readStream (some file) count).eof = (readStream (some file) count).fail := by
  rw [readStream]
  dsimp only
  rw [if_pos h]
  exact ⟨rfl, rfl⟩

theorem loadFromCache_fits {s : CacheSite} {b : CacheBlock k} {file : CacheFile}
    (h : s.Source b file) (hfit : file.bytes.length % 2 ^ 32 ≤ 8 * k.maxProbes)
    (hfirst : b.firstDataProbeIndex < 0) (hlast : b.lastDataProbeIndex < 0) :
    (s.loadFromCache b).result = some true ∧
      (s.loadFromCache b).written = List.range' 0 k.maxProbes ∧
      8 * (s.loadFromCache b).block.fixedProbesCount = file.bytes.length % 2 ^ 32 ∧
      HoldsPrefix file.bytes (s.loadFromCache b).block := by
  have hmax := maxProbes_le k
  obtain ⟨probes, mod, hprobes, hload⟩ := loadFromCache_source h
  obtain ⟨hgot, heof⟩ := readStream_opens h.2.2.2 (toInt file.bytes.length)
  have hint : toInt file.bytes.length = (file.bytes.length % 2 ^ 32 : ℕ) := by
    rw [toInt_eq]
    split_ifs <;> omega
  obtain ⟨n, rfl⟩ : ∃ n : ℕ, probes = n := ⟨probes.toNat, by omega⟩
  have hlen : (readStream (some file) (toInt file.bytes.length)).got.length = 8 * n := by
    rw [hgot, List.length_take]
    omega
  obtain ⟨hresult, hwritten, hfixed, hholds⟩ := loadStream_loads
    (b := { b with blockTimestamp := mod }) heof hlen (by omega) hfirst hlast
  rw [hload]
  refine ⟨hresult, hwritten, by omega, ?_, ?_, hholds.indexed⟩
  · omega
  · have hdata := hholds.data
    rw [hgot, Layout.values_take _ (by rw [hfixed]; change 8 * n ≤ _; omega)] at hdata
    exact hdata

/-- A longer file fails an assertion, after all its probes were stored. -/
theorem loadFromCache_asserts {s : CacheSite} {b : CacheBlock k} {file : CacheFile}
    (h : s.Source b file) (hfit : ¬ file.bytes.length % 2 ^ 32 ≤ 8 * k.maxProbes) :
    (s.loadFromCache b).result = none ∧ (s.loadFromCache b).written =
      List.range' 0 ((toInt file.bytes.length).toNat / 8) := by
  obtain ⟨probes, mod, hprobes, hload⟩ := loadFromCache_source h
  obtain ⟨hgot, heof⟩ := readStream_opens h.2.2.2 (toInt file.bytes.length)
  have hlen : (readStream (some file) (toInt file.bytes.length)).got.length =
      (toInt file.bytes.length).toNat := by
    rw [hgot, List.length_take, toInt_eq]
    split_ifs <;> omega
  have hnot : ¬ (((readStream (some file) (toInt file.bytes.length)).got.length : ℤ) = 8 * probes ∧
      probes ≤ k.maxProbes) := by
    rw [hlen]
    rw [toInt_eq] at hprobes ⊢
    split_ifs at hprobes ⊢ <;> omega
  obtain ⟨hresult, hwritten⟩ := loadStream_asserts (b := { b with blockTimestamp := mod }) heof hnot
  rw [hload, ← hlen]
  exact ⟨hresult, hwritten⟩

/-! ## What the cache promises -/

/-- `LoadFromCache` stays inside the array, and returns `false` or loads a prefix of the file. -/
def Safe (s : CacheSite) (b : CacheBlock k) : Prop :=
  (∀ i ∈ (s.loadFromCache b).written, i < k.maxProbes) ∧
    ((s.loadFromCache b).result = some false ∨
      (s.loadFromCache b).result = some true ∧ ∃ file, s.files b.cachepath = some file ∧
        HoldsPrefix file.bytes (s.loadFromCache b).block)

/-- A saved block is loaded again: the fixed probes exactly, no data behind them, and the indices
of the first and the last data. -/
structure Restored (saved loaded : CacheBlock k) : Prop where
  fixed : loaded.fixedProbesCount = saved.fixedProbesCount
  data : loaded.data = saved.data.take saved.fixedProbesCount ++
    List.replicate (k.maxProbes - saved.fixedProbesCount) szbNodata
  indexed : Indexed loaded

/-- A current file that `Cache` wrote for a block of the same parameter and month restores it. -/
def Restores (s : CacheSite) (b : CacheBlock k) : Prop :=
  ∀ (s₀ : CacheSite) (saved : CacheBlock k) (now : ℤ), s₀.Caches saved →
    s.files b.cachepath = (s₀.cache saved now).files saved.cachepath →
      ∀ file, s.Source b file →
        (s.loadFromCache b).result = some true ∧ Restored saved (s.loadFromCache b).block

/-- The length of the file, as an `int` takes it, is that of no more probes than the block has,
where there is a current file that can be opened. -/
def Fits (s : CacheSite) (k : BlockKey) : Prop :=
  ∀ file, s.getCacheFilePath k ≠ [] → s.files (s.getCacheFilePath k) = some file →
    s.Current file → file.opens = true → file.bytes.length % 2 ^ 32 ≤ 8 * k.maxProbes

theorem restores_of_constructed (s : CacheSite) (memory : Vector Double k.maxProbes) :
    s.Restores (s.construct k memory) := by
  intro s₀ saved now hcaches hsame file hsource
  have hmax := maxProbes_le k
  have hfixedLe := saved.fixed_le
  have htake : (saved.data.take saved.fixedProbesCount).length = saved.fixedProbesCount := by
    rw [List.length_take, saved.data_length]
    omega
  have hbytes : file.bytes = doubleLayout.dump (saved.data.take saved.fixedProbesCount) := by
    rw [hsource.2.1, cache, if_pos hcaches] at hsame
    simp only [Function.update_self, Option.some.injEq] at hsame
    rw [hsame]
  have hlen : file.bytes.length = 8 * saved.fixedProbesCount := by
    rw [hbytes, Layout.dump_length, htake]
    rfl
  obtain ⟨hresult, -, hfixed, hholds⟩ := loadFromCache_fits hsource (by omega)
    (show (-1 : ℤ) < 0 by decide) (show (-1 : ℤ) < 0 by decide)
  have hcount : (s.loadFromCache (s.construct k memory)).block.fixedProbesCount =
      saved.fixedProbesCount := by omega
  refine ⟨hresult, hcount, ?_, hholds.indexed⟩
  have hvalues := doubleLayout.values_dump (saved.data.take saved.fixedProbesCount)
  rw [htake] at hvalues
  rw [hholds.data, hcount, hbytes, hvalues]

/-- The cache is safe and faithful exactly where no current file is longer than the block. -/
theorem loadFromCache_iff (s : CacheSite) (k : BlockKey) (memory : Vector Double k.maxProbes) :
    s.Safe (s.construct k memory) ∧ s.Restores (s.construct k memory) ↔ s.Fits k := by
  constructor
  · intro h file hpath hfile hcurrent hopens
    by_contra hfit
    obtain ⟨hresult, -⟩ := loadFromCache_asserts (b := s.construct k memory)
      ⟨hpath, hfile, hcurrent, hopens⟩ hfit
    rcases h.1.2 with hfalse | htrue
    · rw [hresult] at hfalse
      exact absurd hfalse (by decide)
    · rw [hresult] at htrue
      exact absurd htrue.1 (by decide)
  · intro hfits
    refine ⟨?_, restores_of_constructed s memory⟩
    by_cases hsource : ∃ file, s.Source (s.construct k memory) file
    · obtain ⟨file, hsource⟩ := hsource
      have hfit := hfits file hsource.1 hsource.2.1 hsource.2.2.1 hsource.2.2.2
      obtain ⟨hresult, hwritten, -, hholds⟩ := loadFromCache_fits hsource hfit
        (show (-1 : ℤ) < 0 by decide) (show (-1 : ℤ) < 0 by decide)
      refine ⟨?_, .inr ⟨hresult, file, hsource.2.1, hholds⟩⟩
      intro i hi
      rw [hwritten, List.mem_range'_1] at hi
      omega
    · obtain ⟨hresult, hwritten⟩ := loadFromCache_refused (not_exists.mp hsource)
      refine ⟨?_, .inl hresult⟩
      rw [hwritten]
      exact fun i hi => absurd hi (List.not_mem_nil)

/-! ## A file of one probe too many -/

def january : BlockKey := ⟨['A'], 2020, 1, by decide, by decide⟩

/-- One probe more than January has. -/
def longFile : CacheFile := ⟨List.replicate 35720 0, true, some 1, true⟩

def longFileSite : CacheSite where
  writeCache := false
  home := some ['/', 'h']
  homeExists := true
  bufferPrefix := ['x']
  cachepoison := false
  configurationDate := 0
  stampTime := none
  directory := true
  writable := true
  files _ := some longFile

/-- The probe behind the array is stored, and the assertion comes after that. -/
theorem longFile_overruns :
    let b := longFileSite.construct january (Vector.replicate january.maxProbes szbNodata)
    january.maxProbes ∈ (longFileSite.loadFromCache b).written ∧
      ¬ (longFileSite.Safe b ∧ longFileSite.Restores b) := by
  have hmax : january.maxProbes = 4464 := by decide
  have hlen : longFile.bytes.length = 35720 := List.length_replicate
  have hsource : longFileSite.Source
      (longFileSite.construct january (Vector.replicate january.maxProbes szbNodata)) longFile := by
    refine ⟨by decide, rfl, ⟨rfl, by rw [hlen], 1, rfl, by decide, ?_⟩, rfl⟩
    intro bmt hbmt
    exact absurd hbmt (by simp [longFileSite])
  obtain ⟨hresult, hwritten⟩ := loadFromCache_asserts hsource (by rw [hlen, hmax]; decide)
  have hbehind : january.maxProbes ∈ (longFileSite.loadFromCache (longFileSite.construct january
      (Vector.replicate january.maxProbes szbNodata))).written := by
    rw [hwritten, hlen, hmax, List.mem_range'_1]
    decide
  refine ⟨hbehind, fun h => ?_⟩
  exact absurd (h.1.1 _ hbehind) (lt_irrefl _)

end CacheSite
end Szbase
end Szarp
