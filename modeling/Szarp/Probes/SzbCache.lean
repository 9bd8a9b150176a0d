import Szarp.Lib.PyText
import Szarp.Szbase.Date
import Mathlib

/-!
# The cache of ten-second probes

`szbcache.py`: a directory for each parameter, in it a file for each month, in the file two bytes
for every ten seconds of the month.  A path is a text without doubled slashes.
-/

namespace Szarp
namespace Probes

open Gregorian Szbase PyText

/-- What keeps a call from returning.  `rounds` is no exception of the program: the loop is still
going after the rounds granted to it. -/
inductive Exn where
  | szbException (message : String)
  | valueError
  | typeError
  | eofError
  | attributeError
  | environmentError
  | runtimeError
  | rounds
deriving DecidableEq, Repr

def szbcacheProbe : ℤ := 10

def szbcacheSize : ℕ := 2

/-- `SZBCACHE_NODATA` as `array.tostring` writes it. -/
def szbcacheNodata : List UInt8 := [0x00, 0x80]

def szbcacheExt : List Char := ".szc".toList

structure MonthFile where
  year : ℤ
  month : ℕ
  data : List UInt8
  year_mem : 1 ≤ year ∧ year ≤ 9999
  month_mem : 1 ≤ month ∧ month ≤ 12
  /-- Larger files do not fit on a disk. -/
  size_lt : data.length < 2 ^ 50

def monthName (year : ℤ) (month : ℕ) : List Char :=
  zeroPadded 4 year ++ zeroPadded 2 month ++ szbcacheExt

/-- The cache: its absolute directory, the number of months kept in it, and the directories of the
parameters by their relative paths. -/
structure SzbCache where
  cachedir : List Char
  months : ℤ
  months_pos : 0 < months
  params : List (List Char × List MonthFile)

/-! ## The clock -/

/-- `time.gmtime`: the year has to fit in an `int`. -/
def gmtime (t : ℤ) : Except Exn Tm :=
  let tm := Gregorian.gmtime t
  if -2 ^ 31 ≤ tm.tmYear ∧ tm.tmYear < 2 ^ 31 then .ok tm else .error .valueError

/-- `calendar.timegm` of the first instant of a month. -/
def timegm (year month : ℤ) : Except Exn ℤ :=
  if 1 ≤ year ∧ year ≤ 9999 ∧ 1 ≤ month ∧ month ≤ 12 then .ok (monthStart year month.toNat)
  else .error .valueError

def parseInt (s : List Char) : Except Exn ℤ := (int s).elim (.error .valueError) .ok

/-! ## Files and paths -/

/-- `os.path.join` -/
def join (dirname base : List Char) : List Char := dirname ++ '/' :: base

namespace PathIterator

/-- `PathIterator.split` -/
def split (path : List Char) : Except Exn (List Char × ℤ × ℤ) := do
  let base := afterLast '/' path
  let year ← parseInt (base.take 4)
  let month ← parseInt ((base.drop 4).take 2)
  return (beforeLast '/' path, year, month)

def joinMonth (ext dirname : List Char) (year month : ℤ) : List Char :=
  join dirname (zeroPadded 4 year ++ zeroPadded 2 month ++ '.' :: ext)

/-- `PathIterator.next`, for an iterator with the extension `ext`. -/
def next (ext path : List Char) : Except Exn (List Char) := do
  let (dirname, year, month) ← split path
  return if month + 1 > 12 then joinMonth ext dirname (year + 1) 1
    else joinMonth ext dirname year (month + 1)

/-- `PathIterator.prev` -/
def prev (ext path : List Char) : Except Exn (List Char) := do
  let (dirname, year, month) ← split path
  return if month - 1 ≤ 0 then joinMonth ext dirname (year - 1) 12
    else joinMonth ext dirname year (month - 1)

end PathIterator

namespace SzbCache

variable (c : SzbCache)

def listdir (dpath : List Char) : Option (List MonthFile) :=
  (c.params.find? fun p => join c.cachedir p.1 = dpath).map Prod.snd

def content (path : List Char) : Option (List UInt8) := do
  let files ← c.listdir (beforeLast '/' path)
  let file ← files.find? fun f => monthName f.year f.month = afterLast '/' path
  return file.data

def isdir (dpath : List Char) : Except Exn Bool :=
  if Char.ofNat 0 ∈ dpath then .error .typeError else .ok (c.listdir dpath).isSome

def lastIndex (path : List Char) : ℤ :=
  match c.content path with
  | some data => ((data.length / szbcacheSize : ℕ) : ℤ) - 1
  | none => -1

def time2index (t : ℤ) (dirpath : List Char) : Except Exn (List Char × ℤ) := do
  let ts ← gmtime t
  let path := join dirpath
    (zeroPadded 4 (ts.tmYear + 1900) ++ zeroPadded 2 (ts.tmMon + 1) ++ szbcacheExt)
  let index := (ts.tmMday - 1) * 24 * 3600 + ts.tmHour * 3600 + ts.tmMin * 60 + ts.tmSec
  return (path, index / szbcacheProbe)

def index2time (path : List Char) (index : ℤ) : Except Exn ℤ := do
  let index ←
    if index = -1 then
      match c.content path with
      | some data => .ok (((data.length / szbcacheSize : ℕ) : ℤ) - 1)
      | none => .error .environmentError
    else .ok index
  let filename := afterLast '/' path
  let year ← parseInt (filename.take 4)
  let month ← parseInt ((filename.drop 4).take 2)
  return (← timegm year month) + index * szbcacheProbe

def checkPath (parampath : List Char) : Except Exn (List Char) :=
  let splitted := parampath.splitOn '/'
  if splitted.length ≠ 3 then .error (.szbException "Incorrect parameter path")
  else if splitted.any fun p => p = [] ∨ p = ['.'] ∨ p = ['.', '.'] then
    .error (.szbException "Incorrect relative parameter path")
  else .ok (join c.cachedir parampath)

def searchFirstLast (dirpath : List Char) : Except Exn (ℤ × ℤ) :=
  let l := (((c.listdir dirpath).getD []).map fun f =>
    join dirpath (monthName f.year f.month)).mergeSort fun a b => a ≤ b
  match l with
  | [] => .ok (-1, -1)
  | first :: rest => do
    return (← c.index2time first 0, ← c.index2time (rest.getLastD first) (-1))

def getSizeAndLast (starttime endtime : ℤ) (parampath : List Char) : Except Exn (ℤ × ℤ) := do
  let dpath ← c.checkPath parampath
  if ¬ (← c.isdir dpath) then return (0, -1)
  let (first, last) ← c.searchFirstLast dpath
  if first = -1 then return (0, -1)
  return (((endtime - starttime) / szbcacheProbe + 1) * szbcacheSize, last)

/-! ## Writing -/

/-- The loop of `fill_empty`.  The array `arr` of `s` values doubles in each round, so that `count`
rounds are enough. -/
def fillLoop : ℕ → ℤ → ℤ → List UInt8 → List UInt8
  | 0, _, _, _ => []
  | rounds + 1, count, s, arr =>
    if count > 0 then
      if count % (s * 2) ≠ 0 then
        arr ++ if count - s > 0 then fillLoop rounds (count - s) (s * 2) (arr ++ arr) else []
      else fillLoop rounds count (s * 2) (arr ++ arr)
    else []

def fillEmpty (count : ℤ) : List UInt8 := fillLoop count.toNat count 1 szbcacheNodata

/-- `write_file`; the arguments of the calls of `debug` are evaluated before anything is written. -/
def writeFile (startindex endindex : ℤ) (path : List Char) : Except Exn (List UInt8) := do
  let lastindex := c.lastIndex path
  let _ ← c.index2time path startindex
  let _ ← c.index2time path endindex
  if lastindex ≥ 0 then
    let _ ← c.index2time path lastindex
  let towrite := max 0 (min endindex lastindex - startindex + 1)
  let data := ((c.content path).getD []).drop (startindex.toNat * szbcacheSize)
  return data.take (towrite.toNat * szbcacheSize) ++ fillEmpty (endindex - startindex - towrite + 1)

/-- `write_data`: the time to go on from, and the bytes written. -/
def writeData (starttime endtime : ℤ) (parampath : List Char) :
    Except Exn (ℤ × List UInt8) := do
  let dpath ← c.checkPath parampath
  if ¬ (← c.isdir dpath) then return (endtime + 1, [])
  let (startpath, startindex) ← time2index starttime dpath
  let (endpath, endindex) ← time2index endtime dpath
  if startpath = endpath then
    let bytes ← c.writeFile startindex endindex startpath
    return ((← c.index2time startpath endindex) + szbcacheProbe, bytes)
  else
    let nextpath ← PathIterator.next (rsplitSecond '.' startpath) startpath
    let nexttime ← c.index2time nextpath 0
    let (_, endindex) ← time2index (nexttime - szbcacheProbe) dpath
    let bytes ← c.writeFile startindex endindex startpath
    return (nexttime, bytes)

end SzbCache

end Probes
end Szarp
