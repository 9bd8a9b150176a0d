import Szarp.Lib.BigEndian
import Szarp.Lib.Numeral
import Mathlib

/-!
# Files of meaner4

`python/meaner4/saveparam.py` for parameters of any type, with the conversions of `param.py` and the
file names of `parampath.py`, and with what is left behind where an exception is raised.  What was
written to an open file counts as its content from then on.  A parameter has a directory of its own;
one that does not exist yet is an empty one.
-/

namespace Szarp
namespace Meaner4

open Numeral

def dataFileSize : ℕ := 2 * 4096

/-! ## Conversions -/

/-- `struct.pack` of an unsigned number of `n` bytes, the least significant one first. -/
def packUnsigned (n v : ℕ) : Option (List UInt8) :=
  if v < 256 ^ n then some (BigEndian.encode n v).reverse else none

def packSigned (n : ℕ) (v : ℤ) : Option (List UInt8) :=
  if -(256 ^ n / 2) ≤ v ∧ v < 256 ^ n / 2 then
    some (BigEndian.encode n (v % 256 ^ n).toNat).reverse
  else none

def unpackUnsigned (blob : List UInt8) : ℕ := BigEndian.decode blob.reverse

def unpackSigned (n : ℕ) (blob : List UInt8) : ℤ := (unpackUnsigned blob : ℤ).bmod (256 ^ n)

/-! ## Types -/

/-- The values of a `data_type`, with `==` and the `struct` format. -/
structure Format (V : Type) where
  eq : V → V → Bool
  length : ℕ
  toBinary : V → Option (List UInt8)
  fromBinary : List UInt8 → V
  length_pos : 0 < length
  length_le : length ≤ 8
  length_toBinary : ∀ v b, toBinary v = some b → b.length = length
  exists_other : ∀ v, ∃ w, eq w v = false ∧ (toBinary w).isSome

inductive DataType where
  | short
  | int
deriving DecidableEq, Repr

def DataType.length : DataType → ℕ
  | .short => 2
  | .int => 4

def DataType.format (t : DataType) : Format ℤ where
  eq v w := v = w
  length := t.length
  toBinary := packSigned t.length
  fromBinary := unpackSigned t.length
  length_pos := by cases t <;> decide
  length_le := by cases t <;> decide
  length_toBinary v b h := by
    unfold packSigned at h
    split_ifs at h with hrange
    obtain rfl := Option.some.inj h
    simp
  exists_other v := by
    have hpack : ∀ w : ℤ, w = 0 ∨ w = 1 → (packSigned t.length w).isSome := by
      rintro w (rfl | rfl) <;> cases t <;> decide
    by_cases hv : v = 0
    · exact ⟨1, by simp [hv], hpack 1 (.inr rfl)⟩
    · exact ⟨0, by simpa using Ne.symm hv, hpack 0 (.inl rfl)⟩

/-- A parameter; the formats of times take 4 or 8 bytes. -/
structure TypedParam (V : Type) where
  writtenToBase : Bool
  format : Format V
  timePrec : ℕ
  timePrec_eq : timePrec = 4 ∨ timePrec = 8

theorem timePrec_second : 4 = 4 ∨ 4 = 8 := .inl rfl

theorem timePrec_nanosecond : 8 = 4 ∨ 8 = 8 := .inr rfl

/-- A message with the value that `value_from_msg` takes from it. -/
structure TypedMsg (V : Type) where
  time : ℕ
  nanotime : ℕ
  value : V

variable {V : Type}

namespace TypedParam

variable (p : TypedParam V)

def timeToBinary (time nanotime : ℕ) : Option (List UInt8) :=
  if p.timePrec = 8 then do
    let seconds ← packUnsigned 4 time
    let nanoseconds ← packUnsigned 4 nanotime
    return seconds ++ nanoseconds
  else packUnsigned 4 time

/-- `ParamPath.create_file_path`, in the directory of the parameter. -/
def createFilePath (time nanotime : ℕ) : List Char :=
  if p.timePrec = 4 then padded 10 time ++ ".sz4".toList
  else padded 10 time ++ padded 10 nanotime ++ ".sz4".toList

def recordLength : ℕ := p.timePrec + p.format.length

def path (m : TypedMsg V) : List Char := p.createFilePath m.time m.nanotime

def Fits (m : TypedMsg V) : Prop :=
  (p.format.toBinary m.value).isSome ∧ (p.timeToBinary m.time m.nanotime).isSome

end TypedParam

/-! ## Files -/

abbrev Dir := List (List Char × List UInt8)

namespace Dir

def names (d : Dir) : List (List Char) := d.map Prod.fst

instance (d : Dir) (name : List Char) : Decidable (name ∈ d.names) :=
  decidable_of_iff (∃ f ∈ d, f.1 = name) List.mem_map.symm

def content (d : Dir) (name : List Char) : List UInt8 := (d.lookup name).getD []

def put (d : Dir) (name : List Char) (data : List UInt8) : Dir :=
  if name ∈ d.names then d.map fun f => if f.1 = name then (name, data) else f
  else d ++ [(name, data)]

def findLatestPath (d : Dir) : Option (List Char) := (d.names.mergeSort fun a b => a ≤ b).getLast?

end Dir

structure File where
  name : List Char
  pos : ℕ

/-! ## Writing -/

structure Saver (V : Type) where
  file : Option File := none
  fileSize : ℕ := 0
  currentValue : Option V := none
  firstWrite : Bool := true

structure Saving (V : Type) where
  dir : Dir := []
  saver : Saver V := {}

inductive Raised where
  | structError
  | ioError
  | attributeError
deriving DecidableEq

/-- What a call leaves, and the exception that it raises. -/
structure Outcome (V : Type) where
  state : Saving V
  raised : Option Raised

/-- An exception ends the call. -/
def Outcome.andThen (o : Outcome V) (next : Saving V → Outcome V) : Outcome V :=
  match o.raised with
  | some _ => o
  | none => next o.state

namespace Saving

variable (p : TypedParam V)

def seekEnd (s : Saving V) (back : ℕ) : Outcome V :=
  match s.saver.file with
  | none => ⟨s, some .attributeError⟩
  | some f =>
    let size := (s.dir.content f.name).length
    if size < back then ⟨s, some .ioError⟩
    else ⟨{ s with saver := { s.saver with file := some { f with pos := size - back } } }, none⟩

/-- `file.write` of what `struct.pack` makes. -/
def write (s : Saving V) (blob : Option (List UInt8)) : Outcome V :=
  match s.saver.file, blob with
  | none, _ => ⟨s, some .attributeError⟩
  | some _, none => ⟨s, some .structError⟩
  | some f, some data =>
    let old := s.dir.content f.name
    ⟨{ dir := s.dir.put f.name (old.take f.pos ++ data ++ old.drop (f.pos + data.length))
       saver := { s.saver with file := some { f with pos := f.pos + data.length } } }, none⟩

/-- `open` of a path for reading and writing, which empties it. -/
def openNew (s : Saving V) (name : List Char) : Saving V :=
  { dir := s.dir.put name [], saver := { s.saver with file := some ⟨name, 0⟩, fileSize := 0 } }

def updateLastTime (s : Saving V) (time nanotime : ℕ) : Outcome V :=
  (s.seekEnd p.timePrec).andThen fun s => s.write (p.timeToBinary time nanotime)

def Full (s : Saving V) : Prop :=
  s.saver.fileSize + p.timePrec + p.format.length ≥ dataFileSize

instance (s : Saving V) : Decidable (s.Full p) := inferInstanceAs (Decidable (_ ≥ _))

/-- The part of `new_value` behind the opening of a file. -/
def writeRecord (s : Saving V) (value : V) (time nanotime : ℕ) : Outcome V :=
  (s.write (p.format.toBinary value)).andThen fun s =>
    (s.write (p.timeToBinary time nanotime)).andThen fun s =>
      let fileSize := s.saver.fileSize + (p.timePrec + p.format.length)
      ⟨{ s with saver := { s.saver with fileSize := fileSize, currentValue := some value } }, none⟩

def newValue (s : Saving V) (value : V) (time nanotime : ℕ) : Outcome V :=
  if s.Full p then
    (s.openNew (p.createFilePath time nanotime)).writeRecord p value time nanotime
  else s.writeRecord p value time nanotime

def prepareForWriting (s : Saving V) (time nanotime : ℕ) : Saving V :=
  match s.dir.findLatestPath with
  | some path =>
    let data := s.dir.content path
    if p.timePrec + p.format.length ≤ data.length then
      let blob := (data.drop (data.length - p.recordLength)).take p.format.length
      { s with saver := { s.saver with
          file := some ⟨path, data.length⟩
          fileSize := data.length
          currentValue := some (p.format.fromBinary blob) } }
    else
      { s with saver := { s.saver with
          file := some ⟨path, 0⟩
          fileSize := data.length
          currentValue := none } }
  | none =>
    let s := s.openNew (p.createFilePath time nanotime)
    { s with saver := { s.saver with currentValue := none } }

def prepared (s : Saving V) (m : TypedMsg V) : Saving V :=
  if s.saver.firstWrite then
    let s := s.prepareForWriting p m.time m.nanotime
    { s with saver := { s.saver with firstWrite := false } }
  else s

/-- `value == self.current_value` -/
def isCurrent (s : Saving V) (value : V) : Bool := s.saver.currentValue.any (p.format.eq value)

/-- The part of `process_msg` behind `prepare_for_writing`. -/
def store (s : Saving V) (m : TypedMsg V) : Outcome V :=
  if s.isCurrent p m.value then s.updateLastTime p m.time m.nanotime
  else s.newValue p m.value m.time m.nanotime

def processMsg (s : Saving V) (m : TypedMsg V) : Outcome V :=
  if !p.writtenToBase then ⟨s, none⟩
  else (s.prepared p m).store p m

end Saving

end Meaner4
end Szarp
