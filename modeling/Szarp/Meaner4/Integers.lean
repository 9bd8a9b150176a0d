import Szarp.Lib.Runs
import Szarp.Meaner4.SaveParam

/-!
# Integer types

The messages of a parameter with a short or int type, the restarts between them, and the records that
its files hold.  A run in which an exception is raised has no result.
-/

namespace Szarp
namespace Meaner4

structure Param where
  writtenToBase : Bool
  dataType : DataType
  timePrec : ℕ
  timePrec_eq : timePrec = 4 ∨ timePrec = 8

structure Msg where
  time : ℕ
  nanotime : ℕ
  intValue : ℤ
deriving DecidableEq, Repr

/-- `value_from_msg` takes `int_value`. -/
def Msg.typed (m : Msg) : TypedMsg ℤ := ⟨m.time, m.nanotime, m.intValue⟩

namespace Param

variable (p : Param)

def typed : TypedParam ℤ := ⟨p.writtenToBase, p.dataType.format, p.timePrec, p.timePrec_eq⟩

def valueLength : ℕ := p.dataType.length

def valueFromBinary (blob : List UInt8) : ℤ := p.typed.format.fromBinary blob

def recordLength : ℕ := p.typed.recordLength

theorem valueFromBinary_eq (blob : List UInt8) :
    p.valueFromBinary blob = unpackSigned p.valueLength blob := rfl

theorem recordLength_eq : p.recordLength = p.timePrec + p.valueLength := rfl

theorem recordLength_pos : 0 < p.recordLength := by
  have hprec := p.timePrec_eq
  rw [recordLength_eq]
  omega

theorem recordLength_le : p.recordLength ≤ 12 := by
  have hvalue : p.valueLength ≤ 4 := by
    unfold valueLength
    cases p.dataType <;> decide
  have hprec := p.timePrec_eq
  rw [recordLength_eq]
  omega

end Param

/-! ## Runs -/

abbrev State := Saving ℤ

def Outcome.result {V : Type} (o : Outcome V) : Option (Saving V) :=
  match o.raised with
  | some _ => none
  | none => some o.state

inductive Event where
  | msg (m : Msg)
  | replace

def step (p : Param) (s : State) : Event → Option State
  | .msg m => (s.processMsg p.typed m.typed).result
  | .replace => some { s with saver := {} }

def run (p : Param) (events : List Event) : Option State := events.foldlM (step p) {}

def messages (events : List Event) : List Msg :=
  events.filterMap fun
    | .msg m => some m
    | .replace => none

/-! ## What the files hold -/

/-- A value and the time at which it was last seen. -/
abbrev Record := ℤ × ℕ × ℕ

namespace Param

variable (p : Param)

def stamp (m : Msg) : ℕ × ℕ := if p.timePrec = 8 then (m.time, m.nanotime) else (m.time, 0)

def record (m : Msg) : Record := (m.intValue, p.stamp m)

/-- What a reader makes of the bytes of a record. -/
def decodeRecord (blob : List UInt8) : Record :=
  (p.valueFromBinary (blob.take p.valueLength),
    unpackUnsigned ((blob.drop p.valueLength).take 4),
    if p.timePrec = 8 then unpackUnsigned ((blob.drop (p.valueLength + 4)).take 4) else 0)

def decode (data : List UInt8) : List Record :=
  (List.range (data.length / p.recordLength)).map fun i =>
    p.decodeRecord ((data.drop (i * p.recordLength)).take p.recordLength)

/-- All records of a directory, file by file in the order of their names. -/
def records (d : Dir) : List Record :=
  (d.mergeSort fun f g => f.1 ≤ g.1).flatMap fun f => p.decode f.2

def InRange (m : Msg) : Prop :=
  m.time < 2 ^ 32 ∧ m.nanotime < 10 ^ 9 ∧
    -(256 ^ p.valueLength / 2) ≤ m.intValue ∧ m.intValue < 256 ^ p.valueLength / 2

/-- Messages in range, at later and later times. -/
structure Valid (msgs : List Msg) : Prop where
  range : ∀ m ∈ msgs, p.InRange m
  later : msgs.Pairwise fun m m' => toLex (p.stamp m) < toLex (p.stamp m')

end Param

/-! ## Bytes -/

section Bytes

variable {p : Param} {m : Msg}

def Param.encodeRecord (p : Param) (r : Record) : List UInt8 :=
  (BigEndian.encode p.valueLength (r.1 % 256 ^ p.valueLength).toNat).reverse ++
    (BigEndian.encode 4 r.2.1).reverse ++
    if p.timePrec = 8 then (BigEndian.encode 4 r.2.2).reverse else []

theorem length_encodeRecord (p : Param) (r : Record) :
    (p.encodeRecord r).length = p.recordLength := by
  obtain h | h := p.timePrec_eq <;> simp [Param.encodeRecord, Param.recordLength_eq, h] <;> omega

theorem unpackUnsigned_encode {n v : ℕ} (h : v < 256 ^ n) :
    unpackUnsigned (BigEndian.encode n v).reverse = v := by
  rw [unpackUnsigned, List.reverse_reverse, BigEndian.decode_encode h]

theorem unpackSigned_encode {n : ℕ} {v : ℤ} (h : -(256 ^ n / 2) ≤ v) (h' : v < 256 ^ n / 2) :
    unpackSigned n (BigEndian.encode n (v % 256 ^ n).toNat).reverse = v := by
  have hpos : (0 : ℤ) < 256 ^ n := by positivity
  have hnonneg : 0 ≤ v % 256 ^ n := Int.emod_nonneg v hpos.ne'
  have hlt : v % 256 ^ n < 256 ^ n := Int.emod_lt_of_pos v hpos
  have hnat : (v % 256 ^ n).toNat < 256 ^ n := by
    zify
    rwa [Int.toNat_of_nonneg hnonneg]
  have hcast : ((256 ^ n : ℕ) : ℤ) = 256 ^ n := by norm_cast
  rw [unpackSigned, unpackUnsigned_encode hnat, Int.toNat_of_nonneg hnonneg, ← hcast,
    Int.emod_bmod]
  apply Int.bmod_eq_of_le <;> rw [hcast] <;> omega

/-- A record that a message in range makes. -/
def Param.Fits (p : Param) (r : Record) : Prop :=
  -(256 ^ p.valueLength / 2) ≤ r.1 ∧ r.1 < 256 ^ p.valueLength / 2 ∧ r.2.1 < 256 ^ 4 ∧
    r.2.2 < 256 ^ 4 ∧ (p.timePrec ≠ 8 → r.2.2 = 0)

theorem fits_record (h : p.InRange m) : p.Fits (p.record m) := by
  obtain ⟨htime, hnano, hlow, hhigh⟩ := h
  refine ⟨hlow, hhigh, ?_, ?_, ?_⟩ <;> unfold Param.record Param.stamp <;> split <;> simp <;> omega

theorem decodeRecord_encodeRecord {r : Record} (h : p.Fits r) :
    p.decodeRecord (p.encodeRecord r) = r := by
  obtain ⟨hlow, hhigh, htime, hnano, hzero⟩ := h
  have hvalue : (BigEndian.encode p.valueLength (r.1 % 256 ^ p.valueLength).toNat).reverse.length =
      p.valueLength := by simp
  have hseconds : (BigEndian.encode 4 r.2.1).reverse.length = 4 := by simp
  have hnanoseconds : (BigEndian.encode 4 r.2.2).reverse.length = 4 := by simp
  rw [Param.decodeRecord, Param.encodeRecord, Param.valueFromBinary_eq, List.append_assoc,
    List.take_left' hvalue, List.drop_left' hvalue, List.take_left' hseconds,
    unpackSigned_encode hlow hhigh, unpackUnsigned_encode htime, ← List.drop_drop,
    List.drop_left' hvalue, List.drop_left' hseconds]
  by_cases hprec : p.timePrec = 8
  · rw [if_pos hprec, if_pos hprec, List.take_of_length_le hnanoseconds.le,
      unpackUnsigned_encode hnano]
  · rw [if_neg hprec, ← hzero hprec]

theorem length_flatMap_encodeRecord (p : Param) (rs : List Record) :
    (rs.flatMap p.encodeRecord).length = rs.length * p.recordLength := by
  induction rs with
  | nil => simp
  | cons r rs ih =>
    rw [List.flatMap_cons, List.length_append, ih, length_encodeRecord, List.length_cons]
    ring

/-- The records of a file are read back. -/
theorem decode_flatMap {rs : List Record}
    (h : ∀ r ∈ rs, p.Fits r) : p.decode (rs.flatMap p.encodeRecord) = rs := by
  rw [Param.decode, length_flatMap_encodeRecord, Nat.mul_div_cancel _ p.recordLength_pos]
  induction rs with
  | nil => rfl
  | cons r rs ih =>
    have hlen := length_encodeRecord p r
    rw [List.length_cons, List.range_succ_eq_map, List.map_cons, List.map_map, List.flatMap_cons,
      Nat.zero_mul, List.drop_zero, List.take_left' hlen,
      decodeRecord_encodeRecord (h r List.mem_cons_self)]
    have htail := ih fun r hr => h r (List.mem_cons_of_mem _ hr)
    congr 1
    refine Eq.trans (List.map_congr_left fun i _ => ?_) htail
    rw [Function.comp, Nat.succ_mul, Nat.add_comm, ← List.drop_drop, List.drop_left' hlen]

end Bytes

end Meaner4
end Szarp
