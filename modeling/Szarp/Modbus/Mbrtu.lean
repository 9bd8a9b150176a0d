import Mathlib.Data.List.Basic
import Mathlib.Data.List.FinRange
import Mathlib.Data.List.Flatten
import Mathlib.Tactic.IntervalCases

/-!
# Modbus RTU packets

`mbrtu.cc`: master and slave frames as packets with a CRC, and back.
-/

namespace Szarp
namespace Modbus

abbrev Byte := BitVec 8
abbrev Short := BitVec 16

/-! ## Functions -/

/-- `MB_F_RHR`: read holding registers -/
def mbFRhr : Byte := 0x03

/-- `MB_F_RIR`: read input registers -/
def mbFRir : Byte := 0x04

/-- `MB_F_WSC`: write single coil -/
def mbFWsc : Byte := 0x05

/-- `MB_F_WSR`: write single register -/
def mbFWsr : Byte := 0x06

/-- `MB_F_WMR`: write multiple registers -/
def mbFWmr : Byte := 0x10

def maxBodySize : ℕ := 255

structure WMasterFrame where
  deviceId : Byte
  functionId : Byte
  address : Short
  body : Fin maxBodySize → Short
  dataSize : Short

structure WSlaveFrame where
  deviceId : Byte
  functionId : Byte
  dataSize : Short
  address : Short
  body : Fin maxBodySize → Short

/-- `tRMasterFrame` and `tRSlaveFrame` -/
structure RFrame where
  deviceId : Byte
  functionId : Byte
  address : Short
  dataSize : Short
  body : Fin maxBodySize → Short
  crc : Short
  packetSize : Short

/-! ## Bytes of numbers -/

/-- `(x & 0xff00) >> 8` -/
def hi (x : Short) : Byte := ((x &&& 0xff00) >>> 8).setWidth 8

/-- `x & 0x00ff` -/
def lo (x : Short) : Byte := (x &&& 0x00ff).setWidth 8

/-- `(h << 8) | l` -/
def word (h l : Byte) : Short := (h.setWidth 16 <<< 8) ||| l.setWidth 16

theorem word_hi_lo (x : Short) : word (hi x) (lo x) = x := by
  apply BitVec.eq_of_getLsbD_eq
  intro i h
  simp only [word, hi, lo, BitVec.getLsbD_or, BitVec.getLsbD_shiftLeft, BitVec.getLsbD_setWidth,
    BitVec.getLsbD_ushiftRight, BitVec.getLsbD_and]
  interval_cases i <;> simp

theorem word_self (x : Short) : word (hi x) (hi x) = x ↔ hi x = lo x := by
  constructor
  · intro h
    have hlo : lo (word (hi x) (hi x)) = hi x := by
      apply BitVec.eq_of_getLsbD_eq
      intro i hi'
      simp only [word, hi, lo, BitVec.getLsbD_or, BitVec.getLsbD_shiftLeft,
        BitVec.getLsbD_setWidth, BitVec.getLsbD_ushiftRight, BitVec.getLsbD_and]
      interval_cases i <;> simp
    rw [h] at hlo
    exact hlo.symm
  · intro h
    nth_rewrite 2 [h]
    exact word_hi_lo x

/-! ## Checksum -/

def crcBit (crc : Short) : Short :=
  let carry := crc &&& 0x0001
  let crc := crc >>> 1
  if carry = 1 then crc ^^^ 0xa001 else crc

def crc16 (packet : List Byte) : Short :=
  let crc := packet.foldl (fun crc b => crcBit^[8] (crc ^^^ b.setWidth 16)) 0xffff
  let temp := crc &&& 0xff
  crc >>> 8 ||| temp <<< 8

/-! ## Packets in memory -/

/-- Assignments to a buffer, in order; `none` outside of it. -/
def writeAll (buffer : List Byte) (writes : List (ℕ × Byte)) : Option (List Byte) :=
  writes.foldlM (fun buffer w => if w.1 < buffer.length then some (buffer.set w.1 w.2) else none)
    buffer

/-- A packet in a fresh buffer: what is assigned, and the CRC in the last two bytes. -/
def packet (packetSize : ℕ) (writes : List (ℕ × Byte)) : Option (List Byte) := do
  let buffer ← writeAll (List.replicate packetSize 0) writes
  let crc := crc16 (buffer.take (packetSize - 2))
  writeAll buffer [(packetSize - 2, hi crc), (packetSize - 1, lo crc)]

/-- The registers of a body from index `start` of a buffer on. -/
def bodyWrites (start : ℕ) (body : Fin maxBodySize → Short) (dataSize : ℕ) : List (ℕ × Byte) :=
  ((List.finRange maxBodySize).take dataSize).flatMap fun u : Fin maxBodySize =>
    [(start + 2 * u.val, hi (body u)), (start + 1 + 2 * u.val, lo (body u))]

/-- The memory of `oPacket` after `memcpy`. -/
def copyTo (memory : ℕ → Byte) (packet : List Byte) : ℕ → Byte :=
  fun i => (packet[i]?).getD (memory i)

/-- The loop over the registers of a packet from index `start` on. -/
def readBody (iPacket : ℕ → Byte) (start dataSize : ℕ) : Fin maxBodySize → Short :=
  fun u => if u < dataSize then word (iPacket (start + 2 * u)) (iPacket (start + 1 + 2 * u)) else 0

/-- `CRC16` of the first bytes in memory. -/
def crcOf (iPacket : ℕ → Byte) (size : ℕ) : Short := crc16 ((List.range size).map iPacket)

/-! ## Master packets -/

/-- `CreateMasterPacket`; `none` where it does not return, a loop that is counted in a byte goes on
for ever. -/
def createMasterPacket (m : WMasterFrame) : Option (List Byte) :=
  let common := [(0, m.deviceId), (1, m.functionId), (2, hi m.address), (3, lo m.address)]
  if m.functionId = mbFRhr ∨ m.functionId = mbFRir then
    packet 8 (common ++ [(4, hi m.dataSize), (5, lo m.dataSize)])
  else if m.functionId = mbFWsc ∨ m.functionId = mbFWsr then
    packet 8 (common ++ [(4, hi (m.body ⟨0, by decide⟩)), (5, lo (m.body ⟨0, by decide⟩))])
  else if m.functionId = mbFWmr then
    if m.dataSize.toNat ≤ maxBodySize then
      packet (1 + 1 + 2 + 2 + 1 + 2 * m.dataSize.toNat + 2)
        (common ++ [(4, hi m.dataSize), (5, lo m.dataSize), (6, lo m.dataSize <<< 1)] ++
          bodyWrites 7 m.body m.dataSize.toNat)
    else none
  else some []

def decodeMasterPacket (iPacket : ℕ → Byte) (packetSize : ℕ) : Option (Short × RFrame) :=
  let frame : RFrame :=
    { deviceId := iPacket 0
      functionId := iPacket 1
      address := word (iPacket 2) (iPacket 3)
      dataSize := 0
      body := fun _ => 0
      crc := 0
      packetSize := 0 }
  if packetSize < 4 then some (1, frame)
  else if frame.functionId = mbFRhr ∨ frame.functionId = mbFRir then
    if packetSize < 8 then some (1, { frame with packetSize := 8 })
    else
      some (crcOf iPacket 6,
        { frame with
          packetSize := 8
          dataSize := word (iPacket 4) (iPacket 5)
          crc := word (iPacket 6) (iPacket 7) })
  else if frame.functionId = mbFWsc ∨ frame.functionId = mbFWsr then
    if packetSize < 8 then some (1, { frame with packetSize := 8 })
    else
      some (crcOf iPacket 6,
        { frame with
          packetSize := 8
          body := Function.update frame.body ⟨0, by decide⟩ (word (iPacket 4) (iPacket 5))
          crc := word (iPacket 6) (iPacket 7) })
  else if frame.functionId = mbFWmr then
    let dataSize := word (iPacket 4) (iPacket 5)
    let size := BitVec.ofNat 16 (1 + 1 + 2 + 2 + 1 + 2 * dataSize.toNat + 2)
    if packetSize < dataSize.toNat then
      some (1, { frame with dataSize := dataSize, packetSize := size })
    else if dataSize.toNat ≤ maxBodySize then
      some (crcOf iPacket (size.toNat - 2),
        { frame with
          dataSize := dataSize
          packetSize := size
          body := readBody iPacket 7 dataSize.toNat
          crc := word (iPacket (size.toNat - 2)) (iPacket (size.toNat - 1)) })
    else none
  else some (0, frame)

/-! ## Slave packets -/

def createSlavePacket (s : WSlaveFrame) : Option (List Byte) :=
  let common := [(0, s.deviceId), (1, s.functionId)]
  let address := [(2, hi s.address), (3, lo s.address)]
  if s.functionId = mbFRhr ∨ s.functionId = mbFRir then
    let howBytes := BitVec.ofNat 8 (2 * s.dataSize.toNat)
    if s.dataSize.toNat ≤ maxBodySize then
      packet (1 + 1 + 1 + howBytes.toNat + 2)
        (common ++ [(2, howBytes)] ++ bodyWrites 3 s.body s.dataSize.toNat)
    else none
  else if s.functionId = mbFWsc ∨ s.functionId = mbFWsr then
    packet 8 (common ++ address ++
      [(4, hi (s.body ⟨0, by decide⟩)), (5, lo (s.body ⟨0, by decide⟩))])
  else if s.functionId = mbFWmr then
    packet 8 (common ++ address ++ [(4, hi s.dataSize), (5, lo s.dataSize)])
  else some []

def decodeSlavePacket (iPacket : ℕ → Byte) : Short × RFrame :=
  let frame : RFrame :=
    { deviceId := iPacket 0
      functionId := iPacket 1
      address := 0
      dataSize := 0
      body := fun _ => 0
      crc := 0
      packetSize := 0 }
  if frame.functionId = mbFRhr ∨ frame.functionId = mbFRir then
    let dataSize := (iPacket 2 >>> 1).toNat
    let size := 1 + 1 + 1 + 2 * dataSize + 2
    (crcOf iPacket (size - 2),
      { frame with
        dataSize := BitVec.ofNat 16 dataSize
        packetSize := BitVec.ofNat 16 size
        body := readBody iPacket 3 dataSize
        crc := word (iPacket (size - 2)) (iPacket (size - 1)) })
  else if frame.functionId = mbFWsc ∨ frame.functionId = mbFWsr then
    (crcOf iPacket 6,
      { frame with
        packetSize := 8
        -- the same byte twice
        address := word (iPacket 2) (iPacket 2)
        body := Function.update frame.body ⟨0, by decide⟩ (word (iPacket 4) (iPacket 5))
        crc := word (iPacket 6) (iPacket 7) })
  else if frame.functionId = mbFWmr then
    (crcOf iPacket 6,
      { frame with
        packetSize := 8
        address := word (iPacket 2) (iPacket 2)
        dataSize := word (iPacket 4) (iPacket 5)
        crc := word (iPacket 6) (iPacket 7) })
  else (0, { frame with functionId := 0 })

/-! ## What is in a packet -/

/-- Assignments one after another fill a part of the buffer. -/
theorem writeAll_range {buffer : List Byte} {writes : List (ℕ × Byte)} {k : ℕ}
    (h : writes.map Prod.fst = List.range' k writes.length)
    (hlen : k + writes.length ≤ buffer.length) :
    writeAll buffer writes =
      some (buffer.take k ++ writes.map Prod.snd ++ buffer.drop (k + writes.length)) := by
  induction writes generalizing buffer k with
  | nil => simp [writeAll]
  | cons w writes ih =>
    rw [List.map_cons, List.length_cons, List.range'_succ, List.cons.injEq] at h
    rw [List.length_cons] at hlen
    obtain ⟨hk, hrest⟩ := h
    have hset : (buffer.set k w.2).take (k + 1) = buffer.take k ++ [w.2] := by
      rw [List.take_add_one, List.getElem?_set_self (by omega), List.take_set_of_le le_rfl]
      rfl
    have hdrop : (buffer.set k w.2).drop (k + 1 + writes.length) =
        buffer.drop (k + (writes.length + 1)) := by
      rw [List.drop_set_of_lt (by omega)]
      congr 1
      omega
    have hrec := ih hrest
      (show k + 1 + writes.length ≤ (buffer.set k w.2).length by rw [List.length_set]; omega)
    rw [hset, hdrop] at hrec
    rw [writeAll, List.foldlM_cons, hk, if_pos (by omega), Option.bind_eq_bind, Option.bind_some,
      ← writeAll, hrec]
    simp

def withCrc (bytes : List Byte) : List Byte := bytes ++ [hi (crc16 bytes), lo (crc16 bytes)]

theorem packet_eq {packetSize : ℕ} {writes : List (ℕ × Byte)}
    (h : writes.map Prod.fst = List.range' 0 writes.length)
    (hsize : packetSize = writes.length + 2) :
    packet packetSize writes = some (withCrc (writes.map Prod.snd)) := by
  subst hsize
  have hbuffer := @writeAll_range (List.replicate (writes.length + 2) 0) _ _ h
    (by rw [List.length_replicate]; omega)
  have hrest : (List.replicate (writes.length + 2) (0 : Byte)).drop (0 + writes.length) =
      [0, 0] := by
    rw [List.drop_replicate]
    simp
  rw [List.take_zero, List.nil_append, hrest] at hbuffer
  have htake : (writes.map Prod.snd ++ [0, 0]).take writes.length = writes.map Prod.snd :=
    List.take_left' (List.length_map _)
  have hcrc := @writeAll_range (writes.map Prod.snd ++ [0, 0])
    [(writes.length, hi (crc16 (writes.map Prod.snd))),
      (writes.length + 1, lo (crc16 (writes.map Prod.snd)))] writes.length rfl (by simp)
  rw [htake] at hcrc
  rw [packet, hbuffer, Option.bind_eq_bind, Option.bind_some, Nat.add_sub_cancel, htake,
    show writes.length + 2 - 1 = writes.length + 1 by omega, hcrc]
  simp [withCrc]

/-! ## Reading a packet -/

section Reading

variable (memory : ℕ → Byte) (bytes : List Byte)

theorem copyTo_withCrc {i : ℕ} (h : i < bytes.length) :
    copyTo memory (withCrc bytes) i = bytes[i] := by
  rw [copyTo, withCrc, List.getElem?_append_left h, List.getElem?_eq_getElem h, Option.getD_some]

theorem crcOf_withCrc : crcOf (copyTo memory (withCrc bytes)) bytes.length = crc16 bytes := by
  rw [crcOf]
  congr 1
  apply List.ext_getElem
  · simp
  · intro i h h'
    rw [List.getElem_map, List.getElem_range, copyTo_withCrc memory bytes h']

theorem crc_withCrc :
    word (copyTo memory (withCrc bytes) bytes.length)
      (copyTo memory (withCrc bytes) (bytes.length + 1)) = crc16 bytes := by
  have hfirst : copyTo memory (withCrc bytes) bytes.length = hi (crc16 bytes) := by
    simp [copyTo, withCrc]
  have hsecond : copyTo memory (withCrc bytes) (bytes.length + 1) = lo (crc16 bytes) := by
    simp [copyTo, withCrc]
  rw [hfirst, hsecond, word_hi_lo]

end Reading

theorem bodyWrites_fst (start : ℕ) (body : Fin maxBodySize → Short) {dataSize : ℕ}
    (h : dataSize ≤ maxBodySize) :
    (bodyWrites start body dataSize).map Prod.fst = List.range' start (2 * dataSize) := by
  induction dataSize with
  | zero => simp [bodyWrites]
  | succ n ih =>
    rw [bodyWrites, List.take_add_one, List.flatMap_append, List.map_append, ← bodyWrites,
      ih (by omega)]
    have hget : (List.finRange maxBodySize)[n]? = some ⟨n, by omega⟩ := by
      rw [List.getElem?_eq_getElem (by rw [List.length_finRange]; omega)]
      simp
    rw [hget, show 2 * (n + 1) = 2 * n + 2 by omega, ← List.range'_append_1]
    simp [List.range'_succ]
    omega

theorem getElem?_flatMap_pair {α : Type} (f g : α → Byte) (l : List α) (i : ℕ) :
    (l.flatMap fun a => [f a, g a])[2 * i]? = l[i]?.map f ∧
      (l.flatMap fun a => [f a, g a])[2 * i + 1]? = l[i]?.map g := by
  induction l generalizing i with
  | nil => simp
  | cons a l ih =>
    cases i with
    | zero => simp
    | succ i =>
      have h := ih i
      rw [List.flatMap_cons, show 2 * (i + 1) = 2 * i + 2 by omega]
      exact h

theorem readBody_bodyWrites (memory : ℕ → Byte) (front : List Byte)
    (body : Fin maxBodySize → Short) {dataSize : ℕ} (u : Fin maxBodySize) (hu : u < dataSize) :
    readBody (copyTo memory (withCrc (front ++
      (bodyWrites front.length body dataSize).map Prod.snd))) front.length dataSize u = body u := by
  have hbytes : (bodyWrites front.length body dataSize).map Prod.snd =
      ((List.finRange maxBodySize).take dataSize).flatMap fun u => [hi (body u), lo (body u)] := by
    rw [bodyWrites, List.map_flatMap]
    rfl
  have hget : ((List.finRange maxBodySize).take dataSize)[u.val]? = some u := by
    rw [List.getElem?_take_of_lt hu, List.getElem?_eq_getElem (by simp)]
    simp
  have hpair := getElem?_flatMap_pair (fun u => hi (body u)) (fun u => lo (body u))
    ((List.finRange maxBodySize).take dataSize) u
  rw [hget, Option.map_some, Option.map_some] at hpair
  have hread {k : ℕ} {b : Byte}
      (hk : (((List.finRange maxBodySize).take dataSize).flatMap
        fun u => [hi (body u), lo (body u)])[k]? = some b) :
      copyTo memory (withCrc (front ++ (bodyWrites front.length body dataSize).map Prod.snd))
        (front.length + k) = b := by
    rw [copyTo, withCrc, hbytes, List.append_assoc, List.getElem?_append_right (by omega),
      Nat.add_sub_cancel_left, List.getElem?_append_left
        (List.getElem?_eq_some_iff.mp hk).1, hk, Option.getD_some]
  rw [readBody, if_pos hu, hread hpair.1, show front.length + 1 + 2 * u.val =
    front.length + (2 * u.val + 1) by omega, hread hpair.2, word_hi_lo]

theorem bodyWrites_length (start : ℕ) (body : Fin maxBodySize → Short) {dataSize : ℕ}
    (h : dataSize ≤ maxBodySize) : (bodyWrites start body dataSize).length = 2 * dataSize := by
  rw [← List.length_map Prod.fst, bodyWrites_fst start body h, List.length_range']

/-! ## Round trips -/

def Supported (functionId : Byte) : Prop :=
  functionId = mbFRhr ∨ functionId = mbFRir ∨ functionId = mbFWsc ∨ functionId = mbFWsr ∨
    functionId = mbFWmr

/-- A master packet gives its frame back, whatever was in memory before. -/
def MasterRoundTrip (m : WMasterFrame) : Prop :=
  ∀ memory : ℕ → Byte, ∃ bytes crc r,
    createMasterPacket m = some bytes ∧
      decodeMasterPacket (copyTo memory bytes) bytes.length = some (crc, r) ∧ crc = r.crc ∧
      r.deviceId = m.deviceId ∧ r.functionId = m.functionId ∧ r.address = m.address ∧
      (m.functionId = mbFRhr ∨ m.functionId = mbFRir → r.dataSize = m.dataSize) ∧
      (m.functionId = mbFWsc ∨ m.functionId = mbFWsr →
        r.body ⟨0, by decide⟩ = m.body ⟨0, by decide⟩) ∧
      (m.functionId = mbFWmr → r.dataSize = m.dataSize ∧
        ∀ u : Fin maxBodySize, u < m.dataSize.toNat → r.body u = m.body u)

/-- A slave packet gives its frame back; packets of read functions carry no address. -/
def SlaveRoundTrip (s : WSlaveFrame) : Prop :=
  ∀ memory : ℕ → Byte, ∃ bytes crc r,
    createSlavePacket s = some bytes ∧
      decodeSlavePacket (copyTo memory bytes) = (crc, r) ∧ crc = r.crc ∧
      r.deviceId = s.deviceId ∧ r.functionId = s.functionId ∧
      (s.functionId = mbFRhr ∨ s.functionId = mbFRir → r.dataSize = s.dataSize ∧
        ∀ u : Fin maxBodySize, u < s.dataSize.toNat → r.body u = s.body u) ∧
      (s.functionId = mbFWsc ∨ s.functionId = mbFWsr →
        r.address = s.address ∧ r.body ⟨0, by decide⟩ = s.body ⟨0, by decide⟩) ∧
      (s.functionId = mbFWmr → r.address = s.address ∧ r.dataSize = s.dataSize)

theorem packet_eight (b₀ b₁ b₂ b₃ b₄ b₅ : Byte) :
    packet 8 [(0, b₀), (1, b₁), (2, b₂), (3, b₃), (4, b₄), (5, b₅)] =
      some (withCrc [b₀, b₁, b₂, b₃, b₄, b₅]) :=
  packet_eq rfl rfl

/-- The CRC of such a packet, as it is computed and as it is read. -/
theorem read_eight (memory : ℕ → Byte) (b₀ b₁ b₂ b₃ b₄ b₅ : Byte) :
    crcOf (copyTo memory (withCrc [b₀, b₁, b₂, b₃, b₄, b₅])) 6 = crc16 [b₀, b₁, b₂, b₃, b₄, b₅] ∧
      word (copyTo memory (withCrc [b₀, b₁, b₂, b₃, b₄, b₅]) 6)
        (copyTo memory (withCrc [b₀, b₁, b₂, b₃, b₄, b₅]) 7) = crc16 [b₀, b₁, b₂, b₃, b₄, b₅] :=
  ⟨crcOf_withCrc memory [b₀, b₁, b₂, b₃, b₄, b₅], crc_withCrc memory [b₀, b₁, b₂, b₃, b₄, b₅]⟩

/-- The functions with two bytes of contents do not overlap with the others. -/
theorem not_read_of_single {f : Byte} (h : f = mbFWsc ∨ f = mbFWsr) :
    ¬ (f = mbFRhr ∨ f = mbFRir) := by
  rcases h with rfl | rfl <;> decide

theorem not_read_of_multiple {f : Byte} (h : f = mbFWmr) :
    ¬ (f = mbFRhr ∨ f = mbFRir) ∧ ¬ (f = mbFWsc ∨ f = mbFWsr) := by
  subst h
  decide

/-! ### Master packets -/

section Decode

variable {p : ℕ → Byte} {n : ℕ}

theorem decodeMasterPacket_read (h : p 1 = mbFRhr ∨ p 1 = mbFRir) (hn : 8 ≤ n) :
    decodeMasterPacket p n = some (crcOf p 6, ⟨p 0, p 1, word (p 2) (p 3), word (p 4) (p 5),
      fun _ => 0, word (p 6) (p 7), 8⟩) := by
  rw [decodeMasterPacket, if_neg (by omega)]
  exact (if_pos h).trans (if_neg (by omega))

theorem decodeMasterPacket_single (h : p 1 = mbFWsc ∨ p 1 = mbFWsr) (hn : 8 ≤ n) :
    decodeMasterPacket p n = some (crcOf p 6, ⟨p 0, p 1, word (p 2) (p 3), 0,
      Function.update (fun _ => 0) ⟨0, by decide⟩ (word (p 4) (p 5)), word (p 6) (p 7), 8⟩) := by
  rw [decodeMasterPacket, if_neg (by omega)]
  exact (if_neg (not_read_of_single h)).trans ((if_pos h).trans (if_neg (by omega)))

theorem decodeMasterPacket_multiple (h : p 1 = mbFWmr) {dataSize : Short}
    (hdata : word (p 4) (p 5) = dataSize) (hsize : dataSize.toNat ≤ maxBodySize)
    (hn : 4 ≤ n) (hcount : dataSize.toNat ≤ n) :
    decodeMasterPacket p n = some (crcOf p (7 + 2 * dataSize.toNat),
      ⟨p 0, p 1, word (p 2) (p 3), dataSize, readBody p 7 dataSize.toNat,
        word (p (7 + 2 * dataSize.toNat)) (p (7 + 2 * dataSize.toNat + 1)),
        BitVec.ofNat 16 (1 + 1 + 2 + 2 + 1 + 2 * dataSize.toNat + 2)⟩) := by
  have hpacket : (BitVec.ofNat 16 (1 + 1 + 2 + 2 + 1 + 2 * dataSize.toNat + 2)).toNat =
      9 + 2 * dataSize.toNat := by
    have hmax : maxBodySize = 255 := rfl
    rw [BitVec.toNat_ofNat, Nat.mod_eq_of_lt (by omega)]
    omega
  obtain ⟨hread, hsingle⟩ := not_read_of_multiple h
  rw [decodeMasterPacket, if_neg (by omega)]
  refine (if_neg hread).trans ((if_neg hsingle).trans ((if_pos h).trans ?_))
  rw [hdata, if_neg (by omega), if_pos hsize, hpacket,
    show 9 + 2 * dataSize.toNat - 2 = 7 + 2 * dataSize.toNat by omega,
    show 9 + 2 * dataSize.toNat - 1 = 7 + 2 * dataSize.toNat + 1 by omega]

end Decode

theorem masterRoundTrip_read {m : WMasterFrame} (h : m.functionId = mbFRhr ∨ m.functionId = mbFRir) :
    MasterRoundTrip m := by
  intro memory
  have hcreate : createMasterPacket m = some (withCrc [m.deviceId, m.functionId, hi m.address,
      lo m.address, hi m.dataSize, lo m.dataSize]) := by
    rw [createMasterPacket, if_pos h]
    exact packet_eight ..
  obtain ⟨hcrc, hcrc'⟩ := read_eight memory m.deviceId m.functionId (hi m.address) (lo m.address)
    (hi m.dataSize) (lo m.dataSize)
  have hdecode : decodeMasterPacket (copyTo memory (withCrc [m.deviceId, m.functionId,
      hi m.address, lo m.address, hi m.dataSize, lo m.dataSize])) 8 = some
        (crc16 [m.deviceId, m.functionId, hi m.address, lo m.address, hi m.dataSize, lo m.dataSize],
          ⟨m.deviceId, m.functionId, word (hi m.address) (lo m.address),
            word (hi m.dataSize) (lo m.dataSize), fun _ => 0, crc16 [m.deviceId, m.functionId,
              hi m.address, lo m.address, hi m.dataSize, lo m.dataSize], 8⟩) := by
    rw [decodeMasterPacket_read h le_rfl, hcrc, hcrc']
    rfl
  refine ⟨_, _, _, hcreate, hdecode, rfl, rfl, rfl, word_hi_lo _, fun _ => word_hi_lo _, ?_, ?_⟩
  · exact fun hsingle => absurd h (not_read_of_single hsingle)
  · exact fun hmultiple => absurd h (not_read_of_multiple hmultiple).1

theorem masterRoundTrip_single {m : WMasterFrame}
    (h : m.functionId = mbFWsc ∨ m.functionId = mbFWsr) : MasterRoundTrip m := by
  intro memory
  have hread := not_read_of_single h
  have hcreate : createMasterPacket m = some (withCrc [m.deviceId, m.functionId, hi m.address,
      lo m.address, hi (m.body ⟨0, by decide⟩), lo (m.body ⟨0, by decide⟩)]) := by
    rw [createMasterPacket, if_neg hread, if_pos h]
    exact packet_eight ..
  obtain ⟨hcrc, hcrc'⟩ := read_eight memory m.deviceId m.functionId (hi m.address) (lo m.address)
    (hi (m.body ⟨0, by decide⟩)) (lo (m.body ⟨0, by decide⟩))
  have hdecode : decodeMasterPacket (copyTo memory (withCrc [m.deviceId, m.functionId,
      hi m.address, lo m.address, hi (m.body ⟨0, by decide⟩), lo (m.body ⟨0, by decide⟩)])) 8 =
        some (crc16 [m.deviceId, m.functionId, hi m.address, lo m.address,
            hi (m.body ⟨0, by decide⟩), lo (m.body ⟨0, by decide⟩)],
          ⟨m.deviceId, m.functionId, word (hi m.address) (lo m.address), 0,
            Function.update (fun _ => 0) ⟨0, by decide⟩
              (word (hi (m.body ⟨0, by decide⟩)) (lo (m.body ⟨0, by decide⟩))),
            crc16 [m.deviceId, m.functionId, hi m.address, lo m.address,
              hi (m.body ⟨0, by decide⟩), lo (m.body ⟨0, by decide⟩)], 8⟩) := by
    rw [decodeMasterPacket_single h le_rfl, hcrc, hcrc']
    rfl
  refine ⟨_, _, _, hcreate, hdecode, rfl, rfl, rfl, word_hi_lo _, ?_, ?_, ?_⟩
  · exact fun hread' => absurd hread' hread
  · intro _
    dsimp only
    rw [Function.update_self, word_hi_lo]
  · exact fun hmultiple => absurd h (not_read_of_multiple hmultiple).2

theorem packet_body (front : List Byte) {writes : List (ℕ × Byte)} (body : Fin maxBodySize → Short)
    {dataSize packetSize : ℕ} (h : dataSize ≤ maxBodySize)
    (hwrites : writes = (List.range' 0 front.length).zip front)
    (hsize : packetSize = front.length + 2 * dataSize + 2) :
    packet packetSize (writes ++ bodyWrites front.length body dataSize) =
      some (withCrc (front ++ (bodyWrites front.length body dataSize).map Prod.snd)) := by
  have hlength : writes.length = front.length := by rw [hwrites]; simp
  rw [packet_eq, List.map_append]
  · congr 3
    rw [hwrites, List.map_snd_zip (by simp)]
  · rw [List.map_append, bodyWrites_fst _ _ h, List.length_append, bodyWrites_length _ _ h, hlength,
      hwrites, List.map_fst_zip (by simp), ← List.range'_append_1, Nat.zero_add]
  · rw [List.length_append, bodyWrites_length _ _ h, hlength, hsize]

theorem masterRoundTrip_multiple {m : WMasterFrame} (h : m.functionId = mbFWmr)
    (hsize : m.dataSize.toNat ≤ 127) : MasterRoundTrip m := by
  intro memory
  have hmax : m.dataSize.toNat ≤ maxBodySize := hsize.trans (by decide)
  obtain ⟨hread, hsingle⟩ := not_read_of_multiple h
  let front := [m.deviceId, m.functionId, hi m.address, lo m.address, hi m.dataSize, lo m.dataSize,
    lo m.dataSize <<< 1]
  let bytes := front ++ (bodyWrites 7 m.body m.dataSize.toNat).map Prod.snd
  have hlength : bytes.length = 7 + 2 * m.dataSize.toNat := by
    rw [List.length_append, List.length_map, bodyWrites_length _ _ hmax]
    rfl
  have hcreate : createMasterPacket m = some (withCrc bytes) := by
    rw [createMasterPacket, if_neg hread, if_neg hsingle, if_pos h, if_pos hmax]
    apply packet_body front m.body hmax rfl
    change _ = 7 + 2 * m.dataSize.toNat + 2
    omega
  have hpacket : (withCrc bytes).length = 9 + 2 * m.dataSize.toNat := by
    rw [withCrc, List.length_append, hlength]
    simp only [List.length_cons, List.length_nil]
    omega
  have hdecode := decodeMasterPacket_multiple (p := copyTo memory (withCrc bytes))
    (n := (withCrc bytes).length) h (word_hi_lo m.dataSize) hmax (by omega) (by omega)
  rw [← hlength, crcOf_withCrc, crc_withCrc, hlength] at hdecode
  refine ⟨_, _, _, hcreate, hdecode, rfl, rfl, rfl, word_hi_lo _, ?_, ?_, ?_⟩
  · exact fun hread' => absurd hread' hread
  · exact fun hsingle' => absurd hsingle' hsingle
  · exact fun _ => ⟨rfl, fun u hu => readBody_bodyWrites memory front m.body u hu⟩

/-! ### Slave packets -/

section Decode

variable {p : ℕ → Byte}

theorem decodeSlavePacket_read (h : p 1 = mbFRhr ∨ p 1 = mbFRir) {dataSize : ℕ}
    (hdata : (p 2 >>> 1).toNat = dataSize) :
    decodeSlavePacket p = (crcOf p (3 + 2 * dataSize), ⟨p 0, p 1, 0, BitVec.ofNat 16 dataSize,
      readBody p 3 dataSize, word (p (3 + 2 * dataSize)) (p (3 + 2 * dataSize + 1)),
      BitVec.ofNat 16 (1 + 1 + 1 + 2 * dataSize + 2)⟩) := by
  rw [decodeSlavePacket]
  refine (if_pos h).trans ?_
  subst hdata
  dsimp only
  rw [show 1 + 1 + 1 + 2 * (p 2 >>> 1).toNat + 2 - 2 = 3 + 2 * (p 2 >>> 1).toNat by omega,
    show 1 + 1 + 1 + 2 * (p 2 >>> 1).toNat + 2 - 1 = 3 + 2 * (p 2 >>> 1).toNat + 1 by omega]

theorem decodeSlavePacket_single (h : p 1 = mbFWsc ∨ p 1 = mbFWsr) :
    decodeSlavePacket p = (crcOf p 6, ⟨p 0, p 1, word (p 2) (p 2), 0,
      Function.update (fun _ => 0) ⟨0, by decide⟩ (word (p 4) (p 5)), word (p 6) (p 7), 8⟩) := by
  rw [decodeSlavePacket]
  exact (if_neg (not_read_of_single h)).trans (if_pos h)

theorem decodeSlavePacket_multiple (h : p 1 = mbFWmr) :
    decodeSlavePacket p = (crcOf p 6, ⟨p 0, p 1, word (p 2) (p 2), word (p 4) (p 5), fun _ => 0,
      word (p 6) (p 7), 8⟩) := by
  obtain ⟨hread, hsingle⟩ := not_read_of_multiple h
  rw [decodeSlavePacket]
  exact (if_neg hread).trans ((if_neg hsingle).trans (if_pos h))

end Decode

theorem slaveRoundTrip_read {s : WSlaveFrame} (h : s.functionId = mbFRhr ∨ s.functionId = mbFRir)
    (hsize : s.dataSize.toNat ≤ 127) : SlaveRoundTrip s := by
  intro memory
  have hmax : s.dataSize.toNat ≤ maxBodySize := hsize.trans (by decide)
  let howBytes := BitVec.ofNat 8 (2 * s.dataSize.toNat)
  have hhow : howBytes.toNat = 2 * s.dataSize.toNat := by
    simp only [howBytes, BitVec.toNat_ofNat]
    omega
  let front := [s.deviceId, s.functionId, howBytes]
  let bytes := front ++ (bodyWrites 3 s.body s.dataSize.toNat).map Prod.snd
  have hlength : bytes.length = 3 + 2 * s.dataSize.toNat := by
    rw [List.length_append, List.length_map, bodyWrites_length _ _ hmax]
    rfl
  have hcreate : createSlavePacket s = some (withCrc bytes) := by
    rw [createSlavePacket, if_pos h]
    dsimp only
    rw [if_pos hmax]
    apply packet_body front s.body hmax rfl
    change 1 + 1 + 1 + howBytes.toNat + 2 = 3 + 2 * s.dataSize.toNat + 2
    omega
  have hdata : (copyTo memory (withCrc bytes) 2 >>> 1).toNat = s.dataSize.toNat := by
    change (howBytes >>> 1).toNat = _
    rw [BitVec.toNat_ushiftRight, hhow, Nat.shiftRight_eq_div_pow]
    omega
  have hdecode := decodeSlavePacket_read h hdata
  rw [← hlength, crcOf_withCrc, crc_withCrc, hlength] at hdecode
  refine ⟨_, _, _, hcreate, hdecode, rfl, rfl, rfl, ?_, ?_, ?_⟩
  · intro _
    refine ⟨?_, fun u hu => readBody_bodyWrites memory front s.body u hu⟩
    simp
  · exact fun hsingle => absurd h (not_read_of_single hsingle)
  · exact fun hmultiple => absurd h (not_read_of_multiple hmultiple).1

/-- The decoder makes both bytes of the address of the high one. -/
theorem slaveRoundTrip_single_iff {s : WSlaveFrame}
    (h : s.functionId = mbFWsc ∨ s.functionId = mbFWsr) :
    SlaveRoundTrip s ↔ hi s.address = lo s.address := by
  have hread := not_read_of_single h
  have hcreate : createSlavePacket s = some (withCrc [s.deviceId, s.functionId, hi s.address,
      lo s.address, hi (s.body ⟨0, by decide⟩), lo (s.body ⟨0, by decide⟩)]) := by
    rw [createSlavePacket, if_neg hread, if_pos h]
    exact packet_eight ..
  have hdecode (memory : ℕ → Byte) := decodeSlavePacket_single (p := copyTo memory
    (withCrc [s.deviceId, s.functionId, hi s.address, lo s.address, hi (s.body ⟨0, by decide⟩),
      lo (s.body ⟨0, by decide⟩)])) h
  constructor
  · intro hround
    obtain ⟨bytes, crc, r, hbytes, hr, -, -, -, -, hcontents, -⟩ := hround 0
    obtain rfl := Option.some.inj (hcreate.symm.trans hbytes)
    obtain ⟨-, rfl⟩ := Prod.mk.inj ((hdecode 0).symm.trans hr)
    exact (word_self s.address).mp (hcontents h).1
  · intro haddress memory
    obtain ⟨hcrc, hcrc'⟩ := read_eight memory s.deviceId s.functionId (hi s.address)
      (lo s.address) (hi (s.body ⟨0, by decide⟩)) (lo (s.body ⟨0, by decide⟩))
    refine ⟨_, _, _, hcreate, hdecode memory, hcrc.trans hcrc'.symm, rfl, rfl, ?_, ?_, ?_⟩
    · exact fun hread' => absurd hread' hread
    · intro _
      refine ⟨(word_self s.address).mpr haddress, ?_⟩
      dsimp only
      rw [Function.update_self]
      exact word_hi_lo _
    · exact fun hmultiple => absurd h (not_read_of_multiple hmultiple).2

theorem slaveRoundTrip_multiple_iff {s : WSlaveFrame} (h : s.functionId = mbFWmr) :
    SlaveRoundTrip s ↔ hi s.address = lo s.address := by
  obtain ⟨hread, hsingle⟩ := not_read_of_multiple h
  have hcreate : createSlavePacket s = some (withCrc [s.deviceId, s.functionId, hi s.address,
      lo s.address, hi s.dataSize, lo s.dataSize]) := by
    rw [createSlavePacket, if_neg hread, if_neg hsingle, if_pos h]
    exact packet_eight ..
  have hdecode (memory : ℕ → Byte) := decodeSlavePacket_multiple (p := copyTo memory
    (withCrc [s.deviceId, s.functionId, hi s.address, lo s.address, hi s.dataSize, lo s.dataSize]))
    h
  constructor
  · intro hround
    obtain ⟨bytes, crc, r, hbytes, hr, -, -, -, -, -, hcontents⟩ := hround 0
    obtain rfl := Option.some.inj (hcreate.symm.trans hbytes)
    obtain ⟨-, rfl⟩ := Prod.mk.inj ((hdecode 0).symm.trans hr)
    exact (word_self s.address).mp (hcontents h).1
  · intro haddress memory
    obtain ⟨hcrc, hcrc'⟩ := read_eight memory s.deviceId s.functionId (hi s.address)
      (lo s.address) (hi s.dataSize) (lo s.dataSize)
    refine ⟨_, _, _, hcreate, hdecode memory, hcrc.trans hcrc'.symm, rfl, rfl, ?_, ?_, ?_⟩
    · exact fun hread' => absurd hread' hread
    · exact fun hsingle' => absurd hsingle' hsingle
    · exact fun _ => ⟨(word_self s.address).mpr haddress, word_hi_lo _⟩

/-! ## The codec -/

theorem masterRoundTrip_all {m : WMasterFrame} (hfunction : Supported m.functionId)
    (hsize : m.dataSize.toNat ≤ 127) : MasterRoundTrip m := by
  rcases hfunction with h | h | h | h | h
  · exact masterRoundTrip_read (.inl h)
  · exact masterRoundTrip_read (.inr h)
  · exact masterRoundTrip_single (.inl h)
  · exact masterRoundTrip_single (.inr h)
  · exact masterRoundTrip_multiple h hsize

/-- Every master frame is decoded from its packet, and a slave frame is if and only if it is the
answer to a read or both bytes of its address are the same. -/
theorem roundTrip_iff {m : WMasterFrame} {s : WSlaveFrame} (hm : Supported m.functionId)
    (hs : Supported s.functionId) (hmsize : m.dataSize.toNat ≤ 127)
    (hssize : s.dataSize.toNat ≤ 127) :
    MasterRoundTrip m ∧ SlaveRoundTrip s ↔
      (s.functionId = mbFRhr ∨ s.functionId = mbFRir) ∨ hi s.address = lo s.address := by
  rw [and_iff_right (masterRoundTrip_all hm hmsize)]
  rcases hs with h | h | h | h | h
  · exact iff_of_true (slaveRoundTrip_read (.inl h) hssize) (.inl (.inl h))
  · exact iff_of_true (slaveRoundTrip_read (.inr h) hssize) (.inl (.inr h))
  · rw [slaveRoundTrip_single_iff (.inl h), or_iff_right (not_read_of_single (.inl h))]
  · rw [slaveRoundTrip_single_iff (.inr h), or_iff_right (not_read_of_single (.inr h))]
  · rw [slaveRoundTrip_multiple_iff h, or_iff_right (not_read_of_multiple h).1]

/-- The answer to a write of register 1 gives register 0. -/
def registerOne : WSlaveFrame := ⟨1, mbFWsr, 1, 0x0001, fun _ => 7⟩

theorem registerOne_lost :
    ¬ ∀ (m : WMasterFrame) (s : WSlaveFrame), Supported m.functionId → Supported s.functionId →
      m.dataSize.toNat ≤ 127 → s.dataSize.toNat ≤ 127 → MasterRoundTrip m ∧ SlaveRoundTrip s := by
  intro h
  have hround := (h ⟨1, mbFRhr, 0, fun _ => 0, 0⟩ registerOne (.inl rfl)
    (.inr (.inr (.inr (.inl rfl)))) (by decide) (by decide)).2
  rw [slaveRoundTrip_single_iff (.inr rfl)] at hround
  exact absurd hround (by decide)

/-- A write of three registers, and its answer. -/
theorem roundTrip_three :
    MasterRoundTrip ⟨1, mbFWmr, 0x1234, fun u => BitVec.ofNat 16 u, 3⟩ ∧
        SlaveRoundTrip ⟨1, mbFWmr, 3, 0x1234, fun _ => 0⟩ ↔
      (mbFWmr = mbFRhr ∨ mbFWmr = mbFRir) ∨ hi 0x1234 = lo 0x1234 :=
  roundTrip_iff (.inr (.inr (.inr (.inr rfl)))) (.inr (.inr (.inr (.inr rfl)))) (by decide)
    (by decide)

end Modbus
end Szarp
