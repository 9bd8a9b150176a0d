import Szarp.Lib.Dll
import Szarp.Szbase.Date

/-!
# The block cache

`szb_buffer_str` keeps blocks in two hash maps.  The locators of the blocks form one list by the
time of their last use, from which blocks are evicted, and one list for each parameter.
-/

namespace Szarp
namespace Szbase

inductive BlockType where
  | min10
  | sec10
deriving DecidableEq

variable (P : Type) [DecidableEq P]

abbrev BufferKey := P × ℤ

/-- A hash map, in the order in which it is iterated over. -/
abbrev Storage := List (BufferKey P × Option ℕ)

structure Block where
  type : BlockType
  param : P
  startTime : ℤ
  locator : Option ℕ

/-- Pointers are natural numbers.  `blocks` and `locators` are the objects that exist: a locator
is given by the block it is for, and its other fields are the four maps behind. -/
structure Buffer where
  datastorage : Storage P
  probestorage : Storage P
  paramindex : P → Option ℕ
  newestBlock : Option ℕ
  oldestBlock : Option ℕ
  blocksC : ℤ
  maxBlocks : ℤ
  locked : ℤ
  blocks : ℕ → Option (Block P)
  locators : ℕ → Option ℕ
  newer : ℕ → Option ℕ
  older : ℕ → Option ℕ
  nextSameParam : ℕ → Option ℕ
  prevSameParam : ℕ → Option ℕ

variable {P}

def Block.key (b : Block P) : BufferKey P := (b.param, b.startTime)

namespace Storage

/-- The value under a key; a key without a value is inserted with `NULL`. -/
def find (m : Storage P) (k : BufferKey P) : Option ℕ × Storage P :=
  match m.lookup k with
  | some v => (v, m)
  | none => (none, (k, none) :: m)

/-- `m[k] = v` -/
def assign (m : Storage P) (k : BufferKey P) (v : Option ℕ) : Storage P :=
  (k, v) :: m.filter fun e => e.1 ≠ k

/-- `none`: there is nothing to erase. -/
def erase (m : Storage P) (k : BufferKey P) : Option (Storage P) :=
  if k ∈ m.map Prod.fst then some (m.filter fun e => e.1 ≠ k) else none

end Storage

/-! A failed assertion and the use of an object that does not exist make an operation `none`. -/

namespace Buffer

def empty (size : ℤ) : Buffer P :=
  ⟨[], [], fun _ => none, none, none, 0, size, 0, fun _ => none, fun _ => none, fun _ => none,
    fun _ => none, fun _ => none, fun _ => none⟩

def storage (s : Buffer P) : BlockType → Storage P
  | .min10 => s.datastorage
  | .sec10 => s.probestorage

def setStorage (s : Buffer P) (type : BlockType) (m : Storage P) : Buffer P :=
  match type with
  | .min10 => { s with datastorage := m }
  | .sec10 => { s with probestorage := m }

section fields

variable (s : Buffer P) (l : ℕ) (v : Option ℕ)

def setNewer : Option (Buffer P) :=
  if s.locators l = none then none else some { s with newer := Dll.set s.newer (some l) v }

def setOlder : Option (Buffer P) :=
  if s.locators l = none then none else some { s with older := Dll.set s.older (some l) v }

def setNextSameParam : Option (Buffer P) :=
  if s.locators l = none then none
  else some { s with nextSameParam := Dll.set s.nextSameParam (some l) v }

def setPrevSameParam : Option (Buffer P) :=
  if s.locators l = none then none
  else some { s with prevSameParam := Dll.set s.prevSameParam (some l) v }

end fields

/-- `if (p != NULL) p->prev_same_param = v` -/
def setPrevSameParamOf (s : Buffer P) (p v : Option ℕ) : Option (Buffer P) :=
  match p with
  | none => some s
  | some p => s.setPrevSameParam p v

/-- `param`'s index is kept in a `std::map`. -/
def setParamindex (s : Buffer P) (p : P) (v : Option ℕ) : Buffer P :=
  { s with paramindex := Function.update s.paramindex p v }

/-! ## Deleting -/

/-- The part of `~BlockLocator` about the blocks of the same parameter. -/
def unlinkParam (s : Buffer P) (l : ℕ) (p : P) : Option (Buffer P) :=
  match s.prevSameParam l with
  | some q => do
    let s ← s.setNextSameParam q (s.nextSameParam l)
    s.setPrevSameParamOf (s.nextSameParam l) (s.prevSameParam l)
  | none => (s.setParamindex p (s.nextSameParam l)).setPrevSameParamOf (s.nextSameParam l) none

/-- The part of `~BlockLocator` about the order of use. -/
def unlinkUsage (s : Buffer P) (l : ℕ) : Option (Buffer P) :=
  if some l = s.newestBlock ∧ some l = s.oldestBlock then
    if s.older l = none ∧ s.newer l = none then
      some { s with newestBlock := none, oldestBlock := none }
    else none
  else if some l = s.newestBlock then
    match s.newer l, s.older l with
    | none, some o => ({ s with newestBlock := some o } : Buffer P).setNewer o none
    | _, _ => none
  else if some l = s.oldestBlock then
    match s.older l, s.newer l with
    | none, some n => ({ s with oldestBlock := some n } : Buffer P).setOlder n none
    | _, _ => none
  else
    match s.older l, s.newer l with
    | some o, some n => do
      let s ← s.setOlder n (some o)
      s.setNewer o (some n)
    | _, _ => none

def deleteLocator (s : Buffer P) (l : ℕ) : Option (Buffer P) := do
  let b ← s.locators l
  let block ← s.blocks b
  let s ← ({ s with blocksC := s.blocksC - 1 } : Buffer P).unlinkParam l block.param
  let s ← s.unlinkUsage l
  some { s with locators := Function.update s.locators l none }

def destroyBlock (s : Buffer P) (b : ℕ) : Option (Buffer P) := do
  let block ← s.blocks b
  let s ← match block.locator with
    | some l => s.deleteLocator l
    | none => some s
  some { s with blocks := Function.update s.blocks b none }

def eraseKey (s : Buffer P) (type : BlockType) (k : BufferKey P) : Option (Buffer P) :=
  match type with
  | .min10 => (s.datastorage.erase k).map fun m => { s with datastorage := m }
  | .sec10 => (s.probestorage.erase k).map fun m => { s with probestorage := m }

def deleteBlock (s : Buffer P) (b : ℕ) : Option (Buffer P) := do
  let block ← s.blocks b
  let s ← s.eraseKey block.type block.key
  s.destroyBlock b

/-- `while (blocks_c > max_blocks) DeleteBlock(oldest_block->block)`; the first argument bounds
the passes. -/
def evict : ℕ → Buffer P → Option (Buffer P)
  | n, s =>
    if s.blocksC > s.maxBlocks then
      match n with
      | 0 => none
      | n + 1 => do
        let l ← s.oldestBlock
        let b ← s.locators l
        let s ← s.deleteBlock b
        evict n s
    else some s

def evictAll (s : Buffer P) : Option (Buffer P) := evict (s.blocksC - s.maxBlocks).toNat s

/-! ## Adding -/

/-- The new locator becomes the newest. -/
def linkUsage (s : Buffer P) (l : ℕ) : Option (Buffer P) :=
  match s.newestBlock with
  | none => some { s with newestBlock := some l, oldestBlock := some l }
  | some n => do
    let s ← s.setOlder l (some n)
    let s ← s.setNewer n (some l)
    some { s with newestBlock := some l }

/-- The new locator becomes the first of its parameter. -/
def linkParam (s : Buffer P) (l : ℕ) (p : P) : Option (Buffer P) :=
  match s.paramindex p with
  | none => some (s.setParamindex p (some l))
  | some q => do
    let s ← s.setNextSameParam l (some q)
    let s ← s.setPrevSameParam q (some l)
    some (s.setParamindex p (some l))

/-- The constructor of `BlockLocator`, at the address `l`. -/
def newLocator (s : Buffer P) (l b : ℕ) : Option (Buffer P) := do
  let block ← s.blocks b
  let s : Buffer P := { s with
    locators := Function.update s.locators l (some b)
    newer := Dll.set s.newer (some l) none
    older := Dll.set s.older (some l) none
    nextSameParam := Dll.set s.nextSameParam (some l) none
    prevSameParam := Dll.set s.prevSameParam (some l) none }
  let s ← s.linkUsage l
  let s ← s.linkParam l block.param
  let s : Buffer P := { s with blocksC := s.blocksC + 1 }
  if s.locked = 0 then s.evictAll else some s

def store (s : Buffer P) (type : BlockType) (k : BufferKey P) (b : ℕ) : Buffer P :=
  match type with
  | .min10 => { s with datastorage := s.datastorage.assign k (some b) }
  | .sec10 => { s with probestorage := s.probestorage.assign k (some b) }

/-- `l` is the address of the new locator. -/
def addBlock (s : Buffer P) (b l : ℕ) : Option (Buffer P) := do
  let block ← s.blocks b
  let s ← (s.store block.type block.key b).newLocator l b
  let block ← s.blocks b
  some { s with blocks := Function.update s.blocks b (some { block with locator := some l }) }

/-! ## Using -/

def used (s : Buffer P) (l : ℕ) : Option (Buffer P) :=
  if some l = s.newestBlock then
    if s.newer l = none then some s else none
  else do
    let s ←
      if some l = s.oldestBlock then
        match s.older l, s.newer l with
        | none, some n => ({ s with oldestBlock := some n } : Buffer P).setOlder n none
        | _, _ => none
      else
        match s.older l, s.newer l with
        | some o, some n => do
          let s ← s.setOlder n (some o)
          s.setNewer o (some n)
        | _, _ => none
    let s ← s.setNewer l none
    let s ← s.setOlder l s.newestBlock
    let o ← s.newestBlock
    let s ← s.setNewer o (some l)
    some { s with newestBlock := some l }

def markAsUsed (s : Buffer P) (b : ℕ) : Option (Buffer P) := do
  let block ← s.blocks b
  let l ← block.locator
  s.used l

def findDataBlock (s : Buffer P) (param : P) (year : ℤ) (month : ℕ) : Option (Buffer P) :=
  let (found, m) := s.datastorage.find (param, probe2time 0 year month)
  let s := { s with datastorage := m }
  match found with
  | some b => s.markAsUsed b
  | none => some s

def findProbeBlock (s : Buffer P) (param : P) (startTime : ℤ) : Option (Buffer P) :=
  let (found, m) := s.probestorage.find (param, startTime)
  let s := { s with probestorage := m }
  match found with
  | some b => s.markAsUsed b
  | none => some s

/-! ## Clearing -/

/-- `while (paramindex[param] != NULL) DeleteBlock(paramindex[param]->block)`; the first argument
bounds the passes. -/
def clearParam (p : P) : ℕ → Buffer P → Option (Buffer P)
  | n, s =>
    match s.paramindex p with
    | none => some s
    | some l =>
      match n with
      | 0 => none
      | n + 1 => do
        let b ← s.locators l
        let s ← s.deleteBlock b
        clearParam p n s

def clearParamFromCache (s : Buffer P) (p : P) : Option (Buffer P) :=
  clearParam p s.blocksC.toNat s

/-- The blocks of one hash map are deleted, from its first entry on. -/
def freeStorage (type : BlockType) : Storage P → Buffer P → Option (Buffer P)
  | [], s => some s
  | (_, v) :: rest, s => do
    let s ← match v with
      | some b => s.destroyBlock b
      | none => some s
    freeStorage type rest (s.setStorage type rest)

def freeBlocks (s : Buffer P) : Option (Buffer P) := do
  let s ← freeStorage .min10 s.datastorage s
  freeStorage .sec10 s.probestorage s

def reset (s : Buffer P) : Option (Buffer P) := do
  let s ← s.freeBlocks
  if s.blocksC = 0 then some s else none

/-! ## Locking -/

def lock (s : Buffer P) : Buffer P := { s with locked := s.locked + 1 }

def unlock (s : Buffer P) : Option (Buffer P) :=
  let s := { s with locked := s.locked - 1 }
  if s.locked < 0 then none
  else if s.locked ≠ 0 then some s
  else s.evictAll

end Buffer

end Szbase
end Szarp
