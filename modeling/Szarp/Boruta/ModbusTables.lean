import Szarp.Boruta.ModbusConfigure
import Mathlib.Data.List.Forall2

/-!
# Tables of Modbus units

A configured unit has an operation on the documented registers for every element, unless elements get in
each other's way: through an address that several elements use, through a `DoubleOrder` of one
param, or through a send element that is not an integer.
-/

namespace Szarp
namespace Boruta

/-! ## Registers -/

namespace Registers

/-- Registers are entered under their own address. -/
def Valid (s : Registers) : Prop :=
  ∀ a reg, s.entries a = some reg → reg.addr = a ∧ reg.number < s.made

/-- An entry may be replaced by a register that is made. -/
structure Grows (s t : Registers) : Prop where
  made_le : s.made ≤ t.made
  present : ∀ a, s.entries a ≠ none → t.entries a ≠ none
  new : ∀ a reg, t.entries a = some reg →
    s.entries a = some reg ∨ reg.addr = a ∧ s.made ≤ reg.number ∧ reg.number < t.made

theorem Grows.refl (s : Registers) : s.Grows s := ⟨le_rfl, fun _ h => h, fun _ _ h => Or.inl h⟩

theorem Grows.trans {s t w : Registers} (h : s.Grows t) (h' : t.Grows w) : s.Grows w := by
  refine ⟨h.made_le.trans h'.made_le, fun a ha => h'.present a (h.present a ha), fun a reg hreg => ?_⟩
  rcases h'.new a reg hreg with hold | ⟨haddr, hge, hlt⟩
  · rcases h.new a reg hold with hold | ⟨haddr, hge, hlt⟩
    · exact Or.inl hold
    · exact Or.inr ⟨haddr, hge, lt_of_lt_of_le hlt h'.made_le⟩
  · exact Or.inr ⟨haddr, h.made_le.trans hge, hlt⟩

theorem Valid.grows {s t : Registers} (h : s.Valid) (hgrows : s.Grows t) : t.Valid := by
  intro a reg hreg
  rcases hgrows.new a reg hreg with hold | ⟨haddr, -, hlt⟩
  · obtain ⟨haddr, hlt⟩ := h a reg hold
    exact ⟨haddr, lt_of_lt_of_le hlt hgrows.made_le⟩
  · exact ⟨haddr, hlt⟩

/-- No entry is replaced, and there are entries for the addresses. -/
structure Found (addrs : List ℕ) (s t : Registers) : Prop extends Grows s t where
  kept : ∀ a reg, s.entries a = some reg → t.entries a = some reg
  other : ∀ a ∉ addrs, t.entries a = s.entries a
  found : ∀ a ∈ addrs, t.entries a ≠ none

theorem Found.nil (s : Registers) : Found [] s s :=
  ⟨.refl s, fun _ _ h => h, fun _ _ => rfl, fun _ h => absurd h List.not_mem_nil⟩

theorem Found.append {as bs : List ℕ} {s t w : Registers} (h : Found as s t) (h' : Found bs t w) :
    Found (as ++ bs) s w := by
  refine ⟨h.toGrows.trans h'.toGrows, fun a reg hreg => h'.kept a reg (h.kept a reg hreg),
    fun a ha => ?_, fun a ha => ?_⟩
  · rw [List.mem_append, not_or] at ha
    rw [h'.other a ha.2, h.other a ha.1]
  · rcases List.mem_append.mp ha with ha | ha
    · exact h'.present a (h.found a ha)
    · exact h'.found a ha

theorem Found.congr {as bs : List ℕ} {s t : Registers} (h : Found as s t)
    (hmem : ∀ a, a ∈ as ↔ a ∈ bs) : Found bs s t :=
  ⟨h.toGrows, h.kept, fun a ha => h.other a fun hmem' => ha ((hmem a).mp hmem'),
    fun a ha => h.found a ((hmem a).mpr ha)⟩

theorem make_entries (a : ℕ) (s : Registers) :
    (s.make a).2.entries a = some (s.make a).1 := Function.update_self a _ _

theorem make_entries_of_ne {a b : ℕ} (h : b ≠ a) (s : Registers) :
    (s.make a).2.entries b = s.entries b := Function.update_of_ne h _ _

theorem make_grows (a : ℕ) (s : Registers) : s.Grows (s.make a).2 := by
  refine ⟨Nat.le_succ _, fun b hb => ?_, fun b reg hreg => ?_⟩
  · by_cases h : b = a
    · rw [h, make_entries]
      exact Option.some_ne_none _
    · rwa [make_entries_of_ne h]
  · by_cases h : b = a
    · rw [h, make_entries] at hreg
      obtain rfl := Option.some.inj hreg
      exact Or.inr ⟨h.symm, le_rfl, Nat.lt_succ_self _⟩
    · rw [make_entries_of_ne h] at hreg
      exact Or.inl hreg

theorem find_of_some {a : ℕ} {s : Registers} {reg : RegisterObject} (h : s.entries a = some reg) :
    s.find a = (reg, s) := by
  rw [find, h]

theorem find_of_none {a : ℕ} {s : Registers} (h : s.entries a = none) : s.find a = s.make a := by
  rw [find, h]

theorem find_entries (a : ℕ) (s : Registers) : (s.find a).2.entries a = some (s.find a).1 := by
  cases h : s.entries a with
  | some reg =>
    rw [find_of_some h]
    exact h
  | none =>
    rw [find_of_none h]
    exact make_entries a s

theorem find_found (a : ℕ) (s : Registers) : Found [a] s (s.find a).2 := by
  cases h : s.entries a with
  | some reg =>
    rw [find_of_some h]
    refine ⟨.refl s, fun _ _ h => h, fun _ _ => rfl, fun b hb => ?_⟩
    rw [List.mem_singleton.mp hb, h]
    exact Option.some_ne_none _
  | none =>
    rw [find_of_none h]
    refine ⟨make_grows a s, fun b reg hreg => ?_, fun b hb => ?_, fun b hb => ?_⟩
    · rw [make_entries_of_ne _ s]
      · exact hreg
      · rintro rfl
        rw [h] at hreg
        contradiction
    · exact make_entries_of_ne (fun heq => hb (List.mem_singleton.mpr heq)) s
    · rw [List.mem_singleton.mp hb, make_entries]
      exact Option.some_ne_none _

end Registers

namespace Tables

/-- The registers for a list of addresses are found, and those that are made are received. -/
theorem findReceived_spec (rt : RegisterType) (addrs : List ℕ) (t : Tables) :
    ∃ registers received, (t.findReceived rt addrs).2 = { t with registers, received } ∧
      Registers.Found addrs t.registers registers ∧
      (t.findReceived rt addrs).1.map some = addrs.map registers.entries ∧
      ∀ r, r ∈ received ↔
        r ∈ t.received ∨ r.1 = rt ∧ r.2 ∈ addrs ∧ t.registers.entries r.2 = none := by
  induction addrs generalizing t with
  | nil => exact ⟨t.registers, t.received, rfl, .nil _, rfl, by simp⟩
  | cons addr addrs ih =>
    have hfound := Registers.find_found addr t.registers
    have hentry := Registers.find_entries addr t.registers
    obtain ⟨registers, received, heq, hrest, hregs, hreceived⟩ :=
      ih (if t.registers.entries addr = none then
        { t with registers := (t.registers.find addr).2 }.receive rt addr
      else { t with registers := (t.registers.find addr).2 })
    have hregisters : (if t.registers.entries addr = none then
        { t with registers := (t.registers.find addr).2 }.receive rt addr
      else { t with registers := (t.registers.find addr).2 }).registers =
        (t.registers.find addr).2 := by
      split <;> rfl
    rw [hregisters] at hrest hreceived
    refine ⟨registers, received, ?_, hfound.append hrest, ?_, fun r => ?_⟩
    · refine heq.trans ?_
      split <;> rfl
    · exact List.cons_eq_cons.mpr ⟨(hrest.kept addr _ hentry).symm, hregs⟩
    · rw [hreceived r, List.mem_cons]
      cases h : t.registers.entries addr with
      | some reg =>
        rw [if_neg (Option.some_ne_none reg), Registers.find_of_some h]
        constructor
        · rintro (hold | ⟨htype, hmem, hnone⟩)
          · exact Or.inl hold
          · exact Or.inr ⟨htype, Or.inr hmem, hnone⟩
        · rintro (hold | ⟨htype, hmem | hmem, hnone⟩)
          · exact Or.inl hold
          · rw [hmem, h] at hnone
            contradiction
          · exact Or.inr ⟨htype, hmem, hnone⟩
      | none =>
        rw [if_pos rfl, Registers.find_of_none h]
        change r ∈ t.received.insert (rt, addr) ∨ _ ↔ _
        rw [List.mem_insert_iff]
        by_cases heq : r.2 = addr
        · rw [heq, Registers.make_entries, h]
          have hpair : r = (rt, addr) ↔ r.1 = rt := by
            rw [Prod.ext_iff]
            exact and_iff_left heq
          rw [hpair]
          simp [or_comm]
        · have hpair : r ≠ (rt, addr) := fun hr => heq (congrArg Prod.snd hr)
          rw [Registers.make_entries_of_ne heq]
          simp [heq, hpair]

end Tables

/-! ## Documented operations -/

def Attr.getD {α : Type} (default : α) : Attr α → α
  | .value a => a
  | _ => default

/-- Where the most significant of two words comes, and the other one. -/
def FloatOrder.most : FloatOrder → ℕ
  | .mswlsw => 0
  | .lswmsw => 1

def FloatOrder.least : FloatOrder → ℕ
  | .mswlsw => 1
  | .lswmsw => 0

/-- Where the most significant two of four words come, and the others. -/
def DoubleOrder.most : DoubleOrder → ℕ
  | .msdlsd => 0
  | .lsdmsd => 2

def DoubleOrder.least : DoubleOrder → ℕ
  | .msdlsd => 2
  | .lsdmsd => 0

namespace Element

def addr (e : Element) : ℕ := (e.address.getD 0).toNat

def type (e : Element) : RegisterType := e.registerType.getD .holding

def factor (e : Element) : ℤ := e.prec.getD 0

def Makes (e : Element) : Prop := e.valType = .value .integer ∨ e.valType = .value .bcd

def TwoWords (e : Element) : Prop :=
  e.valType = .value .long ∨ e.valType = .value .float ∨ e.valType = .value .decimal2

def Words (e : Element) : Prop := e.valType = .value .double ∨ e.valType = .value .decimal3

end Element

namespace ModbusUnit

def floatOrderOf (u : ModbusUnit) (e : Element) : FloatOrder :=
  e.floatOrder.getD (u.floatOrder.getD .mswlsw)

def doubleOrderOf (u : ModbusUnit) (e : Element) : DoubleOrder :=
  e.doubleOrder.getD (u.doubleOrder.getD .msdlsd)

def lsw (u : ModbusUnit) (e : Element) : ℕ := register e.addr (u.floatOrderOf e).least

def msw (u : ModbusUnit) (e : Element) : ℕ := register e.addr (u.floatOrderOf e).most

/-- Four words, the most significant one first. -/
def doubleWords (u : ModbusUnit) (e : Element) : List ℕ :=
  [(u.doubleOrderOf e).most + (u.floatOrderOf e).most,
    (u.doubleOrderOf e).most + (u.floatOrderOf e).least,
    (u.doubleOrderOf e).least + (u.floatOrderOf e).most,
    (u.doubleOrderOf e).least + (u.floatOrderOf e).least].map (register e.addr)

def documentedParcookOp (u : ModbusUnit) (e : Element) : Option (ParcookOp ℕ) :=
  match e.valType with
  | .value .integer => some (.short e.addr)
  | .value .bcd => some (.bcd e.addr)
  | .value .long => some (.long (u.lsw e) (u.msw e) e.factor (e.valOp.getD .least = .least))
  | .value .float => some (.float (u.lsw e) (u.msw e) e.factor (e.valOp.getD .least = .least))
  | .value .double => some (.double (u.doubleWords e) e.factor (e.valOp2.getD .least = .least))
  | .value .decimal2 => some (.decimal2 (u.msw e) (u.lsw e) e.factor (e.valOp.getD .least = .least))
  | .value .decimal3 =>
    some (.decimal3 e.addr (register e.addr 1) (register e.addr 2) e.factor
      (e.valOp.getD .least = .least))
  | _ => none

def documentedSenderOp (u : ModbusUnit) (e : Element) : Option (SenderOp ℕ) :=
  match e.valType with
  | .value .integer => some (.short e.addr)
  | .value .float => some (.float (u.lsw e) (u.msw e) e.factor)
  | .value .decimal2 => some (.decimal2 (u.msw e) (u.lsw e) e.factor)
  | _ => none

end ModbusUnit

namespace ParcookOp

variable {ρ σ : Type}

def map (f : ρ → σ) : ParcookOp ρ → ParcookOp σ
  | .short reg => .short (f reg)
  | .bcd reg => .bcd (f reg)
  | .long lsw msw prec isLsw => .long (f lsw) (f msw) prec isLsw
  | .float lsw msw prec isLsw => .float (f lsw) (f msw) prec isLsw
  | .double regs prec isLsd => .double (regs.map f) prec isLsd
  | .decimal2 integer fraction prec isLsw => .decimal2 (f integer) (f fraction) prec isLsw
  | .decimal3 reg1 reg2 reg3 prec isLsw => .decimal3 (f reg1) (f reg2) (f reg3) prec isLsw

def regs : ParcookOp ρ → List ρ
  | .short reg | .bcd reg => [reg]
  | .long lsw msw _ _ | .float lsw msw _ _ => [msw, lsw]
  | .double regs _ _ => regs
  | .decimal2 integer fraction _ _ => [integer, fraction]
  | .decimal3 reg1 reg2 reg3 _ _ => [reg1, reg2, reg3]

theorem regs_map (f : ρ → σ) (op : ParcookOp ρ) : (op.map f).regs = op.regs.map f := by
  cases op <;> rfl

end ParcookOp

namespace SenderOp

variable {ρ σ : Type}

def map (f : ρ → σ) : SenderOp ρ → SenderOp σ
  | .short reg => .short (f reg)
  | .float lsw msw prec => .float (f lsw) (f msw) prec
  | .decimal2 integer fraction prec => .decimal2 (f integer) (f fraction) prec

def regs : SenderOp ρ → List ρ
  | .short reg => [reg]
  | .float lsw msw _ => [msw, lsw]
  | .decimal2 integer fraction _ => [integer, fraction]

theorem regs_map (f : ρ → σ) (op : SenderOp ρ) : (op.map f).regs = op.regs.map f := by
  cases op <;> rfl

end SenderOp

namespace ModbusUnit

/-- The addresses of an element, the most significant ones first. -/
def addrs (u : ModbusUnit) (e : Element) : List ℕ :=
  match u.documentedParcookOp e with
  | some op => op.regs
  | none => []

def regs (u : ModbusUnit) (e : Element) : List Reg := (u.addrs e).map fun a => (e.type, a)

structure Configures (u : ModbusUnit) (isSend : Bool) (e : Element) (t t' : Tables) : Prop where
  orders : t'.floatOrder = t.floatOrder ∧ t'.doubleOrder = t.doubleOrder
  grows : t.registers.Grows t'.registers
  other : ∀ a ∉ u.addrs e, t'.registers.entries a = t.registers.entries a
  found : ∀ a ∈ u.addrs e, t'.registers.entries a ≠ none
  kept : ¬e.Makes → ∀ a reg, t.registers.entries a = some reg → t'.registers.entries a = some reg
  made : e.Makes → ∀ a ∈ u.addrs e, ∀ reg, t'.registers.entries a = some reg →
    t.registers.made ≤ reg.number
  parcook : isSend = false → t'.senderOps = t.senderOps ∧ ∃ op doc,
    t'.parcookOps = t.parcookOps ++ [op] ∧ u.documentedParcookOp e = some doc ∧
      op.map some = doc.map t'.registers.entries
  sender : isSend = true → t'.parcookOps = t.parcookOps ∧ ∃ op doc,
    t'.senderOps = t.senderOps ++ [op] ∧ u.documentedSenderOp e = some doc ∧
      op.map some = doc.map t'.registers.entries
  sent : ∀ r, r ∈ t'.sent ↔
    r ∈ t.sent ∨ r ∈ u.regs e ∧ isSend = true ∧ e.valType = .value .integer
  received : ∀ r, r ∈ t'.received ↔ r ∈ t.received ∨ r ∈ u.regs e ∧
    (e.Makes ∧ isSend = false ∨ e.TwoWords ∨ e.Words ∧ t.registers.entries r.2 = none)

/-! ## Configuration of an element -/

theorem getAddress_eq_some {address : Attr ℤ} {addr : ℕ} (h : getAddress address = some addr) :
    (address.getD 0).toNat = addr ∧ addr < 65536 := by
  cases address with
  | value l =>
    rw [getAddress] at h
    split at h
    · contradiction
    · obtain rfl := Option.some.inj h
      refine ⟨rfl, ?_⟩
      omega
  | missing => contradiction
  | invalid => contradiction

theorem getRegisterType_eq_some {attr : Attr RegisterType} {rt : RegisterType}
    (h : getRegisterType attr = some rt) : attr.getD .holding = rt := by
  cases attr with
  | missing => exact Option.some.inj h
  | value rt' => exact Option.some.inj h
  | invalid => contradiction

theorem getValType_eq_some {attr : Attr ValType} {valType : ValType}
    (h : getValType attr = some valType) : attr = .value valType := by
  cases attr with
  | value valType' => exact congrArg Attr.value (Option.some.inj h)
  | missing => contradiction
  | invalid => contradiction

theorem configureParam_eq_some {stack : ℕ → Fin 4 → ℕ} {isSend : Bool} {t t' : Tables}
    {e : Element} (h : t.configureParam stack isSend e = some t') :
    ∃ valType, e.valType = .value valType ∧ e.addr < 65536 ∧
      t.configureRegister (stack t.parcookOps.length) isSend e valType e.factor e.addr e.type =
        some t' := by
  rw [Tables.configureParam] at h
  obtain ⟨addr, haddr, h⟩ := Option.bind_eq_some_iff.mp h
  obtain ⟨rt, hrt, h⟩ := Option.bind_eq_some_iff.mp h
  obtain ⟨valType, hvalType, h⟩ := Option.bind_eq_some_iff.mp h
  obtain ⟨prec, hprec, h⟩ := Option.bind_eq_some_iff.mp h
  obtain ⟨haddr, hlt⟩ := getAddress_eq_some haddr
  have hfactor : e.factor = prec := by
    rw [Element.factor, hprec]
    rfl
  have htype : e.type = rt := getRegisterType_eq_some hrt
  have he : e.addr = addr := haddr
  rw [hfactor, htype, he]
  exact ⟨valType, getValType_eq_some hvalType, hlt, h⟩

theorem getFloatOrder_eq_some {default order : FloatOrder} {attr : Attr FloatOrder}
    (h : getFloatOrder default attr = some order) : attr.getD default = order := by
  cases attr with
  | missing => exact Option.some.inj h
  | value order' => exact Option.some.inj h
  | invalid => contradiction

theorem isLeast_eq_some {attr : Attr Part} {least : Bool} (h : isLeast attr = some least) :
    decide (attr.getD .least = .least) = least := by
  cases attr with
  | missing => exact Option.some.inj h
  | value part => cases part <;> exact Option.some.inj h
  | invalid => contradiction

theorem register_zero {addr : ℕ} (h : addr < 65536) : register addr 0 = addr := Nat.mod_eq_of_lt h

theorem getLswMswReg_eq_some {u : ModbusUnit} {order : FloatOrder}
    (horder : order = u.floatOrder.getD .mswlsw) {e : Element} (hlt : e.addr < 65536)
    {lsw msw : ℕ} {isLsw : Bool} (h : getLswMswReg order e e.addr = some (lsw, msw, isLsw)) :
    lsw = u.lsw e ∧ msw = u.msw e ∧ isLsw = decide (e.valOp.getD .least = .least) := by
  rw [getLswMswReg] at h
  obtain ⟨own, hown, h⟩ := Option.bind_eq_some_iff.mp h
  obtain ⟨least, hleast, h⟩ := Option.bind_eq_some_iff.mp h
  have hof : u.floatOrderOf e = own := by
    rw [floatOrderOf, ← horder]
    exact getFloatOrder_eq_some hown
  rw [ModbusUnit.lsw, ModbusUnit.msw, hof, isLeast_eq_some hleast]
  cases own with
  | mswlsw =>
    obtain ⟨rfl, hrest⟩ := Prod.mk.inj (Option.some.inj h)
    obtain ⟨rfl, rfl⟩ := Prod.mk.inj hrest
    exact ⟨rfl, (register_zero hlt).symm, rfl⟩
  | lswmsw =>
    obtain ⟨rfl, hrest⟩ := Prod.mk.inj (Option.some.inj h)
    obtain ⟨rfl, rfl⟩ := Prod.mk.inj hrest
    exact ⟨(register_zero hlt).symm, rfl, rfl⟩

theorem not_makes {e : Element} {valType : ValType} (h : e.valType = .value valType)
    (hint : valType ≠ .integer) (hbcd : valType ≠ .bcd) : ¬e.Makes := by
  rintro (hvalue | hvalue)
  · exact hint (Attr.value.inj (h.symm.trans hvalue))
  · exact hbcd (Attr.value.inj (h.symm.trans hvalue))

theorem addrs_of_some {u : ModbusUnit} {e : Element} {doc : ParcookOp ℕ}
    (h : u.documentedParcookOp e = some doc) : u.addrs e = doc.regs := by
  rw [addrs, h]

theorem mem_regs {u : ModbusUnit} {e : Element} {r : Reg} :
    r ∈ u.regs e ↔ r.1 = e.type ∧ r.2 ∈ u.addrs e := by
  rw [regs, List.mem_map]
  constructor
  · rintro ⟨a, ha, rfl⟩
    exact ⟨rfl, ha⟩
  · rintro ⟨htype, hmem⟩
    exact ⟨r.2, hmem, Prod.ext htype.symm rfl⟩

section

variable {u : ModbusUnit} {e : Element} {t : Tables}

theorem configures_of_made {isSend : Bool} {t' : Tables} (hmakes : e.Makes)
    (haddrs : u.addrs e = [e.addr]) (hregisters : t'.registers = (t.registers.make e.addr).2)
    (horders : t'.floatOrder = t.floatOrder ∧ t'.doubleOrder = t.doubleOrder)
    (hparcook : isSend = false → t'.senderOps = t.senderOps ∧ ∃ op doc,
      t'.parcookOps = t.parcookOps ++ [op] ∧ u.documentedParcookOp e = some doc ∧
        op.map some = doc.map t'.registers.entries)
    (hsender : isSend = true → t'.parcookOps = t.parcookOps ∧ ∃ op doc,
      t'.senderOps = t.senderOps ++ [op] ∧ u.documentedSenderOp e = some doc ∧
        op.map some = doc.map t'.registers.entries)
    (hsent : ∀ r, r ∈ t'.sent ↔
      r ∈ t.sent ∨ r = (e.type, e.addr) ∧ isSend = true ∧ e.valType = .value .integer)
    (hreceived : ∀ r, r ∈ t'.received ↔
      r ∈ t.received ∨ r = (e.type, e.addr) ∧ isSend = false) :
    u.Configures isSend e t t' := by
  have hmem : ∀ r : Reg, r ∈ u.regs e ↔ r = (e.type, e.addr) := by
    intro r
    rw [mem_regs, haddrs, List.mem_singleton, Prod.ext_iff]
  have hmade := Registers.make_entries e.addr t.registers
  have hnot : ¬e.TwoWords ∧ ¬e.Words := by
    rcases hmakes with h | h <;> simp [Element.TwoWords, Element.Words, h]
  refine ⟨horders, ?_, fun a ha => ?_, fun a ha => ?_, fun hn => absurd hmakes hn,
    fun _ a ha reg hreg => ?_, hparcook, hsender, fun r => ?_, fun r => ?_⟩
  · rw [hregisters]
    exact Registers.make_grows _ _
  · rw [haddrs, List.mem_singleton] at ha
    rw [hregisters]
    exact Registers.make_entries_of_ne ha _
  · rw [haddrs, List.mem_singleton] at ha
    rw [hregisters, ha, hmade]
    exact Option.some_ne_none _
  · rw [haddrs, List.mem_singleton] at ha
    rw [hregisters, ha, hmade] at hreg
    obtain rfl := Option.some.inj hreg
    exact le_rfl
  · rw [hsent r, hmem r]
  · rw [hreceived r, hmem r]
    simp [hmakes, hnot]

theorem configures_int (h : e.valType = .value .integer) (isSend : Bool) :
    u.Configures isSend e t (t.configureIntRegister e.addr isSend e.type) := by
  have hparcook : u.documentedParcookOp e = some (.short e.addr) := by
    rw [documentedParcookOp, h]
  have hsender : u.documentedSenderOp e = some (.short e.addr) := by
    rw [documentedSenderOp, h]
  have hmade := Registers.make_entries e.addr t.registers
  cases isSend with
  | false =>
    refine configures_of_made (Or.inl h) (addrs_of_some hparcook) rfl ⟨rfl, rfl⟩
      (fun _ => ⟨rfl, _, _, rfl, hparcook, congrArg ParcookOp.short hmade.symm⟩)
      (fun hs => Bool.noConfusion hs) (fun r => ?_) (fun r => ?_)
    · change r ∈ t.sent ↔ _
      simp
    · change r ∈ t.received.insert (e.type, e.addr) ↔ _
      rw [List.mem_insert_iff, or_comm]
      simp
  | true =>
    refine configures_of_made (Or.inl h) (addrs_of_some hparcook) rfl ⟨rfl, rfl⟩
      (fun hs => Bool.noConfusion hs)
      (fun _ => ⟨rfl, _, _, rfl, hsender, congrArg SenderOp.short hmade.symm⟩) (fun r => ?_)
      (fun r => ?_)
    · change r ∈ t.sent.insert (e.type, e.addr) ↔ _
      rw [List.mem_insert_iff, or_comm]
      simp [h]
    · change r ∈ t.received ↔ _
      simp

theorem configures_bcd (h : e.valType = .value .bcd) {isSend : Bool} {t' : Tables}
    (ht : t.configureBcdRegister e.addr isSend e.type = some t') :
    isSend = false ∧ u.Configures isSend e t t' := by
  have hparcook : u.documentedParcookOp e = some (.bcd e.addr) := by
    rw [documentedParcookOp, h]
  have hmade := Registers.make_entries e.addr t.registers
  cases isSend with
  | true => contradiction
  | false =>
    obtain rfl := Option.some.inj ht
    refine ⟨rfl, configures_of_made (Or.inr h) (addrs_of_some hparcook) rfl ⟨rfl, rfl⟩
      (fun _ => ⟨rfl, _, _, rfl, hparcook, congrArg ParcookOp.bcd hmade.symm⟩)
      (fun hs => Bool.noConfusion hs) (fun r => ?_) (fun r => ?_)⟩
    · change r ∈ t.sent ↔ _
      simp
    · change r ∈ t.received.insert (e.type, e.addr) ↔ _
      rw [List.mem_insert_iff, or_comm]
      simp

theorem configures_of_found {isSend : Bool} {t' : Tables} (hmakes : ¬e.Makes)
    (hfound : Registers.Found (u.addrs e) t.registers t'.registers)
    (horders : t'.floatOrder = t.floatOrder ∧ t'.doubleOrder = t.doubleOrder)
    (hparcook : isSend = false → t'.senderOps = t.senderOps ∧ ∃ op doc,
      t'.parcookOps = t.parcookOps ++ [op] ∧ u.documentedParcookOp e = some doc ∧
        op.map some = doc.map t'.registers.entries)
    (hsender : isSend = true → t'.parcookOps = t.parcookOps ∧ ∃ op doc,
      t'.senderOps = t.senderOps ++ [op] ∧ u.documentedSenderOp e = some doc ∧
        op.map some = doc.map t'.registers.entries)
    (hsent : t'.sent = t.sent)
    (hreceived : ∀ r, r ∈ t'.received ↔ r ∈ t.received ∨ r ∈ u.regs e ∧
      (e.TwoWords ∨ e.Words ∧ t.registers.entries r.2 = none)) :
    u.Configures isSend e t t' := by
  have hint : e.valType ≠ .value .integer := fun h => hmakes (Or.inl h)
  refine ⟨horders, hfound.toGrows, hfound.other, hfound.found, fun _ => hfound.kept,
    fun hm => absurd hm hmakes, hparcook, hsender, fun r => ?_, fun r => ?_⟩
  · rw [hsent]
    simp [hint]
  · rw [hreceived r]
    simp [hmakes]

theorem found_two {first second : ℕ} (hmem : ∀ a, a ∈ [first, second] ↔ a ∈ u.addrs e)
    {registers registers' : Registers} {reg reg' : RegisterObject}
    (h : t.registers.find first = (reg, registers)) (h' : registers.find second = (reg', registers')) :
    Registers.Found (u.addrs e) t.registers registers' ∧ registers'.entries first = some reg ∧
      registers'.entries second = some reg' := by
  have hfirst := Registers.find_found first t.registers
  have hsecond := Registers.find_found second registers
  have hentry := Registers.find_entries first t.registers
  have hentry' := Registers.find_entries second registers
  rw [h] at hfirst hentry
  rw [h'] at hsecond hentry'
  exact ⟨(hfirst.append hsecond).congr hmem, hsecond.kept _ _ hentry, hentry'⟩

theorem mem_insert_two (received : List Reg) (rt : RegisterType) (lsw msw : ℕ) (r : Reg) :
    r ∈ (received.insert (rt, lsw)).insert (rt, msw) ↔
      r ∈ received ∨ r.1 = rt ∧ r.2 ∈ [msw, lsw] := by
  rw [List.mem_insert_iff, List.mem_insert_iff, Prod.ext_iff, Prod.ext_iff, List.mem_cons,
    List.mem_singleton]
  tauto

theorem mem_insert_words {doc : ParcookOp ℕ} (hdoc : u.documentedParcookOp e = some doc)
    (hregs : doc.regs = [u.msw e, u.lsw e]) (htwo : e.TwoWords) (received : List Reg) (r : Reg) :
    r ∈ (received.insert (e.type, u.lsw e)).insert (e.type, u.msw e) ↔ r ∈ received ∨
      r ∈ u.regs e ∧ (e.TwoWords ∨ e.Words ∧ t.registers.entries r.2 = none) := by
  rw [mem_insert_two, mem_regs, addrs_of_some hdoc, hregs]
  simp [htwo]

theorem configures_longFloat {isFloat : Bool}
    (h : e.valType = .value (if isFloat then .float else .long)) (hlt : e.addr < 65536)
    (horder : t.floatOrder = u.floatOrder.getD .mswlsw) {isSend : Bool} {t' : Tables}
    (ht : t.configureLongFloatRegister isFloat e e.factor e.addr isSend e.type = some t') :
    u.Configures isSend e t t' := by
  rw [Tables.configureLongFloatRegister] at ht
  obtain ⟨⟨lsw, msw, isLsw⟩, hwords, ht⟩ := Option.bind_eq_some_iff.mp ht
  obtain ⟨rfl, rfl, rfl⟩ := getLswMswReg_eq_some horder hlt hwords
  dsimp only at ht
  -- both words are found, the less significant one first
  cases hregLsw : t.registers.find (u.lsw e) with
  | mk regLsw registers =>
    rw [hregLsw] at ht
    dsimp only at ht
    cases hregMsw : registers.find (u.msw e) with
    | mk regMsw registers' =>
      rw [hregMsw] at ht
      have hmakes : ¬e.Makes := by
        cases isFloat
        · exact not_makes h ValType.noConfusion ValType.noConfusion
        · exact not_makes h ValType.noConfusion ValType.noConfusion
      have htwo : e.TwoWords := by
        cases isFloat
        · exact Or.inl h
        · exact Or.inr (Or.inl h)
      cases isFloat with
      | false =>
        have hdoc : u.documentedParcookOp e = some (.long (u.lsw e) (u.msw e) e.factor
            (e.valOp.getD .least = .least)) := by
          rw [documentedParcookOp, h]
          rfl
        have hmem : ∀ a, a ∈ [u.lsw e, u.msw e] ↔ a ∈ u.addrs e := by
          intro a
          rw [addrs_of_some hdoc]
          exact List.Perm.mem_iff (List.Perm.swap _ _ _)
        obtain ⟨hfound, hlsw, hmsw⟩ := found_two hmem hregLsw hregMsw
        -- a long value is not sent
        cases isSend with
        | true => contradiction
        | false =>
          obtain rfl := Option.some.inj ht
          refine configures_of_found hmakes hfound ⟨rfl, rfl⟩
            (fun _ => ⟨rfl, _, _, rfl, hdoc, ?_⟩) (fun hs => Bool.noConfusion hs) rfl
            (mem_insert_words hdoc rfl htwo t.received)
          change ParcookOp.long (some regLsw) (some regMsw) _ _ = .long _ _ _ _
          rw [← hlsw, ← hmsw]
          rfl
      | true =>
        have hdoc : u.documentedParcookOp e = some (.float (u.lsw e) (u.msw e) e.factor
            (e.valOp.getD .least = .least)) := by
          rw [documentedParcookOp, h]
          rfl
        have hsender : u.documentedSenderOp e = some (.float (u.lsw e) (u.msw e) e.factor) := by
          rw [documentedSenderOp, h]
          rfl
        have hmem : ∀ a, a ∈ [u.lsw e, u.msw e] ↔ a ∈ u.addrs e := by
          intro a
          rw [addrs_of_some hdoc]
          exact List.Perm.mem_iff (List.Perm.swap _ _ _)
        obtain ⟨hfound, hlsw, hmsw⟩ := found_two hmem hregLsw hregMsw
        cases isSend with
        | true =>
          obtain rfl := Option.some.inj ht
          refine configures_of_found hmakes hfound ⟨rfl, rfl⟩ (fun hs => Bool.noConfusion hs)
            (fun _ => ⟨rfl, _, _, rfl, hsender, ?_⟩) rfl
            (mem_insert_words hdoc rfl htwo t.received)
          change SenderOp.float (some regLsw) (some regMsw) _ = .float _ _ _
          rw [← hlsw, ← hmsw]
          rfl
        | false =>
          obtain rfl := Option.some.inj ht
          refine configures_of_found hmakes hfound ⟨rfl, rfl⟩
            (fun _ => ⟨rfl, _, _, rfl, hdoc, ?_⟩) (fun hs => Bool.noConfusion hs) rfl
            (mem_insert_words hdoc rfl htwo t.received)
          change ParcookOp.float (some regLsw) (some regMsw) _ _ = .float _ _ _ _
          rw [← hlsw, ← hmsw]
          rfl

theorem configures_decimal2 (h : e.valType = .value .decimal2) (hlt : e.addr < 65536)
    (horder : t.floatOrder = u.floatOrder.getD .mswlsw) {isSend : Bool} {t' : Tables}
    (ht : t.configureDecimal2Register e e.factor e.addr isSend e.type = some t') :
    u.Configures isSend e t t' := by
  rw [Tables.configureDecimal2Register] at ht
  obtain ⟨⟨lsw, msw, isLsw⟩, hwords, ht⟩ := Option.bind_eq_some_iff.mp ht
  obtain ⟨rfl, rfl, rfl⟩ := getLswMswReg_eq_some horder hlt hwords
  dsimp only at ht
  cases hinteger : t.registers.find (u.msw e) with
  | mk integer registers =>
    rw [hinteger] at ht
    dsimp only at ht
    cases hfraction : registers.find (u.lsw e) with
    | mk fraction registers' =>
      rw [hfraction] at ht
      have hmakes : ¬e.Makes := not_makes h ValType.noConfusion ValType.noConfusion
      have htwo : e.TwoWords := Or.inr (Or.inr h)
      have hdoc : u.documentedParcookOp e = some (.decimal2 (u.msw e) (u.lsw e) e.factor
          (e.valOp.getD .least = .least)) := by
        rw [documentedParcookOp, h]
      have hsender : u.documentedSenderOp e =
          some (.decimal2 (u.msw e) (u.lsw e) e.factor) := by
        rw [documentedSenderOp, h]
      have hmem : ∀ a, a ∈ [u.msw e, u.lsw e] ↔ a ∈ u.addrs e := by
        intro a
        rw [addrs_of_some hdoc]
        exact Iff.rfl
      obtain ⟨hfound, hmsw, hlsw⟩ := found_two hmem hinteger hfraction
      cases isSend with
      | true =>
        obtain rfl := Option.some.inj ht
        refine configures_of_found hmakes hfound ⟨rfl, rfl⟩ (fun hs => Bool.noConfusion hs)
          (fun _ => ⟨rfl, _, _, rfl, hsender, ?_⟩) rfl
          (mem_insert_words hdoc rfl htwo t.received)
        change SenderOp.decimal2 (some integer) (some fraction) _ = .decimal2 _ _ _
        rw [← hlsw, ← hmsw]
        rfl
      | false =>
        obtain rfl := Option.some.inj ht
        refine configures_of_found hmakes hfound ⟨rfl, rfl⟩
          (fun _ => ⟨rfl, _, _, rfl, hdoc, ?_⟩) (fun hs => Bool.noConfusion hs) rfl
          (mem_insert_words hdoc rfl htwo t.received)
        change ParcookOp.decimal2 (some integer) (some fraction) _ _ = .decimal2 _ _ _ _
        rw [← hlsw, ← hmsw]
        rfl

theorem configureDoubleRegister_eq_some {stack : Fin 4 → ℕ} {prec : ℤ} {addr : ℕ}
    {rt : RegisterType} {t' : Tables}
    (ht : t.configureDoubleRegister stack e prec addr rt = some t') :
    ∃ floatOrder doubleOrder member isLsd regs registers received,
      getFloatOrder t.floatOrder e.floatOrder = some floatOrder ∧
      getDoubleOrder t.doubleOrder t.doubleOrder e.doubleOrder = some (doubleOrder, member) ∧
      isLeast e.valOp2 = some isLsd ∧
      t' = { t with
        doubleOrder := member
        registers := registers
        received := received
        parcookOps := t.parcookOps ++ [.double regs prec isLsd] } ∧
      Registers.Found (Tables.doubleAddrs floatOrder addr stack doubleOrder) t.registers
        registers ∧
      regs.map some =
        (Tables.doubleAddrs floatOrder addr stack doubleOrder).map registers.entries ∧
      ∀ r, r ∈ received ↔ r ∈ t.received ∨ r.1 = rt ∧
        r.2 ∈ Tables.doubleAddrs floatOrder addr stack doubleOrder ∧
          t.registers.entries r.2 = none := by
  rw [Tables.configureDoubleRegister] at ht
  obtain ⟨floatOrder, hfloat, ht⟩ := Option.bind_eq_some_iff.mp ht
  obtain ⟨⟨doubleOrder, member⟩, hdouble, ht⟩ := Option.bind_eq_some_iff.mp ht
  obtain ⟨isLsd, hleast, ht⟩ := Option.bind_eq_some_iff.mp ht
  obtain ⟨registers, received, heq, hfound, hregs, hreceived⟩ := Tables.findReceived_spec rt
    (Tables.doubleAddrs floatOrder addr stack doubleOrder) { t with doubleOrder := member }
  refine ⟨floatOrder, doubleOrder, member, isLsd, _, registers, received, hfloat, hdouble, hleast,
    ?_, hfound, hregs, hreceived⟩
  rw [← Option.some.inj ht, heq]
  rfl

theorem configures_double (h : e.valType = .value .double) (hlt : e.addr < 65536)
    (hfloat : t.floatOrder = u.floatOrder.getD .mswlsw)
    (hdouble : t.doubleOrder = u.doubleOrder.getD .msdlsd)
    (hregular : e.doubleOrder ≠ .value .lsdmsd) {stack : Fin 4 → ℕ} {t' : Tables}
    (ht : t.configureDoubleRegister stack e e.factor e.addr e.type = some t') :
    u.Configures false e t t' := by
  obtain ⟨floatOrder, own, member, isLsd, regs, registers, received, hown, horder, hleast, rfl,
    hfound, hregs, hreceived⟩ := configureDoubleRegister_eq_some ht
  have hfloatOf : u.floatOrderOf e = floatOrder := by
    rw [floatOrderOf, ← hfloat]
    exact getFloatOrder_eq_some hown
  have hdoubleOf : own = some (u.doubleOrderOf e) ∧ member = t.doubleOrder := by
    rw [doubleOrderOf, ← hdouble]
    cases hattr : e.doubleOrder with
    | missing =>
      rw [hattr] at horder
      obtain ⟨rfl, rfl⟩ := Prod.mk.inj (Option.some.inj horder)
      exact ⟨rfl, rfl⟩
    | invalid =>
      rw [hattr] at horder
      contradiction
    | value order =>
      cases order with
      | lsdmsd => contradiction
      | msdlsd =>
        rw [hattr] at horder
        obtain ⟨rfl, rfl⟩ := Prod.mk.inj (Option.some.inj horder)
        exact ⟨rfl, rfl⟩
  obtain ⟨rfl, rfl⟩ := hdoubleOf
  have hwords : Tables.doubleAddrs floatOrder e.addr stack (some (u.doubleOrderOf e)) =
      u.doubleWords e := by
    rw [doubleWords, hfloatOf]
    have hzero := register_zero hlt
    cases u.doubleOrderOf e with
    | msdlsd =>
      cases floatOrder with
      | mswlsw => simp [Tables.doubleAddrs, DoubleOrder.most, DoubleOrder.least, FloatOrder.most,
          FloatOrder.least, hzero]
      | lswmsw => simp [Tables.doubleAddrs, DoubleOrder.most, DoubleOrder.least, FloatOrder.most,
          FloatOrder.least, hzero]
    | lsdmsd =>
      cases floatOrder with
      | mswlsw => simp [Tables.doubleAddrs, DoubleOrder.most, DoubleOrder.least, FloatOrder.most,
          FloatOrder.least, hzero]
      | lswmsw => simp [Tables.doubleAddrs, DoubleOrder.most, DoubleOrder.least, FloatOrder.most,
          FloatOrder.least, hzero]
  have hdoc : u.documentedParcookOp e =
      some (.double (u.doubleWords e) e.factor (e.valOp2.getD .least = .least)) := by
    rw [documentedParcookOp, h]
  have haddrs : u.addrs e = u.doubleWords e := addrs_of_some hdoc
  have hmakes : ¬e.Makes := not_makes h ValType.noConfusion ValType.noConfusion
  have htwo : ¬e.TwoWords ∧ e.Words := by simp [Element.TwoWords, Element.Words, h]
  rw [hwords] at hfound hregs hreceived
  refine configures_of_found hmakes (by rwa [haddrs]) ⟨rfl, rfl⟩
    (fun _ => ⟨rfl, _, _, rfl, hdoc, ?_⟩) (fun hs => Bool.noConfusion hs) rfl (fun r => ?_)
  · change ParcookOp.double (regs.map some) _ _ = .double _ _ _
    rw [hregs, ← isLeast_eq_some hleast]
  · rw [mem_regs, haddrs]
    change r ∈ received ↔ _
    rw [hreceived r]
    simp [htwo, and_assoc]

theorem configures_decimal3 (h : e.valType = .value .decimal3) {isSend : Bool} {t' : Tables}
    (ht : t.configureDecimal3Register e e.factor e.addr isSend e.type = some t') :
    isSend = false ∧ u.Configures isSend e t t' := by
  cases isSend with
  | true => contradiction
  | false =>
    rw [Tables.configureDecimal3Register] at ht
    obtain ⟨isLsw, hleast, ht⟩ := Option.bind_eq_some_iff.mp ht
    obtain ⟨registers, received, heq, hfound, hregs, hreceived⟩ := Tables.findReceived_spec e.type
      [e.addr, register e.addr 1, register e.addr 2] t
    cases hfind : t.findReceived e.type [e.addr, register e.addr 1, register e.addr 2] with
    | mk regs t'' =>
      rw [hfind] at ht heq hregs
      obtain rfl : t'' = { t with registers, received } := heq
      have hdoc : u.documentedParcookOp e = some (.decimal3 e.addr (register e.addr 1)
          (register e.addr 2) e.factor (e.valOp.getD .least = .least)) := by
        rw [documentedParcookOp, h]
      have haddrs : u.addrs e = [e.addr, register e.addr 1, register e.addr 2] :=
        addrs_of_some hdoc
      have hmakes : ¬e.Makes := not_makes h ValType.noConfusion ValType.noConfusion
      have htwo : ¬e.TwoWords ∧ e.Words := by simp [Element.TwoWords, Element.Words, h]
      match regs, ht, hregs with
      | [reg1, reg2, reg3], ht, hregs =>
        obtain rfl := Option.some.inj ht
        refine ⟨rfl, configures_of_found hmakes (by rwa [haddrs]) ⟨rfl, rfl⟩
          (fun _ => ⟨rfl, _, _, rfl, hdoc, ?_⟩) (fun hs => Bool.noConfusion hs) rfl
          (fun r => ?_)⟩
        · obtain ⟨h1, hregs⟩ := List.cons_eq_cons.mp hregs
          obtain ⟨h2, hregs⟩ := List.cons_eq_cons.mp hregs
          obtain ⟨h3, -⟩ := List.cons_eq_cons.mp hregs
          change ParcookOp.decimal3 (some reg1) (some reg2) (some reg3) _ _ = .decimal3 _ _ _ _ _
          rw [h1, h2, h3, ← isLeast_eq_some hleast]
          rfl
        · rw [mem_regs, haddrs]
          change r ∈ received ↔ _
          rw [hreceived r]
          simp [htwo, and_assoc]

/-- A double is not sent and has no order of its own that is the less usual one. -/
def Regular (isSend : Bool) (e : Element) : Prop :=
  e.valType = .value .double → isSend = false ∧ e.doubleOrder ≠ .value .lsdmsd

theorem configures_of_regular {stack : ℕ → Fin 4 → ℕ} {isSend : Bool} {t' : Tables}
    (hfloat : t.floatOrder = u.floatOrder.getD .mswlsw)
    (hdouble : e.valType = .value .double → t.doubleOrder = u.doubleOrder.getD .msdlsd)
    (hregular : Regular isSend e) (ht : t.configureParam stack isSend e = some t') :
    u.Configures isSend e t t' := by
  obtain ⟨valType, hvalType, hlt, ht⟩ := configureParam_eq_some ht
  cases valType with
  | integer =>
    obtain rfl := Option.some.inj ht
    exact configures_int hvalType isSend
  | bcd => exact (configures_bcd hvalType ht).2
  | long => exact configures_longFloat hvalType hlt hfloat ht
  | float => exact configures_longFloat hvalType hlt hfloat ht
  | double =>
    obtain ⟨rfl, horder⟩ := hregular hvalType
    exact configures_double hvalType hlt hfloat (hdouble hvalType) horder ht
  | decimal2 => exact configures_decimal2 hvalType hlt hfloat ht
  | decimal3 => exact (configures_decimal3 hvalType ht).2

end

end ModbusUnit
end Boruta
end Szarp
