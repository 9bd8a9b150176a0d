import Szarp.Boruta.ModbusServer

/-!
# Reads from Modbus servers

When the answer to a request for registers is well formed: the number of bytes is stored in a byte,
and addresses beyond 65535 are taken for those of other registers.
-/

namespace Szarp
namespace Boruta
namespace ServerUnit

/-! ## The loop -/

def valBytes (reg : Register) : List Byte := [reg.val.extractLsb' 8 8, reg.val.extractLsb' 0 8]

/-- The registers of a request, when there is one under every address. -/
def registersAt (find : ℕ → Option Register) : ℕ → ℕ → Option (List Register)
  | _, 0 => some []
  | addr, n + 1 => (find addr).bind fun reg => (registersAt find (addr + 1) n).map (reg :: ·)

theorem readRegisters_eq (u : ServerUnit) (n addr : ℕ) (d : List Byte) :
    u.readRegisters n addr d =
      (registersAt u.find addr n).map fun regs => d ++ regs.flatMap valBytes := by
  induction n generalizing addr d with
  | zero => rw [readRegisters, registersAt, Option.map_some, List.flatMap_nil, List.append_nil]
  | succ n ih =>
    rw [readRegisters, registersAt]
    cases u.find addr with
    | none => rfl
    | some reg =>
      rw [Option.bind_some, Option.map_map]
      refine (ih (addr + 1) _).trans ?_
      congr 1
      funext regs
      rw [Function.comp_apply, List.flatMap_cons, List.append_assoc]
      rfl

theorem registersAt_length {find : ℕ → Option Register} {addr n : ℕ} {regs : List Register}
    (h : registersAt find addr n = some regs) : regs.length = n := by
  induction n generalizing addr regs with
  | zero =>
    obtain rfl := Option.some.inj h
    rfl
  | succ n ih =>
    obtain ⟨reg, -, h⟩ := Option.bind_eq_some_iff.mp h
    obtain ⟨rest, hrest, rfl⟩ := Option.map_eq_some_iff.mp h
    rw [List.length_cons, ih hrest]

theorem registersAt_eq_none {find : ℕ → Option Register} {addr n : ℕ} :
    registersAt find addr n = none ↔ ∃ i < n, find (addr + i) = none := by
  induction n generalizing addr with
  | zero =>
    constructor
    · intro h
      contradiction
    · rintro ⟨i, hi, -⟩
      omega
  | succ n ih =>
    rw [registersAt]
    cases hfind : find addr with
    | none => exact ⟨fun _ => ⟨0, by omega, hfind⟩, fun _ => rfl⟩
    | some reg =>
      rw [Option.bind_some, Option.map_eq_none_iff, ih]
      constructor
      · rintro ⟨i, hi, hnone⟩
        refine ⟨i + 1, by omega, ?_⟩
        rw [← hnone]
        congr 1
        omega
      · rintro ⟨i, hi, hnone⟩
        cases i with
        | zero =>
          rw [Nat.add_zero, hfind] at hnone
          contradiction
        | succ i =>
          refine ⟨i, by omega, ?_⟩
          rw [← hnone]
          congr 1
          omega

theorem registersAt_congr {find find' : ℕ → Option Register} {addr n : ℕ}
    (h : ∀ i < n, find (addr + i) = find' (addr + i)) :
    registersAt find addr n = registersAt find' addr n := by
  induction n generalizing addr with
  | zero => rfl
  | succ n ih =>
    have hrest : ∀ i < n, find (addr + 1 + i) = find' (addr + 1 + i) := by
      intro i hi
      have haddr : addr + 1 + i = addr + (i + 1) := by omega
      rw [haddr]
      exact h (i + 1) (by omega)
    have hfirst : find addr = find' addr := h 0 (by omega)
    rw [registersAt, registersAt, ih hrest, hfirst]

/-! ## Answers -/

/-- The register that is configured under an address. -/
def registerAt (u : ServerUnit) (addr : ℕ) : Option Register :=
  if addr < 65536 then u.find addr else none

/-- An answer with the values of the registers of a request and their number of bytes. -/
def GivesValues (u : ServerUnit) (pdu answer : PDU) : Prop :=
  ∃ startAddr regsCount regs first, pdu.shortAt 0 = some startAddr ∧
    pdu.shortAt 2 = some regsCount ∧
    registersAt u.registerAt startAddr.toNat regsCount.toNat = some regs ∧
    answer = ⟨pdu.funcCode, first :: regs.flatMap valBytes⟩ ∧
    first.toNat = (regs.flatMap valBytes).length

/-- A request for a register that is not configured. -/
def Misses (u : ServerUnit) (pdu : PDU) : Prop :=
  ∃ startAddr regsCount, pdu.shortAt 0 = some startAddr ∧ pdu.shortAt 2 = some regsCount ∧
    ∃ i < regsCount.toNat, u.registerAt (startAddr.toNat + i) = none

/-- A request is answered with an exception or with the values of its registers; a limited number of
bytes is sent. -/
def ReadAnswered (u : ServerUnit) (pdu : PDU) : Prop :=
  ∃ answer, (u.processRequest u.id pdu).2 = some answer ∧
    (answer.IsException ∨ u.GivesValues pdu answer) ∧ (u.Misses pdu → answer.IsException) ∧
    1 + answer.data.length ≤ 253

theorem length_flatMap_valBytes (regs : List Register) :
    (regs.flatMap valBytes).length = 2 * regs.length := by
  induction regs with
  | nil => rfl
  | cons reg regs ih =>
    rw [List.flatMap_cons, List.length_append, ih, List.length_cons, valBytes, List.length_cons,
      List.length_singleton]
    omega

theorem registerAt_of_le {u : ServerUnit} {startAddr n : ℕ} (h : startAddr + n ≤ 65536) :
    registersAt u.registerAt startAddr n = registersAt u.find startAddr n := by
  apply registersAt_congr
  intro i hi
  rw [registerAt, if_pos (by omega)]

theorem performReadHoldingRegs_eq {u : ServerUnit} {pdu : PDU} {startAddr regsCount : Short}
    (hstart : pdu.shortAt 0 = some startAddr) (hcount : pdu.shortAt 2 = some regsCount) :
    u.performReadHoldingRegs pdu =
      match registersAt u.find startAddr.toNat regsCount.toNat with
      | some regs =>
        some ⟨pdu.funcCode, BitVec.ofNat 8 (2 * regsCount.toNat) :: regs.flatMap valBytes⟩
      | none => some (createErrorResponse 0x02 pdu) := by
  rw [performReadHoldingRegs, hstart, hcount]
  simp only [Option.bind_eq_bind, Option.bind_some]
  rw [readRegisters_eq]
  cases registersAt u.find startAddr.toNat regsCount.toNat with
  | none => rfl
  | some regs => rfl

theorem createErrorResponse_answered {u : ServerUnit} {pdu : PDU} {error : Byte}
    (h : (u.processRequest u.id pdu).2 = some (createErrorResponse error pdu)) :
    u.ReadAnswered pdu := by
  refine ⟨_, h, Or.inl (createErrorResponse_isException _ _), fun _ => ?_, ?_⟩
  · exact createErrorResponse_isException _ _
  · rw [createErrorResponse, List.length_singleton]
    omega

/-- An answer with values is well formed when there are not too many of them and their addresses are
below 65536. -/
theorem values_answered_iff {u : ServerUnit} {pdu : PDU} {startAddr regsCount : Short}
    {regs : List Register} (hfunc : pdu.funcCode = 0x03) (hstart : pdu.shortAt 0 = some startAddr)
    (hcount : pdu.shortAt 2 = some regsCount)
    (hregs : registersAt u.find startAddr.toNat regsCount.toNat = some regs)
    (hrequest : (u.processRequest u.id pdu).2 =
      some ⟨pdu.funcCode, BitVec.ofNat 8 (2 * regsCount.toNat) :: regs.flatMap valBytes⟩) :
    u.ReadAnswered pdu ↔
      regsCount.toNat ≤ 125 ∧ startAddr.toNat + regsCount.toNat ≤ 65536 := by
  have hlength := registersAt_length hregs
  have hbytes := length_flatMap_valBytes regs
  have hpositive : ∀ data, ¬PDU.IsException ⟨pdu.funcCode, data⟩ := by
    intro data h
    rw [PDU.IsException, hfunc] at h
    exact h rfl
  constructor
  · rintro ⟨answer, hanswer, -, hmisses, hfits⟩
    obtain rfl := Option.some.inj (hrequest.symm.trans hanswer)
    rw [List.length_cons, hbytes, hlength] at hfits
    refine ⟨by omega, ?_⟩
    have hlt := startAddr.isLt
    by_contra hpast
    apply hpositive _ (hmisses ⟨startAddr, regsCount, hstart, hcount, regsCount.toNat - 1, ?_, ?_⟩)
    · omega
    · rw [registerAt, if_neg (by omega)]
  · rintro ⟨hfew, hbelow⟩
    refine ⟨_, hrequest, Or.inr ?_, ?_, ?_⟩
    · refine ⟨startAddr, regsCount, regs, _, hstart, hcount, ?_, rfl, ?_⟩
      · rw [registerAt_of_le hbelow, hregs]
      · rw [hbytes, hlength, BitVec.toNat_ofNat]
        omega
    · rintro ⟨s, c, hs, hc, hmissing⟩
      obtain rfl := Option.some.inj (hstart.symm.trans hs)
      obtain rfl := Option.some.inj (hcount.symm.trans hc)
      rw [← registersAt_eq_none, registerAt_of_le hbelow, hregs] at hmissing
      contradiction
    · rw [List.length_cons, hbytes, hlength]
      omega

/-- A request for input registers is answered with an exception. One for holding registers is answered
as it has to be when it has an address and a count, and asks for a register that is not found or for
not more than 125 registers below address 65536. -/
theorem readAnswered_iff (u : ServerUnit) (pdu : PDU)
    (hfunc : pdu.funcCode = 0x03 ∨ pdu.funcCode = 0x04) :
    u.ReadAnswered pdu ↔
      pdu.funcCode = 0x04 ∨
      ∃ startAddr regsCount, pdu.shortAt 0 = some startAddr ∧ pdu.shortAt 2 = some regsCount ∧
        ((∃ i < regsCount.toNat, u.find (startAddr.toNat + i) = none) ∨
          regsCount.toNat ≤ 125 ∧ startAddr.toNat + regsCount.toNat ≤ 65536) := by
  obtain hread | hinput := hfunc
  · have hrequest : (u.processRequest u.id pdu).2 = u.performReadHoldingRegs pdu := by
      rw [processRequest, if_neg (not_not.mpr rfl), if_pos hread]
    have hholding : pdu.funcCode ≠ 0x04 := by
      rw [hread]
      decide
    by_cases hparts : ∃ startAddr regsCount, pdu.shortAt 0 = some startAddr ∧
        pdu.shortAt 2 = some regsCount
    -- the request has an address and a count
    · obtain ⟨startAddr, regsCount, hstart, hcount⟩ := hparts
      have hone : (∃ s c, pdu.shortAt 0 = some s ∧ pdu.shortAt 2 = some c ∧
          ((∃ i < c.toNat, u.find (s.toNat + i) = none) ∨
            c.toNat ≤ 125 ∧ s.toNat + c.toNat ≤ 65536)) ↔
          ((∃ i < regsCount.toNat, u.find (startAddr.toNat + i) = none) ∨
            regsCount.toNat ≤ 125 ∧ startAddr.toNat + regsCount.toNat ≤ 65536) := by
        constructor
        · rintro ⟨s, c, hs, hc, h⟩
          obtain rfl := Option.some.inj (hstart.symm.trans hs)
          obtain rfl := Option.some.inj (hcount.symm.trans hc)
          exact h
        · intro h
          exact ⟨startAddr, regsCount, hstart, hcount, h⟩
      rw [hone, or_iff_right hholding]
      rw [performReadHoldingRegs_eq hstart hcount] at hrequest
      cases hregs : registersAt u.find startAddr.toNat regsCount.toNat with
      | none =>
        rw [hregs] at hrequest
        exact ⟨fun _ => Or.inl (registersAt_eq_none.mp hregs),
          fun _ => createErrorResponse_answered hrequest⟩
      | some regs =>
        rw [hregs] at hrequest
        have hfound : ¬∃ i < regsCount.toNat, u.find (startAddr.toNat + i) = none := by
          rw [← registersAt_eq_none, hregs]
          exact Option.some_ne_none regs
        rw [values_answered_iff hread hstart hcount hregs hrequest, or_iff_right hfound]
    -- without them `at` throws, and there is no answer
    · have hnone : u.performReadHoldingRegs pdu = none := by
        rw [performReadHoldingRegs]
        cases hstart : pdu.shortAt 0 with
        | none => rfl
        | some startAddr =>
          cases hcount : pdu.shortAt 2 with
          | none => rfl
          | some regsCount => exact absurd ⟨startAddr, regsCount, hstart, hcount⟩ hparts
      constructor
      · rintro ⟨answer, hanswer, -⟩
        rw [hrequest, hnone] at hanswer
        contradiction
      · rintro (h | ⟨startAddr, regsCount, hstart, hcount, -⟩)
        · exact absurd h hholding
        · exact absurd ⟨startAddr, regsCount, hstart, hcount⟩ hparts
  · refine ⟨fun _ => Or.inl hinput, fun _ => @createErrorResponse_answered u pdu 0x01 ?_⟩
    rw [processRequest, if_neg (not_not.mpr rfl), hinput]
    rfl

def allRegisters : ServerUnit := ⟨7, fun _ => some ⟨5, 100⟩, 200⟩

theorem allRegisters_readAnswered : allRegisters.ReadAnswered ⟨0x03, [0, 1, 0, 2]⟩ :=
  (readAnswered_iff allRegisters ⟨0x03, [0, 1, 0, 2]⟩ (Or.inl rfl)).mpr
    (Or.inr ⟨1, 2, rfl, rfl, Or.inr ⟨by decide, by decide⟩⟩)

theorem allRegisters_registersAt (addr n : ℕ) :
    registersAt allRegisters.find addr n = some (List.replicate n ⟨5, 100⟩) := by
  induction n generalizing addr with
  | zero => rfl
  | succ n ih =>
    rw [registersAt, ih, List.replicate_succ]
    rfl

/-- 128 registers have 256 bytes. -/
theorem allRegisters_not_readAnswered :
    ¬∀ (u : ServerUnit) (pdu : PDU), pdu.funcCode = 0x03 → 4 ≤ pdu.data.length →
      u.ReadAnswered pdu := by
  intro h
  have hstart : PDU.shortAt ⟨0x03, [0, 0, 0, 128]⟩ 0 = some 0 := rfl
  have hcount : PDU.shortAt ⟨0x03, [0, 0, 0, 128]⟩ 2 = some 128 := rfl
  have hregs := allRegisters_registersAt (BitVec.toNat (0 : Short)) (BitVec.toNat (128 : Short))
  have hrequest := performReadHoldingRegs_eq (u := allRegisters) hstart hcount
  rw [hregs] at hrequest
  have hanswered := h allRegisters ⟨0x03, [0, 0, 0, 128]⟩ rfl (by decide)
  have hfew := ((values_answered_iff rfl hstart hcount hregs (by
    rw [processRequest, if_neg (not_not.mpr rfl), if_pos rfl, hrequest])).mp hanswered).1
  revert hfew
  decide

end ServerUnit
end Boruta
end Szarp
