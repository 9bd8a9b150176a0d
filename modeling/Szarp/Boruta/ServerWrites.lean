import Szarp.Boruta.ModbusServer

/-!
# Writes to Modbus servers

When a request that is refused has not written to any register, and one that is answered has written
to its registers and to no others.
-/

namespace Szarp
namespace Boruta
namespace ServerUnit

/-! ## The loop -/

/-- There is a register for the place of a request, and a word for it. -/
def Accepts (pdu : PDU) (u : ServerUnit) (addr dataIndex i : ℕ) : Prop :=
  u.find (addr + i) ≠ none ∧ pdu.shortAt (dataIndex + 2 * i) ≠ none

def HoldsWord (pdu : PDU) (time : ℤ) (u : ServerUnit) (addr dataIndex i : ℕ) : Prop :=
  ∃ v, pdu.shortAt (dataIndex + 2 * i) = some v ∧ u.find (addr + i) = some ⟨v, time⟩

theorem find_setVal_self (addr : ℕ) (v : Short) (u : ServerUnit) :
    (u.setVal addr v).find addr = some ⟨v, u.currentTime⟩ := Function.update_self ..

theorem find_setVal_eq_none {addr : ℕ} {u : ServerUnit} (h : u.find addr ≠ none) (v : Short)
    (b : ℕ) : (u.setVal addr v).find b = none ↔ u.find b = none := by
  by_cases hkey : BitVec.ofNat 16 b = BitVec.ofNat 16 addr
  · have hb : u.find b = u.find addr := congrArg u.registers hkey
    have hset : (u.setVal addr v).find b = some ⟨v, u.currentTime⟩ := by
      rw [← find_setVal_self addr v u]
      exact congrArg (u.setVal addr v).registers hkey
    rw [hset, hb]
    exact ⟨fun hnone => absurd hnone (Option.some_ne_none _), fun hnone => absurd hnone h⟩
  · have hset : (u.setVal addr v).find b = u.find b := Function.update_of_ne hkey ..
    rw [hset]

theorem accepts_setVal {pdu : PDU} {addr dataIndex : ℕ} {u : ServerUnit} (h : u.find addr ≠ none)
    (v : Short) (i : ℕ) :
    Accepts pdu (u.setVal addr v) (addr + 1) (dataIndex + 2) i ↔
      Accepts pdu u addr dataIndex (i + 1) := by
  have haddr : addr + 1 + i = addr + (i + 1) := by omega
  have hindex : dataIndex + 2 + 2 * i = dataIndex + 2 * (i + 1) := by omega
  rw [Accepts, Accepts, haddr, hindex, ne_eq, find_setVal_eq_none h]

theorem ofNat_ne_of_lt {a b : ℕ} (hlt : a < b) (hclose : b < a + 65536) :
    BitVec.ofNat 16 a ≠ BitVec.ofNat 16 b := by
  intro heq
  have htoNat := congrArg BitVec.toNat heq
  rw [BitVec.toNat_ofNat, BitVec.toNat_ofNat] at htoNat
  omega

/-- What the loop has done when it ends: it has written the words of a number of places, of all of
them or up to the first one that is not accepted. -/
structure WroteUpTo (pdu : PDU) (u u' : ServerUnit) (addr dataIndex n k : ℕ) (ended : Ended) :
    Prop where
  le : k ≤ n
  accepts : ∀ i < k, Accepts pdu u addr dataIndex i
  stops : k < n → ¬Accepts pdu u addr dataIndex k
  done : ended = .done ↔ k = n
  holds : ∀ i < k, HoldsWord pdu u.currentTime u' addr dataIndex i
  unchanged : ∀ a, (∀ i < k, a ≠ BitVec.ofNat 16 (addr + i)) → u'.registers a = u.registers a

theorem wroteUpTo_zero {pdu : PDU} {u : ServerUnit} {addr dataIndex n : ℕ} {ended : Ended}
    (hstops : 0 < n → ¬Accepts pdu u addr dataIndex 0) (hdone : ended = .done ↔ 0 = n) :
    WroteUpTo pdu u u addr dataIndex n 0 ended :=
  ⟨Nat.zero_le n, fun _ hi => absurd hi (Nat.not_lt_zero _), hstops, hdone,
    fun _ hi => absurd hi (Nat.not_lt_zero _), fun _ _ => rfl⟩

theorem WroteUpTo.succ {pdu : PDU} {u u' : ServerUnit} {addr dataIndex n k : ℕ} {ended : Ended}
    {v : Short} (hn : n < 65536) (hfind : u.find addr ≠ none)
    (hword : pdu.shortAt dataIndex = some v)
    (h : WroteUpTo pdu (u.setVal addr v) u' (addr + 1) (dataIndex + 2) n k ended) :
    WroteUpTo pdu u u' addr dataIndex (n + 1) (k + 1) ended := by
  have hle := h.le
  have hzero : Accepts pdu u addr dataIndex 0 := by
    refine ⟨hfind, ?_⟩
    rw [Nat.mul_zero, Nat.add_zero, hword]
    exact Option.some_ne_none v
  refine ⟨by omega, ?_, ?_, ?_, ?_, ?_⟩
  · intro i hi
    cases i with
    | zero => exact hzero
    | succ i => exact (accepts_setVal hfind v i).mp (h.accepts i (by omega))
  · intro hk
    rw [← accepts_setVal hfind v]
    exact h.stops (by omega)
  · rw [h.done]
    omega
  · intro i hi
    cases i with
    | zero =>
      refine ⟨v, hword, ?_⟩
      have hkept := h.unchanged (BitVec.ofNat 16 addr) fun i hi =>
        ofNat_ne_of_lt (by omega) (by omega)
      exact hkept.trans (find_setVal_self addr v u)
    | succ i =>
      obtain ⟨w, hw, hreg⟩ := h.holds i (by omega)
      have haddr : addr + 1 + i = addr + (i + 1) := by omega
      have hindex : dataIndex + 2 + 2 * i = dataIndex + 2 * (i + 1) := by omega
      rw [haddr] at hreg
      rw [hindex] at hw
      exact ⟨w, hw, hreg⟩
  · intro a ha
    rw [h.unchanged a]
    · exact Function.update_of_ne (ha 0 (by omega)) ..
    · intro i hi
      have haddr : addr + 1 + i = addr + (i + 1) := by omega
      rw [haddr]
      exact ha (i + 1) (by omega)

theorem writeRegisters_spec (pdu : PDU) (n addr dataIndex : ℕ) (u : ServerUnit) (hn : n ≤ 65536) :
    ∃ k, WroteUpTo pdu u (writeRegisters pdu n addr dataIndex u).1 addr dataIndex n k
      (writeRegisters pdu n addr dataIndex u).2 := by
  induction n generalizing addr dataIndex u with
  | zero => exact ⟨0, wroteUpTo_zero (fun h => absurd h (lt_irrefl 0)) ⟨fun _ => rfl, fun _ => rfl⟩⟩
  | succ n ih =>
    rw [writeRegisters]
    cases hfind : u.find addr with
    | none =>
      refine ⟨0, wroteUpTo_zero (fun _ h => h.1 hfind) ⟨fun h => ?_, fun h => ?_⟩⟩
      · contradiction
      · omega
    | some reg =>
      have hne : u.find addr ≠ none := by
        rw [hfind]
        exact Option.some_ne_none reg
      cases hword : pdu.shortAt dataIndex with
      | none =>
        refine ⟨0, wroteUpTo_zero (fun _ h => h.2 hword) ⟨fun h => ?_, fun h => ?_⟩⟩
        · contradiction
        · omega
      | some v =>
        obtain ⟨k, hk⟩ := ih (addr + 1) (dataIndex + 2) (u.setVal addr v) (by omega)
        exact ⟨k + 1, hk.succ (by omega) hne hword⟩

/-! ## Requests -/

/-- Exactly the registers of a request hold its words. -/
def Wrote (pdu : PDU) (u u' : ServerUnit) (startAddr regsCount : Short) (dataIndex : ℕ) : Prop :=
  (∀ i < regsCount.toNat, startAddr.toNat + i < 65536 ∧
    HoldsWord pdu u.currentTime u' startAddr.toNat dataIndex i) ∧
  ∀ a : Short, a.toNat < startAddr.toNat ∨ startAddr.toNat + regsCount.toNat ≤ a.toNat →
    u'.registers a = u.registers a

/-- A request that is refused leaves the registers as they are, and one that is answered has written
its words. -/
def WriteAtomic (unit : Byte) (pdu : PDU) (u : ServerUnit) : Prop :=
  ((∀ answer ∈ (u.processRequest unit pdu).2, answer.IsException) →
    (u.processRequest unit pdu).1.registers = u.registers) ∧
  ∀ answer ∈ (u.processRequest unit pdu).2, ¬answer.IsException →
    ∃ startAddr regsCount dataIndex, pdu.shortAt 0 = some startAddr ∧
      writeHeader pdu = some (regsCount, dataIndex) ∧
      Wrote pdu u (u.processRequest unit pdu).1 startAddr regsCount dataIndex

/-- Every place is accepted and the addresses do not wrap, or the registers before the first place that
is not accepted hold their words already. -/
def WriteRegular (pdu : PDU) (u : ServerUnit) (startAddr regsCount : Short) (dataIndex : ℕ) : Prop :=
  ∃ k ≤ regsCount.toNat, (∀ i < k, Accepts pdu u startAddr.toNat dataIndex i) ∧
    (k = regsCount.toNat ∧ startAddr.toNat + regsCount.toNat ≤ 65536 ∨
      k < regsCount.toNat ∧ ¬Accepts pdu u startAddr.toNat dataIndex k ∧
        ∀ i < k, HoldsWord pdu u.currentTime u startAddr.toNat dataIndex i)

theorem WroteUpTo.unique {pdu : PDU} {u u' : ServerUnit} {addr dataIndex n k m : ℕ} {ended : Ended}
    (h : WroteUpTo pdu u u' addr dataIndex n k ended) (hm : m ≤ n)
    (haccepts : ∀ i < m, Accepts pdu u addr dataIndex i)
    (hstops : m < n → ¬Accepts pdu u addr dataIndex m) : m = k := by
  obtain hlt | heq | hlt := lt_trichotomy m k
  · exact absurd (h.accepts m hlt) (hstops (lt_of_lt_of_le hlt h.le))
  · exact heq
  · exact absurd (haccepts k hlt) (h.stops (lt_of_lt_of_le hlt hm))

theorem WroteUpTo.wrote_iff {pdu : PDU} {u u' : ServerUnit} {startAddr regsCount : Short}
    {dataIndex : ℕ} {ended : Ended}
    (h : WroteUpTo pdu u u' startAddr.toNat dataIndex regsCount.toNat regsCount.toNat ended) :
    Wrote pdu u u' startAddr regsCount dataIndex ↔
      startAddr.toNat + regsCount.toNat ≤ 65536 := by
  constructor
  · intro hwrote
    have hstart := startAddr.isLt
    by_cases hzero : regsCount.toNat = 0
    · omega
    · have hlast := (hwrote.1 (regsCount.toNat - 1) (by omega)).1
      omega
  · intro hle
    refine ⟨fun i hi => ⟨by omega, h.holds i hi⟩, ?_⟩
    intro a ha
    apply h.unchanged a
    intro i hi heq
    have htoNat := congrArg BitVec.toNat heq
    rw [BitVec.toNat_ofNat] at htoNat
    omega

theorem WroteUpTo.unchanged_iff {pdu : PDU} {u u' : ServerUnit} {addr dataIndex n k : ℕ}
    {ended : Ended} (h : WroteUpTo pdu u u' addr dataIndex n k ended) :
    u'.registers = u.registers ↔ ∀ i < k, HoldsWord pdu u.currentTime u addr dataIndex i := by
  constructor
  · intro heq i hi
    obtain ⟨v, hv, hreg⟩ := h.holds i hi
    rw [find, heq] at hreg
    exact ⟨v, hv, hreg⟩
  · intro hholds
    funext a
    by_cases hwritten : ∃ i < k, a = BitVec.ofNat 16 (addr + i)
    · obtain ⟨i, hi, rfl⟩ := hwritten
      obtain ⟨v, hv, hreg⟩ := h.holds i hi
      obtain ⟨w, hw, hold⟩ := hholds i hi
      obtain rfl := Option.some.inj (hv.symm.trans hw)
      exact hreg.trans hold.symm
    · exact h.unchanged a fun i hi heq => hwritten ⟨i, hi, heq⟩

theorem WroteUpTo.regular_iff {pdu : PDU} {u u' : ServerUnit} {startAddr regsCount : Short}
    {dataIndex k : ℕ} {ended : Ended}
    (h : WroteUpTo pdu u u' startAddr.toNat dataIndex regsCount.toNat k ended) :
    WriteRegular pdu u startAddr regsCount dataIndex ↔
      (ended = .done → Wrote pdu u u' startAddr regsCount dataIndex) ∧
        (ended ≠ .done → u'.registers = u.registers) := by
  constructor
  · rintro ⟨m, hm, haccepts, ⟨rfl, hle⟩ | ⟨hlt, hstops, hholds⟩⟩
    · obtain rfl := h.unique le_rfl haccepts fun hlt => absurd hlt (lt_irrefl _)
      refine ⟨fun _ => h.wrote_iff.mpr hle, fun hended => ?_⟩
      exact absurd (h.done.mpr rfl) hended
    · obtain rfl := h.unique hm haccepts fun _ => hstops
      refine ⟨fun hended => ?_, fun _ => h.unchanged_iff.mpr hholds⟩
      have hall := h.done.mp hended
      omega
  · rintro ⟨hwrote, hsame⟩
    refine ⟨k, h.le, h.accepts, ?_⟩
    by_cases hall : k = regsCount.toNat
    · subst hall
      exact Or.inl ⟨rfl, h.wrote_iff.mp (hwrote (h.done.mpr rfl))⟩
    · have hlt : k < regsCount.toNat := lt_of_le_of_ne h.le hall
      have hended : ended ≠ .done := fun hdone => hall (h.done.mp hdone)
      exact Or.inr ⟨hlt, h.stops hlt, h.unchanged_iff.mp (hsame hended)⟩

theorem not_isException {pdu : PDU} (hfunc : pdu.funcCode = 0x06 ∨ pdu.funcCode = 0x10)
    (data : List Byte) : ¬PDU.IsException { pdu with data } := by
  intro h
  obtain heq | heq := hfunc
  · exact h (by rw [heq]; rfl)
  · exact h (by rw [heq]; rfl)

theorem processRequest_eq {unit : Byte} {pdu : PDU} {u : ServerUnit} (hid : u.id = unit)
    (hfunc : pdu.funcCode = 0x06 ∨ pdu.funcCode = 0x10) :
    u.processRequest unit pdu = u.performWriteRegisters pdu := by
  have hread : pdu.funcCode ≠ 0x03 := by
    obtain heq | heq := hfunc
    · rw [heq]
      decide
    · rw [heq]
      decide
  rw [processRequest, if_neg (not_not.mpr hid), if_neg hread, if_pos hfunc]

/-- How far a write comes, and the answer to it. -/
theorem performWriteRegisters_spec {pdu : PDU} {u : ServerUnit} {startAddr regsCount : Short}
    {dataIndex : ℕ} (hfunc : pdu.funcCode = 0x06 ∨ pdu.funcCode = 0x10)
    (hstart : pdu.shortAt 0 = some startAddr)
    (hheader : writeHeader pdu = some (regsCount, dataIndex)) :
    ∃ k ended, WroteUpTo pdu u (u.performWriteRegisters pdu).1 startAddr.toNat dataIndex
        regsCount.toNat k ended ∧
      (ended = .done → ∃ answer, (u.performWriteRegisters pdu).2 = some answer ∧
        ¬answer.IsException) ∧
      (ended ≠ .done → ∀ answer ∈ (u.performWriteRegisters pdu).2, answer.IsException) := by
  have hcount := regsCount.isLt
  obtain ⟨k, hk⟩ := writeRegisters_spec pdu regsCount.toNat startAddr.toNat dataIndex u (by omega)
  rw [performWriteRegisters, hstart, hheader]
  simp only
  revert hk
  generalize writeRegisters pdu regsCount.toNat startAddr.toNat dataIndex u = result
  obtain ⟨u', ended⟩ := result
  intro hk
  refine ⟨k, ended, ?_⟩
  cases ended with
  | done =>
    refine ⟨hk, fun _ => ⟨_, rfl, ?_⟩, fun h => absurd rfl h⟩
    split
    · exact not_isException hfunc _
    · exact not_isException hfunc pdu.data
  | illegalDataAddress =>
    refine ⟨hk, fun h => by contradiction, fun _ answer hanswer => ?_⟩
    obtain rfl := Option.some.inj hanswer
    exact createErrorResponse_isException _ _
  | outOfRange =>
    exact ⟨hk, fun h => by contradiction,
      fun _ answer hanswer => absurd hanswer (Option.not_mem_none answer)⟩

/-- A write is atomic when the request is for another unit or has no header, or when it is regular. -/
theorem writeAtomic_iff (unit : Byte) (pdu : PDU) (u : ServerUnit)
    (hfunc : pdu.funcCode = 0x06 ∨ pdu.funcCode = 0x10) :
    u.WriteAtomic unit pdu ↔
      (u.id = unit → ∀ startAddr regsCount dataIndex, pdu.shortAt 0 = some startAddr →
        writeHeader pdu = some (regsCount, dataIndex) →
        WriteRegular pdu u startAddr regsCount dataIndex) := by
  by_cases hid : u.id = unit
  · rw [WriteAtomic, processRequest_eq hid hfunc]
    constructor
    · rintro ⟨hrefused, hanswered⟩ - startAddr regsCount dataIndex hstart hheader
      obtain ⟨k, ended, hk, hdone, hnot⟩ := performWriteRegisters_spec hfunc hstart hheader
      rw [hk.regular_iff]
      refine ⟨fun hended => ?_, fun hended => hrefused (hnot hended)⟩
      obtain ⟨answer, hanswer, hpositive⟩ := hdone hended
      obtain ⟨s, c, d, hs, hcd, hwrote⟩ := hanswered answer hanswer hpositive
      obtain rfl := Option.some.inj (hstart.symm.trans hs)
      obtain ⟨rfl, rfl⟩ := Prod.mk.inj (Option.some.inj (hheader.symm.trans hcd))
      exact hwrote
    · intro hregular
      by_cases hparts : ∃ startAddr header, pdu.shortAt 0 = some startAddr ∧
          writeHeader pdu = some header
      · obtain ⟨startAddr, ⟨regsCount, dataIndex⟩, hstart, hheader⟩ := hparts
        obtain ⟨k, ended, hk, hdone, hnot⟩ := performWriteRegisters_spec hfunc hstart hheader
        obtain ⟨hwrote, hsame⟩ :=
          hk.regular_iff.mp (hregular hid startAddr regsCount dataIndex hstart hheader)
        refine ⟨fun hexception => ?_, fun answer hanswer hpositive => ?_⟩
        · apply hsame
          intro hended
          obtain ⟨answer, hanswer, hpositive⟩ := hdone hended
          exact hpositive (hexception answer hanswer)
        · refine ⟨startAddr, regsCount, dataIndex, hstart, hheader, hwrote ?_⟩
          by_contra hended
          exact hpositive (hnot hended answer hanswer)
      · have hnone : u.performWriteRegisters pdu = (u, none) := by
          rw [performWriteRegisters]
          cases hstart : pdu.shortAt 0 with
          | none => rfl
          | some startAddr =>
            cases hheader : writeHeader pdu with
            | none => rfl
            | some header => exact absurd ⟨startAddr, header, hstart, hheader⟩ hparts
        rw [hnone]
        exact ⟨fun _ => rfl, fun answer hanswer => absurd hanswer (Option.not_mem_none answer)⟩
  · rw [WriteAtomic, processRequest, if_pos hid]
    exact ⟨fun _ h => absurd h hid,
      fun _ => ⟨fun _ => rfl, fun answer hanswer => absurd hanswer (Option.not_mem_none answer)⟩⟩

def oneRegister : ServerUnit where
  id := 7
  registers := fun addr => if addr = 1 then some ⟨5, 100⟩ else none
  currentTime := 200

theorem oneRegister_writeAtomic : oneRegister.WriteAtomic 7 ⟨0x06, [0, 1, 0, 9]⟩ := by
  apply (writeAtomic_iff 7 ⟨0x06, [0, 1, 0, 9]⟩ oneRegister (Or.inl rfl)).mpr
  intro _ startAddr regsCount dataIndex hstart hheader
  obtain rfl := Option.some.inj hstart
  obtain ⟨rfl, rfl⟩ := Prod.mk.inj (Option.some.inj hheader)
  refine ⟨1, le_rfl, fun i hi => ?_, Or.inl ⟨rfl, by decide⟩⟩
  obtain rfl : i = 0 := by omega
  exact ⟨by decide, by decide⟩

/-- A write of that register and the next one, which does not exist, is refused half way. -/
theorem oneRegister_not_writeAtomic :
    ¬∀ (unit : Byte) (pdu : PDU) (u : ServerUnit), pdu.funcCode = 0x06 ∨ pdu.funcCode = 0x10 →
      u.WriteAtomic unit pdu := by
  intro h
  have hsame := (h 7 ⟨0x10, [0, 1, 0, 2, 4, 0, 9, 0, 9]⟩ oneRegister (Or.inr rfl)).1 ?_
  · have hreg := congrFun hsame 1
    revert hreg
    decide
  · intro answer hanswer
    obtain rfl := Option.some.inj hanswer
    exact createErrorResponse_isException _ _

end ServerUnit
end Boruta
end Szarp
