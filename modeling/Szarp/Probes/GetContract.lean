import Szarp.Probes.Get

/-!
# The contract of GET

The producer announces a size, writes the stored values and finishes, and the client reads what
was written.  The producer stops before the last slot when its loop ends exactly there.
-/

namespace Szarp
namespace Probes

open Gregorian Szbase PyText Numeral

/-- The characters of a line of numbers. -/
def IsLineChar (d : Char) : Prop := d = ' ' ∨ d = '-' ∨ d.isDigit

theorem IsLineChar.toNat {d : Char} (h : IsLineChar d) : d.toNat < 128 ∧ d.toNat ≠ 10 := by
  rcases h with rfl | rfl | h
  · decide
  · decide
  · rw [Char.isDigit, Bool.and_eq_true, decide_eq_true_iff, decide_eq_true_iff] at h
    have h0 : 48 ≤ d.toNat := h.1
    have h9 : d.toNat ≤ 57 := h.2
    omega

variable (c : SzbCache) (pauses : ℕ → Bool) {param : List Char} {files : List MonthFile}

def Level (stop base t : ℤ) (o : Output) : Prop :=
  t ≤ stop ∧ 1 ≤ (szbTime2my t).1 ∧ (o.bytes.length : ℤ) = base + 2 * (t / 10)

theorem Level.writeData (hdir : IsParamDir c param files) {stop base : ℤ}
    (hstop : stop = monthStart (szbTime2my stop).1 (szbTime2my stop).2)
    (hdot : '.' ∉ join c.cachedir param) (hyear' : (szbTime2my stop).1 ≤ 9999) {t next : ℤ}
    {o : Output} {bytes : List UInt8} (hlevel : Level stop base t o) (hlt : t < stop)
    (h : c.writeData t stop param = .ok (next, bytes)) :
    Level stop base next (o.write bytes) := by
  obtain ⟨-, hyear, hlen⟩ := hlevel
  have hmonth : szbTime2my t ≠ szbTime2my stop := by
    intro heq
    have hle := monthStart_le t
    rw [heq, ← hstop] at hle
    omega
  obtain ⟨next', -, hlt', hle, hwrite⟩ :=
    writeData_nextMonth c hdir hdot hlt.le hyear hyear' hmonth
  rw [hwrite] at h
  obtain ⟨rfl, rfl⟩ := Prod.mk.inj (Except.ok.inj h)
  have hyears := szbTime2my_year_mono hlt'.le
  refine ⟨hle, by omega, ?_⟩
  rw [Output.write, List.length_append, length_slots]
  push_cast
  omega

end Probes
end Szarp
