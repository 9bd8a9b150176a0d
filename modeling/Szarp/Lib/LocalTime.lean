import Mathlib.Data.Int.Init

/-!
# Local time with clock changes

Wall clocks of a zone whose offset is one hour, and two hours in summer. The clocks are changed at
01:00 on Sundays of universal time; in which weeks it is summer is up to the zone. Times are
milliseconds since the epoch, 1 January 1970, a Thursday.
-/

namespace Szarp

/-- The weeks, from Sunday 01:00 on, in which it is summer, and which of the two times a wall clock
time is taken for when the clocks are put back: the earlier one or the later one. -/
structure LocalZone where
  summer : ℤ → Bool
  early : ℤ → Bool

namespace LocalZone

/-- The week of a time: the first one starts at 4 January 1970, 01:00. -/
def week (t : ℤ) : ℤ := (t - 262800000) / 604800000

def isDst (z : LocalZone) (t : ℤ) : Bool := z.summer (week t)

def offset (z : LocalZone) (t : ℤ) : ℤ := if z.isDst t then 7200000 else 3600000

def toLocal (z : LocalZone) (t : ℤ) : ℤ := t + z.offset t

def ofLocal (z : LocalZone) (w : ℤ) : ℤ :=
  if z.isDst (w - 7200000) ∧ (z.isDst (w - 3600000) ∨ z.early w) then w - 7200000 else w - 3600000

/-! ## Wall clocks -/

theorem offset_cases (z : LocalZone) (t : ℤ) :
    (z.isDst t = true ∧ z.offset t = 7200000) ∨ (z.isDst t = false ∧ z.offset t = 3600000) := by
  cases h : z.isDst t with
  | true => exact Or.inl ⟨rfl, by rw [offset, h]; rfl⟩
  | false => exact Or.inr ⟨rfl, by rw [offset, h]; rfl⟩

/-- What the wall clocks have shown they show at the time that is found for it. -/
theorem toLocal_ofLocal_toLocal (z : LocalZone) (t : ℤ) :
    z.toLocal (z.ofLocal (z.toLocal t)) = z.toLocal t := by
  obtain ⟨hdst, hoffset⟩ | ⟨hdst, hoffset⟩ := z.offset_cases t
  · have hlocal : z.toLocal t = t + 7200000 := by rw [toLocal, hoffset]
    have hearly : t + 7200000 - 7200000 = t := by omega
    rw [hlocal, ofLocal, hearly]
    split
    · rw [toLocal, hoffset]
    · rename_i h
      have hlate : z.isDst (t + 7200000 - 3600000) = false := by
        cases hlate : z.isDst (t + 7200000 - 3600000) with
        | false => rfl
        | true => exact absurd ⟨hdst, Or.inl hlate⟩ h
      rw [toLocal, offset, hlate]
      simp only [Bool.false_eq_true, if_false]
      omega
  · have hlocal : z.toLocal t = t + 3600000 := by rw [toLocal, hoffset]
    have hlate : t + 3600000 - 3600000 = t := by omega
    rw [hlocal, ofLocal, hlate]
    split
    · rename_i h
      rw [toLocal, offset, if_pos h.1]
      omega
    · rw [toLocal, hoffset]

/-- Within an hour of universal time the clocks are not changed. -/
theorem isDst_of_hour (z : LocalZone) {s t : ℤ} (h : s / 3600000 = t / 3600000) :
    z.isDst s = z.isDst t := by
  have hweek : week s = week t := by
    rw [week, week]
    omega
  rw [isDst, isDst, hweek]

/-! ## Settled times

The first hour of every third of a day is far from the hours in which the clocks are changed. -/

/-- It is summer when the wall clocks show something; for settled times there is no doubt. -/
def isSummer (z : LocalZone) (w : ℤ) : Bool := z.isDst (w - 3600000)

/-- The offset from what the wall clocks show. -/
def lag (z : LocalZone) (w : ℤ) : ℤ := if z.isSummer w then 7200000 else 3600000

theorem lag_cases (z : LocalZone) (w : ℤ) :
    (z.isSummer w = true ∧ z.lag w = 7200000) ∨ (z.isSummer w = false ∧ z.lag w = 3600000) := by
  cases h : z.isSummer w with
  | true => exact Or.inl ⟨rfl, by rw [lag, h]; rfl⟩
  | false => exact Or.inr ⟨rfl, by rw [lag, h]; rfl⟩

/-- The wall clock times that are shown once. -/
def Settled (w : ℤ) : Prop := week (w - 7200000) = week (w - 3600000)

theorem settled_of_third {w : ℤ} (h : w % 28800000 < 3600000) : Settled w := by
  rw [Settled, week, week]
  omega

variable {z : LocalZone} {w : ℤ}

theorem Settled.isDst_early (h : Settled w) : z.isDst (w - 7200000) = z.isSummer w := by
  rw [isSummer, isDst, isDst, h]

theorem Settled.isDst_sub_lag (h : Settled w) : z.isDst (w - z.lag w) = z.isSummer w := by
  obtain ⟨-, hlag⟩ | ⟨-, hlag⟩ := z.lag_cases w
  · rw [hlag, h.isDst_early]
  · rw [hlag, isSummer]

theorem Settled.ofLocal (h : Settled w) : z.ofLocal w = w - z.lag w := by
  rw [LocalZone.ofLocal, h.isDst_early]
  obtain ⟨hsummer, hlag⟩ | ⟨hsummer, hlag⟩ := z.lag_cases w
  · have hlate : z.isDst (w - 3600000) = true := hsummer
    rw [if_pos ⟨hsummer, Or.inl hlate⟩, hlag]
  · rw [if_neg (fun h => Bool.false_ne_true (hsummer.symm.trans h.1)), hlag]

theorem Settled.isDst_ofLocal (h : Settled w) : z.isDst (z.ofLocal w) = z.isSummer w := by
  rw [h.ofLocal, h.isDst_sub_lag]

theorem Settled.toLocal_ofLocal (h : Settled w) : z.toLocal (z.ofLocal w) = w := by
  rw [toLocal, offset, h.isDst_ofLocal, h.ofLocal, lag]
  omega

end LocalZone
end Szarp
