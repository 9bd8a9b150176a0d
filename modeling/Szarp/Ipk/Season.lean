import Szarp.Ipk.Dom

/-!
# Saving the seasons

`tseason.cc`: the summer season of every year, and the XML node in which it is saved.
-/

namespace Szarp
namespace Ipk

open Xml Numeral Dom

def IsInt (v : ℤ) : Prop := -2 ^ 31 ≤ v ∧ v < 2 ^ 31

def Season.IsInt (s : Season) : Prop :=
  Ipk.IsInt s.monthStart ∧ Ipk.IsInt s.dayStart ∧ Ipk.IsInt s.monthEnd ∧ Ipk.IsInt s.dayEnd

/-- A value of the class `TSSeason`: the years are the keys of a map, and all numbers are of type
`int`. -/
structure TSSeason extends Seasons where
  nodup : (seasons.map Prod.fst).Nodup
  defs_isInt : defs.IsInt
  seasons_isInt : ∀ entry ∈ seasons, IsInt entry.1 ∧ entry.2.IsInt

namespace Seasons

def checkSeason (s : Season) (month day : ℤ) : Bool :=
  (s.monthStart < month ∨ s.monthStart = month ∧ s.dayStart ≤ day) ∧
    (s.monthEnd > month ∨ s.monthEnd = month ∧ s.dayEnd > day)

def getSeason (t : Seasons) (year : ℤ) : Season := (t.seasons.lookup year).getD t.defs

def isSummerSeason (t : Seasons) (year month day : ℤ) : Bool :=
  checkSeason (t.getSeason year) month day

/-! ## Saving -/

def itoa (x : ℤ) : String := String.ofList (intText x)

def setSeason (attrs : Attrs) (s : Season) : Attrs :=
  (((attrs.set "month_start" (itoa s.monthStart)).set "day_start" (itoa s.dayStart)).set
    "month_end" (itoa s.monthEnd)).set "day_end" (itoa s.dayEnd)

def yearNode (year : ℤ) : Node :=
  .element ⟨none, "season"⟩ (Attrs.empty.set "year" (itoa year)) []

/-- One turn of the loop: the node of a year gets the year, and its parent the rest. -/
def generateYear (r : Attrs × List Node) (entry : ℤ × Season) : Attrs × List Node :=
  (setSeason r.1 entry.2, r.2 ++ [yearNode entry.1])

def generateXMLNode (t : Seasons) : Node :=
  let r := t.seasons.foldl generateYear (setSeason .empty t.defs, [])
  .element ⟨none, "seasons"⟩ r.1 r.2

/-! ## The round trip -/

def Same (t u : Seasons) : Prop :=
  t.defs = u.defs ∧ ∀ year, t.seasons.lookup year = u.seasons.lookup year

theorem Same.isSummerSeason {t u : Seasons} (h : Same t u) (year month day : ℤ) :
    t.isSummerSeason year month day = u.isSummerSeason year month day := by
  rw [Seasons.isSummerSeason, Seasons.isSummerSeason, getSeason, getSeason, h.1, h.2 year]

theorem scanInt_itoa {x : ℤ} (h : IsInt x) : scanInt (itoa x) = some x := scanInt_intText h.1 h.2

/-- A season comes back from the attributes into which it was put. -/
theorem parseSeason_setSeason (name : Name) (attrs : Attrs) {s : Season} (hs : s.IsInt)
    (children : List Node) :
    parseSeason (.element name (setSeason attrs s) children) = some s := by
  obtain ⟨hms, hds, hme, hde⟩ := hs
  simp [parseSeason, scanAttr, Node.prop, Node.attrs, setSeason, scanInt_itoa hms,
    scanInt_itoa hds, scanInt_itoa hme, scanInt_itoa hde]

theorem parseYear_yearNode (year : ℤ) : parseYear (yearNode year) = none := by
  have hmonth : (Attrs.empty.set "year" (itoa year)).get "month_start" = none := by
    rw [Attrs.get_set_of_ne _ _ (by decide)]
    rfl
  have hseason : parseSeason (yearNode year) = none := by
    simp [parseSeason, scanAttr, Node.prop, Node.attrs, yearNode, hmonth]
  simp [parseYear, hseason]

theorem foldl_generateYear (entries : List (ℤ × Season)) (attrs : Attrs) (children : List Node) :
    (entries.foldl generateYear (attrs, children)).2 =
      children ++ entries.map fun entry => yearNode entry.1 := by
  induction entries generalizing attrs children with
  | nil => simp
  | cons entry entries ih =>
    rw [List.foldl_cons, generateYear, ih, List.append_assoc, List.map_cons, List.singleton_append]

/-- The node of a year is not read. -/
theorem parseSeasons_generateXMLNode {t : Seasons} (h : t.seasons ≠ []) :
    parseSeasons t.generateXMLNode = none := by
  obtain ⟨entry, entries, hseasons⟩ := List.exists_cons_of_ne_nil h
  have hyears : (t.generateXMLNode.named "season").mapM parseYear = none := by
    rw [Node.named, generateXMLNode, Node.children, foldl_generateYear, hseasons, List.nil_append,
      List.map_cons, List.filter_cons_of_pos (by simp [Node.loc, yearNode]), List.mapM_cons,
      parseYear_yearNode]
    rfl
  rw [parseSeasons, hyears]
  cases parseSeason t.generateXMLNode <;> rfl

end Seasons

namespace TSSeason

def RoundTrips (t : TSSeason) : Prop :=
  ∃ u, parseSeasons t.generateXMLNode = some u ∧ u.Same t.toSeasons ∧
    ∀ year month day, u.isSummerSeason year month day = t.isSummerSeason year month day

/-- Exactly the seasons without one of a single year come back. -/
theorem roundTrips_iff (t : TSSeason) : t.RoundTrips ↔ t.seasons = [] := by
  constructor
  · rintro ⟨u, hu, -⟩
    by_contra hne
    rw [Seasons.parseSeasons_generateXMLNode hne] at hu
    exact nomatch hu
  · intro hseasons
    have hparse : parseSeasons t.generateXMLNode = some { defs := t.defs } := by
      simp only [parseSeasons, Seasons.generateXMLNode, hseasons, List.foldl_nil,
        Seasons.parseSeason_setSeason _ _ t.defs_isInt]
      rfl
    have hsame : Seasons.Same { defs := t.defs } t.toSeasons := by
      constructor
      · rfl
      · intro year
        rw [hseasons]
    exact ⟨_, hparse, hsame, hsame.isSummerSeason⟩

/-- The summer of 2010 starts on 1 April. -/
def earlySummer : TSSeason where
  seasons := [(2010, { dayStart := 1 })]
  nodup := List.nodup_singleton _
  defs_isInt := by simp [Season.IsInt, IsInt]
  seasons_isInt := by simp [Season.IsInt, IsInt]

theorem earlySummer_not_roundTrips : ¬ earlySummer.RoundTrips := by
  rintro ⟨u, hu, -⟩
  rw [Seasons.parseSeasons_generateXMLNode (List.cons_ne_nil _ _)] at hu
  exact nomatch hu

end TSSeason
end Ipk
end Szarp
