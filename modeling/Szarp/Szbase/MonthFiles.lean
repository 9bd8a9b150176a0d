import Mathlib.Data.Char
import Mathlib.Data.List.Lex
import Mathlib.Data.List.TakeWhile
import Szarp.Lib.PyText
import Szarp.Szbase.Date

/-!
# Names of month files

`szb_createfilename_ne`, `is_szb_file_name` and `szb_path2date` of `szbfile.cc`, and the search of
`szbbuf.cc` for the first file of a parameter.
-/

namespace Szarp
namespace Szbase

open Numeral PyText

/-- The character behind the end of a text. -/
def nul : Char := Char.ofNat 0

structure FileName where
  chars : List Char
  noNul : nul ∉ chars

def leafName (year month : ℕ) (suffix : List Char) : List Char :=
  padded 4 year ++ padded 2 month ++ suffix

def szbSuffix : List Char := ['.', 's', 'z', 'b']

def szbCreatefilenameNe (cparam : List Char) (year : ℤ) (month : ℕ) (suffix : List Char) :
    List Char :=
  if cparam = [] then []
  else if month < 1 ∨ month > 12 then []
  else if year < minYear ∨ year > maxYear then []
  else cparam ++ '/' :: leafName year.toNat month suffix

def isSzbFileName (str : List Char) : Bool :=
  (List.range 6).all (fun i => (str.getD i nul).isDigit) && str.getD 6 nul = '.' &&
    str.getD 7 nul = 's' && str.getD 8 nul = 'z' && str.getD 9 nul = 'b' && str.getD 10 nul = nul

def digitValue (c : Char) : ℕ := c.toNat - 48

/-- The first loop of `szb_path2date` from `i` on: the month, and where the loop leaves `i`. -/
def monthLoop (datestring : List Char) : ℕ → ℕ × ℕ
  | 0 => (0, 0)
  | i + 1 =>
    if i + 1 > 4 then
      if (datestring.getD (i + 1) nul).isDigit ∧ (datestring.getD i nul).isDigit then
        (digitValue (datestring.getD i nul) * 10 + digitValue (datestring.getD (i + 1) nul),
          i + 1 - 2)
      else monthLoop datestring i
    else (0, i + 1)

def yearLoop (datestring : List Char) : ℕ → ℕ
  | 0 => 0
  | i + 1 =>
    if i + 1 > 2 then
      if (datestring.getD (i + 1) nul).isDigit ∧ (datestring.getD i nul).isDigit ∧
          (datestring.getD (i - 1) nul).isDigit ∧ (datestring.getD (i - 2) nul).isDigit then
        digitValue (datestring.getD (i - 2) nul) * 1000 +
          digitValue (datestring.getD (i - 1) nul) * 100 +
          digitValue (datestring.getD i nul) * 10 + digitValue (datestring.getD (i + 1) nul)
      else yearLoop datestring i
    else 0

section paths

-- the library function `path::stem`
variable (stem : List Char → List Char)

/-- The stem of a path is its last element up to the last dot.  A path of two slashes and a name is
one element. -/
structure IsStem : Prop where
  leaf : ∀ name ext : List Char, '.' ∉ ext → '/' ∉ ext → '/' ∉ name → name ≠ [] →
    stem (name ++ '.' :: ext) = name
  path : ∀ dir name ext : List Char, dir ≠ [] → dir ≠ ['/'] → '.' ∉ ext → '/' ∉ ext →
    '/' ∉ name → name ≠ [] → stem (dir ++ '/' :: (name ++ '.' :: ext)) = name
  rootName : ∀ name ext : List Char, '.' ∉ ext → '/' ∉ ext → '/' ∉ name → name ≠ [] →
    stem ('/' :: '/' :: (name ++ '.' :: ext)) = '/' :: '/' :: name

def szbPath2date (path : List Char) : ℕ × ℕ :=
  let datestring := stem path
  if datestring.length ≠ 6 then (0, 0)
  else
    let (month, i) := monthLoop datestring (6 - 1)
    let year := yearLoop datestring i
    if year ≤ 0 ∨ year > 9999 ∨ month ≤ 0 ∨ month > 12 then (0, 0) else (year, month)

def findOneParamFile (op : List Char → List Char → Bool) :
    List FileName → List Char → List Char
  | [], file => file
  | l :: names, file =>
    if isSzbFileName l.chars = false then findOneParamFile op names file
    else if file = [] then findOneParamFile op names l.chars
    else if op l.chars file then findOneParamFile op names l.chars
    else findOneParamFile op names file

/-- `szb_search_first`, for the names in the directory of the parameter. -/
def szbSearchFirst (names : List FileName) : ℤ :=
  let first := findOneParamFile (fun l file => l < file) names []
  if first = [] then -1
  else
    let (year, month) := szbPath2date stem first
    if year ≤ 0 ∨ month ≤ 0 then -1 else probe2time 0 year month

end paths

/-! ## Months and their files -/

structure Month where
  year : ℤ
  month : ℕ
  year_ge : minYear ≤ year
  year_le : year ≤ maxYear
  month_ge : 1 ≤ month
  month_le : month ≤ 12

namespace Month

def leaf (mo : Month) : List Char := leafName mo.year.toNat mo.month szbSuffix

def Le (mo mo' : Month) : Prop :=
  mo.year < mo'.year ∨ mo.year = mo'.year ∧ mo.month ≤ mo'.month

def IsIn (mo : Month) (names : List FileName) : Prop := mo.leaf ∈ names.map FileName.chars

end Month

/-- The start of the first month that has a file, -1 when there is none. -/
def IsFirstMonth (names : List FileName) (r : ℤ) : Prop :=
  (∃ mo : Month, mo.IsIn names ∧ (∀ mo' : Month, mo'.IsIn names → mo.Le mo') ∧
    r = probe2time 0 mo.year mo.month) ∨
  (∀ mo : Month, ¬ mo.IsIn names) ∧ r = -1

/-- There is no month file, or the first name of six digits is that of a month, not of year 0. -/
def Unhidden (names : List FileName) : Prop :=
  (∀ mo : Month, ¬ mo.IsIn names) ∨
  ∃ mo : Month, mo.year ≠ 0 ∧ mo.IsIn names ∧
    ∀ l ∈ names, isSzbFileName l.chars → ¬ l.chars < mo.leaf

/-! ## Names of six digits -/

theorem exists_digitChar {c : Char} (h : c.isDigit) : ∃ k < 10, c = Nat.digitChar k := by
  simp only [Char.isDigit, Bool.and_eq_true, decide_eq_true_eq] at h
  obtain ⟨hlo, hhi⟩ := h
  have hn : 48 ≤ c.toNat ∧ c.toNat ≤ 57 := ⟨hlo, hhi⟩
  refine ⟨c.toNat - 48, by omega, ?_⟩
  have hall : ∀ n < 58, 48 ≤ n → Char.ofNat n = Nat.digitChar (n - 48) := by decide
  have := hall c.toNat (by omega) hn.1
  rwa [Char.ofNat_toNat] at this

theorem digitValue_digitChar : ∀ k < 10, digitValue (Nat.digitChar k) = k := by decide

theorem isDigit_digitChar : ∀ k < 10, (Nat.digitChar k).isDigit := by decide

theorem padded_one {n : ℕ} (h : n < 10) : padded 1 n = [Nat.digitChar n] := by
  rw [padded, Nat.toDigits_of_lt_base h]
  rfl

theorem padded_two {n : ℕ} (h : n < 100) :
    padded 2 n = [Nat.digitChar (n / 10), Nat.digitChar (n % 10)] := by
  rw [padded_succ (by decide), padded_one (by omega)]
  rfl

theorem padded_four {n : ℕ} (h : n < 10000) :
    padded 4 n = [Nat.digitChar (n / 1000), Nat.digitChar (n / 100 % 10),
      Nat.digitChar (n / 10 % 10), Nat.digitChar (n % 10)] := by
  have hhundreds : n / 10 / 10 = n / 100 := by omega
  have hthousands : n / 100 / 10 = n / 1000 := by omega
  rw [padded_succ (by decide), padded_succ (by decide), padded_succ (by decide), hhundreds,
    hthousands, padded_one (by omega)]
  rfl

theorem isSzbFileName_iff (l : FileName) :
    isSzbFileName l.chars ↔ ∃ y < 10000, ∃ m < 100, l.chars = leafName y m szbSuffix := by
  obtain ⟨s, hnul⟩ := l
  dsimp only
  constructor
  · intro h
    simp only [isSzbFileName, Bool.and_eq_true, List.all_eq_true, List.mem_range,
      decide_eq_true_eq] at h
    obtain ⟨⟨⟨⟨⟨hdigit, h6⟩, h7⟩, h8⟩, h9⟩, h10⟩ := h
    have hlen : s.length = 10 := by
      have hlt : 9 < s.length := by
        by_contra hge
        rw [List.getD_eq_getElem?_getD, List.getElem?_eq_none (by omega)] at h9
        exact absurd h9 (by decide)
      by_contra hne
      rw [List.getD_eq_getElem?_getD, List.getElem?_eq_getElem (by omega)] at h10
      exact hnul (h10 ▸ List.getElem_mem _)
    match s, hlen with
    | [a, b, c, d, e, f, g, h, i, j], _ =>
      obtain ⟨ka, ha, rfl⟩ := exists_digitChar (hdigit 0 (by decide))
      obtain ⟨kb, hb, rfl⟩ := exists_digitChar (hdigit 1 (by decide))
      obtain ⟨kc, hc, rfl⟩ := exists_digitChar (hdigit 2 (by decide))
      obtain ⟨kd, hd, rfl⟩ := exists_digitChar (hdigit 3 (by decide))
      obtain ⟨ke, he, rfl⟩ := exists_digitChar (hdigit 4 (by decide))
      obtain ⟨kf, hf, rfl⟩ := exists_digitChar (hdigit 5 (by decide))
      refine ⟨1000 * ka + 100 * kb + 10 * kc + kd, by omega, 10 * ke + kf, by omega, ?_⟩
      have h1 : (1000 * ka + 100 * kb + 10 * kc + kd) / 1000 = ka := by omega
      have h2 : (1000 * ka + 100 * kb + 10 * kc + kd) / 100 % 10 = kb := by omega
      have h3 : (1000 * ka + 100 * kb + 10 * kc + kd) / 10 % 10 = kc := by omega
      have h4 : (1000 * ka + 100 * kb + 10 * kc + kd) % 10 = kd := by omega
      have h5 : (10 * ke + kf) / 10 = ke := by omega
      have h6' : (10 * ke + kf) % 10 = kf := by omega
      change g = '.' at h6
      change h = 's' at h7
      change i = 'z' at h8
      change j = 'b' at h9
      rw [leafName, padded_four (by omega), padded_two (by omega), h1, h2, h3, h4, h5, h6', h6, h7,
        h8, h9]
      rfl
  · rintro ⟨y, hy, m, hm, rfl⟩
    have hdigit : ∀ n, (Nat.digitChar (n % 10)).isDigit := fun n =>
      isDigit_digitChar _ (Nat.mod_lt n (by decide))
    have hthousands := isDigit_digitChar (y / 1000) (by omega)
    have htens := isDigit_digitChar (m / 10) (by omega)
    rw [leafName, padded_four hy, padded_two hm]
    simp [isSzbFileName, szbSuffix, List.range_succ, hdigit, hthousands, htens]

theorem leafName_lt {y y' m m' : ℕ} (hy' : y' < 10000) (hm' : m' < 100)
    (h : y < y' ∨ y = y' ∧ m < m') (suffix : List Char) :
    leafName y m suffix < leafName y' m' suffix := by
  unfold leafName
  rcases h with h | ⟨rfl, h⟩
  · have hlen : ∀ n < 10000, (padded 4 n).length = 4 := fun n hn => length_padded (by decide) hn
    rw [List.append_assoc, List.append_assoc]
    apply append_lt_of_lt (padded_lt (by decide) h hy')
    rw [hlen y' hy', hlen y (h.trans hy')]
  · have hlen : ∀ n < 100, (padded 2 n).length = 2 := fun n hn => length_padded (by decide) hn
    apply append_lt_of_lt (append_lt_append (padded_lt (by decide) h hm'))
    rw [List.length_append, List.length_append, hlen m' hm', hlen m (h.trans hm')]

theorem leafName_inj {y y' m m' : ℕ} (hy : y < 10000) (hy' : y' < 10000) (hm : m < 100)
    (hm' : m' < 100) {suffix : List Char} (h : leafName y m suffix = leafName y' m' suffix) :
    y = y' ∧ m = m' := by
  by_contra hne
  have hcases : (y < y' ∨ y = y' ∧ m < m') ∨ (y' < y ∨ y' = y ∧ m' < m) := by omega
  rcases hcases with hlt | hlt
  · exact absurd h (leafName_lt hy' hm' hlt suffix).ne
  · exact absurd h (leafName_lt hy hm hlt suffix).ne'

/-! ## Dates of paths -/

variable {stem : List Char → List Char}

theorem leafName_eq (y m : ℕ) :
    leafName y m szbSuffix = (padded 4 y ++ padded 2 m) ++ '.' :: ['s', 'z', 'b'] := rfl

theorem padded_no_slash (y m : ℕ) : '/' ∉ padded 4 y ++ padded 2 m := by
  intro h
  have hdigit : ('/' : Char).isDigit := by
    rcases List.mem_append.mp h with h | h
    · exact isDigit_padded _ h
    · exact isDigit_padded _ h
  exact absurd hdigit (by decide)

theorem szbPath2date_of_stem {path : List Char} {y m : ℕ} (hy : y < 10000) (hm : m < 100)
    (h : stem path = padded 4 y ++ padded 2 m) :
    szbPath2date stem path = if y = 0 ∨ m = 0 ∨ 12 < m then (0, 0) else (y, m) := by
  have hdigit : ∀ n, (Nat.digitChar (n % 10)).isDigit := fun n =>
    isDigit_digitChar _ (Nat.mod_lt n (by decide))
  have hvalue : ∀ n, digitValue (Nat.digitChar (n % 10)) = n % 10 := fun n =>
    digitValue_digitChar _ (Nat.mod_lt n (by decide))
  have hthousands := isDigit_digitChar (y / 1000) (by omega)
  have htens := isDigit_digitChar (m / 10) (by omega)
  have hmonth : monthLoop (padded 4 y ++ padded 2 m) 5 = (m, 3) := by
    rw [padded_four hy, padded_two hm]
    simp [monthLoop, hdigit, htens, hvalue, digitValue_digitChar (m / 10) (by omega)]
    omega
  have hyear : yearLoop (padded 4 y ++ padded 2 m) 3 = y := by
    rw [padded_four hy, padded_two hm]
    simp [yearLoop, hdigit, hthousands, hvalue, digitValue_digitChar (y / 1000) (by omega)]
    omega
  have hlen : (padded 4 y ++ padded 2 m).length = 6 := by
    rw [List.length_append, length_padded (by decide) hy, length_padded (by decide) hm]
  rw [szbPath2date, h, if_neg (not_not.mpr hlen)]
  simp only [hmonth, hyear, Nat.reduceSub]
  have hiff : (y ≤ 0 ∨ y > 9999 ∨ m ≤ 0 ∨ m > 12) ↔ (y = 0 ∨ m = 0 ∨ 12 < m) := by omega
  simp only [hiff]

theorem szbPath2date_leafName (hstem : IsStem stem) {y m : ℕ} (hy : y < 10000) (hm : m < 100) :
    szbPath2date stem (leafName y m szbSuffix) =
      if y = 0 ∨ m = 0 ∨ 12 < m then (0, 0) else (y, m) := by
  apply szbPath2date_of_stem hy hm
  rw [leafName_eq]
  apply hstem.leaf _ _ (by decide) (by decide) (padded_no_slash y m)
  exact List.append_ne_nil_of_left_ne_nil (padded_ne_nil 4 y) _

/-! ## The first file -/

theorem ne_nil_of_isSzbFileName {s : List Char} (h : isSzbFileName s) : s ≠ [] := by
  rintro rfl
  exact absurd h (by decide)

theorem findOneParamFile_of_found (names : List FileName) {file : List Char} (hfile : file ≠ []) :
    let first := findOneParamFile (fun l file => l < file) names file
    (first = file ∨ ∃ l ∈ names, isSzbFileName l.chars ∧ l.chars = first) ∧ ¬ file < first ∧
      ∀ l ∈ names, isSzbFileName l.chars → ¬ l.chars < first := by
  induction names generalizing file with
  | nil => exact ⟨.inl rfl, lt_irrefl file, fun _ h => absurd h List.not_mem_nil⟩
  | cons l names ih =>
    rw [findOneParamFile, if_neg hfile]
    split_ifs with hname hlt
    · obtain ⟨hmem, hle, hall⟩ := ih hfile
      refine ⟨hmem.imp_right fun ⟨l', hl', h⟩ => ⟨l', List.mem_cons_of_mem l hl', h⟩, hle, ?_⟩
      exact List.forall_mem_cons.mpr ⟨fun h => absurd hname (by rw [h]; decide), hall⟩
    · have hlt' : l.chars < file := of_decide_eq_true hlt
      rw [Bool.not_eq_false] at hname
      obtain ⟨hmem, hle, hall⟩ := ih (ne_nil_of_isSzbFileName hname)
      refine ⟨.inr ?_, fun h => hle (hlt'.trans h), List.forall_mem_cons.mpr ⟨fun _ => hle, hall⟩⟩
      rcases hmem with h | ⟨l', hl', h⟩
      · exact ⟨l, List.mem_cons_self, hname, h.symm⟩
      · exact ⟨l', List.mem_cons_of_mem l hl', h⟩
    · have hge : ¬ l.chars < file := fun h => hlt (decide_eq_true h)
      obtain ⟨hmem, hle, hall⟩ := ih hfile
      refine ⟨hmem.imp_right fun ⟨l', hl', h⟩ => ⟨l', List.mem_cons_of_mem l hl', h⟩, hle, ?_⟩
      refine List.forall_mem_cons.mpr ⟨fun _ h => ?_, hall⟩
      exact hle ((not_lt.mp hge).trans_lt h)

/-- The search finds no name when none is recognised, else the first one. -/
theorem findOneParamFile_spec (names : List FileName) :
    let first := findOneParamFile (fun l file => l < file) names []
    (first = [] ∧ ∀ l ∈ names, ¬ isSzbFileName l.chars) ∨
      ∃ l ∈ names, isSzbFileName l.chars ∧ l.chars = first ∧
        ∀ l' ∈ names, isSzbFileName l'.chars → ¬ l'.chars < first := by
  induction names with
  | nil => exact .inl ⟨rfl, fun _ h => absurd h List.not_mem_nil⟩
  | cons l names ih =>
    rw [findOneParamFile, if_pos rfl]
    split_ifs with hname
    · have hno : ¬ isSzbFileName l.chars := by rw [hname]; decide
      rcases ih with ⟨hnil, hall⟩ | ⟨l', hl', hname', hfirst, hall⟩
      · exact .inl ⟨hnil, List.forall_mem_cons.mpr ⟨hno, hall⟩⟩
      · exact .inr ⟨l', List.mem_cons_of_mem l hl', hname', hfirst,
          List.forall_mem_cons.mpr ⟨fun h => absurd h hno, hall⟩⟩
    · rw [Bool.not_eq_false] at hname
      obtain ⟨hmem, hle, hall⟩ := findOneParamFile_of_found names (ne_nil_of_isSzbFileName hname)
      have hall' := List.forall_mem_cons.mpr ⟨fun _ => hle, hall⟩
      rcases hmem with h | ⟨l', hl', hname', h⟩
      · exact .inr ⟨l, List.mem_cons_self, hname, h.symm, hall'⟩
      · exact .inr ⟨l', List.mem_cons_of_mem l hl', hname', h, hall'⟩

theorem Month.bounds (mo : Month) :
    mo.year.toNat < 10000 ∧ (mo.year.toNat : ℤ) = mo.year ∧ 1 ≤ mo.month ∧ mo.month ≤ 12 := by
  have hge : 0 ≤ mo.year := mo.year_ge
  have hle : mo.year ≤ 9999 := mo.year_le
  exact ⟨by omega, by omega, mo.month_ge, mo.month_le⟩

theorem Month.isSzbFileName_leaf {mo : Month} {l : FileName} (h : l.chars = mo.leaf) :
    isSzbFileName l.chars := by
  obtain ⟨hy, -, -, hm⟩ := mo.bounds
  exact (isSzbFileName_iff l).mpr ⟨mo.year.toNat, hy, mo.month, by omega, h⟩

theorem Month.leaf_lt {mo mo' : Month} (h : ¬ mo'.Le mo) : mo.leaf < mo'.leaf := by
  obtain ⟨-, hyear, -, -⟩ := mo.bounds
  obtain ⟨hy, hyear', -, hm⟩ := mo'.bounds
  unfold Month.Le at h
  exact leafName_lt hy (by omega) (by omega) szbSuffix

/-- The search gives the first of the names that are recognised when it is that of a month, not of
year 0, and nothing when it is not. -/
theorem szbSearchFirst_eq (hstem : IsStem stem) (names : List FileName) :
    (szbSearchFirst stem names = -1 ∧ ∀ mo : Month, mo.year ≠ 0 → mo.IsIn names →
      ∃ l ∈ names, isSzbFileName l.chars ∧ l.chars < mo.leaf) ∨
    ∃ mo : Month, mo.year ≠ 0 ∧ mo.IsIn names ∧
      (∀ l ∈ names, isSzbFileName l.chars → ¬ l.chars < mo.leaf) ∧
      szbSearchFirst stem names = probe2time 0 mo.year mo.month := by
  have hspec := findOneParamFile_spec names
  unfold szbSearchFirst
  generalize findOneParamFile (fun l file => l < file) names [] = first at hspec ⊢
  rcases hspec with ⟨rfl, hnone⟩ | ⟨l, hl, hname, rfl, hall⟩
  · refine .inl ⟨if_pos rfl, fun mo _ hmo => ?_⟩
    obtain ⟨l, hl, hleaf⟩ := List.mem_map.mp hmo
    exact absurd (Month.isSzbFileName_leaf hleaf) (hnone l hl)
  · have hne := ne_nil_of_isSzbFileName hname
    obtain ⟨y, hy, m, hm, hchars⟩ := (isSzbFileName_iff l).mp hname
    have hdate := szbPath2date_leafName hstem hy hm
    simp only [if_neg hne]
    rw [hchars, hdate]
    by_cases hbad : y = 0 ∨ m = 0 ∨ 12 < m
    · rw [if_pos hbad]
      refine .inl ⟨rfl, fun mo hyear hmo => ⟨l, hl, hname, ?_⟩⟩
      obtain ⟨l', hl', hleaf⟩ := List.mem_map.mp hmo
      have hle := hall l' hl' (Month.isSzbFileName_leaf hleaf)
      rw [hleaf] at hle
      refine lt_of_le_of_ne (not_lt.mp hle) fun heq => ?_
      -- a name that is not a month's is no leaf
      obtain ⟨hy', hyear', hm1, hm2⟩ := mo.bounds
      rw [hchars] at heq
      have hsame := leafName_inj hy hy' hm (by omega) heq
      omega
    · rw [if_neg hbad]
      let mo : Month := ⟨y, m, Int.natCast_nonneg y, by unfold maxYear; omega, by omega, by omega⟩
      have hleaf : l.chars = mo.leaf := hchars
      refine .inr ⟨mo, ?_, List.mem_map.mpr ⟨l, hl, hleaf⟩, hleaf ▸ hall, if_neg (by omega)⟩
      change (y : ℤ) ≠ 0
      omega

theorem isFirst_iff_unhidden (hstem : IsStem stem) (names : List FileName) :
    IsFirstMonth names (szbSearchFirst stem names) ↔ Unhidden names := by
  rcases szbSearchFirst_eq hstem names with ⟨hno, hhidden⟩ | ⟨mo, hyear, hmo, hall, hfound⟩
  · rw [hno]
    constructor
    · rintro (⟨mo, -, -, htime⟩ | ⟨hnone, -⟩)
      · -- no month starts one second before 1970
        rw [probe2time_eq 0 mo.year mo.month_ge mo.month_le] at htime
        have := monthStart_mod mo.year mo.month
        omega
      · exact .inl hnone
    · rintro (hnone | ⟨mo, hyear, hmo, hall⟩)
      · exact .inr ⟨hnone, rfl⟩
      · obtain ⟨l, hl, hname, hlt⟩ := hhidden mo hyear hmo
        exact absurd hlt (hall l hl hname)
  · refine iff_of_true (.inl ⟨mo, hmo, fun mo' hmo' => ?_, hfound⟩) (.inr ⟨mo, hyear, hmo, hall⟩)
    by_contra hnot
    obtain ⟨l, hl, hleaf⟩ := List.mem_map.mp hmo'
    have hlt : mo'.leaf < mo.leaf := Month.leaf_lt hnot
    exact hall l hl (Month.isSzbFileName_leaf hleaf) (hleaf ▸ hlt)

theorem szbPath2date_szbCreatefilenameNe (hstem : IsStem stem) {p : List Char} (hp : p ≠ [])
    (mo : Month) :
    szbPath2date stem (szbCreatefilenameNe p mo.year mo.month szbSuffix) =
        (mo.year.toNat, mo.month) ↔ mo.year ≠ 0 ∧ p ≠ ['/'] := by
  obtain ⟨hy, hyear, hm1, hm2⟩ := mo.bounds
  have hne : padded 4 mo.year.toNat ++ padded 2 mo.month ≠ [] :=
    List.append_ne_nil_of_left_ne_nil (padded_ne_nil 4 _) _
  have hpath : szbCreatefilenameNe p mo.year mo.month szbSuffix =
      p ++ '/' :: leafName mo.year.toNat mo.month szbSuffix := by
    rw [szbCreatefilenameNe, if_neg hp, if_neg (by omega), if_neg]
    exact not_or.mpr ⟨not_lt.mpr mo.year_ge, not_lt.mpr mo.year_le⟩
  rw [hpath, leafName_eq]
  by_cases hroot : p = ['/']
  · -- the path is one name, and too long
    refine iff_of_false ?_ fun h => h.2 hroot
    have hlen : (padded 4 mo.year.toNat).length = 4 := length_padded (by decide) hy
    have hlen' : (padded 2 mo.month).length = 2 :=
      length_padded (by decide) (by omega : mo.month < 10 ^ 2)
    have hstem' := hstem.rootName (padded 4 mo.year.toNat ++ padded 2 mo.month) ['s', 'z', 'b']
      (by decide) (by decide) (padded_no_slash _ _) hne
    rw [hroot, List.singleton_append, szbPath2date, hstem', if_pos]
    · intro h
      exact absurd (congrArg Prod.snd h) (by dsimp only; omega)
    · rw [List.length_cons, List.length_cons, List.length_append, hlen, hlen']
      decide
  · rw [szbPath2date_of_stem hy (by omega) (hstem.path p _ _ hp hroot (by decide) (by decide)
      (padded_no_slash _ _) hne)]
    split_ifs with hbad
    · refine iff_of_false (fun h => ?_) fun h => h.1 (by omega)
      have := congrArg Prod.snd h
      dsimp only at this
      omega
    · exact iff_of_true rfl ⟨by omega, hroot⟩

/-- The first month of a directory is found exactly when no other name hides it, and a date comes
back from the path of its file exactly when the year is not 0. -/
theorem searchFirst_iff (stem : List Char → List Char) (hstem : IsStem stem)
    (names : List FileName) (p : List Char) (hp : p ≠ []) (mo : Month) :
    (IsFirstMonth names (szbSearchFirst stem names) ↔ Unhidden names) ∧
      (szbPath2date stem (szbCreatefilenameNe p mo.year mo.month szbSuffix) =
        (mo.year.toNat, mo.month) ↔ mo.year ≠ 0 ∧ p ≠ ['/']) :=
  ⟨isFirst_iff_unhidden hstem names, szbPath2date_szbCreatefilenameNe hstem hp mo⟩

/-- The last element of a path up to its last dot. -/
def lastStem (path : List Char) : List Char :=
  beforeLast '.' (if beforeLast '/' path = ['/'] then path else afterLast '/' path)

theorem isStem_lastStem : IsStem lastStem where
  leaf name ext hext hslash hname hne := by
    have htail : ∀ d ∈ (name ++ '.' :: ext).reverse, (d ≠ '/' : Bool) := by
      intro d hd
      have hmem := List.mem_reverse.mp hd
      refine decide_eq_true ?_
      rintro rfl
      have : '/' ∉ name ++ '.' :: ext := by simp [hname, hslash]
      exact this hmem
    have hbefore : beforeLast '/' (name ++ '.' :: ext) = [] := by
      rw [beforeLast, List.dropWhile_eq_nil_iff.mpr htail]
      rfl
    have hafter : afterLast '/' (name ++ '.' :: ext) = name ++ '.' :: ext := by
      rw [afterLast, List.takeWhile_eq_self_iff.mpr htail, List.reverse_reverse]
    rw [lastStem, hbefore, if_neg (by decide), hafter, beforeLast_append hext]
  path dir name ext hdir hroot hext hslash hname hne := by
    have htail : '/' ∉ name ++ '.' :: ext := by simp [hname, hslash]
    rw [lastStem, beforeLast_append htail, if_neg hroot, afterLast_append htail,
      beforeLast_append hext]
  rootName name ext hext hslash hname hne := by
    have htail : '/' ∉ name ++ '.' :: ext := by simp [hname, hslash]
    have hbefore : beforeLast '/' ('/' :: '/' :: (name ++ '.' :: ext)) = ['/'] :=
      beforeLast_append htail ['/']
    rw [lastStem, hbefore, if_pos rfl]
    exact beforeLast_append hext ('/' :: '/' :: name)

theorem searchFirst_iff_january :
    (IsFirstMonth [⟨"202001.szb".toList, by decide⟩, ⟨"notes".toList, by decide⟩]
        (szbSearchFirst lastStem [⟨"202001.szb".toList, by decide⟩, ⟨"notes".toList, by decide⟩]) ↔
      Unhidden [⟨"202001.szb".toList, by decide⟩, ⟨"notes".toList, by decide⟩]) ∧
    (szbPath2date lastStem (szbCreatefilenameNe ['a'] 2020 1 szbSuffix) = (2020, 1) ↔
      (2020 : ℤ) ≠ 0 ∧ ['a'] ≠ ['/']) :=
  searchFirst_iff lastStem isStem_lastStem _ ['a'] (by decide)
    ⟨2020, 1, by decide, by decide, by decide, by decide⟩

/-- A file of month 0 hides the others. -/
theorem month_zero_hides :
    ¬ IsFirstMonth [⟨"202000.szb".toList, by decide⟩, ⟨"202001.szb".toList, by decide⟩]
      (szbSearchFirst lastStem
        [⟨"202000.szb".toList, by decide⟩, ⟨"202001.szb".toList, by decide⟩]) := by
  rw [isFirst_iff_unhidden isStem_lastStem]
  rintro (hnone | ⟨mo, -, hmo, hall⟩)
  · refine hnone ⟨2020, 1, by decide, by decide, by decide, by decide⟩ ?_
    exact List.mem_cons_of_mem _ (List.mem_singleton.mpr rfl)
  · rcases List.mem_cons.mp hmo with h | h
    · obtain ⟨hy, -, hm1, hm2⟩ := mo.bounds
      have hleaf : leafName mo.year.toNat mo.month szbSuffix = leafName 2020 0 szbSuffix := h
      have hsame := leafName_inj hy (by decide) (by omega) (by decide) hleaf
      omega
    · refine hall _ List.mem_cons_self (by decide) ?_
      rw [List.mem_singleton.mp h]
      decide

end Szbase
end Szarp
