import Szarp.Meaner.ProbeCache

/-!
# Directories of parameters

`ParamPath.param_name_to_path` of `parampath.py`, and where it gives the directory that `wchar2szb`
gives.
-/

namespace Szarp
namespace Meaner4

open Meaner

def conv (x : Char) : Char :=
  if x.isAlphanum then x
  else if x = ':' then '/'
  else
    match x with
    | 'ą' => 'a' | 'Ą' => 'A' | 'ć' => 'c' | 'Ć' => 'C' | 'ę' => 'e' | 'Ę' => 'E'
    | 'ł' => 'l' | 'Ł' => 'L' | 'ń' => 'n' | 'Ń' => 'N' | 'ó' => 'o' | 'Ó' => 'O'
    | 'ż' => 'z' | 'Ż' => 'Z' | 'ź' => 'z' | 'Ź' => 'Z'
    | _ => '_'

def paramNameToPath (paramName : List Char) : List Char := paramName.map conv

/-- Letters, digits, underscores and slashes, with a slash neither in front nor behind another
one. -/
structure IsPath (path : List Char) : Prop where
  chars : ∀ c ∈ path, c.isAlphanum ∨ c = '_' ∨ c = '/'
  slashes : ('/' :: path).IsChain fun a b => a = '/' → b ≠ '/'

/-- The directories are the same, and proper ones. -/
def Agree (name : List Char) : Prop :=
  paramNameToPath name = wchar2szb name ∧ IsPath (wchar2szb name)

/-- None of the two letters that only one transliteration knows, and a colon neither in front nor
behind another one. -/
def Plain (name : List Char) : Prop :=
  ('ś' ∉ name ∧ 'Ś' ∉ name) ∧ (':' :: name).IsChain fun a b => a = ':' → b ≠ ':'

theorem szbChar_chars (pc c : Char) :
    (szbChar pc c).isAlphanum ∨ szbChar pc c = '_' ∨ szbChar pc c = '/' := by
  unfold szbChar
  split_ifs with hcolon hpc hc
  · exact .inr (.inl rfl)
  · exact .inr (.inr rfl)
  · exact .inl hc
  · split <;> decide

/-- Only a colon is written as a slash. -/
theorem szbChar_eq_slash {pc c : Char} : szbChar pc c = '/' ↔ c = ':' ∧ pc ≠ '/' := by
  unfold szbChar
  by_cases hcolon : c = ':'
  · by_cases hpc : pc = '/'
    · simp [hcolon, hpc]
    · simp [hcolon, hpc]
  · rw [if_neg hcolon]
    refine iff_of_false ?_ fun h => hcolon h.1
    split_ifs with hc
    · rintro rfl
      exact absurd hc (by decide)
    · split <;> decide

theorem conv_eq_slash {c : Char} : conv c = '/' ↔ c = ':' := by
  unfold conv
  by_cases hc : c.isAlphanum
  · rw [if_pos hc]
    refine iff_of_false ?_ ?_
    · rintro rfl
      exact absurd hc (by decide)
    · rintro rfl
      exact absurd hc (by decide)
  · rw [if_neg hc]
    by_cases hcolon : c = ':'
    · simp [hcolon]
    · rw [if_neg hcolon]
      refine iff_of_false ?_ hcolon
      split <;> decide

/-- Where the transliterations of a character are the same. -/
theorem conv_eq_szbChar {pc c : Char} :
    conv c = szbChar pc c ↔ (c ≠ 'ś' ∧ c ≠ 'Ś') ∧ (pc = '/' → c ≠ ':') := by
  by_cases hcolon : c = ':'
  · subst hcolon
    by_cases hpc : pc = '/'
    · subst hpc
      decide
    · have hslash := szbChar_eq_slash.mpr ⟨rfl, hpc⟩
      rw [hslash, conv_eq_slash]
      simp [hpc]
  · by_cases hc : c.isAlphanum
    · have hs : c ≠ 'ś' ∧ c ≠ 'Ś' := by
        constructor
        · rintro rfl
          exact absurd hc (by decide)
        · rintro rfl
          exact absurd hc (by decide)
      unfold conv szbChar
      rw [if_pos hc, if_neg hcolon, if_pos hc]
      exact iff_of_true rfl ⟨hs, fun _ => hcolon⟩
    · unfold conv szbChar
      rw [if_neg hc, if_neg hcolon, if_neg hcolon, if_neg hc, and_iff_left fun _ => hcolon]
      -- the letters that both know, then the two others and everything else
      split
      all_goals first | decide | skip
      split
      all_goals first | decide | contradiction | skip
      exact iff_of_true rfl ⟨‹_›, ‹_›⟩

theorem wchar2szbFrom_isChain (pc : Char) (name : List Char) :
    (pc :: wchar2szbFrom pc name).IsChain fun a b => a = '/' → b ≠ '/' := by
  induction name generalizing pc with
  | nil => exact .singleton pc
  | cons c cs ih =>
    rw [wchar2szbFrom, List.isChain_cons_cons]
    exact ⟨fun hpc hc => (szbChar_eq_slash.mp hc).2 hpc, ih _⟩

theorem wchar2szbFrom_chars (pc : Char) (name : List Char) :
    ∀ c ∈ wchar2szbFrom pc name, c.isAlphanum ∨ c = '_' ∨ c = '/' := by
  induction name generalizing pc with
  | nil => exact fun c hc => absurd hc List.not_mem_nil
  | cons c cs ih => exact List.forall_mem_cons.mpr ⟨szbChar_chars pc c, ih _⟩

theorem isPath_wchar2szb (name : List Char) : IsPath (wchar2szb name) :=
  ⟨wchar2szbFrom_chars '/' name, wchar2szbFrom_isChain '/' name⟩

theorem paramNameToPath_eq {d pc : Char} (name : List Char) (hd : pc = '/' ↔ d = ':') :
    paramNameToPath name = wchar2szbFrom pc name ↔
      ('ś' ∉ name ∧ 'Ś' ∉ name) ∧ (d :: name).IsChain fun a b => a = ':' → b ≠ ':' := by
  induction name generalizing d pc with
  | nil => exact iff_of_true rfl ⟨⟨List.not_mem_nil, List.not_mem_nil⟩, .singleton d⟩
  | cons c cs ih =>
    have hcons : paramNameToPath (c :: cs) = conv c :: paramNameToPath cs := rfl
    rw [hcons, wchar2szbFrom, List.cons.injEq, conv_eq_szbChar, List.isChain_cons_cons,
      List.mem_cons, List.mem_cons, hd]
    constructor
    · rintro ⟨⟨hs, hcolon⟩, hrest⟩
      have hnext : szbChar pc c = '/' ↔ c = ':' := by
        rw [szbChar_eq_slash, ne_eq, hd]
        exact ⟨fun h => h.1, fun h => ⟨h, fun hd => hcolon hd h⟩⟩
      obtain ⟨hs', hchain⟩ := (ih hnext).mp hrest
      exact ⟨⟨fun h => h.elim (Ne.symm hs.1) hs'.1, fun h => h.elim (Ne.symm hs.2) hs'.2⟩,
        hcolon, hchain⟩
    · rintro ⟨⟨hs, hs'⟩, hcolon, hchain⟩
      rw [not_or] at hs hs'
      have hnext : szbChar pc c = '/' ↔ c = ':' := by
        rw [szbChar_eq_slash, ne_eq, hd]
        exact ⟨fun h => h.1, fun h => ⟨h, fun hd => hcolon hd h⟩⟩
      exact ⟨⟨⟨Ne.symm hs.1, Ne.symm hs'.1⟩, hcolon⟩, (ih hnext).mpr ⟨⟨hs.2, hs'.2⟩, hchain⟩⟩

/-- Reader and writer look in the same directory exactly when the name is plain. -/
theorem agree_iff_plain (name : List Char) : Agree name ↔ Plain name := by
  rw [Agree, and_iff_left (isPath_wchar2szb name)]
  exact paramNameToPath_eq name (iff_of_true rfl rfl)

/-- A name with a letter that meaner4 does not know. -/
theorem not_agree : ¬ Agree "Sieć:Kocioł:Ciśnienie".toList := by
  rintro ⟨h, -⟩
  exact absurd h (by decide)

end Meaner4
end Szarp
