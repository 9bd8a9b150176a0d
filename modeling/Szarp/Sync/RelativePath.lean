import Mathlib.Data.List.Basic
import Szarp.Misc.Tokens

/-!
# Targets of links

`TPath::Relative` of `ssfsutil.cc`: the path from the directory of `b` to `a`, made of the tokens
that `tokenize_d` gives for both.
-/

namespace Szarp
namespace RelativePath

open Tokens

def slash : UInt8 := 47

def dot : UInt8 := 46

/-- The number of passes of the `while` loop: leading tokens that agree, the last one of either
path left out. -/
def commonTokens : List Text → List Text → ℕ
  | x :: x' :: xs, y :: y' :: ys => if x = y then commonTokens (x' :: xs) (y' :: ys) + 1 else 0
  | _, _ => 0

/-- `TPath::Relative`; there is no result when `tokens1[i]` is not a token. -/
def relative (a b : Text) : Option Text :=
  if a.head? ≠ some slash then some a
  else do
    let tokens1 ← tokenizeD [slash] a
    let tokens2 ← tokenizeD [slash] b
    let i := commonTokens tokens1 tokens2
    let name ← tokens1[max i (tokens1.length - 1)]?
    let up := List.replicate (tokens2.length - 1 - i) [dot, dot, slash]
    let down := ((tokens1.take (tokens1.length - 1)).drop i).map (· ++ [slash])
    some (up.flatten ++ down.flatten ++ name)

/-! ## Paths and links -/

/-- A name of a directory or a file. -/
def IsName (x : Text) : Prop := x ≠ [] ∧ x ≠ [dot] ∧ x ≠ [dot, dot] ∧ slash ∉ x

instance (x : Text) : Decidable (IsName x) :=
  inferInstanceAs (Decidable (x ≠ [] ∧ x ≠ [dot] ∧ x ≠ [dot, dot] ∧ slash ∉ x))

def absolute (names : List Text) : Text :=
  if names = [] then [slash] else separated slash names

def follow (dir : List Text) (name : Text) : List Text :=
  if name = [] ∨ name = [dot] then dir
  else if name = [dot, dot] then dir.dropLast
  else dir ++ [name]

/-- What a link in a directory leads to. -/
def resolve (dir : List Text) (target : Text) : List Text :=
  (target.splitOn slash).foldl follow (if target.head? = some slash then [] else dir)

def resolved (a b : List Text) : Option (List Text) :=
  (relative (absolute a) (absolute b)).map (resolve b.dropLast)

/-! ## Following a link -/

theorem foldl_follow_up (dir : List Text) (n : ℕ) :
    (List.replicate n [dot, dot]).foldl follow dir = dir.take (dir.length - n) := by
  induction n generalizing dir with
  | zero => simp
  | succ n ih =>
    have hup : follow dir [dot, dot] = dir.dropLast := by
      rw [follow, if_neg (by decide), if_pos rfl]
    rw [List.replicate_succ, List.foldl_cons, hup, ih, List.length_dropLast,
      List.dropLast_eq_take, List.take_take]
    congr 1
    omega

theorem foldl_follow_names (dir names : List Text) (h : ∀ x ∈ names, IsName x) :
    names.foldl follow dir = dir ++ names := by
  induction names generalizing dir with
  | nil => simp
  | cons x names ih =>
    have hx := h x List.mem_cons_self
    have hdown : follow dir x = dir ++ [x] := by
      rw [follow, if_neg (by simp [hx.1, hx.2.1]), if_neg hx.2.2.1]
    rw [List.foldl_cons, hdown, ih _ fun y hy => h y (List.mem_cons_of_mem _ hy),
      List.append_assoc, List.singleton_append]

theorem head_intercalate {p : Text} (ps : List Text) (hne : p ≠ []) (hp : slash ∉ p) :
    ([slash].intercalate (p :: ps)).head? ≠ some slash := by
  obtain ⟨c, p, rfl⟩ := List.exists_cons_of_ne_nil hne
  rw [List.intercalate_cons_cons_left, List.head?_cons]
  intro h
  exact hp (by simp [Option.some.inj h])

/-- A target of leading `..` and names. -/
theorem resolve_target (dir : List Text) (n : ℕ) (names : List Text) (h : ∀ x ∈ names, IsName x)
    (hne : names ≠ []) :
    resolve dir ([slash].intercalate (List.replicate n [dot, dot] ++ names)) =
      dir.take (dir.length - n) ++ names := by
  have hparts : ∀ x ∈ List.replicate n [dot, dot] ++ names, x ≠ [] ∧ slash ∉ x := by
    intro x hx
    rcases List.mem_append.mp hx with hx | hx
    · rw [List.eq_of_mem_replicate hx]
      decide
    · exact ⟨(h x hx).1, (h x hx).2.2.2⟩
  have hhead : ([slash].intercalate (List.replicate n [dot, dot] ++ names)).head? ≠
      some slash := by
    obtain ⟨p, ps, hps⟩ := List.exists_cons_of_ne_nil
      (List.append_ne_nil_of_right_ne_nil (List.replicate n [dot, dot]) hne)
    have hp := hparts p (by rw [hps]; exact List.mem_cons_self)
    rw [hps]
    exact head_intercalate ps hp.1 hp.2
  rw [resolve, if_neg hhead, List.splitOn_intercalate slash (fun x hx => (hparts x hx).2)
    (by simp [hne]), List.foldl_append, foldl_follow_up, foldl_follow_names _ _ h]

/-! ## The tokens of a path -/

/-- What `tokenize_d` keeps of the names of a path. -/
def kept (names : List Text) : List Text := (names.take 511).map (List.take 127)

theorem kept_length (names : List Text) : (kept names).length = min 511 names.length := by
  simp [kept]

theorem isName_take {x : Text} (h : IsName x) : IsName (x.take 127) := by
  obtain ⟨hne, hdot, hdots, hslash⟩ := h
  have hlen := List.length_take (i := 127) (l := x)
  refine ⟨by simp [hne], fun h => ?_, fun h => ?_, fun h => hslash (List.mem_of_mem_take h)⟩
  · rw [List.take_of_length_le (by rw [h] at hlen; simp at hlen; omega)] at h
    exact hdot h
  · rw [List.take_of_length_le (by rw [h] at hlen; simp at hlen; omega)] at h
    exact hdots h

theorem isName_kept {names : List Text} (h : ∀ x ∈ names, IsName x) :
    ∀ x ∈ kept names, IsName x := by
  intro x hx
  obtain ⟨y, hy, rfl⟩ := List.mem_map.mp hx
  exact isName_take (h y (List.mem_of_mem_take hy))

theorem tokenizeD_absolute {names : List Text} (h : ∀ x ∈ names, IsName x)
    (hlen : (absolute names).length < 2 ^ 31) :
    tokenizeD [slash] (absolute names) = some (kept names) := by
  by_cases hne : names = []
  · rw [hne]
    decide
  · rw [absolute, if_neg hne] at hlen ⊢
    apply tokenizeD_separated (by simp) hlen
    intro y hy
    refine ⟨(h y hy).1, fun c hc => ?_⟩
    have hslash := (h y hy).2.2.2
    rw [List.mem_singleton]
    exact fun heq => hslash (heq ▸ hc)

theorem commonTokens_le (xs ys : List Text) :
    commonTokens xs ys ≤ xs.length - 1 ∧ commonTokens xs ys ≤ ys.length - 1 := by
  fun_induction commonTokens xs ys with
  | case1 x' xs y y' ys ih =>
    simp only [List.length_cons] at ih ⊢
    omega
  | case2 x x' xs y y' ys h => simp
  | case3 xs ys h => simp

/-- The loops print the names with a separator in front of all but the first. -/
theorem intercalate_concat (xs : List Text) (name : Text) :
    [slash].intercalate (xs ++ [name]) = (xs.map (· ++ [slash])).flatten ++ name := by
  induction xs with
  | nil => simp
  | cons x xs ih =>
    rw [List.cons_append, List.intercalate_cons_of_ne_nil (by simp), ih, List.map_cons,
      List.flatten_cons, List.append_assoc (x ++ [slash])]

theorem drop_concat {xs : List Text} {name : Text} {i : ℕ}
    (hname : xs[xs.length - 1]? = some name) (hi : i ≤ xs.length - 1) :
    xs.drop i = (xs.take (xs.length - 1)).drop i ++ [name] := by
  rcases List.eq_nil_or_concat' xs with rfl | ⟨ys, z, rfl⟩
  · simp at hname
  · have hlen : (ys ++ [z]).length - 1 = ys.length := by simp
    rw [hlen] at hname hi ⊢
    rw [List.getElem?_concat_length, Option.some.injEq] at hname
    rw [List.take_left, List.drop_append_of_le_length hi, hname]

theorem drop_last {xs : List Text} {name : Text} (hname : xs[xs.length - 1]? = some name) :
    xs.drop (xs.length - 1) = [name] := by
  rw [drop_concat hname le_rfl, List.drop_take_self, List.nil_append]

/-- What the printed target leads to. -/
theorem resolved_eq {a b : List Text} (ha : ∀ x ∈ a, IsName x) (hb : ∀ x ∈ b, IsName x)
    (halen : (absolute a).length < 2 ^ 31) (hblen : (absolute b).length < 2 ^ 31)
    (hne : a ≠ []) :
    resolved a b = some (b.dropLast.take (b.length - 1 -
        ((kept b).length - 1 - commonTokens (kept a) (kept b))) ++
      (kept a).drop (commonTokens (kept a) (kept b))) := by
  have hhead : ¬ (absolute a).head? ≠ some slash := by
    obtain ⟨x, a, rfl⟩ := List.exists_cons_of_ne_nil hne
    rw [absolute, if_neg hne]
    simp [separated]
  have hpos : 0 < (kept a).length := by
    have := List.length_pos_of_ne_nil hne
    rw [kept_length]
    omega
  have hle := (commonTokens_le (kept a) (kept b)).1
  obtain ⟨name, hname⟩ : ∃ name, (kept a)[(kept a).length - 1]? = some name :=
    ⟨_, List.getElem?_eq_getElem (by omega)⟩
  have hdrop := drop_concat hname hle
  have htarget : relative (absolute a) (absolute b) = some ([slash].intercalate
      (List.replicate ((kept b).length - 1 - commonTokens (kept a) (kept b)) [dot, dot] ++
        (kept a).drop (commonTokens (kept a) (kept b)))) := by
    rw [relative, if_neg hhead, tokenizeD_absolute ha halen, tokenizeD_absolute hb hblen]
    simp only [Option.bind_eq_bind, Option.bind_some, max_eq_right hle, hname]
    rw [hdrop, ← List.append_assoc, intercalate_concat, List.map_append, List.flatten_append,
      List.map_replicate]
    rfl
  have hnames : ∀ x ∈ (kept a).drop (commonTokens (kept a) (kept b)), IsName x :=
    fun x hx => isName_kept ha x (List.mem_of_mem_drop hx)
  rw [resolved, htarget, Option.map_some, resolve_target _ _ _ hnames (by rw [hdrop]; simp),
    List.length_dropLast]

/-! ## When the link leads to the file -/

/-- Behind the directories at the beginning of both paths no name of the first path is longer than
a token, and where both paths have a directory there the two differ as tokens. -/
def Apart : List Text → List Text → Prop
  | x :: x' :: xs, y :: y' :: ys =>
    if x = y then Apart (x' :: xs) (y' :: ys)
    else x.take 127 ≠ y.take 127 ∧ ∀ z ∈ x :: x' :: xs, z.length ≤ 127
  | xs, _ => ∀ z ∈ xs, z.length ≤ 127

theorem map_take_eq_iff (xs : List Text) :
    xs.map (List.take 127) = xs ↔ ∀ z ∈ xs, z.length ≤ 127 := by
  induction xs with
  | nil => simp
  | cons x xs ih => rw [List.map_cons, List.cons.injEq, ih, List.take_eq_self_iff,
      List.forall_mem_cons]

theorem commonTokens_map (x x' y y' : Text) (xs ys : List Text) :
    commonTokens ((x :: x' :: xs).map (List.take 127)) ((y :: y' :: ys).map (List.take 127)) =
      if x.take 127 = y.take 127 then
        commonTokens ((x' :: xs).map (List.take 127)) ((y' :: ys).map (List.take 127)) + 1
      else 0 := by
  rw [List.map_cons, List.map_cons, List.map_cons, List.map_cons, commonTokens]

/-- Paths of at most 511 names. -/
theorem apart_iff (xs ys : List Text) :
    ys.take (commonTokens (xs.map (List.take 127)) (ys.map (List.take 127))) ++
        (xs.map (List.take 127)).drop
          (commonTokens (xs.map (List.take 127)) (ys.map (List.take 127))) = xs ↔
      Apart xs ys := by
  fun_induction Apart xs ys with
  | case1 x' xs y y' ys ih =>
    rw [commonTokens_map, if_pos rfl, ← ih]
    generalize commonTokens ((x' :: xs).map (List.take 127)) ((y' :: ys).map (List.take 127)) = n
    rw [List.take_succ_cons, List.map_cons, List.drop_succ_cons, List.cons_append,
      List.cons.injEq, and_iff_right rfl]
  | case2 x x' xs y y' ys h =>
    rw [commonTokens_map]
    by_cases hcut : x.take 127 = y.take 127
    · rw [if_pos hcut, List.take_succ_cons, List.cons_append, List.cons.injEq]
      simp [hcut, Ne.symm h]
    · rw [if_neg hcut, List.take_zero, List.nil_append, List.drop_zero, map_take_eq_iff]
      exact ⟨fun h => ⟨hcut, h⟩, fun h => h.2⟩
  | case3 xs ys h =>
    have hcommon : commonTokens (xs.map (List.take 127)) (ys.map (List.take 127)) = 0 := by
      have hle := commonTokens_le (xs.map (List.take 127)) (ys.map (List.take 127))
      rw [List.length_map, List.length_map] at hle
      rcases xs with _ | ⟨x, _ | ⟨x', xs⟩⟩
      · simpa using hle.1
      · simpa using hle.1
      · rcases ys with _ | ⟨y, _ | ⟨y', ys⟩⟩
        · simpa using hle.2
        · simpa using hle.2
        · exact absurd rfl (h x x' xs y y' ys rfl)
    rw [hcommon, List.take_zero, List.nil_append, List.drop_zero, map_take_eq_iff]

/-- The loop stops at a difference, or at the last token of one path. -/
theorem commonTokens_ne {xs ys : List Text} (hx : commonTokens xs ys < xs.length - 1)
    (hy : commonTokens xs ys < ys.length - 1) :
    xs[commonTokens xs ys]? ≠ ys[commonTokens xs ys]? := by
  fun_induction commonTokens xs ys with
  | case1 x' xs y y' ys ih =>
    simp only [List.length_cons] at hx hy ih
    exact ih (by omega) (by omega)
  | case2 x x' xs y y' ys h =>
    simpa using h
  | case3 xs ys h =>
    rcases xs with _ | ⟨x, _ | ⟨x', xs⟩⟩
    · simp at hx
    · simp at hx
    · rcases ys with _ | ⟨y, _ | ⟨y', ys⟩⟩
      · simp at hy
      · simp at hy
      · exact absurd rfl (h x x' xs y y' ys rfl)

theorem kept_getElem? (names : List Text) {n : ℕ} (h : n < 511) :
    (kept names)[n]? = (names[n]?).map (List.take 127) := by
  rw [kept, List.getElem?_map, List.getElem?_take_of_lt h]

/-- Paths of the same depth that agree in front of a name behind the tokens share all of them. -/
theorem commonTokens_deep {a b : List Text} {m : ℕ} (hlen : a.length = b.length)
    (hdeep : 511 < a.length) (hm : commonTokens (kept a) (kept b) < m)
    (htake : a.take m = b.take m) : commonTokens (kept a) (kept b) = 510 := by
  have hle := commonTokens_le (kept a) (kept b)
  have hne := @commonTokens_ne (kept a) (kept b)
  rw [kept_length, kept_length] at hle hne
  by_contra hn
  apply hne (by omega) (by omega)
  rw [kept_getElem? _ (by omega), kept_getElem? _ (by omega), ← List.getElem?_take_of_lt hm,
    htake, List.getElem?_take_of_lt hm]

/-- Names behind the last token are lost: both paths must have as many, and the last of the first
path must repeat the last token. -/
theorem deep_iff {a b : List Text} (hdeep : 511 < a.length ∨ 511 < b.length) :
    b.dropLast.take (b.length - 1 - ((kept b).length - 1 - commonTokens (kept a) (kept b))) ++
        (kept a).drop (commonTokens (kept a) (kept b)) = a ↔
      a.length = b.length ∧ a.dropLast = b.dropLast ∧
        a[a.length - 1]? = (a[510]?).map (List.take 127) := by
  have hle := commonTokens_le (kept a) (kept b)
  have hkept := kept_length a
  rw [kept_length, kept_length] at hle
  rw [kept_length, List.dropLast_eq_take, List.dropLast_eq_take, List.take_take]
  constructor
  · intro h
    have hlen := congrArg List.length h
    rw [List.length_append, List.length_take, List.length_drop, hkept] at hlen
    have hab : a.length = b.length := by omega
    obtain ⟨m, hm⟩ : ∃ m, min (b.length - 1 - (min 511 b.length - 1 -
        commonTokens (kept a) (kept b))) (b.length - 1) = m := ⟨_, rfl⟩
    rw [hm] at h
    have hmlen : (b.take m).length = m := by
      rw [List.length_take]
      omega
    have htake : a.take m = b.take m := by
      rw [← h, List.take_left' hmlen]
    have hdrop : a.drop m = (kept a).drop (commonTokens (kept a) (kept b)) := by
      conv_lhs => rw [← h, List.drop_left' hmlen]
    have hn := commonTokens_deep hab (by omega) (by omega) htake
    have hm' : m = a.length - 1 := by omega
    rw [hn] at hdrop
    refine ⟨hab, by rw [← hab, ← hm', htake], ?_⟩
    rw [← hm', ← kept_getElem? a (by omega), ← Nat.add_zero m, ← List.getElem?_drop, hdrop,
      List.getElem?_drop]
  · rintro ⟨hab, hdir, hlast⟩
    have hn := commonTokens_deep hab (by omega) (m := a.length - 1) (by omega)
      (by rw [hdir, hab])
    have hm : min (b.length - 1 - (min 511 b.length - 1 - commonTokens (kept a) (kept b)))
        (b.length - 1) = a.length - 1 := by omega
    obtain ⟨name, hname⟩ : ∃ name, a[a.length - 1]? = some name :=
      ⟨_, List.getElem?_eq_getElem (by omega)⟩
    have hlen : (kept a).length - 1 = 510 := by omega
    have htoken : (kept a)[(kept a).length - 1]? = some name := by
      rw [hlen, kept_getElem? a (by omega), ← hlast, hname]
    have hdrop := drop_last htoken
    rw [hlen] at hdrop
    rw [hm, hn, hdrop, ← drop_last hname, hab, ← hdir, hab, List.take_append_drop]

/-- The targets of links between two files: exactly these lead to the file. -/
def LeadsTo (a b : List Text) : Prop :=
  a ≠ [] ∧
    (a.length ≤ 511 ∧ b.length ≤ 511 ∧ Apart a b ∨
      511 < a.length ∧ a.length = b.length ∧ a.dropLast = b.dropLast ∧
        a[a.length - 1]? = (a[510]?).map (List.take 127))

/-- `tokens1` has no token for the root. -/
theorem resolved_root {b : List Text} (hb : ∀ x ∈ b, IsName x)
    (hblen : (absolute b).length < 2 ^ 31) : resolved [] b = none := by
  have hroot : tokenizeD [slash] (absolute []) = some [] :=
    tokenizeD_absolute (by simp) (by decide)
  rw [resolved, relative, if_neg (by decide), hroot, tokenizeD_absolute hb hblen]
  rfl

/-- The target leads from the directory of `b` to `a` exactly when no name of `a` that it prints
is longer than a token and the paths have no more names than tokens, chance agreements apart. -/
theorem resolved_iff (a b : List Text) (ha : ∀ x ∈ a, IsName x) (hb : ∀ x ∈ b, IsName x)
    (halen : (absolute a).length < 2 ^ 31) (hblen : (absolute b).length < 2 ^ 31) :
    resolved a b = some a ↔ LeadsTo a b := by
  by_cases hroot : a = []
  · rw [hroot, resolved_root hb hblen, LeadsTo]
    simp
  rw [resolved_eq ha hb halen hblen hroot, Option.some.injEq, LeadsTo, and_iff_right hroot]
  by_cases hdeep : 511 < a.length ∨ 511 < b.length
  · rw [deep_iff hdeep]
    constructor
    · intro h
      exact Or.inr ⟨by omega, h⟩
    · rintro (h | h)
      · omega
      · exact h.2
  · have hkept : ∀ {names : List Text}, names.length ≤ 511 →
        kept names = names.map (List.take 127) := fun h => by rw [kept, List.take_of_length_le h]
    have hle := (commonTokens_le (a.map (List.take 127)) (b.map (List.take 127))).2
    rw [List.length_map] at hle
    rw [hkept (by omega), hkept (by omega), List.length_map, Nat.sub_sub_self hle,
      List.dropLast_eq_take, List.take_take, min_eq_left hle, apart_iff]
    constructor
    · intro h
      exact Or.inl ⟨by omega, by omega, h⟩
    · rintro (h | h)
      · exact h.2.2
      · omega

/-- `/a/b` from `/a/c` -/
theorem resolved_sibling : resolved [[97], [98]] [[97], [99]] = some [[97], [98]] :=
  (resolved_iff [[97], [98]] [[97], [99]] (by decide) (by decide) (by decide) (by decide)).mpr
    ⟨by decide, Or.inl ⟨by decide, by decide, by simp [Apart]⟩⟩

/-- A name of 200 characters loses 73 of them. -/
theorem resolved_long :
    ¬ ∀ a b : List Text, (∀ x ∈ a, IsName x ∧ x.length ≤ 255) →
      (∀ x ∈ b, IsName x ∧ x.length ≤ 255) → b ≠ [] → resolved a b = some a := by
  intro h
  exact absurd (h [List.replicate 200 97] [[98]] (by decide +kernel) (by decide) (by decide))
    (by decide +kernel)

end RelativePath
end Szarp
