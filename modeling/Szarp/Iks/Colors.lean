import Szarp.Lib.PTree
import Szarp.Iks.Sets
import Mathlib.Data.Fin.Basic
import Mathlib.Algebra.Group.Fin.Basic

/-!
# The colours of a set

The parameters of a set and `Set::generate_colors_like_draw3` of `iks/server/data/set.cpp`, which
gives a colour of a fixed table to each parameter without one.
-/

namespace Szarp
namespace Iks

abbrev Text : Type := List Char

abbrev Tree : Type := PTree Text Text

/-- The keys of a path; they are separated by dots. -/
def treePath (s : Text) : List Text := s.splitOn '.'

def getText (key : String) (t : Tree) : Option Text :=
  (t.getChild (treePath key.toList)).map (·.data)

def putText (key : String) (value : Text) (t : Tree) : Tree := t.put (treePath key.toList) value

structure ParamId where
  first : String
  order : ℚ
  desc : Tree

def ParamId.graphColor (p : ParamId) : Option Text := getText "@graph_color" p.desc

namespace Colors

def draw3Defaults : List Text :=
  ["#ff0000", "#ffc246", "#00ffff", "#00ff00", "#ffff00", "#b9f4be", "#0000ff", "#ff00ff",
    "#00b6ff", "#a6a550", "#ff825f", "#afafff"].map String.toList

def nameToHex : List (String × String) :=
  [("aliceblue", "#f0f8ff"), ("antiquewhite", "#faebd7"), ("aqua", "#00ffff"),
    ("aquamarine", "#7fffd4"), ("azure", "#f0ffff"), ("beige", "#f5f5dc"), ("bisque", "#ffe4c4"),
    ("black", "#000000"), ("blanchedalmond", "#ffebcd"), ("blue", "#0000ff"),
    ("blueviolet", "#8a2be2"), ("brown", "#a52a2a"), ("burlywood", "#deb887"),
    ("cadetblue", "#5f9ea0"), ("chartreuse", "#7fff00"), ("chocolate", "#d2691e"),
    ("coral", "#ff7f50"), ("cornflowerblue", "#6495ed"), ("cornsilk", "#fff8dc"),
    ("crimson", "#dc143c"), ("cyan", "#00ffff"), ("darkblue", "#00008b"), ("darkcyan", "#008b8b"),
    ("darkgoldenrod", "#b8860b"), ("darkgray", "#a9a9a9"), ("darkgreen", "#006400"),
    ("darkkhaki", "#bdb76b"), ("darkmagenta", "#8b008b"), ("darkolivegreen", "#556b2f"),
    ("darkorange", "#ff8c00"), ("darkorchid", "#9932cc"), ("darkred", "#8b0000"),
    ("darksalmon", "#e9967a"), ("darkseagreen", "#8fbc8f"), ("darkslateblue", "#483d8b"),
    ("darkslategray", "#2f4f4f"), ("darkturquoise", "#00ced1"), ("darkviolet", "#9400d3"),
    ("deeppink", "#ff1493"), ("deepskyblue", "#00bfff"), ("dimgray", "#696969"),
    ("dodgerblue", "#1e90ff"), ("firebrick", "#b22222"), ("floralwhite", "#fffaf0"),
    ("forestgreen", "#228b22"), ("fuchsia", "#ff00ff"), ("gainsboro", "#dcdcdc"),
    ("ghostwhite", "#f8f8ff"), ("gold", "#ffd700"), ("goldenrod", "#daa520"), ("gray", "#808080"),
    ("green", "#008000"), ("greenyellow", "#adff2f"), ("honeydew", "#f0fff0"),
    ("hotpink", "#ff69b4"), ("indianred ", "#cd5c5c"), ("indigo", "#4b0082"), ("ivory", "#fffff0"),
    ("khaki", "#f0e68c"), ("lavender", "#e6e6fa"), ("lavenderblush", "#fff0f5"),
    ("lawngreen", "#7cfc00"), ("lemonchiffon", "#fffacd"), ("lightblue", "#add8e6"),
    ("lightcoral", "#f08080"), ("lightcyan", "#e0ffff"), ("lightgoldenrodyellow", "#fafad2"),
    ("lightgrey", "#d3d3d3"), ("lightgreen", "#90ee90"), ("lightpink", "#ffb6c1"),
    ("lightsalmon", "#ffa07a"), ("lightseagreen", "#20b2aa"), ("lightskyblue", "#87cefa"),
    ("lightslategray", "#778899"), ("lightsteelblue", "#b0c4de"), ("lightyellow", "#ffffe0"),
    ("lime", "#00ff00"), ("limegreen", "#32cd32"), ("linen", "#faf0e6"), ("magenta", "#ff00ff"),
    ("maroon", "#800000"), ("mediumaquamarine", "#66cdaa"), ("mediumblue", "#0000cd"),
    ("mediumorchid", "#ba55d3"), ("mediumpurple", "#9370d8"), ("mediumseagreen", "#3cb371"),
    ("mediumslateblue", "#7b68ee"), ("mediumspringgreen", "#00fa9a"),
    ("mediumturquoise", "#48d1cc"), ("mediumvioletred", "#c71585"), ("midnightblue", "#191970"),
    ("mintcream", "#f5fffa"), ("mistyrose", "#ffe4e1"), ("moccasin", "#ffe4b5"),
    ("navajowhite", "#ffdead"), ("navy", "#000080"), ("oldlace", "#fdf5e6"), ("olive", "#808000"),
    ("olivedrab", "#6b8e23"), ("orange", "#ffa500"), ("orangered", "#ff4500"),
    ("orchid", "#da70d6"), ("palegoldenrod", "#eee8aa"), ("palegreen", "#98fb98"),
    ("paleturquoise", "#afeeee"), ("palevioletred", "#d87093"), ("papayawhip", "#ffefd5"),
    ("peachpuff", "#ffdab9"), ("peru", "#cd853f"), ("pink", "#ffc0cb"), ("plum", "#dda0dd"),
    ("powderblue", "#b0e0e6"), ("purple", "#800080"), ("red", "#ff0000"), ("rosybrown", "#bc8f8f"),
    ("royalblue", "#4169e1"), ("saddlebrown", "#8b4513"), ("salmon", "#fa8072"),
    ("sandybrown", "#f4a460"), ("seagreen", "#2e8b57"), ("seashell", "#fff5ee"),
    ("sienna", "#a0522d"), ("silver", "#c0c0c0"), ("skyblue", "#87ceeb"), ("slateblue", "#6a5acd"),
    ("slategray", "#708090"), ("snow", "#fffafa"), ("springgreen", "#00ff7f"),
    ("steelblue", "#4682b4"), ("tan", "#d2b48c"), ("teal", "#008080"), ("thistle", "#d8bfd8"),
    ("tomato", "#ff6347"), ("turquoise", "#40e0d0"), ("violet", "#ee82ee"), ("wheat", "#f5deb3"),
    ("white", "#ffffff"), ("whitesmoke", "#f5f5f5"), ("yellow", "#ffff00"),
    ("yellowgreen", "#9acd32")]

end Colors

open Colors

namespace Set

def assignColor (p : ParamId) (color : Text) : ParamId :=
  { p with desc := putText "@graph_color" color p.desc }

def usedColors (params : List ParamId) : List Text := params.filterMap ParamId.graphColor

/-- `cur++` and `cur %= Colors::draw3_defaults.size()` -/
def nextPlace (cur : ℕ) : ℕ := (cur + 1) % draw3Defaults.length

/-- The `do` loop: the colour it ends with and the place behind it.  `def` is the size of the table
in every pass. -/
def nextColor (used : List Text) : ℕ → ℕ → Option (Text × ℕ)
  | 0, _ => none
  | fuel + 1, cur =>
    let color := draw3Defaults.getD cur []
    if 0 < draw3Defaults.length ∧ color ∈ used then nextColor used fuel (nextPlace cur)
    else some (color, nextPlace cur)

def assignColors (used : List Text) (fuel : ℕ) : ℕ → List ParamId → Option (List ParamId)
  | _, [] => some []
  | cur, p :: params =>
    if p.graphColor.isSome then (assignColors used fuel cur params).map (p :: ·)
    else
      (nextColor used fuel cur).bind fun next =>
        (assignColors used fuel next.2 params).map (assignColor p next.1 :: ·)

/-- `Set::generate_colors_like_draw3`; there is no result when a `do` loop makes more passes. -/
def generateColorsLikeDraw3 (fuel : ℕ) (params : List ParamId) : Option (List ParamId) :=
  assignColors (usedColors params) fuel 0 params

/-! ## The colours that are given -/

theorem graphColor_assignColor (p : ParamId) (color : Text) :
    (assignColor p color).graphColor = some color := by
  have hpath : treePath "@graph_color".toList = ["@graph_color".toList] := by decide
  rw [ParamId.graphColor, getText, assignColor, putText, PTree.put, hpath, PTree.getChild,
    PTree.find_update, if_pos rfl, Option.bind_some]
  rfl

theorem mem_usedColors {params : List ParamId} {c : Text} :
    c ∈ usedColors params ↔ ∃ p ∈ params, p.graphColor = some c := by
  rw [usedColors, List.mem_filterMap]

theorem draw3Defaults_place :
    (∀ cur < 12, draw3Defaults.getD cur [] ∈ draw3Defaults) ∧
    ∀ c ∈ draw3Defaults, ∃ cur < 12, draw3Defaults.getD cur [] = c := by decide

/-- The loop ends at an unused colour, whatever the number of passes it may still make. -/
theorem nextColor_of_unused (used : List Text) (k : ℕ) {cur : ℕ} (hcur : cur < 12)
    (h : draw3Defaults.getD ((cur + k) % 12) [] ∉ used) :
    ∃ c ∈ draw3Defaults, c ∉ used ∧ ∃ cur' < 12, ∀ fuel > k,
      nextColor used fuel cur = some (c, cur') := by
  have hlen : draw3Defaults.length = 12 := rfl
  induction k generalizing cur with
  | zero =>
    rw [Nat.add_zero, Nat.mod_eq_of_lt hcur] at h
    refine ⟨_, draw3Defaults_place.1 cur hcur, h, nextPlace cur, Nat.mod_lt _ (by decide),
      fun fuel hfuel => ?_⟩
    obtain ⟨n, rfl⟩ : ∃ n, fuel = n + 1 := ⟨fuel - 1, by omega⟩
    rw [nextColor, if_neg fun hused => h hused.2]
  | succ k ih =>
    by_cases hused : draw3Defaults.getD cur [] ∈ used
    · have hplace : (nextPlace cur + k) % 12 = (cur + (k + 1)) % 12 := by
        rw [nextPlace, hlen]
        omega
      obtain ⟨c, hc, hnew, cur', hcur', hrun⟩ :=
        @ih (nextPlace cur) (Nat.mod_lt _ (by decide)) (by rw [hplace]; exact h)
      refine ⟨c, hc, hnew, cur', hcur', fun fuel hfuel => ?_⟩
      obtain ⟨n, rfl⟩ : ∃ n, fuel = n + 1 := ⟨fuel - 1, by omega⟩
      rw [nextColor, if_pos ⟨by decide, hused⟩]
      exact hrun n (by omega)
    · refine ⟨_, draw3Defaults_place.1 cur hcur, hused, nextPlace cur, Nat.mod_lt _ (by decide),
        fun fuel hfuel => ?_⟩
      obtain ⟨n, rfl⟩ : ∃ n, fuel = n + 1 := ⟨fuel - 1, by omega⟩
      rw [nextColor, if_neg fun h => hused h.2]

/-- Every unused colour is within twelve passes. -/
theorem nextColor_ends {used : List Text} (h : ∃ c ∈ draw3Defaults, c ∉ used) {cur : ℕ}
    (hcur : cur < 12) :
    ∃ c ∈ draw3Defaults, c ∉ used ∧ ∃ cur' < 12, ∀ fuel ≥ 12,
      nextColor used fuel cur = some (c, cur') := by
  obtain ⟨c, hc, hnew⟩ := h
  obtain ⟨i, hi, rfl⟩ := draw3Defaults_place.2 c hc
  have hplace : (cur + (i + 12 - cur) % 12) % 12 = i := by omega
  obtain ⟨c, hc, hnew, cur', hcur', hrun⟩ :=
    nextColor_of_unused used ((i + 12 - cur) % 12) hcur (by rw [hplace]; exact hnew)
  exact ⟨c, hc, hnew, cur', hcur', fun fuel hfuel => hrun fuel (by omega)⟩

/-- When all colours are used, the loop never ends. -/
theorem nextColor_eq_none {used : List Text} (h : ∀ c ∈ draw3Defaults, c ∈ used) (fuel : ℕ)
    {cur : ℕ} (hcur : cur < 12) : nextColor used fuel cur = none := by
  induction fuel generalizing cur with
  | zero => rfl
  | succ fuel ih =>
    rw [nextColor, if_pos ⟨by decide, h _ (draw3Defaults_place.1 cur hcur)⟩]
    exact ih (Nat.mod_lt _ (by decide))

/-! ## All parameters -/

/-- What a parameter becomes: one with a colour stays, another one gets a colour of the table, an
unused one while there is one. -/
def Coloured (used : List Text) (p q : ParamId) : Prop :=
  q.graphColor.isSome ∧ (p.graphColor.isSome → q = p) ∧
    (p.graphColor = none → ∃ c ∈ draw3Defaults, q = assignColor p c ∧
      ((∃ d ∈ draw3Defaults, d ∉ used) → c ∉ used))

theorem coloured_self (used : List Text) {p : ParamId} (h : p.graphColor.isSome) :
    Coloured used p p :=
  ⟨h, fun _ => rfl, fun hnone => absurd h (by simp [hnone])⟩

/-- Nothing is searched when every parameter has a colour. -/
theorem assignColors_of_isSome (used : List Text) (fuel cur : ℕ) {params : List ParamId}
    (h : ∀ p ∈ params, p.graphColor.isSome) :
    assignColors used fuel cur params = some params ∧
      List.Forall₂ (Coloured used) params params := by
  induction params with
  | nil => exact ⟨rfl, .nil⟩
  | cons p params ih =>
    have hp := h p List.mem_cons_self
    have hrest := ih fun q hq => h q (List.mem_cons_of_mem _ hq)
    rw [assignColors, if_pos hp, hrest.1]
    exact ⟨rfl, .cons (coloured_self used hp) hrest.2⟩

theorem assignColors_ends {used : List Text} (h : ∃ c ∈ draw3Defaults, c ∉ used)
    (params : List ParamId) {cur : ℕ} (hcur : cur < 12) :
    ∃ r, (∀ fuel ≥ 12, assignColors used fuel cur params = some r) ∧
      List.Forall₂ (Coloured used) params r := by
  induction params generalizing cur with
  | nil => exact ⟨[], fun fuel _ => rfl, .nil⟩
  | cons p params ih =>
    by_cases hp : p.graphColor.isSome
    · obtain ⟨r, hr, hall⟩ := ih hcur
      refine ⟨p :: r, fun fuel hfuel => ?_, .cons (coloured_self used hp) hall⟩
      rw [assignColors, if_pos hp, hr fuel hfuel, Option.map_some]
    · obtain ⟨c, hc, hnew, cur', hcur', hrun⟩ := nextColor_ends h hcur
      obtain ⟨r, hr, hall⟩ := ih hcur'
      have hcoloured : Coloured used p (assignColor p c) :=
        ⟨by rw [graphColor_assignColor]; rfl, fun hsome => absurd hsome hp,
          fun _ => ⟨c, hc, rfl, fun _ => hnew⟩⟩
      refine ⟨assignColor p c :: r, fun fuel hfuel => ?_, .cons hcoloured hall⟩
      rw [assignColors, if_neg hp, hrun fuel hfuel, Option.bind_some, hr fuel hfuel,
        Option.map_some]

/-- A parameter without a colour is never passed when all colours are used. -/
theorem assignColors_eq_none {used : List Text} (h : ∀ c ∈ draw3Defaults, c ∈ used) (fuel : ℕ)
    {params : List ParamId} (hparams : ∃ p ∈ params, p.graphColor = none) {cur : ℕ}
    (hcur : cur < 12) : assignColors used fuel cur params = none := by
  induction params with
  | nil =>
    obtain ⟨p, hp, -⟩ := hparams
    exact absurd hp List.not_mem_nil
  | cons p params ih =>
    rw [assignColors]
    by_cases hp : p.graphColor.isSome
    · have hrest : ∃ q ∈ params, q.graphColor = none := by
        obtain ⟨q, hq, hnone⟩ := hparams
        rcases List.mem_cons.mp hq with rfl | hq
        · exact absurd hp (by simp [hnone])
        · exact ⟨q, hq, hnone⟩
      rw [if_pos hp, ih hrest, Option.map_none]
    · rw [if_neg hp, nextColor_eq_none h fuel hcur, Option.bind_none]

/-- The colours are generated exactly when no parameter needs one or a colour of the table is not
used. -/
theorem generateColorsLikeDraw3_iff (params : List ParamId) :
    (∃ n r, (∀ fuel ≥ n, generateColorsLikeDraw3 fuel params = some r) ∧
      List.Forall₂ (Coloured (usedColors params)) params r) ↔
    (∀ p ∈ params, p.graphColor.isSome) ∨
      ∃ c ∈ draw3Defaults, ∀ p ∈ params, p.graphColor ≠ some c := by
  have hunused : (∃ c ∈ draw3Defaults, ∀ p ∈ params, p.graphColor ≠ some c) ↔
      ∃ c ∈ draw3Defaults, c ∉ usedColors params := by
    simp only [mem_usedColors, not_exists, not_and, ne_eq]
  rw [hunused]
  constructor
  · rintro ⟨n, r, hr, -⟩
    by_contra hnot
    rw [not_or] at hnot
    have hparams : ∃ p ∈ params, p.graphColor = none := by
      simpa [Option.isSome_iff_ne_none] using hnot.1
    have hall : ∀ c ∈ draw3Defaults, c ∈ usedColors params := by
      intro c hc
      by_contra hnew
      exact hnot.2 ⟨c, hc, hnew⟩
    have hnone := assignColors_eq_none hall n hparams (show 0 < 12 by decide)
    have hsome := hr n le_rfl
    rw [generateColorsLikeDraw3, hnone] at hsome
    exact absurd hsome (by simp)
  · rintro (h | h)
    · have hsame := fun fuel => assignColors_of_isSome (usedColors params) fuel 0 h
      exact ⟨0, params, fun fuel _ => (hsame fuel).1, (hsame 0).2⟩
    · obtain ⟨r, hr, hall⟩ := assignColors_ends h params (show 0 < 12 by decide)
      exact ⟨12, r, hr, hall⟩

/-- Every colour of the table, and one parameter without a colour. -/
def crowded : List ParamId :=
  ⟨"plain", 0, .node [] []⟩ :: draw3Defaults.map fun c =>
    assignColor ⟨String.ofList c, 0, .node [] []⟩ c

theorem crowded_never :
    ¬ ∀ params, ∃ n r, (∀ fuel ≥ n, generateColorsLikeDraw3 fuel params = some r) ∧
      List.Forall₂ (Coloured (usedColors params)) params r := by
  intro h
  obtain ⟨n, r, hr, -⟩ := h crowded
  have hall : ∀ c ∈ draw3Defaults, c ∈ usedColors crowded := by
    intro c hc
    rw [mem_usedColors]
    exact ⟨_, List.mem_cons_of_mem _ (List.mem_map_of_mem hc), graphColor_assignColor _ c⟩
  have hnone := assignColors_eq_none hall n
    (show ∃ p ∈ crowded, p.graphColor = none from ⟨_, List.mem_cons_self, rfl⟩)
    (show 0 < 12 by decide)
  have hsome := hr n le_rfl
  rw [generateColorsLikeDraw3, hnone] at hsome
  exact absurd hsome (by simp)

end Set
end Iks
end Szarp
