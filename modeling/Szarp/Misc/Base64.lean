import Mathlib.Data.List.Basic
import Mathlib.Data.UInt
import Mathlib.Tactic.NormNum
import Mathlib.Tactic.FinCases

/-!
# Base64

`base64::encode` and `base64::decode` of `misc/base64.cc`: two automata that carry the bits of a
byte that are left over.
-/

namespace Szarp
namespace Base64

/-- `base64_alphabet` -/
def alphabet : List UInt8 :=
  "ABCDEFGHIJKLMNOPQRSTUVWXYZabcdefghijklmnopqrstuvwxyz0123456789+/".toList.map fun c =>
    UInt8.ofNat c.toNat

/-- `'='` -/
def pad : UInt8 := 61

/-- `base64_alphabet[v]`; behind the last character stands the end of the text. -/
def letter (v : UInt8) : UInt8 := alphabet.getD v.toNat 0

/-- What `encode` writes from a state on. -/
def encodeLoop : Fin 3 → UInt8 → List UInt8 → List UInt8
  | 0, _, c :: input => letter (c >>> 2) :: encodeLoop 1 ((c &&& 0x3) <<< 4) input
  | 1, pv, c :: input => letter (pv ||| c >>> 4) :: encodeLoop 2 ((c &&& 0xf) <<< 2) input
  | 2, pv, c :: input =>
    letter (pv ||| c >>> 6) :: letter (c &&& 0x3f) :: encodeLoop 0 pv input
  | 0, _, [] => []
  | 1, pv, [] => [letter pv, pad, pad]
  | 2, pv, [] => [letter pv, pad]

def encode (input : List UInt8) : List UInt8 := encodeLoop 0 0 input

/-- `base64_char_to_val`; `none` is `range_error`. -/
def base64CharToVal (v : UInt8) : Option UInt8 :=
  if 65 ≤ v ∧ v ≤ 90 then some (v - 65)
  else if 97 ≤ v ∧ v ≤ 122 then some (v - 97 + 26)
  else if 48 ≤ v ∧ v ≤ 57 then some (v - 48 + 52)
  else if v = 43 then some 62
  else if v = 47 then some 63
  else if v = pad then some 0
  else none

/-- What `decode` writes from a state on; `none` is `range_error`. -/
def decodeLoop : Fin 4 → UInt8 → List UInt8 → Option (List UInt8)
  | state, pv, [] => if state ≠ 0 then some [pv] else some []
  | state, pv, c :: input =>
    if c = pad then if state ≠ 0 then some [pv] else some []
    else
      (base64CharToVal c).bind fun cv =>
        match state with
        | 0 => decodeLoop 1 (cv <<< 2) input
        | 1 => (decodeLoop 2 ((cv &&& 0xf) <<< 4) input).map ((pv ||| cv >>> 4) :: ·)
        | 2 => (decodeLoop 3 ((cv &&& 0x3) <<< 6) input).map ((pv ||| cv >>> 2) :: ·)
        | 3 => (decodeLoop 0 pv input).map ((pv ||| cv) :: ·)

def decode (input : List UInt8) : List UInt8 := (decodeLoop 0 0 input).getD []

/-! ## One character -/

theorem byte_of_lt {P : UInt8 → Prop} (h : ∀ n < 256, P (UInt8.ofNat n)) (v : UInt8) : P v := by
  have hv := h v.toNat v.toNat_lt
  rwa [UInt8.ofNat_toNat] at hv

theorem alphabet_eq :
    alphabet = (List.range' 65 26 ++ List.range' 97 26 ++ List.range' 48 10 ++ [43, 47]).map
      UInt8.ofNat := by
  decide +kernel

theorem letter_spec (v : UInt8) (h : v < 64) :
    letter v ≠ pad ∧ base64CharToVal (letter v) = some v := by
  revert h
  apply byte_of_lt (P := fun v => v < 64 → letter v ≠ pad ∧ base64CharToVal (letter v) = some v)
  unfold letter
  rw [alphabet_eq]
  decide +kernel

theorem base64CharToVal_eq_none (v : UInt8) (h : v ∉ alphabet) (hpad : v ≠ pad) :
    base64CharToVal v = none := by
  have hnot : v.toNat ∉
      List.range' 65 26 ++ List.range' 97 26 ++ List.range' 48 10 ++ [43, 47] := by
    intro hmem
    apply h
    rw [alphabet_eq]
    exact List.mem_map.mpr ⟨v.toNat, hmem, UInt8.ofNat_toNat⟩
  simp only [List.mem_append, List.mem_range'_1, List.mem_cons, List.not_mem_nil, or_false,
    not_or] at hnot
  have heq : ∀ {w : UInt8}, v.toNat ≠ w.toNat → v ≠ w := fun hw hv => hw (congrArg _ hv)
  have hrange : ∀ lo hi : UInt8, ¬(lo.toNat ≤ v.toNat ∧ v.toNat < hi.toNat + 1) →
      ¬(lo ≤ v ∧ v ≤ hi) := by
    intro lo hi hout
    rw [UInt8.le_iff_toNat_le, UInt8.le_iff_toNat_le]
    omega
  rw [base64CharToVal, if_neg (hrange 65 90 hnot.1.1.1), if_neg (hrange 97 122 hnot.1.1.2),
    if_neg (hrange 48 57 hnot.1.2), if_neg (heq (w := 43) hnot.2.1), if_neg (heq (w := 47) hnot.2.2),
    if_neg hpad]

section

attribute [local simp] decodeLoop

variable (pv v : UInt8) (input : List UInt8)

theorem decodeLoop_zero (h : v < 64) :
    decodeLoop 0 pv (letter v :: input) = decodeLoop 1 (v <<< 2) input := by
  rw [decodeLoop, if_neg (letter_spec v h).1, (letter_spec v h).2, Option.bind_some]

theorem decodeLoop_one (h : v < 64) :
    decodeLoop 1 pv (letter v :: input) =
      (decodeLoop 2 ((v &&& 0xf) <<< 4) input).map ((pv ||| v >>> 4) :: ·) := by
  rw [decodeLoop, if_neg (letter_spec v h).1, (letter_spec v h).2, Option.bind_some]

theorem decodeLoop_two (h : v < 64) :
    decodeLoop 2 pv (letter v :: input) =
      (decodeLoop 3 ((v &&& 0x3) <<< 6) input).map ((pv ||| v >>> 2) :: ·) := by
  rw [decodeLoop, if_neg (letter_spec v h).1, (letter_spec v h).2, Option.bind_some]

theorem decodeLoop_three (h : v < 64) :
    decodeLoop 3 pv (letter v :: input) = (decodeLoop 0 pv input).map ((pv ||| v) :: ·) := by
  rw [decodeLoop, if_neg (letter_spec v h).1, (letter_spec v h).2, Option.bind_some]

theorem decodeLoop_pad (state : Fin 4) :
    decodeLoop state pv (pad :: input) = if state ≠ 0 then some [pv] else some [] := by
  rw [decodeLoop, if_pos rfl]

end

/-! ## The bits of a byte -/

/-- The high and the low part of a byte, at the two places where the automata cut one. -/
theorem byte_cut (c : UInt8) :
    (c >>> 2 < 64 ∧ c &&& 3 < 4 ∧ c >>> 2 <<< 2 ||| c &&& 3 = c) ∧
    (c >>> 4 < 16 ∧ c &&& 0xf < 16 ∧ c >>> 4 <<< 4 ||| c &&& 0xf = c) ∧
    (c >>> 6 < 4 ∧ c &&& 0x3f < 64 ∧ c >>> 6 <<< 6 ||| c &&& 0x3f = c) := by
  apply byte_of_lt (P := fun c =>
    (c >>> 2 < 64 ∧ c &&& 3 < 4 ∧ c >>> 2 <<< 2 ||| c &&& 3 = c) ∧
    (c >>> 4 < 16 ∧ c &&& 0xf < 16 ∧ c >>> 4 <<< 4 ||| c &&& 0xf = c) ∧
    (c >>> 6 < 4 ∧ c &&& 0x3f < 64 ∧ c >>> 6 <<< 6 ||| c &&& 0x3f = c))
  decide +kernel

/-- Two parts make a value, which gives both back. -/
theorem join_cut : ∀ k ∈ [2, 4], ∀ n < 2 ^ (6 - k), ∀ m < 2 ^ k,
    (UInt8.ofNat n <<< UInt8.ofNat k ||| UInt8.ofNat m < 64) ∧
      (UInt8.ofNat n <<< UInt8.ofNat k ||| UInt8.ofNat m) >>> UInt8.ofNat k = UInt8.ofNat n ∧
      (UInt8.ofNat n <<< UInt8.ofNat k ||| UInt8.ofNat m) &&& UInt8.ofNat (2 ^ k - 1) =
        UInt8.ofNat m := by
  decide +kernel

theorem two_four {a b : UInt8} (ha : a < 4) (hb : b < 16) :
    a <<< 4 ||| b < 64 ∧ (a <<< 4 ||| b) >>> 4 = a ∧ (a <<< 4 ||| b) &&& 0xf = b := by
  have hab := join_cut 4 (by decide) a.toNat (UInt8.lt_iff_toNat_lt.mp ha) b.toNat
    (UInt8.lt_iff_toNat_lt.mp hb)
  rwa [UInt8.ofNat_toNat, UInt8.ofNat_toNat] at hab

theorem four_two {a b : UInt8} (ha : a < 16) (hb : b < 4) :
    a <<< 2 ||| b < 64 ∧ (a <<< 2 ||| b) >>> 2 = a ∧ (a <<< 2 ||| b) &&& 3 = b := by
  have hab := join_cut 2 (by decide) a.toNat (UInt8.lt_iff_toNat_lt.mp ha) b.toNat
    (UInt8.lt_iff_toNat_lt.mp hb)
  rwa [UInt8.ofNat_toNat, UInt8.ofNat_toNat] at hab

/-! ## The round trip -/

/-- What the decoder writes behind the bytes of a text of a length: the empty rest of its last
byte, when it is not at the end of a group. -/
def spare (length : ℕ) : List UInt8 := if length % 3 = 0 then [] else [0]

theorem spare_add_three (n : ℕ) : spare (n + 3) = spare n := by
  rw [spare, spare, Nat.add_mod_right]

/-- The decoder follows the encoder: its state holds the high bits of the byte whose low bits the
encoder carries. -/
theorem decodeLoop_encodeLoop (s : List UInt8) :
    (∀ p q, decodeLoop 0 p (encodeLoop 0 q s) = some (s ++ spare s.length)) ∧
    (∀ c : UInt8, decodeLoop 1 (c >>> 2 <<< 2) (encodeLoop 1 ((c &&& 3) <<< 4) s) =
      some (c :: s ++ spare (s.length + 1))) ∧
    ∀ c : UInt8, decodeLoop 2 (c >>> 4 <<< 4) (encodeLoop 2 ((c &&& 0xf) <<< 2) s) =
      some (c :: s ++ spare (s.length + 2)) := by
  induction s with
  | nil =>
    refine ⟨fun p q => rfl, fun c => ?_, fun c => ?_⟩
    · have hc := (byte_cut c).1
      have hv := two_four hc.2.1 (show (0 : UInt8) < 16 by decide)
      rw [UInt8.or_zero] at hv
      rw [encodeLoop, decodeLoop_one _ _ _ hv.1, hv.2.1, hv.2.2, hc.2.2, decodeLoop_pad]
      rfl
    · have hc := (byte_cut c).2.1
      have hv := four_two hc.2.1 (show (0 : UInt8) < 4 by decide)
      rw [UInt8.or_zero] at hv
      rw [encodeLoop, decodeLoop_two _ _ _ hv.1, hv.2.1, hv.2.2, hc.2.2, decodeLoop_pad]
      rfl
  | cons d s ih =>
    have hd := byte_cut d
    refine ⟨fun p q => ?_, fun c => ?_, fun c => ?_⟩
    · rw [encodeLoop, decodeLoop_zero _ _ _ hd.1.1]
      exact ih.2.1 d
    · have hc := (byte_cut c).1
      have hv := two_four hc.2.1 hd.2.1.1
      rw [encodeLoop, decodeLoop_one _ _ _ hv.1, hv.2.1, hv.2.2, hc.2.2, ih.2.2 d]
      rfl
    · have hc := (byte_cut c).2.1
      have hv := four_two hc.2.1 hd.2.2.1
      rw [encodeLoop, decodeLoop_two _ _ _ hv.1, hv.2.1, hv.2.2, hc.2.2,
        decodeLoop_three _ _ _ hd.2.2.2.1, ih.1, hd.2.2.2.2, List.length_cons, spare_add_three]
      rfl

theorem decode_encode_eq (s : List UInt8) : decode (encode s) = s ++ spare s.length := by
  rw [decode, encode, (decodeLoop_encodeLoop s).1]
  rfl

/-! ## Characters outside the alphabet -/

/-- A character outside the alphabet in front of the first `'='` is met from every state. -/
theorem decodeLoop_eq_none (input : List UInt8)
    (h : ∃ c ∈ input.takeWhile (· ≠ pad), c ∉ alphabet) (state : Fin 4) (pv : UInt8) :
    decodeLoop state pv input = none := by
  induction input generalizing state pv with
  | nil =>
    obtain ⟨c, hc, -⟩ := h
    exact absurd hc List.not_mem_nil
  | cons d input ih =>
    have hpad : d ≠ pad := by
      intro hd
      obtain ⟨c, hc, -⟩ := h
      rw [List.takeWhile_cons_of_neg (by simp [hd])] at hc
      exact absurd hc List.not_mem_nil
    rw [List.takeWhile_cons_of_pos (by simp [hpad])] at h
    rw [decodeLoop, if_neg hpad]
    by_cases hd : d ∈ alphabet
    · have hrest : ∃ c ∈ input.takeWhile (· ≠ pad), c ∉ alphabet := by
        obtain ⟨c, hc, hout⟩ := h
        rcases List.mem_cons.mp hc with rfl | hc
        · exact absurd hd hout
        · exact ⟨c, hc, hout⟩
      cases base64CharToVal d with
      | none => rfl
      | some cv => fin_cases state <;> simp [ih hrest]
    · rw [base64CharToVal_eq_none d hd hpad, Option.bind_none]

/-- The round trip gives back exactly the texts whose length is a multiple of three; a character
outside the alphabet always gives the empty text. -/
theorem decode_encode_iff (s t : List UInt8) :
    (decode (encode s) = s ↔ 3 ∣ s.length) ∧
    ((∃ c ∈ t.takeWhile (· ≠ pad), c ∉ alphabet) → decode t = []) := by
  refine ⟨?_, fun ht => ?_⟩
  · rw [decode_encode_eq, List.append_right_eq_self, spare, Nat.dvd_iff_mod_eq_zero]
    by_cases h : s.length % 3 = 0
    · simp [h]
    · simp [h]
  · rw [decode, decodeLoop_eq_none t ht]
    rfl

/-- `"a"` comes back with a zero byte behind it. -/
theorem not_decode_encode : ¬ ∀ s, decode (encode s) = s := by
  intro h
  exact absurd (h [97]) (by decide)

end Base64
end Szarp
