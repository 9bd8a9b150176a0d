import Mathlib.Tactic

/-!
# Numbers as bytes, most significant byte first
-/

namespace Szarp
namespace BigEndian

def encode : ℕ → ℕ → List UInt8
  | 0, _ => []
  | k + 1, n => UInt8.ofNat (n / 256 ^ k) :: encode k n

def decodeFrom (acc : ℕ) (bs : List UInt8) : ℕ := bs.foldl (fun acc b => acc * 256 + b.toNat) acc

def decode (bs : List UInt8) : ℕ := decodeFrom 0 bs

@[simp] theorem encode_length (k n : ℕ) : (encode k n).length = k := by
  induction k with
  | zero => rfl
  | succ k ih => simp [encode, ih]

theorem decodeFrom_encode (acc k n : ℕ) :
    decodeFrom acc (encode k n) = acc * 256 ^ k + n % 256 ^ k := by
  induction k generalizing acc with
  | zero => simp [encode, decodeFrom, Nat.mod_one]
  | succ k ih =>
    have hmod : n % 256 ^ (k + 1) = n % 256 ^ k + 256 ^ k * (n / 256 ^ k % 256) := by
      rw [pow_succ, Nat.mod_mul]
    change decodeFrom (acc * 256 + (UInt8.ofNat (n / 256 ^ k)).toNat) (encode k n) = _
    rw [ih, hmod, UInt8.toNat_ofNat']
    norm_num
    ring

theorem decode_encode {k n : ℕ} (h : n < 256 ^ k) : decode (encode k n) = n := by
  rw [decode, decodeFrom_encode, Nat.mod_eq_of_lt h, Nat.zero_mul, Nat.zero_add]

theorem decodeFrom_div (acc : ℕ) (bs : List UInt8) :
    decodeFrom acc bs / 256 ^ bs.length = acc := by
  induction bs generalizing acc with
  | nil => simp [decodeFrom]
  | cons b bs ih =>
    have hb := b.toNat_lt
    change decodeFrom (acc * 256 + b.toNat) bs / 256 ^ (bs.length + 1) = acc
    rw [pow_succ, ← Nat.div_div_eq_div_mul, ih]
    omega

theorem encode_decodeFrom (acc : ℕ) (bs : List UInt8) :
    encode bs.length (decodeFrom acc bs) = bs := by
  induction bs generalizing acc with
  | nil => rfl
  | cons b bs ih =>
    have hhead : UInt8.ofNat (decodeFrom acc (b :: bs) / 256 ^ bs.length) = b := by
      change UInt8.ofNat (decodeFrom (acc * 256 + b.toNat) bs / 256 ^ bs.length) = b
      rw [decodeFrom_div]
      apply UInt8.toNat_inj.mp
      have hb := b.toNat_lt
      rw [UInt8.toNat_ofNat']
      omega
    rw [List.length_cons, encode, hhead]
    exact congrArg (List.cons b) (ih _)

theorem encode_decode (bs : List UInt8) : encode bs.length (decode bs) = bs :=
  encode_decodeFrom 0 bs

theorem decode_lt (bs : List UInt8) : decode bs < 256 ^ bs.length := by
  have hdiv := decodeFrom_div 0 bs
  rw [Nat.div_eq_zero_iff] at hdiv
  exact hdiv.resolve_left (Nat.pow_pos (by decide)).ne'

end BigEndian
end Szarp
