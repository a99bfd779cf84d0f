import Storefront.Bytes

/-! # Numbers in octets

Numbers written as octets, the lowest one first.

* `decode_encode`  reading back as many octets as were written gives the number, cut to what fits
* `encode_decode`  octets are the written form of the number they spell
-/

namespace Storefront

namespace LittleEndian

/-- The lowest `width` octets of `n`, lowest first. -/
def encode : (width : Nat) → (n : Nat) → Bytes
  | 0, _ => []
  | width + 1, n => (n % 256).toUInt8 :: encode width (n / 256)

/-- The first number that `width` octets cannot hold. -/
def limit : (width : Nat) → Nat
  | 0 => 1
  | width + 1 => 256 * limit width

/-- The number that octets spell, lowest first. -/
def decode : Bytes → Nat
  | [] => 0
  | b :: bs => b.toNat + 256 * decode bs

@[simp] theorem length_encode (width n : Nat) : (encode width n).length = width := by
  induction width generalizing n with
  | zero => rfl
  | succ width ih => simp [encode, ih]

theorem decode_encode (width n : Nat) : decode (encode width n) = n % limit width := by
  induction width generalizing n with
  | zero => simp only [encode, decode, limit, Nat.mod_one]
  | succ width ih =>
    simp only [encode, decode, ih]
    have : (n % 256).toUInt8.toNat = n % 256 := by simp
    rw [this, limit, Nat.mod_mul]

theorem encode_decode (bs : Bytes) : encode bs.length (decode bs) = bs := by
  induction bs with
  | nil => rfl
  | cons b bs ih =>
    have hb := b.toNat_lt
    simp only [List.length_cons, encode, decode]
    rw [show (b.toNat + 256 * decode bs) % 256 = b.toNat by omega,
      show (b.toNat + 256 * decode bs) / 256 = decode bs by omega, ih]
    simp

theorem decode_lt (bs : Bytes) : decode bs < limit bs.length := by
  induction bs with
  | nil => exact Nat.zero_lt_one
  | cons b bs ih =>
    have hb := b.toNat_lt
    simp only [decode, List.length_cons, limit]
    omega

end LittleEndian

end Storefront
