import Storefront.LittleEndian

/-! # SipHash

A hash of octets into 64 bits that tells similar octets apart: SipHash-1-3, with a key of zeros.
The octets are taken in words of eight, lowest octet first, and each word is stirred into a state of
four words by one round.  The octets left over make up the last word, together with the number of
all octets in its highest one; three rounds more come after it.
-/

namespace Storefront

/-- The state of a hash on its way. -/
structure SipHash where
  v0 : UInt64
  v1 : UInt64
  v2 : UInt64
  v3 : UInt64
  deriving DecidableEq, Repr

namespace SipHash

/-- The state before anything has been taken. -/
def start : SipHash :=
  ⟨0x736f6d6570736575, 0x646f72616e646f6d, 0x6c7967656e657261, 0x7465646279746573⟩

/-- Turns a word to the left by a number of bits from 1 to 63. -/
def rotate (x bits : UInt64) : UInt64 := x <<< bits ||| x >>> (64 - bits)

/-- One round: every word is stirred into two others. -/
def round (s : SipHash) : SipHash :=
  let a := s.v0 + s.v1
  let b := rotate s.v1 13 ^^^ a
  let c := s.v2 + s.v3
  let d := rotate s.v3 16 ^^^ c
  -- The pairs change partners half way through.
  let e := rotate a 32 + d
  let f := c + b
  ⟨e, rotate b 17 ^^^ f, rotate f 32, rotate d 21 ^^^ e⟩

/-- Takes a word. -/
def absorb (s : SipHash) (word : UInt64) : SipHash :=
  let t := round { s with v3 := s.v3 ^^^ word }
  { t with v0 := t.v0 ^^^ word }

/-- Takes whole words off the front of octets.  Answers what is left. -/
def absorbAll (s : SipHash) (bs : Bytes) : SipHash × Bytes :=
  match _h : bs.split? 8 with
  | some (word, rest) => absorbAll (s.absorb (LittleEndian.decode word).toUInt64) rest
  | none => (s, bs)
termination_by bs.length
decreasing_by
  obtain ⟨ha, hw⟩ := Bytes.split?_eq_some.1 _h
  rw [← ha, List.length_append, hw]
  omega

/-- The hash that a state comes to. -/
def finish (s : SipHash) : UInt64 :=
  let t := round (round (round { s with v2 := s.v2 ^^^ 0xFF }))
  t.v0 ^^^ t.v1 ^^^ t.v2 ^^^ t.v3

/-- The hash of octets. -/
def hash (bs : Bytes) : UInt64 :=
  let (s, rest) := absorbAll start bs
  -- Fewer than eight octets are left, so they do not reach the highest octet of the word.
  let last := LittleEndian.decode rest + bs.length % 0x100 * 0x100000000000000
  (s.absorb last.toUInt64).finish

end SipHash

end Storefront
