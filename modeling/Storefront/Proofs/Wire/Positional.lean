import Mathlib.Algebra.BigOperators.Group.Finset.Basic
import Mathlib.Algebra.BigOperators.Ring.Finset
import Storefront.Proofs.Wire.Groups
import Storefront.Wire.Cursor

/-! # Which octets are numbers

Octets in front of a reader begin a number, are the beginning of one, or are neither.  What they are
is said here place by place, without a reader: which of them have their high bit set, and what their
low seven bits are worth where they stand.

* `positional`         the number that octets make up by place
* `Accepted`           the octets that are read as one number
* `gather_eq_decode`   reading in words of 64 bits loses no bit
* `size_le_iff`        how many octets a number takes
* `read_trichotomy`    what is read, and what is not, for which reason
-/

namespace Storefront.Varint

variable {front bs octets : Bytes} {b last : UInt8} {index n : Nat}

/-! ## Numbers by place -/

/-- The number that the low seven bits of octets make up, each octet worth 128 times the one in
front of it. -/
def positional (octets : Bytes) : Nat :=
  ∑ i ∈ Finset.range octets.length, (octets.getD i 0).toNat % 128 * 2 ^ (7 * i)

/-- Octets that are read as one number: those in front of the last are marked as continued and the
last is not.  There are ten of them at most, and the tenth has room for one bit. -/
structure Accepted (front : Bytes) (last : UInt8) : Prop where
  goesOn : ∀ b ∈ front, 128 ≤ b.toNat
  ends : last.toNat < 128
  short : front.length + 1 ≤ maxSize
  tenth : front.length + 1 = maxSize → last.toNat ≤ 1

theorem place_succ (i : Nat) : 2 ^ (7 * (i + 1)) = 128 * 2 ^ (7 * i) := by
  rw [show 7 * (i + 1) = 7 + 7 * i by omega, Nat.pow_add]

/-- A group of seven bits has room in 64 bits, and so has all that stands in front of it, unless it
is the tenth and more than a bit. -/
theorem group_fits {group : Nat} (hshort : index + 1 ≤ maxSize) (hgroup : group < 128)
    (htenth : index + 1 = maxSize → group ≤ 1) : (group + 1) * 2 ^ (7 * index) ≤ 2 ^ 64 := by
  -- The tenth place is worth 63 bits, so a single bit fits there.  A place before it leaves room
  -- for all seven.
  by_cases hlast : index + 1 = maxSize
  · have hbit := htenth hlast
    obtain rfl : index = 9 := Nat.succ.inj hlast
    omega
  · have hplace : 7 * index ≤ 56 := by
      simp only [maxSize] at hshort hlast
      omega
    calc (group + 1) * 2 ^ (7 * index) ≤ 2 ^ 7 * 2 ^ 56 :=
          Nat.mul_le_mul hgroup (Nat.pow_le_pow_right (by decide) hplace)
      _ ≤ 2 ^ 64 := by decide

/-- `positional`, octet by octet from the front. -/
theorem positional_cons (b : UInt8) (bs : Bytes) :
    positional (b :: bs) = b.toNat % 128 + 128 * positional bs := by
  have hterm : ∀ i, ((b :: bs).getD (i + 1) 0).toNat % 128 * 2 ^ (7 * (i + 1)) =
      128 * ((bs.getD i 0).toNat % 128 * 2 ^ (7 * i)) := by
    intro i
    rw [place_succ, List.getD_cons_succ, Nat.mul_left_comm]
  rw [positional, List.length_cons, Finset.sum_range_succ', positional, Finset.mul_sum]
  simp only [hterm, List.getD_cons_zero, Nat.mul_zero, Nat.pow_zero, Nat.mul_one]
  omega

theorem positional_singleton (h : b.toNat < 128) : positional [b] = b.toNat := by
  rw [positional_cons, Nat.mod_eq_of_lt h]
  simp [positional]

/-- `positional` with one more octet behind the others, which stands one place higher. -/
theorem positional_append (front : Bytes) (b : UInt8) :
    positional (front ++ [b]) = positional front + b.toNat % 128 * 2 ^ (7 * front.length) := by
  induction front with
  | nil => simp [positional]
  | cons a front ih =>
    rw [List.cons_append, positional_cons, ih, positional_cons, List.length_cons, place_succ,
      Nat.mul_left_comm (b.toNat % 128)]
    omega

/-- `k` octets make up less than `2 ^ (7 * k)`. -/
theorem positional_lt (octets : Bytes) : positional octets < 2 ^ (7 * octets.length) := by
  induction octets with
  | nil => simp [positional]
  | cons b bs ih =>
    have hlow : b.toNat % 128 < 128 := Nat.mod_lt _ (by decide)
    rw [positional_cons, List.length_cons, place_succ]
    omega

/-! ## Spellings by place -/

/-- `Groups` are octets of which all but the last are marked, and hold what these make up
by place. -/
theorem groups_iff :
    Groups octets n ↔ ∃ front last, octets = front ++ [last] ∧ (∀ b ∈ front, 128 ≤ b.toNat) ∧
      last.toNat < 128 ∧ positional octets = n := by
  constructor
  · intro h
    induction h with
    | @last b ends => exact ⟨[], b, rfl, by simp, ends, positional_singleton ends⟩
    | @more b bs high goesOn _ ih =>
      obtain ⟨front, last, rfl, hfront, hlast, hvalue⟩ := ih
      refine ⟨b :: front, last, rfl, ?_, hlast, ?_⟩
      · intro a ha
        rcases List.mem_cons.1 ha with rfl | ha
        · exact goesOn
        · exact hfront a ha
      · have hb := b.toNat_lt
        rw [positional_cons, hvalue]
        omega
  · rintro ⟨front, last, rfl, hfront, hlast, rfl⟩
    -- The octets that go on are put in front one by one.
    induction front with
    | nil =>
      rw [List.nil_append, positional_singleton hlast]
      exact .last hlast
    | cons b front ih =>
      have hmarked : 128 ≤ b.toNat := hfront b List.mem_cons_self
      have hrest := ih fun a ha => hfront a (List.mem_cons_of_mem b ha)
      have hb := b.toNat_lt
      rw [List.cons_append, positional_cons, show b.toNat % 128 = b.toNat - 128 by omega]
      exact .more hmarked hrest

/-- `positional` of ten octets is below `limit` just when the last of them holds one bit; fewer
octets hold less. -/
theorem positional_lt_limit_iff (hends : last.toNat < 128) (hshort : front.length + 1 ≤ maxSize) :
    positional (front ++ [last]) < limit ↔ (front.length + 1 = maxSize → last.toNat ≤ 1) := by
  have hfront := positional_lt front
  have hlast : last.toNat % 128 = last.toNat := Nat.mod_eq_of_lt hends
  have hlimit : limit = 2 ^ 64 := rfl
  rw [positional_append, hlast, hlimit]
  constructor
  · intro hfits htenth
    -- In the tenth place a group is worth 63 bits and more.
    have hnine : front.length = 9 := Nat.succ.inj htenth
    rw [hnine] at hfits
    omega
  · intro htenth
    have hroom := group_fits hshort hends htenth
    rw [Nat.add_mul, Nat.one_mul] at hroom
    omega

/-- `Spells` is said of `Accepted` octets, with the number that these make up by place. -/
theorem spells_iff_accepted :
    Spells octets n ↔ ∃ front last, octets = front ++ [last] ∧ Accepted front last ∧
      positional octets = n := by
  constructor
  · rintro ⟨hgroups, hshort, hfits⟩
    obtain ⟨front, last, rfl, hfront, hends, rfl⟩ := groups_iff.1 hgroups
    rw [List.length_append, List.length_singleton] at hshort
    exact ⟨front, last, rfl,
      ⟨hfront, hends, hshort, (positional_lt_limit_iff hends hshort).1 hfits⟩, rfl⟩
  · rintro ⟨front, last, rfl, h, rfl⟩
    have hgroups := groups_iff.2 ⟨front, last, rfl, h.goesOn, h.ends, rfl⟩
    have hfits := (positional_lt_limit_iff h.ends h.short).2 h.tenth
    refine ⟨hgroups, ?_, hfits⟩
    rw [List.length_append, List.length_singleton]
    exact h.short

/-! ## Reading -/

/-- `decodeFrom` is `unfinished` when all octets go on and there is room for more. -/
theorem decodeFrom_eq_unfinished (hindex : index < maxSize) :
    decodeFrom index bs = .error .unfinished ↔
      (∀ b ∈ bs, 128 ≤ b.toNat) ∧ index + bs.length < maxSize := by
  induction bs generalizing index with
  | nil => simp [decodeFrom, hindex]
  | cons b bs ih =>
    rw [List.length_cons, List.forall_mem_cons]
    by_cases hlast : index + 1 = maxSize
    · -- In the last place a number has ended, or it is too long.
      have hfull : ¬ index + (bs.length + 1) < maxSize := by omega
      simp only [hfull, and_false, iff_false]
      simp only [decodeFrom, hlast, true_and, if_true]
      split
      · simp
      · split <;> simp
    · by_cases hends : b.toNat < 128
      · -- An octet that ends the number leaves nothing unfinished.
        have hnot : ¬ 128 ≤ b.toNat := by omega
        simp [decodeFrom, hlast, hends, hnot]
      · have hmarked : 128 ≤ b.toNat := by omega
        have hroom : index + 1 + bs.length = index + (bs.length + 1) := by omega
        have hrest := ih (show index + 1 < maxSize by omega)
        rw [hroom] at hrest
        simp only [hmarked, true_and, ← hrest]
        simp only [decodeFrom, hlast, false_and, if_false, hends]
        cases decodeFrom (index + 1) bs <;> simp

/-- `decode` is `unfinished` in front of the beginning of `Accepted` octets. -/
theorem decode_eq_unfinished :
    decode bs = .error .unfinished ↔
      ∃ front last, Accepted front last ∧ bs <+: front ++ [last] ∧ bs ≠ front ++ [last] := by
  rw [decode, decodeFrom_eq_unfinished (by decide), Nat.zero_add]
  constructor
  · rintro ⟨hmarked, hroom⟩
    -- An octet of zero would end the number here.
    have haccepted : Accepted bs 0 := ⟨hmarked, by decide, hroom, fun _ => by decide⟩
    exact ⟨bs, 0, haccepted, List.prefix_append bs [0], by simp⟩
  · rintro ⟨front, last, h, hbegins, hne⟩
    have hfront : bs <+: front := (List.prefix_concat_iff.1 hbegins).resolve_left hne
    have hlength := hfront.length_le
    have hshort := h.short
    exact ⟨fun b hb => h.goesOn b (hfront.subset hb), by omega⟩

/-- `decode` reads accepted octets, and no others. -/
theorem decode_eq_ok_iff_accepted {rest : Bytes} {used : Nat} :
    decode bs = .ok (n, used, rest) ↔
      ∃ front last, Accepted front last ∧ front ++ last :: rest = bs ∧ front.length + 1 = used ∧
        positional (front ++ [last]) = n := by
  rw [decode_eq_ok]
  constructor
  · rintro ⟨octets, rfl, rfl, h⟩
    obtain ⟨front, last, rfl, haccepted, hvalue⟩ := spells_iff_accepted.1 h
    exact ⟨front, last, haccepted, by simp, by simp, hvalue⟩
  · rintro ⟨front, last, haccepted, rfl, rfl, hvalue⟩
    exact ⟨front ++ [last], by simp, by simp,
      spells_iff_accepted.2 ⟨front, last, rfl, haccepted, hvalue⟩⟩

/-- `decode` has an `overflow` in front of all other octets. -/
theorem decode_eq_overflow :
    decode bs = .error .overflow ↔
      ∀ front last, Accepted front last → ¬ front ++ [last] <+: bs ∧ ¬ bs <+: front ++ [last] := by
  constructor
  · intro h front last haccepted
    -- Accepted octets in front would have been read.
    have hread : ¬ front ++ [last] <+: bs := by
      rintro ⟨rest, rfl⟩
      have hok : decode (front ++ last :: rest) = _ :=
        decode_eq_ok_iff_accepted.2 ⟨front, last, haccepted, rfl, rfl, rfl⟩
      rw [List.append_assoc, List.singleton_append, hok] at h
      cases h
    refine ⟨hread, fun hbegins => ?_⟩
    by_cases hwhole : bs = front ++ [last]
    · exact hread (hwhole ▸ List.prefix_refl bs)
    · rw [decode_eq_unfinished.2 ⟨front, last, haccepted, hbegins, hwhole⟩] at h
      cases h
  · intro hneither
    cases h : decode bs with
    | ok read =>
      obtain ⟨front, last, haccepted, hbs, -⟩ := decode_eq_ok_iff_accepted.1 h
      exact absurd ⟨_, by simpa using hbs⟩ (hneither front last haccepted).1
    | error fault =>
      cases fault with
      | overflow => rfl
      | unfinished =>
        obtain ⟨front, last, haccepted, hbegins, -⟩ := decode_eq_unfinished.1 h
        exact absurd hbegins (hneither front last haccepted).2

/-- `varint` at the start of octets answers what `decode` does. -/
theorem varint_start (src : Bytes) :
    (∀ v k rest, Cursor.varint (.start src) = .ok v ⟨k, rest⟩ ↔ decode src = .ok (v, k, rest)) ∧
    (Cursor.varint (.start src) = .error (.truncated 1 0) (.start src) ↔
      decode src = .error .unfinished) ∧
    (Cursor.varint (.start src) = .error .varintOverflow (.start src) ↔
      decode src = .error .overflow) := by
  simp only [Cursor.varint, Cursor.start]
  split <;> simp_all

/-! ## Words of 64 bits -/

/-- Reads a number into a word of 64 bits, which drops what does not fit it: every group is shifted
to its place and joined with those before it. -/
def gather (index : Nat) (word : UInt64) : Bytes → Except Fault (UInt64 × Nat × Bytes)
  | [] => .error .unfinished
  | b :: rest =>
    let low := b &&& 0x7F
    if index + 1 = maxSize ∧ 1 < low then .error .overflow
    else
      let word := word ||| low.toUInt64 <<< (7 * index).toUInt64
      if b < 0x80 then .ok (word, index + 1, rest)
      else if index + 1 = maxSize then .error .overflow
      else gather (index + 1) word rest

theorem toNat_low (b : UInt8) : (b &&& 0x7F).toNat = b.toNat % 128 := by
  rw [UInt8.toNat_and]
  exact Nat.and_two_pow_sub_one_eq_mod b.toNat 7

/-- `|||` with a group that has room in its place keeps all its bits there, and meets none of those
before it. -/
theorem toNat_join {word : UInt64} (hword : word.toNat = positional front)
    (hshort : front.length + 1 ≤ maxSize) (htenth : front.length + 1 = maxSize → b.toNat % 128 ≤ 1) :
    (word ||| (b &&& 0x7F).toUInt64 <<< (7 * front.length).toUInt64).toNat =
      positional (front ++ [b]) := by
  have hlow : b.toNat % 128 < 128 := Nat.mod_lt _ (by decide)
  have hfront := positional_lt front
  have hplace : (7 * front.length).toUInt64.toNat % 64 = 7 * front.length := by
    simp only [maxSize] at hshort
    simp only [Nat.toUInt64_eq, UInt64.toNat_ofNat']
    omega
  -- So shifting within 64 bits drops nothing.
  have hfits : b.toNat % 128 * 2 ^ (7 * front.length) < 2 ^ 64 := by
    have hroom := group_fits hshort hlow htenth
    have hpos : 0 < 2 ^ (7 * front.length) := Nat.two_pow_pos _
    rw [Nat.add_mul, Nat.one_mul] at hroom
    omega
  rw [UInt64.toNat_or, UInt64.toNat_shiftLeft, UInt8.toNat_toUInt64, toNat_low, hword, hplace,
    Nat.shiftLeft_eq, Nat.mod_eq_of_lt hfits, positional_append]
  -- The bits of the group lie above those that have been gathered, so joining them is adding.
  rw [Nat.or_comm, Nat.mul_comm (b.toNat % 128), ← Nat.two_pow_add_eq_or_of_lt hfront, Nat.add_comm]

/-- `gather` from some octets on makes up the number with what `decodeFrom` has to come. -/
theorem gather_eq {word : UInt64} (hword : word.toNat = positional front)
    (hshort : front.length < maxSize) (bs : Bytes) :
    gather front.length word bs = (decodeFrom front.length bs).map fun (high, used, rest) =>
      ((positional front + high * 2 ^ (7 * front.length)).toUInt64, front.length + used, rest) := by
  -- By induction on the octets: each one goes over from those to come to those gathered.
  induction bs generalizing front word with
  | nil => rfl
  | cons b bs ih =>
    have hlow : 1 < b &&& 0x7F ↔ 1 < b.toNat % 128 := by
      rw [UInt8.lt_iff_toNat_lt, toNat_low]
      rfl
    have hends : b < 0x80 ↔ b.toNat < 128 := UInt8.lt_iff_toNat_lt
    simp only [gather, decodeFrom, hlow, hends]
    by_cases hover : front.length + 1 = maxSize ∧ 1 < b.toNat % 128
    · rw [if_pos hover, if_pos hover]
      rfl
    · rw [if_neg hover, if_neg hover]
      have hjoin := toNat_join (b := b) hword hshort (by omega)
      have hback : ∀ {n : Nat} {w : UInt64}, w.toNat = n → w = n.toUInt64 := by
        rintro n w rfl
        simp
      by_cases hlast : b.toNat < 128
      · rw [if_pos hlast, if_pos hlast]
        simp only [Except.map]
        rw [hback hjoin, positional_append]
      · rw [if_neg hlast, if_neg hlast]
        by_cases hfull : front.length + 1 = maxSize
        · rw [if_pos hfull, if_pos hfull]
          rfl
        · rw [if_neg hfull, if_neg hfull]
          have hlength : (front ++ [b]).length = front.length + 1 := by simp
          have hnext := ih hjoin (by omega)
          rw [hlength] at hnext
          rw [hnext]
          cases decodeFrom (front.length + 1) bs with
          | error fault => rfl
          | ok read =>
            obtain ⟨high, used, rest⟩ := read
            -- What is still to come is worth 128 times as much behind this octet.
            have hvalue : positional (front ++ [b]) + high * 2 ^ (7 * (front.length + 1)) =
                positional front + (b.toNat % 128 + 128 * high) * 2 ^ (7 * front.length) := by
              rw [positional_append, place_succ, Nat.add_mul, Nat.mul_comm 128 high, Nat.mul_assoc]
              omega
            simp only [Except.map, hvalue]
            rw [Nat.add_right_comm, Nat.add_assoc]

/-- `gather` is `decode` in words: 64 bits are wide enough. -/
theorem gather_eq_decode (bs : Bytes) :
    gather 0 0 bs = (decode bs).map fun (n, used, rest) => (n.toUInt64, used, rest) := by
  have hnone : (0 : UInt64).toNat = positional [] := by simp [positional]
  have h := gather_eq hnone (by decide) bs
  simpa [positional, decode] using h

/-! ## Sizes -/

/-- `size` is how many groups of seven bits are begun, and one at least. -/
theorem size_le_iff {k : Nat} (hk : 0 < k) : size n ≤ k ↔ n < 2 ^ (7 * k) := by
  -- `size` counts by the logarithm, for which zero is no number of its own.
  have hlog : n.log2 < 7 * k ↔ n < 2 ^ (7 * k) := by
    by_cases hn : n = 0
    · subst hn
      have hpos : 0 < 2 ^ (7 * k) := Nat.two_pow_pos _
      simp only [Nat.log2_zero, hpos, iff_true]
      omega
    · exact Nat.log2_lt hn
  rw [← hlog, size]
  omega

theorem size_le_length (octets : Bytes) (hne : octets ≠ []) :
    size (positional octets) ≤ octets.length :=
  (size_le_iff (List.length_pos_iff.2 hne)).2 (positional_lt octets)

theorem size_pos (n : Nat) : 0 < size n := Nat.succ_pos _

theorem size_le_maxSize (h : n < limit) : size n ≤ maxSize := by
  have hroom : limit ≤ 2 ^ (7 * maxSize) := by decide
  exact (size_le_iff (by decide)).2 (by omega)

/-! ## The three answers -/

/-- `Cursor.varint` reads the octets in front of it as a number, ends inside one, or refuses them.

* It reads a number just when `Accepted` octets stand in front.  It is what they make up by place
  (`positional`), and so many octets are passed over.  `gather`, which counts in words of 64 bits,
  makes the same number of them.
* It answers `truncated` just when the octets are the beginning of accepted ones, possibly none at
  all.  It then wants one more and has none, and stays where it is.
* It answers `varintOverflow` on all other octets, and stays where it is.
* `encode` of a number of 64 bits has the `size` that is foretold, between one octet and ten.  It is
  read back whatever stands behind it, and no accepted octets for that number are fewer. -/
theorem read_trichotomy :
    (∀ (src rest : Bytes) (v k : Nat),
      Cursor.varint (.start src) = .ok v ⟨k, rest⟩ ↔
        ∃ front last, Accepted front last ∧ front ++ last :: rest = src ∧ front.length + 1 = k ∧
          positional (front ++ [last]) = v) ∧
    (∀ src : Bytes, gather 0 0 src =
      (decode src).map fun (v, k, rest) => (v.toUInt64, k, rest)) ∧
    (∀ (front : Bytes) (last : UInt8), Accepted front last →
      positional (front ++ [last]) < 2 ^ 64) ∧
    (∀ src : Bytes, Cursor.varint (.start src) = .error (.truncated 1 0) (.start src) ↔
      ∃ front last, Accepted front last ∧ src <+: front ++ [last] ∧ src ≠ front ++ [last]) ∧
    (∀ src : Bytes, Cursor.varint (.start src) = .error .varintOverflow (.start src) ↔
      ∀ front last, Accepted front last →
        ¬ front ++ [last] <+: src ∧ ¬ src <+: front ++ [last]) ∧
    ∀ (v : UInt64) (rest : Bytes),
      (encode v.toNat).length = size v.toNat ∧ 1 ≤ size v.toNat ∧ size v.toNat ≤ 10 ∧
        Cursor.varint (.start (encode v.toNat ++ rest)) = .ok v.toNat ⟨size v.toNat, rest⟩ ∧
        ∀ front last, Accepted front last → positional (front ++ [last]) = v.toNat →
          size v.toNat ≤ front.length + 1 := by
  refine ⟨fun src rest v k => ((varint_start src).1 v k rest).trans decode_eq_ok_iff_accepted,
    gather_eq_decode, ?fits, fun src => (varint_start src).2.1.trans decode_eq_unfinished,
    fun src => (varint_start src).2.2.trans decode_eq_overflow, ?written⟩
  case fits =>
    intro front last h
    exact (positional_lt_limit_iff h.ends h.short).2 h.tenth
  case written =>
    intro v rest
    have hlimit : v.toNat < limit := v.toNat_lt
    have hread := decode_encode_append hlimit rest
    rw [length_encode] at hread
    refine ⟨length_encode _, size_pos _, size_le_maxSize hlimit,
      ((varint_start _).1 _ _ _).2 hread, ?shortest⟩
    case shortest =>
      intro front last _ hvalue
      have hle := size_le_length (front ++ [last]) (by simp)
      rwa [hvalue, List.length_append, List.length_singleton] at hle

/-- `varint` of 300 spelled with an octet too many, cut off behind two of them, and of an eleventh
octet where ten are too many already. -/
theorem read_trichotomy_long :
    Accepted [0xAC, 0x82] 0 ∧
      Cursor.varint (.start [0xAC, 0x82, 0, 7]) = .ok 300 ⟨3, [7]⟩ ∧
      Cursor.varint (.start [0xAC, 0x82]) = .error (.truncated 1 0) (.start [0xAC, 0x82]) ∧
      (∀ front last, Accepted front last → ¬ front ++ [last] <+: List.replicate 11 0xFF ∧
        ¬ List.replicate 11 0xFF <+: front ++ [last]) ∧
      positional [0xAC, 0x82, 0] < 2 ^ 64 ∧ size 300 ≤ 3 := by
  obtain ⟨hread, -, hfits, hunfinished, hoverflow, hwritten⟩ := read_trichotomy
  have hgoesOn : ∀ b ∈ ([0xAC, 0x82] : Bytes), 128 ≤ b.toNat := by simp
  have haccepted : Accepted [0xAC, 0x82] 0 := ⟨hgoesOn, by decide, by decide, by decide⟩
  have hvalue : positional [0xAC, 0x82, 0] = 300 := by decide
  have hfit : positional [0xAC, 0x82, 0] < 2 ^ 64 := hfits [0xAC, 0x82] 0 haccepted
  refine ⟨haccepted, ?_, ?_, ?_, hfit, ?_⟩
  · exact (hread _ _ _ _).2 ⟨[0xAC, 0x82], 0, haccepted, rfl, rfl, hvalue⟩
  · exact (hunfinished _).2 ⟨[0xAC, 0x82], 0, haccepted, ⟨[0], rfl⟩, by decide⟩
  · exact (hoverflow _).1 rfl
  · exact (hwritten 300 []).2.2.2.2 _ _ haccepted hvalue

end Storefront.Varint
