import Storefront.Proofs.Frame.Stream

/-! # The front of a buffer

What a reader makes of the octets it has gathered is settled by the first of them: once they are a
frame, or can never be one, this stays so whatever comes behind them.  A payload that is too large
for one limit may do for another.

* `decode_some`            a frame that is read is the front of the buffer
* `decode_eq_error_iff`    when a buffer can never be a frame
* `decode_append_of_some`, `decode_append_of_error`   later octets change nothing
* `Announces.decode_of_le`  a limit that is large enough lets the frame through
-/

namespace Storefront

namespace Frame

/-- A buffer starts with a whole header, and that announces a payload of `size` octets. -/
structure Announces (buffer : Bytes) (size : Nat) : Prop where
  whole : headerSize ≤ buffer.length
  marked : buffer.take 2 = magic
  size : LittleEndian.decode ((buffer.drop 2).take 4) = size

variable {buffer rest : Bytes} {frame : Frame} {maxPayload size : Nat} {e : WireError}

/-- Octets behind a header leave what it `Announces`. -/
theorem Announces.append (h : Announces buffer size) (more : Bytes) :
    Announces (buffer ++ more) size := by
  have hwhole := h.whole
  simp only [headerSize] at hwhole
  constructor
  case whole =>
    rw [List.length_append]
    exact Nat.le_trans h.whole (Nat.le_add_right _ _)
  case marked =>
    rw [List.take_append_of_le_length (by omega), h.marked]
  case size =>
    rw [List.drop_append_of_le_length (by omega),
      List.take_append_of_le_length (by rw [List.length_drop]; omega), h.size]

/-- A size that a header `Announces` is within `payloadLimit`. -/
theorem Announces.size_le (h : Announces buffer size) : size ≤ payloadLimit := by
  have hwhole := h.whole
  have hlength : ((buffer.drop 2).take 4).length = 4 := by
    simp only [headerSize, List.length_take, List.length_drop] at *
    omega
  -- Four octets hold no more.
  have hlt := LittleEndian.decode_lt ((buffer.drop 2).take 4)
  rw [hlength, h.size] at hlt
  simp only [LittleEndian.limit, payloadLimit] at *
  omega

/-- The frame that a buffer with a whole header holds, if its payload ends at `rest`. -/
def front (buffer payload : Bytes) : Frame where
  key :=
    ⟨(LittleEndian.decode ((buffer.drop 6).take 1)).toUInt8,
      (LittleEndian.decode ((buffer.drop 7).take 2)).toUInt16⟩
  requestId := (LittleEndian.decode ((buffer.drop 9).take 8)).toUInt64
  payload

/-- `decode` of a buffer that is too short for a header is left to wait. -/
theorem decode_of_short (h : buffer.length < headerSize) (maxPayload : Nat) :
    decode maxPayload buffer = .ok none := by
  unfold decode
  rw [Bytes.split?_eq_none.2 h]

/-- `split?` cuts a buffer that is long enough into a header and what is behind it. -/
theorem split?_of_whole (h : headerSize ≤ buffer.length) :
    Bytes.split? buffer headerSize = some (buffer.take headerSize, buffer.drop headerSize) := by
  apply Bytes.split?_eq_some.2
  constructor
  · exact List.take_append_drop headerSize buffer
  · rw [List.length_take]
    omega

/-- A whole header without `magic` in front is refused. -/
theorem decode_of_unmarked (h : headerSize ≤ buffer.length) (hmark : buffer.take 2 ≠ magic)
    (maxPayload : Nat) : decode maxPayload buffer = .error .invalidMagic := by
  unfold decode
  rw [split?_of_whole h]
  have htwo : (buffer.take headerSize).take 2 = buffer.take 2 := by
    rw [List.take_take]
    rfl
  simp only [htwo, ne_eq, hmark, not_false_eq_true, if_true]

/-- `decode` holds what a header announces against the limit, and then waits for that
many octets. -/
theorem Announces.decode_eq (h : Announces buffer size) (maxPayload : Nat) :
    decode maxPayload buffer =
      if maxPayload < size then .error (.payloadTooLarge size maxPayload)
      else
        .ok ((Bytes.split? (buffer.drop headerSize) size).map fun p => (front buffer p.1, p.2)) := by
  -- The fields of the header are those of the buffer at the same places.
  have hfield : ∀ i n, i + n ≤ headerSize →
      ((buffer.take headerSize).drop i).take n = (buffer.drop i).take n := by
    intro i n hle
    rw [List.drop_take, List.take_take, Nat.min_eq_left (by omega)]
  have htwo : (buffer.take headerSize).take 2 = magic := by
    have := hfield 0 2 (by decide)
    rw [List.drop_zero, List.drop_zero] at this
    rw [this, h.marked]
  unfold decode
  rw [split?_of_whole h.whole]
  simp only [htwo, ne_eq, not_true_eq_false, if_false, hfield 2 4 (by decide),
    hfield 6 1 (by decide), hfield 7 2 (by decide), hfield 9 8 (by decide), h.size]
  split
  · rfl
  · cases Bytes.split? (buffer.drop headerSize) size <;> rfl

/-- What a buffer can come to: it is too short for a header, it does not start with `magic`, or it
`Announces` a payload. -/
theorem short_or_unmarked_or_announces (buffer : Bytes) :
    buffer.length < headerSize ∨ (headerSize ≤ buffer.length ∧ buffer.take 2 ≠ magic) ∨
      ∃ size, Announces buffer size := by
  by_cases hwhole : headerSize ≤ buffer.length
  · by_cases hmark : buffer.take 2 = magic
    · exact .inr (.inr ⟨_, hwhole, hmark, rfl⟩)
    · exact .inr (.inl ⟨hwhole, hmark⟩)
  · exact .inl (by omega)

/-- `decode` fails when the buffer does not start with `magic`, or announces more
than `maxPayload`. -/
theorem decode_eq_error_iff :
    decode maxPayload buffer = .error e ↔
      (headerSize ≤ buffer.length ∧ buffer.take 2 ≠ magic ∧ e = .invalidMagic) ∨
        ∃ size, Announces buffer size ∧ maxPayload < size ∧ e = .payloadTooLarge size maxPayload := by
  constructor
  · intro h
    rcases short_or_unmarked_or_announces buffer with hshort | ⟨hwhole, hmark⟩ | ⟨size, hsize⟩
    · rw [decode_of_short hshort] at h
      cases h
    · rw [decode_of_unmarked hwhole hmark] at h
      exact .inl ⟨hwhole, hmark, (Except.error.inj h).symm⟩
    · rw [hsize.decode_eq] at h
      by_cases hlarge : maxPayload < size
      · rw [if_pos hlarge] at h
        exact .inr ⟨size, hsize, hlarge, (Except.error.inj h).symm⟩
      · rw [if_neg hlarge] at h
        cases h
  · rintro (⟨hwhole, hmark, rfl⟩ | ⟨size, hsize, hlarge, rfl⟩)
    · exact decode_of_unmarked hwhole hmark maxPayload
    · rw [hsize.decode_eq, if_pos hlarge]

/-- `decode` fails in the same way with more octets behind the buffer. -/
theorem decode_append_of_error (h : decode maxPayload buffer = .error e) (more : Bytes) :
    decode maxPayload (buffer ++ more) = .error e := by
  rw [decode_eq_error_iff] at h ⊢
  rcases h with ⟨hwhole, hmark, he⟩ | ⟨size, hsize, hlarge, he⟩
  · refine .inl ⟨?_, ?_, he⟩
    · rw [List.length_append]
      omega
    · -- The magic octets are in front, so they stay where they are.
      have : 2 ≤ buffer.length := Nat.le_trans (by decide) hwhole
      rwa [List.take_append_of_le_length this]
  · exact .inr ⟨size, hsize.append more, hlarge, he⟩

/-- `front` puts the header and the payload of a buffer into the frame whose octets they are. -/
theorem Announces.octets_front (h : Announces buffer size) {payload rest : Bytes}
    (hsplit : Bytes.split? (buffer.drop headerSize) size = some (payload, rest)) :
    buffer = (front buffer payload).octets ++ rest ∧ payload.length = size := by
  obtain ⟨hbehind, hlength⟩ := Bytes.split?_eq_some.1 hsplit
  have hwhole := h.whole
  simp only [headerSize] at hwhole
  refine ⟨?_, hlength⟩
  -- Each field of the header is the written form of the number that it spells.
  have hspell : ∀ i n, i + n ≤ 17 →
      LittleEndian.encode n (LittleEndian.decode ((buffer.drop i).take n)) =
        (buffer.drop i).take n := by
    intro i n hle
    have hn : ((buffer.drop i).take n).length = n := by
      rw [List.length_take, List.length_drop]
      omega
    have hspelled := LittleEndian.encode_decode ((buffer.drop i).take n)
    rwa [hn] at hspelled
  -- And each number is below what its octets can hold, so it is kept as it is.
  have hlt : ∀ i n, i + n ≤ 17 →
      LittleEndian.decode ((buffer.drop i).take n) < LittleEndian.limit n := by
    intro i n hle
    have hn : ((buffer.drop i).take n).length = n := by
      rw [List.length_take, List.length_drop]
      omega
    have hbound := LittleEndian.decode_lt ((buffer.drop i).take n)
    rwa [hn] at hbound
  have hfamily : (front buffer payload).key.family.toNat =
      LittleEndian.decode ((buffer.drop 6).take 1) :=
    UInt8.toNat_ofNat_of_lt' (hlt 6 1 (by decide))
  have hmessage : (front buffer payload).key.message.toNat =
      LittleEndian.decode ((buffer.drop 7).take 2) :=
    UInt16.toNat_ofNat_of_lt' (hlt 7 2 (by decide))
  have hrequest : (front buffer payload).requestId.toNat =
      LittleEndian.decode ((buffer.drop 9).take 8) :=
    UInt64.toNat_ofNat_of_lt' (hlt 9 8 (by decide))
  have hheader : header (front buffer payload).key (front buffer payload).requestId payload.length =
      buffer.take 17 := by
    have hsize := hspell 2 4 (by decide)
    rw [h.size] at hsize
    rw [header, hfamily, hmessage, hrequest, hlength, hsize, hspell 6 1 (by decide),
      hspell 7 2 (by decide), hspell 9 8 (by decide), ← h.marked]
    -- The fields stand one behind the other, without gaps.
    have hjoin : ∀ n k, buffer.take n ++ (buffer.drop n).take k = buffer.take (n + k) := by
      intro n k
      rw [List.take_add]
    rw [hjoin, hjoin, hjoin, hjoin]
  calc buffer = buffer.take 17 ++ buffer.drop 17 := (List.take_append_drop 17 buffer).symm
    _ = header (front buffer payload).key (front buffer payload).requestId payload.length ++
          (payload ++ rest) := by rw [hheader, hbehind]; rfl
    _ = (front buffer payload).octets ++ rest := by rw [octets, List.append_assoc]; rfl

/-- `decode` answers the frame whose `octets` are in front of the buffer. -/
theorem decode_some (h : decode maxPayload buffer = .ok (some (frame, rest))) :
    buffer = frame.octets ++ rest ∧ frame.Fits maxPayload ∧
      Announces buffer frame.payload.length := by
  rcases short_or_unmarked_or_announces buffer with hshort | ⟨hwhole, hmark⟩ | ⟨size, hsize⟩
  · rw [decode_of_short hshort] at h
    cases h
  · rw [decode_of_unmarked hwhole hmark] at h
    cases h
  · rw [hsize.decode_eq] at h
    by_cases hlarge : maxPayload < size
    · rw [if_pos hlarge] at h
      cases h
    · rw [if_neg hlarge, Except.ok.injEq, Option.map_eq_some_iff] at h
      obtain ⟨⟨payload, rest'⟩, hsplit, hfound⟩ := h
      cases hfound
      obtain ⟨hbuffer, rfl⟩ := hsize.octets_front hsplit
      exact ⟨hbuffer, ⟨Nat.le_of_not_lt hlarge, hsize.size_le⟩, hsize⟩

/-- `decode` answers the same frame with more octets behind the buffer, and these behind it. -/
theorem decode_append_of_some (h : decode maxPayload buffer = .ok (some (frame, rest)))
    (more : Bytes) :
    decode maxPayload (buffer ++ more) = .ok (some (frame, rest ++ more)) := by
  obtain ⟨hbuffer, hfits, -⟩ := decode_some h
  rw [hbuffer, List.append_assoc]
  exact decode_octets hfits (rest ++ more)

/-- `decode` of a buffer that announces no more than `maxPayload` answers a frame of that size, or
nothing yet. -/
theorem Announces.decode_of_le (h : Announces buffer size) (hle : size ≤ maxPayload) :
    decode maxPayload buffer = .ok none ∨
      ∃ frame rest, decode maxPayload buffer = .ok (some (frame, rest)) ∧
        frame.payload.length = size := by
  rw [h.decode_eq, if_neg (by omega)]
  cases hsplit : Bytes.split? (buffer.drop headerSize) size with
  | none => exact .inl rfl
  | some p => exact .inr ⟨front buffer p.1, p.2, rfl, (h.octets_front hsplit).2⟩

end Frame

end Storefront
