import Storefront.Wire.Writer

/-! # Reading fields

A `Cursor` stands in a byte string: `position` octets lie behind it and `rest` ahead.  A read
answers a value or a failure and leaves a cursor in both cases, because a failed read keeps what it
has read in full: a length that proves too large is behind the cursor afterwards, whereas a number
that cannot be read, and a stream that is broken anywhere, are still ahead of it.

Every read that succeeds moves past the octets it spans, and none moves backwards
(`varint_ok`, `take_ok`, `chunk_ok`).
-/

namespace Storefront

/-- A place in a byte string. -/
structure Cursor where
  /-- How many octets have been read. -/
  position : Nat
  /-- The octets to be read. -/
  rest : Bytes
  deriving DecidableEq, Repr

/-- A read from a cursor. -/
abbrev Read (α : Type) : Type := EStateM WireError Cursor α

namespace Cursor

/-- The start of a byte string. -/
def start (bs : Bytes) : Cursor := ⟨0, bs⟩

/-- How many octets are left. -/
def remaining (c : Cursor) : Nat := c.rest.length

/-- True when nothing is left. -/
def atEnd (c : Cursor) : Bool := c.rest.isEmpty

/-- Reads a number. -/
def varint : Read Nat := fun c =>
  match Varint.decode c.rest with
  | .ok (n, used, rest) => .ok n ⟨c.position + used, rest⟩
  | .error .unfinished => .error (.truncated 1 0) c
  | .error .overflow => .error .varintOverflow c

/-- Reads `n` octets. -/
def take (n : Nat) : Read Bytes := fun c =>
  match c.rest.split? n with
  | some (bs, rest) => .ok bs ⟨c.position + n, rest⟩
  | none => .error (.truncated n c.remaining) c

/-- Reads all that is left. -/
def takeAll : Read Bytes := fun c => .ok c.rest ⟨c.position + c.remaining, []⟩

/-- Passes over a check. -/
def check (result : Except WireError Unit) : Read Unit := fun c =>
  match result with
  | .ok () => .ok () c
  | .error e => .error e c

/-- Reads a length and that many octets.  A length above the bound is refused before any octet
after it is looked at. -/
def lenPrefixed (max : Option Nat) (tag : Nat) : Read Bytes := do
  let n ← varint
  check (checkBound tag n max)
  take n

/-- Reads a field key. -/
def key : Read (Nat × WireType) := do
  let n ← varint
  match WireType.ofBits? (n % 8) with
  | none => throw (.unknownWireType (n % 8))
  | some type =>
    -- A tag that is out of range is reported as the largest number of its width.
    if maxTag < n / 8 then throw (.tagOutOfRange 0xFFFFFFFF) else pure (n / 8, type)

/-- Reads the declared size of a stream. -/
def streamStart : Read (Option Nat) := do
  let n ← varint
  pure (if n = Wire.undeclaredSize then none else some n)

/-- Reads one chunk of a stream, or `none` at its end. -/
def chunk : Read (Option Bytes) := do
  let n ← varint
  if n = 0 then pure none else some <$> take n

/-! ## How far a read moves -/

theorem varint_ok {c c' : Cursor} {n : Nat} (h : varint c = .ok n c') :
    c'.rest.length < c.rest.length ∧
      c'.position + c'.rest.length = c.position + c.rest.length := by
  unfold varint at h
  split at h
  · rename_i m used rest hd
    obtain ⟨hl, hu⟩ := Varint.decode_length hd
    simp only [EStateM.Result.ok.injEq] at h
    obtain ⟨-, rfl⟩ := h
    simp only
    omega
  · simp at h
  · simp at h

theorem take_ok {c c' : Cursor} {n : Nat} {bs : Bytes} (h : take n c = .ok bs c') :
    bs ++ c'.rest = c.rest ∧ bs.length = n ∧ c'.position = c.position + n := by
  unfold take at h
  split at h
  · rename_i hs
    obtain ⟨ha, hn⟩ := Bytes.split?_eq_some.1 hs
    simp only [EStateM.Result.ok.injEq] at h
    obtain ⟨rfl, rfl⟩ := h
    exact ⟨ha, hn, rfl⟩
  · simp at h

theorem chunk_ok {c c' : Cursor} {b : Option Bytes} (h : chunk c = .ok b c') :
    c'.rest.length < c.rest.length ∧
      c'.position + c'.rest.length = c.position + c.rest.length := by
  unfold chunk at h
  simp only [bind, EStateM.bind] at h
  split at h
  · rename_i n c₁ hv
    have hv := varint_ok hv
    split at h
    · simp only [pure, EStateM.pure, EStateM.Result.ok.injEq] at h
      obtain ⟨-, rfl⟩ := h
      exact hv
    · simp only [Functor.map, EStateM.map] at h
      split at h
      · rename_i bs c₂ ht
        obtain ⟨ha, hn, hp⟩ := take_ok ht
        simp only [EStateM.Result.ok.injEq] at h
        obtain ⟨-, rfl⟩ := h
        have := congrArg List.length ha
        simp only [List.length_append] at this
        omega
      · simp at h
  · simp at h

/-! ## Passing over a value -/

/-- Reads the chunks of a stream up to its end and drops them. -/
def skipChunks (c : Cursor) : EStateM.Result WireError Cursor Unit :=
  match _h : chunk c with
  | .error e c' => .error e c'
  | .ok none c' => .ok () c'
  | .ok (some _) c' => skipChunks c'
termination_by c.rest.length
decreasing_by exact (chunk_ok _h).1

/-- Moves past a value of the given wire type. -/
def skipValue : WireType → Read Unit
  | .varint => fun c =>
    match varint c with
    | .ok _ c' => .ok () c'
    | .error e c' => .error e c'
  | .len => fun c =>
    match lenPrefixed none 0 c with
    | .ok _ c' => .ok () c'
    | .error e c' => .error e c'
  | .stream => fun c =>
    match streamStart c with
    | .error e c' => .error e c'
    | .ok _ c' =>
      match skipChunks c' with
      | .ok () c'' => .ok () c''
      -- A stream that is cut off is passed over as a whole or not at all.
      | .error e _ => .error e c

/-- Moves past a value of the given wire type and answers the octets it spans. -/
def skip (type : WireType) : Read Bytes := fun c =>
  match skipValue type c with
  | .ok () c' => .ok (c.rest.take (c'.position - c.position)) c'
  | .error e c' => .error e c'

end Cursor

/-- A stream value read chunk by chunk.  A failed read of a chunk leaves the cursor where the
chunk's length was read in full. -/
structure ChunkReader where
  /-- Where the stream value starts. -/
  origin : Nat
  /-- The announced size, if there is one. -/
  declared : Option Nat
  /-- Where the next chunk starts. -/
  cursor : Cursor
  /-- True once the end of the stream has been read. -/
  finished : Bool
  deriving DecidableEq, Repr

namespace ChunkReader

/-- Starts on the stream value at a cursor. -/
def start (c : Cursor) : Except WireError ChunkReader :=
  match Cursor.streamStart c with
  | .ok declared c' => .ok ⟨c.position, declared, c', false⟩
  | .error e _ => .error e

/-- The next chunk, or `none` at the end and ever after. -/
def next (r : ChunkReader) : Except WireError (Option Bytes) × ChunkReader :=
  if r.finished then (.ok none, r)
  else
    match Cursor.chunk r.cursor with
    | .ok (some bs) c => (.ok (some bs), { r with cursor := c })
    | .ok none c => (.ok none, { r with cursor := c, finished := true })
    | .error e c => (.error e, { r with cursor := c })

/-- How many octets of the stream value have been read. -/
def consumed (r : ChunkReader) : Nat := r.cursor.position - r.origin

end ChunkReader

end Storefront
