import Storefront.Proofs.Wire.Grammar
import Storefront.Proofs.Wire.Positional

/-! # Reading by places

A reader can hold on to the whole of its buffer and remember in a machine word the place that it has
come to.  Then a sum or a difference of places may be one that no word holds, and a slice may be one
that the buffer does not have.  Reads by places check every such step and break where one of them
goes wrong.

None ever does: a read by places comes to what the read with a cursor comes to (`Mirrors`).

* `mirrors_bind`                               one read after the other
* `mirrors_varint`, `mirrors_take`             the reads that all others are made of
* `mirrors_lenPrefixed`, `mirrors_key`, `mirrors_skip`
-/

namespace Storefront

/-- Why a read by places stops. -/
inductive Halt where
  | failed (e : WireError)
  /-- A sum or a difference that no word holds, or a slice that the buffer does not have. -/
  | broken
  deriving DecidableEq

/-- A read by places.  Its state is the place that it has come to. -/
abbrev PlaceRead (α : Type) : Type := EStateM Halt USize α

namespace PlaceRead

/-! ## Checked steps -/

/-- The sum of two words, if a word holds it. -/
def sum? (a b : USize) : Option USize :=
  if a.toNat + b.toNat < USize.size then some (a + b) else none

/-- The difference of two words, if there is one. -/
def difference? (a b : USize) : Option USize := if b ≤ a then some (a - b) else none

/-- The octets of a buffer from one place up to another, if it has them. -/
def slice? (buffer : Bytes) (start stop : USize) : Option Bytes :=
  if start ≤ stop ∧ stop.toNat ≤ buffer.length then
    some ((buffer.take stop.toNat).drop start.toNat)
  else none

/-- The place behind a buffer. -/
def ending (buffer : Bytes) : USize := buffer.length.toUSize

section

variable {buffer : Bytes} {a b start stop : USize}

theorem toNat_toUSize {n : Nat} (h : n < USize.size) : n.toUSize.toNat = n :=
  USize.toNat_ofNat_of_lt' h

/-- A sum that `sum?` answers is the sum of the numbers. -/
theorem sum?_eq_some {c : USize} (h : sum? a b = some c) : c.toNat = a.toNat + b.toNat := by
  unfold sum? at h
  split at h
  · rename_i hlt
    rw [← Option.some.inj h, USize.toNat_add, Nat.mod_eq_of_lt hlt]
  · cases h

/-- `sum?` answers when the sum is less than `USize.size`. -/
theorem exists_sum? (h : a.toNat + b.toNat < USize.size) :
    ∃ c, sum? a b = some c ∧ c.toNat = a.toNat + b.toNat :=
  ⟨a + b, if_pos h, sum?_eq_some (if_pos h)⟩

/-- `difference?` answers when nothing larger is taken away. -/
theorem exists_difference? (h : b.toNat ≤ a.toNat) :
    ∃ c, difference? a b = some c ∧ c.toNat = a.toNat - b.toNat :=
  ⟨a - b, if_pos (USize.le_iff_toNat_le.2 h), USize.toNat_sub_of_le a b (USize.le_iff_toNat_le.2 h)⟩

/-- `slice?` answers for places in order and within the buffer only. -/
theorem slice?_eq_some {bs : Bytes} (h : slice? buffer start stop = some bs) :
    start.toNat ≤ stop.toNat ∧ stop.toNat ≤ buffer.length ∧
      bs = (buffer.take stop.toNat).drop start.toNat := by
  unfold slice? at h
  split at h
  · rename_i hplaces
    exact ⟨USize.le_iff_toNat_le.1 hplaces.1, hplaces.2, (Option.some.inj h).symm⟩
  · cases h

theorem slice?_of_le (hle : start.toNat ≤ stop.toNat) (hstop : stop.toNat ≤ buffer.length) :
    slice? buffer start stop = some ((buffer.take stop.toNat).drop start.toNat) :=
  if_pos ⟨USize.le_iff_toNat_le.2 hle, hstop⟩

end

/-! ## Reads -/

section

variable (buffer : Bytes)

/-- Reads a number, in words of 64 bits. -/
def varint : PlaceRead UInt64 := fun place =>
  match slice? buffer place (ending buffer) with
  | none => .error .broken place
  | some octets =>
    match Varint.gather 0 0 octets with
    | .error .unfinished => .error (.failed (.truncated 1 0)) place
    | .error .overflow => .error (.failed .varintOverflow) place
    | .ok (n, used, _) =>
      match sum? place used.toUSize with
      | none => .error .broken place
      | some place' => .ok n place'

/-- Reads so many octets.  Lengths have 64 bits whatever the width of a place. -/
def take (n : UInt64) : PlaceRead Bytes := fun place =>
  match difference? (ending buffer) place with
  | none => .error .broken place
  | some available =>
    if available.toUInt64 < n then .error (.failed (.truncated n.toNat available.toNat)) place
    else
      match sum? place n.toUSize with
      | none => .error .broken place
      | some place' =>
        match slice? buffer place place' with
        | none => .error .broken place'
        | some bs => .ok bs place'

/-- Passes over a check. -/
def check (result : Except WireError Unit) : PlaceRead Unit := fun place =>
  match result with
  | .ok () => .ok () place
  | .error e => .error (.failed e) place

/-- Reads a length and that many octets. -/
def lenPrefixed (max : Option UInt64) (tag : UInt32) : PlaceRead Bytes := do
  let n ← varint buffer
  check (checkBound tag.toNat n.toNat (max.map UInt64.toNat))
  take buffer n

/-- Reads a field key.  The three lowest bits are those of the type. -/
def key : PlaceRead (UInt32 × WireType) := do
  let n ← varint buffer
  match WireType.ofBits? (n &&& 7).toNat with
  | none => throw (.failed (.unknownWireType (n &&& 7).toNat))
  | some type =>
    if maxTag < (n >>> 3).toNat then throw (.failed (.tagOutOfRange 0xFFFFFFFF))
    else pure ((n >>> 3).toUInt32, type)

/-- Reads one chunk of a stream, or nothing at its end. -/
def chunk : PlaceRead (Option Bytes) := do
  let n ← varint buffer
  if n = 0 then pure none else some <$> take buffer n

end

/-! ## How far a read by places moves -/

section

variable {buffer : Bytes} {place place' : USize}

/-- `Varint.gather` uses up an octet at least, and no more than it was given. -/
theorem gather_length {octets rest : Bytes} {n : UInt64} {used : Nat}
    (h : Varint.gather 0 0 octets = .ok (n, used, rest)) : 0 < used ∧ used ≤ octets.length := by
  -- The loop over words answers what `decode` answers.
  rw [Varint.gather_eq_decode] at h
  cases hdecode : Varint.decode octets with
  | error fault =>
    rw [hdecode] at h
    cases h
  | ok read =>
    rw [hdecode] at h
    cases h
    obtain ⟨hlength, hpos⟩ := Varint.decode_length hdecode
    exact ⟨hpos, Nat.le.intro hlength⟩

/-- `varint` moves on, and stays in the buffer. -/
theorem varint_ok {n : UInt64} (h : varint buffer place = .ok n place') :
    place.toNat < place'.toNat ∧ place'.toNat ≤ buffer.length := by
  unfold varint at h
  split at h
  · cases h
  · rename_i octets hslice
    split at h
    · cases h
    · cases h
    · rename_i n' used rest hgather
      split at h
      · cases h
      · rename_i place₁ hsum
        cases h
        obtain ⟨hle, hending, rfl⟩ := slice?_eq_some hslice
        -- What is used up lies in the slice, so the sum stays in the buffer.
        obtain ⟨hpos, hlength⟩ := gather_length hgather
        rw [List.length_drop, List.length_take] at hlength
        have hplace := sum?_eq_some hsum
        have hword := (ending buffer).toNat_lt_size
        -- `used` is at most as long as the slice, which a word measures.
        rw [toNat_toUSize (by omega)] at hplace
        omega

/-- `take` does not move back, and stays in the buffer. -/
theorem take_ok {n : UInt64} {bs : Bytes} (h : take buffer n place = .ok bs place') :
    place.toNat ≤ place'.toNat ∧ place'.toNat ≤ buffer.length := by
  unfold take at h
  split at h
  · cases h
  · split at h
    · cases h
    · split at h
      · cases h
      · split at h
        · cases h
        · -- Only a slice from `place` to `place'` is answered.
          rename_i hslice
          cases h
          obtain ⟨hle, hstop, -⟩ := slice?_eq_some hslice
          exact ⟨hle, hstop⟩

/-- `chunk` moves on by its length at least, which is why `skipChunks` ends. -/
theorem chunk_ok {b : Option Bytes} (h : chunk buffer place = .ok b place') :
    place.toNat < place'.toNat ∧ place'.toNat ≤ buffer.length := by
  unfold chunk at h
  simp only [bind, EStateM.bind] at h
  split at h
  · rename_i n place₁ hsize
    have hsize := varint_ok hsize
    split at h
    · cases h
      -- The end of the stream, which is a number and nothing else.
      exact hsize
    · simp only [Functor.map, EStateM.map] at h
      split at h
      · rename_i htake
        cases h
        -- The octets of the chunk follow its number.
        have htake := take_ok htake
        omega
      · cases h
  · cases h

end

section

variable (buffer : Bytes)

/-- Reads the chunks of a stream up to its end and drops them. -/
def skipChunks (place : USize) : EStateM.Result Halt USize Unit :=
  match _h : chunk buffer place with
  | .error e place' => .error e place'
  | .ok none place' => .ok () place'
  | .ok (some _) place' => skipChunks place'
termination_by buffer.length - place.toNat
decreasing_by
  have := chunk_ok _h
  omega

/-- Moves past a value of the given wire type. -/
def skipValue : WireType → PlaceRead Unit
  | .varint => (fun _ => ()) <$> varint buffer
  | .len => do
    let n ← varint buffer
    (fun _ => ()) <$> take buffer n
  | .stream => fun place =>
    -- The stream is read by a copy of the reader, which is given up should that fail.
    match (varint buffer >>= fun _ => skipChunks buffer) place with
    | .error e _ => .error e place
    | .ok () copy =>
      match (difference? copy place).bind (sum? place) with
      | none => .error .broken place
      | some place' => .ok () place'

/-- Moves past a value of the given wire type and answers the octets it spans. -/
def skip (type : WireType) : PlaceRead Bytes := fun start =>
  match skipValue buffer type start with
  | .error e place => .error e place
  | .ok () place =>
    match slice? buffer start place with
    | none => .error .broken place
    | some bs => .ok bs place

end

/-! ## What a cursor comes to -/

/-- The cursor at a place of a buffer. -/
def cursorAt (buffer : Bytes) (place : USize) : Cursor := ⟨place.toNat, buffer.drop place.toNat⟩

/-- A read by places and one with a cursor have come to the same: a value, of which the cursor's is
a view, or the same failure, and to the same place in the buffer. -/
inductive Same {α β : Type} (buffer : Bytes) (view : α → β) :
    EStateM.Result Halt USize α → EStateM.Result WireError Cursor β → Prop
  | ok {a : α} {b : β} {place : USize} (hb : view a = b) (h : place.toNat ≤ buffer.length) :
    Same buffer view (.ok a place) (.ok b (cursorAt buffer place))
  | failed {e : WireError} {place : USize} (h : place.toNat ≤ buffer.length) :
    Same buffer view (.error (.failed e) place) (.error e (cursorAt buffer place))

/-- From every place in its buffer, a read by places comes to what one with a cursor comes to. -/
def Mirrors {α β : Type} (buffer : Bytes) (view : α → β) (x : PlaceRead α) (y : Read β) : Prop :=
  ∀ place : USize, place.toNat ≤ buffer.length →
    Same buffer view (x place) (y (cursorAt buffer place))

section

variable {α β γ δ : Type} {buffer : Bytes}

/-- `Mirrors` where the read by places succeeds: the cursor reads the same and stands at the
same place. -/
theorem Mirrors.of_ok {view : α → β} {x : PlaceRead α} {y : Read β} (h : Mirrors buffer view x y)
    {place place' : USize} (hplace : place.toNat ≤ buffer.length) {a : α}
    (hx : x place = .ok a place') :
    y (cursorAt buffer place) = .ok (view a) (cursorAt buffer place') ∧
      place'.toNat ≤ buffer.length := by
  have hsame := h place hplace
  rw [hx] at hsame
  -- `Same` fixes what the cursor answers once its result is a variable.
  generalize y (cursorAt buffer place) = result at hsame ⊢
  cases hsame with
  | ok hb hplace' => exact ⟨by rw [hb], hplace'⟩

/-- Where the read by places fails, it is not `broken`, and the cursor fails alike. -/
theorem Mirrors.of_error {view : α → β} {x : PlaceRead α} {y : Read β}
    (h : Mirrors buffer view x y) {place place' : USize} (hplace : place.toNat ≤ buffer.length)
    {halt : Halt} (hx : x place = .error halt place') :
    ∃ e, halt = .failed e ∧ y (cursorAt buffer place) = .error e (cursorAt buffer place') ∧
      place'.toNat ≤ buffer.length := by
  have hsame := h place hplace
  rw [hx] at hsame
  generalize y (cursorAt buffer place) = result at hsame ⊢
  cases hsame with
  | failed hplace' => exact ⟨_, rfl, rfl, hplace'⟩

theorem mirrors_pure {view : α → β} (a : α) : Mirrors buffer view (pure a) (pure (view a)) :=
  fun _ hplace => .ok rfl hplace

theorem mirrors_throw {view : α → β} (e : WireError) :
    Mirrors buffer view (throw (.failed e)) (throw e) := fun _ hplace => .failed hplace

/-- `Mirrors` of two reads is `Mirrors` of one after the other. -/
theorem mirrors_bind {view : α → β} {view' : γ → δ} {x : PlaceRead α} {y : Read β}
    {f : α → PlaceRead γ} {g : β → Read δ} (hx : Mirrors buffer view x y)
    (hf : ∀ a, Mirrors buffer view' (f a) (g (view a))) :
    Mirrors buffer view' (x >>= f) (y >>= g) := by
  intro place hplace
  have hfirst := hx place hplace
  show Same buffer view' (EStateM.bind x f place) (EStateM.bind y g (cursorAt buffer place))
  unfold EStateM.bind
  generalize x place = result at hfirst
  generalize y (cursorAt buffer place) = result' at hfirst
  cases hfirst with
  | ok hb h =>
    -- The second reads start at the place that the first have come to.
    subst hb
    exact hf _ _ h
  | failed h => exact .failed h

/-- `Mirrors` under `map`: what is made of the answer may differ by the view. -/
theorem mirrors_map {view : α → β} {view' : γ → δ} {x : PlaceRead α} {y : Read β} {f : α → γ}
    {g : β → δ} (hx : Mirrors buffer view x y) (hf : ∀ a, view' (f a) = g (view a)) :
    Mirrors buffer view' (f <$> x) (g <$> y) := by
  intro place hplace
  have hfirst := hx place hplace
  show Same buffer view' (EStateM.map f x place) (EStateM.map g y (cursorAt buffer place))
  unfold EStateM.map
  generalize x place = result at hfirst
  generalize y (cursorAt buffer place) = result' at hfirst
  cases hfirst with
  | ok hb h =>
    subst hb
    exact .ok (hf _) h
  | failed h => exact .failed h

/-- `check` moves neither reader. -/
theorem mirrors_check (result : Except WireError Unit) :
    Mirrors buffer id (check result) (Cursor.check result) := by
  intro place hplace
  cases result with
  | ok u => exact .ok rfl hplace
  | error e => exact .failed hplace

/-- `cursorAt` the place behind some octets is the cursor that has taken them. -/
theorem cursorAt_add {place place' : USize} {bs rest : Bytes}
    (h : bs ++ rest = buffer.drop place.toNat) (hplace : place'.toNat = place.toNat + bs.length) :
    cursorAt buffer place' = ⟨place.toNat + bs.length, rest⟩ := by
  rw [cursorAt, hplace, ← List.drop_drop, ← h, List.drop_left]

end

section

variable {buffer : Bytes} (hfits : buffer.length < USize.size)
include hfits

/-- `varint`: the place behind the number is one that a word holds, because the buffer holds it. -/
theorem mirrors_varint : Mirrors buffer UInt64.toNat (varint buffer) Cursor.varint := by
  intro place hplace
  have hending : (ending buffer).toNat = buffer.length := toNat_toUSize hfits
  -- The slice up to the end is all that a cursor has ahead of it.
  have hslice : slice? buffer place (ending buffer) = some (buffer.drop place.toNat) := by
    rw [slice?_of_le (hending ▸ hplace) (Nat.le_of_eq hending), hending, List.take_length]
  unfold varint Cursor.varint
  simp only [hslice, Varint.gather_eq_decode, cursorAt]
  cases hdecode : Varint.decode (buffer.drop place.toNat) with
  | error fault => cases fault <;> exact .failed hplace
  | ok read =>
    obtain ⟨n, used, rest⟩ := read
    obtain ⟨octets, happ, rfl, hspells⟩ := Varint.decode_eq_ok.1 hdecode
    -- The number ends in the buffer, and so does its place.
    have hroom : place.toNat + octets.length ≤ buffer.length := by
      have hlength := congrArg List.length happ
      rw [List.length_append, List.length_drop] at hlength
      omega
    have hused : octets.length.toUSize.toNat = octets.length := toNat_toUSize (by omega)
    obtain ⟨place', hsum, hplace'⟩ :=
      exists_sum? (a := place) (b := octets.length.toUSize) (by omega)
    rw [hused] at hplace'
    have hvalue : n.toUInt64.toNat = n := UInt64.toNat_ofNat_of_lt' hspells.fits
    simp only [Except.map, hsum]
    rw [← cursorAt_add happ hplace']
    exact .ok hvalue (hplace' ▸ hroom)

/-- `take`: a length is compared before it is added to the place, so the sum is within
the buffer. -/
theorem mirrors_take (n : UInt64) : Mirrors buffer id (take buffer n) (Cursor.take n.toNat) := by
  intro place hplace
  have hending : (ending buffer).toNat = buffer.length := toNat_toUSize hfits
  obtain ⟨available, hdifference, havailable⟩ :=
    exists_difference? (a := ending buffer) (b := place) (hending ▸ hplace)
  rw [hending] at havailable
  -- Both readers compare the length with the same number of octets.
  have hremaining : (buffer.drop place.toNat).length = available.toNat := by
    rw [List.length_drop, havailable]
  have hshort : available.toUInt64 < n ↔ available.toNat < n.toNat := by
    rw [UInt64.lt_iff_toNat_lt, USize.toNat_toUInt64]
  unfold take Cursor.take
  simp only [hdifference, cursorAt, Cursor.remaining]
  cases hsplit : Bytes.split? (buffer.drop place.toNat) n.toNat with
  | none =>
    rw [Bytes.split?_eq_none, hremaining] at hsplit
    rw [if_pos (hshort.2 hsplit), hremaining]
    exact .failed hplace
  | some read =>
    obtain ⟨bs, rest⟩ := read
    obtain ⟨happ, hlength⟩ := Bytes.split?_eq_some.1 hsplit
    -- The octets are there, so the new place is within the buffer.
    have hroom : place.toNat + n.toNat ≤ buffer.length := by
      have hwhole := congrArg List.length happ
      rw [List.length_append, hlength, List.length_drop] at hwhole
      omega
    have hn : n.toUSize.toNat = n.toNat := toNat_toUSize (by omega)
    obtain ⟨place', hsum, hplace'⟩ := exists_sum? (a := place) (b := n.toUSize) (by omega)
    rw [hn] at hplace'
    -- Between the two places stand the octets that the cursor takes.
    have hslice : slice? buffer place place' = some bs := by
      rw [slice?_of_le (by omega) (by omega), List.drop_take, ← happ, hplace',
        Nat.add_sub_cancel_left, ← hlength, List.take_left]
    rw [if_neg (by rw [hshort]; omega)]
    simp only [hsum, hslice]
    rw [← hlength, ← cursorAt_add happ (hlength ▸ hplace')]
    exact .ok rfl (hplace' ▸ hroom)

/-- `lenPrefixed` is a number, a check of it and a `take`. -/
theorem mirrors_lenPrefixed (max : Option UInt64) (tag : UInt32) :
    Mirrors buffer id (lenPrefixed buffer max tag)
      (Cursor.lenPrefixed (max.map UInt64.toNat) tag.toNat) :=
  mirrors_bind (mirrors_varint hfits) fun n =>
    mirrors_bind (mirrors_check _) fun _ => mirrors_take hfits n

/-- `key`: shifts and masks of a word are quotients and remainders, and a tag fits 32 bits. -/
theorem mirrors_key :
    Mirrors buffer (Prod.map UInt32.toNat id) (key buffer) Cursor.key := by
  refine mirrors_bind (mirrors_varint hfits) fun n => ?_
  -- The low three bits are the remainder by eight, and the others the quotient.
  have hbits : (n &&& 7).toNat = n.toNat % 8 := by
    rw [UInt64.toNat_and]
    exact Nat.and_two_pow_sub_one_eq_mod n.toNat 3
  have htag : (n >>> 3).toNat = n.toNat / 8 := by
    rw [UInt64.toNat_shiftRight]
    exact Nat.shiftRight_eq_div_pow n.toNat 3
  simp only [hbits, htag]
  cases WireType.ofBits? (n.toNat % 8) with
  | none => exact mirrors_throw _
  | some type =>
    by_cases hlarge : maxTag < n.toNat / 8
    · simp only [hlarge, if_true]
      exact mirrors_throw _
    · simp only [hlarge, if_false]
      -- A tag that is not too large fits its word.
      have hfit : (n >>> 3).toUInt32.toNat = n.toNat / 8 := by
        rw [UInt64.toNat_toUInt32, htag, Nat.mod_eq_of_lt]
        simp only [maxTag] at hlarge
        omega
      intro place hplace
      exact .ok (by rw [Prod.map_apply, hfit, id_eq]) hplace

/-- `chunk` is a number and, unless that is zero, a `take`. -/
theorem mirrors_chunk : Mirrors buffer id (chunk buffer) Cursor.chunk := by
  refine mirrors_bind (mirrors_varint hfits) fun n => ?_
  have hzero : n = 0 ↔ n.toNat = 0 := UInt64.toNat_inj.symm
  simp only [hzero]
  split
  · exact mirrors_pure none
  · exact mirrors_map (mirrors_take hfits n) fun _ => rfl

/-- `skipChunks` takes the same chunks on both sides. -/
theorem mirrors_skipChunks : Mirrors buffer id (skipChunks buffer) Cursor.skipChunks := by
  intro place hplace
  -- By induction on the chunks, each of which both readers take alike.
  fun_induction skipChunks buffer place with
  | case1 place halt place' hchunk =>
    obtain ⟨e, rfl, hcursor, hplace'⟩ := (mirrors_chunk hfits).of_error hplace hchunk
    rw [Cursor.skipChunks_of_error hcursor]
    exact .failed hplace'
  | case2 place place' hchunk =>
    obtain ⟨hcursor, hplace'⟩ := (mirrors_chunk hfits).of_ok hplace hchunk
    rw [Cursor.skipChunks_of_none hcursor]
    exact .ok rfl hplace'
  | case3 place bs place' hchunk ih =>
    obtain ⟨hcursor, hplace'⟩ := (mirrors_chunk hfits).of_ok hplace hchunk
    rw [Cursor.skipChunks_of_some hcursor]
    exact ih hplace'

end

/-! ## Passing over a value -/

end PlaceRead

namespace Cursor

/-- `Cursor.varint` leaves the cursor where it is when it fails. -/
theorem varint_error {c c' : Cursor} {e : WireError} (h : varint c = .error e c') : c' = c := by
  unfold varint at h
  split at h <;> cases h <;> rfl

/-- `skipValue` passes over a number by reading it. -/
theorem skipValue_varint : skipValue .varint = (fun _ => ()) <$> varint := by
  funext c
  simp only [skipValue, Functor.map, EStateM.map]
  cases varint c <;> rfl

/-- `skipValue` passes over a length and its octets without a bound. -/
theorem skipValue_len : skipValue .len = (varint >>= fun n => (fun _ => ()) <$> take n) := by
  funext c
  simp only [skipValue, lenPrefixed, checkBound_none, check, bind, EStateM.bind, Functor.map,
    EStateM.map]
  cases varint c with
  | error e c' => rfl
  | ok n c' =>
    dsimp only
    cases take n c' <;> rfl

/-- `skipValue` passes over a stream with a copy, and stays where it is should that fail. -/
theorem skipValue_stream (c : Cursor) :
    skipValue .stream c =
      match (varint >>= fun _ => skipChunks) c with
      | .ok () c' => EStateM.Result.ok () c'
      | .error e _ => EStateM.Result.error e c := by
  simp only [skipValue, streamStart, bind, EStateM.bind, pure, EStateM.pure]
  cases hread : varint c with
  | error e c' =>
    obtain rfl := varint_error hread
    rfl
  | ok n c' => rfl

end Cursor

namespace PlaceRead

/-- `difference?` of a copy's place, added by `sum?` to the place of the reader, is the place of
the copy. -/
theorem add_difference {place copy : USize} (hle : place.toNat ≤ copy.toNat) :
    (difference? copy place).bind (sum? place) = some copy := by
  obtain ⟨n, hdifference, hn⟩ := exists_difference? hle
  -- The sum is the place of the copy, which is a word already.
  have hcopy := copy.toNat_lt_size
  obtain ⟨place', hsum, hplace'⟩ := exists_sum? (a := place) (b := n) (by omega)
  obtain rfl : place' = copy := USize.toNat_inj.1 (by omega)
  rw [hdifference, Option.bind_some, hsum]

section

variable {buffer : Bytes}

/-- `cursorAt` with less ahead is farther on. -/
theorem le_of_cursorAt {place place' : USize} (hplace' : place'.toNat ≤ buffer.length)
    (h : (cursorAt buffer place').rest.length < (cursorAt buffer place).rest.length) :
    place.toNat ≤ place'.toNat := by
  simp only [cursorAt, List.length_drop] at h
  omega

variable (hfits : buffer.length < USize.size)
include hfits

/-- `skipValue` of a stream `Mirrors` that of a cursor: the place of the copy is added to the place
of the reader, which gives the place of the copy. -/
theorem mirrors_skipStream :
    Mirrors buffer id (skipValue buffer .stream) (Cursor.skipValue .stream) := by
  -- Up to the end of the stream the copy is read like any other reader.
  have hcopy : Mirrors buffer id (varint buffer >>= fun _ => skipChunks buffer)
      (Cursor.varint >>= fun _ => Cursor.skipChunks) :=
    mirrors_bind (mirrors_varint hfits) fun _ => mirrors_skipChunks hfits
  intro place hplace
  rw [Cursor.skipValue_stream]
  cases hread : (varint buffer >>= fun _ => skipChunks buffer) place with
  | error halt copy =>
    obtain ⟨e, rfl, hcursor, -⟩ := hcopy.of_error hplace hread
    simp only [skipValue, hread, hcursor]
    exact .failed hplace
  | ok u copy =>
    obtain ⟨hcursor, hinside⟩ := hcopy.of_ok hplace hread
    -- The copy has gone on from where it was made.
    have hle : place.toNat ≤ copy.toNat := by
      obtain ⟨n, c, hstart, hchunks⟩ := Cursor.bind_ok hcursor
      exact le_of_cursorAt hinside
        (Nat.lt_trans (Cursor.skipChunks_ok hchunks) (Cursor.varint_ok hstart).1)
    simp only [skipValue, hread, hcursor, add_difference hle]
    exact .ok rfl hinside

/-- `skipValue`, for each of the wire types. -/
theorem mirrors_skipValue (type : WireType) :
    Mirrors buffer id (skipValue buffer type) (Cursor.skipValue type) := by
  cases type with
  | varint =>
    rw [Cursor.skipValue_varint]
    exact mirrors_map (mirrors_varint hfits) fun _ => rfl
  | len =>
    rw [Cursor.skipValue_len]
    exact mirrors_bind (mirrors_varint hfits) fun n =>
      mirrors_map (mirrors_take hfits n) fun _ => rfl
  | stream => exact mirrors_skipStream hfits

/-- `skip`: the slice from the first place to the second is there, because `skipValue` does not
move back. -/
theorem mirrors_skip (type : WireType) :
    Mirrors buffer id (skip buffer type) (Cursor.skip type) := by
  intro place hplace
  unfold skip Cursor.skip
  cases hread : skipValue buffer type place with
  | error halt place' =>
    obtain ⟨e, rfl, hcursor, hplace'⟩ := (mirrors_skipValue hfits type).of_error hplace hread
    simp only [hcursor]
    exact .failed hplace'
  | ok u place' =>
    obtain ⟨hcursor, hplace'⟩ := (mirrors_skipValue hfits type).of_ok hplace hread
    -- Passing over a value leaves less ahead, so the places are in order.
    have hle := le_of_cursorAt hplace' (Cursor.skipValue_ok hcursor)
    simp only [hcursor, slice?_of_le hle hplace', List.drop_take]
    exact .ok rfl hplace'

end

end PlaceRead

end Storefront
