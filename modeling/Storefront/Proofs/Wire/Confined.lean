import Storefront.Proofs.Wire.Places

/-! # Readers keep to their buffer

Whatever is asked of a reader, and whatever fails on the way, it goes forward and stays in its
buffer.  A call that fails may have read a number before it failed, and then the reader is behind
this number; otherwise it is where it was.

* `Cursor.trace`              calls in a row and what came of them
* `ReadStep.Confined`         what holds of a call
* `Cursor.make_confined`      it holds of every call in the buffer
* `Cursor.trace_confined`     and of calls in a row
* `ReadCall.mirrors_readAt`   no call goes wrong when places are counted in words
* `Cursor.reads_confined`     both together
-/

namespace Storefront

/-- Where the number ends that is ahead of a reader, if there is one. -/
def Cursor.behindNumber? (c : Cursor) : Option Cursor :=
  match Cursor.varint c with
  | .ok _ c' => some c'
  | .error .. => none

/-- What can be asked of a reader. -/
inductive ReadCall where
  | varint
  | take (n : UInt64)
  | lenPrefixed (max : Option UInt64) (tag : UInt32)
  | key
  | skip (type : WireType)
  deriving DecidableEq

/-- What a reader answers. -/
inductive Reading where
  | number (n : Nat)
  | octets (bs : Bytes)
  | key (tag : Nat) (type : WireType)
  deriving DecidableEq

namespace ReadCall

/-- What a call does with a cursor. -/
def read : ReadCall → Read Reading
  | varint => .number <$> Cursor.varint
  | take n => .octets <$> Cursor.take n.toNat
  | lenPrefixed max tag => .octets <$> Cursor.lenPrefixed (max.map UInt64.toNat) tag.toNat
  | key => (fun k => .key k.1 k.2) <$> Cursor.key
  | skip type => .octets <$> Cursor.skip type

/-- What a call does by places. -/
def readAt (buffer : Bytes) : ReadCall → PlaceRead Reading
  | varint => (fun n => .number n.toNat) <$> PlaceRead.varint buffer
  | take n => .octets <$> PlaceRead.take buffer n
  | lenPrefixed max tag => .octets <$> PlaceRead.lenPrefixed buffer max tag
  | key => (fun k => .key k.1.toNat k.2) <$> PlaceRead.key buffer
  | skip type => .octets <$> PlaceRead.skip buffer type

/-- Where the number ends that a call reads before it goes on, if there is one.  Only lengths and
keys are such numbers. -/
def behindNumber? (call : ReadCall) (c : Cursor) : Option Cursor :=
  match call with
  | lenPrefixed .. | key | skip .len => c.behindNumber?
  | _ => none

end ReadCall

/-- A call on a reader, and what came of it. -/
structure ReadStep where
  before : Cursor
  call : ReadCall
  result : Except WireError Reading
  after : Cursor

namespace ReadStep

/-- Where the reader has been in the course of a call. -/
def stops (s : ReadStep) : List Cursor :=
  s.before :: (s.call.behindNumber? s.before).toList ++ [s.after]

/-- A call has kept to a buffer. -/
structure Confined (buffer : Bytes) (s : ReadStep) : Prop where
  /-- The reader has not gone back. -/
  forward : s.before.position ≤ s.after.position
  inside : s.after.position ≤ buffer.length
  /-- What is ahead of the reader is the buffer from its position on. -/
  ahead : s.after.rest = buffer.drop s.after.position
  whole : s.after.position + s.after.remaining = buffer.length
  /-- Octets that are answered are those from a place where the reader has been up to the one where
  it is. -/
  slice : ∀ bs, s.result = .ok (.octets bs) → ∃ c ∈ s.stops, c.position ≤ s.after.position ∧
    bs = (buffer.take s.after.position).drop c.position
  /-- A call that succeeds moves the reader, unless a number of octets was asked for. -/
  advance : ∀ reading, s.result = .ok reading → (∀ n, s.call ≠ .take n) →
    s.before.position < s.after.position
  /-- A call that fails moves the reader behind the number that it has read, if it has. -/
  failure : ∀ e, s.result = .error e → s.after = (s.call.behindNumber? s.before).getD s.before

end ReadStep

namespace Cursor

/-- Makes a call. -/
def make (c : Cursor) (call : ReadCall) : ReadStep :=
  match call.read c with
  | .ok reading c' => ⟨c, call, .ok reading, c'⟩
  | .error e c' => ⟨c, call, .error e, c'⟩

/-- Calls that are made one after the other, whether they succeed or not. -/
def trace (c : Cursor) : List ReadCall → List ReadStep
  | [] => []
  | call :: calls => c.make call :: (c.make call).after.trace calls

end Cursor

/-! ## One call -/

open Grammar (Passes)

namespace Cursor

variable {α β : Type} {c c' : Cursor} {e : WireError}

/-- `map` of a read that succeeds answers what is made of the read's answer. -/
theorem map_ok {f : α → β} {x : Read α} {b : β} (h : (f <$> x) c = .ok b c') :
    ∃ a, x c = .ok a c' ∧ f a = b := by
  simp only [Functor.map, EStateM.map] at h
  split at h
  · rename_i hx
    cases h
    exact ⟨_, hx, rfl⟩
  · cases h

/-- `map` of a read fails as the read does. -/
theorem map_error {f : α → β} {x : Read α} (h : (f <$> x) c = .error e c') : x c = .error e c' := by
  simp only [Functor.map, EStateM.map] at h
  split at h
  · cases h
  · rename_i hx
    cases h
    exact hx

theorem take_error {n : Nat} (h : take n c = .error e c') : c' = c := by
  unfold take at h
  split at h <;> cases h
  rfl

/-- `take` passes over the octets that it answers. -/
theorem passes_take {n : Nat} {bs : Bytes} (h : take n c = .ok bs c') : Passes c bs c' := by
  obtain ⟨hrest, hlength, hposition⟩ := take_ok h
  exact ⟨hrest, hlength ▸ hposition⟩

/-- `check` does not move the cursor. -/
theorem check_error {r : Except WireError Unit} (h : check r c = .error e c') : c' = c := by
  cases r <;> cases h
  rfl

/-- `varint` and then a read that fails in its place leave the cursor `behindNumber?`. -/
theorem number_bind_error {f : Nat → Read α} (hf : ∀ n c c' e, f n c = .error e c' → c' = c)
    (h : (varint >>= f) c = .error e c') : c' = c.behindNumber?.getD c := by
  unfold behindNumber?
  simp only [bind, EStateM.bind] at h
  split at h
  · rename_i hread
    -- The number is read, so what fails comes behind it.
    rw [hread]
    exact hf _ _ _ _ h
  · rename_i hread
    -- There is no number, and the cursor has not moved.
    cases h
    rw [hread]
    exact varint_error hread

/-- `lenPrefixed` fails at its length or behind it. -/
theorem lenPrefixed_error {max : Option Nat} {tag : Nat}
    (h : lenPrefixed max tag c = .error e c') : c' = c.behindNumber?.getD c := by
  refine number_bind_error (fun n c₁ c₂ e' hfail => ?_) h
  simp only [bind, EStateM.bind] at hfail
  -- A length that keeps to the bound is followed by `take`, and any other by nothing.
  split at hfail
  · rename_i hcheck
    exact (take_error hfail).trans (check_ok hcheck).2
  · rename_i hcheck
    cases hfail
    exact check_error hcheck

/-- `key` fails at its number or behind it. -/
theorem key_error (h : key c = .error e c') : c' = c.behindNumber?.getD c := by
  refine number_bind_error (fun n c₁ c₂ e' hfail => ?_) h
  -- Neither an unknown type nor a tag that is too large moves the cursor on.
  cases htype : WireType.ofBits? (n % 8) with
  | none =>
    simp only [htype] at hfail
    cases hfail
    rfl
  | some type =>
    simp only [htype] at hfail
    split at hfail <;> cases hfail
    rfl

/-- `skip` fails where `skipValue` does. -/
theorem skip_error {type : WireType} (h : skip type c = .error e c') :
    skipValue type c = .error e c' := by
  unfold skip at h
  split at h
  · cases h
  · rename_i hskip
    cases h
    exact hskip

/-- `skipValue` of octets that are not there misses them behind their length. -/
theorem skipValue_len_error (h : skipValue .len c = .error e c') :
    c' = c.behindNumber?.getD c := by
  rw [skipValue_len] at h
  exact number_bind_error (fun n c₁ c₂ e' hfail => take_error (map_error hfail)) h

/-- `skipValue` of a number that is not there leaves the cursor where it is. -/
theorem skipValue_varint_error (h : skipValue .varint c = .error e c') : c' = c := by
  rw [skipValue_varint] at h
  exact varint_error (map_error h)

/-- `skipValue` of a stream that breaks off leaves the cursor where it is, since a copy has
read it. -/
theorem skipValue_stream_error (h : skipValue .stream c = .error e c') : c' = c := by
  rw [skipValue_stream] at h
  split at h <;> cases h
  rfl

/-- `lenPrefixed` takes octets from behind their length. -/
theorem lenPrefixed_slice {max : Option Nat} {tag : Nat} {bs : Bytes}
    (h : lenPrefixed max tag c = .ok bs c') :
    ∃ c₁, c.behindNumber? = some c₁ ∧ Passes c₁ bs c' := by
  unfold lenPrefixed at h
  obtain ⟨n, c₁, hread, h⟩ := bind_ok h
  obtain ⟨_, c₂, hcheck, htake⟩ := bind_ok h
  obtain ⟨-, rfl⟩ := check_ok hcheck
  exact ⟨c₂, by rw [behindNumber?, hread], passes_take htake⟩

end Cursor

namespace ReadCall

variable {c c' : Cursor} {call : ReadCall}

/-- `read` of a call that fails leaves the cursor `behindNumber?`, or where it was. -/
theorem read_error {e : WireError} (h : call.read c = .error e c') :
    c' = (call.behindNumber? c).getD c := by
  cases call with
  | varint => exact Cursor.varint_error (Cursor.map_error h)
  | take n => exact Cursor.take_error (Cursor.map_error h)
  | lenPrefixed max tag => exact Cursor.lenPrefixed_error (Cursor.map_error h)
  | key => exact Cursor.key_error (Cursor.map_error h)
  | skip type =>
    -- A skip may fail behind a length, and nowhere else.
    have hskip := Cursor.skip_error (Cursor.map_error h)
    cases type with
    | varint => exact Cursor.skipValue_varint_error hskip
    | len => exact Cursor.skipValue_len_error hskip
    | stream => exact Cursor.skipValue_stream_error hskip

/-- `read` of a call that succeeds `Passes` octets ahead of the cursor. -/
theorem passes_read {reading : Reading} (h : call.read c = .ok reading c') :
    ∃ octets, Passes c octets c' := by
  cases call with
  | varint =>
    obtain ⟨n, hread, -⟩ := Cursor.map_ok h
    obtain ⟨m, -, hpass⟩ := Grammar.number_of_read hread
    exact ⟨_, hpass⟩
  | take n =>
    obtain ⟨bs, hread, -⟩ := Cursor.map_ok h
    exact ⟨bs, Cursor.passes_take hread⟩
  | lenPrefixed max tag =>
    obtain ⟨bs, hread, -⟩ := Cursor.map_ok h
    obtain ⟨size, -, -, hpass⟩ := Grammar.lenPrefixed_of_read hread
    exact ⟨_, hpass⟩
  | key =>
    obtain ⟨⟨tag, type⟩, hread, -⟩ := Cursor.map_ok h
    obtain ⟨n, -, -, hpass⟩ := Grammar.key_of_read hread
    exact ⟨_, hpass⟩
  | skip type =>
    obtain ⟨bs, hread, -⟩ := Cursor.map_ok h
    -- What is skipped is a value of the grammar.
    obtain ⟨v, -, hpass⟩ := Grammar.value_of_skip (Grammar.skip_of_read hread).1
    exact ⟨_, hpass⟩

/-- `read` of a call that succeeds takes one octet at least, unless it is a `take`. -/
theorem read_shorter {reading : Reading} (h : call.read c = .ok reading c')
    (hcall : ∀ n, call ≠ .take n) : c'.rest.length < c.rest.length := by
  cases call with
  | take n => exact absurd rfl (hcall n)
  | varint =>
    obtain ⟨n, hread, -⟩ := Cursor.map_ok h
    exact (Cursor.varint_ok hread).1
  | lenPrefixed max tag =>
    obtain ⟨bs, hread, -⟩ := Cursor.map_ok h
    exact Cursor.lenPrefixed_ok hread
  | key =>
    obtain ⟨k, hread, -⟩ := Cursor.map_ok h
    exact Cursor.key_ok hread
  | skip type =>
    obtain ⟨bs, hread, -⟩ := Cursor.map_ok h
    exact Cursor.skip_ok hread

/-- `read` answers octets that start where the cursor was or `behindNumber?`. -/
theorem read_slice {bs : Bytes} (h : call.read c = .ok (.octets bs) c') :
    ∃ c₁, (c₁ = c ∨ call.behindNumber? c = some c₁) ∧ Passes c₁ bs c' := by
  cases call with
  | varint =>
    obtain ⟨n, -, hreading⟩ := Cursor.map_ok h
    -- Numbers and keys answer no octets.
    cases hreading
  | key =>
    obtain ⟨k, -, hreading⟩ := Cursor.map_ok h
    cases hreading
  | take n =>
    obtain ⟨bs', hread, hreading⟩ := Cursor.map_ok h
    cases hreading
    exact ⟨c, .inl rfl, Cursor.passes_take hread⟩
  | lenPrefixed max tag =>
    obtain ⟨bs', hread, hreading⟩ := Cursor.map_ok h
    cases hreading
    obtain ⟨c₁, hnumber, hpass⟩ := Cursor.lenPrefixed_slice hread
    exact ⟨c₁, .inr hnumber, hpass⟩
  | skip type =>
    obtain ⟨bs', hread, hreading⟩ := Cursor.map_ok h
    cases hreading
    obtain ⟨hskip, hbody⟩ := Grammar.skip_of_read hread
    obtain ⟨v, -, hpass⟩ := Grammar.value_of_skip hskip
    -- The octets that are handed on are those passed over.
    exact ⟨c, .inl rfl, hbody _ hpass ▸ hpass⟩

/-- `behindNumber?` of a call is behind the number ahead of the cursor. -/
theorem number_of_behindNumber? {c₁ : Cursor} (h : call.behindNumber? c = some c₁) :
    c.behindNumber? = some c₁ := by
  cases call with
  | varint => cases h
  | take n => cases h
  | lenPrefixed max tag => exact h
  | key => exact h
  | skip type =>
    cases type with
    | varint => cases h
    | len => exact h
    | stream => cases h

/-- `behindNumber?` of a call `Passes` the octets of that number. -/
theorem passes_behindNumber? {c₁ : Cursor} (h : call.behindNumber? c = some c₁) :
    ∃ octets, Passes c octets c₁ := by
  have hnumber := number_of_behindNumber? h
  unfold Cursor.behindNumber? at hnumber
  split at hnumber
  · rename_i hread
    cases hnumber
    obtain ⟨m, -, hpass⟩ := Grammar.number_of_read hread
    exact ⟨_, hpass⟩
  · cases hnumber

end ReadCall

namespace Cursor

/-- A cursor stands in a buffer when what has been read and what is ahead of it make up the buffer.
-/
def StandsIn (buffer : Bytes) (c : Cursor) : Prop := ∃ octets, Passes (start buffer) octets c

variable {buffer : Bytes} {c c' : Cursor}

/-- `start` has nothing behind it. -/
theorem standsIn_start (buffer : Bytes) : (start buffer).StandsIn buffer := ⟨[], rfl, rfl⟩

/-- A cursor that `Passes` octets still `StandsIn` its buffer. -/
theorem StandsIn.passes {octets : Bytes} (h : c.StandsIn buffer) (hpass : Passes c octets c') :
    c'.StandsIn buffer := by
  obtain ⟨behind, hbehind⟩ := h
  -- What lies behind grows by the octets just passed.
  exact ⟨behind ++ octets, hbehind.append hpass⟩

/-- `position` and `remaining` make up the length of the buffer. -/
theorem StandsIn.length_eq (h : c.StandsIn buffer) :
    c.position + c.remaining = buffer.length := by
  obtain ⟨behind, hpass⟩ := h
  have hlength := congrArg List.length hpass.rest
  have hposition := hpass.position
  simp only [start, List.length_append, Nat.zero_add] at hlength hposition
  rw [hposition, remaining, hlength]

/-- `rest` is the buffer from the position on. -/
theorem StandsIn.rest_eq (h : c.StandsIn buffer) : c.rest = buffer.drop c.position := by
  obtain ⟨behind, hpass⟩ := h
  have hrest : behind ++ c.rest = buffer := hpass.rest
  have hposition : c.position = behind.length := hpass.position.trans (Nat.zero_add _)
  rw [hposition, ← hrest, List.drop_left]

/-- Octets that a cursor `Passes` are those of the buffer between the two positions. -/
theorem StandsIn.slice_eq {bs : Bytes} (h : c.StandsIn buffer) (hpass : Passes c bs c') :
    bs = (buffer.take c'.position).drop c.position := by
  -- The octets up to the second cursor begin with those ahead of the first.
  rw [List.drop_take, ← h.rest_eq, ← hpass.rest, hpass.position, Nat.add_sub_cancel_left,
    List.take_left]

theorem make_of_ok {call : ReadCall} {reading : Reading} (h : call.read c = .ok reading c') :
    c.make call = ⟨c, call, .ok reading, c'⟩ := by
  rw [make, h]

theorem make_of_error {call : ReadCall} {e : WireError} (h : call.read c = .error e c') :
    c.make call = ⟨c, call, .error e, c'⟩ := by
  rw [make, h]

@[simp] theorem make_before (c : Cursor) (call : ReadCall) : (c.make call).before = c := by
  unfold make
  split <;> rfl

@[simp] theorem make_call (c : Cursor) (call : ReadCall) : (c.make call).call = call := by
  unfold make
  split <;> rfl

/-- A step that succeeds is a `read` that does. -/
theorem read_of_make_ok {call : ReadCall} {reading : Reading}
    (h : (c.make call).result = .ok reading) : call.read c = .ok reading (c.make call).after := by
  unfold make at h ⊢
  split at h
  · rename_i hread
    cases h
    rw [hread]
  · cases h

/-- A step that fails is a `read` that does. -/
theorem read_of_make_error {call : ReadCall} {e : WireError}
    (h : (c.make call).result = .error e) : call.read c = .error e (c.make call).after := by
  unfold make at h ⊢
  split at h
  · cases h
  · rename_i hread
    cases h
    rw [hread]

/-- `make` leaves the cursor behind octets that were ahead of it. -/
theorem passes_make (c : Cursor) (call : ReadCall) :
    ∃ octets, Passes c octets (c.make call).after := by
  cases hresult : (c.make call).result with
  | ok reading => exact ReadCall.passes_read (read_of_make_ok hresult)
  | error e =>
    -- A call that fails has passed a number at most.
    rw [ReadCall.read_error (read_of_make_error hresult)]
    cases hnumber : call.behindNumber? c with
    | none => exact ⟨[], rfl, rfl⟩
    | some c₁ => exact ReadCall.passes_behindNumber? hnumber

/-- `make` of every call is `Confined` to the buffer. -/
theorem make_confined (h : c.StandsIn buffer) (call : ReadCall) :
    (c.make call).Confined buffer := by
  obtain ⟨octets, hpass⟩ := c.passes_make call
  -- The call leaves the cursor in the buffer, where both lengths add up to that of the buffer.
  have hafter := h.passes hpass
  have hlength := h.length_eq
  have hlength' := hafter.length_eq
  constructor
  case forward =>
    rw [make_before, hpass.position]
    exact Nat.le_add_right _ _
  case inside => omega
  case ahead => exact hafter.rest_eq
  case whole => exact hlength'
  case slice =>
    intro bs hresult
    obtain ⟨c₁, hstart, hslice⟩ := ReadCall.read_slice (read_of_make_ok hresult)
    have hposition := hslice.position
    refine ⟨c₁, ?_, by omega, ?_⟩
    · simp only [ReadStep.stops, make_before, make_call, List.mem_cons, List.mem_append,
        Option.mem_toList]
      exact .inl hstart
    · -- The slice starts at the cursor, or behind the length that was read.
      have hstands : c₁.StandsIn buffer := by
        rcases hstart with rfl | hnumber
        · exact h
        · obtain ⟨number, hnumber⟩ := ReadCall.passes_behindNumber? hnumber
          exact h.passes hnumber
      exact hstands.slice_eq hslice
  case advance =>
    intro reading hresult hcall
    rw [make_call] at hcall
    -- Less is ahead than before, and the sums are the same.
    have hshorter := ReadCall.read_shorter (read_of_make_ok hresult) hcall
    rw [make_before]
    simp only [remaining] at hlength hlength'
    omega
  case failure =>
    intro e hresult
    rw [make_before, make_call]
    exact ReadCall.read_error (read_of_make_error hresult)

/-! ## Calls in a row -/

/-- So is each step of a `trace`, because the one before leaves the cursor in the buffer. -/
theorem trace_confined (h : c.StandsIn buffer) (calls : List ReadCall) :
    ∀ s ∈ c.trace calls, s.Confined buffer := by
  induction calls generalizing c with
  | nil => exact List.forall_mem_nil _
  | cons call calls ih =>
    -- The next call finds the reader in the buffer, whether this one fails or not.
    obtain ⟨octets, hpass⟩ := c.passes_make call
    exact List.forall_mem_cons.2 ⟨make_confined h call, ih (h.passes hpass)⟩

end Cursor

namespace ReadCall

variable {buffer : Bytes}

/-- What calls in a row come to by places, or nothing if one of them goes wrong. -/
def outcomesAt (buffer : Bytes) (place : USize) :
    List ReadCall → Option (List (Except WireError Reading × USize))
  | [] => some []
  | call :: calls =>
    match call.readAt buffer place with
    | .ok reading place' => (outcomesAt buffer place' calls).map ((.ok reading, place') :: ·)
    | .error (.failed e) place' => (outcomesAt buffer place' calls).map ((.error e, place') :: ·)
    | .error .broken _ => none

/-- `readAt` mirrors `read` for every call. -/
theorem mirrors_readAt (hfits : buffer.length < USize.size) (call : ReadCall) :
    PlaceRead.Mirrors buffer id (call.readAt buffer) call.read := by
  cases call with
  | varint => exact PlaceRead.mirrors_map (PlaceRead.mirrors_varint hfits) fun _ => rfl
  | take n => exact PlaceRead.mirrors_map (PlaceRead.mirrors_take hfits n) fun _ => rfl
  | lenPrefixed max tag =>
    exact PlaceRead.mirrors_map (PlaceRead.mirrors_lenPrefixed hfits max tag) fun _ => rfl
  | key => exact PlaceRead.mirrors_map (PlaceRead.mirrors_key hfits) fun _ => rfl
  | skip type => exact PlaceRead.mirrors_map (PlaceRead.mirrors_skip hfits type) fun _ => rfl

/-- `outcomesAt` answers what `trace` does, with places for cursors. -/
theorem outcomesAt_eq (hfits : buffer.length < USize.size) (calls : List ReadCall)
    {place : USize} (hplace : place.toNat ≤ buffer.length) :
    outcomesAt buffer place calls = some (((PlaceRead.cursorAt buffer place).trace calls).map
      fun s => (s.result, s.after.position.toUSize)) := by
  induction calls generalizing place with
  | nil => rfl
  | cons call calls ih =>
    -- A place is its own position, as a word.
    have hword : ∀ place : USize, (PlaceRead.cursorAt buffer place).position.toUSize = place :=
      fun place => USize.ofNat_toNat
    cases hread : call.readAt buffer place with
    | ok reading place' =>
      obtain ⟨hcursor, hplace'⟩ := (mirrors_readAt hfits call).of_ok hplace hread
      rw [outcomesAt, hread, Cursor.trace, Cursor.make_of_ok hcursor]
      simp only [ih hplace', Option.map_some, List.map_cons, hword, id_eq]
    | error halt place' =>
      -- A failure is that of the cursor, so `broken` is out of the question.
      obtain ⟨e, rfl, hcursor, hplace'⟩ := (mirrors_readAt hfits call).of_error hplace hread
      rw [outcomesAt, hread, Cursor.trace, Cursor.make_of_error hcursor]
      simp only [ih hplace', Option.map_some, List.map_cons, hword]

end ReadCall

open ReadCall in
/-- `trace` makes any calls on `start buffer`, in any order and whether they fail or not, and each
of its steps is `Confined` to the buffer.  `outcomesAt` makes the same calls with places counted in
words: when these can hold the size of the buffer, no sum, difference or slice is `broken`, and the
answers and places are those of `trace`. -/
theorem Cursor.reads_confined (buffer : Bytes) (calls : List ReadCall) :
    (∀ s ∈ (start buffer).trace calls, s.Confined buffer) ∧
      (buffer.length < USize.size → outcomesAt buffer 0 calls =
        some (((start buffer).trace calls).map fun s => (s.result, s.after.position.toUSize))) := by
  refine ⟨trace_confined (standsIn_start buffer) calls, fun hfits => ?_⟩
  have hstart : PlaceRead.cursorAt buffer 0 = start buffer := rfl
  rw [← hstart]
  exact outcomesAt_eq hfits calls (Nat.zero_le _)

namespace ReadCall

/-- A field of three octets, a length of five with one octet behind it, and no more. -/
def cutOff : Bytes := [0x0A, 3, 0x61, 0x62, 0x63, 5, 0xC8]

/-- The field is read, and then nothing is to be had. -/
def cutOffCalls : List ReadCall :=
  [.key, .skip .len, .skip .stream, .lenPrefixed none 1, .take 2, .varint]

end ReadCall

open ReadCall in
/-- `outcomesAt` where a length is read and the octets are missed, and where a stream is broken. -/
theorem Cursor.reads_confined_cutOff :
    cutOff.length < USize.size ∧ (∀ s ∈ (start cutOff).trace cutOffCalls, s.Confined cutOff) ∧
      outcomesAt cutOff 0 cutOffCalls = some [(.ok (.key 1 .len), 1),
        (.ok (.octets [3, 0x61, 0x62, 0x63]), 5), (.error (.truncated 1 0), 5),
        (.error (.truncated 5 1), 6), (.error (.truncated 2 1), 6),
        (.error (.truncated 1 0), 6)] := by
  have hfits : cutOff.length < USize.size := Nat.lt_of_lt_of_le (by decide) USize.le_size
  have htrace : ((start cutOff).trace cutOffCalls).map (fun s => (s.result, s.after.position)) =
      [(.ok (.key 1 .len), 1), (.ok (.octets [3, 0x61, 0x62, 0x63]), 5),
        (.error (.truncated 1 0), 5), (.error (.truncated 5 1), 6), (.error (.truncated 2 1), 6),
        (.error (.truncated 1 0), 6)] := by
    decide +kernel
  obtain ⟨hconfined, hwords⟩ := reads_confined cutOff cutOffCalls
  refine ⟨hfits, hconfined, (hwords hfits).trans ?_⟩
  have hmap := congrArg (List.map (Prod.map id Nat.toUSize)) htrace
  rw [List.map_map] at hmap
  exact congrArg some hmap

end Storefront
