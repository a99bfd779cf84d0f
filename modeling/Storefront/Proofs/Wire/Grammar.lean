import Storefront.Proofs.Wire.Groups
import Storefront.Wire.Index

/-! # What the octets of a field are made of

The syntax of fields, apart from any reader: a field is a key and a value, and a value is a number,
octets behind their length, or a stream of chunks.  A tree of this syntax (`Grammar.Field`) holds
every number as it is spelled, so it stands for its octets alone, and cannot be built unless the
lengths count what follows them, no chunk is empty and the tag fits a key.

The reader finds the trees and nothing else:

* `takes_field`        the octets of a field whose lengths keep to the bound are read as that field
* `field_of_read`      what is read are the octets of such a field
* `Field.unique`       octets begin with one field at most
-/

namespace Storefront

/-! ## Reads one after the other -/

namespace Cursor

/-- `>>=` behind a read that succeeds goes on with its value. -/
theorem bind_of_ok {α β : Type} {x : Read α} {f : α → Read β} {a : α} {c c' : Cursor}
    (h : x c = .ok a c') : (x >>= f) c = f a c' := by
  simp only [bind, EStateM.bind, h]

/-- The read takes these octets for `a`, wherever they stand and whatever follows them. -/
def Takes {α : Type} (x : Read α) (octets : Bytes) (a : α) : Prop :=
  ∀ p rest, x ⟨p, octets ++ rest⟩ = .ok a ⟨p + octets.length, rest⟩

/-- `Takes` of two reads is `Takes` of one after the other. -/
theorem takes_bind {α β : Type} {x : Read α} {f : α → Read β} {octets octets' : Bytes} {a : α}
    {b : β} (hx : Takes x octets a) (hf : Takes (f a) octets' b) :
    Takes (x >>= f) (octets ++ octets') b := by
  intro p rest
  rw [List.append_assoc, bind_of_ok (hx p _), hf, List.length_append, Nat.add_assoc]

theorem take_append (bs : Bytes) (p : Nat) (rest : Bytes) :
    take bs.length ⟨p, bs ++ rest⟩ = .ok bs ⟨p + bs.length, rest⟩ := by
  simp only [take, Bytes.split?_append]

/-- `check` that holds moves nothing. -/
theorem check_of_ok {r : Except WireError Unit} (h : r = .ok ()) (c : Cursor) :
    check r c = .ok () c := by
  subst h
  rfl

/-- `skipChunks` ends at a chunk that is none. -/
theorem skipChunks_of_none {c c' : Cursor} (h : chunk c = .ok none c') :
    skipChunks c = .ok () c' := by
  rw [skipChunks]
  split <;> simp_all

/-- `skipChunks` goes on behind a chunk. -/
theorem skipChunks_of_some {c c' : Cursor} {bs : Bytes} (h : chunk c = .ok (some bs) c') :
    skipChunks c = skipChunks c' := by
  rw [skipChunks]
  split <;> simp_all

/-- `skipChunks` fails where a chunk does. -/
theorem skipChunks_of_error {c c' : Cursor} {e : WireError} (h : chunk c = .error e c') :
    skipChunks c = .error e c' := by
  rw [skipChunks]
  split <;> simp_all

end Cursor

namespace Grammar

/-! ## Trees -/

/-- A number as it is spelled. -/
structure Number where
  octets : Bytes
  value : Nat
  spelled : Varint.Spells octets value

/-- A chunk of a stream. -/
structure Chunk where
  size : Number
  body : Bytes
  counted : size.value = body.length
  nonempty : body ≠ []

/-- A value behind its key. -/
inductive Value where
  | number (n : Number)
  | octets (size : Number) (body : Bytes) (counted : size.value = body.length)
  /-- The declared size, the chunks, and the zero that ends them. -/
  | stream (declared : Number) (chunks : List Chunk) (ending : Number) (zero : ending.value = 0)

namespace Value

/-- The wire type that stands in the key. -/
def type : Value → WireType
  | number _ => .varint
  | octets .. => .len
  | stream .. => .stream

end Value

/-- A field. -/
structure Field where
  key : Number
  tag : Nat
  value : Value
  fits : tag ≤ maxTag
  keyed : key.value = tag * 8 + value.type.bits

/-! ## Octets -/

/-- The octets of a chunk. -/
def Chunk.octets (c : Chunk) : Bytes := c.size.octets ++ c.body

namespace Value

/-- The octets of a value. -/
def spelled : Value → Bytes
  | number n => n.octets
  | octets size body _ => size.octets ++ body
  | stream declared chunks ending _ =>
    declared.octets ++ (chunks.flatMap Chunk.octets ++ ending.octets)

/-- The octets that a reader is handed: without the length, but with the declared size. -/
def body : Value → Bytes
  | number n => n.octets
  | octets _ body _ => body
  | stream declared chunks ending _ =>
    declared.octets ++ (chunks.flatMap Chunk.octets ++ ending.octets)

/-- The length or the declared size keeps to a bound.  The size that stands for none keeps to any.
-/
def Within (max : Option Nat) : Value → Prop
  | number _ => True
  | octets size .. => ∀ m, max = some m → size.value ≤ m
  | stream declared .. => ∀ m, max = some m → declared.value ≠ Wire.undeclaredSize →
      declared.value ≤ m

end Value

namespace Field

/-- The octets of a field. -/
def octets (f : Field) : Bytes := f.key.octets ++ f.value.spelled

/-- What a reader makes of the field. -/
def raw (f : Field) : RawField := ⟨f.tag, f.value.type, f.value.body⟩

end Field

/-! ## The reader takes them -/

open Cursor

/-- `varint` takes a number however it is spelled. -/
theorem takes_number (n : Number) : Takes Cursor.varint n.octets n.value := by
  intro p rest
  have hread : Varint.decode (n.octets ++ rest) = _ :=
    Varint.decode_eq_ok.2 ⟨n.octets, rfl, rfl, n.spelled⟩
  simp only [Cursor.varint, hread]

/-- `chunk` takes a chunk, whose size is not zero because its body is not empty. -/
theorem takes_chunk (c : Chunk) : Takes Cursor.chunk c.octets (some c.body) := by
  -- A size of zero would count an empty body.
  have hsize : c.size.value ≠ 0 := fun h =>
    c.nonempty (List.length_eq_zero_iff.1 (c.counted ▸ h))
  refine takes_bind (takes_number c.size) fun p rest => ?_
  simp only [if_neg hsize, Functor.map, EStateM.map]
  rw [c.counted, take_append]

/-- `chunk` takes the zero behind the chunks for their end. -/
theorem takes_ending {n : Number} (h : n.value = 0) : Takes Cursor.chunk n.octets none := by
  intro p rest
  unfold Cursor.chunk
  rw [bind_of_ok (takes_number n p rest), if_pos h]
  rfl

/-- `skipChunks` takes chunks up to the zero behind them. -/
theorem takes_chunks (chunks : List Chunk) {ending : Number} (zero : ending.value = 0) :
    Takes skipChunks (chunks.flatMap Chunk.octets ++ ending.octets) () := by
  intro p rest
  induction chunks generalizing p with
  | nil => exact skipChunks_of_none (takes_ending zero p rest)
  | cons c cs ih =>
    -- The first chunk is taken, and the others from where it ends.
    rw [List.flatMap_cons, List.append_assoc, List.append_assoc,
      skipChunks_of_some (takes_chunk c p _), ← List.append_assoc, ih]
    simp only [List.length_append, Nat.add_assoc]

/-- `lenPrefixed` takes octets behind their length, when that keeps to the bound. -/
theorem takes_lenPrefixed {size : Number} {body : Bytes} (counted : size.value = body.length)
    {max : Option Nat} {tag : Nat} (h : checkBound tag size.value max = .ok ()) :
    Takes (lenPrefixed max tag) (size.octets ++ body) body := by
  refine takes_bind (takes_number size) fun p rest => ?_
  rw [bind_of_ok (check_of_ok h _), counted, take_append]

/-- The size that a reader learns from a number. -/
def announced (n : Number) : Option Nat :=
  if n.value = Wire.undeclaredSize then none else some n.value

/-- `streamStart` takes the declared size. -/
theorem takes_streamStart (n : Number) : Takes streamStart n.octets (announced n) := by
  intro p rest
  unfold streamStart
  rw [bind_of_ok (takes_number n p rest)]
  rfl

/-- `checkBound` of an announced size holds it against the bound of its field. -/
theorem checkBound_announced {n : Number} {tag : Nat} {max : Option Nat} :
    (announced n).elim (.ok ()) (checkBound tag · max) = .ok () ↔
      ∀ m, max = some m → n.value ≠ Wire.undeclaredSize → n.value ≤ m := by
  unfold announced
  split
  · simp_all
  · rename_i h
    rw [Option.elim_some, checkBound_eq_ok]
    simp only [ne_eq, h, not_false_eq_true, true_implies]

/-- `skip` hands on the octets that `skipValue` takes. -/
theorem takes_skip {type : WireType} {octets : Bytes} (h : Takes (skipValue type) octets ()) :
    Takes (skip type) octets octets := by
  intro p rest
  unfold skip
  rw [h p rest]
  -- The octets between the two positions are those in front.
  simp only [Nat.add_sub_cancel_left, List.take_left]

/-- `skipValue` takes a value as it is `spelled`. -/
theorem takes_skipValue (v : Value) : Takes (skipValue v.type) v.spelled () := by
  intro p rest
  cases v with
  | number n => simp only [Value.type, Value.spelled, skipValue, takes_number n p rest]
  -- The length is passed over without a bound.
  | octets size body counted =>
    have hread := takes_lenPrefixed counted (checkBound_none 0 size.value) p rest
    simp only [Value.type, Value.spelled, skipValue, hread]
  | stream declared chunks ending zero =>
    simp only [Value.type, Value.spelled, skipValue]
    rw [List.append_assoc]
    simp only [takes_streamStart declared p _, takes_chunks chunks zero _ rest,
      List.length_append, Nat.add_assoc]

/-- `readBody` takes a value that keeps to the bound, and answers its body. -/
theorem takes_value {v : Value} {max : Option Nat} (h : v.Within max) (tag : Nat) :
    Takes (RawField.readBody max tag v.type) v.spelled v.body := by
  cases v with
  | number n => exact takes_skip (takes_skipValue (.number n))
  -- The length is held against the bound of the tag.
  | octets size body counted => exact takes_lenPrefixed counted (checkBound_eq_ok.2 h)
  | stream declared chunks ending zero =>
    intro p rest
    have hstart := takes_streamStart declared p
      (chunks.flatMap Chunk.octets ++ ending.octets ++ rest)
    rw [← List.append_assoc] at hstart
    simp only [Value.spelled, Value.type, RawField.readBody, hstart, checkBound_announced.2 h]
    -- The declared size is looked at first and then passed over with the chunks.
    exact takes_skip (takes_skipValue (.stream declared chunks ending zero)) p rest

/-- `key` takes a number for the tag and type that it is made of. -/
theorem takes_key {n : Number} {tag : Nat} {type : WireType} (fits : tag ≤ maxTag)
    (h : n.value = tag * 8 + type.bits) : Takes Cursor.key n.octets (tag, type) := by
  -- The three lowest bits are those of the type, and the tag is what is above them.
  have hbits := type.bits_lt
  have htag : n.value / 8 = tag := by omega
  have htype : n.value % 8 = type.bits := by omega
  intro p rest
  unfold Cursor.key
  rw [bind_of_ok (takes_number n p rest)]
  simp only [htag, htype, WireType.ofBits?_bits, Nat.not_lt.2 fits, if_false]
  rfl

/-- `RawField.read` takes a field that keeps to the bound of its tag. -/
theorem takes_field {f : Field} {bound : Nat → Option Nat} (h : f.value.Within (bound f.tag)) :
    Takes (RawField.read bound) f.octets f.raw := by
  refine takes_bind (takes_key f.fits f.keyed) fun p rest => ?_
  dsimp only
  rw [bind_of_ok (takes_value h f.tag p rest)]
  rfl

/-- Why a key whose tag is above the largest is refused.  Its type is looked at first. -/
def Number.refusal (key : Number) : WireError :=
  match WireType.ofBits? (key.value % 8) with
  | none => .unknownWireType (key.value % 8)
  | some _ => .tagOutOfRange 0xFFFFFFFF

/-- `RawField.read` refuses a key whose tag is above `maxTag`. -/
theorem read_of_large_key {key : Number} (h : maxTag < key.value / 8) (bound : Nat → Option Nat)
    (p : Nat) (rest : Bytes) :
    RawField.read bound ⟨p, key.octets ++ rest⟩ =
      .error key.refusal ⟨p + key.octets.length, rest⟩ := by
  have hkey : Cursor.key ⟨p, key.octets ++ rest⟩ =
      .error key.refusal ⟨p + key.octets.length, rest⟩ := by
    unfold Cursor.key Number.refusal
    rw [bind_of_ok (takes_number key p rest)]
    cases WireType.ofBits? (key.value % 8) with
    | none => rfl
    | some type =>
      simp only [h, if_true]
      rfl
  unfold RawField.read
  simp only [bind, EStateM.bind, hkey]

/-! ## The reader takes nothing else -/

/-- The octets between two places of a cursor. -/
structure Passes (c : Cursor) (octets : Bytes) (c' : Cursor) : Prop where
  rest : octets ++ c'.rest = c.rest
  position : c'.position = c.position + octets.length

variable {c c₁ c' : Cursor}

/-- `Passes` of octets one after the other. -/
theorem Passes.append {octets octets' : Bytes} (h : Passes c octets c₁)
    (h' : Passes c₁ octets' c') : Passes c (octets ++ octets') c' :=
  ⟨by rw [List.append_assoc, h'.rest, h.rest], by
    rw [h'.position, h.position, List.length_append, Nat.add_assoc]⟩

/-- What `varint` reads is a number of the grammar. -/
theorem number_of_read {n : Nat} (h : Cursor.varint c = .ok n c') :
    ∃ m : Number, m.value = n ∧ Passes c m.octets c' := by
  unfold Cursor.varint at h
  split at h
  · rename_i k used rest hdecode
    simp only [EStateM.Result.ok.injEq] at h
    obtain ⟨rfl, rfl⟩ := h
    -- `decode` has found the octets that spell the number.
    obtain ⟨octets, happ, rfl, hspells⟩ := Varint.decode_eq_ok.1 hdecode
    exact ⟨⟨octets, k, hspells⟩, rfl, happ, rfl⟩
  · simp at h
  · simp at h

/-- What `chunk` reads is the zero of an end, or a chunk. -/
theorem chunk_of_read {body : Option Bytes} (h : Cursor.chunk c = .ok body c') :
    (∃ n : Number, n.value = 0 ∧ body = none ∧ Passes c n.octets c') ∨
      ∃ k : Chunk, body = some k.body ∧ Passes c k.octets c' := by
  unfold Cursor.chunk at h
  obtain ⟨n, c₁, hsize, h⟩ := bind_ok h
  obtain ⟨size, rfl, hpass⟩ := number_of_read hsize
  split at h
  · rename_i hzero
    simp only [pure, EStateM.pure, EStateM.Result.ok.injEq] at h
    obtain ⟨rfl, rfl⟩ := h
    exact .inl ⟨size, hzero, rfl, hpass⟩
  · rename_i hsize
    simp only [Functor.map, EStateM.map] at h
    split at h
    · rename_i bs c₂ htake
      simp only [EStateM.Result.ok.injEq] at h
      obtain ⟨rfl, rfl⟩ := h
      obtain ⟨happ, hlength, hposition⟩ := take_ok htake
      -- A size other than zero leaves a body that is not empty.
      have hne : bs ≠ [] := by
        rintro rfl
        exact hsize hlength.symm
      refine .inr ⟨⟨size, bs, hlength.symm, hne⟩, rfl, hpass.append ⟨happ, ?_⟩⟩
      rw [hposition, hlength]
    · simp at h

/-- What `skipChunks` passes over are chunks and the zero behind them. -/
theorem chunks_of_read (h : skipChunks c = .ok () c') :
    ∃ (chunks : List Chunk) (ending : Number), ending.value = 0 ∧
      Passes c (chunks.flatMap Chunk.octets ++ ending.octets) c' := by
  -- By induction along the chunks up to the zero behind them.
  fun_induction skipChunks c with
  | case1 => simp at h
  | case2 c c₁ hchunk =>
    simp only [EStateM.Result.ok.injEq, true_and] at h
    subst h
    -- The chunk that ends the stream is the zero.
    rcases chunk_of_read hchunk with ⟨ending, hzero, -, hpass⟩ | ⟨k, hk, -⟩
    · exact ⟨[], ending, hzero, hpass⟩
    · cases hk
  | case3 c bs c₁ hchunk ih =>
    obtain ⟨chunks, ending, hzero, hrest⟩ := ih h
    rcases chunk_of_read hchunk with ⟨n, -, hn, -⟩ | ⟨k, -, hpass⟩
    · cases hn
    · -- This chunk goes in front of those that are read after it.
      refine ⟨k :: chunks, ending, hzero, ?_⟩
      rw [List.flatMap_cons, List.append_assoc]
      exact hpass.append hrest

/-- What `lenPrefixed` reads is a length within the bound, and so many octets. -/
theorem lenPrefixed_of_read {max : Option Nat} {tag : Nat} {body : Bytes}
    (h : lenPrefixed max tag c = .ok body c') :
    ∃ size : Number, size.value = body.length ∧ checkBound tag size.value max = .ok () ∧
      Passes c (size.octets ++ body) c' := by
  unfold lenPrefixed at h
  obtain ⟨n, c₁, hsize, h⟩ := bind_ok h
  obtain ⟨size, rfl, hpass⟩ := number_of_read hsize
  obtain ⟨_, c₂, hcheck, htake⟩ := bind_ok h
  -- The check does not move the cursor, so the octets follow their length.
  obtain ⟨hbound, rfl⟩ := check_ok hcheck
  obtain ⟨happ, hlength, hposition⟩ := take_ok htake
  exact ⟨size, hlength.symm, hbound, hpass.append ⟨happ, by rw [hposition, hlength]⟩⟩

/-- What `streamStart` reads is a number. -/
theorem streamStart_of_read {size : Option Nat} (h : streamStart c = .ok size c') :
    ∃ n : Number, size = announced n ∧ Passes c n.octets c' := by
  unfold streamStart at h
  obtain ⟨k, c₁, hsize, h⟩ := bind_ok h
  obtain ⟨n, rfl, hpass⟩ := number_of_read hsize
  simp only [pure, EStateM.pure, EStateM.Result.ok.injEq] at h
  obtain ⟨rfl, rfl⟩ := h
  exact ⟨n, rfl, hpass⟩

/-- `skip` that succeeds hands on what `skipValue` passes over. -/
theorem skip_of_read {type : WireType} {body : Bytes} (h : skip type c = .ok body c') :
    skipValue type c = .ok () c' ∧ ∀ octets, Passes c octets c' → body = octets := by
  unfold skip at h
  split at h
  · rename_i hskip
    simp only [EStateM.Result.ok.injEq] at h
    obtain ⟨rfl, rfl⟩ := h
    refine ⟨hskip, fun octets hpass => ?_⟩
    -- What `skip` hands on is the buffer between the two positions.
    rw [hpass.position, Nat.add_sub_cancel_left, ← hpass.rest, List.take_left]
  · simp at h

/-- `skipValue` passes over a value, as it is `spelled`. -/
theorem value_of_skip {type : WireType} (h : skipValue type c = .ok () c') :
    ∃ v : Value, v.type = type ∧ Passes c v.spelled c' := by
  cases type with
  | varint =>
    simp only [skipValue] at h
    split at h
    · rename_i n c₁ hread
      simp only [EStateM.Result.ok.injEq, true_and] at h
      subst h
      obtain ⟨m, -, hpass⟩ := number_of_read hread
      exact ⟨.number m, rfl, hpass⟩
    · simp at h
  | len =>
    simp only [skipValue] at h
    split at h
    · rename_i body c₁ hread
      simp only [EStateM.Result.ok.injEq, true_and] at h
      subst h
      obtain ⟨size, hcounted, -, hpass⟩ := lenPrefixed_of_read hread
      exact ⟨.octets size body hcounted, rfl, hpass⟩
    · simp at h
  | stream =>
    simp only [skipValue] at h
    split at h
    · simp at h
    · rename_i size c₁ hstart
      split at h
      · rename_i c₂ hchunks
        simp only [EStateM.Result.ok.injEq, true_and] at h
        subst h
        obtain ⟨declared, -, hdeclared⟩ := streamStart_of_read hstart
        obtain ⟨chunks, ending, hzero, hpass⟩ := chunks_of_read hchunks
        exact ⟨.stream declared chunks ending hzero, rfl, hdeclared.append hpass⟩
      · simp at h

/-- What `readBody` reads is a value of its type that keeps to the bound. -/
theorem value_of_read {max : Option Nat} {tag : Nat} {type : WireType} {body : Bytes}
    (h : RawField.readBody max tag type c = .ok body c') :
    ∃ v : Value, v.type = type ∧ v.body = body ∧ v.Within max ∧ Passes c v.spelled c' := by
  cases type with
  | varint =>
    obtain ⟨hskip, hbody⟩ := skip_of_read h
    obtain ⟨v, htype, hpass⟩ := value_of_skip hskip
    cases v <;> simp [Value.type] at htype
    case number n => exact ⟨.number n, rfl, (hbody _ hpass).symm, trivial, hpass⟩
  | len =>
    obtain ⟨size, hcounted, hbound, hpass⟩ := lenPrefixed_of_read h
    exact ⟨.octets size body hcounted, rfl, rfl, checkBound_eq_ok.1 hbound, hpass⟩
  | stream =>
    simp only [RawField.readBody] at h
    split at h
    · simp at h
    · rename_i size c₁ hstart
      split at h
      · simp at h
      · rename_i hbound
        obtain ⟨hskip, hbody⟩ := skip_of_read h
        obtain ⟨v, htype, hpass⟩ := value_of_skip hskip
        cases v <;> simp [Value.type] at htype
        case stream declared chunks ending zero =>
          -- The first look at the declared size found what the second one did.
          have hrest := hpass.rest
          simp only [Value.spelled, List.append_assoc] at hrest
          have hread := takes_streamStart declared c.position
            (chunks.flatMap Chunk.octets ++ (ending.octets ++ c'.rest))
          rw [hrest, hstart] at hread
          simp only [EStateM.Result.ok.injEq] at hread
          obtain ⟨rfl, -⟩ := hread
          exact ⟨.stream declared chunks ending zero, rfl, (hbody _ hpass).symm,
            checkBound_announced.1 hbound, hpass⟩

/-- What `key` reads is a number made of a tag and a type, and the tag is not too large. -/
theorem key_of_read {tag : Nat} {type : WireType} (h : Cursor.key c = .ok (tag, type) c') :
    ∃ n : Number, n.value = tag * 8 + type.bits ∧ tag ≤ maxTag ∧ Passes c n.octets c' := by
  unfold Cursor.key at h
  obtain ⟨k, c₁, hread, h⟩ := bind_ok h
  obtain ⟨n, rfl, hpass⟩ := number_of_read hread
  cases htype : WireType.ofBits? (n.value % 8) with
  | none =>
    simp only [htype] at h
    cases h
  | some found =>
    by_cases hmax : maxTag < n.value / 8
    · simp only [htype, hmax, if_true] at h
      cases h
    · simp only [htype, hmax, if_false, pure, EStateM.pure, EStateM.Result.ok.injEq,
        Prod.mk.injEq] at h
      obtain ⟨⟨rfl, rfl⟩, rfl⟩ := h
      -- Tag and type are the quotient and the remainder, and make the number up again.
      have hbits := WireType.bits_of_ofBits? htype
      exact ⟨n, by omega, by omega, hpass⟩

/-- `RawField.read` that succeeds has passed over a field that keeps to the bound of its tag. -/
theorem field_of_read {bound : Nat → Option Nat} {raw : RawField}
    (h : RawField.read bound c = .ok raw c') :
    ∃ f : Field, f.raw = raw ∧ f.value.Within (bound f.tag) ∧ Passes c f.octets c' := by
  unfold RawField.read at h
  obtain ⟨⟨tag, type⟩, c₁, hkey, h⟩ := bind_ok h
  obtain ⟨body, c₂, hbody, h⟩ := bind_ok h
  simp only [pure, EStateM.pure, EStateM.Result.ok.injEq] at h
  obtain ⟨rfl, rfl⟩ := h
  -- The key names the type and the tag of the value that is read behind it.
  obtain ⟨key, hkeyed, hfits, hpass⟩ := key_of_read hkey
  obtain ⟨value, rfl, rfl, hwithin, hpass'⟩ := value_of_read hbody
  exact ⟨⟨key, tag, value, hfits, hkeyed⟩, rfl, hwithin, hpass.append hpass'⟩

/-! ## Octets have one tree -/

section

variable {rest rest' : Bytes}

/-- `octets` begin with those of one number at most. -/
theorem Number.unique {n n' : Number} (h : n.octets ++ rest = n'.octets ++ rest') :
    n = n' ∧ rest = rest' := by
  obtain ⟨octets, value, spelled⟩ := n
  obtain ⟨octets', value', spelled'⟩ := n'
  obtain ⟨rfl, rfl, rfl⟩ := spelled.unique spelled' h
  exact ⟨rfl, rfl⟩

/-- `octets` behind their length end where it says. -/
theorem counted_unique {size size' : Number} {body body' : Bytes}
    (counted : size.value = body.length) (counted' : size'.value = body'.length)
    (h : size.octets ++ (body ++ rest) = size'.octets ++ (body' ++ rest')) :
    size = size' ∧ body = body' ∧ rest = rest' := by
  obtain ⟨rfl, hbody⟩ := Number.unique h
  obtain ⟨rfl, rfl⟩ := List.append_inj hbody (counted ▸ counted')
  exact ⟨rfl, rfl, rfl⟩

/-- `octets` begin with those of one chunk at most. -/
theorem Chunk.unique {k k' : Chunk} (h : k.octets ++ rest = k'.octets ++ rest') :
    k = k' ∧ rest = rest' := by
  obtain ⟨size, body, counted, nonempty⟩ := k
  obtain ⟨size', body', counted', nonempty'⟩ := k'
  simp only [Chunk.octets, List.append_assoc] at h
  -- The size says where the body ends.
  obtain ⟨rfl, rfl, rfl⟩ := counted_unique counted counted' h
  exact ⟨rfl, rfl⟩

/-- `octets` of a chunk are no end of a stream. -/
theorem Chunk.ne_ending {k : Chunk} {n : Number} (zero : n.value = 0) :
    n.octets ++ rest ≠ k.octets ++ rest' := by
  intro h
  rw [Chunk.octets, List.append_assoc] at h
  obtain ⟨rfl, -⟩ := Number.unique h
  exact k.nonempty (List.length_eq_zero_iff.1 (k.counted ▸ zero))

/-- `octets` begin with one run of chunks up to a zero at most. -/
theorem chunks_unique {ks ks' : List Chunk} {n n' : Number} (zero : n.value = 0)
    (zero' : n'.value = 0)
    (h : ks.flatMap Chunk.octets ++ (n.octets ++ rest) =
      ks'.flatMap Chunk.octets ++ (n'.octets ++ rest')) :
    ks = ks' ∧ n = n' ∧ rest = rest' := by
  induction ks generalizing ks' with
  | nil =>
    cases ks' with
    | nil => exact ⟨rfl, Number.unique h⟩
    | cons k' ks' =>
      rw [List.flatMap_nil, List.nil_append, List.flatMap_cons, List.append_assoc] at h
      -- The first run ends where the second goes on.
      exact absurd h (Chunk.ne_ending zero)
  | cons k ks ih =>
    cases ks' with
    | nil =>
      rw [List.flatMap_nil, List.nil_append, List.flatMap_cons, List.append_assoc] at h
      -- The second run ends where the first goes on.
      exact absurd h.symm (Chunk.ne_ending zero')
    | cons k' ks' =>
      simp only [List.flatMap_cons, List.append_assoc] at h
      obtain ⟨rfl, hmore⟩ := Chunk.unique h
      obtain ⟨rfl, hending⟩ := ih hmore
      exact ⟨rfl, hending⟩

/-- `spelled` octets begin with one value of a wire type at most. -/
theorem Value.unique {v v' : Value} (htype : v.type = v'.type)
    (h : v.spelled ++ rest = v'.spelled ++ rest') : v = v' ∧ rest = rest' := by
  cases v with
  | number n =>
    cases v' <;> simp [Value.type] at htype
    case number n' =>
      obtain ⟨rfl, rfl⟩ := Number.unique h
      exact ⟨rfl, rfl⟩
  | octets size body counted =>
    cases v' <;> simp [Value.type] at htype
    case octets size' body' counted' =>
      simp only [Value.spelled, List.append_assoc] at h
      obtain ⟨rfl, rfl, rfl⟩ := counted_unique counted counted' h
      exact ⟨rfl, rfl⟩
  | stream declared chunks ending zero =>
    cases v' <;> simp [Value.type] at htype
    case stream declared' chunks' ending' zero' =>
      simp only [Value.spelled, List.append_assoc] at h
      -- The declared size stands in front, and the chunks behind it.
      obtain ⟨rfl, hchunks⟩ := Number.unique h
      obtain ⟨rfl, rfl, rfl⟩ := chunks_unique zero zero' hchunks
      exact ⟨rfl, rfl⟩

/-- `octets` begin with those of one field at most. -/
theorem Field.unique {f f' : Field} (h : f.octets ++ rest = f'.octets ++ rest') :
    f = f' ∧ rest = rest' := by
  obtain ⟨key, tag, value, fits, keyed⟩ := f
  obtain ⟨key', tag', value', fits', keyed'⟩ := f'
  simp only [Field.octets, List.append_assoc] at h
  obtain ⟨rfl, hvalue⟩ := Number.unique h
  -- The key tells the tag and the type.
  have hbits := value.type.bits_lt
  have hbits' := value'.type.bits_lt
  have htag : tag = tag' := by omega
  have htype : value.type = value'.type := WireType.bits_inj (by omega)
  obtain ⟨rfl, rfl⟩ := Value.unique htype hvalue
  subst htag
  exact ⟨rfl, rfl⟩

theorem Field.octets_ne_nil (f : Field) : f.octets ≠ [] := by
  simp [Field.octets, f.key.spelled.groups.ne_nil]

end

end Grammar

end Storefront
