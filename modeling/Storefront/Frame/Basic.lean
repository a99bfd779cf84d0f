import Storefront.Frame.Key
import Storefront.LittleEndian

/-! # Frames

A frame carries one message body over a byte stream.

| octets | content                          |
|--------|----------------------------------|
| 2      | the magic octets `SP`            |
| 4      | the size of the payload          |
| 1      | the family                       |
| 2      | the message number               |
| 8      | the request id                   |
| size   | the payload                      |

Numbers stand with their lowest octet first.  `Frame.decode` reads a frame from the front of what
has arrived so far and tells a frame that is not complete yet from one that never will be.
-/

namespace Storefront

/-- A message body on its way, with its address. -/
structure Frame where
  key : MessageKey
  /-- Ties an answer to its request; zero when unused. -/
  requestId : UInt64
  payload : Bytes
  deriving DecidableEq, Repr

namespace Frame

/-- The size of what stands before the payload. -/
def headerSize : Nat := 17

/-- The two octets that every frame starts with. -/
def magic : Bytes := [0x53, 0x50]

/-- The largest payload a connection takes unless it is told otherwise. -/
def defaultMaxPayload : Nat := 16 * 1024 * 1024

/-- The largest payload whose size a header can hold. -/
def payloadLimit : Nat := 0xFFFFFFFF

/-- The frame that only says that its sender is there. -/
def keepalive : Frame := ⟨MessageKey.null, 0, []⟩

/-- True for frames that carry no message. -/
def isKeepalive (frame : Frame) : Bool := frame.key.isNull

/-- The octets of a frame as a whole. -/
def wireSize (frame : Frame) : Nat := headerSize + frame.payload.length

/-- What stands before a payload of the given size. -/
def header (key : MessageKey) (requestId : UInt64) (size : Nat) : Bytes :=
  magic ++ LittleEndian.encode 4 size ++ LittleEndian.encode 1 key.family.toNat ++
    LittleEndian.encode 2 key.message.toNat ++ LittleEndian.encode 8 requestId.toNat

/-- The octets of a frame. -/
def encode (frame : Frame) : Except WireError Bytes :=
  if payloadLimit < frame.payload.length then
    .error (.payloadTooLarge frame.payload.length payloadLimit)
  else .ok (header frame.key frame.requestId frame.payload.length ++ frame.payload)

/-- The frame at the front of `buffer` and what follows it, or `none` when it is not complete. -/
def decode (maxPayload : Nat) (buffer : Bytes) : Except WireError (Option (Frame × Bytes)) :=
  match buffer.split? headerSize with
  | none => .ok none
  | some (head, body) =>
    if head.take 2 ≠ magic then .error .invalidMagic
    else
      -- A payload that is too large is refused before any of it has arrived.
      let size := LittleEndian.decode ((head.drop 2).take 4)
      if maxPayload < size then .error (.payloadTooLarge size maxPayload)
      else
        match body.split? size with
        | none => .ok none
        | some (payload, rest) =>
          let family := LittleEndian.decode ((head.drop 6).take 1)
          let message := LittleEndian.decode ((head.drop 7).take 2)
          let requestId := LittleEndian.decode ((head.drop 9).take 8)
          .ok (some (⟨⟨family.toUInt8, message.toUInt16⟩, requestId.toUInt64, payload⟩, rest))

theorem decode_shorter {maxPayload : Nat} {buffer rest : Bytes} {frame : Frame}
    (h : decode maxPayload buffer = .ok (some (frame, rest))) : rest.length < buffer.length := by
  unfold decode at h
  split at h
  · simp at h
  · rename_i head body hb
    have hb := Bytes.split?_eq_some.1 hb
    have : buffer.length = headerSize + body.length := by
      rw [← hb.1, List.length_append, hb.2]
    split at h
    · simp at h
    · simp only at h
      split at h
      · simp at h
      · split at h
        · simp at h
        · rename_i payload rest' hp
          have hp := Bytes.split?_eq_some.1 hp
          simp only [Except.ok.injEq, Option.some.injEq, Prod.mk.injEq] at h
          have : body.length = payload.length + rest.length := by
            rw [← hp.1, List.length_append, h.2]
          simp only [headerSize] at *
          omega

theorem decode_ne_io {maxPayload : Nat} {buffer : Bytes} {fault : IoFault} :
    decode maxPayload buffer ≠ .error (.io fault) := by
  unfold decode
  split
  · simp
  · split
    · simp
    · simp only
      split
      · simp
      · split <;> simp

@[simp] theorem length_header (key : MessageKey) (requestId : UInt64) (size : Nat) :
    (header key requestId size).length = headerSize := by
  simp [header, magic, headerSize]

end Frame

end Storefront
