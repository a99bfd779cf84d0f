import Storefront.Io.Source
import Storefront.Schema.Error
import Storefront.Wire.Cursor

/-! # Stream fields

A stream field moves a payload in chunks.  The sending side drains a source while it is written; the
receiving side collects the chunks.  A stream may announce its size; one that then carries another
number of octets is refused, by the sender as well as by the receiver.

Writing takes the source away even if it fails, and reading leaves in the field what had arrived
before a failure, which `complete` tells apart from a whole stream.
-/

namespace Storefront

/-- What a schema says about a field besides its type. -/
structure FieldMeta where
  tag : Nat
  name : String
  /-- The most octets of a text, blob or stream, or the most elements of a collection. -/
  maxSize : Option Nat
  /-- The largest chunk that a stream writes or takes. -/
  chunkSize : Nat
  deriving DecidableEq, Repr

namespace FieldMeta

/-- The largest chunk of a stream unless the field says otherwise. -/
def defaultChunkSize : Nat := 64 * 1024

/-- A field without bounds. -/
def plain (tag : Nat) (name : String) : FieldMeta := ⟨tag, name, none, defaultChunkSize⟩

/-- The description of an element of a collection: the bound is that of the collection. -/
def element (m : FieldMeta) : FieldMeta := { m with maxSize := none }

end FieldMeta

/-- A report on the progress of a stream: one for each chunk and one at the end. -/
structure Progress where
  /-- The octets of the chunk; zero in the last report. -/
  size : Nat
  isFinal : Bool
  index : Nat
  deriving DecidableEq, Repr

namespace Progress

/-- The reports on chunks, the first of which has number `index`. -/
def ofChunks (index : Nat) : List Bytes → List Progress
  | [] => []
  | c :: cs => ⟨c.length, false, index⟩ :: ofChunks (index + 1) cs

/-- The reports on a stream that has ended after the given chunks. -/
def ofStream (chunks : List Bytes) : List Progress :=
  ofChunks 0 chunks ++ [⟨0, true, chunks.length⟩]

end Progress

namespace Source

/-- Reads until `room` octets have been gathered or the source is at its end.  Interrupted reads are
made again; another failure loses what was gathered (`done`, last piece first). -/
def fillFrom (done : List Bytes) (room : Nat) (s : Source) : Except IoFault Bytes × Source :=
  if room = 0 then (.ok done.reverse.flatten, s)
  else
    match _h : s.read room with
    | (.error .interrupted, s') => fillFrom done room s'
    | (.error f, s') => (.error f, s')
    | (.ok [], s') => (.ok done.reverse.flatten, s')
    | (.ok (b :: bs), s') => fillFrom ((b :: bs) :: done) (room - (b :: bs).length) s'
termination_by s.size
decreasing_by
  · exact read_size_of_error _h
  · exact read_size_of_ok _h

/-- Reads up to `room` octets, fewer only at the end of the source. -/
def fill (room : Nat) (s : Source) : Except IoFault Bytes × Source := fillFrom [] room s

theorem fillFrom_size {done : List Bytes} {room : Nat} {s s' : Source} {r : Bytes}
    (h : fillFrom done room s = (.ok r, s')) :
    s'.size < s.size ∨ (r = done.reverse.flatten ∧ s'.size ≤ s.size) := by
  fun_induction fillFrom done room s with
  | case1 => simp_all
  | case2 done room s hr s₁ h₁ ih =>
    have := read_size_of_error h₁
    rcases ih h with h' | h' <;> exact .inl (by omega)
  | case3 => simp at h
  -- At the end of input nothing is added, and the source has not grown.
  | case4 done room s hr s₁ h₁ =>
    have := read_size_le room s
    simp only [Prod.mk.injEq, Except.ok.injEq] at h
    rw [h₁] at this
    exact .inr ⟨h.1.symm, h.2 ▸ this⟩
  | case5 done room s hr b bs s₁ h₁ ih =>
    have := read_size_of_ok h₁
    rcases ih h with h' | h' <;> exact .inl (by omega)

/-- A source that hands out octets is smaller afterwards. -/
theorem fill_size {room : Nat} {s s' : Source} {b : UInt8} {bs : Bytes}
    (h : fill room s = (.ok (b :: bs), s')) : s'.size < s.size := by
  rcases fillFrom_size h with h' | h'
  · exact h'
  · simp at h'

/-- Cuts what a source yields into pieces of `room` octets, the last of which may be shorter.  A
piece that takes the total above `max` is refused, and so is what comes after a failed read.  The
total so far is `sent`; `done` holds the pieces so far, last one first. -/
def piecesFrom (tag : Nat) (max : Option Nat) (room : Nat) (sent : Nat) (done : List Bytes)
    (s : Source) : List Bytes × Except WireError Unit :=
  match _h : s.fill room with
  | (.error f, _) => (done.reverse, .error (.io f))
  | (.ok [], _) => (done.reverse, .ok ())
  | (.ok (b :: bs), s') =>
    -- The bound is held against the total before the piece is handed on.
    let sent := sent + (b :: bs).length
    match checkBound tag sent max with
    | .error e => (done.reverse, .error e)
    | .ok () => piecesFrom tag max room sent ((b :: bs) :: done) s'
termination_by s.size
decreasing_by exact fill_size _h

/-- Cuts what a source yields into pieces of `room` octets. -/
def pieces (tag : Nat) (max : Option Nat) (room : Nat) (s : Source) :
    List Bytes × Except WireError Unit :=
  piecesFrom tag max room 0 [] s

end Source

/-- A field that moves a payload in chunks. -/
structure StreamField where
  /-- What a sender has yet to read; it is gone once a write has begun. -/
  source : Option Source := none
  /-- The announced size, if there is one. -/
  declared : Option Nat := none
  /-- The octets received. -/
  data : Bytes := []
  /-- How many octets have been received, counting a chunk that was one too many. -/
  received : Nat := 0
  /-- How many chunks have been received. -/
  chunks : Nat := 0
  /-- True after a read that found the whole stream. -/
  complete : Bool := false
  deriving DecidableEq, Repr

namespace StreamField

/-- A sender of octets at hand, which announces their number. -/
def ofBytes (bs : Bytes) : StreamField :=
  { source := some (Source.ofBytes bs), declared := some bs.length }

/-- A sender of what a source yields. -/
def ofSource (source : Source) (declared : Option Nat) : StreamField :=
  { source := some source, declared }

/-- True when two fields have received the same: sources and counts do not matter. -/
def same (a b : StreamField) : Bool :=
  a.declared == b.declared && a.data == b.data && a.complete == b.complete

/-- What writing a stream field comes to. -/
structure Sent where
  /-- What has been written, also before a failure. -/
  bytes : Bytes
  /-- The field afterwards. -/
  field : StreamField
  result : Except WireError Unit
  reports : List Progress

/-- The largest chunk a stream writes: `chunkSize`, but at least one octet. A `chunkSize` is a
machine word, so it is below `Varint.limit` and the inner `Nat.min` is idle. It stands here because
the field is a plain `Nat`, and with it every chunk has a length that can be written. -/
def chunkRoom (m : FieldMeta) : Nat := Nat.max 1 (Nat.min m.chunkSize (Varint.limit - 1))

/-- Writes the field. -/
def send (m : FieldMeta) (field : StreamField) : Sent :=
  match field.declared.elim (.ok ()) (checkBound m.tag · m.maxSize) with
  | .error e => ⟨[], field, .error e, []⟩
  | .ok () =>
    let (chunks, ending) := (field.source.getD []).pieces m.tag m.maxSize (chunkRoom m)
    let start := Wire.streamStart field.declared ++ chunks.flatMap Wire.chunk
    let after := { field with source := none }
    match ending with
    -- The chunks before a failure have been written and reported; the end has not.
    | .error e => ⟨start, after, .error e, Progress.ofChunks 0 chunks⟩
    | .ok () =>
      let yielded := chunks.flatten.length
      let result := match field.declared with
        | some declared =>
          if declared = yielded then .ok ()
          else .error (.invalidValue m.tag (.miscountedSource declared yielded))
        | none => .ok ()
      ⟨start ++ Wire.streamEnd, after, result, Progress.ofStream chunks⟩

/-- What a run of chunks has brought. -/
structure Arrived where
  /-- The chunks that were taken, in order. -/
  chunks : List Bytes
  /-- The octets counted, a chunk that was one too many included. -/
  received : Nat

/-- Takes chunks up to the end of a stream.  The chunks so far are `done`, last one first. -/
def collect (m : FieldMeta) (received : Nat) (done : List Bytes) (c : Cursor) :
    Arrived × Except WireError Cursor :=
  match _h : Cursor.chunk c with
  | .error e _ => (⟨done.reverse, received⟩, .error e)
  | .ok none c' => (⟨done.reverse, received⟩, .ok c')
  | .ok (some bs) c' =>
    match checkBound m.tag bs.length (some m.chunkSize) with
    | .error e => (⟨done.reverse, received⟩, .error e)
    | .ok () =>
      -- A chunk that takes the total above the bound is counted, but not kept.
      let received := received + bs.length
      match checkBound m.tag received m.maxSize with
      | .error e => (⟨done.reverse, received⟩, .error e)
      | .ok () => collect m received (bs :: done) c'
termination_by c.rest.length
decreasing_by exact (Cursor.chunk_ok _h).1

/-- What reading a stream field comes to. -/
structure Received where
  /-- The field afterwards, also after a failure. -/
  field : StreamField
  cursor : Cursor
  result : Except WireError Unit
  reports : List Progress

/-- How a stream that has ended stands to the size it announced. -/
def verdict (tag : Nat) (declared : Option Nat) (received : Nat) : Except WireError Unit :=
  match declared with
  | some declared =>
    if received < declared then .error (.streamIncomplete tag received declared)
    else if declared < received then
      .error (.invalidValue tag (.overlongStream declared received))
    else .ok ()
  | none => .ok ()

/-- Reads the field.  The cursor moves only past a stream that could be read to its end. -/
def receive (m : FieldMeta) (field : StreamField) (c : Cursor) : Received :=
  match Cursor.streamStart c with
  | .error e _ => ⟨field, c, .error e, []⟩
  | .ok declared c₁ =>
    let fresh : StreamField :=
      { source := field.source, declared, data := [], received := 0, chunks := 0,
        complete := false }
    match declared.elim (.ok ()) (checkBound m.tag · m.maxSize) with
    | .error e => ⟨fresh, c, .error e, []⟩
    | .ok () =>
      -- An earlier payload is gone from here on, even if no chunk arrives.
      let (arrived, ending) := collect m 0 [] c₁
      let got := { fresh with
        data := arrived.chunks.flatten
        received := arrived.received
        chunks := arrived.chunks.length }
      match ending with
      | .error e => ⟨got, c, .error e, Progress.ofChunks 0 arrived.chunks⟩
      | .ok c' =>
        let result := verdict m.tag declared arrived.received
        ⟨{ got with complete := result.isOk }, c', result, Progress.ofStream arrived.chunks⟩

end StreamField

end Storefront
