import Storefront.Proofs.Schema.Drained
import Storefront.Proofs.Wire.Grammar

/-! # What a stream field holds after a call

A field is read into again and again, and sent now and then, and some of these calls fail.  What it
holds is always made of whole chunks.  What it says about that is looser: a chunk that breaks the
bound of the field is counted although it is dropped, and a call that cannot even read the beginning
of a stream leaves the field as an earlier call left it, complete if that was.

* `collect_cases`       what a run of chunks brings, and how it may miscount
* `receive_cases`       a call fills the field anew, or leaves it alone
* `Reached.kept`        what holds of every field that comes about
* `receive_accounts`    what a call leaves in such a field
-/

namespace Storefront

open Grammar (Chunk Number Passes)

namespace StreamField

variable {m : FieldMeta} {field : StreamField}

/-- The fields that come about: an empty one or one with a source, and what calls make of it. -/
inductive Reached : StreamField → Prop
  | empty : Reached {}
  | ofSource (source : Source) (declared : Option Nat) : Reached (.ofSource source declared)
  | send {field : StreamField} (m : FieldMeta) (h : Reached field) : Reached (field.send m).field
  | receive {field : StreamField} (m : FieldMeta) (c : Cursor) (h : Reached field) :
    Reached (field.receive m c).field

/-- The next chunk takes a total of `kept` octets above the bound of the field.  The call fails for
it, and the octets of the chunk are among those counted. -/
inductive Overrun (m : FieldMeta) (kept : Nat) (behind : Bytes) : Nat → WireError → Prop
  | counted {refused : Chunk} {rest : Bytes} {max : Nat} (hbehind : behind = refused.octets ++ rest)
    (hbound : m.maxSize = some max) (hover : max < kept + refused.body.length) :
    Overrun m kept behind (kept + refused.body.length)
      (.boundExceeded m.tag (kept + refused.body.length) max)

/-- The octets that chunks carry. -/
def carried (chunks : List Chunk) : Bytes := (chunks.map Chunk.body).flatten

/-- `collect` brings the chunks in front, and counts no others but one that is too many. -/
theorem collect_cases {received : Nat} {done : List Bytes} {c : Cursor} {arrived : Arrived}
    {ending : Except WireError Cursor} (h : collect m received done c = (arrived, ending)) :
    ∃ (taken : List Chunk) (behind : Cursor), Passes c (taken.flatMap Chunk.octets) behind ∧
      arrived.chunks = done.reverse ++ taken.map Chunk.body ∧
      (arrived.received = received + (carried taken).length ∨
        ∃ e, ending = .error e ∧
          Overrun m (received + (carried taken).length) behind.rest arrived.received e) := by
  -- By induction along the chunks, which are counted as they are taken.
  fun_induction collect m received done c with
  -- Where the run ends nothing is taken or counted: no chunk, the end mark, or a chunk too large.
  | case1 | case2 | case3 =>
    cases h
    exact ⟨[], _, ⟨rfl, rfl⟩, by simp, .inl rfl⟩
  | case4 received done c bs c' hchunk hsize received' e hmax =>
    cases h
    -- The total is above its bound; it counts the chunk that made it so.
    rcases Grammar.chunk_of_read hchunk with ⟨n, -, hn, -⟩ | ⟨refused, hbody, hpass⟩
    · cases hn
    · cases hbody
      obtain ⟨max, hbound, hover, rfl⟩ := checkBound_eq_error.1 hmax
      exact ⟨[], c, ⟨rfl, rfl⟩, by simp, .inr ⟨_, rfl, .counted hpass.rest.symm hbound hover⟩⟩
  | case5 received done c bs c' hchunk hsize received' hmax ih =>
    rcases Grammar.chunk_of_read hchunk with ⟨n, -, hn, -⟩ | ⟨k, hbody, hpass⟩
    · cases hn
    · cases hbody
      obtain ⟨more, behind, hmore, hchunks, hcount⟩ := ih h
      -- What this chunk has added to the count, it adds to what has been taken.
      have htotal : received + (carried (k :: more)).length =
          received' + (carried more).length := by
        simp only [carried, received', List.map_cons, List.flatten_cons, List.length_append]
        omega
      refine ⟨k :: more, behind, hpass.append hmore, ?_, htotal ▸ hcount⟩
      rw [hchunks, List.reverse_cons, List.append_assoc, List.map_cons, List.singleton_append]

theorem collect_of_overrun {received : Nat} {done : List Bytes} {c c' : Cursor} {bs : Bytes}
    {e : WireError} (h : c.chunk = .ok (some bs) c')
    (hsize : checkBound m.tag bs.length (some m.chunkSize) = .ok ())
    (hmax : checkBound m.tag (received + bs.length) m.maxSize = .error e) :
    collect m received done c = (⟨done.reverse, received + bs.length⟩, .error e) := by
  rw [collect]
  split <;> simp_all

/-- What a call leaves that has read the beginning of a stream: the chunks behind that, as far as
they could be taken, and the word that they are all if the call went well. -/
structure Fills (m : FieldMeta) (c : Cursor) (x : Received) (start : Number) (taken : List Chunk)
    (behind : Bytes) : Prop where
  spelled : c.rest = start.octets ++ (taken.flatMap Chunk.octets ++ behind)
  data : x.field.data = carried taken
  chunks : x.field.chunks = taken.length
  complete : x.field.complete = true ↔ x.result = .ok ()
  received : x.field.received = x.field.data.length ∨
    ∃ e, x.result = .error e ∧ Overrun m x.field.data.length behind x.field.received e

/-- `receive` cannot read the beginning of a stream and leaves the field alone, or it `Fills` the
field anew. -/
theorem receive_cases (m : FieldMeta) (field : StreamField) (c : Cursor) :
    (∃ e c', c.streamStart = .error e c' ∧ field.receive m c = ⟨field, c, .error e, []⟩) ∨
      ∃ start taken behind, Fills m c (field.receive m c) start taken behind := by
  cases hstart : c.streamStart with
  | error e c' => exact .inl ⟨e, c', rfl, by simp only [receive, hstart]⟩
  | ok declared c₁ =>
    -- From here on the field has forgotten what an earlier call left in it.
    obtain ⟨start, rfl, hpass⟩ := Grammar.streamStart_of_read hstart
    cases hbound : (Grammar.announced start).elim (.ok ()) (checkBound m.tag · m.maxSize) with
    | error e =>
      -- The announced size is refused before any chunk is looked at.
      refine .inr ⟨start, [], c₁.rest, ?_⟩
      simp only [receive, hstart, hbound]
      exact ⟨hpass.rest.symm, rfl, rfl, by simp, .inl rfl⟩
    | ok u =>
      cases hcollect : collect m 0 [] c₁ with
      | mk arrived ending =>
        obtain ⟨taken, behind, hmore, hchunks, hcount⟩ := collect_cases hcollect
        have hspelled : c.rest = start.octets ++ (taken.flatMap Chunk.octets ++ behind.rest) := by
          rw [hmore.rest, hpass.rest]
        rw [List.reverse_nil, List.nil_append] at hchunks
        rw [Nat.zero_add] at hcount
        refine .inr ⟨start, taken, behind.rest, ?_⟩
        -- A run that was cut short fails the call; one that came to its end is up to the verdict.
        cases ending with
        | error e =>
          simp only [receive, hstart, hbound, hcollect, hchunks]
          refine ⟨hspelled, rfl, List.length_map _, by simp, ?_⟩
          rcases hcount with hcount | ⟨e', he, hover⟩
          · exact .inl hcount
          · cases he
            exact .inr ⟨e, rfl, hover⟩
        | ok c' =>
          simp only [receive, hstart, hbound, hcollect, hchunks]
          refine ⟨hspelled, rfl, List.length_map _, ?_, ?_⟩
          · cases verdict m.tag (Grammar.announced start) arrived.received <;>
              simp [Except.isOk, Except.toBool]
          · rcases hcount with hcount | ⟨e', he, -⟩
            · exact .inl hcount
            · cases he

/-- What a field holds, and what it says about that, at any time. -/
structure Kept (field : StreamField) : Prop where
  chunks : ∃ parts : List Bytes, (∀ part ∈ parts, part ≠ []) ∧ field.data = parts.flatten ∧
    field.chunks = parts.length
  received : field.data.length ≤ field.received
  complete : field.complete = true → field.received = field.data.length

/-- `Fills` leaves the field `Kept`. -/
theorem Fills.kept {c : Cursor} {x : Received} {start : Number} {taken : List Chunk}
    {behind : Bytes} (h : Fills m c x start taken behind) : x.field.Kept := by
  constructor
  case chunks =>
    refine ⟨taken.map Chunk.body, ?_, h.data, ?_⟩
    · intro part hpart
      obtain ⟨k, -, rfl⟩ := List.mem_map.1 hpart
      exact k.nonempty
    · rw [h.chunks, List.length_map]
  case received =>
    rcases h.received with hreceived | ⟨e, -, hover⟩
    · omega
    · -- The count is then that of the octets held and those of the chunk that was refused.
      generalize hcount : x.field.received = received at hover
      cases hover
      omega
  case complete =>
    intro hcomplete
    rcases h.received with hreceived | ⟨e, he, -⟩
    · exact hreceived
    · -- A field that misses a chunk is the outcome of a failure.
      rw [h.complete.1 hcomplete] at he
      cases he

/-- Whatever calls have been made, a field is `Kept`: it holds whole chunks. -/
theorem Reached.kept (h : field.Reached) : field.Kept := by
  -- Along the calls; a call that reads nothing leaves what the calls before it left.
  induction h with
  | empty => exact ⟨⟨[], nofun, rfl, rfl⟩, Nat.le_refl 0, fun _ => rfl⟩
  | ofSource source declared => exact ⟨⟨[], nofun, rfl, rfl⟩, Nat.le_refl 0, fun _ => rfl⟩
  | @send field m _ ih =>
    rcases send_field m field with hfield | hfield
    · rw [hfield]
      exact ih
    · rw [hfield]
      exact ⟨ih.chunks, ih.received, ih.complete⟩
  | @receive field m c _ ih =>
    rcases receive_cases m field c with ⟨e, c', -, hsame⟩ | ⟨start, taken, behind, hfills⟩
    · rw [hsame]
      exact ih
    · exact hfills.kept

/-- What `receive` leaves in a field, whatever calls came before it.  The field is `Kept`: it holds
whole chunks and counts at least what it holds.  A call for which `streamStart` fails leaves the
field alone.  Any other call `Fills` it: it leaves the chunks behind the beginning of the stream,
counts them and no other octets but those of a chunk that was one too many, and sets `complete`
exactly if it succeeds itself. -/
theorem receive_accounts (h : field.Reached) (m : FieldMeta) (c : Cursor) :
    (field.receive m c).field.Kept ∧
      ((∃ e c', c.streamStart = .error e c' ∧ (field.receive m c).result = .error e ∧
          (field.receive m c).field = field) ∨
        ∃ start taken behind, Fills m c (field.receive m c) start taken behind) := by
  constructor
  · exact (h.receive m c).kept
  · rcases receive_cases m field c with ⟨e, c', hstart, hsame⟩ | hfills
    · exact .inl ⟨e, c', hstart, by rw [hsame], by rw [hsame]⟩
    · exact .inr hfills

/-- A field whose streams may have two octets, in one chunk or in several. -/
def narrow : FieldMeta := ⟨1, "file", some 2, 10⟩

/-- The octets of a stream of one chunk, which does not announce its size. -/
def oneChunk (body : Bytes) : Bytes := Wire.streamStart none ++ Wire.chunk body ++ Wire.streamEnd

/-- A field with the octet of a stream that has been read whole. -/
def filled : StreamField := { data := [0xaa], received := 1, chunks := 1, complete := true }

theorem receive_filled :
    receive narrow {} (.start (oneChunk [0xaa])) =
      ⟨filled, ⟨13, []⟩, .ok (), Progress.ofStream [[0xaa]]⟩ := by
  have hchunk : ∀ c ∈ [[(0xaa : UInt8)]],
      c ≠ [] ∧ c.length < Varint.limit ∧ c.length ≤ narrow.chunkSize := by decide
  have hmax : checkBound narrow.tag [[(0xaa : UInt8)]].flatten.length narrow.maxSize = .ok () := rfl
  have hread := receive_chunks (fun n (hn : none = some n) => nomatch hn) hchunk hmax {} 0 []
  exact hread

/-- Where `received` and `complete` are not what they seem.  A chunk of three octets is one octet
too many: `receive` leaves the field without it, and counts it.  And a field that is `complete`
stays so when there is no other stream to be read into it. -/
theorem receive_misreports :
    receive narrow {} (.start (oneChunk [0xaa, 0xbb, 0xcc])) =
        ⟨{ received := 3 }, .start (oneChunk [0xaa, 0xbb, 0xcc]), .error (.boundExceeded 1 3 2),
          []⟩ ∧
      filled.Reached ∧
      receive narrow filled ⟨13, []⟩ = ⟨filled, ⟨13, []⟩, .error (.truncated 1 0), []⟩ := by
  refine ⟨?counted, ?reached, ?stale⟩
  case counted =>
    have hstart : (Cursor.start (oneChunk [0xaa, 0xbb, 0xcc])).streamStart =
        .ok none ⟨10, [3, 0xaa, 0xbb, 0xcc, 0]⟩ := rfl
    have hchunk : (⟨10, [3, 0xaa, 0xbb, 0xcc, 0]⟩ : Cursor).chunk =
        .ok (some [0xaa, 0xbb, 0xcc]) ⟨14, [0]⟩ := rfl
    have hsize : checkBound 1 3 (some 10) = .ok () := rfl
    have hmax : checkBound 1 3 (some 2) = .error (.boundExceeded 1 3 2) := rfl
    have hcollect : collect narrow 0 [] ⟨10, [3, 0xaa, 0xbb, 0xcc, 0]⟩ =
        (⟨[], 3⟩, .error (.boundExceeded 1 3 2)) := collect_of_overrun hchunk hsize hmax
    simp only [receive, hstart, hcollect]
    rfl
  case reached =>
    have hreached := Reached.empty.receive narrow (.start (oneChunk [0xaa]))
    rwa [receive_filled] at hreached
  case stale => rfl

/-- `receive` into a field a second time, with nothing there to read: it is left with the one chunk
of the first. -/
theorem receive_accounts_filled :
    filled.Reached ∧ (receive narrow filled ⟨13, []⟩).field.Kept ∧
      (receive narrow filled ⟨13, []⟩).field = filled := by
  have hreached := Reached.empty.receive narrow (.start (oneChunk [0xaa]))
  rw [receive_filled] at hreached
  obtain ⟨hkept, hleft⟩ := receive_accounts hreached narrow ⟨13, []⟩
  refine ⟨hreached, hkept, ?_⟩
  rcases hleft with ⟨e, c', -, -, hsame⟩ | ⟨start, taken, behind, hfills⟩
  · exact hsame
  · -- There is no beginning of a stream in no octets.
    have hnone := hfills.spelled
    rw [eq_comm, List.append_eq_nil_iff] at hnone
    exact absurd hnone.1 start.spelled.groups.ne_nil

end StreamField

end Storefront
