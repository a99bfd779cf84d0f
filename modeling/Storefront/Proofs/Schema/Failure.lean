import Storefront.Proofs.Schema.Codec
import Storefront.Proofs.Schema.Visits
import Storefront.Store.Message

/-! # What a failed read leaves behind

A message is read in place, and a failure ends the walk over its fields.  The fields that the walk
has come to by then have been read, save for the one that failed, and no other field has been touched.
A body whose fields cannot be found, or whose format version is no number, touches nothing at all.

* `Ended.append`             two parts of a walk one after the other
* `Tracks`                   what a walk does to the places that it comes to
* `Layout.decode_tracks`     and that `decode` is such a walk
* `failed_read_leaves`       what this comes to for messages
-/

namespace Storefront

/-! ## The fields that a walk comes to -/

namespace Place

/-- A place that has been read: it holds what its octets say in place of what stood there, or what
stood there if there are none. -/
def IsRead (p : Place) (ctx : Context) (index : FieldIndex) (before after : List Value) : Prop :=
  (index.find? p.about.tag = none ∧ after[p.slot]? = before[p.slot]?) ∨
    ∃ raw old v c, index.find? p.about.tag = some raw ∧ raw.type = p.type.wireType ∧
      before[p.slot]? = some old ∧ p.type.decodeBody p.about ctx old raw.cursor = ⟨v, c, .ok ()⟩ ∧
      after[p.slot]? = some v

/-- A place that could not be read: its octets are laid out in another way than its type calls for,
or they are no value of its type.  What reading them has left there may be part of a value. -/
def Fails (p : Place) (ctx : Context) (index : FieldIndex) (before after : List Value)
    (e : SchemaError) : Prop :=
  ∃ raw old, index.find? p.about.tag = some raw ∧ before[p.slot]? = some old ∧
    ((raw.type ≠ p.type.wireType ∧
        e = .wire (.wireTypeMismatch raw.tag p.type.wireType raw.type) ∧
        after[p.slot]? = some old) ∨
      (raw.type = p.type.wireType ∧
        ∃ v c, p.type.decodeBody p.about ctx old raw.cursor = ⟨v, c, .error e⟩ ∧
          after[p.slot]? = some v))

variable {p : Place} {ctx : Context} {index : FieldIndex} {e : SchemaError}
  {before before' after after' : List Value}

/-- `IsRead` depends on the slot of the place alone. -/
theorem IsRead.of_same (h : p.IsRead ctx index before after)
    (hbefore : before'[p.slot]? = before[p.slot]?) (hafter : after'[p.slot]? = after[p.slot]?) :
    p.IsRead ctx index before' after' := by
  simpa only [IsRead, hbefore, hafter] using h

/-- So does `Fails`. -/
theorem Fails.of_same (h : p.Fails ctx index before after e)
    (hbefore : before'[p.slot]? = before[p.slot]?) (hafter : after'[p.slot]? = after[p.slot]?) :
    p.Fails ctx index before' after' e := by
  simpa only [Fails, hbefore, hafter] using h

end Place

/-- How a walk ends that has come to the places `visited`: all of them have been read, or the last
one of them could not be and those before it have been. -/
inductive Ended (ctx : Context) (index : FieldIndex) (before after : List Value) :
    (visited : List Place) → Except SchemaError Unit → Prop
  | done {visited : List Place} (hread : ∀ p ∈ visited, p.IsRead ctx index before after) :
    Ended ctx index before after visited (.ok ())
  | failed {visited : List Place} {p : Place} {e : SchemaError}
    (hread : ∀ q ∈ visited, q.IsRead ctx index before after)
    (hfails : p.Fails ctx index before after e) :
    Ended ctx index before after (visited ++ [p]) (.error e)

namespace Ended

variable {ctx : Context} {index : FieldIndex} {before before' after after' : List Value}
  {visited more : List Place} {r : Except SchemaError Unit}

/-- `Ended` with `ok`: every place that was visited `IsRead`. -/
theorem isRead (h : Ended ctx index before after visited (.ok ())) :
    ∀ p ∈ visited, p.IsRead ctx index before after := by
  cases h with
  | done hread => exact hread

/-- `Ended` with an error: every place but the last `IsRead`, and that one `Fails`. -/
theorem exists_of_error {e : SchemaError} (h : Ended ctx index before after visited (.error e)) :
    ∃ read p, visited = read ++ [p] ∧ (∀ q ∈ read, q.IsRead ctx index before after) ∧
      p.Fails ctx index before after e := by
  cases h with
  | failed hread hfails => exact ⟨_, _, rfl, hread, hfails⟩

/-- `Ended` with places in front that have been read. -/
theorem append (hvisited : ∀ p ∈ visited, p.IsRead ctx index before after)
    (h : Ended ctx index before after more r) :
    Ended ctx index before after (visited ++ more) r := by
  have hboth : ∀ {ps : List Place}, (∀ p ∈ ps, p.IsRead ctx index before after) →
      ∀ p ∈ visited ++ ps, p.IsRead ctx index before after := by
    intro ps hps p hp
    rcases List.mem_append.1 hp with hp | hp
    · exact hvisited p hp
    · exact hps p hp
  cases h with
  | done hread => exact .done (hboth hread)
  | failed hread hfails =>
    rw [← List.append_assoc]
    exact .failed (hboth hread) hfails

/-- `Ended` depends on the slots of the visited places alone. -/
theorem of_same (h : Ended ctx index before after visited r)
    (hbefore : ∀ p ∈ visited, before'[p.slot]? = before[p.slot]?)
    (hafter : ∀ p ∈ visited, after'[p.slot]? = after[p.slot]?) :
    Ended ctx index before' after' visited r := by
  cases h with
  | done hread => exact .done fun p hp => (hread p hp).of_same (hbefore p hp) (hafter p hp)
  | failed hread hfails =>
    refine .failed (fun q hq => ?_) ?_
    · exact (hread q hq).of_same (hbefore q (List.mem_append_left _ hq))
        (hafter q (List.mem_append_left _ hq))
    · exact hfails.of_same (hbefore _ (List.mem_append_right _ (List.mem_singleton_self _)))
        (hafter _ (List.mem_append_right _ (List.mem_singleton_self _)))

end Ended

/-- What a walk does that comes to the places `visited`: it ends with one of them, and touches no
others. -/
structure Tracks (ctx : Context) (index : FieldIndex) (before after : List Value)
    (visited : List Place) (r : Except SchemaError Unit) : Prop where
  ended : Ended ctx index before after visited r
  others : ∀ i, (∀ p ∈ visited, p.slot ≠ i) → after[i]? = before[i]?

namespace Tracks

variable {ctx : Context} {index : FieldIndex} {before inner after : List Value}
  {p : Place} {visited more : List Place} {r : Except SchemaError Unit} {e : SchemaError}

/-- `Tracks` with a place in front that has no octets. -/
theorem missing (h : Tracks ctx index before after visited r)
    (hfound : index.find? p.about.tag = none) (hkept : after[p.slot]? = before[p.slot]?) :
    Tracks ctx index before after (p :: visited) r :=
  ⟨Ended.append (List.forall_mem_singleton.2 (.inl ⟨hfound, hkept⟩)) h.ended,
    fun i hi => h.others i fun q hq => hi q (List.mem_cons_of_mem _ hq)⟩

/-- `Tracks` with a place in front that is read: the walk finds those behind it as they
were before. -/
theorem read {raw : RawField} {old v : Value} {c : Cursor} (hfound : index.find? p.about.tag = some raw)
    (htype : raw.type = p.type.wireType) (hold : before[p.slot]? = some old)
    (hread : p.type.decodeBody p.about ctx old raw.cursor = ⟨v, c, .ok ()⟩)
    (hafter : after[p.slot]? = some v) (hbehind : ∀ q ∈ visited, p.slot < q.slot)
    (h : Tracks ctx index (before.set p.slot v) after visited r) :
    Tracks ctx index before after (p :: visited) r := by
  have hfirst : p.IsRead ctx index before after :=
    .inr ⟨raw, old, v, c, hfound, htype, hold, hread, hafter⟩
  constructor
  case ended =>
    refine Ended.append (List.forall_mem_singleton.2 hfirst) (h.ended.of_same (fun q hq => ?_)
      fun _ _ => rfl)
    exact (List.getElem?_set_ne (Nat.ne_of_lt (hbehind q hq))).symm
  case others =>
    intro i hi
    rw [h.others i fun q hq => hi q (List.mem_cons_of_mem _ hq),
      List.getElem?_set_ne (hi p List.mem_cons_self)]

/-- `Tracks` a walk that ends at once, with a place that cannot be read. -/
theorem refused (hfails : p.Fails ctx index before after e)
    (hothers : ∀ i, p.slot ≠ i → after[i]? = before[i]?) :
    Tracks ctx index before after [p] (.error e) :=
  ⟨.failed (List.forall_mem_nil _) hfails, fun i hi => hothers i (hi p List.mem_cons_self)⟩

/-- `Tracks` of two walks one after the other, neither of which touches the places of the other. -/
theorem append (h : Tracks ctx index before inner visited (.ok ()))
    (h' : Tracks ctx index inner after more r)
    (hkept : ∀ p ∈ visited, after[p.slot]? = inner[p.slot]?)
    (hkept' : ∀ p ∈ more, inner[p.slot]? = before[p.slot]?) :
    Tracks ctx index before after (visited ++ more) r := by
  constructor
  case ended =>
    exact Ended.append (fun p hp => (h.ended.isRead p hp).of_same rfl (hkept p hp))
      (h'.ended.of_same (fun p hp => (hkept' p hp).symm) fun _ _ => rfl)
  case others =>
    intro i hi
    rw [h'.others i fun p hp => hi p (List.mem_append_right _ hp),
      h.others i fun p hp => hi p (List.mem_append_left _ hp)]

end Tracks

namespace Layout

/-- The places that a reader of an indexed body comes to, in order.  After a failure it comes to no
more of them. -/
def visited (layout : Layout) (ctx : Context) (index : FieldIndex) (slot : Nat)
    (fields : List Value) : List Place :=
  (layout.visits ctx index slot fields).map (·.1)

/-- `visited` are `places` of the layout. -/
theorem mem_places_of_visited {layout : Layout} {ctx : Context} {index : FieldIndex} {slot : Nat}
    {fields : List Value} {p : Place} (h : p ∈ layout.visited ctx index slot fields) :
    p ∈ layout.places slot := by
  obtain ⟨x, hx, rfl⟩ := List.mem_map.1 h
  exact layout.mem_places_of_visits x hx

/-- `visited` are places in their order. -/
theorem visited_sublist {ctx : Context} {index : FieldIndex} : (layout : Layout) →
    ∀ (slot : Nat) (fields : List Value),
    (layout.visited ctx index slot fields).Sublist (layout.places slot)
  | nil, _, _ => .slnil
  | field about type initial rest, slot, fields => by
    simp only [visited, visits, List.map_cons, places]
    refine List.Sublist.cons_cons _ ?_
    -- The places behind the field are come to only after it could be read.
    split
    · exact rest.visited_sublist _ _
    · split
      · exact List.nil_sublist _
      · split
        · exact List.nil_sublist _
        · exact rest.visited_sublist _ _
  | group name guard body rest, slot, fields => by
    simp only [visited, visits, places]
    split
    · rw [List.map_append]
      refine (body.visited_sublist slot fields).append ?_
      split
      · exact List.nil_sublist _
      · exact rest.visited_sublist _ _
    · exact (rest.visited_sublist _ _).trans (List.sublist_append_right _ _)

/-- The slots of what is `visited` ascend. -/
theorem pairwise_visited (layout : Layout) (ctx : Context) (index : FieldIndex) (slot : Nat)
    (fields : List Value) :
    (layout.visited ctx index slot fields).Pairwise (·.slot < ·.slot) := by
  have hslots : (layout.places slot).Pairwise (·.slot < ·.slot) := by
    rw [← List.pairwise_map (f := Place.slot) (R := (· < ·)), slots_places]
    exact List.pairwise_lt_range'
  exact hslots.sublist (layout.visited_sublist slot fields)

/-- What `decode_field_tracks` and `decode_group_tracks` suppose of the layouts in a layout. -/
def DecodeTracks (layout : Layout) (ctx : Context) (index : FieldIndex) : Prop :=
  ∀ {slot : Nat} {fields got : List Value} {r : Except SchemaError Unit},
    slot + layout.size ≤ fields.length → layout.decode ctx index slot fields = (got, r) →
    Tracks ctx index fields got (layout.visited ctx index slot fields) r

section

variable {ctx : Context} {index : FieldIndex} {slot : Nat} {fields got : List Value}
  {r : Except SchemaError Unit}

/-- `decode` of a field whose tag is not in the index leaves it as it is, and goes on behind it. -/
theorem decode_missing_tracks {about : FieldMeta} {type : ValueType} {initial : Value} {rest : Layout}
    (ih : rest.DecodeTracks ctx index) (hsize : slot + 1 + rest.size ≤ fields.length)
    (hfound : index.find? about.tag = none)
    (h : (field about type initial rest).decode ctx index slot fields = (got, r)) :
    Tracks ctx index fields got ((field about type initial rest).visited ctx index slot fields) r := by
  simp only [decode, hfound] at h
  simp only [visited, visits, List.map_cons, hfound]
  exact (ih hsize h).missing hfound (getElem?_of_decode h)

/-- `decode` of a field whose tag is in the index refuses it for its wire type, fails to read it, or
reads it; only in the last case it goes on. -/
theorem decode_found_tracks {about : FieldMeta} {type : ValueType} {initial : Value} {rest : Layout}
    (ih : rest.DecodeTracks ctx index) (hsize : slot + 1 + rest.size ≤ fields.length)
    {raw : RawField} (hfound : index.find? about.tag = some raw)
    (h : (field about type initial rest).decode ctx index slot fields = (got, r)) :
    Tracks ctx index fields got ((field about type initial rest).visited ctx index slot fields) r := by
  have hslot : fields[slot]? = some (fields[slot]?.getD type.initial) := by
    rw [List.getElem?_eq_getElem (by omega), Option.getD_some]
  simp only [decode, hfound] at h
  simp only [visited, visits, List.map_cons, hfound]
  by_cases htype : raw.type = type.wireType
  · have hexpect : raw.expect type.wireType = .ok () := if_pos htype
    simp only [hexpect] at h ⊢
    rcases hx : type.decodeBody about ctx (fields[slot]?.getD type.initial) raw.cursor with
      ⟨v, c, _ | _⟩
    case error e =>
      simp only [hx, Prod.mk.injEq] at h ⊢
      obtain ⟨rfl, rfl⟩ := h
      have hset : (fields.set slot v)[slot]? = some v := List.getElem?_set_self (by omega)
      exact .refused ⟨raw, _, hfound, hslot, .inr ⟨htype, v, c, hx, hset⟩⟩
        fun i hi => List.getElem?_set_ne hi
    case ok =>
      simp only [hx] at h ⊢
      refine Tracks.read hfound htype hslot hx ?_ (fun q hq => ?_)
        (ih (by rw [List.length_set]; exact hsize) h)
      · rw [getElem?_of_decode h, List.getElem?_set_self (by omega)]
      · have hplace := slot_of_mem_places (mem_places_of_visited hq)
        exact hplace.1
  · have hexpect : raw.expect type.wireType =
        .error (.wireTypeMismatch raw.tag type.wireType raw.type) := if_neg htype
    simp only [hexpect, Prod.mk.injEq] at h ⊢
    obtain ⟨rfl, rfl⟩ := h
    exact .refused ⟨raw, _, hfound, hslot, .inl ⟨htype, rfl, hslot⟩⟩ fun _ _ => rfl

/-- `decode` of a group that is present goes on behind it, unless the body of the group fails. -/
theorem decode_group_tracks {name : String} {guard : Guard} {body rest : Layout}
    (hbody : body.DecodeTracks ctx index) (hrest : rest.DecodeTracks ctx index)
    (hsize : slot + (body.size + rest.size) ≤ fields.length)
    (h : (group name guard body rest).decode ctx index slot fields = (got, r)) :
    Tracks ctx index fields got ((group name guard body rest).visited ctx index slot fields) r := by
  simp only [decode] at h
  simp only [visited, visits]
  by_cases hguard : guard fields ctx
  · simp only [hguard, if_true, List.map_append] at h ⊢
    obtain ⟨hlength, hframe⟩ := body.decode_frame ctx index slot fields
    rcases hinner : body.decode ctx index slot fields with ⟨inner, _ | _⟩
    case error e =>
      simp only [hinner, Prod.mk.injEq] at h
      obtain ⟨rfl, rfl⟩ := h
      rw [List.map_nil, List.append_nil]
      exact hbody (by omega) hinner
    case ok =>
      simp only [hinner] at h hlength hframe ⊢
      have hframe' := (rest.decode_frame ctx index (slot + body.size) inner).2
      rw [h] at hframe'
      -- Neither part of the walk touches the places that the other one comes to.
      refine (hbody (by omega) hinner).append (hrest (by omega) h) (fun p hp => ?_) fun p hp => ?_
      · have hplace := slot_of_mem_places (mem_places_of_visited hp)
        exact hframe' p.slot (.inl hplace.2)
      · have hplace := slot_of_mem_places (mem_places_of_visited hp)
        exact hframe p.slot (.inr hplace.1)
  · simp only [hguard, Bool.false_eq_true, if_false] at h ⊢
    exact hrest (by omega) h

end

/-- `decode` ends with one of the places that it comes to, and touches no others. -/
theorem decode_tracks {ctx : Context} {index : FieldIndex} : (layout : Layout) →
    layout.DecodeTracks ctx index
  | nil, slot, fields, got, r, _, h => by
    rw [decode, Prod.mk.injEq] at h
    obtain ⟨rfl, rfl⟩ := h
    exact ⟨.done (by simp [visited, visits]), fun _ _ => rfl⟩
  | field about type initial rest, slot, fields, got, r, hsize, h => by
    have ih : rest.DecodeTracks ctx index := rest.decode_tracks
    simp only [size] at hsize
    cases hfound : index.find? about.tag with
    | none => exact decode_missing_tracks ih (by omega) hfound h
    | some raw => exact decode_found_tracks ih (by omega) hfound h
  | group name guard body rest, slot, fields, got, r, hsize, h =>
    decode_group_tracks body.decode_tracks rest.decode_tracks hsize h

end Layout

/-! ## Bodies of messages -/

/-- A field whose value is a number. -/
def RawField.IsNumber (raw : RawField) : Prop :=
  raw.type = .varint ∧ ∃ n c, Cursor.varint raw.cursor = .ok n c

/-- `checkFormatVersion` passes a body without a format version, and one whose format version is
a number. -/
theorem checkFormatVersion_eq_ok {index : FieldIndex} :
    checkFormatVersion index = .ok () ↔
      ∀ raw, index.find? formatVersionTag = some raw → raw.IsNumber := by
  unfold checkFormatVersion
  cases hfound : index.find? formatVersionTag with
  | none => simp
  | some raw =>
    simp only [Option.some.injEq, forall_eq', RawField.IsNumber]
    by_cases htype : raw.type = .varint
    · have hexpect : raw.expect .varint = .ok () := if_pos htype
      cases hn : Cursor.varint raw.cursor with
      | ok n c => simp [hexpect, htype]
      | error e c => simp [hexpect]
    · have hexpect : raw.expect .varint = .error _ := if_neg htype
      simp [hexpect, htype]

namespace RecordType

/-- The fields of the body of a message can be found, and its format version, if there is one, is a
number. -/
def Finds (r : RecordType) (body : Bytes) (index : FieldIndex) : Prop :=
  r.index body = .ok index ∧ ∀ raw, index.find? formatVersionTag = some raw → raw.IsNumber

/-- The fields of a message that a reader of its body comes to.  The format version is none of
them. -/
def visited (r : RecordType) (ctx : Context) (index : FieldIndex) (fields : List Value) :
    List Place :=
  r.layout.visited ctx (index.without formatVersionTag) 0 fields

/-- What a read of a body that has failed with `e` leaves of the fields of a message. -/
inductive Leaves (r : RecordType) (ctx : Context) (body : Bytes) (before after : List Value)
    (e : SchemaError) : Prop
  /-- Without fields that can be found, and a number for a format version, nothing is touched. -/
  | untouched (hnone : ∀ index, ¬ r.Finds body index) (hsame : after = before)
  /-- The hook has refused what has been read in full. -/
  | refused {index : FieldIndex} {hook : Hook} (hfinds : r.Finds body index)
    (hhook : r.hook = some hook) (hrefused : hook after ctx = .error e)
    (hread : ∀ p ∈ r.visited ctx index before,
      p.IsRead ctx (index.without formatVersionTag) before after)
    (hother : ∀ i, (∀ p ∈ r.visited ctx index before, p.slot ≠ i) → after[i]? = before[i]?)
  /-- The last place that the walk has come to has failed; those before it have been read, and no
  others have been touched. -/
  | broken {index : FieldIndex} {read : List Place} {p : Place} (hfinds : r.Finds body index)
    (hvisited : r.visited ctx index before = read ++ [p])
    (hread : ∀ q ∈ read, q.slot < p.slot ∧
      q.IsRead ctx (index.without formatVersionTag) before after)
    (hfails : p.Fails ctx (index.without formatVersionTag) before after e)
    (hother : ∀ i, i ≠ p.slot → (∀ q ∈ read, q.slot ≠ i) → after[i]? = before[i]?)

variable {r : RecordType} {ctx : Context} {body : Bytes} {index : FieldIndex}
  {before after : List Value} {e : SchemaError}

/-- `decodeIndexed` fails in the walk over the fields or in the hook behind it. -/
theorem leaves_of_decodeIndexed (hsize : before.length = r.layout.size)
    (hfinds : r.Finds body index)
    (h : r.decodeIndexed ctx (index.without formatVersionTag) before = (after, .error e)) :
    r.Leaves ctx body before after e := by
  unfold decodeIndexed at h
  cases hx : r.layout.decode ctx (index.without formatVersionTag) 0 before with
  | mk got result =>
    obtain ⟨hended, hother⟩ := r.layout.decode_tracks (by omega) hx
    rw [hx] at h
    cases result with
    | error e' =>
      simp only [Prod.mk.injEq, Except.error.injEq] at h
      obtain ⟨rfl, rfl⟩ := h
      obtain ⟨read, p, hvisited, hread, hfails⟩ := hended.exists_of_error
      -- The slots ascend, so those that have been read stand before the one that failed.
      have horder := r.layout.pairwise_visited ctx (index.without formatVersionTag) 0 before
      rw [hvisited, List.pairwise_append] at horder
      refine .broken hfinds hvisited (fun q hq => ?_) hfails fun i hi hread => hother i fun q hq => ?_
      · exact ⟨horder.2.2 q hq p (List.mem_singleton_self p), hread q hq⟩
      · rw [hvisited] at hq
        rcases List.mem_append.1 hq with hq | hq
        · exact hread q hq
        · obtain rfl := List.mem_singleton.1 hq
          exact hi.symm
    | ok u =>
      cases hhook : r.hook with
      | none => simp [hhook] at h
      | some hook =>
        simp only [hhook] at h
        cases hresult : hook got ctx with
        | ok fields => simp [hresult] at h
        | error e' =>
          simp only [hresult, Prod.mk.injEq, Except.error.injEq] at h
          obtain ⟨rfl, rfl⟩ := h
          exact .refused hfinds hhook hresult hended.isRead hother

/-- `decodeMessage` fails before the walk over the fields or in `decodeIndexed`. -/
theorem leaves_of_decodeMessage (hsize : before.length = r.layout.size)
    (h : r.decodeMessage ctx body before = (after, .error e)) :
    r.Leaves ctx body before after e := by
  unfold decodeMessage at h
  cases hindex : r.index body with
  | error e' =>
    simp only [hindex, Prod.mk.injEq] at h
    exact .untouched (fun index hfinds => by simp [Finds, hindex] at hfinds) h.1.symm
  | ok index =>
    simp only [hindex] at h
    cases hversion : checkFormatVersion index with
    | error e' =>
      simp only [hversion, Prod.mk.injEq] at h
      -- The body is indexed in one way only, and the format version found there is no number.
      refine .untouched (fun index' hfinds => ?_) h.1.symm
      obtain rfl : index = index' := Except.ok.inj (hindex.symm.trans hfinds.1)
      rw [checkFormatVersion_eq_ok.2 hfinds.2] at hversion
      cases hversion
    | ok u =>
      simp only [hversion] at h
      exact leaves_of_decodeIndexed hsize ⟨hindex, checkFormatVersion_eq_ok.1 hversion⟩ h

end RecordType

/-- After a `decodeMessage` or `decodeInto` that fails, what the message holds is known.  Where the
body cannot be indexed, or `checkFormatVersion` refuses it, the fields are those of before.
Otherwise all that the walk of `Layout.decode` has come to, one after the other, has been read, up
to the field that has failed, if it was not the `hook` that failed.  Nothing else has changed,
neither other fields nor the `envelope`. -/
theorem failed_read_leaves :
    (∀ (r : RecordType) (ctx : Context) (body : Bytes) (before after : List Value) (e : SchemaError),
      before.length = r.layout.size → r.decodeMessage ctx body before = (after, .error e) →
      r.Leaves ctx body before after e) ∧
    ∀ (m m' : Message) (ctx : Context) (body : Bytes) (e : SchemaError),
      m.fields.length = m.type.recordType.layout.size → m.decodeInto ctx body = (m', .error e) →
      m'.type = m.type ∧ m'.envelope = m.envelope ∧
        m.type.recordType.Leaves ctx body m.fields m'.fields e := by
  refine ⟨fun r ctx body before after e hsize h => RecordType.leaves_of_decodeMessage hsize h, ?_⟩
  intro m m' ctx body e hsize h
  rw [Message.decodeInto, Prod.mk.injEq] at h
  obtain ⟨rfl, hresult⟩ := h
  exact ⟨rfl, rfl, RecordType.leaves_of_decodeMessage hsize (Prod.ext rfl hresult)⟩

/-- `decodeInto` of a response whose second field is no text: the field before it has been read, and
those behind it have not been touched although they stand earlier in the body. -/
theorem failed_read_leaves_response :
    let before : Message := ⟨.main .fetchStoreResponse, { requestId := 9 },
      [.number 7, .text "old", .signed 3, .record [.number 1, .number 2], .stream {}]⟩
    let after : Message := { before with fields :=
      [.number 0, .text "old", .signed 3, .record [.number 1, .number 2], .stream {}] }
    let body : Bytes := [0, 1, 0x2B, 1, 1, 0x61, 0, 0x18, 4, 0x12, 1, 0xFF, 8, 0]
    let e : SchemaError := .wire (.invalidValue 2 (.malformedText ⟨0, some 1⟩))
    before.fields.length = before.type.recordType.layout.size ∧
      before.decodeInto .ofLocal body = (after, .error e) ∧
      after.type = before.type ∧ after.envelope = before.envelope ∧
      before.type.recordType.Leaves .ofLocal body before.fields after.fields e := by
  intro before after body e
  have hindex : FieldIndex.ofBody before.type.recordType.layout.byteBound body =
      .ok [⟨0, .varint, [1]⟩, ⟨5, .stream, [1, 1, 0x61, 0]⟩, ⟨3, .varint, [4]⟩, ⟨2, .len, [0xFF]⟩,
        ⟨1, .varint, [0]⟩] := by decide +kernel
  have hread : before.decodeInto .ofLocal body = (after, .error e) := by
    rw [Message.decodeInto, RecordType.decodeMessage, RecordType.index, hindex]
    rfl
  exact ⟨rfl, hread, failed_read_leaves.2 before after _ body e rfl hread⟩

end Storefront
