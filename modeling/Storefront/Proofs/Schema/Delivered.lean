import Storefront.Proofs.Schema.Walk

/-! # What a receiver makes of a body

A receiver walks over its own record while it fills it, so its guards see less than those of the
sender did.  Guards that depend on nothing but what has arrived by then say the same on both sides
(`Settled`), and the receiver ends up with the fields that both walks come to.

* `Receives`       what a receiver needs in front of a layout, and keeps from field to field
* `decode_fills`   one walk of a receiver over an indexed body
-/

namespace Storefront

/-! ## Guards that can be trusted -/

/-- How what a receiver holds may differ from what was sent for a field of a type. -/
abbrev Likeness := ValueType → Value → Value → Prop

namespace Likeness

/-- Nothing differs. -/
def same : Likeness := fun _ sent got => got = sent

/-- Streams differ: a sender holds a source and a receiver what it yielded. -/
def arrived : Likeness := fun type sent got => type.holds sent ∧ sent.Arrives got

end Likeness

/-- Two records are alike in the given places. -/
def Alike (like : Likeness) (known : List Place) (sent got : List Value) : Prop :=
  ∀ p ∈ known, ∃ v w, sent[p.slot]? = some v ∧ got[p.slot]? = some w ∧ like p.type v w

/-- `Alike` is kept while the places in question are left alone. -/
theorem Alike.of_kept {like : Likeness} {known : List Place} {sent got got' : List Value}
    (h : Alike like known sent got) (hkept : ∀ p ∈ known, got'[p.slot]? = got[p.slot]?) :
    Alike like known sent got' := by
  intro p hp
  obtain ⟨v, w, hv, hw, hlike⟩ := h p hp
  exact ⟨v, w, hv, by rw [hkept p hp, hw], hlike⟩

/-- `Alike` in one place more. -/
theorem Alike.cons {like : Likeness} {known : List Place} {sent got : List Value} {p : Place}
    {v w : Value} (h : Alike like known sent got) (hv : sent[p.slot]? = some v)
    (hw : got[p.slot]? = some w) (hlike : like p.type v w) : Alike like (p :: known) sent got := by
  intro q hq
  rcases List.mem_cons.1 hq with rfl | hq
  · exact ⟨v, w, hv, hw, hlike⟩
  · exact h q hq

/-- `Alike` once a place has been filled, which outside of groups is one of those in
question then. -/
theorem Alike.grow {like : Likeness} {known : List Place} {sent got : List Value} {p : Place}
    {v w : Value} (outer : Bool) (h : Alike like known sent got)
    (hbefore : ∀ q ∈ known, q.slot < p.slot) (hv : sent[p.slot]? = some v)
    (hslot : p.slot < got.length) (hlike : like p.type v w) :
    Alike like (if outer then p :: known else known) sent (got.set p.slot w) := by
  have hkept : Alike like known sent (got.set p.slot w) := by
    apply h.of_kept
    intro q hq
    exact List.getElem?_set_ne (Nat.ne_of_gt (hbefore q hq))
  cases outer with
  | false => exact hkept
  | true => exact hkept.cons hv (List.getElem?_set_self hslot) hlike

/-- The places in question, `known`, are those before the one that comes next. -/
theorem slot_lt_of_mem_grown {known : List Place} {p : Place} (outer : Bool)
    (hbefore : ∀ q ∈ known, q.slot < p.slot) :
    ∀ q ∈ (if outer then p :: known else known), q.slot < p.slot + 1 := by
  intro q hq
  cases outer with
  | false => exact Nat.lt_succ_of_lt (hbefore q hq)
  | true =>
    rcases List.mem_cons.1 hq with rfl | hq
    · exact Nat.lt_succ_self q.slot
    · exact Nat.lt_succ_of_lt (hbefore q hq)

/-- A guard that looks at nothing but the context and the given places of a record, and there at
nothing that may differ. -/
def Guard.DependsOn (guard : Guard) (like : Likeness) (known : List Place) : Prop :=
  ∀ sent got ctx, Alike like known sent got → guard sent ctx = guard got ctx

/-- Every guard depends on fields alone that come before its group and are in no group themselves.
Those so far are `known`; `outer` is false inside a group. -/
def Layout.Settled (like : Likeness) :
    Layout → (outer : Bool) → (known : List Place) → (slot : Nat) → Prop
  | nil, _, _, _ => True
  | field about type _ rest, outer, known, slot =>
    rest.Settled like outer (if outer then ⟨slot, about, type⟩ :: known else known) (slot + 1)
  | group _ guard body rest, outer, known, slot =>
    Guard.DependsOn guard like known ∧ body.Settled like false known slot ∧
      rest.Settled like outer known (slot + body.size)

/-- `DependsOn` for `same` is `DependsOn` for `arrived` where no stream is looked at. -/
theorem Guard.DependsOn.of_same {known : List Place} {guard : Guard}
    (h : guard.DependsOn Likeness.same known) (hfree : ∀ p ∈ known, p.type.streamFree) :
    guard.DependsOn Likeness.arrived known := by
  intro sent got ctx halike
  refine h sent got ctx fun p hp => ?_
  obtain ⟨v, w, hv, hw, hholds, harrives⟩ := halike p hp
  exact ⟨v, w, hv, hw, p.type.eq_of_arrives (hfree p hp) hholds harrives⟩

/-! ## One walk -/

/-- A place whose value a receiver gets out of what a sender wrote for it. -/
def Place.Recovers (p : Place) (sender receiver : Context) (sent : List Value) (old : Value) :
    Prop :=
  ∃ got c, (p.value sent).Arrives got ∧
    p.type.decodeBody p.about receiver old (p.raw sender sent).cursor = ⟨got, c, .ok ()⟩

/-- Of some places, an index has those whose slots have been written, and a receiver that holds
`got` can recover them; it has nothing for the others. -/
structure Offers (sender receiver : Context) (sent : List Value) (written : Nat → Prop)
    (index : FieldIndex) (places : List Place) (got : List Value) : Prop where
  found : ∀ p ∈ places, written p.slot → index.find? p.about.tag = some (p.raw sender sent) ∧
    ∃ old, got[p.slot]? = some old ∧ p.Recovers sender receiver sent old
  missing : ∀ p ∈ places, ¬ written p.slot → index.find? p.about.tag = none

/-- `Offers` holds of fewer places, and as long as these are left alone. -/
theorem Offers.of_kept {sender receiver : Context} {sent : List Value} {written : Nat → Prop}
    {index : FieldIndex} {places places' : List Place} {got got' : List Value}
    (h : Offers sender receiver sent written index places got) (hfewer : places' ⊆ places)
    (hkept : ∀ p ∈ places', got'[p.slot]? = got[p.slot]?) :
    Offers sender receiver sent written index places' got' := by
  constructor
  case found =>
    intro p hp hw
    rw [hkept p hp]
    exact h.found p (hfewer hp) hw
  case missing =>
    intro p hp hw
    exact h.missing p (hfewer hp) hw

namespace Layout

/-- What a walk of a receiver does to its record, given which slots have been written. -/
structure Fills (layout : Layout) (receiver : Context) (sent : List Value) (written : Nat → Prop)
    (slot : Nat) (got got' : List Value) : Prop where
  length : got'.length = got.length
  frame : ∀ i, i < slot ∨ slot + layout.size ≤ i → got'[i]? = got[i]?
  arrived : ∀ p ∈ layout.walk receiver sent slot, written p.slot →
    ∃ w, got'[p.slot]? = some w ∧ (p.value sent).Arrives w
  kept : ∀ p ∈ layout.places slot, ¬ (written p.slot ∧ p ∈ layout.walk receiver sent slot) →
    got'[p.slot]? = got[p.slot]?

section

variable {receiver : Context} {sent got got₁ got₂ : List Value} {written : Nat → Prop} {slot : Nat}
variable {name : String} {guard : Guard} {body rest : Layout}

/-- `Fills` with a field whose place is filled in front. -/
theorem Fills.cons {about : FieldMeta} {type : ValueType} {initial w : Value}
    (hslot : slot < got.length)
    (hw : ((Place.mk slot about type).value sent).Arrives w) (hwritten : written slot)
    (h : rest.Fills receiver sent written (slot + 1) (got.set slot w) got₂) :
    (field about type initial rest).Fills receiver sent written slot got got₂ := by
  -- the walk over `rest` starts behind `slot`, so what was put there is still there
  have hset : got₂[slot]? = some w := by
    rw [h.frame slot (.inl (Nat.lt_succ_self slot)), List.getElem?_set_self hslot]
  constructor
  case length => rw [h.length, List.length_set]
  case frame =>
    intro i hi
    simp only [size] at hi
    rw [h.frame i (by omega), List.getElem?_set_ne (by omega)]
  case arrived =>
    intro p hp hwp
    rcases List.mem_cons.1 hp with rfl | hp
    · exact ⟨w, hset, hw⟩
    · exact h.arrived p hp hwp
  case kept =>
    intro p hp hnot
    rcases List.mem_cons.1 hp with rfl | hp
    · exact absurd ⟨hwritten, List.mem_cons_self⟩ hnot
    · have := slot_of_mem_places hp
      rw [h.kept p hp fun hn => hnot ⟨hn.1, List.mem_cons_of_mem _ hn.2⟩,
        List.getElem?_set_ne (by omega)]

/-- `Fills` with a field in front that has not been written. -/
theorem Fills.skip {about : FieldMeta} {type : ValueType} {initial : Value}
    (hwritten : ¬ written slot) (h : rest.Fills receiver sent written (slot + 1) got got₂) :
    (field about type initial rest).Fills receiver sent written slot got got₂ := by
  constructor
  case length => exact h.length
  case frame =>
    intro i hi
    simp only [size] at hi
    exact h.frame i (by omega)
  case arrived =>
    intro p hp hwp
    rcases List.mem_cons.1 hp with rfl | hp
    · exact absurd hwp hwritten
    · exact h.arrived p hp hwp
  case kept =>
    intro p hp hnot
    rcases List.mem_cons.1 hp with rfl | hp
    · exact h.frame slot (.inl (Nat.lt_succ_self slot))
    · exact h.kept p hp fun hn => hnot ⟨hn.1, List.mem_cons_of_mem _ hn.2⟩

/-- `Fills` with a group in front that is present. -/
theorem Fills.enter (hguard : guard sent receiver)
    (hbody : body.Fills receiver sent written slot got got₁)
    (hrest : rest.Fills receiver sent written (slot + body.size) got₁ got₂) :
    (group name guard body rest).Fills receiver sent written slot got got₂ := by
  have hwalk : (group name guard body rest).walk receiver sent slot =
      body.walk receiver sent slot ++ rest.walk receiver sent (slot + body.size) := by
    simp only [walk, hguard, if_true]
  constructor
  case length => rw [hrest.length, hbody.length]
  case frame =>
    intro i hi
    simp only [size] at hi
    rw [hrest.frame i (by omega), hbody.frame i (by omega)]
  case arrived =>
    intro p hp hwp
    rw [hwalk] at hp
    rcases List.mem_append.1 hp with hp | hp
    · -- a place of `body` stands before all of `rest`, which therefore leaves it as `body` did
      have := slot_of_mem_places ((walk_sublist receiver sent body slot).subset hp)
      rw [hrest.frame p.slot (by omega)]
      exact hbody.arrived p hp hwp
    · exact hrest.arrived p hp hwp
  case kept =>
    intro p hp hnot
    rw [hwalk] at hnot
    rcases List.mem_append.1 hp with hp | hp
    · have := slot_of_mem_places hp
      rw [hrest.frame p.slot (by omega)]
      exact hbody.kept p hp fun hn => hnot ⟨hn.1, List.mem_append_left _ hn.2⟩
    · have := slot_of_mem_places hp
      rw [hrest.kept p hp fun hn => hnot ⟨hn.1, List.mem_append_right _ hn.2⟩,
        hbody.frame p.slot (by omega)]

/-- `Fills` with a group in front that is absent. -/
theorem Fills.pass (hguard : ¬ guard sent receiver)
    (h : rest.Fills receiver sent written (slot + body.size) got got₂) :
    (group name guard body rest).Fills receiver sent written slot got got₂ := by
  have hwalk : (group name guard body rest).walk receiver sent slot =
      rest.walk receiver sent (slot + body.size) := by
    simp only [walk, hguard, Bool.false_eq_true, if_false, List.nil_append]
  constructor
  case length => exact h.length
  case frame =>
    intro i hi
    simp only [size] at hi
    exact h.frame i (by omega)
  case arrived =>
    intro p hp hwp
    rw [hwalk] at hp
    exact h.arrived p hp hwp
  case kept =>
    intro p hp hnot
    rw [hwalk] at hnot
    rcases List.mem_append.1 hp with hp | hp
    · -- the walk skips `body`, and `rest` starts behind its last slot
      have := slot_of_mem_places hp
      exact h.frame p.slot (by omega)
    · exact h.kept p hp hnot

end

/-- What `decode_fills` asks of the record `got` of a receiver that stands in front of slot `slot`:
the index offers what has been written of the layout, and the guards can see all that they depend
on. -/
structure Receives (layout : Layout) (sender receiver : Context) (sent : List Value)
    (written : Nat → Prop) (index : FieldIndex) (outer : Bool) (known : List Place) (slot : Nat)
    (got : List Value) : Prop where
  holds : layout.holds slot sent
  settled : layout.Settled Likeness.arrived outer known slot
  offers : Offers sender receiver sent written index (layout.places slot) got
  /-- The sender writes every field that is in no group. -/
  walked : outer → ∀ p ∈ layout.walk sender sent slot, written p.slot
  before : ∀ p ∈ known, p.slot < slot
  alike : Alike Likeness.arrived known sent got

namespace Receives

variable {sender receiver : Context} {sent got : List Value} {index : FieldIndex}
  {written : Nat → Prop} {outer : Bool} {known : List Place} {slot : Nat}

section

variable {about : FieldMeta} {type : ValueType} {initial : Value} {rest : Layout}

/-- `decode` recovers a field that has been written, and still `Receives` the rest. -/
theorem field_written
    (h : (field about type initial rest).Receives sender receiver sent written index outer known slot
      got) (hw : written slot) :
    ∃ w, slot < got.length ∧ ((Place.mk slot about type).value sent).Arrives w ∧
      (field about type initial rest).decode receiver index slot got =
        rest.decode receiver index (slot + 1) (got.set slot w) ∧
      rest.Receives sender receiver sent written index outer
        (if outer then ⟨slot, about, type⟩ :: known else known) (slot + 1) (got.set slot w) := by
  obtain ⟨⟨v, hs, hvtype⟩, hvrest⟩ := holds_field h.holds
  have hvalue : (Place.mk slot about type).value sent = v := by simp [Place.value, hs]
  -- slot `slot` has been written, so `find?` yields the bytes and `Recovers` what they decode to
  obtain ⟨hfind, old, hold, w, c, harrives, hdecode⟩ :=
    h.offers.found ⟨slot, about, type⟩ List.mem_cons_self hw
  have hslot : slot < got.length := (List.getElem?_eq_some_iff.1 hold).1
  refine ⟨w, hslot, harrives, ?_, hvrest, h.settled, ?_, ?_, ?_, ?_⟩
  · have hexpect : ((Place.mk slot about type).raw sender sent).expect type.wireType = .ok () := by
      simp [RawField.expect, Place.raw]
    simp only [decode, hfind, hexpect, hold, Option.getD_some, hdecode]
  · -- Filling this place leaves those after it as they were.
    apply h.offers.of_kept (List.subset_cons_self _ _)
    intro p hp
    have hp' := slot_of_mem_places hp
    exact List.getElem?_set_ne (by omega)
  · exact fun ho p hp => h.walked ho p (List.mem_cons_of_mem _ hp)
  · exact slot_lt_of_mem_grown outer h.before
  · -- The guards that follow may look at it, and it has arrived by then.
    exact h.alike.grow outer h.before hs hslot ⟨hvtype, hvalue ▸ harrives⟩

/-- `decode` passes over a field that has not been written, which is in a group. -/
theorem field_missing
    (h : (field about type initial rest).Receives sender receiver sent written index outer known slot
      got) (hw : ¬ written slot) :
    (field about type initial rest).decode receiver index slot got =
        rest.decode receiver index (slot + 1) got ∧
      rest.Receives sender receiver sent written index outer known (slot + 1) got := by
  have hfind := h.offers.missing ⟨slot, about, type⟩ List.mem_cons_self hw
  -- outside of groups the sender writes every field, so this one stands inside of one
  have hinner : outer = false := by
    rw [← Bool.not_eq_true]
    exact fun ho => hw (h.walked ho ⟨slot, about, type⟩ List.mem_cons_self)
  subst hinner
  exact ⟨by simp only [decode, hfind], (holds_field h.holds).2, h.settled,
    h.offers.of_kept (List.subset_cons_self _ _) fun _ _ => rfl,
    fun ho p hp => h.walked ho p (List.mem_cons_of_mem _ hp),
    fun p hp => Nat.lt_succ_of_lt (h.before p hp), h.alike⟩

end

section

variable {name : String} {guard : Guard} {body rest : Layout}

/-- The guard of a group says the same of `got` and of `sent`. -/
theorem guard_eq
    (h : (group name guard body rest).Receives sender receiver sent written index outer known slot
      got) : guard got receiver = guard sent receiver :=
  (h.settled.1 sent got receiver h.alike).symm

/-- `Receives` inside of a group, where no field has to have been written. -/
theorem group_body
    (h : (group name guard body rest).Receives sender receiver sent written index outer known slot
      got) : body.Receives sender receiver sent written index false known slot got :=
  ⟨(holds_group h.holds).1, h.settled.2.1,
    h.offers.of_kept (List.subset_append_left _ _) fun _ _ => rfl,
    fun hinner => absurd hinner Bool.false_ne_true, h.before, h.alike⟩

/-- `Receives` behind a group, if nothing but the group has been touched. -/
theorem group_rest {got₁ : List Value}
    (h : (group name guard body rest).Receives sender receiver sent written index outer known slot
      got) (hframe : ∀ i, i < slot ∨ slot + body.size ≤ i → got₁[i]? = got[i]?) :
    rest.Receives sender receiver sent written index outer known (slot + body.size) got₁ := by
  refine ⟨(holds_group h.holds).2, h.settled.2.2, ?_, ?_, ?_, ?_⟩
  · -- the slots of `rest` are those from `slot + body.size` on
    refine h.offers.of_kept (List.subset_append_right _ _) fun p hp => ?_
    have hp' := slot_of_mem_places hp
    exact hframe p.slot (.inr hp'.1)
  · exact fun ho p hp => h.walked ho p (List.mem_append_right _ hp)
  · exact fun p hp => Nat.lt_of_lt_of_le (h.before p hp) (Nat.le_add_right _ _)
  · exact h.alike.of_kept fun p hp => hframe p.slot (.inl (h.before p hp))

end

end Receives

/-- `decode` of a receiver takes over those of the fields `written` that its own walk over what was
sent comes to, and leaves the others alone. -/
theorem decode_fills {sender receiver : Context} {sent : List Value} {index : FieldIndex}
    {written : Nat → Prop} : (layout : Layout) → ∀ {outer known slot got},
    layout.Receives sender receiver sent written index outer known slot got →
    ∃ got', layout.decode receiver index slot got = (got', .ok ()) ∧
      layout.Fills receiver sent written slot got got'
  | nil, outer, known, slot, got, _ =>
    ⟨got, rfl, rfl, fun _ _ => rfl, fun _ hp => absurd hp List.not_mem_nil,
      fun _ hp => absurd hp List.not_mem_nil⟩
  | field about type initial rest, outer, known, slot, got, h => by
    -- Cases as `decode` has them: the tag is found or not, the guard holds or not.
    by_cases hw : written slot
    · obtain ⟨w, hslot, harrives, hstep, hrest⟩ := h.field_written hw
      obtain ⟨got', hdecode, hfills⟩ := rest.decode_fills hrest
      exact ⟨got', hstep.trans hdecode, hfills.cons hslot harrives hw⟩
    · obtain ⟨hstep, hrest⟩ := h.field_missing hw
      obtain ⟨got', hdecode, hfills⟩ := rest.decode_fills hrest
      exact ⟨got', hstep.trans hdecode, hfills.skip hw⟩
  | group name guard body rest, outer, known, slot, got, h => by
    -- The receiver asks its own record, and `guard_eq` turns that into the guard at the sender.
    have hsame := h.guard_eq
    by_cases hg : guard sent receiver
    · obtain ⟨got₁, hdecode₁, hfills₁⟩ := body.decode_fills h.group_body
      obtain ⟨got₂, hdecode₂, hfills₂⟩ := rest.decode_fills (h.group_rest hfills₁.frame)
      refine ⟨got₂, ?_, hfills₁.enter hg hfills₂⟩
      simp only [decode, hsame, hg, if_true, hdecode₁, hdecode₂]
    · obtain ⟨got₂, hdecode₂, hfills₂⟩ := rest.decode_fills (h.group_rest fun _ _ => rfl)
      refine ⟨got₂, ?_, hfills₂.pass hg⟩
      simp only [decode, hsame, hg, Bool.false_eq_true, if_false, hdecode₂]

end Layout

end Storefront
