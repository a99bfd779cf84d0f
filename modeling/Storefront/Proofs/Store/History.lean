import Mathlib.Data.Set.Card
import Storefront.Proofs.Schema.Refusal
import Storefront.Proofs.Store.Registry

/-! # Histories of a registry

A registry is put together by calls, some of which fail, and a family that fails halfway leaves its
first messages behind.  Whatever has been called, keys and types belong together one to one, and what
once belongs together stays together.

* `Call`, `calls`              histories
* `Extends`                    what a call may do to a registry
* `pairwise_registrations`     the registrations in order of their keys
* `registerAll_rows`           what a family adds
* `history_bijective`          what holds of a registry after any history
-/

namespace Storefront

/-! ## The order of keys -/

namespace MessageKey

/-- The place of a key in the order of keys. -/
def rank (key : MessageKey) : Nat := key.family.toNat * 0x10000 + key.message.toNat

/-- The family stands above the sixteen bits of the message, so `rank` tells two keys apart. -/
theorem rank_inj {a b : MessageKey} : a.rank = b.rank ↔ a = b := by
  constructor
  · intro h
    have ha := a.message.toNat_lt
    have hb := b.message.toNat_lt
    simp only [rank] at h
    -- The message is below `0x10000`, so both parts can be read off the sum.
    have hfamily : a.family.toNat = b.family.toNat := by omega
    have hmessage : a.message.toNat = b.message.toNat := by omega
    cases a
    cases b
    simp_all [UInt8.toNat_inj, UInt16.toNat_inj]
  · rintro rfl
    rfl

/-- `compare` looks at the family first and at the message after it, which is the order of `rank`.
-/
theorem compare_eq_lt {a b : MessageKey} : a.compare b = .lt ↔ a.rank < b.rank := by
  have ha := a.message.toNat_lt
  have hb := b.message.toNat_lt
  rw [compare, Ordering.then_eq_lt, Nat.compare_eq_lt, Nat.compare_eq_lt, Nat.compare_eq_eq]
  simp only [rank]
  omega

/-- `le` is the order of `rank` as well. -/
theorem le_eq_true {a b : MessageKey} : a.le b = true ↔ a.rank ≤ b.rank := by
  have ha := a.message.toNat_lt
  have hb := b.message.toNat_lt
  rw [le, compare, bne_iff_ne, Ne, Ordering.then_eq_gt, Nat.compare_eq_gt, Nat.compare_eq_gt,
    Nat.compare_eq_eq]
  simp only [rank]
  omega

theorem le_trans {a b c : MessageKey} (hab : a.le b = true) (hbc : b.le c = true) :
    a.le c = true := by
  rw [le_eq_true] at hab hbc ⊢
  exact Nat.le_trans hab hbc

/-- `le` compares any two keys, as `List.mergeSort` asks of its comparison. -/
theorem le_total (a b : MessageKey) : (a.le b || b.le a) = true := by
  rw [Bool.or_eq_true, le_eq_true, le_eq_true]
  exact Nat.le_total _ _

end MessageKey

namespace Registry

/-! ## Calls -/

/-- A call that adds to a registry. -/
inductive Call where
  | register (key : MessageKey) (type : MessageType)
  | configure (family : ProtocolFamily)

/-- What a call leaves of a registry, and how it ends. -/
def call (r : Registry) : Call → Registry × Except SchemaError Unit
  | .register key type =>
    match r.register key type with
    | .ok r' => (r', .ok ())
    | .error e => (r, .error e)
  | .configure family => r.configure family

/-- What calls leave of a registry, whether they fail or not. -/
def calls (r : Registry) (cs : List Call) : Registry := cs.foldl (fun r c => (r.call c).1) r

/-- A call on a registry that `register` has put together leaves one that `register` has put
together. -/
theorem Grown.call {r : Registry} (hr : r.Grown) (c : Call) : (r.call c).1.Grown := by
  cases c with
  | register key type =>
    rw [Registry.call]
    split
    · rename_i r' h
      exact hr.register h
    · exact hr
  | configure family => exact hr.configure family

/-- So do any `calls`, by induction on them. -/
theorem Grown.calls {r : Registry} (hr : r.Grown) (cs : List Call) : (r.calls cs).Grown := by
  induction cs generalizing r with
  | nil => exact hr
  | cons c cs ih => exact ih (hr.call c)

/-! ## Registries only grow -/

/-- A registry that has come about from another one by registrations has the entries of that one. -/
def Extends (r r' : Registry) : Prop := r.entries <:+ r'.entries

namespace Extends

variable {r r' r'' : Registry}

theorem refl (r : Registry) : Extends r r := List.suffix_refl _

theorem trans (h : Extends r r') (h' : Extends r' r'') : Extends r r'' := List.IsSuffix.trans h h'

/-- `register` puts its entry in front of the others. -/
theorem register {key : MessageKey} {type : MessageType} (h : r.register key type = .ok r') :
    Extends r r' := by
  obtain ⟨-, -, -, rfl⟩ := register_eq_ok_iff.1 h
  exact List.suffix_cons _ _

/-- `registerAll` adds the rows one by one, and stops at the first that `register` refuses. -/
theorem registerAll (id : UInt8) (table : List (UInt16 × MessageType)) (r : Registry) :
    Extends r (registerAll id table r).1 := by
  -- The rows are registered from the front, each into the registry of those before it.
  induction table generalizing r with
  | nil => exact refl r
  | cons row rest ih =>
    simp only [Registry.registerAll]
    split
    · rename_i r' h
      exact (register h).trans (ih r')
    · exact refl r

/-- `configure` adds the entries of its `registerAll`, and nothing when the number is taken. -/
theorem configure (r : Registry) (family : ProtocolFamily) : Extends r (r.configure family).1 := by
  have hall := registerAll family.id family.table r
  -- The number is looked up before any row is registered.
  unfold Registry.configure
  split
  · exact refl r
  · split <;> rename_i h <;> rw [h] at hall <;> exact hall

/-- `call` of either kind `Extends` the registry. -/
theorem call (r : Registry) (c : Call) : Extends r (r.call c).1 := by
  cases c with
  | register key type =>
    rw [Registry.call]
    split
    · rename_i r' h
      exact register h
    · exact refl r
  | configure family => exact configure r family

/-- So do `calls`, one after the other. -/
theorem calls (r : Registry) (cs : List Call) : Extends r (r.calls cs) := by
  induction cs generalizing r with
  | nil => exact refl r
  | cons c cs ih => exact (call r c).trans (ih _)

end Extends

/-! ## What can be asked of a sound registry -/

/-- `registrations` sorts the entries and leaves none out. -/
theorem mem_registrations {r : Registry} {entry : Registration} :
    entry ∈ r.registrations ↔ entry ∈ r.entries :=
  (List.mergeSort_perm r.entries _).mem_iff

namespace Sound

variable {r r' : Registry} {key : MessageKey} {type : MessageType} {entry : Registration}

/-- `registration` answers the one entry under a key. -/
theorem registration_eq_ok (hr : r.Sound) :
    r.registration key = .ok entry ↔ entry ∈ r.entries ∧ entry.key = key := by
  rw [← hr.lookup?_eq_some, registration]
  by_cases hnull : key.isNull = true
  · -- Nothing stands under the key of keepalives.
    have hnone : r.lookup? key ≠ some entry := by
      intro h
      obtain ⟨hentry, rfl⟩ := hr.lookup?_eq_some.1 h
      rw [hr.notNull entry hentry] at hnull
      cases hnull
    simp [hnull, hnone]
  · cases r.lookup? key <;> simp [hnull]

/-- `keyOf` answers the key that a type stands under. -/
theorem keyOf_eq_ok (hr : r.Sound) : r.keyOf type = .ok key ↔ ⟨key, type⟩ ∈ r.entries := by
  rw [← hr.lookupType?_eq_some, keyOf]
  cases r.lookupType? type <;> simp

/-- `resolve` answers the type that stands under a key. -/
theorem resolve_eq_ok (hr : r.Sound) : r.resolve key = .ok type ↔ ⟨key, type⟩ ∈ r.entries := by
  constructor
  · intro h
    unfold resolve at h
    cases hentry : r.registration key with
    | error e => simp [hentry, Except.map] at h
    | ok entry =>
      simp only [hentry, Except.map, Except.ok.injEq] at h
      obtain ⟨hmem, rfl⟩ := hr.registration_eq_ok.1 hentry
      exact h ▸ hmem
  · intro h
    rw [resolve, hr.registration_eq_ok.2 ⟨h, rfl⟩]
    rfl

/-- `contains` holds of the keys of the entries. -/
theorem contains_iff (hr : r.Sound) :
    r.contains key = true ↔ ∃ entry ∈ r.entries, entry.key = key := by
  rw [contains, Option.isSome_iff_exists]
  simp only [hr.lookup?_eq_some]

/-- `contains` holds of as many keys as there are entries. -/
theorem ncard_keys (hr : r.Sound) : Set.ncard {key | r.contains key = true} = r.size := by
  have hset : {key | r.contains key = true} = ((r.entries.map (·.key)).toFinset : Set MessageKey) := by
    ext key
    simp [hr.contains_iff]
  -- `Sound.keys` makes the list of the keys as long as the set of them is large.
  rw [hset, Set.ncard_coe_finset, List.toFinset_card_of_nodup hr.keys, List.length_map]
  rfl

/-- `keyOf` answers for as many types as there are entries. -/
theorem ncard_types (hr : r.Sound) :
    Set.ncard {type | ∃ key, r.keyOf type = .ok key} = r.size := by
  have hset : {type | ∃ key, r.keyOf type = .ok key} =
      ((r.entries.map (·.type)).toFinset : Set MessageType) := by
    ext type
    simp only [hr.keyOf_eq_ok, Set.mem_ofPred_eq, List.coe_toFinset, List.mem_map]
    constructor
    · rintro ⟨key, hentry⟩
      exact ⟨_, hentry, rfl⟩
    · rintro ⟨entry, hentry, rfl⟩
      exact ⟨entry.key, hentry⟩
  -- `Sound.types` does the same for the types.
  rw [hset, Set.ncard_coe_finset, List.toFinset_card_of_nodup hr.types, List.length_map]
  rfl

/-- `registrations` are in order of their keys, and no key comes twice. -/
theorem pairwise_registrations (hr : r.Sound) :
    r.registrations.Pairwise fun a b => a.key.compare b.key = .lt := by
  -- `List.mergeSort` gives the weak order.
  have hle : r.registrations.Pairwise fun a b => a.key.le b.key = true := by
    apply List.pairwise_mergeSort
    · intro a b c hab hbc
      exact MessageKey.le_trans hab hbc
    · intro a b
      exact MessageKey.le_total a.key b.key
  -- Sorting keeps the keys apart, as `Sound.keys` has them.
  have hne : r.registrations.Pairwise fun a b => a.key ≠ b.key := by
    have hkeys : (r.registrations.map (·.key)).Nodup :=
      ((List.mergeSort_perm r.entries _).map _).nodup_iff.2 hr.keys
    exact List.pairwise_map.1 hkeys
  apply (hle.and hne).imp
  rintro a b ⟨hab, hdiff⟩
  rw [MessageKey.compare_eq_lt]
  exact Nat.lt_of_le_of_ne (MessageKey.le_eq_true.1 hab) fun h => hdiff (MessageKey.rank_inj.1 h)

/-- `registration` answers the same as the registry grows. -/
theorem registration_of_extends (hr : r.Sound) (hr' : r'.Sound) (h : Extends r r')
    (hentry : r.registration key = .ok entry) : r'.registration key = .ok entry := by
  obtain ⟨hmem, hkey⟩ := hr.registration_eq_ok.1 hentry
  exact hr'.registration_eq_ok.2 ⟨h.subset hmem, hkey⟩

/-- So does `keyOf`. -/
theorem keyOf_of_extends (hr : r.Sound) (hr' : r'.Sound) (h : Extends r r')
    (hkey : r.keyOf type = .ok key) : r'.keyOf type = .ok key :=
  hr'.keyOf_eq_ok.2 (h.subset (hr.keyOf_eq_ok.1 hkey))

end Sound

end Registry

/-! ## Messages are refused for their contents only -/

/-- `structural` fails with `structuralVersion`, which is an error of the contents. -/
theorem Hook.structural_minds (record : String) (version : Nat) :
    (Hook.structural record version).Minds := by
  intro fields ctx e h
  unfold Hook.structural checkStructural at h
  split at h
  · cases h
  · rename_i e' he
    cases h
    split at he
    · cases he
    · cases he
      rfl

/-- `clamp` does not fail. -/
theorem VersionRecord.clamp_minds : Hook.Minds VersionRecord.clamp := by
  intro fields ctx e h
  unfold VersionRecord.clamp at h
  split at h
  · cases h
  · split at h <;> cases h

/-- The fields of a version record are numbers, and its hook is `clamp`. -/
theorem VersionRecord.type_minds (family : Family) : (recordType family).type.Minds := by
  refine ⟨?_, fun h hh => Option.some.inj hh ▸ clamp_minds⟩
  cases family <;> simp [recordType, layout, Family.features, Layout.build, Layout.starting,
    Layout.grouped, Layout.Minds, ValueType.Minds]

/-- `Minds` of the request for a handshake: it carries two version records and a number. -/
theorem initRequestLayout_minds (family : Family) (fieldName : String) :
    (initRequestLayout family fieldName).Minds :=
  ⟨VersionRecord.type_minds family, ⟨VersionRecord.type_minds .core, trivial⟩, trivial⟩

open Layout in
/-- The records that the messages carry have fields without hooks, so their layouts `Minds`. -/
theorem DomainRecord.layout_minds (r : DomainRecord) : r.layout.Minds := by
  cases r <;> simp [layout, shortcutLayout, mediaEntryLayout, mediaLayout, configurationLayout,
    buildLayout, textPairs, Layout.build, plain, Layout.Minds, ValueType.Minds]

/-- So do their types, which have no hook of their own. -/
theorem DomainRecord.type_minds (r : DomainRecord) : r.type.Minds :=
  ⟨r.layout_minds, fun _ h => nomatch h⟩

open Layout in
/-- The layout of every shipped message `Minds`: no field has a hook that fails for anything but
its contents. -/
theorem MessageType.layout_minds (t : MessageType) : t.recordType.layout.Minds := by
  -- Version and domain records are dealt with above, and all other fields have no hooks.
  cases t with
  | core m =>
    show m.layout.Minds
    cases m <;> simp [CoreMessage.layout, Layout.build, plain, grouped, Layout.Minds, ValueType.Minds]
  | auth m =>
    show m.layout.Minds
    cases m <;> simp [AuthMessage.layout, Layout.build, plain, bounded,
      initRequestLayout_minds, Layout.Minds, ValueType.Minds]
  | main m =>
    show m.layout.Minds
    cases m <;> simp [MainMessage.layout, MainMessage.embeddedVersion, DomainRecord.textPairs, Layout.build,
      plain, bounded, starting, streamed, grouped, initRequestLayout_minds, DomainRecord.type_minds,
      Layout.Minds, ValueType.Minds]

/-- The hooks of the shipped messages are all `structural`. -/
theorem MessageType.hook_minds {t : MessageType} {hook : Hook}
    (h : t.recordType.hook = some hook) : hook.Minds := by
  obtain ⟨record, version, rfl⟩ := structural_of_hook h
  exact Hook.structural_minds record version

/-- `decode` fails for the contents of its body. -/
theorem Message.decode_error {ctx : Context} {type : MessageType} {body : Bytes} {e : SchemaError}
    (h : Message.decode ctx type body = .error e) : e.ofContents = true := by
  unfold Message.decode at h
  split at h
  · cases h
  · rename_i m e' hread
    cases h
    have hresult : (Message.decodeInto ctx body (.new type)).2 = .error e := by rw [hread]
    exact RecordType.decodeMessage_error type.layout_minds (fun _ => type.hook_minds) hresult

namespace Registry

/-! ## Families -/

/-- What the rows of a family's table are registered as. -/
def rowEntry (id : UInt8) (row : UInt16 × MessageType) : Registration := ⟨⟨id, row.1⟩, row.2⟩

/-- `registerAll` adds the entries of its rows in order, up to the first one that `register`
refuses, and touches nothing but entries and types. -/
theorem registerAll_rows (id : UInt8) (table : List (UInt16 × MessageType)) (r : Registry) :
    ∃ done rest, table = done ++ rest ∧
      (registerAll id table r).1.entries = (done.map (rowEntry id)).reverse ++ r.entries ∧
      (registerAll id table r).1.families = r.families ∧
      ((registerAll id table r).2 = .ok () ∧ rest = [] ∨
        ∃ e row more, (registerAll id table r).2 = .error e ∧ rest = row :: more ∧
          (registerAll id table r).1.register ⟨id, row.1⟩ row.2 = .error e) := by
  induction table generalizing r with
  | nil => exact ⟨[], [], rfl, rfl, rfl, .inl ⟨rfl, rfl⟩⟩
  | cons row table ih =>
    simp only [registerAll]
    cases h : r.register ⟨id, row.1⟩ row.2 with
    | error e => exact ⟨[], row :: table, rfl, rfl, rfl, .inr ⟨e, row, table, rfl, rfl, h⟩⟩
    | ok r' =>
      -- The first row is in front of the registry that the others are added to.
      obtain ⟨-, -, -, rfl⟩ := register_eq_ok_iff.1 h
      obtain ⟨done, rest, rfl, hentries, hfamilies, hend⟩ := ih _
      refine ⟨row :: done, rest, rfl, ?_, hfamilies, hend⟩
      rw [hentries, List.map_cons, List.reverse_cons, List.append_assoc]
      rfl

/-- `lookup` of a number tries the first row and then the others. -/
theorem lookup_row (other id : UInt8) (name : String) (rest : List (UInt8 × String)) :
    ((id, name) :: rest).lookup other = if other = id then some name else rest.lookup other := by
  rw [List.lookup_cons]
  by_cases h : other = id
  · simp [h]
  · simp [h, beq_eq_false_iff_ne.2 h]

/-- `insertFamily` gives a new number its name, and keeps the names of the others. -/
theorem lookup_insertFamily {id : UInt8} {name : String} {families : List (UInt8 × String)}
    (hnew : families.lookup id = none) (other : UInt8) :
    (insertFamily id name families).lookup other =
      if other = id then some name else families.lookup other := by
  induction families with
  | nil => exact lookup_row other id name []
  | cons row rest ih =>
    obtain ⟨first, firstName⟩ := row
    rw [lookup_row] at hnew
    split at hnew
    · cases hnew
    · rename_i hfirst
      simp only [insertFamily]
      split
      · exact lookup_row other id name _
      · -- The number goes behind the first, which is another one.
        rw [lookup_row, lookup_row, ih hnew]
        by_cases hother : other = id
        · simp [hother, hfirst]
        · simp [hother]

/-- Under a number that is taken, `configure` answers `familyTaken` and leaves the registry as it
is. -/
theorem call_configure_taken {r : Registry} {family : ProtocolFamily} {existing : String}
    (h : r.families.lookup family.id = some existing) :
    r.call (.configure family) = (r, .error (.familyTaken family.name family.id existing)) := by
  simp only [call, configure, h]

/-- Under a free number, `configure` registers the rows up to the first that `register` refuses.
The family is added when there is no such row. -/
theorem call_configure_free {r : Registry} {family : ProtocolFamily}
    (hfree : r.families.lookup family.id = none) :
    ∃ done rest, family.table = done ++ rest ∧
      (r.call (.configure family)).1.entries =
        (done.map (rowEntry family.id)).reverse ++ r.entries ∧
      ((r.call (.configure family)).2 = .ok () ∧ rest = [] ∧
          (∀ id, (r.call (.configure family)).1.families.lookup id =
            if id = family.id then some family.name else r.families.lookup id) ∨
        ∃ e row more, (r.call (.configure family)).2 = .error e ∧ rest = row :: more ∧
          (r.call (.configure family)).1.register ⟨family.id, row.1⟩ row.2 = .error e ∧
          (r.call (.configure family)).1.families = r.families) := by
  obtain ⟨done, rest, htable, hentries, hfamilies, hend⟩ := registerAll_rows family.id family.table r
  refine ⟨done, rest, htable, ?_⟩
  simp only [call, configure, hfree]
  rcases hall : registerAll family.id family.table r with ⟨r', result⟩
  simp only [hall] at hentries hfamilies hend
  -- `configure` adds the family only behind a `registerAll` that went through.
  rcases hend with ⟨rfl, hrest⟩ | ⟨e, row, more, rfl, hrest, hrefused⟩
  case inl =>
    refine ⟨hentries, .inl ⟨rfl, hrest, fun id => ?_⟩⟩
    show (insertFamily family.id family.name r'.families).lookup id = _
    rw [hfamilies, lookup_insertFamily hfree id]
  case inr => exact ⟨hentries, .inr ⟨e, row, more, rfl, hrest, hrefused, hfamilies⟩⟩

/-- What is registered after `configure` was registered before it or is a row of the family. -/
theorem registration_of_rows {r r' : Registry} (hr : r.Sound) (hr' : r'.Sound) {id : UInt8}
    {done : List (UInt16 × MessageType)}
    (h : r'.entries = (done.map (rowEntry id)).reverse ++ r.entries) (key : MessageKey)
    (entry : Registration) :
    r'.registration key = .ok entry ↔
      r.registration key = .ok entry ∨ ∃ row ∈ done, rowEntry id row = entry ∧ entry.key = key := by
  rw [hr'.registration_eq_ok, hr.registration_eq_ok, h, List.mem_append, List.mem_reverse,
    List.mem_map, or_and_right, or_comm]
  refine or_congr_right ⟨?_, ?_⟩
  · rintro ⟨⟨row, hrow, hentry⟩, hkey⟩
    exact ⟨row, hrow, hentry, hkey⟩
  · rintro ⟨row, hrow, hentry, hkey⟩
    exact ⟨⟨row, hrow, hentry⟩, hkey⟩

/-! ## Any history -/

section

variable {r : Registry} {key : MessageKey} {type : MessageType}

/-- `register` succeeds exactly when the key is free, the type has none, and the key is not that
of keepalives. -/
theorem call_register_ok_iff : (r.call (.register key type)).2 = .ok () ↔
    key.isNull = false ∧ r.contains key = false ∧ ∀ k, r.keyOf type ≠ .ok k := by
  have hcontains : r.contains key = false ↔ r.lookup? key = none := by
    rw [contains, Option.isSome_eq_false_iff, Option.isNone_iff_eq_none]
  have hkeyOf : (∀ k, r.keyOf type ≠ .ok k) ↔ r.lookupType? type = none := by
    rw [keyOf]
    cases r.lookupType? type <;> simp
  rw [hcontains, hkeyOf, call]
  constructor
  · intro h
    split at h
    · rename_i r' hr
      obtain ⟨hnull, hkey, htype, -⟩ := register_eq_ok_iff.1 hr
      exact ⟨hnull, hkey, htype⟩
    · cases h
  · rintro ⟨hnull, hkey, htype⟩
    rw [register_eq_ok_iff.2 ⟨hnull, hkey, htype, rfl⟩]

/-- `register` that fails leaves no trace. -/
theorem call_register_error {e : SchemaError} (h : (r.call (.register key type)).2 = .error e) :
    (r.call (.register key type)).1 = r := by
  rw [call] at h ⊢
  split
  · rename_i r' hr
    simp [hr] at h
  · rfl

/-- `registration` finds what `register` has put under a key. -/
theorem Sound.registration_of_call (hr : r.Sound) (h : (r.call (.register key type)).2 = .ok ()) :
    (r.call (.register key type)).1.registration key = .ok ⟨key, type⟩ := by
  rw [call] at h ⊢
  split
  · rename_i r' hregister
    apply (hr.register hregister).registration_eq_ok.2
    obtain ⟨-, -, -, rfl⟩ := register_eq_ok_iff.1 hregister
    exact ⟨List.mem_cons_self, rfl⟩
  · rename_i e hregister
    simp [hregister] at h

/-- `keyOf` and `registration` speak of the same entries. -/
theorem Sound.registration_iff_keyOf (hr : r.Sound) :
    r.keyOf type = .ok key ↔ r.registration key = .ok ⟨key, type⟩ := by
  rw [hr.keyOf_eq_ok, hr.registration_eq_ok]
  exact (and_iff_left rfl).symm

/-- `resolve` of the key of a type is the type. -/
theorem Sound.resolve_of_keyOf (hr : r.Sound) (h : r.keyOf type = .ok key) :
    r.resolve key = .ok type :=
  hr.resolve_eq_ok.2 (hr.keyOf_eq_ok.1 h)

/-- `resolve` of a key that no type has is `unknownMessage`, unless it is that of keepalives. -/
theorem Sound.resolve_unknown (hr : r.Sound) (hnull : key ≠ .null)
    (h : ∀ type, r.keyOf type ≠ .ok key) : r.resolve key = .error (.unknownMessage key) := by
  have hkey : key.isNull = false := by
    rw [Bool.eq_false_iff, Ne, MessageKey.isNull_iff]
    exact hnull
  have hnone : r.lookup? key = none := by
    cases hfound : r.lookup? key with
    | none => rfl
    | some entry =>
      -- An entry would be that of a type with this key.
      obtain ⟨hentry, rfl⟩ := hr.lookup?_eq_some.1 hfound
      exact absurd (hr.keyOf_eq_ok.2 hentry) (h entry.type)
  simp [resolve, registration, hkey, hnone, Except.map]

/-- `decode` of what `encode` has written under a key is `Message.decode` of the type, and fails for
its contents at most. -/
theorem Sound.decode_of_encode (hr : r.Sound) {m : Message} {sender : Context} {body : Bytes}
    (h : r.encode m sender = .ok (key, body)) (receiver : Context) :
    r.decode key body receiver = Message.decode receiver m.type body ∧
      ∀ e, r.decode key body receiver = .error e → e.ofContents = true := by
  obtain ⟨hresolve, -, hsize, -, -⟩ := hr.encode_ok h
  have hdecode : r.decode key body receiver = Message.decode receiver m.type body := by
    simp only [decode, hsize, hresolve, bind, Except.bind]
  exact ⟨hdecode, fun e he => Message.decode_error (hdecode.symm.trans he)⟩

end

/-- Invariants of `calls`, whether the calls succeed or fail.  `contains` is false for the key of
keepalives.  `keyOf` and `registration` are inverse to one another, and `size` counts the keys as
well as the types.  `registrations` lists every entry once, in order of the keys.  What
`registration` and `keyOf` answer is kept by all later calls.  `register` succeeds exactly when the
key and the type are free, and then the entry is there; a `register` that fails leaves the registry
as it is.  `configure` leaves the registry as it is when the number of the family is taken;
otherwise it adds the rows up to the first that `register` refuses, and the family if there is none.
`resolve` answers the type of a key, and `decode` reads what `encode` has written under the key of
its type as that type. -/
theorem history_bijective (maxMessageSize : Nat) (cs : List Call) :
    let r := (empty maxMessageSize).calls cs
    r.contains .null = false ∧
    (∀ type key, r.keyOf type = .ok key ↔
      ∃ entry, r.registration key = .ok entry ∧ entry.type = type) ∧
    (Set.ncard {key | r.contains key = true} = r.size ∧
      Set.ncard {type | ∃ key, r.keyOf type = .ok key} = r.size) ∧
    (r.registrations.Pairwise (fun a b => a.key.compare b.key = .lt) ∧
      ∀ key entry, r.registration key = .ok entry ↔ entry ∈ r.registrations ∧ entry.key = key) ∧
    (∀ more,
      (∀ key entry, r.registration key = .ok entry →
        (r.calls more).registration key = .ok entry) ∧
      ∀ type key, r.keyOf type = .ok key → (r.calls more).keyOf type = .ok key) ∧
    (∀ key type,
      ((r.call (.register key type)).2 = .ok () ↔
        key.isNull = false ∧ r.contains key = false ∧ ∀ k, r.keyOf type ≠ .ok k) ∧
      ((r.call (.register key type)).2 = .ok () →
        (r.call (.register key type)).1.registration key = .ok ⟨key, type⟩) ∧
      ∀ e, (r.call (.register key type)).2 = .error e → (r.call (.register key type)).1 = r) ∧
    (∀ family,
      (∀ existing, r.families.lookup family.id = some existing →
        r.call (.configure family) = (r, .error (.familyTaken family.name family.id existing))) ∧
      (r.families.lookup family.id = none → ∃ done rest, family.table = done ++ rest ∧
        (∀ key entry, (r.call (.configure family)).1.registration key = .ok entry ↔
          r.registration key = .ok entry ∨
            ∃ row ∈ done, rowEntry family.id row = entry ∧ entry.key = key) ∧
        ((r.call (.configure family)).2 = .ok () ∧ rest = [] ∧
            (∀ id, (r.call (.configure family)).1.families.lookup id =
              if id = family.id then some family.name else r.families.lookup id) ∨
          ∃ e row more, (r.call (.configure family)).2 = .error e ∧ rest = row :: more ∧
            (r.call (.configure family)).1.register ⟨family.id, row.1⟩ row.2 = .error e ∧
            (r.call (.configure family)).1.families = r.families))) ∧
    (r.resolve .null = .error .nullMessage ∧
      (∀ key type, r.keyOf type = .ok key → r.resolve key = .ok type) ∧
      ∀ key, key ≠ .null → (∀ type, r.keyOf type ≠ .ok key) →
        r.resolve key = .error (.unknownMessage key)) ∧
    ∀ m sender receiver key body, r.encode m sender = .ok (key, body) →
      r.decode key body receiver = Message.decode receiver m.type body ∧
      ∀ e, r.decode key body receiver = .error e →
        (∀ k, e ≠ .unknownMessage k) ∧ e ≠ .nullMessage ∧
          ∀ size max, e ≠ .messageTooLarge size max := by
  intro r
  -- Everything below is read off `Sound`, which every history keeps.
  have hgrown : r.Grown := (Grown.empty maxMessageSize).calls cs
  have hr := hgrown.sound
  have hmore : ∀ more, (r.calls more).Sound := fun more => (hgrown.calls more).sound
  refine ⟨?_, ?_, ⟨hr.ncard_keys, hr.ncard_types⟩, ⟨hr.pairwise_registrations, ?_⟩, ?_, ?_, ?_, ?_,
    ?_⟩
  · -- An entry under the key of keepalives would contradict soundness.
    rw [Bool.eq_false_iff, Ne, hr.contains_iff]
    rintro ⟨entry, hentry, hkey⟩
    exact absurd (hr.notNull entry hentry) (by rw [hkey]; decide)
  · intro type key
    -- `keyOf` and `registration` are inverse to one another.
    rw [hr.registration_iff_keyOf]
    constructor
    · exact fun h => ⟨_, h, rfl⟩
    · rintro ⟨entry, hentry, rfl⟩
      obtain ⟨-, rfl⟩ := hr.registration_eq_ok.1 hentry
      exact hentry
  · intro key entry
    rw [hr.registration_eq_ok, mem_registrations]
  · intro more
    -- Later calls only put entries in front.
    have hextends := Extends.calls r more
    exact ⟨fun key entry h => hr.registration_of_extends (hmore more) hextends h,
      fun type key h => hr.keyOf_of_extends (hmore more) hextends h⟩
  · exact fun key type => ⟨call_register_ok_iff, hr.registration_of_call,
      fun e h => call_register_error h⟩
  · refine fun family => ⟨fun existing => call_configure_taken, fun hfree => ?_⟩
    -- A free number is where the rows come in.
    obtain ⟨done, rest, htable, hentries, hend⟩ := call_configure_free hfree
    exact ⟨done, rest, htable,
      registration_of_rows hr (hgrown.call (.configure family)).sound hentries, hend⟩
  · exact ⟨rfl, fun key type h => hr.resolve_of_keyOf h, fun key => hr.resolve_unknown⟩
  · intro m sender receiver key body h
    -- A body that was written is refused for what it holds, and for nothing about its key.
    obtain ⟨hdecode, hcontents⟩ := hr.decode_of_encode h receiver
    refine ⟨hdecode, fun e he => ?_⟩
    have hcontent := hcontents e he
    cases e <;> simp_all [SchemaError.ofContents]

/-- Calls that fail in every way: for the key of keepalives, for a key and for a type that are
taken, for a family whose second message has a key that is taken, and for one whose number is taken.
-/
def failingCalls : List Call := [
  .register .null (.core .response),
  .register ⟨9, 2⟩ (.core .response),
  .register ⟨9, 2⟩ (.core .authRequest),
  .register ⟨9, 3⟩ (.core .response),
  .configure ⟨9, "probe",
    [(1, .core .authRequest), (2, .core .authResponse), (3, .core .initResponse)]⟩,
  .configure ⟨7, "bare", []⟩,
  .configure ⟨7, "again", [(1, .core .initResponse)]⟩]

/-- `configure` of the probe, which has registered its first message and is not among the families,
so that it can be added again, and fails at once. -/
theorem history_bijective_failing :
    let r := (empty 10).calls failingCalls
    r.contains .null = false ∧
      (∃ entry, r.registration ⟨9, 1⟩ = .ok entry ∧ entry.type = .core .authRequest) ∧
      r.resolve ⟨9, 3⟩ = .error (.unknownMessage ⟨9, 3⟩) ∧
      r.call (.configure ⟨7, "again", [(1, .core .initResponse)]⟩) =
        (r, .error (.familyTaken "again" 7 "bare")) ∧
      (r.call (.configure ⟨9, "probe", [(1, .core .authRequest)]⟩)).2 ≠ .ok () := by
  intro r
  obtain ⟨hnull, hinverse, -, -, -, -, hfamilies, ⟨-, -, hunknown⟩, -⟩ :=
    history_bijective 10 failingCalls
  refine ⟨hnull, (hinverse _ _).1 (by decide), hunknown ⟨9, 3⟩ (by decide) (fun type h => ?_),
    (hfamilies _).1 "bare" (by decide), by decide⟩
  -- A type with this key would be that of its registration, of which there is none.
  obtain ⟨entry, hentry, -⟩ := (hinverse _ _).1 h
  have hnone : r.registration ⟨9, 3⟩ = .error (.unknownMessage ⟨9, 3⟩) := by decide
  cases hnone.symm.trans hentry

end Registry

end Storefront
