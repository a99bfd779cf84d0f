import Storefront.Proofs.Store.Message
import Storefront.Store.Registry

/-! # Registered messages

A registry that has come about by registrations ties keys to types one to one (`Sound`), so that
what is written under the key of its type is read as that type again.

* `Grown.sound`              every registry that has come about by registrations is sound
* `lookup?_of_lookupType?`   the key of a type leads back to the type
* `decodeFrame_of_encode`    a message there and back in a frame
-/

namespace Storefront

namespace Registry

/-- The registries that can come about: an empty one, and what registering types and adding families
make of one, also where that fails halfway. -/
inductive Grown : Registry → Prop
  | empty (maxMessageSize : Nat) : Grown (empty maxMessageSize)
  | register {r r' : Registry} {key : MessageKey} {type : MessageType} (hr : Grown r)
    (h : r.register key type = .ok r') : Grown r'
  | configure {r : Registry} (hr : Grown r) (family : ProtocolFamily) :
    Grown (r.configure family).1

/-- All that `register` does, and when it does it. -/
theorem register_eq_ok_iff {r r' : Registry} {key : MessageKey} {type : MessageType} :
    r.register key type = .ok r' ↔
      key.isNull = false ∧ r.lookup? key = none ∧ r.lookupType? type = none ∧
        r' = { r with entries := ⟨key, type⟩ :: r.entries, types := (type, key) :: r.types } := by
  unfold register
  -- the three refusals, in the order in which `register` makes them
  by_cases hnull : key.isNull = true
  · simp [hnull]
  · cases hkey : r.lookup? key with
    | some existing => simp [hnull]
    | none =>
      cases htype : r.lookupType? type with
      | some taken => simp [hnull]
      | none => simp [hnull, eq_comm]

/-- One key for every type, one type for every key, the same in both directions, and nothing under
the key of keepalives. -/
structure Sound (r : Registry) : Prop where
  keys : (r.entries.map (·.key)).Nodup
  types : (r.entries.map (·.type)).Nodup
  mirrored : r.types = r.entries.map fun entry => (entry.type, entry.key)
  notNull : ∀ entry ∈ r.entries, entry.key.isNull = false

section

variable {r r' : Registry} {key : MessageKey} {type : MessageType} {entry : Registration}

/-- `lookup?` finds a key exactly when it has an entry. -/
theorem Sound.lookup?_eq_some (hr : r.Sound) :
    r.lookup? key = some entry ↔ entry ∈ r.entries ∧ entry.key = key := by
  constructor
  · intro h
    exact ⟨List.mem_of_find?_eq_some h, by simpa using List.find?_some h⟩
  · rintro ⟨hentry, rfl⟩
    exact find?_key_of_mem hr.keys hentry

/-- `lookupType?` finds the key of the entry of a type: what is found by type is what would be found
by key. -/
theorem Sound.lookupType?_eq_some (hr : r.Sound) :
    r.lookupType? type = some key ↔ ⟨key, type⟩ ∈ r.entries := by
  have htypes := hr.types
  rw [lookupType?, hr.mirrored]
  generalize r.entries = entries at htypes
  induction entries with
  | nil => simp
  | cons entry rest ih =>
    obtain ⟨k, t⟩ := entry
    rw [List.map_cons, List.nodup_cons] at htypes
    rw [List.map_cons, List.lookup_cons, List.mem_cons]
    by_cases hsame : type = t
    · subst hsame
      -- A second entry would give the type a second time.
      have hnone : (⟨key, type⟩ : Registration) ∉ rest := fun hk =>
        htypes.1 (List.mem_map.2 ⟨_, hk, rfl⟩)
      simp [hnone, eq_comm]
    · have hne : (type == t) = false := by simpa using hsame
      simp [hne, ih htypes.2, hsame]

/-- `register` keeps a registry sound, as it refuses a key or a type that is taken. -/
theorem Sound.register (hr : r.Sound) (h : r.register key type = .ok r') : r'.Sound := by
  obtain ⟨hnull, hkey, htype, rfl⟩ := register_eq_ok_iff.1 h
  constructor
  -- `lookup?` has found nothing under this key
  case keys =>
    rw [List.map_cons, List.nodup_cons]
    refine ⟨fun hmem => ?_, hr.keys⟩
    obtain ⟨entry, hentry, hsame⟩ := List.mem_map.1 hmem
    exact absurd (hr.lookup?_eq_some.2 ⟨hentry, hsame⟩) (by simp [hkey])
  -- nor has `lookupType?` found the type
  case types =>
    rw [List.map_cons, List.nodup_cons]
    refine ⟨fun hmem => ?_, hr.types⟩
    obtain ⟨entry, hentry, rfl⟩ := List.mem_map.1 hmem
    exact absurd (hr.lookupType?_eq_some.2 hentry) (by simp [htype])
  case mirrored =>
    show (type, key) :: r.types = _
    rw [hr.mirrored, List.map_cons]
  case notNull =>
    intro entry hentry
    rcases List.mem_cons.1 hentry with rfl | hentry
    · exact hnull
    · exact hr.notNull entry hentry

end

/-- `registerAll` does so as well, also where it fails halfway. -/
theorem Sound.registerAll {r : Registry} (hr : r.Sound) (id : UInt8)
    (table : List (UInt16 × MessageType)) : (registerAll id table r).1.Sound := by
  induction table generalizing r with
  | nil => exact hr
  | cons row rest ih =>
    simp only [Registry.registerAll]
    -- one row after the other; a row that is refused ends it, with what came before kept
    split
    · rename_i r' h
      exact ih (hr.register h)
    · exact hr

/-- And so does `configure`. -/
theorem Sound.configure {r : Registry} (hr : r.Sound) (family : ProtocolFamily) :
    (r.configure family).1.Sound := by
  have hall := hr.registerAll family.id family.table
  unfold Registry.configure
  split
  · exact hr
  · split
    · rename_i r' h
      rw [h] at hall
      -- the families and ids that `configure` notes are no part of `Sound`
      exact ⟨hall.keys, hall.types, hall.mirrored, hall.notNull⟩
    · rename_i r' e h
      rw [h] at hall
      exact hall

/-- A registry that has `Grown` is `Sound`. -/
theorem Grown.sound {r : Registry} (h : r.Grown) : r.Sound := by
  induction h with
  | empty maxMessageSize =>
    exact ⟨List.nodup_nil, List.nodup_nil, rfl, by simp [Registry.empty]⟩
  | register _ h ih => exact ih.register h
  | configure _ family ih => exact ih.configure family

/-- `full` has grown by `configure` of the built-in families. -/
theorem grown_full (maxMessageSize : Nat) : (full maxMessageSize).Grown := by
  -- Adding families one after the other stops at the first that fails, and what has come about
  -- until then is kept.
  have hall : ∀ families r, Grown r → Grown (configureAll families r).1 := by
    intro families
    induction families with
    | nil => exact fun r hr => hr
    | cons family rest ih =>
      intro r hr
      have hfamily := hr.configure family
      simp only [configureAll]
      split
      · rename_i r' h
        rw [h] at hfamily
        exact ih r' hfamily
      · rename_i r' e h
        rw [h] at hfamily
        exact hfamily
  exact hall _ _ (.empty maxMessageSize)

/-- `lookup?` of the key that `lookupType?` has found is the type again. -/
theorem Sound.lookup?_of_lookupType? {r : Registry} (hr : r.Sound) {type : MessageType}
    {key : MessageKey} (h : r.lookupType? type = some key) :
    r.lookup? key = some ⟨key, type⟩ ∧ key.isNull = false := by
  have hentry := hr.lookupType?_eq_some.1 h
  exact ⟨hr.lookup?_eq_some.2 ⟨hentry, rfl⟩, hr.notNull _ hentry⟩

/-- `Registry.encode` succeeds when the type has a key, the fields can be written, and `checkSize`
lets the body pass. -/
theorem encode_eq_ok_iff {r : Registry} {m : Message} {ctx : Context} {key : MessageKey}
    {body : Bytes} : r.encode m ctx = .ok (key, body) ↔
      r.keyOf m.type = .ok key ∧ (m.encode ctx).result = .ok () ∧ (m.encode ctx).bytes = body ∧
        r.checkSize body = .ok () := by
  unfold encode
  cases hkey : r.keyOf m.type with
  | error e => simp
  | ok found =>
    simp only [Except.ok.injEq]
    cases hresult : (m.encode ctx).result with
    | error e => simp
    | ok u =>
      simp only [true_and]
      constructor
      · intro h
        cases hsize : r.checkSize (m.encode ctx).bytes with
        | error e => simp [hsize, Except.map] at h
        | ok u =>
          simp only [hsize, Except.map, Except.ok.injEq, Prod.mk.injEq] at h
          obtain ⟨rfl, rfl⟩ := h
          exact ⟨rfl, rfl, hsize⟩
      · -- the other way round nothing is left that could fail
        rintro ⟨rfl, rfl, hsize⟩
        simp only [hsize, Except.map]

/-- `encode` addresses a message to its type, and never to a keepalive. -/
theorem Sound.encode_ok {r : Registry} (hr : r.Sound) {m : Message} {ctx : Context}
    {key : MessageKey} {body : Bytes} (h : r.encode m ctx = .ok (key, body)) :
    r.resolve key = .ok m.type ∧ key.isNull = false ∧ r.checkSize body = .ok () ∧
      (m.encode ctx).result = .ok () ∧ body = (m.encode ctx).bytes := by
  obtain ⟨hkey, hresult, rfl, hsize⟩ := encode_eq_ok_iff.1 h
  unfold keyOf at hkey
  cases hfound : r.lookupType? m.type with
  | none => simp [hfound] at hkey
  | some found =>
    simp only [hfound, Except.ok.injEq] at hkey
    subst hkey
    obtain ⟨hlookup, hnull⟩ := hr.lookup?_of_lookupType? hfound
    refine ⟨?_, hnull, hsize, hresult, rfl⟩
    -- Looking the key up leads back to the type.
    simp only [resolve, registration, hnull, hlookup, Bool.false_eq_true, if_false, Except.map]

/-- `decodeFrame` of a frame that brings what `encode` has written of a `Regular` message, under its
key, reads that message with the request id of the frame. -/
theorem Sound.decodeFrame_of_encode {r : Registry} (hr : r.Sound) {m : Message} (hm : m.Regular)
    {sender : Context} {frame : Frame} (h : r.encode m sender = .ok (frame.key, frame.payload))
    (receiver : Context) :
    ∃ got, r.decodeFrame frame receiver = .ok ⟨m.type, { requestId := frame.requestId }, got⟩ ∧
      m.type.recordType.layout.Delivered sender receiver m.fields got := by
  obtain ⟨hresolve, -, hsize, hok, hbody⟩ := hr.encode_ok h
  obtain ⟨got, hdecode, hdelivered⟩ : ∃ got, _ ∧ _ := hm.decode_encode hok
  refine ⟨got, ?_, hdelivered⟩
  rw [← hbody] at hdecode
  simp only [decodeFrame, decode, hsize, hresolve, hdecode, bind, Except.bind, pure, Except.pure]

/-- `decodeFrame` reads a frame by the type that `resolve` has for its key, unless it is
too large. -/
theorem decodeFrame_eq_ok_iff {r : Registry} {frame : Frame} {ctx : Context} {m : Message} :
    r.decodeFrame frame ctx = .ok m ↔
      r.checkSize frame.payload = .ok () ∧ ∃ type found, r.resolve frame.key = .ok type ∧
        Message.decode ctx type frame.payload = .ok found ∧
        { found with envelope := { found.envelope with requestId := frame.requestId } } = m := by
  unfold decodeFrame decode
  -- size, key and body, in this order
  cases r.checkSize frame.payload with
  | error e => simp [bind, Except.bind]
  | ok u =>
    cases r.resolve frame.key with
    | error e => simp [bind, Except.bind]
    | ok type =>
      cases hdecode : Message.decode ctx type frame.payload <;>
        simp [bind, Except.bind, pure, Except.pure, hdecode]

/-- `decodeFrame` makes a message of the type that `resolve` has for the key, and an envelope that
says no more than the id of the frame. -/
theorem decodeFrame_ok {r : Registry} {frame : Frame} {ctx : Context} {m : Message}
    (h : r.decodeFrame frame ctx = .ok m) :
    r.resolve frame.key = .ok m.type ∧ m.envelope = { requestId := frame.requestId } := by
  obtain ⟨-, type, found, hresolve, hdecode, rfl⟩ := decodeFrame_eq_ok_iff.1 h
  obtain ⟨rfl, henvelope⟩ := Message.decode_ok hdecode
  exact ⟨hresolve, by rw [henvelope]⟩

end Registry

end Storefront
