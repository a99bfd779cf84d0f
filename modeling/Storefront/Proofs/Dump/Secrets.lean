import Mathlib.Data.List.Forall2
import Storefront.Dump.Value

/-! # Secrets do not show

Two values differ in nothing but their secrets when they are the same wherever their type does not
call for a secret, and where it does have texts of the same size in octets (`ValueType.OpenlySame`).
A dump of one of them is then a dump of the other, whatever the secrets are made of.

* `ValueType.dump_eq`       dumps of values
* `Message.dump_eq`         dumps of messages
-/

namespace Storefront

mutual

/-- Values of a type that differ in nothing but their secrets, and whose secrets are of the same
size. -/
def ValueType.OpenlySame : ValueType → Value → Value → Prop
  | .secret, v, w =>
    v = w ∨ ∃ s t, v = .text s ∧ w = .text t ∧ s.utf8ByteSize = t.utf8ByteSize
  | .list element, v, w =>
    v = w ∨ ∃ vs ws, v = .list vs ∧ w = .list ws ∧ List.Forall₂ element.OpenlySame vs ws
  | .pair a b, v, w =>
    v = w ∨ ∃ x y x' y', v = .pair x y ∧ w = .pair x' y' ∧ a.OpenlySame x x' ∧ b.OpenlySame y y'
  | .record _ layout _, v, w =>
    v = w ∨ ∃ fs gs, v = .record fs ∧ w = .record gs ∧ layout.OpenlySame fs gs
  | _, v, w => v = w

/-- Fields of a layout that differ in nothing but their secrets. -/
def Layout.OpenlySame : Layout → List Value → List Value → Prop
  | .field _ type _ rest, v :: fs, w :: gs => type.OpenlySame v w ∧ rest.OpenlySame fs gs
  | .group _ _ body rest, fs, gs =>
    body.OpenlySame (fs.take body.size) (gs.take body.size) ∧
      rest.OpenlySame (fs.drop body.size) (gs.drop body.size)
  | _, fs, gs => fs = gs

end

/-- Messages that differ in nothing but their secrets. -/
structure Message.OpenlySame (m m' : Message) : Prop where
  type : m'.type = m.type
  envelope : m'.envelope = m.envelope
  fields : m.type.recordType.layout.OpenlySame m.fields m'.fields

/-- `dumpSecret` shows the size of a secret and nothing else. -/
theorem dumpSecret_eq {s t : String} (h : s.utf8ByteSize = t.utf8ByteSize) :
    dumpSecret s = dumpSecret t := by
  -- the empty secret is shown in a way of its own, and being empty is a matter of size
  have hempty : s.isEmpty = t.isEmpty := by
    simp only [String.isEmpty, h]
  simp only [dumpSecret, hempty, h]

mutual

theorem ValueType.dump_eq : (type : ValueType) → ∀ {v w : Value}, type.OpenlySame v w →
    type.dump v = type.dump w
  | .secret, v, w, h => by
    -- the one case in which the texts may differ: `dumpSecret` sees their sizes only
    rcases h with rfl | ⟨s, t, rfl, rfl, hsize⟩
    · rfl
    · simp only [ValueType.dump, Value.toText_text, dumpSecret_eq hsize]
  | .list element, v, w, h => by
    rcases h with rfl | ⟨vs, ws, rfl, rfl, hall⟩
    · rfl
    · have hitems : vs.map element.dump = ws.map element.dump := by
        induction hall with
        | nil => rfl
        | cons hv _ ih => rw [List.map_cons, List.map_cons, element.dump_eq hv, ih]
      simp only [ValueType.dump, Value.items_list, hitems]
  | .pair a b, v, w, h => by
    rcases h with rfl | ⟨x, y, x', y', rfl, rfl, hx, hy⟩
    · rfl
    · simp only [ValueType.dump, a.dump_eq hx, b.dump_eq hy]
  | .record _ layout _, v, w, h => by
    rcases h with rfl | ⟨fs, gs, rfl, rfl, hfields⟩
    · rfl
    · simp only [ValueType.dump, Value.fields_record, layout.dump_eq hfields]
  | .unsigned _, _, _, h | .status, _, _, h | .choice _, _, _, h | .options, _, _, h
  | .signed, _, _, h | .flag, _, _, h | .text, _, _, h | .blob, _, _, h | .stream, _, _, h => by
    -- no secrets in these, so the values are equal
    obtain rfl := h
    rfl

theorem Layout.dump_eq : (layout : Layout) → ∀ {fs gs : List Value}, layout.OpenlySame fs gs →
    layout.dump fs = layout.dump gs
  | .nil, _, _, _ => rfl
  | .field about type initial rest, v :: fs, w :: gs, h => by
    simp only [Layout.dump, List.head?_cons, Option.getD_some, List.tail_cons, type.dump_eq h.1,
      rest.dump_eq h.2]
  | .field .., [], _, h => by
    obtain rfl : [] = _ := h
    rfl
  -- `OpenlySame` pairs no fields of different number
  | .field .., _ :: _, [], h => nomatch h
  | .group _ _ body rest, _, _, h => by
    simp only [Layout.dump, body.dump_eq h.1, rest.dump_eq h.2]

end

/-- `Message.dump` is the same for messages that differ in nothing but their secrets. -/
theorem Message.dump_eq {m m' : Message} (h : m.OpenlySame m') : m.dump = m'.dump := by
  obtain ⟨type, envelope, fields⟩ := m
  obtain ⟨type', envelope', fields'⟩ := m'
  obtain ⟨rfl, rfl, hfields⟩ := h
  simp only [Message.dump, Layout.dump_eq _ hfields]

end Storefront
