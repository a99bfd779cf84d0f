import Storefront.SipHash
import Storefront.Store.Record

/-! # Fingerprints

A cheap number by which a changed record can be told from an unchanged one.  It is not kept anywhere
and means nothing outside one run.
-/

namespace Storefront

/-- The hash of a text: of its octets and a last one that no text has. -/
def textHash (s : String) : UInt64 := SipHash.hash (Bytes.ofText s ++ [0xFF])

namespace DomainRecord

/-- The fingerprint of a record that has one: of an application its name, of media the sizes of its
name and entries, of a build its name, its tag and the sizes of its collections. -/
def fingerprint? (r : DomainRecord) (fields : List Value) : Option UInt64 :=
  let field := fun (i : Nat) => fields[i]?.getD default
  let count := fun (i : Nat) => (field i).items.length.toUInt64
  match r with
  | application => some (textHash (field 0).toText)
  | media => some ((Bytes.ofText (field 0).toText).length.toUInt64 ^^^ count 1)
  | build =>
    some (textHash (field 0).toText ^^^ textHash (field 1).toText ^^^
      count 2 ^^^ count 3 ^^^ count 4)
  | _ => none

/-- The fingerprint of a record as far as it does not hang on `textHash`: of media, and of a build
whose name and tag are the same. -/
def plainFingerprint? (r : DomainRecord) (fields : List Value) : Option UInt64 :=
  match r with
  | media => r.fingerprint? fields
  | build =>
    -- The hashes of equal texts cancel out.
    if (fields[0]?.getD default).toText = (fields[1]?.getD default).toText then
      r.fingerprint? fields
    else none
  | _ => none

end DomainRecord

end Storefront
