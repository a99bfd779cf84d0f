import Storefront.Schema.Builder

/-! # Domain records

The records that messages carry and archives keep.  Each has a structural version, which is kept
beside it and has to be the one this build was made for.
-/

namespace Storefront

/-- The records with a structural version. -/
inductive DomainRecord where
  | application
  | applicationListItem
  | shortcut
  | mediaEntry
  | media
  | configuration
  | build
  | appItemEntry
  | listStoreNode
  | storageFetchChunk
  deriving DecidableEq, Repr

namespace DomainRecord

/-- All domain records. -/
def all : List DomainRecord :=
  [application, applicationListItem, shortcut, mediaEntry, media, configuration, build,
    appItemEntry, listStoreNode, storageFetchChunk]

/-- The name of a record. -/
def name : DomainRecord → String
  | application => "Application"
  | applicationListItem => "ApplicationListItem"
  | shortcut => "Shortcut"
  | mediaEntry => "MediaEntry"
  | media => "Media"
  | configuration => "Configuration"
  | build => "Build"
  | appItemEntry => "AppItemEntry"
  | listStoreNode => "ListStoreNode"
  | storageFetchChunk => "StorageFetchChunk"

/-- The structural version of a record. -/
def version : DomainRecord → Nat := fun _ => 1

/-- The records that a record holds, itself included, sorted by name. -/
def nested : DomainRecord → List DomainRecord
  | media => [media, mediaEntry]
  | configuration => [configuration, media, mediaEntry, shortcut]
  | build => [build, configuration, media, mediaEntry, shortcut]
  | record => [record]

/-- The structural versions of a record and of those it holds, sorted by name. -/
def versions (r : DomainRecord) : List (String × Nat) :=
  r.nested.map fun r => (r.name, r.version)

/-- Refuses a structural version that is not the record's. -/
def checkVersion (r : DomainRecord) (found : Nat) : Except SchemaError Unit :=
  checkStructural r.name r.version found

/-- A list of pairs of texts. -/
def textPairs : ValueType := .list (.pair .text .text)

section

open Layout

/-- The fields of a shortcut. -/
def shortcutLayout : Layout :=
  .build [plain 1 "name" .text, plain 2 "command" .text, plain 3 "arguments" .text,
    plain 4 "run_folder" .text, plain 5 "icon" .text]

/-- The fields of a thumbnail and the item that it previews. -/
def mediaEntryLayout : Layout := .build [plain 1 "thumbnail_path" .text, plain 2 "path" .text]

/-- The fields of a collection of media. -/
def mediaLayout : Layout :=
  .build [plain 1 "name" .text,
    plain 2 "entries" (.list (.record mediaEntry.name mediaEntryLayout none))]

/-- The fields of an installable variant of a build. -/
def configurationLayout : Layout :=
  .build [plain 1 "name" .text, plain 2 "directory" .text, plain 3 "flags" (.unsigned .u64),
    plain 4 "oses" (.list .text), plain 5 "mounts" textPairs, plain 6 "exes" (.list .text),
    plain 7 "shortcuts" (.list (.record shortcut.name shortcutLayout none)),
    plain 8 "properties" textPairs, plain 9 "media" (.record media.name mediaLayout none)]

/-- The fields of a build. -/
def buildLayout : Layout :=
  .build [plain 1 "name" .text, plain 2 "tag" .text, plain 3 "dictionary" textPairs,
    plain 4 "properties" textPairs,
    plain 5 "configurations" (.list (.record configuration.name configurationLayout none))]

/-- The fields of a record. -/
def layout : DomainRecord → Layout
  | application => .build [plain 1 "name" .text]
  | applicationListItem =>
    .build [plain 1 "id" .text, plain 2 "unique" .text, plain 3 "name" .text]
  | shortcut => shortcutLayout
  | mediaEntry => mediaEntryLayout
  | media => mediaLayout
  | configuration => configurationLayout
  | build => buildLayout
  | appItemEntry => .build [plain 1 "name" .text, plain 2 "value" (.unsigned .u64)]
  | listStoreNode => .build [plain 1 "name" .text, plain 2 "size" (.unsigned .u64)]
  | storageFetchChunk =>
    .build [plain 1 "offset" (.unsigned .u64), plain 2 "size" (.unsigned .u64)]

end

/-- The type of a record. -/
def recordType (r : DomainRecord) : RecordType := { name := r.name, layout := r.layout }

/-- The type of a field that holds a record. -/
def type (r : DomainRecord) : ValueType := r.recordType.type

end DomainRecord

end Storefront
