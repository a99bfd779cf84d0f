import Storefront.Store.Family.Auth
import Storefront.Store.Item

/-! # The main family

The store itself: listings, builds, media and uploads.
-/

namespace Storefront

/-- The most octets of one upload. -/
def uploadLimit : Nat := 100 * 1024

/-- The messages of the main family. -/
inductive MainMessage where
  | initRequest
  | listOSesRequest
  | listOSesResponse
  | listAppsRequest
  | listAppsResponse
  | listStoreRequest
  | listStoreResponse
  | fetchStoreRequest
  | fetchStoreResponse
  | createBuildRequest
  | createMediaRequest
  | uploadRequest
  | fetchAppRequest
  | fetchAppResponse
  | changeAppItemStateRequest
  | fetchBuildRequest
  | fetchBuildResponse
  | fetchBuildConfigurationRequest
  | fetchBuildConfigurationResponse
  | fetchBuildUpdatesRequest
  | fetchBuildUpdatesResponse
  | createAppRequest
  deriving DecidableEq, Repr

namespace MainMessage

/-- The name of a message. -/
def name : MainMessage → String
  | initRequest => "InitRequest"
  | listOSesRequest => "ListOSesRequest"
  | listOSesResponse => "ListOSesResponse"
  | listAppsRequest => "ListAppsRequest"
  | listAppsResponse => "ListAppsResponse"
  | listStoreRequest => "ListStoreRequest"
  | listStoreResponse => "ListStoreResponse"
  | fetchStoreRequest => "FetchStoreRequest"
  | fetchStoreResponse => "FetchStoreResponse"
  | createBuildRequest => "CreateBuildRequest"
  | createMediaRequest => "CreateMediaRequest"
  | uploadRequest => "UploadRequest"
  | fetchAppRequest => "FetchAppRequest"
  | fetchAppResponse => "FetchAppResponse"
  | changeAppItemStateRequest => "ChangeAppItemStateRequest"
  | fetchBuildRequest => "FetchBuildRequest"
  | fetchBuildResponse => "FetchBuildResponse"
  | fetchBuildConfigurationRequest => "FetchBuildConfigurationRequest"
  | fetchBuildConfigurationResponse => "FetchBuildConfigurationResponse"
  | fetchBuildUpdatesRequest => "FetchBuildUpdatesRequest"
  | fetchBuildUpdatesResponse => "FetchBuildUpdatesResponse"
  | createAppRequest => "CreateAppRequest"

/-- True when the request went well, so that there are data. -/
def dataPresent : Guard := fun fields _ => Layout.number fields 0 == 0

/-- The record whose structural version a message carries in its first field. -/
def embedded? : MainMessage → Option DomainRecord
  | listStoreResponse => some .listStoreNode
  | fetchAppResponse | createAppRequest => some .application
  | fetchBuildResponse | createBuildRequest => some .build
  | fetchBuildConfigurationResponse => some .configuration
  | _ => none

open Layout in
/-- The structural version of a record that is embedded in a message. -/
def embeddedVersion (name : String) (record : DomainRecord) : Piece :=
  starting 1 name (.unsigned .u32) (.number record.version)

open Layout in
/-- The fields of a message. -/
def layout : MainMessage → Layout
  | initRequest => initRequestLayout .main "main_version"
  | listOSesRequest => .nil
  | listOSesResponse =>
    .build [plain 1 "error" .status, plain 2 "message" .text, plain 3 "oses" (.list .text)]
  | listAppsRequest => .build [plain 1 "choice" (.choice AppChoice.enumeration)]
  | listAppsResponse =>
    .build [plain 1 "error" .status, plain 2 "message" .text,
      plain 3 "apps" (.list DomainRecord.applicationListItem.type)]
  | listStoreRequest => .build [plain 1 "storage_id" .text, plain 2 "path" .text]
  | listStoreResponse =>
    .build [embeddedVersion "node_version" .listStoreNode, plain 2 "error" .status,
      plain 3 "message" .text, plain 4 "nodes" (.list DomainRecord.listStoreNode.type)]
  | fetchStoreRequest =>
    .build [plain 1 "storage_id" .text, plain 2 "path" .text, plain 3 "offset" (.unsigned .u64),
      plain 4 "size" (.unsigned .u64)]
  | fetchStoreResponse =>
    .build [plain 1 "error" .status, plain 2 "message" .text, plain 3 "size" .signed,
      plain 4 "chunk" DomainRecord.storageFetchChunk.type,
      grouped "data" dataPresent [plain 5 "data" .stream]]
  | createBuildRequest =>
    .build [embeddedVersion "build_version" .build, plain 2 "app_id" .text,
      plain 3 "unique" .text, plain 4 "size" (.unsigned .u64), plain 5 "sha_sum" .text,
      bounded 6 "image_blob" .blob blobLimit, plain 7 "build" DomainRecord.build.type]
  | createMediaRequest =>
    .build [plain 1 "app_id" .text, plain 2 "unique" .text, plain 3 "size" (.unsigned .u64),
      plain 4 "sha_sum" .text]
  | uploadRequest => .build [streamed 1 "file" uploadLimit uploadLimit]
  | fetchAppRequest => .build [plain 1 "app_id" .text, plain 2 "os_id" .text]
  | fetchAppResponse =>
    .build [embeddedVersion "application_version" .application, plain 2 "error" .status,
      plain 3 "message" .text, plain 4 "application" DomainRecord.application.type,
      plain 5 "items" (.list DomainRecord.appItemEntry.type)]
  | changeAppItemStateRequest =>
    .build [plain 1 "app_id" .text, plain 2 "os_id" .text,
      plain 3 "item" DomainRecord.appItemEntry.type,
      plain 4 "new_state" (.choice AppItemState.enumeration)]
  | fetchBuildRequest => .build [plain 1 "app_id" .text, plain 2 "build_id" .text]
  | fetchBuildResponse =>
    .build [embeddedVersion "build_version" .build, plain 2 "error" .status,
      plain 3 "message" .text, plain 4 "storage_id" .text,
      bounded 5 "image_blob" .blob blobLimit, plain 6 "build" DomainRecord.build.type]
  | fetchBuildConfigurationRequest =>
    .build [plain 1 "app_id" .text, plain 2 "build_id" .text, plain 3 "lang" .text,
      plain 4 "os_id" .text, plain 5 "fetch_options" .options,
      plain 6 "properties" (.list .text)]
  | fetchBuildConfigurationResponse =>
    .build [embeddedVersion "configuration_version" .configuration, plain 2 "error" .status,
      plain 3 "message" .text, plain 4 "app_unique" .text, plain 5 "build_unique" .text,
      plain 6 "build_storage_id" .text, plain 7 "media_storage_id" .text,
      plain 8 "configuration" DomainRecord.configuration.type,
      bounded 9 "image_blob" .blob blobLimit]
  | fetchBuildUpdatesRequest =>
    .build [plain 1 "lang" .text, plain 2 "os_id" .text,
      plain 3 "app_ids" DomainRecord.textPairs]
  | fetchBuildUpdatesResponse =>
    .build [plain 1 "error" .status, plain 2 "message" .text,
      plain 3 "apps" DomainRecord.textPairs]
  | createAppRequest =>
    .build [embeddedVersion "application_version" .application,
      plain 2 "application" DomainRecord.application.type]

/-- The type of a message's fields.  A message that embeds a record refuses any structural version
of it but the one this build was made for. -/
def recordType (m : MainMessage) : RecordType where
  name := m.name
  layout := m.layout
  hook := m.embedded?.map fun record => .structural record.name record.version

end MainMessage

end Storefront
