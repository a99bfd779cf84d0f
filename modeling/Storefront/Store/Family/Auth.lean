import Storefront.Store.Account
import Storefront.Store.Record
import Storefront.Version.Layout

/-! # The auth family

Account management before login.
-/

namespace Storefront

/-- The most octets of an image. -/
def blobLimit : Nat := 1024 * 1024

/-- The messages of the auth family. -/
inductive AuthMessage where
  | initRequest
  | createRequest
  | validateRequest
  | amendRequest
  | fetchRequest
  | fetchResponse
  | resetRequest
  | captchaRequest
  | captchaResponse
  | deleteRequest
  deriving DecidableEq, Repr

/-- The fields of the first message on a connection: the version record of its family and, where
that record has the request in its first form, the core record. -/
def initRequestLayout (family : Family) (fieldName : String) : Layout :=
  .build [
    .plain 1 fieldName (VersionRecord.recordType family).type,
    .grouped "versions"
      (fun fields _ =>
        (VersionRecord.ofValue (fields[0]?.getD default) : VersionRecord family).counter?
          "init_request" == some 1)
      [.plain 3 "core_version" (VersionRecord.recordType .core).type]]

namespace AuthMessage

/-- The name of a message. -/
def name : AuthMessage → String
  | initRequest => "InitRequest"
  | createRequest => "CreateRequest"
  | validateRequest => "ValidateRequest"
  | amendRequest => "AmendRequest"
  | fetchRequest => "FetchRequest"
  | fetchResponse => "FetchResponse"
  | resetRequest => "ResetRequest"
  | captchaRequest => "CaptchaRequest"
  | captchaResponse => "CaptchaResponse"
  | deleteRequest => "DeleteRequest"

open Layout in
/-- The fields of a message. -/
def layout : AuthMessage → Layout
  | initRequest => initRequestLayout .auth "auth_version"
  | createRequest =>
    .build [plain 1 "pass" .secret, plain 2 "user" .text, plain 3 "email" .text,
      plain 4 "captcha_text" .text, plain 5 "captcha_token" .text]
  | validateRequest =>
    .build [plain 1 "ticket" .secret, plain 2 "text" .text, plain 3 "captcha_text" .text,
      plain 4 "captcha_token" .text]
  | amendRequest =>
    .build [plain 1 "ticket" .secret, plain 2 "new_pass" .secret, plain 3 "new_user" .text,
      plain 4 "new_email" .text, plain 5 "pass" .secret, plain 6 "captcha_text" .text,
      plain 7 "captcha_token" .text]
  | fetchRequest | captchaRequest => .nil
  | fetchResponse =>
    .build [plain 1 "user" .text, plain 2 "email" .text,
      plain 3 "state" (.choice AccountState.enumeration)]
  | resetRequest =>
    .build [plain 1 "login" .text, plain 2 "pass" .secret, plain 3 "captcha_text" .text,
      plain 4 "captcha_token" .text]
  | captchaResponse =>
    .build [plain 1 "captcha_token" .text, bounded 2 "captcha_image" .blob blobLimit,
      plain 3 "captcha_audio" .blob]
  | deleteRequest =>
    .build [plain 1 "ticket" .secret, plain 2 "pass" .secret, plain 3 "reason" .text]

/-- The type of a message's fields. -/
def recordType (m : AuthMessage) : RecordType := { name := m.name, layout := m.layout }

end AuthMessage

end Storefront
