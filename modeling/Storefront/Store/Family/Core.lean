import Storefront.Store.Record
import Storefront.Version.Layout

/-! # The core family

Replies to session setup, login, and the answer to requests that have none of their own.
-/

namespace Storefront

/-- The messages of the core family. -/
inductive CoreMessage where
  | initResponse
  | authRequest
  | authResponse
  | response
  deriving DecidableEq, Repr

namespace CoreMessage

/-- The name of a message. -/
def name : CoreMessage → String
  | initResponse => "InitResponse"
  | authRequest => "AuthRequest"
  | authResponse => "AuthResponse"
  | response => "Response"

/-- True when both sides agree on what an init response carries. -/
def resultPresent : Guard := fun _ ctx =>
  (ctx.core.bind (·.counter? "init_response")) == some 1

open Layout in
/-- The fields of a message.  The result of an init response is exchanged only where it was
agreed upon; otherwise the result reads as unset. -/
def layout : CoreMessage → Layout
  | initResponse =>
    .build [grouped "result" resultPresent [plain 1 "error" .status, plain 2 "message" .text]]
  | authRequest =>
    .build [plain 1 "pass" .secret, plain 2 "user" .text, plain 3 "captcha_text" .text,
      plain 4 "captcha_token" .text]
  | authResponse | response => .build [plain 1 "error" .status, plain 2 "message" .text]

/-- The type of a message's fields. -/
def recordType (m : CoreMessage) : RecordType := { name := m.name, layout := m.layout }

end CoreMessage

end Storefront
