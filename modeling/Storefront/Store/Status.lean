/-! # Result codes

Answers carry a bare number that says how a request went.  Codes are only ever added: a number keeps
its meaning.  A number without a meaning can still be shown, and one that was never set is no
success.
-/

namespace Storefront

/-- The codes of failures. -/
inductive ErrorCode where
  | generic
  | exist
  | backend
  | pending
  | version
  | state
  | requestInvalid
  | authenticationInvalid
  | authenticationValidate
  | authenticationLocked
  | authenticationWait
  | authenticationRelogin
  | authenticationDemo
  | authenticationDemoInvalid
  | authenticationConnectionCount
  | accountInvalid
  | accountApplicationQuota
  | accountStorageQuota
  | accountNoReservation
  | storage
  | storageLimit
  | storageSum
  | storageZip
  | storageSize
  | storageInvalid
  | applicationInvalid
  | applicationReservation
  | applicationSystem
  | retry
  | argumentInvalid
  | requestCount
  deriving DecidableEq, Repr

namespace ErrorCode

/-- All codes in order of their numbers. -/
def all : List ErrorCode :=
  [generic, exist, backend, pending, version, state, requestInvalid, authenticationInvalid,
    authenticationValidate, authenticationLocked, authenticationWait, authenticationRelogin,
    authenticationDemo, authenticationDemoInvalid, authenticationConnectionCount, accountInvalid,
    accountApplicationQuota, accountStorageQuota, accountNoReservation, storage, storageLimit,
    storageSum, storageZip, storageSize, storageInvalid, applicationInvalid,
    applicationReservation, applicationSystem, retry, argumentInvalid, requestCount]

/-- The number of a code, its name, and its wording. -/
def entry : ErrorCode → Nat × String × String
  | generic => (1, "Generic", "Generic")
  | exist => (2, "Exist", "Exist")
  | backend => (3, "Backend", "Backend unavailable")
  | pending => (4, "Pending", "Operation pending")
  | version => (5, "Version", "Version mismatch")
  | state => (6, "State", "Invalid state")
  | requestInvalid => (7, "RequestInvalid", "Request invalid")
  | authenticationInvalid => (8, "AuthenticationInvalid", "Authentication: Invalid")
  | authenticationValidate =>
    (9, "AuthenticationValidate", "Authentication: Validate required")
  | authenticationLocked => (10, "AuthenticationLocked", "Authentication: Locked")
  | authenticationWait => (11, "AuthenticationWait", "Authentication: Wait")
  | authenticationRelogin => (12, "AuthenticationRelogin", "Authentication: Relogin")
  | authenticationDemo =>
    (13, "AuthenticationDemo", "Authentication: No demo slot available")
  | authenticationDemoInvalid =>
    (14, "AuthenticationDemoInvalid", "Authentication: Demo not supported")
  | authenticationConnectionCount =>
    (15, "AuthenticationConnectionCount", "Authentication: Connection count")
  | accountInvalid => (16, "AccountInvalid", "Account: Invalid")
  | accountApplicationQuota =>
    (17, "AccountApplicationQuota", "Account: Application count quota exceeded")
  | accountStorageQuota =>
    (18, "AccountStorageQuota", "Account: Storage quota exceeded")
  | accountNoReservation => (19, "AccountNoReservation", "Account: No reservation")
  | storage => (20, "Storage", "Storage")
  | storageLimit => (21, "StorageLimit", "Storage: Limit")
  | storageSum => (22, "StorageSum", "Storage: Sum")
  | storageZip => (23, "StorageZip", "Storage: Zip")
  | storageSize => (24, "StorageSize", "Storage: Size")
  | storageInvalid => (25, "StorageInvalid", "Storage: Invalid")
  | applicationInvalid => (26, "ApplicationInvalid", "Application: Invalid")
  | applicationReservation => (27, "ApplicationReservation", "Application: Reservation")
  | applicationSystem => (28, "ApplicationSystem", "Application: System")
  | retry => (29, "Retry", "Retry")
  | argumentInvalid => (30, "ArgumentInvalid", "Invalid argument")
  | requestCount => (31, "RequestCount", "Request count")

/-- The number of a code. -/
def code (c : ErrorCode) : Nat := c.entry.1

/-- The name of a code. -/
def name (c : ErrorCode) : String := c.entry.2.1

/-- The wording of a code. -/
def text (c : ErrorCode) : String := c.entry.2.2

/-- The code with a given number. -/
def ofCode? (n : Nat) : Option ErrorCode := all.find? (·.code == n)

@[simp] theorem ofCode?_code (c : ErrorCode) : ofCode? c.code = some c := by
  cases c <;> rfl

end ErrorCode

/-- A number that says how a request went. -/
structure Condition where
  code : Nat
  deriving DecidableEq, Repr

namespace Condition

/-- What all result codes belong to. -/
def category : String := "storeproto"

/-- Success. -/
def success : Condition := ⟨0⟩

/-- True for success. -/
def isSuccess (c : Condition) : Bool := c.code == 0

/-- The code of a failure that has one. -/
def kind? (c : Condition) : Option ErrorCode := ErrorCode.ofCode? c.code

/-- The wording of a condition. -/
def message (c : Condition) : String :=
  if c.isSuccess then "Success"
  else match c.kind? with
    | some code => code.text
    | none => "Unknown"

/-- A condition as it is shown to people. -/
def text (c : Condition) : String := s!"({category}:{c.code}): {c.message}"

end Condition

namespace ErrorCode

/-- The condition that a code stands for. -/
def condition (c : ErrorCode) : Condition := ⟨c.code⟩

end ErrorCode

/-- The result an answer carries. -/
structure Status where
  code : Nat
  deriving DecidableEq, Repr

namespace Status

/-- The result of a request that went well. -/
def ok : Status := ⟨0⟩

/-- The result of an answer that never got one. -/
def unset : Status := ⟨0xFFFFFFFF⟩

/-- True for the result of a request that went well. -/
def isOk (s : Status) : Bool := s == ok

/-- True for a result that was set. -/
def isSet (s : Status) : Bool := s != unset

/-- The condition that a result stands for. -/
def condition (s : Status) : Condition := ⟨s.code⟩

/-- A result as it is shown to people. -/
def text (s : Status) : String := if s.isSet then s.condition.text else "unset"

@[simp] theorem isSet_unset : unset.isSet = false := rfl
@[simp] theorem isOk_unset : unset.isOk = false := rfl

end Status

end Storefront
