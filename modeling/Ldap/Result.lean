import Ldap.Ber.Item
import Ldap.Ber.Reader

/-! Result codes, and the result that every response carries: a code, the name of the closest entry
found, a diagnostic text, and the addresses of other servers. -/

namespace Ldap

open Ber (Item ReadM Bounds)

/-- Any 32-bit number is a code, so that codes without a name survive decoding. -/
structure ResultCode where
  value : Int32
deriving DecidableEq, Repr

namespace ResultCode

def success : ResultCode := ⟨0⟩
def protocolError : ResultCode := ⟨2⟩
def sizeLimitExceeded : ResultCode := ⟨4⟩
def compareFalse : ResultCode := ⟨5⟩
def compareTrue : ResultCode := ⟨6⟩
def authMethodNotSupported : ResultCode := ⟨7⟩
def unavailableCriticalExtension : ResultCode := ⟨12⟩
def saslBindInProgress : ResultCode := ⟨14⟩
def noSuchAttribute : ResultCode := ⟨16⟩
def constraintViolation : ResultCode := ⟨19⟩
def attributeOrValueExists : ResultCode := ⟨20⟩
def noSuchObject : ResultCode := ⟨32⟩
def invalidDnSyntax : ResultCode := ⟨34⟩
def invalidCredentials : ResultCode := ⟨49⟩
def insufficientAccessRights : ResultCode := ⟨50⟩
def busy : ResultCode := ⟨51⟩
def unwillingToPerform : ResultCode := ⟨53⟩
def sortControlMissing : ResultCode := ⟨60⟩
def offsetRangeError : ResultCode := ⟨61⟩
def notAllowedOnNonLeaf : ResultCode := ⟨66⟩
def notAllowedOnRdn : ResultCode := ⟨67⟩
def entryAlreadyExists : ResultCode := ⟨68⟩
def assertionFailed : ResultCode := ⟨122⟩
def authorizationDenied : ResultCode := ⟨123⟩
def noOperation : ResultCode := ⟨16654⟩

/-- The registered names of result codes. -/
def names : List (Int32 × String) :=
  [(0, "success"), (1, "operationsError"), (2, "protocolError"), (3, "timeLimitExceeded"),
    (4, "sizeLimitExceeded"), (5, "compareFalse"), (6, "compareTrue"),
    (7, "authMethodNotSupported"), (8, "strongerAuthRequired"), (10, "referral"),
    (11, "adminLimitExceeded"), (12, "unavailableCriticalExtension"),
    (13, "confidentialityRequired"), (14, "saslBindInProgress"), (16, "noSuchAttribute"),
    (17, "undefinedAttributeType"), (18, "inappropriateMatching"), (19, "constraintViolation"),
    (20, "attributeOrValueExists"), (21, "invalidAttributeSyntax"), (32, "noSuchObject"),
    (34, "invalidDNSyntax"), (48, "inappropriateAuthentication"), (49, "invalidCredentials"),
    (50, "insufficientAccessRights"), (51, "busy"), (52, "unavailable"),
    (53, "unwillingToPerform"), (60, "sortControlMissing"), (61, "offsetRangeError"),
    (64, "namingViolation"), (65, "objectClassViolation"), (66, "notAllowedOnNonLeaf"),
    (67, "notAllowedOnRDN"), (68, "entryAlreadyExists"), (80, "other"), (118, "canceled"),
    (119, "noSuchOperation"), (122, "assertionFailed"), (123, "authorizationDenied"),
    (16654, "noOperation")]

def name (code : ResultCode) : String :=
  (names.lookup code.value).getD "unknown"

/-- Success, the two answers of a comparison, and a bind in progress. -/
def isSuccess (code : ResultCode) : Bool :=
  [success, compareFalse, compareTrue, saslBindInProgress].contains code

/-- The number and the name. -/
def text (code : ResultCode) : String :=
  toString code.value.toInt ++ " (" ++ code.name ++ ")"

end ResultCode

structure Result where
  code : ResultCode
  matchedDn : String := ""
  message : String := ""
  referrals : List String := []
deriving DecidableEq, Repr

namespace Result

def success : Result := { code := .success }

def referralTag : UInt8 := 0xA3

/-- The components of a result, for the sequence of its response. Referrals are left out if there
are none. -/
def components (r : Result) : List Item :=
  [.enumerated r.code.value, .ofText r.matchedDn, .ofText r.message]
    ++ if r.referrals.isEmpty then [] else [.constructed referralTag (r.referrals.map .ofText)]

/-- Reads the components of a result from an open sequence, up to what is special to a response. -/
def readComponents (bounds : Bounds) : ReadM Result := do
  let code ← ReadM.enumerated
  let matchedDn ← ReadM.text
  let message ← ReadM.text
  if (← ReadM.tagWithin bounds) = some referralTag then
    return ⟨⟨code⟩, matchedDn, message, ← ReadM.listOf (← ReadM.sequence) ReadM.text⟩
  return ⟨⟨code⟩, matchedDn, message, []⟩

end Result

end Ldap
