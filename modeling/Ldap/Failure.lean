import Ldap.Control.Admission
import Ldap.Filter.Text

/-! Why a request fails: the causes, and the result that reports each. -/

namespace Ldap

/-- Why an authentication fails. -/
inductive AuthError where
  | noCredentials
  | malformedCredentials (reason : String)
  /-- The cause is not told. -/
  | invalidCredentials
deriving DecidableEq, Repr

namespace AuthError

def message : AuthError → String
  | .noCredentials => "no SASL credentials were provided"
  | .malformedCredentials reason => "malformed SASL credentials: " ++ reason
  | .invalidCredentials => "invalid credentials"

/-- The text that the client is told. -/
def diagnostic : AuthError → String
  | .invalidCredentials => ""
  | e => e.message

end AuthError

inductive Failure where
  /-- A message carries a response where a request is due. -/
  | responseOperation (id : Int32) (tag : UInt8)
  | operationNotAllowed (operation : Operation)
  | authenticationRequired (operation : Operation)
  | admission (cause : AdmissionError)
  | assertionFailed (dn : String) (filter : Filter)
  | pageCookie
  | noSuchEntry (dn matched : String)
  | noSuchParent (dn matched : String)
  | noSuchSuperior (dn : String)
  | outsideBases (dn : String)
  | rootDse
  | invalidDn (dn : String)
  | invalidRdn (rdn : String)
  | entryExists (dn : String)
  | hasSubordinates (dn : String)
  | namingValueRemoved (name value : String)
  | moveBelowItself
  | noValues (name : String)
  | valueExists (name : String)
  | valueMissing (name : String)
  | incrementValue
  | incrementMissing (name : String)
  | notInteger (name : String)
  | protocolVersion (version : Int32)
  | mechanismNotSupported (mechanism : String)
  | authentication (cause : AuthError)
  | passwordMissing
  | noSuchIdentity (authzid : String)
  | noSuchUser (name : String)
  | ambiguousUser (name : String)
  | proxyIdentity (dn : String)
  | proxyRefused (cause : Failure)
  | extensionNotSupported (oid : String)
  | passwordModifyValue (cause : Ber.Error)
  | noTarget
  | targetRefused (cause : Failure)
  | anonymousTarget
  | anonymousChange
  | othersPassword
deriving DecidableEq, Repr

namespace Failure

def code : Failure → ResultCode
  | .admission cause => cause.code
  | .responseOperation .. | .noValues _ | .incrementValue | .protocolVersion _
  | .extensionNotSupported _ | .passwordModifyValue _ => .protocolError
  | .mechanismNotSupported _ => .authMethodNotSupported
  | .valueMissing _ | .incrementMissing _ => .noSuchAttribute
  | .notInteger _ => .constraintViolation
  | .valueExists _ => .attributeOrValueExists
  | .noSuchEntry .. | .noSuchParent .. | .noSuchSuperior _ | .outsideBases _
  | .targetRefused _ => .noSuchObject
  | .invalidDn _ | .invalidRdn _ => .invalidDnSyntax
  | .authentication _ | .noSuchIdentity _ | .noSuchUser _ | .ambiguousUser _ => .invalidCredentials
  | .authenticationRequired _ | .othersPassword => .insufficientAccessRights
  | .operationNotAllowed _ | .pageCookie | .rootDse | .moveBelowItself | .passwordMissing
  | .noTarget | .anonymousTarget | .anonymousChange => .unwillingToPerform
  | .hasSubordinates _ => .notAllowedOnNonLeaf
  | .namingValueRemoved .. => .notAllowedOnRdn
  | .entryExists _ => .entryAlreadyExists
  | .assertionFailed .. => .assertionFailed
  | .proxyIdentity _ | .proxyRefused _ => .authorizationDenied

def message : Failure → String
  | .responseOperation id tag =>
    "message " ++ toString id.toInt ++ " carries a response operation (type 0x"
      ++ Text.upperHexByte tag ++ ")"
  | .operationNotAllowed operation => operation.name ++ " operations are not allowed by this server"
  | .authenticationRequired operation =>
    operation.name ++ " operations require an authenticated connection"
  | .admission cause => cause.message
  | .assertionFailed dn filter =>
    "entry '" ++ dn ++ "' does not match the assertion filter " ++ filter.text
  | .pageCookie => "the paged results cookie is not valid"
  | .noSuchEntry dn _ => "entry '" ++ dn ++ "' does not exist"
  | .noSuchParent dn _ => "parent entry '" ++ dn ++ "' does not exist"
  | .noSuchSuperior dn => "new superior entry '" ++ dn ++ "' does not exist"
  | .outsideBases dn => "'" ++ dn ++ "' is not within any of the configured base DNs"
  | .rootDse => "cannot add the root DSE"
  | .invalidDn dn => "'" ++ dn ++ "' is not a valid DN"
  | .invalidRdn rdn => "'" ++ rdn ++ "' is not a valid RDN"
  | .entryExists dn => "entry '" ++ dn ++ "' already exists"
  | .hasSubordinates dn => "entry '" ++ dn ++ "' has subordinate entries"
  | .namingValueRemoved name value => "cannot remove RDN value " ++ name ++ "=" ++ value
  | .moveBelowItself => "cannot move an entry below itself"
  | .noValues name => "no values supplied for attribute " ++ name
  | .valueExists name => "attribute " ++ name ++ " already has the value being added"
  | .valueMissing name => "attribute " ++ name ++ " does not have the value being removed"
  | .incrementValue => "increment requires exactly one integer value"
  | .incrementMissing name => "cannot increment missing attribute " ++ name
  | .notInteger name => "attribute " ++ name ++ " has a non-integer value"
  | .protocolVersion version =>
    "LDAP protocol version " ++ toString version.toInt ++ " is not supported"
  | .mechanismNotSupported mechanism => "SASL mechanism " ++ mechanism ++ " is not supported"
  | .authentication cause => cause.diagnostic
  | .passwordMissing => "simple binds with a DN and an empty password are not allowed"
  | .noSuchIdentity authzid => "authorization identity '" ++ authzid ++ "' does not exist"
  | .noSuchUser name => "no entry found for user '" ++ name ++ "'"
  | .ambiguousUser name => "user name '" ++ name ++ "' matches multiple entries"
  | .proxyIdentity dn => "proxied authorization identity '" ++ dn ++ "' does not exist"
  | .proxyRefused cause => cause.message
  | .extensionNotSupported oid => "extended operation " ++ oid ++ " is not supported"
  | .passwordModifyValue cause =>
    "unable to decode the password modify request: " ++ cause.message
  | .noTarget => "no user identity was given and the connection is not authenticated"
  | .targetRefused cause => cause.message
  | .anonymousTarget => "cannot change the password of the anonymous identity"
  | .anonymousChange => "the current password is required for an anonymous password change"
  | .othersPassword => "the current password is required to change another user's password"

/-- The closest entry found, for failures to find one. -/
def matchedDn : Failure → String
  | .noSuchEntry _ matched | .noSuchParent _ matched => matched
  | _ => ""

def result (f : Failure) : Result :=
  { code := f.code, matchedDn := f.matchedDn, message := f.message }

/-- The code and the message. -/
def text (f : Failure) : String :=
  f.code.text ++ ": " ++ f.message

end Failure

end Ldap
