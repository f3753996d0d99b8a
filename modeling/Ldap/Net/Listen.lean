import Ldap.Net.Reader
import Ldap.Text.Numeral
import Ldap.Text.Part

/-! Where a server listens: the address of a listener is given as a URL, the one of the metrics as
a plain socket address. -/

namespace Ldap.Net

inductive ListenError where
  | encrypted
  | scheme
  | portNumber (reason : Text.NumeralError)
  /-- What stands for the address is none. -/
  | address (text : String)
  | metricsAddress (text : String)
deriving DecidableEq, Repr

def ListenError.message : ListenError → String
  | .encrypted => "ldaps:// listeners are not supported, use ldap://"
  | .scheme => "Invalid URL scheme, expected ldap://"
  | .portNumber reason => "Invalid port number: " ++ reason.message
  | .address text => "Failed to parse address: " ++ text ++ ": invalid socket address syntax"
  | .metricsAddress text =>
    "Invalid metrics listen address: " ++ text ++ ": invalid socket address syntax"

/-- Characters without the slashes at both ends. -/
def trimSlashes (cs : List Char) : List Char :=
  ((cs.dropWhile (· == '/')).reverse.dropWhile (· == '/')).reverse

/-- Reads what follows the scheme: a socket address, or a number alone for all addresses of the
host. -/
def readAuthority : List Char → Except ListenError SocketAddress
  | ':' :: digits =>
    match Text.readNat 0xFFFF digits with
    | .ok n => .ok (.v4 .unspecified n.toUInt16)
    | .error e => .error (.portNumber e)
  | cs =>
    match SocketAddress.ofText? (String.ofList cs) with
    | some address => .ok address
    | none => .error (.address (String.ofList cs))

/-- The address that a listener URL names. -/
def listenAddress (url : String) : Except ListenError SocketAddress :=
  if "ldaps://".toList.isPrefixOf url.toList then .error .encrypted
  else match Text.strip? "ldap://".toList url.toList with
    | some rest => readAuthority (trimSlashes rest)
    | none => .error .scheme

/-- The address at which the metrics are served. -/
def metricsAddress (text : String) : Except ListenError SocketAddress :=
  match SocketAddress.ofText? text with
  | some address => .ok address
  | none => .error (.metricsAddress text)

end Ldap.Net
