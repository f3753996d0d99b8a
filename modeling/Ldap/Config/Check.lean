import Ldap.Config.Basic
import Ldap.Net.Listen
import Ldap.Sasl.Plain

/-! Whether a server can run with a configuration. Of several faults the first is reported, in the
order of the checks. -/

namespace Ldap

inductive ConfigError where
  | noListener
  | duplicateListener (name : String)
  | listener (name : String) (cause : Net.ListenError)
  | emptyBase
  | noPasswordAttribute
  | mechanism (name : String)
  | messageSize
  | connections
  /-- An entry cannot be added to the directory. -/
  | entry (dn : String) (cause : Failure)
deriving DecidableEq, Repr

def ConfigError.message : ConfigError → String
  | .noListener => "at least one listener is required"
  | .duplicateListener name => "duplicate listener name: " ++ name
  | .listener name cause => "listener " ++ name ++ ": " ++ cause.message
  | .emptyBase => "base_dns must not contain the empty DN"
  | .noPasswordAttribute => "password_attributes must not be empty"
  | .mechanism name => "unsupported SASL mechanism: " ++ name
  | .messageSize => "connection.max_message_size must be greater than zero"
  | .connections => "connection.max_connections must be greater than zero"
  | .entry dn cause => "loading entry " ++ dn ++ ": " ++ cause.text

namespace Config

/-- Checks listeners behind those whose names are given. -/
def checkListeners : List String → List Listener → Except ConfigError Unit
  | _, [] => .ok ()
  | names, l :: rest =>
    if names.contains l.name then .error (.duplicateListener l.name)
    else match Net.listenAddress l.url with
      | .ok _ => checkListeners (l.name :: names) rest
      | .error cause => .error (.listener l.name cause)

def check (c : Config) : Except ConfigError Unit := do
  if c.listeners.isEmpty then throw .noListener
  checkListeners [] c.listeners
  if c.baseDns.any fun dn => (Text.trim dn).isEmpty then throw .emptyBase
  if c.passwordAttributes.isEmpty then throw .noPasswordAttribute
  if let some name := c.saslMechanisms.find? fun name => !Plain.isNamed name then
    throw (.mechanism name)
  if c.connection.maxMessageSize = 0 then throw .messageSize
  if c.connection.maxConnections = 0 then throw .connections

end Config

end Ldap
