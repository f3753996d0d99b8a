import Ldap.Operation

/-! The configuration of a server: where it listens, what its directory holds, what clients may do,
and how connections are treated. -/

namespace Ldap

namespace Config

structure Listener where
  name : String := "default"
  url : String
deriving DecidableEq, Repr

/-- An identity with a password of its own. -/
structure Credential where
  dn : String
  password : String
deriving DecidableEq, Repr

structure Connections where
  /-- The largest message accepted, in bytes. -/
  maxMessageSize : Nat := 20 * 1024 * 1024
  /-- The most clients served at a time. -/
  maxConnections : Nat := 1024
  /-- How long to wait for bytes, in milliseconds, if there is a limit. -/
  readTimeoutMs : Option Nat := none
  /-- Whether to go on waiting for a message to begin. -/
  ignoreInitialTimeout : Bool := true
  /-- Whether to go on waiting within a message. -/
  ignoreSubsequentTimeout : Bool := false
deriving DecidableEq, Repr

/-- The values of an attribute. A single one need not be in a list. -/
inductive Values where
  | one (value : String)
  | many (values : List String)
deriving DecidableEq, Repr

def Values.toList : Values → List String
  | .one value => [value]
  | .many values => values

structure EntrySpec where
  dn : String
  attributes : List (String × Values) := []
deriving DecidableEq, Repr

end Config

structure Config where
  listeners : List Config.Listener := [{ url := "ldap://127.0.0.1:1389" }]
  baseDns : List String := ["dc=example,dc=com"]
  /-- The operations that clients may use, or `none` for all. -/
  allowed : Option (List Operation) := none
  authenticationRequired : List Operation := []
  /-- Identities that may authenticate besides the entries. -/
  credentials : List Config.Credential := []
  passwordAttributes : List String := ["userPassword"]
  saslMechanisms : List String := ["PLAIN"]
  allowAnonymousPlain : Bool := true
  /-- The most entries that a search returns, or zero for no limit. -/
  maxSizeLimit : Nat := 0
  connection : Config.Connections := {}
  entries : List Config.EntrySpec := []
  /-- Where the metrics are served, if they are. -/
  metricsListen : Option String := none
  vendorName : Option String := none
  vendorVersion : Option String := none
deriving DecidableEq, Repr

namespace Config.Connections

/-- The time to wait for bytes. Zero stands for no limit. -/
def readTimeout (c : Connections) : Option Nat :=
  c.readTimeoutMs.filter (0 < ·)

end Config.Connections

end Ldap
