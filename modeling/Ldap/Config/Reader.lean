import Ldap.Config.Basic
import Ldap.Config.Document

/-! Reading a configuration from a document. Fields that are not known are passed over, and those
left out have their defaults, except for base names, of which there are then none. -/

namespace Ldap.Config

open Document

def Listener.ofDocument? (d : Document) : Option Listener := do
  let fields ← d.fields?
  let name ← field fields "name" text? (some "default")
  let url ← field fields "url" text? none
  return { name, url }

def Credential.ofDocument? (d : Document) : Option Credential := do
  let fields ← d.fields?
  let dn ← field fields "dn" text? none
  let password ← field fields "password" text? none
  return { dn, password }

def Connections.ofDocument? (d : Document) : Option Connections := do
  let fields ← d.fields?
  let standard : Connections := {}
  return {
    maxMessageSize := ← field fields "max_message_size" nat? (some standard.maxMessageSize)
    maxConnections := ← field fields "max_connections" nat? (some standard.maxConnections)
    readTimeoutMs := ← field fields "read_timeout_ms" (optional? nat?) (some none)
    ignoreInitialTimeout :=
      ← field fields "ignore_initial_timeout" bool? (some standard.ignoreInitialTimeout)
    ignoreSubsequentTimeout :=
      ← field fields "ignore_subsequent_timeout" bool? (some standard.ignoreSubsequentTimeout) }

/-- Values are never taken from bare words or numbers. -/
def Values.ofDocument? : Document → Option Values
  | .text value => some (.one value)
  | d => (list? quoted? d).map .many

/-- Attributes are kept in the order of their names. -/
def EntrySpec.ofDocument? (d : Document) : Option EntrySpec := do
  let fields ← d.fields?
  let dn ← field fields "dn" text? none
  let attributes ← field fields "attributes" fields? (some [])
  let attributes ← attributes.mapM fun (name, values) =>
    (Values.ofDocument? values).map fun values => (name, values)
  return { dn, attributes := attributes.mergeSort fun a b => decide (a.1 ≤ b.1) }

/-- An operation by its name. -/
def operation? (d : Document) : Option Operation :=
  d.text?.bind Operation.ofName?

/-- The configuration that a document spells. -/
def ofDocument? (d : Document) : Option Config := do
  let fields ← d.fields?
  let standard : Config := {}
  let texts := list? text?
  let operations := list? operation?
  return {
    listeners := ← field fields "listeners" (list? Listener.ofDocument?) (some standard.listeners)
    baseDns := ← field fields "base_dns" texts (some [])
    allowed := ← field fields "allowed_operation_types" (optional? operations) (some none)
    authenticationRequired :=
      ← field fields "authentication_required_operation_types" operations (some [])
    credentials :=
      ← field fields "additional_bind_credentials" (list? Credential.ofDocument?) (some [])
    passwordAttributes :=
      ← field fields "password_attributes" texts (some standard.passwordAttributes)
    saslMechanisms := ← field fields "sasl_mechanisms" texts (some standard.saslMechanisms)
    allowAnonymousPlain :=
      ← field fields "allow_anonymous_sasl_plain" bool? (some standard.allowAnonymousPlain)
    maxSizeLimit := ← field fields "max_size_limit" nat? (some standard.maxSizeLimit)
    connection := ← field fields "connection" Connections.ofDocument? (some standard.connection)
    entries := ← field fields "entries" (list? EntrySpec.ofDocument?) (some [])
    metricsListen := ← field fields "metrics_listen" (optional? text?) (some none)
    vendorName := ← field fields "vendor_name" (optional? text?) (some none)
    vendorVersion := ← field fields "vendor_version" (optional? text?) (some none) }

end Ldap.Config
