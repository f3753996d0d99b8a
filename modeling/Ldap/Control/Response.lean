import Ldap.Control.Request
import Ldap.Message.Codec

/-! The controls that a server attaches to its responses. -/

namespace Ldap.Control

open Ber (Item)

def authorizationIdentityOid : String := "2.16.840.1.113730.3.4.15"
def sortResponseOid : String := "1.2.840.113556.1.4.474"
def listViewResponseOid : String := "2.16.840.1.113730.3.4.10"

/-- The authorization identity of a name, which is empty for the anonymous one. -/
def authzid (dn : String) : String :=
  if dn.isEmpty then "" else "dn:" ++ dn

def authorizationIdentity (dn : String) : Control :=
  ⟨authorizationIdentityOid, false, some (Ber.utf8Bytes (authzid dn))⟩

/-- An entry as it was before or after an update. -/
def readEntry (kind : ControlKind) (entry : ResultEntry) : Control :=
  ⟨kind.oid, false, some (Op.searchResultEntry entry).toItem.toBytes⟩

def pagedResults (sizeEstimate : Int32) (cookie : List UInt8) : Control :=
  ⟨ControlKind.pagedResults.oid, false,
    some (Item.sequence [.ofInt32 sizeEstimate, .ofBytes cookie]).toBytes⟩

def sorted (code : ResultCode) : Control :=
  ⟨sortResponseOid, false, some (Item.sequence [.enumerated code.value]).toBytes⟩

def listView (position contentCount : Int32) (code : ResultCode) : Control :=
  ⟨listViewResponseOid, false,
    some (Item.sequence [.ofInt32 position, .ofInt32 contentCount, .enumerated code.value]).toBytes⟩

end Ldap.Control
