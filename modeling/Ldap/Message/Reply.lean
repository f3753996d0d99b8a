import Ldap.Message.Basic

/-! Responses that a server makes up when it has nothing more to say than a result. -/

namespace Ldap.Message

/-- The response of the type that an operation calls for, with nothing but a result. Abandon and
unbind have no response. -/
def resultOp? (operation : Operation) (result : Result) : Option Op :=
  match operation with
  | .abandon | .unbind => none
  | .add => some (.addResponse result)
  | .bind => some (.bindResponse result none)
  | .compare => some (.compareResponse result)
  | .delete => some (.deleteResponse result)
  | .extended => some (.extendedResponse { result })
  | .modify => some (.modifyResponse result)
  | .modifyDn => some (.modifyDnResponse result)
  | .search => some (.searchResultDone result)

/-- The response to a request that failed. -/
def failure? (id : Int32) (operation : Operation) (result : Result) : Option Message :=
  (resultOp? operation result).map fun op => { id, op }

def noticeOid : String := "1.3.6.1.4.1.1466.20036"

/-- The notice that a server sends, unasked, before it drops a connection. -/
def disconnectionNotice (code : ResultCode) (message : String) : Message :=
  { id := 0, op := .extendedResponse { result := { code, message }, oid := some noticeOid } }

end Ldap.Message
