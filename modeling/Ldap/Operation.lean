/-! The kinds of request, by which a server is configured and requests are counted. -/

namespace Ldap

inductive Operation where
  | abandon
  | add
  | bind
  | compare
  | delete
  | extended
  | modify
  | modifyDn
  | search
  | unbind
deriving DecidableEq, Repr

namespace Operation

/-- Every operation, in alphabetical order. -/
def all : List Operation :=
  [.abandon, .add, .bind, .compare, .delete, .extended, .modify, .modifyDn, .search, .unbind]

def name : Operation → String
  | .abandon => "abandon"
  | .add => "add"
  | .bind => "bind"
  | .compare => "compare"
  | .delete => "delete"
  | .extended => "extended"
  | .modify => "modify"
  | .modifyDn => "modify_dn"
  | .search => "search"
  | .unbind => "unbind"

def ofName? (name : String) : Option Operation :=
  all.find? (·.name == name)

end Operation

end Ldap
