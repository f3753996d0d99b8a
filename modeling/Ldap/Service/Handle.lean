import Ldap.Message.Reply
import Ldap.Service.Bind
import Ldap.Service.Search
import Ldap.Service.Update

/-! One request of a client: it passes the gate, is carried out, and is counted. Every request is
answered under its own identifier, by responses of its own type, unless it is one that has none or its
handling breaks off. -/

namespace Ldap.Service

/-- How a request ends. -/
inductive Outcome where
  | answered (replies : List Reply)
  | failed (cause : Failure)
  /-- An update broke off, and nothing is answered. -/
  | brokenOff
deriving DecidableEq, Repr

def Outcome.ofExcept : Except Failure (List Reply) → Outcome
  | .ok replies => .answered replies
  | .error f => .failed f

/-- Takes over the directory that an update leaves; a failed one leaves it as it is. -/
def updated (d : Directory) : Except Failure (Option Reply × Directory) → Outcome × Directory
  | .ok (some reply, d) => (.answered [reply], d)
  | .ok (none, d) => (.brokenOff, d)
  | .error f => (.failed f, d)

/-- Carries out a request that was admitted: how it ends, the connection and the directory
afterwards. -/
def perform (s : Service) (c : Connection) (op : Op) (a : Admitted) :
    Outcome × Connection × Directory :=
  let d := s.directory
  match op with
  | .bindRequest r =>
    let (reply, c) := s.bind c r a
    (.ofExcept (reply.map fun reply => [reply]), c, d)
  | .addRequest dn attributes => update (replied <$> add d dn attributes a)
  | .deleteRequest dn => update (replied <$> delete d dn a)
  | .modifyRequest dn changes => update (replied <$> modify d dn changes a)
  | .modifyDnRequest r => update (modifyDn d r a)
  | .compareRequest dn name value =>
    (.ofExcept ((compare d dn name value a).map fun reply => [reply]), c, d)
  | .searchRequest r => (.ofExcept (s.search r a), c, d)
  | .extendedRequest r =>
    let (response, d) := Extension.respond d c.authenticatedDn s.generatedPassword r
    (.answered [⟨.extendedResponse response, []⟩], c, d)
  | _ => (.answered [], c, d)
where
  replied (r : Reply × Directory) : Option Reply × Directory := (some r.1, r.2)
  update (result : Except Failure (Option Reply × Directory)) : Outcome × Connection × Directory :=
    let (outcome, d) := updated s.directory result
    (outcome, c, d)

/-- Passes a request through the gate and carries it out. -/
def process (s : Service) (c : Connection) (operation : Operation) (m : Message) :
    Outcome × Connection × Directory :=
  match s.gate c operation m.controls with
  | .ok a => s.perform c m.op a
  | .error f => (.failed f, c, s.directory)

/-- The messages that answer a request. -/
def messages (id : Int32) (operation : Operation) : Outcome → List Message
  | .answered replies => replies.map fun r => { id, op := r.op, controls := r.controls }
  | .failed f => (Message.failure? id operation f.result).toList
  | .brokenOff => []

/-- The result code that a request ended with. -/
def finalCode (messages : List Message) : Option ResultCode :=
  (messages.getLast?.bind (·.op.result?)).map (·.code)

/-- Counts a request. How long it took is not told apart. -/
def count (metrics : Metrics) (operation : Operation) (outcome : Outcome)
    (messages : List Message) : Metrics :=
  let metrics := match outcome with
    | .failed (.admission _) => metrics.admissionRejected
    | _ => metrics
  metrics.observe operation (finalCode messages) 0

/-- What a message leads to. -/
inductive Handled where
  /-- The messages to be sent back, in order. -/
  | answered (messages : List Message)
  /-- A response is no request: the connection is to be closed, with a notice of the cause. -/
  | rejected (cause : Failure)
  /-- The handling broke off: the connection is lost, without a notice. -/
  | brokenOff
deriving DecidableEq, Repr

/-- Handles one message: what it leads to, the connection and the service afterwards. Each request takes
a password of its own. One whose handling breaks off is not counted. -/
def handle (s : Service) (c : Connection) (m : Message) : Handled × Connection × Service :=
  match m.op.operation? with
  | none => (.rejected (.responseOperation m.id m.op.tag), c, s)
  | some operation =>
    let c := if operation = .bind then c.anonymous else c
    let (outcome, c, directory) := s.process c operation m
    let s := { s.redraw with directory }
    if outcome = .brokenOff then (.brokenOff, c, s)
    else
      let replies := messages m.id operation outcome
      (.answered replies, c, { s with metrics := count s.metrics operation outcome replies })

end Ldap.Service
