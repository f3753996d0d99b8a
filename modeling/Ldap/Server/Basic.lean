import Ldap.Config.Build
import Ldap.Server.Session

/-! A server: a service, and the clients that it serves at the same time. There is room for a limited
number of them; others are sent away with a notice that the server is busy. -/

namespace Ldap

structure Server where
  service : Service
  limits : Config.Connections
  /-- The number of clients being served. -/
  clients : Nat := 0
  /-- Whether all listeners are bound. -/
  ready : Bool := false

namespace Server

/-- The server that a configuration describes, before it is bound. -/
def ofConfig (c : Config) : Except ConfigError Server := do
  return { service := ← c.service, limits := c.connection }

def bound (s : Server) : Server := { s with ready := true }

def metrics (s : Server) : Metrics := s.service.metrics

def withMetrics (s : Server) (metrics : Metrics) : Server :=
  { s with service := { s.service with metrics } }

def hasRoom (s : Server) : Bool := s.clients < s.limits.maxConnections

/-- A client comes, and there is room for it. -/
def enter (s : Server) : Server :=
  { s.withMetrics s.metrics.opened with clients := s.clients + 1 }

/-- A client that was served goes. -/
def leave (s : Server) : Server :=
  { s.withMetrics s.metrics.closed with clients := s.clients - 1 }

/-- A client goes whose connection was lost. That it goes is not counted. -/
def lose (s : Server) : Server := { s with clients := s.clients - 1 }

def refuse (s : Server) : Server := s.withMetrics s.metrics.refused

def busyNotice : Message :=
  Message.disconnectionNotice .busy "the server has reached its connection limit"

/-- A client comes and stays silent. -/
def hold (s : Server) : Server := if s.hasRoom then s.enter else s.refuse

/-- How the input of a client is read. -/
def reader (limits : Config.Connections) (deliveries : List Ber.Delivery) : Ber.Reader :=
  ((Ber.Reader.ofDeliveries deliveries).setLimit limits.maxMessageSize).setIgnoreTimeout
    limits.ignoreInitialTimeout limits.ignoreSubsequentTimeout

/-- Serves a client from its coming to its going: the bytes sent to it, and the server then. -/
def serve (s : Server) (deliveries : List Ber.Delivery) : List UInt8 × Server :=
  if s.hasRoom then
    let s := s.enter
    let t := Transcript.ofReader s.service (reader s.limits deliveries)
    let s := { s with service := t.service }
    (t.written, if t.lost then s.lose else s.leave)
  else (busyNotice.encode, s.refuse)

/-- What a client delivers that sends bytes and then waits for the server without closing: if waiting
has a limit, the server runs into it. -/
def openEnded (limits : Config.Connections) (bytes : List UInt8) : List Ber.Delivery :=
  [.bytes bytes] ++ if limits.readTimeout.isSome then [.timeout] else []

end Server

end Ldap
