import Ldap.Operation
import Ldap.Result

/-! What a server counts: connections, undecodable messages, and requests by operation with their
results and durations. -/

namespace Ldap

/-- The upper bounds of the duration buckets in nanoseconds, each with its text in seconds. -/
def durationBuckets : List (Nat × String) :=
  [(500000, "0.0005"), (1000000, "0.001"), (2500000, "0.0025"), (5000000, "0.005"),
    (10000000, "0.01"), (25000000, "0.025"), (50000000, "0.05"), (100000000, "0.1"),
    (250000000, "0.25"), (500000000, "0.5"), (1000000000, "1")]

/-- The observed durations. A bucket counts those that its bound is the first to cover. -/
structure Histogram where
  buckets : List Nat := durationBuckets.map fun _ => 0
  count : Nat := 0
  /-- The sum in microseconds, each duration rounded down, with 64 bits. -/
  sumMicros : Nat := 0
deriving DecidableEq, Repr

namespace Histogram

/-- Counts a duration in the first bucket that covers it. -/
def countIn (nanos : Nat) : List (Nat × String) → List Nat → List Nat
  | (bound, _) :: bounds, n :: counts =>
    if nanos ≤ bound then (n + 1) :: counts else n :: countIn nanos bounds counts
  | _, counts => counts

def observe (h : Histogram) (nanos : Nat) : Histogram :=
  { buckets := countIn nanos durationBuckets h.buckets
    count := h.count + 1
    sumMicros := (h.sumMicros + nanos / 1000) % 0x10000000000000000 }

end Histogram

/-- What is counted of one operation. -/
structure OperationMetrics where
  requests : Nat := 0
  errors : Nat := 0
  durations : Histogram := {}
deriving DecidableEq, Repr

structure Metrics where
  connections : Nat := 0
  active : Int := 0
  /-- Connections refused because too many were open. -/
  rejected : Nat := 0
  decodeErrors : Nat := 0
  /-- Requests refused because of their controls. -/
  admissionRejections : Nat := 0
  operations : List (Operation × OperationMetrics) := Operation.all.map fun op => (op, {})
  /-- How often each result code was sent. -/
  results : List (Int32 × Nat) := []
deriving DecidableEq, Repr

namespace Metrics

def opened (m : Metrics) : Metrics :=
  { m with connections := m.connections + 1, active := m.active + 1 }

def closed (m : Metrics) : Metrics := { m with active := m.active - 1 }

def refused (m : Metrics) : Metrics := { m with rejected := m.rejected + 1 }

def undecodable (m : Metrics) : Metrics := { m with decodeErrors := m.decodeErrors + 1 }

def admissionRejected (m : Metrics) : Metrics :=
  { m with admissionRejections := m.admissionRejections + 1 }

def ofOperation (m : Metrics) (op : Operation) : OperationMetrics :=
  (m.operations.lookup op).getD {}

def requests (m : Metrics) (op : Operation) : Nat := (m.ofOperation op).requests

def errors (m : Metrics) (op : Operation) : Nat := (m.ofOperation op).errors

/-- Whether a result counts as an error. An operation that was only tried out does not. -/
def isError (code : ResultCode) : Bool :=
  !code.isSuccess && code != .noOperation

/-- Adds one to the count of a key. -/
def countKey (key : Int32) : List (Int32 × Nat) → List (Int32 × Nat)
  | [] => [(key, 1)]
  | (k, n) :: rest => if k = key then (k, n + 1) :: rest else (k, n) :: countKey key rest

/-- Counts a request with its result, which abandon and unbind do not have, and its duration. -/
def observe (m : Metrics) (op : Operation) (code : Option ResultCode) (nanos : Nat) : Metrics :=
  let one (o : OperationMetrics) : OperationMetrics :=
    { requests := o.requests + 1
      errors := if code.any isError then o.errors + 1 else o.errors
      durations := o.durations.observe nanos }
  { m with
    operations := m.operations.map fun (o, counts) => (o, if o = op then one counts else counts)
    results := match code with
      | some code => countKey code.value m.results
      | none => m.results }

end Metrics

end Ldap
