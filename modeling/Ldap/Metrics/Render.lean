import Ldap.Metrics.Basic
import Ldap.Number.Binary64
import Ldap.Text.Quoted

/-! The text form of metrics: for each a line of help, its type, and one line for each value. -/

namespace Ldap.Metrics

def familyName (name : String) : String := "ldap_inmem_" ++ name

/-- One value, with labels in braces if there are any. -/
def sample (name : String) (labels : List (String × String)) (value : String) : String :=
  let shown := labels.map fun (k, v) => k ++ "=\"" ++ v ++ "\""
  let braces := if labels.isEmpty then "" else "\x7b" ++ ",".intercalate shown ++ "\x7d"
  familyName name ++ braces ++ " " ++ value ++ "\n"

def family (name kind help : String) (samples : List String) : String :=
  "# HELP " ++ familyName name ++ " " ++ help ++ "\n# TYPE " ++ familyName name ++ " " ++ kind ++ "\n"
    ++ String.join samples

def single (name kind help value : String) : String :=
  family name kind help [sample name [] value]

/-- The counts of buckets, each with those of the buckets before it. -/
def cumulative : Nat → List Nat → List Nat
  | _, [] => []
  | before, n :: rest => (before + n) :: cumulative (before + n) rest

/-- The sum of durations in seconds. -/
def sumSeconds (h : Histogram) : String :=
  ((Number.Binary64.ofNat h.sumMicros).divNat 1000000).text

def durationSamples (op : Operation) (h : Histogram) : List String :=
  let name := "request_duration_seconds"
  let label := ("op", op.name)
  (durationBuckets.zip (cumulative 0 h.buckets)).map (fun ((_, bound), n) =>
      sample (name ++ "_bucket") [label, ("le", bound)] (toString n))
    ++ [sample (name ++ "_bucket") [label, ("le", "+Inf")] (toString h.count),
      sample (name ++ "_sum") [label] (sumSeconds h),
      sample (name ++ "_count") [label] (toString h.count)]

def resultSample (code : Int32) (count : Nat) : String :=
  sample "results_total" [("code", toString code.toInt), ("name", ResultCode.name ⟨code⟩)]
    (toString count)

/-- The metrics as text, with the number of entries in the directory. -/
def render (m : Metrics) (entries : Nat) : String :=
  let perOperation (name : String) (f : Operation → Nat) : List String :=
    Operation.all.map fun op => sample name [("op", op.name)] (toString (f op))
  let codes := m.results.mergeSort fun a b => decide (a.1 ≤ b.1)
  single "connections_total" "counter" "Total number of client connections accepted."
      (toString m.connections)
    ++ single "connections_active" "gauge" "Client connections currently open." (toString m.active)
    ++ single "connections_rejected_total" "counter"
      "Connections refused at the connection limit." (toString m.rejected)
    ++ single "decode_errors_total" "counter" "Total number of undecodable LDAP messages."
      (toString m.decodeErrors)
    ++ single "admission_rejections_total" "counter"
      "Requests rejected because of their controls." (toString m.admissionRejections)
    ++ single "entries" "gauge" "Entries held by the directory." (toString entries)
    ++ family "requests_total" "counter" "Total LDAP requests by operation."
      (perOperation "requests_total" m.requests)
    ++ family "errors_total" "counter" "Requests that did not succeed, by operation."
      (perOperation "errors_total" m.errors)
    ++ family "results_total" "counter" "Responses sent, by result code."
      (codes.map fun (code, count) => resultSample code count)
    ++ family "request_duration_seconds" "histogram" "Request duration in seconds by operation."
      (Operation.all.flatMap fun op => durationSamples op (m.ofOperation op).durations)

end Ldap.Metrics
