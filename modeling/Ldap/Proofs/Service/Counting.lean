import Ldap.Proofs.Service.Response
import Mathlib.Algebra.GroupWithZero.Nat

/-! What is counted of the calls that a service is given, on any connections. Each request is counted once, under its
operation, and once more under the code of its last response if it calls for one; an error is counted where the code is
that of an error. The counters of requests, errors and results therefore add up, whatever the requests are and however
they end. Only a renaming that breaks off is not counted. -/

namespace Ldap

variable {operation other : Operation} {ops : List Op} {code : Option ResultCode} {μ μ' : Metrics} {m : Message}
  {ms : List Message} {lost nanos : Nat}

/-! ### Counters -/

namespace Metrics

/-- How many results were counted with a code of some kind. -/
def resultsOf (μ : Metrics) (p : Int32 → Bool) : Nat := ((μ.results.filter (p ·.1)).map Prod.snd).sum

/-- How many requests were counted. -/
def totalRequests (μ : Metrics) : Nat := (Operation.all.map μ.requests).sum

def totalErrors (μ : Metrics) : Nat := (Operation.all.map μ.errors).sum

/-- Every operation has its counters. -/
def Complete (μ : Metrics) : Prop := μ.operations.map Prod.fst = Operation.all

theorem isError_iff (code : ResultCode) : isError code ↔ code.value ∉ [0, 5, 6, 14, 16654] := by
  obtain ⟨n⟩ := code
  simp [isError, ResultCode.isSuccess, ResultCode.success, ResultCode.compareFalse, ResultCode.compareTrue,
    ResultCode.saslBindInProgress, ResultCode.noOperation, and_assoc]

theorem sum_countKey (p : Int32 → Bool) (key : Int32) (results : List (Int32 × Nat)) :
    (((countKey key results).filter (p ·.1)).map Prod.snd).sum =
      ((results.filter (p ·.1)).map Prod.snd).sum + if p key then 1 else 0 := by
  induction results with
  | nil => by_cases hp : p key <;> simp [countKey, hp]
  | cons entry results ih =>
    obtain ⟨k, n⟩ := entry
    rw [countKey]
    by_cases hk : k = key
    · subst hk
      by_cases hp : p k <;> simp [hp, Nat.add_right_comm]
    · by_cases hp : p k <;> simp [hk, hp, ih, Nat.add_assoc]

theorem resultsOf_observe (p : Int32 → Bool) : (μ.observe operation code nanos).resultsOf p =
    μ.resultsOf p + if code.any (p ·.value) then 1 else 0 := by
  cases code with
  | none => rfl
  | some code => exact sum_countKey p code.value μ.results

theorem lookup_map (f : Operation → OperationMetrics → OperationMetrics)
    (counters : List (Operation × OperationMetrics)) :
    (counters.map fun x => (x.1, f x.1 x.2)).lookup operation = (counters.lookup operation).map (f operation) := by
  induction counters with
  | nil => rfl
  | cons x counters ih =>
    obtain ⟨o, counts⟩ := x
    by_cases ho : operation = o
    · subst ho
      simp
    · rw [List.map_cons, List.lookup_cons, List.lookup_cons, beq_false_of_ne ho]
      exact ih

theorem Complete.exists_lookup (h : μ.Complete) (operation : Operation) :
    ∃ counts, μ.operations.lookup operation = some counts := by
  have hmem : operation ∈ μ.operations.map Prod.fst := by
    rw [h]
    cases operation <;> decide
  obtain ⟨x, hx, rfl⟩ := List.mem_map.mp hmem
  exact Option.isSome_iff_exists.mp (List.lookup_isSome_iff.mpr ⟨x, hx, beq_self_eq_true x.1⟩)

/-- What observing a request makes of the counters of an operation. -/
def observed (operation : Operation) (code : Option ResultCode) (nanos : Nat) (other : Operation)
    (counts : OperationMetrics) : OperationMetrics :=
  if other = operation then
    { requests := counts.requests + 1
      errors := if code.any isError then counts.errors + 1 else counts.errors
      durations := counts.durations.observe nanos }
  else counts

theorem operations_observe : (μ.observe operation code nanos).operations =
    μ.operations.map fun x => (x.1, observed operation code nanos x.1 x.2) := rfl

section Observe

variable (h : μ.Complete)
include h

theorem Complete.observe : (μ.observe operation code nanos).Complete := by
  rw [Complete, ← h, operations_observe, List.map_map]
  rfl

/-- The counters of the operation that is observed are changed, and no others. -/
theorem ofOperation_observe :
    (μ.observe operation code nanos).ofOperation other = observed operation code nanos other (μ.ofOperation other) := by
  obtain ⟨counts, hcounts⟩ := h.exists_lookup other
  rw [ofOperation, operations_observe, lookup_map, ofOperation, hcounts]
  rfl

theorem requests_observe :
    (μ.observe operation code nanos).requests other = μ.requests other + if other = operation then 1 else 0 := by
  rw [requests, ofOperation_observe h, observed]
  split <;> rfl

theorem errors_observe : (μ.observe operation code nanos).errors other =
    μ.errors other + if other = operation then if code.any isError then 1 else 0 else 0 := by
  rw [errors, ofOperation_observe h, observed]
  split
  · dsimp only
    split <;> rfl
  · rfl

omit h in
/-- What is added to the counter of one operation is added to the sum. -/
theorem sum_add_ite (f : Operation → Nat) (operation : Operation) (n : Nat) :
    (Operation.all.map fun other => f other + if other = operation then n else 0).sum =
      (Operation.all.map f).sum + n := by
  cases operation <;> simp [Operation.all] <;> omega

theorem totalRequests_observe : (μ.observe operation code nanos).totalRequests = μ.totalRequests + 1 := by
  have hrequests : (μ.observe operation code nanos).requests = fun other => μ.requests other + _ :=
    funext fun other => requests_observe h
  rw [totalRequests, hrequests]
  exact sum_add_ite μ.requests operation 1

theorem totalErrors_observe :
    (μ.observe operation code nanos).totalErrors = μ.totalErrors + if code.any isError then 1 else 0 := by
  have herrors : (μ.observe operation code nanos).errors = fun other => μ.errors other + _ :=
    funext fun other => errors_observe h
  rw [totalErrors, herrors]
  exact sum_add_ite μ.errors operation _

end Observe

/-! ### Messages -/

/-- The counters fit the messages that were handled, of which some were lost. -/
structure Tallies (μ : Metrics) (ms : List Message) (lost : Nat) : Prop where
  complete : μ.Complete
  requests : ∀ op, μ.requests op + (if op = .modifyDn then lost else 0) =
    ms.countP fun m => m.op.operation? = some op
  results : μ.resultsOf (fun _ => true) + lost = ms.countP fun m => m.op.operation?.any (· ∉ [.abandon, .unbind])
  errors_le : ∀ op, μ.errors op ≤ μ.requests op
  errors : μ.totalErrors = μ.resultsOf fun code => code ∉ [0, 5, 6, 14, 16654]
  admission : μ.admissionRejections ≤ μ.totalRequests

namespace Tallies

theorem start : Tallies {} [] 0 where
  complete := rfl
  requests op := by cases op <;> rfl
  results := rfl
  errors_le op := by cases op <;> exact Nat.le_refl _
  errors := by decide
  admission := Nat.zero_le _

theorem response (h : Tallies μ ms lost) (ho : m.op.operation? = none) : Tallies μ (ms ++ [m]) lost where
  complete := h.complete
  requests op := by simp [h.requests op, ho]
  results := by simp [h.results, ho]
  errors_le := h.errors_le
  errors := h.errors
  admission := h.admission

theorem brokenOff (h : Tallies μ ms lost) (ho : m.op.operation? = some .modifyDn) :
    Tallies μ (ms ++ [m]) (lost + 1) where
  complete := h.complete
  requests op := by
    have hop := h.requests op
    by_cases hm : op = .modifyDn
    · subst hm
      simp_all
      omega
    · rw [if_neg hm] at hop ⊢
      simp [hop, ho, Ne.symm hm]
  results := by
    have hall := h.results
    simp_all
    omega
  errors_le := h.errors_le
  errors := h.errors
  admission := h.admission

/-- A request that is counted has a code if it calls for a response. It may have been refused for its controls. -/
theorem observe (h : Tallies μ ms lost) (ho : m.op.operation? = some operation)
    (hcode : code.isSome ↔ operation ∉ [.abandon, .unbind]) (hμ : μ' = μ ∨ μ' = μ.admissionRejected) :
    Tallies (μ'.observe operation code nanos) (ms ++ [m]) lost := by
  have hcomplete : μ'.Complete := by rcases hμ with rfl | rfl <;> exact h.complete
  have hrequests : μ'.requests = μ.requests := by rcases hμ with rfl | rfl <;> rfl
  have herrors : μ'.errors = μ.errors := by rcases hμ with rfl | rfl <;> rfl
  have hresults : μ'.resultsOf = μ.resultsOf := by rcases hμ with rfl | rfl <;> rfl
  have hadmission : μ'.admissionRejections ≤ μ.admissionRejections + 1 := by
    rcases hμ with rfl | rfl
    · exact Nat.le_succ _
    · exact Nat.le_refl _
  refine ⟨hcomplete.observe, fun op => ?_, ?_, fun op => ?_, ?_, ?_⟩
  · rw [requests_observe hcomplete, hrequests, Nat.add_right_comm, h.requests op]
    simp [ho, eq_comm]
  · rw [resultsOf_observe, hresults, Nat.add_right_comm, h.results]
    cases code <;> simp_all
  · have hle := h.errors_le op
    rw [errors_observe hcomplete, requests_observe hcomplete, hrequests, herrors]
    split <;> (try split) <;> omega
  · have htotal : μ'.totalErrors = μ.totalErrors := by rw [totalErrors, totalErrors, herrors]
    rw [totalErrors_observe hcomplete, resultsOf_observe, htotal, hresults, h.errors]
    cases code with
    | none => rfl
    | some code => simp [isError_iff]
  · have htotal : μ'.totalRequests = μ.totalRequests := by rw [totalRequests, totalRequests, hrequests]
    rw [totalRequests_observe hcomplete, htotal]
    exact Nat.le_trans hadmission (Nat.succ_le_succ h.admission)

end Tallies

end Metrics

/-! ### Calls -/

/-- The result that counts is that of the last response, and only what calls for no response has none. -/
theorem Answers.isSome_result (h : Answers operation ops) :
    (ops.getLast?.bind Op.result?).isSome ↔ operation ∉ [.abandon, .unbind] := by
  cases h <;> simp [Op.result?]

namespace Service

open Metrics (Tallies)

variable {s : Service} {c : Connection} {outcome : Outcome}

theorem finalCode_isSome (h : Answers operation (ms.map (·.op))) :
    (finalCode ms).isSome ↔ operation ∉ [.abandon, .unbind] := by
  have hlast : ms.getLast?.bind (·.op.result?) = (ms.map (·.op)).getLast?.bind Op.result? := by
    rw [List.getLast?_map, Option.bind_map]
    rfl
  rw [finalCode, Option.isSome_map, hlast]
  exact h.isSome_result

/-- A request that was refused for its controls is counted as such besides. -/
theorem count_eq (μ : Metrics) (operation : Operation) (outcome : Outcome) (ms : List Message) :
    ∃ μ', (μ' = μ ∨ μ' = μ.admissionRejected) ∧ count μ operation outcome ms = μ'.observe operation (finalCode ms) 0 := by
  unfold count
  split
  · exact ⟨_, .inr rfl, rfl⟩
  · exact ⟨_, .inl rfl, rfl⟩

theorem handle_metrics (ho : m.op.operation? = some operation) : (s.handle c m).2.2.metrics =
    if (s.ending c operation m).1 = .brokenOff then s.metrics
    else count s.metrics operation (s.ending c operation m).1 (messages m.id operation (s.ending c operation m).1) := by
  rw [handle_eq ho]
  dsimp only
  split <;> rfl

/-- One call counts the message that it is given, or loses it. -/
theorem tallies_handle (h : Tallies s.metrics ms lost) (c : Connection) (m : Message) :
    Tallies (s.handle c m).2.2.metrics (ms ++ [m]) (lost + if (s.handle c m).1 = .brokenOff then 1 else 0) := by
  cases ho : m.op.operation? with
  | none =>
    rw [handle_response ho]
    exact h.response ho
  | some operation =>
    rw [handle_metrics ho, handle_fst ho]
    by_cases hb : (s.ending c operation m).1 = .brokenOff
    · obtain ⟨r, _, _, _, hr, -⟩ := (ending_brokenOff_iff ho).mp hb
      rw [if_pos hb, if_pos hb, if_pos rfl]
      exact h.brokenOff (by rw [hr]; rfl)
    · obtain ⟨μ', hμ, hcount⟩ := count_eq s.metrics operation (s.ending c operation m).1
        (messages m.id operation (s.ending c operation m).1)
      rw [if_neg hb, if_neg hb, if_neg nofun, hcount]
      exact h.observe ho (finalCode_isSome (messages_answers m.id (ending_fits ho hb))) hμ

/-- The service after calls on any connections. -/
def afterCalls : Service → List (Connection × Message) → Service
  | s, [] => s
  | s, (c, m) :: calls => (s.handle c m).2.2.afterCalls calls

/-- How many of the calls break off. -/
def lostCalls : Service → List (Connection × Message) → Nat
  | _, [] => 0
  | s, (c, m) :: calls => (if (s.handle c m).1 = .brokenOff then 1 else 0) + (s.handle c m).2.2.lostCalls calls

/-- No call breaks off in the state in which it finds the service. -/
def AllReturn : Service → List (Connection × Message) → Prop
  | _, [] => True
  | s, (c, m) :: calls => ¬ s.BreaksOff c m ∧ (s.handle c m).2.2.AllReturn calls

theorem lostCalls_eq_zero_iff {calls : List (Connection × Message)} : s.lostCalls calls = 0 ↔ s.AllReturn calls := by
  induction calls generalizing s with
  | nil => exact iff_of_true rfl trivial
  | cons call calls ih =>
    obtain ⟨c, m⟩ := call
    rw [lostCalls, AllReturn, Nat.add_eq_zero_iff, ih, ← handle_brokenOff_iff]
    simp

theorem tallies_afterCalls (h : Tallies s.metrics ms lost) (calls : List (Connection × Message)) :
    Tallies (s.afterCalls calls).metrics (ms ++ calls.map Prod.snd) (lost + s.lostCalls calls) := by
  induction calls generalizing s ms lost with
  | nil => simpa [afterCalls, lostCalls] using h
  | cons call calls ih =>
    obtain ⟨c, m⟩ := call
    have hstep := ih (tallies_handle h c m)
    rwa [List.append_assoc, Nat.add_assoc] at hstep

/-- The counters after any calls, from a service that has counted nothing. Requests and results are as many as there were
messages that call for them, but for the renamings that broke off. -/
theorem counters_afterCalls (s : Service) (calls : List (Connection × Message)) :
    let start : Service := { s with metrics := {} }
    let μ := (start.afterCalls calls).metrics
    let ms := calls.map Prod.snd
    (∀ op, μ.requests op + (if op = .modifyDn then start.lostCalls calls else 0) =
      ms.countP fun m => m.op.operation? = some op) ∧
    μ.resultsOf (fun _ => true) + start.lostCalls calls =
      ms.countP (fun m => m.op.operation?.any (· ∉ [.abandon, .unbind])) ∧
    (∀ op, μ.errors op ≤ μ.requests op) ∧
    (Operation.all.map μ.errors).sum = μ.resultsOf (· ∉ [0, 5, 6, 14, 16654]) ∧
    μ.admissionRejections ≤ (Operation.all.map μ.requests).sum ∧
    (start.lostCalls calls = 0 ↔ start.AllReturn calls) ∧
    ∀ (s : Service) (c : Connection) (m : Message), m.op.operation? = none → (s.handle c m).2.2.metrics = s.metrics := by
  intro start μ ms
  have h : Tallies μ ms (start.lostCalls calls) := by
    have hrun : Tallies μ ([] ++ ms) (0 + start.lostCalls calls) := tallies_afterCalls Tallies.start calls
    rwa [List.nil_append, Nat.zero_add] at hrun
  refine ⟨h.requests, h.results, h.errors_le, h.errors, h.admission, lostCalls_eq_zero_iff, fun s c m ho => ?_⟩
  rw [handle_response ho]

/-- A deletion that fails, a request without a response, and a response where a request is due. -/
theorem counters_afterCalls_failed :
    let s := Service.start { bases := ["c=y"] } {} {}
    let calls : List (Connection × Message) :=
      [({}, { id := 1, op := .deleteRequest "o=q,c=y" }), ({}, { id := 2, op := .abandonRequest 1 }),
        ({}, { id := 3, op := .deleteResponse .success })]
    let μ := (s.afterCalls calls).metrics
    s.AllReturn calls ∧ μ.requests .delete = 1 ∧ μ.requests .abandon = 1 ∧ μ.resultsOf (fun _ => true) = 1 := by
  intro s calls μ
  obtain ⟨hrequests, hresults, -, -, -, hreturn, -⟩ := counters_afterCalls s calls
  have hlost : s.lostCalls calls = 0 := by decide +kernel
  change μ.resultsOf (fun _ => true) + s.lostCalls calls = _ at hresults
  rw [hlost] at hresults
  exact ⟨hreturn.mp hlost, hrequests .delete, hrequests .abandon, hresults⟩

/-- A renaming that passes all checks may not be counted. The name of the last entry has a comma in its value, so that its
key lies below that of the renamed one. -/
theorem not_counters_afterCalls_escaped :
    let d : Directory :=
      { store := (((Store.put {} ⟨"c=y", []⟩).put ⟨"c=y,c=y", []⟩).put ⟨"o=x,c=y,c=y", []⟩).put
          ⟨"cn=a\\,o=x\\,c=y,c=y", []⟩
        bases := ["c=y"] }
    let s := Service.start d {} {}
    let m : Message :=
      { id := 1, op := .modifyDnRequest { dn := "o=x,c=y,c=y", newRdn := "o=z", deleteOldRdn := true } }
    let μ := (s.afterCalls [({}, m)]).metrics
    s.metrics = {} ∧ μ.requests .modifyDn ≠ [m].countP (fun m => m.op.operation? = some .modifyDn) ∧
      μ.resultsOf (fun _ => true) ≠ [m].countP fun m => m.op.operation?.any (· ∉ [.abandon, .unbind]) := by
  intro d s m μ
  exact ⟨rfl, by decide +kernel, by decide +kernel⟩

end Service

end Ldap
