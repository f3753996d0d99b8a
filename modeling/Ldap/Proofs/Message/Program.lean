import Ldap.Message.Codec

/-! Reading a message as a program: steps on single elements, loops that go on as long as an open sequence declares
more, and a reader of filters that calls itself. Nothing in a program bounds its loops. What a run of it does is told by
a relation, which holds of the runs that end, with a trace of their rounds and calls. The readers of messages are what
these programs denote. -/

namespace Ldap

open Ber (ReadM Reader Bounds Error)
open Text (upperHexByte)

/-- How a message is read. A step reads a few elements, each of them once. -/
inductive Program : Type → Type 1 where
  | step {α : Type} (p : ReadM α) : Program α
  | bind {α β : Type} (p : Program α) (f : α → Program β) : Program β
  /-- While the open sequence declares more, the body is run with what the round before has answered. -/
  | loop {σ : Type} (bounds : Bounds) (body : σ → Program σ) (s : σ) : Program σ
  /-- A call of the reader of filters, at a depth. -/
  | filter (depth : Nat) : Program Filter

namespace Program

variable {α β σ : Type} {bounds : Bounds}

instance : Monad Program where
  pure a := .step (pure a)
  bind := .bind

instance : MonadLift ReadM Program := ⟨.step⟩

/-! ### The programs -/

def listOf (bounds : Bounds) (item : Program α) : Program (List α) := do
  return (← loop bounds (fun found => do return (← item) :: found) []).reverse

def skipRest (bounds : Bounds) : Program Unit :=
  loop bounds (fun _ => .step ReadM.skipElement) ()

def substrings : Program Filter := do
  let _ ← ReadM.sequence
  let name ← ReadM.text
  let parts ← loop (← ReadM.sequence) (fun parts => .step (Filter.Parts.read parts)) {}
  return .substrings name parts.initial parts.any parts.final

def extensible : Program Filter := do
  let m ← loop (← ReadM.sequence) (fun m => .step (Filter.Match.read m)) {}
  ReadM.lift (Filter.Match.toFilter m)

def filterLeaf (tag : UInt8) : Program Filter :=
  match Filter.comparisonOfTag? tag with
  | some comparison => .step (Filter.readComparison comparison)
  | none =>
    if tag = Filter.substringsTag then substrings
    else if tag = Filter.presentTag then do return .present (← ReadM.text)
    else if tag = Filter.extensibleTag then extensible
    else .step (throw (.malformed ("invalid filter type 0x" ++ upperHexByte tag)))

/-- What a call of the reader of filters runs. -/
def filterAt (depth : Nat) : Program Filter :=
  if Filter.maxDepth < depth then
    .step (throw (.malformed s!"filter nested deeper than {Filter.maxDepth} levels"))
  else do
    let tag ← ReadM.peekRequired "filter"
    if tag = Filter.andTag then return .and (← listOf (← ReadM.sequence) (filter (depth + 1)))
    else if tag = Filter.orTag then return .or (← listOf (← ReadM.sequence) (filter (depth + 1)))
    else if tag = Filter.notTag then
      let bounds ← ReadM.sequence
      let f ← filter (depth + 1)
      .step do
        if ← ReadM.more bounds then
          throw (.malformed "NOT filter contains more than one component")
        return .not f
    else filterLeaf tag

def singleAttribute : Program Attribute := do
  let bounds ← ReadM.sequence
  let name ← ReadM.text
  let values ← listOf (← ReadM.sequence) (.step ReadM.octets)
  skipRest bounds
  return ⟨name, values⟩

def attributes : Program (List Attribute) := do
  listOf (← ReadM.sequence) singleAttribute

def result (bounds : Bounds) : Program Result := do
  let code ← ReadM.enumerated
  let matchedDn ← ReadM.text
  let message ← ReadM.text
  let tag? ← ReadM.tagWithin bounds
  if tag? = some Result.referralTag then
    return ⟨⟨code⟩, matchedDn, message, ← listOf (← ReadM.sequence) (.step ReadM.text)⟩
  else return ⟨⟨code⟩, matchedDn, message, []⟩

def sasl : Program Credentials := do
  let bounds ← ReadM.sequence
  let mechanism ← ReadM.text
  let credentials ← if ← ReadM.more bounds then (some <$> ReadM.octets : ReadM _) else pure none
  skipRest bounds
  return .sasl mechanism credentials

def credentials : Program Credentials := do
  let tag? ← ReadM.peek
  if tag? = some BindRequest.saslTag then sasl else return .simple (← ReadM.octets)

def bindRequest : Program BindRequest := do
  let bounds ← ReadM.sequence
  let version ← ReadM.integer
  let name ← ReadM.text
  let credentials ← credentials
  skipRest bounds
  return ⟨version, name, credentials⟩

def bindResponse : Program Op := do
  let bounds ← ReadM.sequence
  let result ← result bounds
  let serverCredentials ← ReadM.optional bounds BindResponse.serverCredentialsTag ReadM.octets
  skipRest bounds
  return .bindResponse result serverCredentials

def searchRequest : Program SearchRequest := do
  let bounds ← ReadM.sequence
  let base ← ReadM.text
  let scope ← SearchRequest.readScope
  let derefAliases ← ReadM.enumerated
  let sizeLimit ← ReadM.integer
  let timeLimit ← ReadM.integer
  let typesOnly ← ReadM.boolean
  let f ← filter 0
  let attributes ← listOf (← ReadM.sequence) (.step ReadM.text)
  skipRest bounds
  return ⟨base, scope, derefAliases, sizeLimit, timeLimit, typesOnly, f, attributes⟩

def resultEntry : Program ResultEntry := do
  let bounds ← ReadM.sequence
  let dn ← ReadM.text
  let attributes ← attributes
  skipRest bounds
  return ⟨dn, attributes⟩

def change : Program Change := do
  let bounds ← ReadM.sequence
  let kind ← Change.readKind
  let target ← singleAttribute
  skipRest bounds
  return ⟨kind, target⟩

def modifyDnRequest : Program ModifyDnRequest := do
  let bounds ← ReadM.sequence
  let dn ← ReadM.text
  let newRdn ← ReadM.text
  let deleteOldRdn ← ReadM.boolean
  let newSuperior ← ReadM.optional bounds ModifyDnRequest.newSuperiorTag ReadM.text
  skipRest bounds
  return ⟨dn, newRdn, deleteOldRdn, newSuperior⟩

def addRequest : Program Op := do
  let bounds ← ReadM.sequence
  let dn ← ReadM.text
  let attributes ← attributes
  skipRest bounds
  return .addRequest dn attributes

def compareRequest : Program Op := do
  let bounds ← ReadM.sequence
  let dn ← ReadM.text
  let assertion ← ReadM.sequence
  let name ← ReadM.text
  let value ← ReadM.octets
  skipRest assertion
  skipRest bounds
  return .compareRequest dn name value

def modifyRequest : Program Op := do
  let bounds ← ReadM.sequence
  let dn ← ReadM.text
  let changes ← listOf (← ReadM.sequence) change
  skipRest bounds
  return .modifyRequest dn changes

def extendedRequest : Program ExtendedRequest := do
  let bounds ← ReadM.sequence
  let oid ← ReadM.text
  let value ← ReadM.optional bounds ExtendedRequest.valueTag ReadM.octets
  skipRest bounds
  return ⟨oid, value⟩

def extendedResponse : Program ExtendedResponse := do
  let bounds ← ReadM.sequence
  let result ← result bounds
  let oid ← ReadM.optional bounds ExtendedResponse.oidTag ReadM.text
  let value ← ReadM.optional bounds ExtendedResponse.valueTag ReadM.octets
  skipRest bounds
  return ⟨result, oid, value⟩

def intermediateResponse : Program Op := do
  let bounds ← ReadM.sequence
  let oid ← ReadM.optional bounds IntermediateResponse.oidTag ReadM.text
  let value ← ReadM.optional bounds IntermediateResponse.valueTag ReadM.octets
  skipRest bounds
  return .intermediateResponse oid value

def resultOnly : Program Result := do
  let bounds ← ReadM.sequence
  let result ← result bounds
  skipRest bounds
  return result

def op : Program Op := do
  let tag ← ReadM.peekRequired "protocol op"
  match tag with
  | 0x50 => return .abandonRequest (← ReadM.integer)
  | 0x68 => addRequest
  | 0x69 => return .addResponse (← resultOnly)
  | 0x60 => return .bindRequest (← bindRequest)
  | 0x61 => bindResponse
  | 0x6E => compareRequest
  | 0x6F => return .compareResponse (← resultOnly)
  | 0x4A => return .deleteRequest (← ReadM.text)
  | 0x6B => return .deleteResponse (← resultOnly)
  | 0x77 => return .extendedRequest (← extendedRequest)
  | 0x78 => return .extendedResponse (← extendedResponse)
  | 0x79 => intermediateResponse
  | 0x66 => modifyRequest
  | 0x67 => return .modifyResponse (← resultOnly)
  | 0x6C => return .modifyDnRequest (← modifyDnRequest)
  | 0x6D => return .modifyDnResponse (← resultOnly)
  | 0x63 => return .searchRequest (← searchRequest)
  | 0x64 => return .searchResultEntry (← resultEntry)
  | 0x73 => return .searchResultReference (← listOf (← ReadM.sequence) (.step ReadM.text))
  | 0x65 => return .searchResultDone (← resultOnly)
  | 0x42 => ReadM.null; return .unbindRequest
  | _ => .step (throw (.malformed ("unsupported LDAP operation tag: 0x" ++ upperHexByte tag)))

def control : Program Control := do
  let bounds ← ReadM.sequence
  let oid ← ReadM.text
  loop bounds (fun c => .step (Control.readComponent c)) ⟨oid, false, none⟩

def controls (bounds : Bounds) : Program (List Control) := do
  let more ← ReadM.more bounds
  if more then
    let tag ← ReadM.peekRequired "controls"
    if tag = Message.controlsTag then listOf (← ReadM.sequence) control
    else .step (throw (.malformed
      ("unexpected element 0x" ++ upperHexByte tag ++ " after the protocol op")))
  else return []

def body (bounds : Bounds) : Program Message :=
  if bounds.tag ≠ Ber.sequenceTag then .step (throw (.unexpectedType Ber.sequenceTag bounds.tag))
  else do
    let id ← ReadM.integer
    let op ← op
    let controls ← controls bounds
    .step do
      if ← ReadM.more bounds then throw (.malformed "trailing data inside LDAP message")
      return ⟨id, op, controls⟩

def message : Program (Option Message) := do
  match ← ReadM.sequence? with
  | none => return none
  | some bounds => return some (← body bounds)

/-! ### Runs -/

/-- What a trace records: the bytes that a round of a loop consumed, a call of the reader of filters with the number of
calls around it, and the bytes that a call consumed. Of a round that fails nothing is recorded, and of a call that fails
that it was made. -/
inductive Event where
  | round (consumed : Nat)
  | call (around : Nat)
  | returned (consumed : Nat)
deriving DecidableEq, Repr

/-- Inside a number of calls, the program takes a reader to an outcome, with a trace. -/
inductive Runs : Nat → {α : Type} → Program α → Reader → EStateM.Result Error Reader α → List Event → Prop
  | step {n : Nat} {α : Type} (p : ReadM α) (r : Reader) : Runs n (.step p) r (p.run r) []
  | bind {n : Nat} {α β : Type} {p : Program α} {f : α → Program β} {r s : Reader} {a : α}
      {out : EStateM.Result Error Reader β} {first second : List Event} (hp : Runs n p r (.ok a s) first)
      (hf : Runs n (f a) s out second) : Runs n (.bind p f) r out (first ++ second)
  | bind_error {n : Nat} {α β : Type} {p : Program α} {f : α → Program β} {r s : Reader} {e : Error}
      {trace : List Event} (hp : Runs n p r (.error e s) trace) : Runs n (.bind p f) r (.error e s) trace
  | loop_next {n : Nat} {σ : Type} {bounds : Bounds} {body : σ → Program σ} {s s' : σ} {r t u : Reader}
      {out : EStateM.Result Error Reader σ} {first later : List Event} (hm : (ReadM.more bounds).run r = .ok true t)
      (hb : Runs n (body s) t (.ok s' u) first) (hl : Runs n (.loop bounds body s') u out later) :
      Runs n (.loop bounds body s) r out (first ++ .round (u.consumed - t.consumed) :: later)
  | loop_failed {n : Nat} {σ : Type} {bounds : Bounds} {body : σ → Program σ} {s : σ} {r t u : Reader} {e : Error}
      {trace : List Event} (hm : (ReadM.more bounds).run r = .ok true t) (hb : Runs n (body s) t (.error e u) trace) :
      Runs n (.loop bounds body s) r (.error e u) trace
  | loop_end {n : Nat} {σ : Type} {bounds : Bounds} {body : σ → Program σ} {s : σ} {r t : Reader}
      (hm : (ReadM.more bounds).run r = .ok false t) : Runs n (.loop bounds body s) r (.ok s t) []
  | loop_overrun {n : Nat} {σ : Type} {bounds : Bounds} {body : σ → Program σ} {s : σ} {r t : Reader} {e : Error}
      (hm : (ReadM.more bounds).run r = .error e t) : Runs n (.loop bounds body s) r (.error e t) []
  | filter {n depth : Nat} {r s : Reader} {f : Filter} {trace : List Event}
      (hb : Runs (n + 1) (filterAt depth) r (.ok f s) trace) :
      Runs n (.filter depth) r (.ok f s) (.call n :: trace ++ [.returned (s.consumed - r.consumed)])
  | filter_error {n depth : Nat} {r s : Reader} {e : Error} {trace : List Event}
      (hb : Runs (n + 1) (filterAt depth) r (.error e s) trace) :
      Runs n (.filter depth) r (.error e s) (.call n :: trace)

/-- There is one run at most. -/
theorem Runs.unique {n : Nat} {p : Program α} {r : Reader} {out out' : EStateM.Result Error Reader α}
    {trace trace' : List Event} (h : Runs n p r out trace) (h' : Runs n p r out' trace') :
    out = out' ∧ trace = trace' := by
  induction h generalizing trace' with
  | step p r =>
    cases h'
    exact ⟨rfl, rfl⟩
  | bind hp hf ihp ihf =>
    cases h' with
    | bind hp' hf' =>
      obtain ⟨hout, rfl⟩ := ihp hp'
      cases hout
      obtain ⟨rfl, rfl⟩ := ihf hf'
      exact ⟨rfl, rfl⟩
    | bind_error hp' => cases (ihp hp').1
  | bind_error hp ihp =>
    cases h' with
    | bind hp' hf' => cases (ihp hp').1
    | bind_error hp' =>
      obtain ⟨hout, rfl⟩ := ihp hp'
      cases hout
      exact ⟨rfl, rfl⟩
  | loop_next hm hb hl ihb ihl =>
    cases h' with
    | loop_next hm' hb' hl' =>
      cases hm.symm.trans hm'
      obtain ⟨hout, rfl⟩ := ihb hb'
      cases hout
      obtain ⟨rfl, rfl⟩ := ihl hl'
      exact ⟨rfl, rfl⟩
    | loop_failed hm' hb' =>
      cases hm.symm.trans hm'
      cases (ihb hb').1
    | loop_end hm' => cases hm.symm.trans hm'
    | loop_overrun hm' => cases hm.symm.trans hm'
  | loop_failed hm hb ihb =>
    cases h' with
    | loop_next hm' hb' hl' =>
      cases hm.symm.trans hm'
      cases (ihb hb').1
    | loop_failed hm' hb' =>
      cases hm.symm.trans hm'
      obtain ⟨hout, rfl⟩ := ihb hb'
      cases hout
      exact ⟨rfl, rfl⟩
    | loop_end hm' => cases hm.symm.trans hm'
    | loop_overrun hm' => cases hm.symm.trans hm'
  | loop_end hm =>
    cases h' with
    | loop_next hm' _ _ => cases hm.symm.trans hm'
    | loop_failed hm' _ => cases hm.symm.trans hm'
    | loop_end hm' =>
      cases hm.symm.trans hm'
      exact ⟨rfl, rfl⟩
    | loop_overrun hm' => cases hm.symm.trans hm'
  | loop_overrun hm =>
    cases h' with
    | loop_next hm' _ _ => cases hm.symm.trans hm'
    | loop_failed hm' _ => cases hm.symm.trans hm'
    | loop_end hm' => cases hm.symm.trans hm'
    | loop_overrun hm' =>
      cases hm.symm.trans hm'
      exact ⟨rfl, rfl⟩
  | filter hb ihb =>
    cases h' with
    | filter hb' =>
      obtain ⟨hout, rfl⟩ := ihb hb'
      cases hout
      exact ⟨rfl, rfl⟩
    | filter_error hb' => cases (ihb hb').1
  | filter_error hb ihb =>
    cases h' with
    | filter hb' => cases (ihb hb').1
    | filter_error hb' =>
      obtain ⟨hout, rfl⟩ := ihb hb'
      cases hout
      exact ⟨rfl, rfl⟩

/-! ### What programs denote -/

/-- The step of reading that a program stands for. Here the loops are bounded, and so is the nesting of filters. -/
def denote : {α : Type} → Program α → ReadM α
  | _, .step p => p
  | _, .bind p f => p.denote >>= fun a => (f a).denote
  | _, .loop bounds body s => ReadM.components bounds (fun s => (body s).denote) s
  | _, .filter depth => Filter.readLevels (Filter.maxDepth + 1 - depth)

theorem denote_lift (p : ReadM α) : (liftM p : Program α).denote = p := rfl

theorem denote_step (p : ReadM α) : (step p).denote = p := rfl

theorem denote_pure (a : α) : (pure a : Program α).denote = pure a := rfl

theorem denote_bind (p : Program α) (f : α → Program β) : (p >>= f).denote = p.denote >>= fun a => (f a).denote := rfl

theorem denote_ite (c : Prop) [Decidable c] (p q : Program α) :
    (if c then p else q).denote = if c then p.denote else q.denote := apply_ite denote c p q

theorem denote_listOf (item : Program α) : (listOf bounds item).denote = ReadM.listOf bounds item.denote := rfl

theorem denote_filterLeaf (tag : UInt8) : (filterLeaf tag).denote = Filter.readLeaf tag := by
  unfold filterLeaf Filter.readLeaf
  cases Filter.comparisonOfTag? tag with
  | some comparison => rfl
  | none =>
    simp only [denote_ite]
    rfl

/-- A call of the reader of filters stands for what it runs. -/
theorem denote_filterAt (depth : Nat) : (filterAt depth).denote = (filter depth).denote := by
  change _ = Filter.readLevels (Filter.maxDepth + 1 - depth)
  rw [filterAt, denote_ite]
  split
  · rename_i h
    rw [Nat.sub_eq_zero_of_le h]
    rfl
  · rename_i h
    rw [Nat.succ_sub (Nat.le_of_not_lt h), Filter.readLevels]
    have hlevels : (filter (depth + 1)).denote = Filter.readLevels (Filter.maxDepth - depth) := by
      rw [denote, Nat.succ_sub_succ]
    simp only [denote_bind, denote_ite, denote_lift, denote_step, denote_pure, denote_listOf, denote_filterLeaf, hlevels]

theorem denote_result : (result bounds).denote = Result.readComponents bounds := by
  simp only [result, denote_bind, denote_ite]
  rfl

theorem denote_sasl : sasl.denote = BindRequest.readSasl := by
  simp only [sasl, denote_bind, denote_ite]
  rfl

theorem denote_bindRequest : bindRequest.denote = BindRequest.read := by
  simp only [bindRequest, credentials, denote_bind, denote_ite, denote_sasl]
  rfl

theorem denote_bindResponse : bindResponse.denote = BindResponse.read := by
  simp only [bindResponse, denote_bind, denote_result]
  rfl

theorem denote_extendedResponse : extendedResponse.denote = ExtendedResponse.read := by
  simp only [extendedResponse, denote_bind, denote_result]
  rfl

theorem denote_resultOnly : resultOnly.denote = Op.readResult := by
  simp only [resultOnly, denote_bind, denote_result]
  rfl

theorem denote_op : op.denote = Op.read := by
  rw [op, denote_bind]
  refine congrArg (Bind.bind _) (funext fun tag => ?_)
  split <;>
    (try simp only [denote_bind, denote_bindRequest, denote_bindResponse, denote_extendedResponse, denote_resultOnly]) <;>
    rfl

theorem denote_controls : (controls bounds).denote = Message.readControls bounds := by
  simp only [controls, denote_bind, denote_ite]
  rfl

theorem denote_body : (body bounds).denote = Message.readBody bounds := by
  rw [body, denote_ite, Message.readBody]
  dsimp only
  split
  · rfl
  · simp only [denote_bind, denote_op, denote_controls]
    rfl

theorem denote_message : message.denote = Message.read := by
  rw [message, denote_bind]
  refine congrArg (Bind.bind _) (funext fun bounds? => ?_)
  cases bounds? with
  | none => rfl
  | some bounds =>
    simp only [denote_bind, denote_body]
    rfl

end Program

end Ldap
