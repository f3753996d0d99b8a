import Ldap.Ber.Element

/-! Reading elements from a stream, one header or one value at a time. The stream is the list of
what a transport delivers: chunks of bytes, and failures between them. The reader looks ahead by at
most one byte, the tag of the next element, and keeps its place when a read fails. -/

namespace Ldap.Ber

/-- One thing that a transport hands over. -/
inductive Delivery where
  | bytes (chunk : List UInt8)
  | timeout
  /-- The read was interrupted and is tried again. -/
  | interrupted
  | failure (reason : String)
deriving DecidableEq, Repr

/-- How a read from the transport ended. -/
inductive Outcome where
  | filled
  | ended
  | timedOut
  | failed (reason : String)
deriving DecidableEq, Repr

/-- The bytes that a read obtained, and what the transport still holds. -/
structure Transfer where
  got : List UInt8
  outcome : Outcome
  rest : List Delivery

/-- Collects `n` bytes across chunks. Interruptions are passed over, and so are timeouts if
`ignoreTimeout` says so; bytes obtained before a failure are consumed. -/
def pull (ignoreTimeout : Bool) (n : Nat) : List Delivery → Transfer
  | [] => ⟨[], if n = 0 then .filled else .ended, []⟩
  | d :: rest =>
    if n = 0 then ⟨[], .filled, d :: rest⟩
    else match d with
      | .bytes chunk =>
        match chunk.drop n with
        | [] =>
          let t := pull ignoreTimeout (n - chunk.length) rest
          { t with got := chunk ++ t.got }
        | left => ⟨chunk.take n, .filled, .bytes left :: rest⟩
      | .interrupted => pull ignoreTimeout n rest
      | .timeout => if ignoreTimeout then pull ignoreTimeout n rest else ⟨[], .timedOut, rest⟩
      | .failure reason => ⟨[], .failed reason, rest⟩

structure Reader where
  /-- What the transport has yet to deliver, or `none` once it is closed. -/
  source : Option (List Delivery)
  /-- The next tag, taken from the transport but not yet consumed. -/
  lookahead : Option UInt8 := none
  consumed : Nat := 0
  /-- The largest element length accepted. -/
  limit : Nat := maxLength
  ignoreInitialTimeout : Bool := false
  ignoreLaterTimeout : Bool := false
deriving DecidableEq, Repr

namespace Reader

def ofDeliveries (deliveries : List Delivery) : Reader := { source := some deliveries }

def ofBytes (bytes : List UInt8) : Reader := ofDeliveries [.bytes bytes]

/-- Zero means no limit beyond what a length can express. -/
def setLimit (r : Reader) (limit : Nat) : Reader :=
  { r with limit := if limit = 0 then maxLength else min limit maxLength }

/-- Chooses which timeouts are retried: those before the first byte of an element, and later ones. -/
def setIgnoreTimeout (r : Reader) (initial later : Bool) : Reader :=
  { r with ignoreInitialTimeout := initial, ignoreLaterTimeout := later }

def isClosed (r : Reader) : Bool := r.source.isNone

/-- Drops the transport. Later reads report the end of the input. -/
def close (r : Reader) : Reader := { r with source := none, lookahead := none }

end Reader

/-- A step of reading. A failed step keeps the reader where the failure left it. -/
abbrev ReadM := EStateM Error Reader

/-- The bounds of an open sequence or set: its tag, its declared length, and the count of consumed
bytes at its end. -/
structure Bounds where
  tag : UInt8
  length : Nat
  stop : Nat
deriving DecidableEq, Repr

namespace ReadM

/-- A step that fails without touching the reader, or answers without it. -/
def lift {α : Type} : Except Error α → ReadM α
  | .ok a => return a
  | .error e => throw e

/-- Takes the first byte of an element from the transport without counting it, or `none` at the end. -/
def firstByte : ReadM (Option UInt8) := do
  let r ← get
  match r.source with
  | none => return none
  | some deliveries =>
    let t := pull r.ignoreInitialTimeout 1 deliveries
    set { r with source := some t.rest }
    match t.outcome with
    | .filled => return t.got.head?
    | .ended => return none
    | .timedOut => throw (.timeout true)
    | .failed reason => throw (.transport reason)

/-- Takes `n` bytes from the middle of an element. -/
def bytes (n : Nat) (part : String) : ReadM (List UInt8) := do
  if n = 0 then return []
  let r ← get
  match r.source with
  | none => throw (.truncated part)
  | some deliveries =>
    let t := pull r.ignoreLaterTimeout n deliveries
    set { r with source := some t.rest, consumed := r.consumed + t.got.length }
    match t.outcome with
    | .filled => return t.got
    | .ended => throw (.truncated part)
    | .timedOut => throw (.timeout false)
    | .failed reason => throw (.transport reason)

def byte (part : String) : ReadM UInt8 := do
  return (← bytes 1 part).headD 0

/-- The next tag, left in place, or `none` at the end of the input. -/
def peek : ReadM (Option UInt8) := do
  match (← get).lookahead with
  | some tag => return some tag
  | none =>
    let tag ← firstByte
    modify fun r => { r with lookahead := tag }
    return tag

/-- The next tag, which must be there. -/
def peekRequired (part : String) : ReadM UInt8 := do
  match ← peek with
  | some tag => return tag
  | none => throw (.truncated part)

/-- Consumes a tag. At the end of the input there is none, and the reader closes. -/
def tag? : ReadM (Option UInt8) := do
  match (← get).lookahead with
  | some tag =>
    modify fun r => { r with lookahead := none, consumed := r.consumed + 1 }
    return some tag
  | none =>
    match ← firstByte with
    | some tag =>
      modify fun r => { r with consumed := r.consumed + 1 }
      return some tag
    | none =>
      modify Reader.close
      return none

/-- Consumes a tag, which must be there. -/
def requiredTag (part : String) : ReadM UInt8 := do
  match ← tag? with
  | some tag => return tag
  | none => throw (.truncated part)

/-- Refuses a length above the limit of the reader. -/
def checkLength (length : Nat) : ReadM Nat := do
  let limit := (← get).limit
  if limit < length then throw (.lengthExceedsMaximum length limit)
  return length

/-- Reads `count` bytes of a length, one at a time, behind those already read. -/
def lengthBytes : Nat → Nat → ReadM Nat
  | 0, n => return n
  | count + 1, n => do
    let b ← byte "length"
    lengthBytes count (n * 256 + b.toNat)

def length : ReadM Nat := do
  let first ← byte "length"
  if first < 0x80 then checkLength first.toNat
  else
    let count := first.toNat - 0x80
    if count < 1 ∨ 4 < count then throw (.lengthByteCount count)
    else checkLength (← lengthBytes count 0)

def value (length : Nat) : ReadM (List UInt8) := bytes length "value"

/-- Passes over pieces of a value. -/
def skipPieces (size : Nat) : Nat → ReadM Unit
  | 0 => return ()
  | count + 1 => do
    let _ ← value size
    skipPieces size count

/-- Passes over a value without keeping it, by pieces of 512 bytes as far as there are such. -/
def skipValue (length : Nat) : ReadM Unit := do
  skipPieces 512 (length / 512)
  let _ ← value (length % 512)

/-- Reads tag and length, and answers the length. -/
def header : ReadM Nat := do
  let _ ← requiredTag "type"
  length

/-- Reports a value of the wrong size after passing over it, so that the reader stands at an element. -/
def rejectLength {α : Type} (kind : String) (length : Nat) : ReadM α := do
  skipValue length
  throw (.valueLength kind length)

def element? : ReadM (Option Element) := do
  match ← tag? with
  | none => return none
  | some tag => return some ⟨tag, ← value (← length)⟩

def skipElement : ReadM Unit := do
  skipValue (← header)

def boolean : ReadM Bool := do
  let n ← header
  if n = 1 then return (← byte "value") != 0
  else rejectLength "boolean" n

def integer : ReadM Int32 := do
  let n ← header
  if 1 ≤ n ∧ n ≤ 4 then return Int32.ofInt (Integer.decode (← value n))
  else rejectLength "integer" n

def long : ReadM Int64 := do
  let n ← header
  if 1 ≤ n ∧ n ≤ 8 then return Int64.ofInt (Integer.decode (← value n))
  else rejectLength "long" n

def enumerated : ReadM Int32 := integer

def null : ReadM Unit := do
  let n ← header
  if n = 0 then return () else rejectLength "null" n

def octets : ReadM (List UInt8) := do
  value (← header)

def text : ReadM String := do
  match utf8Text? (← octets) with
  | some s => return s
  | none => throw .invalidUtf8

/-- Opens a sequence or a set, or answers `none` at the end of the input. -/
def sequence? : ReadM (Option Bounds) := do
  match ← tag? with
  | none => return none
  | some tag =>
    let n ← length
    return some ⟨tag, n, (← get).consumed + n⟩

/-- Opens a sequence that must be there, as inside an enclosing element. -/
def sequence : ReadM Bounds := do
  match ← sequence? with
  | some bounds => return bounds
  | none => throw (.truncated "sequence")

/-- Whether the sequence declares more bytes than have been consumed. -/
def more (bounds : Bounds) : ReadM Bool := do
  let consumed := (← get).consumed
  if bounds.stop < consumed then throw (.sequenceOverrun bounds.length)
  return consumed < bounds.stop

/-- Feeds at most `count` components of an open sequence to `step`, as long as it declares more. -/
def foldComponents {σ : Type} (bounds : Bounds) (step : σ → ReadM σ) : Nat → σ → ReadM σ
  | 0, s => return s
  | count + 1, s => do
    if ← more bounds then foldComponents bounds step count (← step s)
    else return s

/-- Folds over the components of an open sequence. A component takes a byte or more, so there are
at most as many as the sequence declares bytes, and one further round finds its end. -/
def components {σ : Type} (bounds : Bounds) (step : σ → ReadM σ) (start : σ) : ReadM σ :=
  foldComponents bounds step (bounds.length + 1) start

/-- The components of an open sequence, in order. -/
def listOf {α : Type} (bounds : Bounds) (item : ReadM α) : ReadM (List α) := do
  return (← components bounds (fun found => return (← item) :: found) []).reverse

/-- The next tag of an open sequence, left in place, or `none` at its end. -/
def tagWithin (bounds : Bounds) : ReadM (Option UInt8) := do
  if ← more bounds then peek else return none

/-- Reads a component that an open sequence may leave out, told by its tag. -/
def optional {α : Type} (bounds : Bounds) (tag : UInt8) (item : ReadM α) : ReadM (Option α) := do
  if (← tagWithin bounds) = some tag then return some (← item) else return none

/-- Passes over the components left in an open sequence, which a newer peer may have appended. -/
def skipRest (bounds : Bounds) : ReadM Unit :=
  components bounds (fun _ => skipElement) ()

end ReadM

end Ldap.Ber
