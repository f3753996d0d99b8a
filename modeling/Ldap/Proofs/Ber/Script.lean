import Ldap.Proofs.Ber.Lockstep

/-! Programs that use a reader. A program makes one call after the other and chooses the next one by what it
has observed: the answers, the counts of consumed bytes and whether the reader has closed. It cannot observe how
the bytes were split on their way, nor that a read was tried again. -/

namespace Ldap.Ber

/-! ### Deliveries of single bytes -/

namespace Delivery

/-- The same bytes in chunks of one byte each, without interruptions. Timeouts are left out as well if they
are passed over. -/
def spread (passed : Bool) : List Delivery → List Delivery
  | [] => []
  | .bytes chunk :: rest => chunk.map (fun b => .bytes [b]) ++ spread passed rest
  | .interrupted :: rest => spread passed rest
  | .timeout :: rest => if passed then spread passed rest else .timeout :: spread passed rest
  | .failure reason :: rest => .failure reason :: spread passed rest

end Delivery

open Delivery

variable {passed ignore : Bool}

theorem pull_one_spread (h : passed → ignore) (ds : List Delivery) : pull ignore 1 (spread passed ds) =
    { pull ignore 1 ds with rest := spread passed (pull ignore 1 ds).rest } := by
  induction ds with
  | nil => rfl
  | cons d rest ih =>
    cases d with
    | interrupted => simpa [spread] using ih
    | failure reason => rfl
    | timeout =>
      cases passed with
      | true =>
        obtain rfl := h rfl
        simpa [spread] using ih
      | false =>
        cases ignore with
        | true => simpa [spread] using ih
        | false => rfl
    | bytes chunk =>
      match chunk with
      | [] => simpa [spread] using ih
      | [b] => simp [spread, pull]
      | b :: b' :: chunk => simp [spread, pull]

/-- Spreading a delivery commutes with reading from it. -/
theorem pull_spread (h : passed → ignore) (n : Nat) (ds : List Delivery) : pull ignore n (spread passed ds) =
    { pull ignore n ds with rest := spread passed (pull ignore n ds).rest } := by
  induction n generalizing ds with
  | zero => simp
  | succ n ih =>
    rw [pull_succ, pull_succ ignore n ds, pull_one_spread h]
    obtain ⟨got, outcome, rest⟩ := pull ignore 1 ds
    cases outcome with
    | filled => simp only [ih]
    | ended => rfl
    | timedOut => rfl
    | failed reason => rfl

/-- Deliveries of which nothing but the splitting and the pauses are different. -/
def Coupling.ofSpread (passed : Bool) : Coupling where
  allows ignore := passed → ignore
  coupled ds ds' := spread passed ds = spread passed ds'
  beyond _ := False
  beyond_pull _ _ _ := id
  beyond_nil := id
  coupled_pull := by
    intro ignore n ds ds' h hds
    have hpull := pull_spread h n ds
    rw [hds, pull_spread h n ds'] at hpull
    injection hpull with hgot hout hrest
    exact .inr ⟨hgot, hout, hrest.symm⟩

/-! ### Programs -/

/-- A call to a reader. -/
inductive Call where
  | peek
  | tag
  | length
  | element
  | skipElement
  | boolean
  | integer
  | long
  | enumerated
  | null
  | octets
  | text
  | sequence
  | requiredSequence
  | more (bounds : Bounds)
  | setLimit (limit : Nat)
  | close

/-- What a call answers if it does not fail. -/
inductive Value where
  | none
  | tag (tag : Option UInt8)
  | length (n : Nat)
  | element (e : Option Element)
  | boolean (b : Bool)
  | integer (n : Int32)
  | long (n : Int64)
  | octets (bytes : List UInt8)
  | text (s : String)
  | sequence (bounds : Option Bounds)

def Call.perform : Call → ReadM Value
  | .peek => return .tag (← ReadM.peek)
  | .tag => return .tag (← ReadM.tag?)
  | .length => return .length (← ReadM.length)
  | .element => return .element (← ReadM.element?)
  | .skipElement => do
    ReadM.skipElement
    return .none
  | .boolean => return .boolean (← ReadM.boolean)
  | .integer => return .integer (← ReadM.integer)
  | .long => return .long (← ReadM.long)
  | .enumerated => return .integer (← ReadM.enumerated)
  | .null => do
    ReadM.null
    return .none
  | .octets => return .octets (← ReadM.octets)
  | .text => return .text (← ReadM.text)
  | .sequence => return .sequence (← ReadM.sequence?)
  | .requiredSequence => return .sequence (some (← ReadM.sequence))
  | .more bounds => return .boolean (← ReadM.more bounds)
  | .setLimit limit => do
    modify (·.setLimit limit)
    return .none
  | .close => do
    modify Reader.close
    return .none

/-- What can be seen of a reader behind a call. -/
structure Observation where
  answer : Except Error Value
  consumed : Nat
  closed : Bool

/-- What is observed of a call that ended so. -/
def observe : EStateM.Result Error Reader Value → Observation × Reader
  | .ok v r => (⟨.ok v, r.consumed, r.isClosed⟩, r)
  | .error e r => (⟨.error e, r.consumed, r.isClosed⟩, r)

/-- A program that uses a reader. -/
inductive Script where
  | done
  | call (c : Call) (next : Observation → Script)

/-- What the program observes. -/
def Script.run : Script → Reader → List Observation
  | .done, _ => []
  | .call c next, r =>
    let (seen, r) := observe (c.perform.run r)
    seen :: (next seen).run r

/-! ### What programs cannot observe -/

theorem Call.compositional {P : (α : Type) → ReadM α → Prop} (h : Compositional P) (c : Call) : P _ c.perform := by
  cases c with
  | peek => exact h.map h.peek
  | tag => exact h.map h.tag?
  | length => exact h.map h.demanding.length
  | element => exact h.map h.element?
  | skipElement => exact h.map h.demanding.skipElement
  | boolean => exact h.map h.demanding.boolean
  | integer => exact h.map h.demanding.integer
  | long => exact h.map h.demanding.long
  | enumerated => exact h.map h.demanding.integer
  | null => exact h.map h.demanding.null
  | octets => exact h.map h.demanding.octets
  | text => exact h.map h.demanding.text
  | sequence => exact h.map h.sequence?
  | requiredSequence => exact h.map h.demanding.sequence
  | more bounds => exact h.map h.more
  | setLimit limit =>
    refine h.bind (h.alter ?_ ?_ ?_) fun _ => h.pure _
    all_goals intros; rfl
  | close => exact h.bind h.close fun _ => h.pure _

variable {c : Coupling} {r r' : Reader}

theorem Coupling.Alike.isClosed (h : c.Alike r r') : r'.isClosed = r.isClosed := by
  rw [Reader.isClosed, Reader.isClosed]
  obtain ⟨hs, -, -, -⟩ := h
  generalize r.source = source, r'.source = source' at hs
  cases hs <;> rfl

/-- Calls whose runs agree are observed to be the same. -/
theorem observe_of_agree {x y : EStateM.Result Error Reader Value} (h : c.Agree x y) :
    (observe y).1 = (observe x).1 ∧ c.Alike (observe x).2 (observe y).2 := by
  cases h with
  | ok a h => exact ⟨by rw [observe, observe, h.isClosed, h.eq], h⟩
  | error e h => exact ⟨by rw [observe, observe, h.isClosed, h.eq], h⟩

/-- Programs observe the same of readers that are alike, if no read goes too far. -/
theorem Script.run_of_alike (hc : ∀ ds, ¬ c.beyond ds) (s : Script) (h : c.Alike r r') :
    s.run r' = s.run r := by
  induction s generalizing r r' with
  | done => rfl
  | call call next ih =>
    obtain hb | ha := (call.compositional c.compositional).agree h
    · exact absurd hb (hc _)
    · obtain ⟨hseen, hr⟩ := observe_of_agree ha
      rw [Script.run, Script.run]
      dsimp only
      rw [hseen, ih _ hr]

/-- A reader over the deliveries, with a rule for timeouts before the first byte of an element and one for
later ones. -/
def Reader.over (initial later : Bool) (ds : List Delivery) : Reader :=
  (Reader.ofDeliveries ds).setIgnoreTimeout initial later

/-- No program can tell how bytes were split into chunks or where reads were interrupted, nor where they
timed out if both kinds of timeout are passed over. -/
theorem Script.run_delivered (s : Script) (initial later : Bool) (ds ds' : List Delivery)
    (h : spread (initial && later) ds = spread (initial && later) ds') :
    s.run (Reader.over initial later ds) = s.run (Reader.over initial later ds') := by
  refine Script.run_of_alike (c := .ofSpread (initial && later)) (fun _ => id) s ⟨.some h.symm, rfl, ?_, ?_⟩
  · intro hp
    exact (Bool.and_eq_true_iff.mp hp).1
  · intro hp
    exact (Bool.and_eq_true_iff.mp hp).2

theorem Script.run_delivered_slowly :
    let s : Script := .call .sequence fun _ => .call .integer fun _ => .call .peek fun _ => .done
    let ds : List Delivery := [.bytes [0x30, 0x06, 0x02, 0x01, 0x07, 0x04, 0x01, 0x61]]
    let ds' : List Delivery := [.interrupted, .bytes [0x30], .timeout, .bytes [0x06, 0x02, 0x01], .timeout,
      .interrupted, .bytes [0x07, 0x04], .timeout, .bytes [0x01, 0x61]]
    spread (true && true) ds = spread (true && true) ds' ∧
      s.run (Reader.over true true ds) = s.run (Reader.over true true ds') :=
  ⟨by decide, Script.run_delivered _ true true _ _ (by decide)⟩

end Ldap.Ber
