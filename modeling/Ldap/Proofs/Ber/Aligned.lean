import Ldap.Proofs.Ber.Meets
import Ldap.Proofs.Ber.Script

/-! Reads of typed values. A value of the wrong length is passed over before it is reported, and a text is taken before
it is found to be none. So each of the reads leaves the reader right behind the element, whether a value can be made of
it or not, and also if the tag has been looked at before. -/

namespace Ldap.Ber

open Delivery (Plain content)
open Length (Declares)

variable {α : Type} {r r' q seen : Reader} {ds more : List Delivery} {e : Element} {header rest : List UInt8}

/-! ### Types -/

/-- A type of which a value can be read. -/
inductive Typed where
  | boolean
  | integer
  | long
  | enumerated
  | null
  | octets
  | text
deriving DecidableEq, Repr

namespace Typed

def call : Typed → Call
  | .boolean => .boolean
  | .integer => .integer
  | .long => .long
  | .enumerated => .enumerated
  | .null => .null
  | .octets => .octets
  | .text => .text

def asNull (e : Element) : Except Error Unit :=
  if e.value.length = 0 then .ok () else .error (.valueLength "null" e.value.length)

/-- What an element says if it is taken for one of the type. -/
def value : Typed → Element → Except Error Value
  | .boolean, e => e.asBoolean.map .boolean
  | .integer, e | .enumerated, e => e.asInteger.map .integer
  | .long, e => e.asLong.map .long
  | .null, e => (asNull e).map fun _ => .none
  | .octets, e => .ok (.octets e.value)
  | .text, e => e.asText.map .text

/-- The lengths of the values of a type, under the name by which others are reported. -/
def lengths : Typed → Option (String × Nat × Nat)
  | .boolean => some ("boolean", 1, 1)
  | .integer | .enumerated => some ("integer", 1, 4)
  | .long => some ("long", 1, 8)
  | .null => some ("null", 0, 0)
  | .octets | .text => none

/-- No value is made of an element of a length that does not fit the type, nor a text of bytes that are none. -/
theorem value_eq_error_iff {t : Typed} {error : Error} : t.value e = .error error ↔
    (∃ kind low high, t.lengths = some (kind, low, high) ∧ ¬ (low ≤ e.value.length ∧ e.value.length ≤ high) ∧
      error = .valueLength kind e.value.length) ∨
    (t = .text ∧ utf8Text? e.value = none ∧ error = .invalidUtf8) := by
  cases t with
  | boolean =>
    obtain ⟨tag, bytes⟩ := e
    rcases bytes with _ | ⟨b, _ | ⟨c, bytes⟩⟩ <;> simp [value, lengths, Element.asBoolean, eq_comm]
  | integer | enumerated =>
    by_cases hn : 1 ≤ e.value.length ∧ e.value.length ≤ 4
    · simp [value, lengths, Element.asInteger, hn]
    · simp [value, lengths, Element.asInteger, hn, eq_comm]
      exact fun _ => by omega
  | long =>
    by_cases hn : 1 ≤ e.value.length ∧ e.value.length ≤ 8
    · simp [value, lengths, Element.asLong, hn]
    · simp [value, lengths, Element.asLong, hn, eq_comm]
      exact fun _ => by omega
  | null =>
    by_cases hn : e.value = [] <;> simp [value, lengths, asNull, hn, eq_comm, List.length_pos_iff]
  | octets => simp [value, lengths]
  | text => cases hs : utf8Text? e.value <;> simp [value, lengths, Element.asText, hs, eq_comm]

end Typed

/-! ### Reads -/

/-- In front of the element its header can be read, and then its value, which leads behind it. -/
def Spans (r : Reader) (e : Element) (r' : Reader) : Prop :=
  ∃ q, ReadM.header.run r = .ok e.value.length q ∧
    ∀ part, (ReadM.bytes e.value.length part).run q = .ok e.value r'

/-- Of any element the step makes what `as` makes of it, and passes over the element in any case. -/
def Settles (p : ReadM α) (as : Element → Except Error α) : Prop :=
  ∀ r e r', Spans r e r' → p.run r = (ReadM.lift (as e)).run r'

namespace Settles

variable {β : Type} {p : ReadM α} {as : Element → Except Error α}

theorem map {g : α → β} (hp : Settles p as) : Settles (do return g (← p)) fun e => (as e).map g := by
  intro r e r' h
  rw [EStateM.run_bind, hp r e r' h]
  dsimp only
  cases as e <;> rfl

/-- Behind the header the value is taken in some way. -/
theorem header_bind {k : Nat → ReadM α} (hk : ∀ e q r', (∀ part, (ReadM.bytes e.value.length part).run q = .ok e.value r') →
    (k e.value.length).run q = (ReadM.lift (as e)).run r') : Settles (ReadM.header >>= k) as := by
  rintro r e r' ⟨q, hheader, hvalue⟩
  rw [ReadM.run_bind_of_ok hheader]
  exact hk e q r' hvalue

theorem octets : Settles ReadM.octets fun e => .ok e.value :=
  header_bind fun _ _ _ hvalue => hvalue "value"

/-- A value of the wrong length is passed over before it is reported. -/
theorem run_rejectLength {kind : String} (hvalue : ∀ part, (ReadM.bytes e.value.length part).run q = .ok e.value r') :
    (ReadM.rejectLength kind e.value.length : ReadM α).run q = .error (.valueLength kind e.value.length) r' := by
  rw [ReadM.rejectLength, ReadM.skipValue_eq, bind_assoc, ReadM.value, ReadM.run_bind_of_ok (hvalue "value")]
  rfl

theorem boolean : Settles ReadM.boolean Element.asBoolean := by
  refine header_bind fun e q r' hvalue => ?_
  rw [Element.asBoolean]
  by_cases hn : e.value.length = 1
  · obtain ⟨b, hb⟩ := List.length_eq_one_iff.mp hn
    rw [hn, hb] at hvalue
    rw [if_pos hn, hb, ReadM.byte, bind_assoc, ReadM.run_bind_of_ok (hvalue "value")]
    rfl
  · rw [if_neg hn, run_rejectLength hvalue]
    split
    · rename_i b hb
      exact absurd (congrArg List.length hb) hn
    · rfl

theorem integer : Settles ReadM.integer Element.asInteger := by
  refine header_bind fun e q r' hvalue => ?_
  rw [Element.asInteger]
  by_cases hn : 1 ≤ e.value.length ∧ e.value.length ≤ 4
  · rw [if_pos hn, if_pos hn, ReadM.value, ReadM.run_bind_of_ok (hvalue "value")]
    rfl
  · rw [if_neg hn, if_neg hn, run_rejectLength hvalue]
    rfl

theorem long : Settles ReadM.long Element.asLong := by
  refine header_bind fun e q r' hvalue => ?_
  rw [Element.asLong]
  by_cases hn : 1 ≤ e.value.length ∧ e.value.length ≤ 8
  · rw [if_pos hn, if_pos hn, ReadM.value, ReadM.run_bind_of_ok (hvalue "value")]
    rfl
  · rw [if_neg hn, if_neg hn, run_rejectLength hvalue]
    rfl

theorem null : Settles ReadM.null Typed.asNull := by
  refine header_bind fun e q r' hvalue => ?_
  rw [Typed.asNull]
  by_cases hn : e.value.length = 0
  · have hempty := hvalue "value"
    rw [hn, List.length_eq_zero_iff.mp hn] at hempty
    cases hempty
    rw [if_pos hn, if_pos hn]
    rfl
  · rw [if_neg hn, if_neg hn, run_rejectLength hvalue]
    rfl

theorem text : Settles ReadM.text Element.asText := by
  intro r e r' h
  rw [ReadM.text, ReadM.run_bind_of_ok (octets r e r' h), Element.asText]
  cases utf8Text? e.value <;> rfl

/-- Each typed read makes of an element what the type makes of it. -/
theorem perform (t : Typed) : Settles t.call.perform t.value := by
  cases t with
  | boolean => exact boolean.map
  | integer | enumerated => exact integer.map
  | long => exact long.map
  | octets => exact octets.map
  | text => exact text.map
  | null => exact null.map

end Settles

/-! ### Elements that have arrived -/

/-- A tag that is delivered can be looked at, again and again, and is still there to be taken. -/
theorem Reader.At.peek_arrived (hr : r.At (ds ++ more)) (hp : Plain ds) {b : UInt8} (hc : content ds = b :: rest) :
    ∃ seen, ReadM.peek.run r = .ok (some b) seen ∧ ReadM.peek.run seen = .ok (some b) seen ∧
      seen.consumed = r.consumed ∧ seen.fetch true = r.fetch true := by
  obtain ⟨left, -, -, hfetch⟩ := hr.fetch_arrived hp hc true
  have hpeek := ReadM.answer_peek (by rw [hr.source]; rfl) hr.lookahead
  rw [hfetch] at hpeek
  refine ⟨_, ReadM.run_of_answer_ok hpeek, rfl, rfl, ?_⟩
  rw [hfetch, Reader.fetch_of_some rfl, Reader.advance, hr.lookahead]

theorem run_header_of_fetch (hfetch : seen.fetch true = r.fetch true) {n : Nat} (h : ReadM.header.run r = .ok n q) :
    ReadM.header.run seen = .ok n q := by
  have hanswer : ReadM.header.answer r = .ok (n, q) := by rw [ReadM.answer, h]
  refine ReadM.run_of_answer_ok (Eq.trans ?_ hanswer)
  rw [ReadM.header, ReadM.answer_bind, ReadM.answer_bind, ReadM.answer_requiredTag, ReadM.answer_requiredTag, hfetch]

section Arrived

variable (hr : r.At (ds ++ more)) (hp : Plain ds)
include hr hp

theorem run_header_arrived {tag : UInt8} {n : Nat} (hd : Declares header n) (hl : n ≤ r.limit)
    (hc : content ds = tag :: (header ++ rest)) : ∃ left, Plain left ∧ content left = rest ∧
      ReadM.header.run r = .ok n (r.advance (1 + header.length) (left ++ more)) := by
  have htakes : ∀ stop, Takes r.limit stop ReadM.header (⟨tag, true⟩ :: (Cell.later header ++ [])) n := by
    intro stop
    rw [← bind_pure ReadM.header]
    exact Takes.header_bind hd hl (Takes.pure n)
  have hbytes : (⟨tag, true⟩ :: (Cell.later header ++ []) : List Cell).map Cell.byte = tag :: header := by simp
  obtain ⟨left, hleft, hrest, hanswer⟩ := Meets.answer_arrived_before (fun stop => (htakes stop).meets) hbytes hr hp hc
  rw [Nat.add_comm]
  exact ⟨left, hleft, hrest, ReadM.run_of_answer_ok hanswer⟩

theorem run_bytes_arrived {bytes : List UInt8} (hc : content ds = bytes ++ rest) :
    ∃ left, Plain left ∧ content left = rest ∧
      ∀ part, (ReadM.bytes bytes.length part).run r = .ok bytes (r.advance bytes.length (left ++ more)) := by
  have hn : bytes.length ≤ (content ds).length := by simp [hc]
  obtain ⟨left, hleft, hrest, hpull⟩ := pull_append_of_le hp hn
  rw [hc, List.drop_left] at hrest
  refine ⟨left, hleft, hrest, fun part => ?_⟩
  rw [ReadM.run_bytes_of_open hr.source, hpull, hc, List.take_left]
  rfl

/-- An element whose bytes are delivered is spanned, in whatever form its length is written. -/
theorem spans_arrived (hd : Declares header e.value.length) (hl : e.value.length ≤ r.limit)
    (hc : content ds = e.tag :: (header ++ (e.value ++ rest))) : ∃ left, Plain left ∧ content left = rest ∧
      Spans r e (r.advance (1 + header.length + e.value.length) (left ++ more)) := by
  obtain ⟨behind, hbehind, hcontent, hheader⟩ := run_header_arrived hr hp hd hl hc
  obtain ⟨left, hleft, hrest, hvalue⟩ := run_bytes_arrived (hr.advance _ _) hbehind hcontent
  rw [Reader.advance_advance] at hvalue
  exact ⟨left, hleft, hrest, _, hheader, hvalue⟩

/-- Whatever an element that has been delivered is read as, the reader comes to stand right behind it, with all of its
bytes counted, whether the read answers a value or fails, and whether its tag was looked at before or not. It fails only
for a length that does not fit the type, and for bytes that are no text. -/
theorem run_typed (hd : Declares header e.value.length) (hl : e.value.length ≤ r.limit)
    (hc : content ds = e.tag :: (header ++ (e.value ++ rest))) :
    ∃ left seen, Plain left ∧ content left = rest ∧
      ReadM.peek.run r = .ok (some e.tag) seen ∧ ReadM.peek.run seen = .ok (some e.tag) seen ∧
      seen.consumed = r.consumed ∧ ∀ t : Typed,
        (∀ q ∈ [r, seen], t.call.perform.run q =
          let r' := r.advance (1 + header.length + e.value.length) (left ++ more)
          match t.value e with
          | .ok v => .ok v r'
          | .error error => .error error r') ∧
        ∀ error, t.value e = .error error ↔
          (∃ kind low high, t.lengths = some (kind, low, high) ∧ ¬ (low ≤ e.value.length ∧ e.value.length ≤ high) ∧
            error = .valueLength kind e.value.length) ∨
          (t = .text ∧ utf8Text? e.value = none ∧ error = .invalidUtf8) := by
  obtain ⟨left, hleft, hrest, q, hheader, hvalue⟩ := spans_arrived hr hp hd hl hc
  obtain ⟨seen, hpeek, hagain, hconsumed, hfetch⟩ := hr.peek_arrived hp hc
  refine ⟨left, seen, hleft, hrest, hpeek, hagain, hconsumed, fun t => ⟨fun s hs => ?_, fun error =>
    Typed.value_eq_error_iff⟩⟩
  have hspans : Spans s e (r.advance (1 + header.length + e.value.length) (left ++ more)) := by
    rcases List.mem_pair.mp hs with rfl | rfl
    · exact ⟨q, hheader, hvalue⟩
    · exact ⟨q, run_header_of_fetch hfetch hheader, hvalue⟩
  rw [Settles.perform t s e _ hspans]
  cases t.value e <;> rfl

end Arrived

/-- Five bytes with more of a header than they need, in two pieces: no integer, but a long one. A timeout is to come. -/
theorem run_typed_fiveBytes :
    let ds : List Delivery := [.bytes [0x02, 0x82, 0x00], .interrupted, .bytes [0x05, 0x01, 0x02, 0x03, 0x04, 0x05, 0x30]]
    let more : List Delivery := [.timeout, .bytes [0x00]]
    let r := Reader.ofDeliveries (ds ++ more)
    r.At (ds ++ more) ∧ Plain ds ∧ Declares [0x82, 0x00, 0x05] 5 ∧ ∃ left, content left = [0x30] ∧
      Typed.integer.call.perform.run r = .error (.valueLength "integer" 5) (r.advance 9 (left ++ more)) ∧
      Typed.long.call.perform.run r = .ok (.long 0x0102030405) (r.advance 9 (left ++ more)) := by
  intro ds more r
  have hd : Declares [0x82, 0x00, 0x05] 5 := .long (by decide) rfl ⟨by decide, by decide, by decide⟩ (by decide)
  have hr : r.At (ds ++ more) := ⟨rfl, rfl⟩
  have hp : Plain ds := by decide
  let e : Element := ⟨0x02, [0x01, 0x02, 0x03, 0x04, 0x05]⟩
  have hc : content ds = e.tag :: ([0x82, 0x00, 0x05] ++ (e.value ++ [0x30])) := rfl
  obtain ⟨left, seen, -, hrest, -, -, -, htyped⟩ := run_typed hr hp (e := e) hd (by decide) hc
  exact ⟨hr, hp, hd, left, hrest, (htyped .integer).1 r (by simp), (htyped .long).1 r (by simp)⟩

end Ldap.Ber
