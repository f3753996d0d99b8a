import Ldap.Proofs.Ber.Arrival
import Ldap.Proofs.Ber.Lockstep
import Ldap.Proofs.Except

/-! Elements decoded from a stream and from a slice. The two decoders check the header, the limits and the end of the
input in code of their own, one byte at a time and on all the bytes at once. On the same bytes they come to the same
value after as many bytes, or to the same error; only where there are no bytes at all does the stream find its end,
and the slice an element cut short. -/

namespace Ldap.Ber

open Delivery

/-- Decodes the bytes at the front of a slice: a value and the number of the bytes, or an error. -/
abbrev Decoder (α : Type) := List UInt8 → Except Error (α × Nat)

variable {α β : Type} {p : ReadM α} {q : α → ReadM β} {f : Decoder α} {g : α → Decoder β} {r : Reader}
  {ds : List Delivery} {a : α} {n : Nat} {e : Error}

/-! ### Decoders of slices -/

namespace Decoder

/-- Decodes the bytes that the first decoder leaves. -/
def andThen (f : Decoder α) (g : α → Decoder β) : Decoder β := fun bytes =>
  f bytes >>= fun x => (g x.1 (bytes.drop x.2)).map fun y => (y.1, x.2 + y.2)

theorem andThen_of_ok {bytes : List UInt8} (h : f bytes = .ok (a, n)) :
    f.andThen g bytes = (g a (bytes.drop n)).map fun y => (y.1, n + y.2) := by
  rw [andThen, h, Except.ok_bind]

theorem andThen_of_error {bytes : List UInt8} (h : f bytes = .error e) : f.andThen g bytes = .error e := by
  rw [andThen, h, Except.error_bind]

/-- The first byte, which must be there. -/
def first (part : String) : Decoder UInt8
  | [] => .error (.truncated part)
  | b :: _ => .ok (b, 1)

theorem andThen_first_cons (part : String) (g : UInt8 → Decoder β) (b : UInt8) (bytes : List UInt8) :
    (first part).andThen g (b :: bytes) = (g b bytes).map fun y => (y.1, 1 + y.2) :=
  andThen_of_ok rfl

/-- The value of an element, of which `as` may make something else. -/
def value (as : List UInt8 → Except Error α) (n : Nat) : Decoder α := fun bytes =>
  if n ≤ bytes.length then (as (bytes.take n)).map (·, n) else .error (.truncated "value")

end Decoder

/-- What is behind the first byte of a length. -/
def Length.decodeBehind (first : UInt8) : Decoder Nat := fun bytes =>
  if first < 0x80 then .ok (first.toNat, 0)
  else
    let count := first.toNat - 0x80
    if count < 1 ∨ 4 < count then .error (.lengthByteCount count)
    else if (bytes.take count).length < count then .error (.truncated "length")
    else if maxLength < ofBigEndian (bytes.take count) then
      .error (.lengthExceedsMaximum (ofBigEndian (bytes.take count)) maxLength)
    else .ok (ofBigEndian (bytes.take count), count)

theorem Length.decode_cons (b : UInt8) (bytes : List UInt8) :
    decode (b :: bytes) = (decodeBehind b bytes).map fun x => (x.1, 1 + x.2) := by
  rw [decode, decodeBehind]
  by_cases hb : b < 0x80
  · rw [if_pos hb, if_pos hb]
    rfl
  · simp only [if_neg hb]
    by_cases hcount : b.toNat - 0x80 < 1 ∨ 4 < b.toNat - 0x80
    · rw [if_pos hcount, if_pos hcount, Except.error_map]
    · rw [if_neg hcount, if_neg hcount]
      by_cases hshort : (bytes.take (b.toNat - 0x80)).length < b.toNat - 0x80
      · rw [if_pos hshort, if_pos hshort, Except.error_map]
      · rw [if_neg hshort, if_neg hshort]
        by_cases hmax : maxLength < ofBigEndian (bytes.take (b.toNat - 0x80))
        · rw [if_pos hmax, if_pos hmax, Except.error_map]
        · rw [if_neg hmax, if_neg hmax, Except.ok_map]

namespace Element

/-- Decodes the element at the front and makes of it what `as` says. -/
def decodeAs (as : Element → Except Error α) : Decoder α := fun bytes =>
  decodePrefix bytes >>= fun x => (as x.1).map (·, x.2)

theorem decodeAs_cons (as : Element → Except Error α) (tag : UInt8) (bytes : List UInt8) :
    decodeAs as (tag :: bytes) =
      (Decoder.andThen Length.decode (Decoder.value fun value => as ⟨tag, value⟩) bytes).map
        fun x => (x.1, 1 + x.2) := by
  rw [decodeAs, decodePrefix, Decoder.andThen]
  cases Length.decode bytes with
  | error e => rfl
  | ok x =>
    obtain ⟨n, header⟩ := x
    rw [Except.ok_bind, Except.ok_bind, Decoder.value]
    dsimp only
    by_cases hn : n ≤ (bytes.drop header).length
    · rw [if_pos hn, if_neg (by rw [List.length_take_of_le hn]; exact Nat.lt_irrefl n), Except.ok_bind]
      cases as ⟨tag, (bytes.drop header).take n⟩ with
      | error e => rfl
      | ok a => simp only [Except.ok_map, Nat.add_assoc]
    · rw [if_neg hn, if_pos (by rw [List.length_take]; omega)]
      rfl

end Element

/-! ### Steps that follow a decoder -/

/-- A run on a stream comes to what a slice of the bytes to come is decoded to: the value, behind as many bytes, or
the error. -/
inductive Matches (r : Reader) (bytes : List UInt8) :
    Except Error (α × Nat) → EStateM.Result Error Reader α → Prop
  | ok (a : α) (n : Nat) (left : List Delivery) (hp : Plain left) (hc : content left = bytes.drop n) :
      Matches r bytes (.ok (a, n)) (.ok a (r.advance n left))
  | error (e : Error) (r' : Reader) : Matches r bytes (.error e) (.error e r')

/-- On a stream without failures, and without a limit of its own, the step does what the decoder does. -/
def Follows (p : ReadM α) (f : Decoder α) : Prop :=
  ∀ r ds, r.At ds → Plain ds → r.limit = maxLength → Matches r (content ds) (f (content ds)) (p.run r)

namespace Follows

theorem congr {f' : Decoder α} (h : Follows p f) (hf : ∀ bytes, f bytes = f' bytes) : Follows p f' :=
  (funext hf : f = f') ▸ h

theorem pure (a : α) : Follows (pure a) fun _ => .ok (a, 0) := by
  intro r ds hr hp _
  have h : Matches r (content ds) (.ok (a, 0)) (.ok a (r.advance 0 ds)) := .ok a 0 ds hp rfl
  rwa [hr.advance_zero] at h

theorem throw (e : Error) : Follows (throw e : ReadM α) fun _ => .error e := fun r _ _ _ _ => .error e r

/-- The second step may count on what the first decoder can give. -/
theorem bind_of (hp : Follows p f) (hq : ∀ bytes a n, f bytes = .ok (a, n) → Follows (q a) (g a)) :
    Follows (p >>= q) (f.andThen g) := by
  intro r ds hr hpl hl
  have hfirst := hp r ds hr hpl hl
  generalize hx : p.run r = x, hy : f (content ds) = y at hfirst
  cases hfirst with
  | error e r' =>
    rw [ReadM.run_bind_of_error hx, Decoder.andThen_of_error hy]
    exact .error e r'
  | ok a n left hleft hc =>
    have hsecond := hq _ a n hy _ left (hr.advance n left) hleft hl
    rw [hc] at hsecond
    rw [ReadM.run_bind_of_ok hx, Decoder.andThen_of_ok hy]
    generalize (q a).run (r.advance n left) = x', g a ((content ds).drop n) = y' at hsecond
    cases hsecond with
    | error e r' => exact .error e r'
    | ok b m left' hleft' hc' =>
      rw [Reader.advance_advance]
      exact .ok b (n + m) left' hleft' (by rw [hc', List.drop_drop])

theorem bind (hp : Follows p f) (hq : ∀ a, Follows (q a) (g a)) : Follows (p >>= q) (f.andThen g) :=
  hp.bind_of fun _ a _ _ => hq a

theorem map {h : α → β} (hp : Follows p f) :
    Follows (do return h (← p)) fun bytes => (f bytes).map fun x => (h x.1, x.2) := by
  refine (hp.bind fun a => pure (h a)).congr fun bytes => ?_
  rw [Decoder.andThen]
  cases f bytes <;> rfl

/-! ### Bytes -/

theorem bytes (n : Nat) (part : String) : Follows (ReadM.bytes n part) fun bytes =>
    if n ≤ bytes.length then .ok (bytes.take n, n) else .error (.truncated part) := by
  cases n with
  | zero => exact pure []
  | succ n =>
    intro r ds hr hp _
    obtain ⟨left, hleft, hc, hpull⟩ := pull_of_plain hp (n + 1)
    rw [ReadM.bytes_succ_eq, ReadM.run_transfer, hr.source]
    dsimp only
    rw [hpull]
    by_cases hn : n + 1 ≤ (content ds).length
    · have htaken : ((content ds).take (n + 1)).length = n + 1 := List.length_take_of_le hn
      rw [if_pos hn, if_pos hn, htaken]
      exact .ok _ _ left hleft hc
    · rw [if_neg hn, if_neg hn]
      exact .error _ _

theorem byte (part : String) : Follows (ReadM.byte part) (.first part) := by
  refine (map (h := (·.headD 0)) (bytes 1 part)).congr fun bytes => ?_
  cases bytes <;> simp [Decoder.first]

theorem requiredTag (part : String) : Follows (ReadM.requiredTag part) (.first part) := by
  intro r ds hr hp _
  have htag := ReadM.answer_tag? r
  rw [ReadM.requiredTag]
  cases hc : content ds with
  | nil =>
    rw [hr.fetch_ended hp hc] at htag
    rw [ReadM.run_bind_of_ok (ReadM.run_of_answer_ok htag)]
    exact .error _ _
  | cons tag bytes =>
    rw [← List.append_nil ds] at hr
    obtain ⟨left, hleft, hlc, hf⟩ := hr.fetch_arrived hp hc true
    rw [hf] at htag
    rw [ReadM.run_bind_of_ok (ReadM.run_of_answer_ok htag)]
    exact .ok tag 1 _ (by simpa using hleft) (by simpa using hlc)

/-! ### Lengths -/

theorem checkLength (n : Nat) : Follows (ReadM.checkLength n) fun _ =>
    if maxLength < n then .error (.lengthExceedsMaximum n maxLength) else .ok (n, 0) := by
  intro r ds hr hp hl
  rw [ReadM.checkLength, ReadM.run_bind_of_ok (show (get : ReadM Reader).run r = .ok r r from rfl), hl]
  dsimp only
  by_cases hn : maxLength < n
  · rw [if_pos hn, if_pos hn]
    exact .error _ _
  · rw [if_neg hn, if_neg hn]
    exact pure n r ds hr hp hl

theorem lengthBytes (count n : Nat) : Follows (ReadM.lengthBytes count n) fun bytes =>
    if (bytes.take count).length < count then .error (.truncated "length")
    else .ok ((bytes.take count).foldl (fun n b => n * 256 + b.toNat) n, count) := by
  induction count generalizing n with
  | zero => exact pure n
  | succ count ih =>
    refine (bind (byte "length") fun b => ih (n * 256 + b.toNat)).congr fun bytes => ?_
    cases bytes with
    | nil => rfl
    | cons b bytes =>
      rw [Decoder.andThen_first_cons]
      simp only [List.take_succ_cons, List.length_cons, Nat.add_lt_add_iff_right, List.foldl_cons]
      split
      · rfl
      · rw [Except.ok_map, Nat.add_comm 1]

theorem length : Follows ReadM.length Length.decode := by
  refine (bind (g := Length.decodeBehind) (byte "length") fun b => ?_).congr fun bytes => ?_
  · unfold Length.decodeBehind
    by_cases hb : b < 0x80
    · -- a length in a single byte is below any limit that a length can have
      have hmax : ¬ maxLength < b.toNat := by
        have := b.toNat_lt
        unfold maxLength
        omega
      simpa only [if_pos hb, if_neg hmax] using checkLength b.toNat
    · simp only [if_neg hb]
      by_cases hcount : b.toNat - 0x80 < 1 ∨ 4 < b.toNat - 0x80
      · simpa only [if_pos hcount] using throw _
      · simp only [if_neg hcount]
        refine (bind (lengthBytes _ 0) checkLength).congr fun bytes => ?_
        rw [Decoder.andThen]
        by_cases hshort : (bytes.take (b.toNat - 0x80)).length < b.toNat - 0x80
        · rw [if_pos hshort, if_pos hshort, Except.error_bind]
        · rw [if_neg hshort, if_neg hshort, Except.ok_bind, ← ofBigEndian]
          dsimp only
          by_cases hmax : maxLength < ofBigEndian (bytes.take (b.toNat - 0x80))
          · rw [if_pos hmax, if_pos hmax, Except.error_map]
          · rw [if_neg hmax, if_neg hmax, Except.ok_map, Nat.add_zero]
  · cases bytes with
    | nil => rfl
    | cons b bytes => rw [Decoder.andThen_first_cons, Length.decode_cons]

/-! ### Elements -/

/-- A tag, a length, and a step that makes of the value what `as` makes of the element. -/
theorem tag_length_bind {k : UInt8 → Nat → ReadM α} {as : Element → Except Error α}
    (hk : ∀ tag n, Follows (k tag n) (.value (fun value => as ⟨tag, value⟩) n)) :
    Follows (ReadM.requiredTag "type" >>= fun tag => ReadM.length >>= k tag) (Element.decodeAs as) := by
  refine (bind (requiredTag "type") fun tag => bind length (hk tag)).congr fun bytes => ?_
  cases bytes with
  | nil => rfl
  | cons tag bytes => rw [Decoder.andThen_first_cons, Element.decodeAs_cons]

theorem header_bind {k : Nat → ReadM α} {as : Element → Except Error α}
    (hk : ∀ tag n, Follows (k n) (.value (fun value => as ⟨tag, value⟩) n)) :
    Follows (ReadM.header >>= k) (Element.decodeAs as) := by
  rw [ReadM.header, bind_assoc]
  exact tag_length_bind hk

theorem value_bind {k : List UInt8 → ReadM α} {as : List UInt8 → Except Error α}
    (hk : ∀ value, value.length = n → Follows (k value) fun _ => (as value).map (·, 0)) :
    Follows (ReadM.value n >>= k) (.value as n) := by
  have hvalue : ∀ (bytes value : List UInt8) (m : Nat), (if n ≤ bytes.length then Except.ok (bytes.take n, n)
      else .error (Error.truncated "value")) = Except.ok (value, m) → value.length = n := by
    intro bytes value m h
    split at h
    · cases h
      exact List.length_take_of_le ‹_›
    · cases h
  refine (bind_of (bytes n "value") fun bytes value m h => hk value (hvalue bytes value m h)).congr fun bytes => ?_
  rw [Decoder.andThen, Decoder.value]
  by_cases hn : n ≤ bytes.length
  · rw [if_pos hn, if_pos hn, Except.ok_bind]
    cases as (bytes.take n) <;> rfl
  · rw [if_neg hn, if_neg hn, Except.error_bind]

theorem value_map {as : List UInt8 → Except Error α} {h : List UInt8 → α}
    (ha : ∀ value, value.length = n → as value = .ok (h value)) :
    Follows (do return h (← ReadM.value n)) (.value as n) := by
  refine value_bind fun value hvalue => ?_
  rw [ha value hvalue]
  exact pure (h value)

/-- A value of the wrong size is passed over before it is reported. -/
theorem rejectLength {as : List UInt8 → Except Error α} {kind : String}
    (ha : ∀ value, value.length = n → as value = .error (.valueLength kind n)) :
    Follows (ReadM.rejectLength kind n) (.value as n) := by
  rw [ReadM.rejectLength, ReadM.skipValue_eq, bind_assoc]
  refine value_bind fun value hvalue => ?_
  rw [ha value hvalue]
  exact throw _

theorem boolean : Follows ReadM.boolean (Element.decodeAs Element.asBoolean) := by
  refine header_bind fun tag n => ?_
  by_cases hn : n = 1
  · subst hn
    rw [if_pos rfl]
    refine (map (byte "value")).congr fun bytes => ?_
    cases bytes <;> rfl
  · rw [if_neg hn]
    refine rejectLength fun value hvalue => ?_
    rw [Element.asBoolean]
    split
    · rename_i h
      exact absurd (hvalue.symm.trans (congrArg List.length h)) hn
    · rw [hvalue]

theorem integer : Follows ReadM.integer (Element.decodeAs Element.asInteger) := by
  refine header_bind fun tag n => ?_
  by_cases hn : 1 ≤ n ∧ n ≤ 4
  · rw [if_pos hn]
    refine value_map fun value hvalue => ?_
    rw [Element.asInteger, hvalue, if_pos hn]
  · rw [if_neg hn]
    refine rejectLength fun value hvalue => ?_
    rw [Element.asInteger, hvalue, if_neg hn]

theorem long : Follows ReadM.long (Element.decodeAs Element.asLong) := by
  refine header_bind fun tag n => ?_
  by_cases hn : 1 ≤ n ∧ n ≤ 8
  · rw [if_pos hn]
    refine value_map fun value hvalue => ?_
    rw [Element.asLong, hvalue, if_pos hn]
  · rw [if_neg hn]
    refine rejectLength fun value hvalue => ?_
    rw [Element.asLong, hvalue, if_neg hn]

theorem text : Follows ReadM.text (Element.decodeAs Element.asText) := by
  rw [ReadM.text, ReadM.octets, bind_assoc]
  refine header_bind fun tag n => value_bind fun value _ => ?_
  rw [Element.asText]
  cases utf8Text? value with
  | some s => exact pure s
  | none => exact throw _

end Follows

/-! ### Whole elements -/

/-- Where the input has not ended, the tag might as well have to be there. -/
theorem ReadM.run_element?_eq (hr : r.At ds) (hp : Plain ds) (hc : content ds ≠ []) : element?.run r =
    (requiredTag "type" >>= fun tag => length >>= fun n => do return some ⟨tag, ← value n⟩ : ReadM _).run r := by
  obtain ⟨tag, bytes, hcons⟩ := List.exists_cons_of_ne_nil hc
  have htag := answer_tag? r
  rw [← List.append_nil ds] at hr
  obtain ⟨left, -, -, hf⟩ := hr.fetch_arrived hp hcons true
  rw [hf] at htag
  rw [requiredTag, bind_assoc, element?, run_bind_of_ok (run_of_answer_ok htag),
    run_bind_of_ok (run_of_answer_ok htag)]
  rfl

/-- A stream that delivers some bytes, and does not fail, is decoded as the slice of these bytes is, but that the end
of the input is no error on the stream. What the slice decoder makes of an element as a boolean, an integer or a text
is what the stream gives that is read as one. -/
theorem matches_decodePrefix (hr : r.At ds) (hp : Plain ds) (hl : r.limit = maxLength) :
    (content ds = [] → ReadM.element?.run r = .ok none r.close ∧
      Element.decodePrefix (content ds) = .error (.truncated "type")) ∧
    (content ds ≠ [] → Matches r (content ds) ((Element.decodePrefix (content ds)).map fun x => (some x.1, x.2))
      (ReadM.element?.run r)) ∧
    Matches r (content ds) (Element.decodeAs Element.asBoolean (content ds)) (ReadM.boolean.run r) ∧
    Matches r (content ds) (Element.decodeAs Element.asInteger (content ds)) (ReadM.integer.run r) ∧
    Matches r (content ds) (Element.decodeAs Element.asLong (content ds)) (ReadM.long.run r) ∧
    Matches r (content ds) (Element.decodeAs Element.asText (content ds)) (ReadM.text.run r) := by
  refine ⟨fun hc => ⟨ReadM.run_of_answer_ok (hr.answer_element? hp hc), by rw [hc]; rfl⟩, fun hc => ?_,
    Follows.boolean r ds hr hp hl, Follows.integer r ds hr hp hl, Follows.long r ds hr hp hl,
    Follows.text r ds hr hp hl⟩
  have hfollows : Follows _ (Element.decodeAs fun e => .ok (some e)) :=
    Follows.tag_length_bind fun tag n => Follows.value_map fun _ _ => rfl
  rw [ReadM.run_element?_eq hr hp hc]
  exact hfollows r ds hr hp hl

/-- Two bytes under the tag of a boolean, and one behind them: an element, a number, and no boolean. -/
theorem matches_decodePrefix_twoBytes :
    let bytes := [0x01, 0x02, 0x05, 0xFF, 0x00]
    let r := Reader.ofBytes bytes
    r.At [.bytes bytes] ∧ Plain [.bytes bytes] ∧ r.limit = maxLength ∧
      Matches r bytes (.ok (some ⟨0x01, [0x05, 0xFF]⟩, 4)) (ReadM.element?.run r) ∧
      Matches r bytes (.error (.valueLength "boolean" 2)) (ReadM.boolean.run r) ∧
      Matches r bytes (.ok (0x05FF, 4)) (ReadM.integer.run r) := by
  intro bytes r
  have hr : r.At [.bytes bytes] := ⟨rfl, rfl⟩
  have hp : Plain [.bytes bytes] := by decide
  obtain ⟨-, helement, hboolean, hinteger, -, -⟩ := matches_decodePrefix hr hp rfl
  exact ⟨hr, hp, rfl, helement (by decide), hboolean, hinteger⟩

end Ldap.Ber
