import Ldap.Proofs.Ber.Arrival
import Ldap.Proofs.Ber.Buffer
import Ldap.Proofs.Message.Codec

/-! Messages that follow one another on a stream. What was written is read back, and a stream that is
cut gives the messages in front of the cut, and then its end or a report of the cut. -/

namespace Ldap

open Ber (Reader ReadM Delivery Cell)
open Ber.Delivery (Plain content)

namespace Message

/-- What a reader with the largest limit accepts: the filter of a search is within the bounds of the
reader, and so is the length that the message declares. -/
structure Encodable (m : Message) : Prop where
  readable : m.op.Readable
  length_le : m.toItem.value.length ≤ Ber.maxLength

theorem encode_eq (m : Message) : m.encode = m.toItem.cells.map Cell.byte := by
  rw [encode, Ber.Item.toBytes_eq_encode, Ber.Item.byte_cells]

theorem length_encode (m : Message) : m.encode.length = m.toItem.cells.length := by
  rw [encode_eq, List.length_map]

variable {m : Message} {r : Reader} {ds more : List Delivery}

/-- Once a byte of a message has arrived, reading takes its cells. -/
theorem answer_read_begun (h : m.Encodable) (hr : r.At (ds ++ more)) (hl : r.limit = Ber.maxLength)
    (hp : Plain ds) (hne : content ds ≠ []) (bytes : List UInt8)
    (hc : content (ds ++ more) <+: m.encode ++ bytes) :
    read.answer r = (r.draw m.toItem.cells).map (some m, ·) := by
  have hb : r.Before (r.consumed + m.toItem.cells.length) m.toItem.cells := hr.before (by rwa [← encode_eq])
  obtain ⟨b, left, hcons⟩ := List.exists_cons_of_ne_nil hne
  obtain ⟨left, -, -, hf⟩ := hr.fetch_arrived hp hcons true
  rw [answer_read h.readable hb (by rw [hl, Nat.min_self]; exact h.length_le), hf]

/-- A message that has arrived is read, and what follows it is left. -/
theorem answer_read_arrived (h : m.Encodable) (hr : r.At (ds ++ more)) (hl : r.limit = Ber.maxLength)
    (hp : Plain ds) {bytes : List UInt8} (hc : content ds = m.encode ++ bytes) :
    ∃ left, Plain left ∧ content left = bytes ∧
      read.answer r = .ok (some m, r.advance m.encode.length (left ++ more)) := by
  have hne : content ds ≠ [] := by
    rw [hc, encode_eq]
    exact List.append_ne_nil_of_left_ne_nil (by simpa using m.toItem.cells_ne_nil) bytes
  obtain ⟨left, hl', hlc, hd⟩ := hr.draw hp (by rwa [encode_eq] at hc)
  refine ⟨left, hl', hlc, ?_⟩
  have hall : content (ds ++ more) = m.encode ++ (bytes ++ content more) := by
    rw [Ber.Delivery.content_append, hc, List.append_assoc]
  rw [answer_read_begun h hr hl hp hne (bytes ++ content more) (hall ▸ List.prefix_refl _), hd, length_encode]
  rfl

/-- A message of which only a part arrives is reported as cut short. -/
theorem answer_read_cut (h : m.Encodable) (hr : r.At ds) (hl : r.limit = Ber.maxLength) (hp : Plain ds)
    {cut : Nat} (hpos : 0 < cut) (hlt : cut < m.encode.length) (hc : content ds = m.encode.take cut) :
    read.answer r = .error (.truncated "") := by
  have hne : content ds ≠ [] := by
    rw [hc]
    exact List.ne_nil_of_length_pos (by rw [List.length_take]; omega)
  rw [← List.append_nil ds] at hr
  rw [answer_read_begun h hr hl hp hne []]
  · rw [List.append_nil] at hr
    rw [← List.take_append_drop cut m.toItem.cells, hr.draw_ended hp]
    · rfl
    · rw [hc, encode_eq, List.map_take]
    · exact List.ne_nil_of_length_pos (by rw [List.length_drop, ← length_encode]; omega)
  · rw [List.append_nil, List.append_nil, hc]
    exact List.take_prefix cut _

/-- At the end of the stream there is no message, and the reader closes. -/
theorem run_read_ended (hr : r.At ds) (hp : Plain ds) (hc : content ds = []) :
    read.run r = .ok none r.close := by
  have ht := ReadM.answer_tag? r
  rw [hr.fetch_ended hp hc] at ht
  refine ReadM.run_of_answer_ok ?_
  rw [read_eq, ReadM.answer_bind_ok ht]
  rfl

/-- A message that alone has arrived is read, and nothing is left. -/
theorem run_read_encoded (h : m.Encodable) :
    ∃ r, read.run ((Reader.ofBytes m.encode).setLimit 0) = .ok (some m) r ∧ r.consumed = m.encode.length := by
  have hr : ((Reader.ofBytes m.encode).setLimit 0).At ([.bytes m.encode] ++ []) := ⟨rfl, rfl⟩
  have hc : content [.bytes m.encode] = m.encode ++ [] := rfl
  obtain ⟨left, -, -, ha⟩ := answer_read_arrived h hr rfl (Ber.Delivery.plain_bytes _) hc
  exact ⟨_, ReadM.run_of_answer_ok ha, Nat.zero_add _⟩

/-- Bytes that hold exactly one message are decoded to it. -/
theorem decode_encoded (m : Message) (h : m.Encodable) : decode m.encode = .ok m := by
  have hr : (Reader.ofBytes m.encode).At ([.bytes m.encode] ++ []) := ⟨rfl, rfl⟩
  have hc : content [.bytes m.encode] = m.encode ++ [] := rfl
  obtain ⟨left, -, -, ha⟩ := answer_read_arrived h hr rfl (by simp [Plain, Delivery.isPlain]) hc
  have he : Ber.Element.decode m.encode = .ok ⟨m.toItem.tag, m.toItem.value⟩ := by
    rw [encode, Ber.Item.toBytes_eq_encode, Ber.Item.encode_eq]
    exact Ber.Element.decode_encode h.length_le
  rw [decode, he, ReadM.run_of_answer_ok ha]
  rfl

theorem decode_encoded_search :
    let m : Message := ⟨7, .searchRequest { base := "", scope := .subtree, filter := .not (.present "cn") }, []⟩
    m.Encodable ∧ decode m.encode = .ok m := by
  intro m
  have h : m.Encodable := ⟨⟨by decide, by decide⟩, by decide⟩
  exact ⟨h, decode_encoded m h⟩

/-! ### Cut streams -/

/-- Reading message after message, until there is none or reading fails. -/
inductive Reading : Reader → List Message → Except Ber.Error Reader → Prop
  | ended {r r' : Reader} (h : read.run r = .ok none r') : Reading r [] (.ok r')
  | failed {r r' : Reader} {e : Ber.Error} (h : read.run r = .error e r') : Reading r [] (.error e)
  | next {r r' : Reader} {m : Message} {ms : List Message} {out : Except Ber.Error Reader}
      (h : read.run r = .ok (some m) r') (hr : Reading r' ms out) : Reading r (m :: ms) out

/-- What is read, and how reading ends, is settled by the reader. -/
theorem Reading.unique {ms ms' : List Message} {out out' : Except Ber.Error Reader} (h : Reading r ms out)
    (h' : Reading r ms' out') : ms = ms' ∧ out = out' := by
  induction h generalizing ms' with
  | ended h =>
    cases h' with
    | ended h' =>
      rw [h] at h'
      cases h'
      exact ⟨rfl, rfl⟩
    | failed h' => rw [h] at h'; cases h'
    | next h' _ => rw [h] at h'; cases h'
  | failed h =>
    cases h' with
    | ended h' => rw [h] at h'; cases h'
    | failed h' =>
      rw [h] at h'
      cases h'
      exact ⟨rfl, rfl⟩
    | next h' _ => rw [h] at h'; cases h'
  | next h _ ih =>
    cases h' with
    | ended h' => rw [h] at h'; cases h'
    | failed h' => rw [h] at h'; cases h'
    | next h' hr' =>
      rw [h] at h'
      cases h'
      obtain ⟨rfl, rfl⟩ := ih hr'
      exact ⟨rfl, rfl⟩

/-- The bytes of messages that follow one another. -/
def encodeAll (ms : List Message) : List UInt8 := ms.flatMap encode

theorem encodeAll_cons (m : Message) (ms : List Message) : encodeAll (m :: ms) = m.encode ++ encodeAll ms :=
  List.flatMap_cons

theorem length_encodeAll_cons (m : Message) (ms : List Message) :
    (encodeAll (m :: ms)).length = m.encode.length + (encodeAll ms).length := by
  rw [encodeAll_cons, List.length_append]

/-- The first `k` messages lie before the cut, and the next one, if there is one, does not. -/
structure Whole (ms : List Message) (cut k : Nat) : Prop where
  le_length : k ≤ ms.length
  le_cut : (encodeAll (ms.take k)).length ≤ cut
  cut_lt : k < ms.length → cut < (encodeAll (ms.take (k + 1))).length

theorem Whole.zero {ms : List Message} {cut : Nat} (h : cut < m.encode.length) : Whole (m :: ms) cut 0 where
  le_length := Nat.zero_le _
  le_cut := Nat.zero_le _
  cut_lt _ := by simpa [encodeAll] using h

theorem Whole.succ {ms : List Message} {cut k : Nat} (h : Whole ms cut k) :
    Whole (m :: ms) (m.encode.length + cut) (k + 1) where
  le_length := Nat.succ_le_succ h.le_length
  le_cut := by
    have := h.le_cut
    rw [List.take_succ_cons, length_encodeAll_cons]
    omega
  cut_lt hk := by
    have := h.cut_lt (Nat.lt_of_succ_lt_succ hk)
    rw [List.take_succ_cons, length_encodeAll_cons]
    omega

/-- Reading ends properly and the reader is closed, or else it reports that the input was cut short. -/
def Ends (proper : Prop) : Except Ber.Error Reader → Prop
  | .ok r => proper ∧ r.isClosed
  | .error e => ¬ proper ∧ ∃ part, e = .truncated part

theorem reading_ended (hr : r.At ds) (hp : Plain ds) (hc : content ds = []) : Reading r [] (.ok r.close) :=
  .ended (run_read_ended hr hp hc)

theorem exists_reading (ms : List Message) (hms : ∀ m ∈ ms, m.Encodable) {cut : Nat}
    (hcut : cut ≤ (encodeAll ms).length) (hr : r.At ds) (hl : r.limit = Ber.maxLength) (hp : Plain ds)
    (hc : content ds = (encodeAll ms).take cut) : ∃ k out, Whole ms cut k ∧ Reading r (ms.take k) out ∧
      Ends (cut = (encodeAll (ms.take k)).length) out := by
  induction ms generalizing r ds cut with
  | nil =>
    obtain rfl : cut = 0 := Nat.le_zero.mp hcut
    exact ⟨0, _, ⟨Nat.le_refl _, Nat.le_refl _, fun h => absurd h (Nat.lt_irrefl 0)⟩,
      reading_ended hr hp hc, rfl, rfl⟩
  | cons m ms ih =>
    have hm := hms m List.mem_cons_self
    rw [encodeAll_cons] at hc
    by_cases hle : m.encode.length ≤ cut
    · obtain ⟨cut, rfl⟩ := Nat.exists_eq_add_of_le hle
      rw [length_encodeAll_cons] at hcut
      rw [List.take_length_add_append] at hc
      rw [← List.append_nil ds] at hr
      obtain ⟨left, hpl, hcl, ha⟩ := answer_read_arrived hm hr hl hp hc
      rw [List.append_nil] at ha
      obtain ⟨k, out, hk, hread, hend⟩ := ih (fun m hm => hms m (List.mem_cons_of_mem _ hm)) (by omega)
        (hr.advance _ left) hl hpl hcl
      refine ⟨k + 1, out, hk.succ, .next (ReadM.run_of_answer_ok ha) hread, ?_⟩
      rw [List.take_succ_cons, length_encodeAll_cons]
      simpa using hend
    · have hlt : cut < m.encode.length := Nat.lt_of_not_le hle
      rw [List.take_append_of_le_length (Nat.le_of_lt hlt)] at hc
      by_cases hpos : cut = 0
      · subst hpos
        exact ⟨0, _, .zero hlt, reading_ended hr hp hc, rfl, rfl⟩
      · obtain ⟨e, r', hrun, he⟩ := ReadM.run_of_answer_error
          (answer_read_cut hm hr hl hp (Nat.pos_of_ne_zero hpos) hlt hc)
        exact ⟨0, _, .zero hlt, .failed hrun, by simpa [encodeAll] using hpos, Ber.Error.truncated_of_kind he⟩

/-- On a stream that is cut, repeated reading gives the messages that lie wholly before the cut and no
others. It ends properly if the cut is between messages, and is reported as truncation otherwise. -/
theorem reading_cut (ms : List Message) (hms : ∀ m ∈ ms, m.Encodable) (cut : Nat)
    (hcut : cut ≤ (encodeAll ms).length) (hp : Plain ds) (hc : content ds = (encodeAll ms).take cut)
    (hr : r.At ds) (hl : r.limit = Ber.maxLength) : ∃ k out, Whole ms cut k ∧
      (∀ ms' out', Reading r ms' out' ↔ ms' = ms.take k ∧ out' = out) ∧
      Ends (cut = (encodeAll (ms.take k)).length) out := by
  obtain ⟨k, out, hk, hread, hend⟩ := exists_reading ms hms hcut hr hl hp hc
  refine ⟨k, out, hk, fun ms' out' => ⟨fun h => h.unique hread, ?_⟩, hend⟩
  rintro ⟨rfl, rfl⟩
  exact hread

theorem reading_cut_unbind : let m : Message := ⟨3, .unbindRequest, []⟩
    ∃ k out, Whole [m, m] 9 k ∧
      (∀ ms' out', Reading (Reader.ofBytes ((encodeAll [m, m]).take 9)) ms' out' ↔
        ms' = [m, m].take k ∧ out' = out) ∧
      Ends (9 = (encodeAll ([m, m].take k)).length) out := by
  intro m
  have h : m.Encodable := ⟨trivial, by decide⟩
  exact reading_cut [m, m] (by simp [h]) 9 (by decide) (by decide) (List.append_nil _) ⟨rfl, rfl⟩ rfl

end Message

end Ldap
