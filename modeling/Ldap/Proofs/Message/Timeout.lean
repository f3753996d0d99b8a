import Ldap.Proofs.Message.Stream

/-! A timeout inside a message. It falls under the rule for timeouts in front of an element if the byte
that is waited for is the tag of an element in the message, and under the rule for later ones otherwise. -/

namespace Ldap.Message

open Ber (Reader ReadM Delivery Cell)
open Ber.Delivery (Plain content)

/-- The byte at a position of the encoding is the tag of an element. -/
def opensAt (m : Message) (p : Nat) : Bool := m.toItem.cells[p]?.any Cell.opens

/-- A reader whose transport times out between two deliveries. -/
def interrupted (before after : List Delivery) (initial later : Bool) : Reader :=
  (Reader.ofDeliveries (before ++ .timeout :: after)).setIgnoreTimeout initial later

variable {m : Message} {p : Nat} {before after : List Delivery}

/-- After a timeout the message is read if the rule for the byte that was waited for passes over it. -/
theorem answer_read_timeout (h : m.Encodable) (hpos : 0 < p) (hlt : p < m.encode.length)
    (hb : Plain before) (ha : Plain after) (hcb : content before = m.encode.take p)
    (hca : content after = m.encode.drop p) {r : Reader} (hr : r.At (before ++ .timeout :: after))
    (hl : r.limit = Ber.maxLength) :
    if r.ignores (m.opensAt p) then ∃ r', read.answer r = .ok (some m, r')
    else read.answer r = .error (.timeout (m.opensAt p)) := by
  have hne : content before ≠ [] := by
    rw [hcb]
    exact List.ne_nil_of_length_pos (by rw [List.length_take]; omega)
  have hall : content (before ++ .timeout :: after) = m.encode ++ [] := by
    rw [Ber.Delivery.content_append]
    change content before ++ content after = _
    rw [hcb, hca, List.take_append_drop, List.append_nil]
  rw [answer_read_begun h hr hl hb hne [] (hall ▸ List.prefix_refl _)]
  rw [length_encode] at hlt
  have hdrop : m.toItem.cells.drop p = m.toItem.cells[p] :: m.toItem.cells.drop (p + 1) :=
    List.drop_eq_getElem_cons hlt
  have hopens : m.opensAt p = m.toItem.cells[p].opens := by
    rw [opensAt, List.getElem?_eq_getElem hlt]
    rfl
  have hdraw : r.draw m.toItem.cells = if r.ignores (m.opensAt p)
      then (r.advance (m.toItem.cells.take p).length after).draw (m.toItem.cells.drop p)
      else .error (.timeout (m.opensAt p)) := by
    rw [hopens, hdrop, ← hr.draw_timeout hb (by rw [hcb, encode_eq, List.map_take]), ← hdrop,
      List.take_append_drop]
  rw [hdraw]
  split
  · have hat := hr.advance (m.toItem.cells.take p).length after
    rw [← List.append_nil after] at hat
    have hc : content after = (m.toItem.cells.drop p).map Cell.byte ++ [] := by
      rw [hca, encode_eq, List.map_drop, List.append_nil]
    obtain ⟨left, -, -, hd⟩ := hat.draw ha hc
    rw [List.append_nil] at hd
    exact ⟨_, by rw [hd]; rfl⟩
  · rfl

theorem ignores_interrupted (initial later opens : Bool) :
    (interrupted before after initial later).ignores opens = if opens then initial else later := rfl

theorem run_read_interrupted (h : m.Encodable) (hpos : 0 < p) (hlt : p < m.encode.length)
    (hb : Plain before) (ha : Plain after) (hcb : content before = m.encode.take p)
    (hca : content after = m.encode.drop p) (initial later : Bool) :
    if (if m.opensAt p then initial else later) then
      ∃ r', read.run (interrupted before after initial later) = .ok (some m) r'
    else ∃ r', read.run (interrupted before after initial later) = .error (.timeout (m.opensAt p)) r' := by
  have hr : (interrupted before after initial later).At (before ++ .timeout :: after) := ⟨rfl, rfl⟩
  have hread := answer_read_timeout h hpos hlt hb ha hcb hca hr rfl
  rw [ignores_interrupted] at hread
  by_cases hi : (if m.opensAt p then initial else later) = true
  · rw [if_pos hi] at hread ⊢
    obtain ⟨r', hread⟩ := hread
    exact ⟨r', ReadM.run_of_answer_ok hread⟩
  · rw [if_neg hi] at hread ⊢
    obtain ⟨e, r', hrun, he⟩ := ReadM.run_of_answer_error hread
    obtain rfl := Ber.Error.eq_timeout_of_kind he
    exact ⟨r', hrun⟩

/-- The timeout is taken as one in front of an element, or as a later one: it is reported as such if that
kind of timeout is not passed over, and otherwise the message is read. -/
structure TakenAs (opens : Bool) (m : Message) (before after : List Delivery) : Prop where
  reported : ∃ r', read.run (interrupted before after (!opens) opens) = .error (.timeout opens) r'
  passed : ∃ r', read.run (interrupted before after opens (!opens)) = .ok (some m) r'

/-- A timeout behind the first byte of a message is taken as a later one just if the byte that is waited
for is not the tag of an element, and as one in front of an element just if it is. -/
theorem takenAs_iff (m : Message) (h : m.Encodable) (p : Nat) (hpos : 0 < p) (hlt : p < m.encode.length)
    (before after : List Delivery) (hb : Plain before) (ha : Plain after)
    (hcb : content before = m.encode.take p) (hca : content after = m.encode.drop p) (opens : Bool) :
    TakenAs opens m before after ↔ m.opensAt p = opens := by
  have hrun := run_read_interrupted h hpos hlt hb ha hcb hca
  constructor
  · rintro ⟨⟨r', hr⟩, -⟩
    by_contra hne
    -- the rule for the other kind of timeout would have passed over it
    have hpass := hrun (!opens) opens
    rw [if_pos (by cases opens <;> simp_all)] at hpass
    obtain ⟨r'', hr'⟩ := hpass
    rw [hr] at hr'
    cases hr'
  · rintro rfl
    have hreport := hrun (!m.opensAt p) (m.opensAt p)
    have hpass := hrun (m.opensAt p) (!m.opensAt p)
    rw [if_neg (by cases m.opensAt p <;> simp)] at hreport
    rw [if_pos (by cases m.opensAt p <;> simp)] at hpass
    exact ⟨hreport, hpass⟩

theorem takenAs_iff_unbind : let m : Message := ⟨3, .unbindRequest, []⟩
    TakenAs false m [.bytes [0x30]] [.bytes [0x05, 0x02, 0x01, 0x03, 0x42, 0x00]] ↔ m.opensAt 1 = false :=
  takenAs_iff ⟨3, .unbindRequest, []⟩ ⟨trivial, by decide⟩ 1 (by decide) (by decide) _ _ (by decide)
    (by decide) rfl rfl false

/-- The third byte of this message is the tag of its identifier. A timeout in front of it is passed over
as one in front of an element, though the message has begun. -/
theorem not_takenAs_later : let m : Message := ⟨3, .unbindRequest, []⟩
    m.Encodable ∧ content [.bytes [0x30, 0x05]] = m.encode.take 2 ∧
      content [.bytes [0x02, 0x01, 0x03, 0x42, 0x00]] = m.encode.drop 2 ∧
      ¬ TakenAs false m [.bytes [0x30, 0x05]] [.bytes [0x02, 0x01, 0x03, 0x42, 0x00]] := by
  refine ⟨⟨trivial, by decide⟩, rfl, rfl, ?_⟩
  rintro ⟨⟨r', h⟩, -⟩
  have hread : read.run (interrupted [.bytes [0x30, 0x05]] [.bytes [0x02, 0x01, 0x03, 0x42, 0x00]] true false)
      = .ok (some ⟨3, .unbindRequest, []⟩)
        { source := some [], consumed := 7, ignoreInitialTimeout := true } := rfl
  rw [Bool.not_false, hread] at h
  cases h

end Ldap.Message
