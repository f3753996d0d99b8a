import Ldap.Extended.PasswordModify
import Ldap.Proofs.Control.Value
import Ldap.Proofs.Filter.Framing

/-! Where the values of requests end. A value that is read as one element has to be that element and nothing else, but
not all readers hold it to that: some do not look at its declared length again, and a request to change a password may
have anything behind it. -/

namespace Ldap

open Ber (Cell Element Item ReadM Reader Reads Finds Meets Consumes EndsAt IsElement Delivery)
open Ber.Item (cellsAll)
open Ber.Length (Declares)
open Ber.Delivery (Plain content)

variable {limit stop n : Nat} {header value : List UInt8}

/-! ### Readers -/

namespace SortKey

theorem consumes_component (k : SortKey) : Consumes k.readComponent fun _ => IsElement := by
  refine Consumes.peek_bind fun tag? => ?_
  split
  · exact Consumes.map Consumes.text
  split
  · exact Consumes.map Consumes.boolean
  · exact Consumes.throw _

theorem consumes : Consumes read fun _ => IsElement :=
  Consumes.sequence_bind_end fun _ => EndsAt.bind Consumes.text fun _ =>
    EndsAt.components (fun k => (consumes_component k).ne_nil) _

theorem consumes_list : Consumes readList fun _ => IsElement := by
  have hchecked (keys : List SortKey) : Consumes (do
      if keys.isEmpty then throw (.malformed "sort request has no sort keys")
      return keys) fun _ taken => taken = [] ∧ True := by
    split
    · exact Consumes.throw_bind _ _
    · exact (Consumes.pure _).of_imp fun _ _ h => ⟨h.2, trivial⟩
  exact (Consumes.sequence_bind_end fun bounds => (EndsAt.listOf consumes.ne_nil).bind_still hchecked).of_imp
    fun _ _ h => h.1

end SortKey

namespace ListView

/-- What is declared for an offset is not looked at again. -/
theorem consumes_target : Consumes readTarget fun _ _ => True := by
  refine Consumes.peek_bind fun tag? => ?_
  split
  · exact (Consumes.sequence_bind fun _ => Consumes.integer.bind fun _ => Consumes.map
      (R := fun _ => IsElement) Consumes.integer).of_imp fun _ _ _ => trivial
  split
  · exact (Consumes.map (R := fun _ => IsElement) Consumes.octets).of_imp fun _ _ _ => trivial
  · exact Consumes.throw _

/-- The declared length is looked at in front of the context, and not behind it. -/
theorem consumes : Consumes read fun v taken => v.context = none → IsElement taken := by
  refine Consumes.sequence_bind_end (E := fun (v : ListView) ended => v.context = none → ended) fun bounds =>
    EndsAt.bind Consumes.integer fun before => EndsAt.bind Consumes.integer fun after =>
    EndsAt.bind consumes_target fun target => EndsAt.more_bind ?_ ?_
  · simp only [if_true, map_eq_pure_bind, bind_assoc, pure_bind]
    exact Consumes.map (Consumes.octets.of_imp fun _ _ _ _ h => nomatch h)
  · exact (Consumes.pure _).of_imp fun _ _ h => ⟨h.2, fun _ => trivial⟩

/-- The context is not read if no more is declared than stands in front of it. -/
theorem meets_front {v : ListView} {tag : UInt8} (hd : Declares header n)
    (hl : (Item.encodeAll v.front).length ≤ Ber.maxLength) (hn : n ≤ (Item.encodeAll v.front).length) :
    Meets Ber.maxLength stop read (⟨tag, true⟩ :: Cell.later header ++ cellsAll v.front)
      (if n = (Item.encodeAll v.front).length then .ok { v with context := none }
        else .error (.sequenceOverrun n)) := by
  rw [← Item.length_cellsAll] at *
  refine Meets.sequence_bind hd hd.le_maxLength fun s hs => ?_
  rw [← List.append_nil v.front]
  refine (finds_front fun _ => ?_).meets (by rwa [List.append_nil, Nat.min_self])
  rw [List.append_nil]
  split
  · exact Meets.more_at (by simp [cellsAll]; omega) (Meets.pure _)
  · exact Meets.more_behind (by simp [cellsAll]; omega)

end ListView

namespace Control

variable {α : Type} {p : ReadM α} {a : α} {c : Control}

theorem pending_of_element? {r r' : Reader} (h : ReadM.element?.answer r = .ok (none, r')) : r.pending = [] := by
  obtain ⟨tag?, s, htag, h⟩ := ReadM.answer_bind_inv h
  cases tag? with
  | some tag =>
    obtain ⟨length, s', -, h⟩ := ReadM.answer_bind_inv h
    obtain ⟨value, s'', -, h⟩ := ReadM.answer_bind_inv h
    cases h
  | none =>
    rw [ReadM.answer_tag?] at htag
    cases hf : r.fetch true with
    | ok x =>
      rw [hf] at htag
      cases htag
    | error e =>
      rw [hf] at htag
      cases e with
      | truncated part => exact Reader.pending_of_fetch_ended hf
      | _ => cases htag

/-- A value that is decoded has been taken to its end. -/
theorem answer_of_decodeValue (h : c.decodeValue p = .ok a) (hv : c.value = some value) :
    ∃ r, p.answer (Reader.ofBytes value) = .ok (a, r) ∧ r.pending = [] := by
  rw [decodeValue, requiredValue, hv] at h
  simp only [Except.ok_bind] at h
  split at h
  · rename_i a' r' hrun
    obtain rfl := Except.ok.inj h
    have ha : (readOnly p).answer (Reader.ofBytes value) = .ok (a', r') := by rw [ReadM.answer, hrun]
    obtain ⟨a, r, hp, ha⟩ := ReadM.answer_bind_inv ha
    obtain ⟨e?, s, helement, ha⟩ := ReadM.answer_bind_inv ha
    cases e? with
    | some e => cases ha
    | none =>
      cases ha
      exact ⟨r, hp, pending_of_element? helement⟩
  · cases h

theorem consumed_of_decodeValue {Q : α → List UInt8 → Prop} (hp : Consumes p Q) (h : c.decodeValue p = .ok a)
    (hv : c.value = some value) : Q a value := by
  obtain ⟨r, hread, hend⟩ := answer_of_decodeValue h hv
  obtain ⟨taken, hpasses, hq⟩ := hp _ (Nat.le_refl _) a r hread
  have hbytes : (Reader.ofBytes value).pending = value := Delivery.content_bytes value
  have hall := hpasses.pending
  rw [hbytes, hend, List.append_nil] at hall
  exact hall ▸ hq

theorem consumes_names : Consumes readNames fun _ => IsElement :=
  Consumes.sequence_bind_end fun _ => EndsAt.listOf Consumes.text.ne_nil

end Control

namespace PasswordModify

theorem consumes_component (q : PasswordModify) : Consumes q.readComponent fun _ => IsElement := by
  refine Consumes.peek_bind fun tag? => ?_
  split
  · exact Consumes.map Consumes.text
  split
  · exact Consumes.map Consumes.octets
  split
  · exact Consumes.map Consumes.octets
  · exact Consumes.throw _

theorem consumes : Consumes read fun _ => IsElement :=
  Consumes.sequence_bind_end fun _ => EndsAt.components (fun q => (consumes_component q).ne_nil) {}

end PasswordModify

/-! ### Controls -/

/-- The kinds of control whose value is an element. -/
def ControlKind.hasElement : ControlKind → Bool
  | .proxiedAuthorizationV1 | .pagedResults | .sort | .listView | .subentriesVisibility | .postRead | .preRead
  | .assertion => true
  | _ => false

namespace RequestControl

/-- The declared length of the value is not compared with all that was read. -/
def Loose : RequestControl → Prop
  | .proxiedAuthorizationV1 _ | .pagedResults .. => True
  | .listView view => view.context ≠ none
  | .assertion filter => ¬ filter.Bounded
  | _ => False

theorem consumes_page : Consumes Control.readPage fun (r : RequestControl) _ => r.Loose := by
  refine (Consumes.sequence_bind fun _ => Consumes.integer.bind fun size => Consumes.map (g := pagedResults size)
    (R := fun (r : RequestControl) _ => r.Loose) (Consumes.octets.of_imp fun _ _ _ => trivial)).of_imp ?_
  rintro r _ ⟨_, _, _, _, -, -, _, _, _, -, -, hr⟩
  exact hr

/-- A value that is decoded is an element, but for the readers that are loose. -/
theorem isElement_of_decode {kind : ControlKind} {c : Control} {r : RequestControl} (hk : kind.hasElement)
    (hv : c.value = some value) (h : c.decode kind = .ok r) (hr : ¬ r.Loose) : IsElement value := by
  cases kind with
  | proxiedAuthorizationV1 =>
    obtain ⟨dn, -, rfl⟩ := Except.map_eq_ok_iff.mp h
    exact absurd trivial hr
  | pagedResults => exact absurd (Control.consumed_of_decodeValue consumes_page h hv) hr
  | sort =>
    obtain ⟨keys, hvalue, rfl⟩ := Except.map_eq_ok_iff.mp h
    exact Control.consumed_of_decodeValue SortKey.consumes_list hvalue hv
  | listView =>
    obtain ⟨view, hvalue, rfl⟩ := Except.map_eq_ok_iff.mp h
    exact Control.consumed_of_decodeValue ListView.consumes hvalue hv (not_not.mp hr)
  | subentriesVisibility =>
    obtain ⟨visible, hvalue, rfl⟩ := Except.map_eq_ok_iff.mp h
    exact Control.consumed_of_decodeValue Consumes.boolean hvalue hv
  | postRead | preRead =>
    obtain ⟨names, hvalue, rfl⟩ := Except.map_eq_ok_iff.mp h
    exact Control.consumed_of_decodeValue Control.consumes_names hvalue hv
  | assertion =>
    obtain ⟨filter, hvalue, rfl⟩ := Except.map_eq_ok_iff.mp h
    exact (Control.consumed_of_decodeValue (Filter.consumes_levels (Filter.maxDepth + 1)) hvalue hv).1 (not_not.mp hr)
  | _ => cases hk

/-! ### Loose values -/

/-- The least length that the value of a loose control has to declare: the context of a list view is read if more is
declared than stands in front of it. -/
def reach : RequestControl → Nat
  | .listView view => (Item.encodeAll view.front).length + 1
  | _ => 0

/-- The value of a control is told from its bytes. -/
theorem eq_of_value {r : RequestControl} {e : Element} {item : Item} (hr : r.Encodable) (he : r.value? = some e.encode)
    (hv : r.value? = some item.toBytes) : e = ⟨item.tag, item.value⟩ := by
  refine Element.encode_inj ?_ (hr.length_le _ he)
  rw [← Item.encode_eq, ← Item.toBytes_eq_encode]
  exact Option.some.inj (he.symm.trans hv)

theorem byte_declared (tag : UInt8) (header : List UInt8) (items : List Item) :
    (⟨tag, true⟩ :: Cell.later header ++ cellsAll items).map Cell.byte = tag :: (header ++ Item.encodeAll items) := by
  simp [Item.byte_cellsAll]

section

variable {α : Type} {p : ReadM α} {f : Ber.Bounds → ReadM α} {a : α} {tag : UInt8} {items : List Item} {c : Control}
  (hd : Declares header n) (hl : (Item.encodeAll items).length ≤ Ber.maxLength)
  (hc : c.value = some (tag :: (header ++ Item.encodeAll items)))
include hd hl hc

/-- A sequence that is read to its last item, whatever it declares. -/
theorem decodeValue_declared (hf : ∀ stop s, s + (cellsAll items).length = stop →
    Finds Ber.maxLength stop (f ⟨tag, n, s + n⟩) items (.ok a)) : c.decodeValue (ReadM.sequence >>= f) = .ok a := by
  rw [← Item.length_cellsAll] at hl
  refine Control.decodeValue_of_meets (fun stop => Meets.sequence_bind hd hd.le_maxLength fun s hs => ?_)
    (hc.trans (congrArg some (byte_declared tag header items).symm))
  exact (hf stop s hs).meets (Nat.le_min.mpr ⟨hl, hl⟩)

end

theorem decode_listView_iff {view : ListView} {context : List UInt8} {c : Control} {tag : UInt8}
    (hv : view.context = some context) (hd : Declares header n)
    (hl : (Item.encodeAll (view.front ++ [.ofBytes context])).length ≤ Ber.maxLength)
    (hc : c.value = some (tag :: (header ++ Item.encodeAll (view.front ++ [.ofBytes context])))) :
    c.decodeValue ListView.read = .ok view ↔ (Item.encodeAll view.front).length < n := by
  constructor
  · intro h
    by_contra hn
    obtain ⟨r, hread, hend⟩ := Control.answer_of_decodeValue h hc
    rw [Item.encodeAll_append] at hl hread
    rw [List.length_append] at hl
    obtain ⟨left, -, htail, hshort⟩ := Meets.answer_arrived (r := Reader.ofBytes _)
      (fun stop => ListView.meets_front hd (by omega) (Nat.not_lt.mp hn)) (byte_declared tag header view.front)
      (Reader.at_ofBytes _) (Delivery.plain_bytes _)
      (show content [.bytes (tag :: (header ++ (Item.encodeAll view.front ++ Item.encodeAll [.ofBytes context])))] =
        tag :: (header ++ Item.encodeAll view.front) ++ Item.encodeAll [.ofBytes context] by
          rw [Delivery.content_bytes]; simp)
    rw [hread] at hshort
    split at hshort
    · -- the context is left over
      obtain ⟨-, rfl⟩ := Prod.mk.inj (Except.ok.inj hshort)
      rw [Reader.pending_of_none ((Reader.at_ofBytes _).advance _ left).lookahead] at hend
      have hempty := htail.symm.trans hend
      cases hempty
    · cases hshort
  · intro hn
    refine decodeValue_declared hd hl hc fun stop s hs => ListView.finds_front fun hlim => ?_
    refine Meets.more_within ?_ ((ListView.finds_context hv).meets hlim)
    rw [← Item.length_cellsAll] at hn
    rw [Item.cellsAll_append, List.length_append] at hs
    dsimp only
    omega

/-- The value of a loose control is decoded under every header that reaches as far as it has to. -/
theorem decode_loose_iff {r : RequestControl} {e : Element} {c : Control} (hr : r.Loose) (hencodable : r.Encodable)
    (he : r.value? = some e.encode) (hd : Declares header n) (hc : c.value = some (e.tag :: (header ++ e.value))) :
    c.decode r.kind = .ok r ↔ r.reach ≤ n := by
  have hl : e.value.length ≤ Ber.maxLength := by
    have := hencodable.length_le _ he
    rw [Element.length_encode] at this
    omega
  cases r with
  | proxiedAuthorizationV1 dn =>
    obtain rfl := eq_of_value hencodable he rfl
    refine iff_of_true ?_ (Nat.zero_le _)
    have hvalue : c.decodeValue Control.readName = .ok dn := decodeValue_declared hd hl hc
      fun _ _ _ => (Reads.text _ dn).finds
    rw [kind, Control.decode, hvalue]
    rfl
  | pagedResults size cookie =>
    obtain rfl := eq_of_value hencodable he rfl
    refine iff_of_true ?_ (Nat.zero_le _)
    exact decodeValue_declared hd hl hc fun _ _ _ => Finds.bind_cons (fun _ => (Reads.integer _ size).finds)
      (Finds.map (Reads.octets _ cookie).finds)
  | listView view =>
    obtain rfl := eq_of_value hencodable he rfl
    obtain ⟨context, hcontext⟩ := Option.ne_none_iff_exists'.mp hr
    have hitems : view.toItem.value = Item.encodeAll (view.front ++ [.ofBytes context]) := by
      rw [ListView.toItem, hcontext]
      rfl
    rw [hitems] at hl hc
    rw [reach, Nat.succ_le_iff, ← decode_listView_iff hcontext hd hl hc]
    constructor
    · intro h
      obtain ⟨_, hdecoded, heq⟩ := Except.map_eq_ok_iff.mp h
      exact listView.inj heq ▸ hdecoded
    · intro h
      rw [kind, Control.decode, h]
      rfl
  | assertion filter =>
    obtain rfl := eq_of_value hencodable he rfl
    refine iff_of_true ?_ (Nat.zero_le _)
    obtain ⟨components, hvalue, hmeets⟩ := Filter.meets_unbounded hr hd hd.le_maxLength
      (Nat.le_min.mpr ⟨hl, hl⟩) Filter.maxDepth
    have hbytes := byte_declared filter.toItem.tag header components
    rw [← Item.byte_cellsAll, ← hvalue] at hbytes
    have hdecoded : c.decodeValue Filter.read = .ok filter :=
      Control.decodeValue_of_meets hmeets (hc.trans (congrArg some hbytes.symm))
    rw [kind, Control.decode, hdecoded]
    rfl
  | _ => exact hr.elim

end RequestControl

/-! ### Changes of passwords -/

namespace PasswordModify

variable {q : PasswordModify} {rest : List UInt8}

/-- The components of a request, as they are written. -/
def items (q : PasswordModify) : List Item :=
  (q.identity.map (Item.text identityTag)).toList ++ (q.oldPassword.map (Item.octets oldPasswordTag)).toList
    ++ (q.newPassword.map (Item.octets newPasswordTag)).toList

theorem folds (q : PasswordModify) : Finds.Folds limit readComponent {} q.items (.ok q) := by
  obtain ⟨identity, oldPassword, newPassword⟩ := q
  have hidentity : Finds.Folds limit readComponent {} (identity.map (Item.text identityTag)).toList
      (.ok ⟨identity, none, none⟩) :=
    .optional (mk · none none) rfl (fun given _ => Finds.peek_bind (Finds.map (Reads.text _ given).finds)) _
  have hold : Finds.Folds limit readComponent ⟨identity, none, none⟩
      (oldPassword.map (Item.octets oldPasswordTag)).toList (.ok ⟨identity, oldPassword, none⟩) :=
    .optional (mk identity · none) rfl (fun given _ => Finds.peek_bind (Finds.map (Reads.octets _ given).finds)) _
  have hnew : Finds.Folds limit readComponent ⟨identity, oldPassword, none⟩
      (newPassword.map (Item.octets newPasswordTag)).toList (.ok ⟨identity, oldPassword, newPassword⟩) :=
    .optional (mk identity oldPassword ·) rfl
      (fun given _ => Finds.peek_bind (Finds.map (Reads.octets _ given).finds)) _
  exact (hidentity.append hold).append hnew

/-- A request that is decoded is an element with any bytes behind it. -/
theorem front_of_decode (h : decode value = .ok q) :
    ∃ front rest, value = front ++ rest ∧ IsElement front ∧ (IsElement value ↔ rest = []) := by
  unfold decode at h
  split at h
  · rename_i r hrun
    cases h
    have ha : read.answer (Reader.ofBytes value) = .ok (q, r) := by rw [ReadM.answer, hrun]
    obtain ⟨front, hpasses, hfront⟩ := consumes _ (Nat.le_refl _) q r ha
    have hbytes : value = front ++ r.pending := by
      rw [← hpasses.pending]
      exact (Delivery.content_bytes value).symm
    exact ⟨front, r.pending, hbytes, hfront, hbytes ▸ hfront.append_iff⟩
  · cases h

theorem decode_encode_append (hl : q.encode.length ≤ Ber.maxLength) (rest : List UInt8) :
    decode (q.encode ++ rest) = .ok q := by
  have hfinds : ∀ stop, Finds Ber.maxLength stop read [.sequence q.items] (.ok q) := fun stop =>
    Finds.sequence_all (Finds.components rfl (Nat.le_refl _) q.folds)
  have hencode : q.encode = (Item.sequence q.items).encode := Item.toBytes_eq_encode _
  rw [hencode] at hl ⊢
  obtain ⟨left, -, -, hread⟩ := Finds.answer_arrived hfinds (Reader.at_ofBytes _) (Delivery.plain_bytes _)
    (Delivery.content_bytes _) (Nat.le_min.mpr ⟨hl, hl⟩)
  rw [decode, ReadM.run_of_answer_ok hread]

end PasswordModify

/-! ### Values in general -/

/-- A value that a control is decoded from is exactly one element, unless the control is loose. Then the header in
front of its contents may declare any length that reaches far enough, and makes an element of it only with the right
one. What a request to change a password is decoded from is an element, with any bytes behind it. -/
theorem decode_framing (value : List UInt8) :
    (∀ (kind : ControlKind) (c : Control) (r : RequestControl), kind.hasElement → c.value = some value →
      c.decode kind = .ok r → ¬ r.Loose → IsElement value) ∧
    (∀ (r : RequestControl) (e : Element) (header : List UInt8) (n : Nat) (c : Control), r.Loose → r.Encodable →
      r.value? = some e.encode → Declares header n → value = e.tag :: (header ++ e.value) → c.value = some value →
        (c.decode r.kind = .ok r ↔ r.reach ≤ n) ∧ (IsElement value ↔ n = e.value.length)) ∧
    (∀ q : PasswordModify, PasswordModify.decode value = .ok q →
      ∃ front rest, value = front ++ rest ∧ IsElement front ∧ (IsElement value ↔ rest = [])) ∧
    ∀ (q : PasswordModify) (rest : List UInt8), q.encode.length ≤ Ber.maxLength → value = q.encode ++ rest →
      PasswordModify.decode value = .ok q := by
  refine ⟨fun kind c r hk hv h hr => RequestControl.isElement_of_decode hk hv h hr, ?_,
    fun q h => PasswordModify.front_of_decode h, ?_⟩
  · rintro r e header n c hr hencodable he hd rfl hc
    exact ⟨RequestControl.decode_loose_iff hr hencodable he hd hc, IsElement.iff_of_declares hd⟩
  · rintro q rest hl rfl
    exact PasswordModify.decode_encode_append hl rest

/-- The names for a read entry, a name to act as in a sequence that declares two bytes of its five, and a request to
change a password with a byte behind it. -/
theorem decode_framing_names :
    let names : Control := ⟨ControlKind.preRead.oid, true, some [0x30, 0x04, 0x04, 0x02, 0x63, 0x6E]⟩
    let name : Control :=
      ⟨ControlKind.proxiedAuthorizationV1.oid, true, some [0x30, 0x02, 0x04, 0x03, 0x6F, 0x3D, 0x78]⟩
    let q : PasswordModify := { newPassword := some [0x61] }
    (names.decode .preRead = .ok (.preRead ["cn"]) ∧ IsElement [0x30, 0x04, 0x04, 0x02, 0x63, 0x6E]) ∧
      (name.decode .proxiedAuthorizationV1 = .ok (.proxiedAuthorizationV1 "o=x") ∧
        ¬ IsElement [0x30, 0x02, 0x04, 0x03, 0x6F, 0x3D, 0x78]) ∧
      PasswordModify.decode [0x30, 0x03, 0x82, 0x01, 0x61, 0xFF] = .ok q ∧
      ∃ front rest, [0x30, 0x03, 0x82, 0x01, 0x61, 0xFF] = front ++ rest ∧ IsElement front ∧
        (IsElement [0x30, 0x03, 0x82, 0x01, 0x61, 0xFF] ↔ rest = []) := by
  intro names name q
  have hnames : names.decode .preRead = .ok (.preRead ["cn"]) := rfl
  have hencodable : (RequestControl.proxiedAuthorizationV1 "o=x").Encodable := by
    refine ⟨nofun, nofun, ?_⟩
    rintro value ⟨⟩
    decide +kernel
  obtain ⟨hstrict, -⟩ := decode_framing [0x30, 0x04, 0x04, 0x02, 0x63, 0x6E]
  obtain ⟨hread, helement⟩ := (decode_framing [0x30, 0x02, 0x04, 0x03, 0x6F, 0x3D, 0x78]).2.1
    (.proxiedAuthorizationV1 "o=x") ⟨0x30, [0x04, 0x03, 0x6F, 0x3D, 0x78]⟩ [0x02] 2 name trivial hencodable rfl
    (.short (by decide)) rfl rfl
  obtain ⟨-, -, hfront, hbehind⟩ := decode_framing [0x30, 0x03, 0x82, 0x01, 0x61, 0xFF]
  have hq : PasswordModify.decode [0x30, 0x03, 0x82, 0x01, 0x61, 0xFF] = .ok q := hbehind q [0xFF] (by decide) rfl
  exact ⟨⟨hnames, hstrict .preRead names _ rfl rfl hnames id⟩,
    ⟨hread.mpr (Nat.zero_le 2), fun h => absurd (helement.mp h) (by decide)⟩, hq, hfront q hq⟩

/-- None of these values is an element: a name whose sequence declares no bytes, a page request that declares two bytes
too many, and a request to change a password with a byte behind it. -/
theorem not_isElement_of_decode :
    let name : Control :=
      ⟨ControlKind.proxiedAuthorizationV1.oid, true, some [0x30, 0x00, 0x04, 0x03, 0x6F, 0x3D, 0x78]⟩
    let page : Control := ⟨ControlKind.pagedResults.oid, true, some [0x30, 0x07, 0x02, 0x01, 0x05, 0x04, 0x00]⟩
    (name.decode .proxiedAuthorizationV1 = .ok (.proxiedAuthorizationV1 "o=x") ∧
      ¬ IsElement [0x30, 0x00, 0x04, 0x03, 0x6F, 0x3D, 0x78]) ∧
    (page.decode .pagedResults = .ok (.pagedResults 5 []) ∧ ¬ IsElement [0x30, 0x07, 0x02, 0x01, 0x05, 0x04, 0x00]) ∧
    PasswordModify.decode [0x30, 0x00, 0xFF] = .ok {} ∧ ¬ IsElement [0x30, 0x00, 0xFF] := by
  refine ⟨⟨rfl, ?_⟩, ⟨rfl, ?_⟩, rfl, ?_⟩ <;>
  · rintro ⟨e, he⟩
    cases he

end Ldap
