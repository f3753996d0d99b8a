import Ldap.Control.Request
import Ldap.Proofs.Filter.Nesting

/-! The values of request controls. Each kind of control has a value of its own shape, with parts that may be left
out, and the value is decoded to what it was written from. -/

namespace Ldap

open Ber (Item ReadM Reader Reads Finds Delivery)
open Ber.Delivery (Plain content)

variable {limit stop : Nat}

/-! ### Values -/

namespace Control

variable {α : Type} {a : α} {p : ReadM α} {item : Item} {c : Control}

/-- A step that takes all of the bytes leaves none, so that the value may end there. -/
theorem decodeValue_of_meets {cells : List Ber.Cell} (hp : ∀ stop, Ber.Meets Ber.maxLength stop p cells (.ok a))
    (hv : c.value = some (cells.map Ber.Cell.byte)) : c.decodeValue p = .ok a := by
  obtain ⟨left, hleft, hempty, hread⟩ := Ber.Meets.answer_arrived hp rfl (Reader.at_ofBytes _)
    (Delivery.plain_bytes _) ((Delivery.content_bytes _).trans (List.append_nil _).symm)
  have hr := (Reader.at_ofBytes (cells.map Ber.Cell.byte)).advance (cells.map Ber.Cell.byte).length left
  generalize (Reader.ofBytes (cells.map Ber.Cell.byte)).advance _ left = r at hread hr
  have hnone : (readOnly p).answer (Reader.ofBytes (cells.map Ber.Cell.byte)) = .ok (a, r.close) := by
    rw [readOnly, ReadM.answer_bind_ok hread, ReadM.answer_bind_ok (hr.answer_element? hleft hempty)]
    rfl
  rw [decodeValue, requiredValue, hv]
  simp only [Except.ok_bind, ReadM.run_of_answer_ok hnone]

theorem decodeValue_eq (hp : ∀ stop, Finds Ber.maxLength stop p [item] (.ok a))
    (hl : item.toBytes.length ≤ Ber.maxLength) (hv : c.value = some item.toBytes) : c.decodeValue p = .ok a := by
  rw [Item.toBytes_eq_encode, ← Item.byte_cells, ← Item.cellsAll_singleton] at hl hv
  rw [List.length_map] at hl
  exact decodeValue_of_meets (fun stop => (hp stop).meets (Nat.le_min.mpr ⟨hl, hl⟩)) hv

theorem reads_name (name : String) : Reads limit stop readName [.sequence [.ofText name]] name :=
  Reads.sequence_bind fun _ _ => Reads.text _ name

theorem reads_names (names : List String) :
    Reads limit stop readNames [.sequence (names.map .ofText)] names :=
  Reads.sequence_listOf fun name _ _ => Reads.text _ name

/-- The value of a control about pages: a size, and the cookie to resume from. -/
def pageItem (size : Int32) (cookie : List UInt8) : Item := .sequence [.ofInt32 size, .ofBytes cookie]

theorem reads_page (size : Int32) (cookie : List UInt8) :
    Reads limit stop readPage [pageItem size cookie] (.pagedResults size cookie) := by
  refine Reads.sequence_bind fun s hs => ?_
  refine Reads.bind_cons (fun _ => Reads.integer _ size) ?_
  exact Reads.map (Reads.octets _ cookie)

end Control

/-! ### Sort keys -/

namespace SortKey

/-- What follows the attribute of a key are its rule and the mark that it is reversed, each if it has one. -/
theorem folds (k : SortKey) : Finds.Folds limit readComponent { name := k.name }
    ((k.rule.map (Item.text ruleTag)).toList ++ if k.reverse then [.boolean reverseTag true] else []) (.ok k) := by
  obtain ⟨name, rule, reverse⟩ := k
  have hrule : Finds.Folds limit readComponent { name := name } (rule.map (Item.text ruleTag)).toList
      (.ok ⟨name, rule, false⟩) :=
    .optional (mk name · false) rfl (fun given _ => Finds.peek_bind (Finds.map (Reads.text _ given).finds)) rule
  have hreverse : Finds.Folds limit readComponent ⟨name, rule, false⟩
      (if reverse then [.boolean reverseTag true] else []) (.ok ⟨name, rule, reverse⟩) := by
    cases reverse with
    | false => exact .nil _
    | true => exact .cons (fun _ => Finds.peek_bind (Finds.map (Reads.boolean _ true).finds)) (.nil _)
  exact hrule.append hreverse

theorem finds (k : SortKey) : Finds limit stop read [k.toItem] (.ok k) := by
  refine Finds.sequence_all (Finds.bind_cons (fun _ => (Reads.text _ k.name).finds) ?_)
  exact Finds.components rfl (by simp [Item.cellsAll]) k.folds

theorem finds_list {keys : List SortKey} (h : keys ≠ []) :
    Finds limit stop readList [.sequence (keys.map toItem)] (.ok keys) := by
  refine Finds.sequence_listOf_bind (fun k _ _ => k.finds) ?_
  rw [if_neg (by simpa using h)]
  exact Finds.pure keys

end SortKey

/-! ### List views -/

namespace ListView

theorem finds_target (target : ViewTarget) : Finds limit stop readTarget [targetItem target] (.ok target) := by
  refine Finds.peek_bind ?_
  cases target with
  | byOffset offset contentCount =>
    refine (Reads.sequence_bind fun s hs => ?_).finds
    exact Reads.bind_cons (fun _ => Reads.integer _ offset) (Reads.map (Reads.integer _ contentCount))
  | greaterOrEqual value => exact Finds.map (Reads.octets _ value).finds

/-- What stands in front of the context. -/
def front (v : ListView) : List Item := [.ofInt32 v.before, .ofInt32 v.after, targetItem v.target]

theorem finds_front {β : Type} {v : ListView} {rest : Int32 → Int32 → ViewTarget → ReadM β} {items : List Item}
    {x : Except Ber.Error β} (h : Finds limit stop (rest v.before v.after v.target) items x) :
    Finds limit stop (do rest (← ReadM.integer) (← ReadM.integer) (← readTarget)) (v.front ++ items) x := by
  refine Finds.bind_cons (fun _ => (Reads.integer _ v.before).finds) ?_
  refine Finds.bind_cons (fun _ => (Reads.integer _ v.after).finds) ?_
  exact Finds.bind_cons (fun _ => finds_target v.target) h

theorem finds_context {v : ListView} {context : List UInt8} (h : v.context = some context) :
    Finds limit stop
      (do let context ← some <$> ReadM.octets; return (⟨v.before, v.after, v.target, context⟩ : ListView))
      [.ofBytes context] (.ok v) := by
  obtain ⟨before, after, target, _⟩ := v
  obtain rfl := h
  rw [map_eq_pure_bind]
  exact Finds.bind_cons (fun _ => Finds.map (Reads.octets _ context).finds) (Finds.pure _)

theorem finds (v : ListView) : Finds limit stop read [v.toItem] (.ok v) := by
  refine Finds.sequence_all (finds_front (Finds.more_all rfl ?_))
  cases hc : v.context with
  | none =>
    obtain ⟨before, after, target, _⟩ := v
    obtain rfl := hc
    exact Finds.pure _
  | some context => exact finds_context hc

end ListView

/-! ### Controls -/

namespace RequestControl

/-- What a client can send so that it is understood: a sort request has keys, an assertion holds a filter that is
read back, and the value is no longer than a length can tell. -/
structure Encodable (r : RequestControl) : Prop where
  keys_ne_nil : ∀ keys, r = .sort keys → keys ≠ []
  decodable : ∀ filter, r = .assertion filter → filter.Decodable
  length_le : ∀ value, r.value? = some value → value.length ≤ Ber.maxLength

/-- A control is decoded to what it was written from. -/
theorem decode_toControl (r : RequestControl) (h : r.Encodable) (critical : Bool) :
    (r.toControl critical).decode r.kind = .ok r := by
  have hvalue {α : Type} {p : ReadM α} {a : α} {item : Item} (f : α → RequestControl)
      (hp : ∀ stop, Finds Ber.maxLength stop p [item] (.ok a)) (hv : r.value? = some item.toBytes) :
      f <$> (r.toControl critical).decodeValue p = .ok (f a) := by
    rw [Control.decodeValue_eq hp (h.length_le _ hv) hv]
    rfl
  cases r with
  | proxiedAuthorizationV1 dn => exact hvalue _ (fun _ => (Control.reads_name dn).finds) rfl
  | proxiedAuthorizationV2 authzid =>
    simp [Control.decode, Control.requiredValue, kind, toControl, value?, Ber.utf8Text?_utf8Bytes]
  | pagedResults size cookie =>
    exact Control.decodeValue_eq (fun _ => (Control.reads_page size cookie).finds) (h.length_le _ rfl) rfl
  | sort keys => exact hvalue _ (fun _ => SortKey.finds_list (h.keys_ne_nil keys rfl)) rfl
  | listView view => exact hvalue _ (fun _ => view.finds) rfl
  | subentriesVisibility visible => exact hvalue _ (fun _ => (Reads.boolean _ visible).finds) rfl
  | postRead attributes => exact hvalue _ (fun _ => (Control.reads_names attributes).finds) rfl
  | preRead attributes => exact hvalue _ (fun _ => (Control.reads_names attributes).finds) rfl
  | assertion filter =>
    obtain ⟨hdepth, ht⟩ := (Filter.decodable_iff (h.length_le _ rfl)).mp (h.decodable filter rfl)
    exact hvalue _ (fun stop => (Filter.reads_levels _ filter hdepth ht stop).finds) rfl
  | _ => rfl

end RequestControl

end Ldap
