import Ldap.Proofs.Ber.Meets
import Ldap.Proofs.Filter.Codec
import Mathlib.Data.List.Induction

/-! The parts of a substrings filter. They are gathered one after the other, each into the role that its tag stands for,
and a part that has no place behind those before it is refused. What is gathered is what stands in order, an initial
part, any number in the middle and a final one, and a final part followed by an initial one besides. -/

namespace Ldap.Filter

open Ber (Element ReadM Reader Meets Cell Delivery)
open Ber.Delivery (Plain content)
open Text (upperHexByte)

variable {limit stop : Nat} {components : List Element} {parts parts' : Parts} {e : Element}

namespace Parts

/-- The components that stand for parts, in order. -/
def elements (parts : Parts) : List Element :=
  (parts.initial.map (Element.mk initialTag)).toList ++ parts.any.map (Element.mk anyTag) ++
    (parts.final.map (Element.mk finalTag)).toList

/-- Gathers components one after the other. -/
def gather (parts : Parts) (components : List Element) : Except Ber.Error Parts :=
  components.foldlM (fun parts e => parts.add e.tag e.value) parts

/-- The components stand in order, or they are a final part with an initial part behind it. -/
def Gathers (components : List Element) (parts : Parts) : Prop :=
  components = parts.elements ∨
    ∃ initial final, parts = ⟨some initial, [], some final⟩ ∧ components = [⟨finalTag, final⟩, ⟨initialTag, initial⟩]

/-! ### Adding -/

/-- What the tag of a part asks of the parts before it, and what becomes of them. -/
inductive Adds : Parts → Element → Parts → Prop
  | initial (final : Option (List UInt8)) (value : List UInt8) :
    Adds ⟨none, [], final⟩ ⟨initialTag, value⟩ ⟨some value, [], final⟩
  | any (initial : Option (List UInt8)) (any : List (List UInt8)) (value : List UInt8) :
    Adds ⟨initial, any, none⟩ ⟨anyTag, value⟩ ⟨initial, any ++ [value], none⟩
  | final (initial : Option (List UInt8)) (any : List (List UInt8)) (value : List UInt8) :
    Adds ⟨initial, any, none⟩ ⟨finalTag, value⟩ ⟨initial, any, some value⟩

theorem Adds.add (h : Adds parts e parts') : parts.add e.tag e.value = .ok parts' := by
  cases h with
  | initial final value => rfl
  | any initial any value =>
    rw [Parts.add, if_neg fun h => absurd h.1 (by decide : anyTag ≠ initialTag)]
    rfl
  | final initial any value =>
    rw [Parts.add, if_neg fun h => absurd h.1 (by decide : finalTag ≠ initialTag),
      if_neg fun h => absurd h.1 (by decide : finalTag ≠ anyTag)]
    rfl

theorem adds_of_add (h : parts.add e.tag e.value = .ok parts') : Adds parts e parts' := by
  obtain ⟨initial, any, final⟩ := parts
  obtain ⟨tag, value⟩ := e
  unfold Parts.add at h
  dsimp only at h
  split at h
  · rename_i hinitial
    obtain ⟨rfl, hnone, hempty⟩ := hinitial
    obtain rfl := Option.isNone_iff_eq_none.mp hnone
    obtain rfl := List.isEmpty_iff.mp hempty
    cases h
    exact .initial final value
  split at h
  · rename_i hany
    obtain ⟨rfl, hnone⟩ := hany
    obtain rfl := Option.isNone_iff_eq_none.mp hnone
    cases h
    exact .any initial any value
  split at h
  · rename_i hfinal
    obtain ⟨rfl, hnone⟩ := hfinal
    obtain rfl := Option.isNone_iff_eq_none.mp hnone
    cases h
    exact .final initial any value
  · cases h

/-- A part that has no place is reported by its tag. -/
theorem add_eq_error {error : Ber.Error} (h : parts.add e.tag e.value = .error error) :
    error = .malformed ("unexpected substring component 0x" ++ upperHexByte e.tag) := by
  unfold Parts.add at h
  split at h
  · cases h
  split at h
  · cases h
  split at h
  · cases h
  · cases h
    rfl

/-! ### Gathering -/

theorem gather_cons (parts : Parts) (e : Element) (rest : List Element) :
    gather parts (e :: rest) = parts.add e.tag e.value >>= fun next => gather next rest :=
  List.foldlM_cons

theorem gather_append (parts : Parts) (before after : List Element) :
    gather parts (before ++ after) = gather parts before >>= fun next => gather next after :=
  List.foldlM_append

theorem Gathers.concat (h : Gathers components parts) (ha : Adds parts e parts') :
    Gathers (components ++ [e]) parts' := by
  rcases h with rfl | ⟨i, f, rfl, rfl⟩
  · cases ha with
    | initial final value =>
      cases final with
      | none => exact .inl rfl
      | some final => exact .inr ⟨value, final, rfl, rfl⟩
    | any initial any value => exact .inl (by simp [elements])
    | final initial any value => exact .inl (by simp [elements])
  · -- behind both an initial and a final part nothing has a place
    cases ha

theorem gathers_of_gather (h : gather {} components = .ok parts) : Gathers components parts := by
  induction components using List.reverseRecOn generalizing parts with
  | nil =>
    cases h
    exact .inl rfl
  | append_singleton components e ih =>
    rw [gather_append] at h
    obtain ⟨before, hbefore, h⟩ := Except.bind_eq_ok_iff.mp h
    rw [gather_cons] at h
    obtain ⟨after, hadd, h⟩ := Except.bind_eq_ok_iff.mp h
    cases h
    exact (ih hbefore).concat (adds_of_add hadd)

theorem gather_any (initial : Option (List UInt8)) (any values : List (List UInt8)) :
    gather ⟨initial, any, none⟩ (values.map (Element.mk anyTag)) = .ok ⟨initial, any ++ values, none⟩ := by
  induction values generalizing any with
  | nil => rw [List.append_nil]; rfl
  | cons value values ih =>
    rw [List.map_cons, gather_cons, (Adds.any initial any value).add, Except.ok_bind, ih, List.append_assoc]
    rfl

theorem Gathers.gather (h : Gathers components parts) : gather {} components = .ok parts := by
  rcases h with rfl | ⟨i, f, rfl, rfl⟩
  · obtain ⟨initial, any, final⟩ := parts
    have hinitial : Parts.gather {} (initial.map (Element.mk initialTag)).toList = .ok ⟨initial, [], none⟩ := by
      cases initial <;> rfl
    have hfinal : Parts.gather ⟨initial, any, none⟩ (final.map (Element.mk finalTag)).toList =
        .ok ⟨initial, any, final⟩ := by
      cases final with
      | none => rfl
      | some value =>
        rw [Option.map_some, Option.toList_some, gather_cons, (Adds.final initial any value).add]
        rfl
    rw [elements, gather_append, gather_append, hinitial, Except.ok_bind, gather_any, Except.ok_bind]
    exact hfinal
  · rfl

/-- Of components that are not gathered there is a first one without a place. -/
theorem exists_of_gather_error {error : Ber.Error} (h : Parts.gather parts components = .error error) :
    ∃ before e after gathered, components = before ++ e :: after ∧ Parts.gather parts before = .ok gathered ∧
      gathered.add e.tag e.value = .error error := by
  induction components generalizing parts with
  | nil => cases h
  | cons e components ih =>
    rw [gather_cons] at h
    cases hadd : parts.add e.tag e.value with
    | error _ =>
      rw [hadd] at h
      cases h
      exact ⟨[], e, components, parts, rfl, rfl, hadd⟩
    | ok next =>
      rw [hadd, Except.ok_bind] at h
      obtain ⟨before, e', after, gathered, rfl, hbefore, herror⟩ := ih h
      refine ⟨e :: before, e', after, gathered, rfl, ?_, herror⟩
      rwa [gather_cons, hadd, Except.ok_bind]

/-! ### Reading -/

theorem meets {bytes : List UInt8} (h : Element.decode bytes = .ok e) (hl : bytes.length ≤ limit) :
    Meets limit stop parts.read (Cell.primitive bytes) (parts.add e.tag e.value) := by
  have hrest : Meets limit stop (do ReadM.lift (parts.add e.tag (← ReadM.octets))) (Cell.primitive bytes)
      (parts.add e.tag e.value) := by
    rw [← List.append_nil (Cell.primitive bytes)]
    refine Meets.bind (fun _ _ => Meets.octets h hl) (Meets.lift _ fun error herror => ?_)
    rw [add_eq_error herror]
    rfl
  obtain ⟨rest, hcells⟩ := Cell.primitive_of_decode h
  rw [hcells] at hrest ⊢
  exact Meets.peekRequired_bind hrest

/-- The components are read as they are gathered. -/
theorem folds_gather {pieces : List (List UInt8)}
    (h : List.Forall₂ (fun piece e => Element.decode piece = .ok e) pieces components)
    (hl : pieces.flatten.length ≤ limit) :
    Meets.Folds limit read parts (pieces.map Cell.primitive) (gather parts components) := by
  induction h generalizing parts with
  | nil => exact .nil parts
  | @cons piece e pieces components hpiece _ ih =>
    rw [List.flatten_cons, List.length_append] at hl
    have hmeets : ∀ stop, Meets limit stop (read parts) (Cell.primitive piece) (parts.add e.tag e.value) :=
      fun stop => meets hpiece (by omega)
    have hne : Cell.primitive piece ≠ [] := by
      obtain ⟨rest, hcells⟩ := Cell.primitive_of_decode hpiece
      rw [hcells]
      exact List.cons_ne_nil _ _
    rw [gather_cons]
    cases hadd : parts.add e.tag e.value with
    | error error =>
      rw [hadd] at hmeets
      exact .error hne hmeets _
    | ok next =>
      rw [hadd] at hmeets
      exact .cons hne hmeets (ih (by omega))

end Parts

/-- The elements that the bytes of a substrings filter are made of, under headers that agree with what stands behind
them: the filter itself, in it the attribute and a list, and in that the components. -/
structure Listing (bytes : List UInt8) where
  outer : Element
  name : Element
  list : Element
  text : String
  components : List Element
  decode : Element.decode bytes = .ok outer
  tag : outer.tag = substringsTag
  elements : outer.elements = .ok [name, list]
  name_text : Ber.utf8Text? name.value = some text
  listed : list.elements = .ok components

theorem Listing.meets {bytes : List UInt8} (l : Listing bytes) (hl : bytes.length ≤ limit) :
    ∃ cells, cells.map Cell.byte = bytes ∧ ∀ stop, Meets limit stop read cells
      ((Parts.gather {} l.components).map fun parts => .substrings l.text parts.initial parts.any parts.final) := by
  obtain ⟨outer, name, list, text, components, hb, ht, ho, hn, hlist⟩ := l
  obtain ⟨header, hd, rfl⟩ := Element.decode_eq_ok_iff.mp hb
  obtain ⟨pieces, hvalue, hpieces⟩ := Element.decodeMany_eq_ok ho (Nat.le_refl _)
  obtain ⟨namePiece, _, hname, hrest, rfl⟩ := List.forall₂_cons_right_iff.mp hpieces
  obtain ⟨listPiece, _, hlistPiece, hnil, rfl⟩ := List.forall₂_cons_right_iff.mp hrest
  obtain rfl := List.forall₂_nil_right_iff.mp hnil
  obtain ⟨listHeader, hd', rfl⟩ := Element.decode_eq_ok_iff.mp hlistPiece
  obtain ⟨pieces, hlistValue, hcomponents⟩ := Element.decodeMany_eq_ok hlist (Nat.le_refl _)
  have hbytes := Cell.byte_flatten_primitive pieces
  have hlen : (pieces.map Cell.primitive).flatten.length = list.value.length := by
    rw [hlistValue, ← hbytes, List.length_map]
  rw [List.flatten_cons, List.flatten_cons, List.flatten_nil, List.append_nil] at hvalue
  have hle : namePiece.length + (1 + listHeader.length + list.value.length) ≤ outer.value.length := by
    rw [hvalue]
    simp only [List.length_append, List.length_cons]
    omega
  simp only [List.length_cons, List.length_append] at hl
  refine ⟨⟨outer.tag, true⟩ :: Cell.later header ++ (Cell.primitive namePiece ++
    (⟨list.tag, true⟩ :: Cell.later listHeader ++ (pieces.map Cell.primitive).flatten)), ?_, fun stop => ?_⟩
  · simp [hbytes, hvalue, ← hlistValue]
  · dsimp only at ht ⊢
    rw [ht]
    refine Meets.peekRequired_bind (Meets.sequence_bind hd (by omega) fun s hs => ?_)
    refine Meets.bind (fun _ _ => Meets.text hname (by omega) hn) ?_
    refine Meets.sequence_bind hd' (by omega) fun s' hs' => Meets.map ?_
    refine Meets.components (by dsimp only; omega) (Nat.le_of_eq hlen) (Parts.folds_gather hcomponents ?_)
    rw [← hlistValue]
    omega

/-- Of all lists of components, those are read that stand in order, and a final part with an initial one behind it.
In any other the first component without a place is reported. -/
theorem run_read_components {bytes tail : List UInt8} {r : Reader} {ds : List Delivery} (l : Listing bytes)
    (hr : r.At ds) (hp : Plain ds) (hc : content ds = bytes ++ tail) (hl : bytes.length ≤ r.limit) :
    (∀ parts, Parts.Gathers l.components parts → ∃ r', r'.pending = tail ∧
      read.run r = .ok (.substrings l.text parts.initial parts.any parts.final) r') ∧
    ((∀ parts, ¬ Parts.Gathers l.components parts) → ∃ before e after r', l.components = before ++ e :: after ∧
      (∃ parts, Parts.Gathers before parts) ∧ (∀ parts, ¬ Parts.Gathers (before ++ [e]) parts) ∧
      read.run r = .error (.malformed ("unexpected substring component 0x" ++ upperHexByte e.tag)) r') := by
  obtain ⟨cells, hbytes, hmeets⟩ := l.meets hl
  obtain ⟨left, -, htail, hread⟩ := Meets.answer_arrived hmeets hbytes hr hp hc
  constructor
  · intro parts h
    rw [h.gather] at hread
    exact ⟨_, htail ▸ Reader.pending_of_none (hr.advance _ left).lookahead, ReadM.run_of_answer_ok hread⟩
  · intro h
    cases hgather : Parts.gather {} l.components with
    | ok parts => exact absurd (Parts.gathers_of_gather hgather) (h parts)
    | error error =>
      obtain ⟨before, e, after, gathered, hcomponents, hbefore, herror⟩ := Parts.exists_of_gather_error hgather
      have hlast : Parts.gather {} (before ++ [e]) = .error error := by
        rw [Parts.gather_append, hbefore, Except.ok_bind, Parts.gather_cons, herror, Except.error_bind]
      rw [hgather, Parts.add_eq_error herror] at hread
      obtain ⟨error', r', hrun, hkind⟩ := ReadM.run_of_answer_error hread
      refine ⟨before, e, after, r', hcomponents, ⟨gathered, Parts.gathers_of_gather hbefore⟩, fun parts hparts => ?_,
        Ber.Error.eq_malformed_of_kind hkind ▸ hrun⟩
      rw [hparts.gather] at hlast
      cases hlast

/-- The filter (cn=a*b), with a length in the long form, and one whose initial part stands behind another. -/
theorem run_read_components_name :
    let bytes := [0xA4, 0x81, 0x0C, 0x04, 0x02, 0x63, 0x6E, 0x30, 0x06, 0x80, 0x01, 0x61, 0x82, 0x01, 0x62]
    let bytes' := [0xA4, 0x0C, 0x04, 0x02, 0x63, 0x6E, 0x30, 0x06, 0x81, 0x01, 0x62, 0x80, 0x01, 0x61]
    (∃ r', read.run (Reader.ofBytes bytes) = .ok (.substrings "cn" (some [0x61]) [] (some [0x62])) r') ∧
      ∃ r', read.run (Reader.ofBytes bytes') = .error (.malformed "unexpected substring component 0x80") r' := by
  intro bytes bytes'
  let l : Listing bytes :=
    { outer := ⟨0xA4, [0x04, 0x02, 0x63, 0x6E, 0x30, 0x06, 0x80, 0x01, 0x61, 0x82, 0x01, 0x62]⟩
      name := ⟨0x04, [0x63, 0x6E]⟩
      list := ⟨0x30, [0x80, 0x01, 0x61, 0x82, 0x01, 0x62]⟩
      text := "cn"
      components := [⟨0x80, [0x61]⟩, ⟨0x82, [0x62]⟩]
      decode := by decide +kernel
      tag := rfl
      elements := rfl
      name_text := rfl
      listed := rfl }
  let l' : Listing bytes' :=
    { outer := ⟨0xA4, [0x04, 0x02, 0x63, 0x6E, 0x30, 0x06, 0x81, 0x01, 0x62, 0x80, 0x01, 0x61]⟩
      name := ⟨0x04, [0x63, 0x6E]⟩
      list := ⟨0x30, [0x81, 0x01, 0x62, 0x80, 0x01, 0x61]⟩
      text := "cn"
      components := [⟨0x81, [0x62]⟩, ⟨0x80, [0x61]⟩]
      decode := rfl
      tag := rfl
      elements := rfl
      name_text := rfl
      listed := rfl }
  obtain ⟨haccepts, -⟩ := run_read_components l (Reader.at_ofBytes bytes) (Ber.Delivery.plain_bytes _)
    (List.append_nil bytes).symm (by decide)
  obtain ⟨-, hrefuses⟩ := run_read_components l' (Reader.at_ofBytes bytes') (Ber.Delivery.plain_bytes _)
    (List.append_nil bytes').symm (by decide)
  obtain ⟨r', -, hrun⟩ := haccepts ⟨some [0x61], [], some [0x62]⟩ (.inl rfl)
  refine ⟨⟨r', hrun⟩, ?_⟩
  have hnone : ∀ parts, ¬ Parts.Gathers l'.components parts := by
    intro parts h
    cases h.gather
  obtain ⟨before, e, after, r', hcomponents, -, hlast, hrun'⟩ := hrefuses hnone
  -- the first of the two components has a place
  rcases before with _ | ⟨_, _ | ⟨_, before⟩⟩
  · cases hcomponents
    exact absurd (.inl rfl) (hlast ⟨none, [[0x62]], none⟩)
  · cases hcomponents
    exact ⟨r', hrun'⟩
  · have hlen := congrArg List.length hcomponents
    simp [l'] at hlen

/-- A final part and an initial one behind it are not in order, and are read all the same. -/
theorem not_run_read_components_ordered :
    let bytes := [0xA4, 0x0C, 0x04, 0x02, 0x63, 0x6E, 0x30, 0x06, 0x82, 0x01, 0x62, 0x80, 0x01, 0x61]
    let r' : Reader := { source := some [], consumed := 14 }
    ∃ l : Listing bytes, l.components = [⟨0x82, [0x62]⟩, ⟨0x80, [0x61]⟩] ∧
      (∀ parts : Parts, l.components ≠ parts.elements) ∧
      read.run (Reader.ofBytes bytes) = .ok (.substrings "cn" (some [0x61]) [] (some [0x62])) r' := by
  refine ⟨{ outer := ⟨0xA4, [0x04, 0x02, 0x63, 0x6E, 0x30, 0x06, 0x82, 0x01, 0x62, 0x80, 0x01, 0x61]⟩
            name := ⟨0x04, [0x63, 0x6E]⟩
            list := ⟨0x30, [0x82, 0x01, 0x62, 0x80, 0x01, 0x61]⟩
            text := "cn"
            components := [⟨0x82, [0x62]⟩, ⟨0x80, [0x61]⟩]
            decode := rfl
            tag := rfl
            elements := rfl
            name_text := rfl
            listed := rfl }, rfl, ?_, ReadM.run_of_answer_ok (by decide +kernel)⟩
  rintro ⟨initial, any, final⟩ h
  -- an initial part would be the first, and nothing stands behind a final one
  rcases initial with _ | _ <;> rcases any with _ | _ <;> rcases final with _ | _ <;> cases h

end Ldap.Filter
