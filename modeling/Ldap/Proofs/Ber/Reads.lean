import Ldap.Proofs.Ber.Cells
import Ldap.Proofs.Ber.Takes

/-! Steps that read items: those that take the cells of the items, given that no length among them is
above what the reader accepts. The steps for single elements read the item of their kind under any
tag, and an open sequence is read by whatever reads its components. -/

namespace Ldap.Ber

open Cell (later)
open Item (cellsAll frame)

variable {α β σ : Type} {limit stop : Nat} {p : ReadM α} {f : α → ReadM β} {a : α} {b : β}
  {item : Item} {items rest : List Item}

/-- On a reader of the given limit the step takes the items, which end at `stop`, and answers `a`. -/
def Reads (limit stop : Nat) (p : ReadM α) (items : List Item) (a : α) : Prop :=
  (cellsAll items).length ≤ min limit maxLength → Takes limit stop p (cellsAll items) a

theorem utf8Text?_utf8Bytes (s : String) : utf8Text? (utf8Bytes s) = some s := by
  have hs : ByteArray.mk (utf8Bytes s).toArray = s.toUTF8 := by simp [utf8Bytes]
  rw [utf8Text?, hs, String.fromUTF8?, String.toUTF8_eq_toByteArray, dif_pos s.isValidUTF8]
  rfl

namespace Reads

theorem pure (a : α) : Reads limit stop (pure a) [] a := fun _ => Takes.pure a

theorem bind (hp : ∀ s, s + (cellsAll rest).length = stop → Reads limit s p items a)
    (hf : Reads limit stop (f a) rest b) : Reads limit stop (p >>= f) (items ++ rest) b := by
  intro h
  rw [Item.cellsAll_append, List.length_append] at h
  rw [Item.cellsAll_append]
  exact Takes.bind (fun s hs => hp s hs (by omega)) (hf (by omega))

theorem bind_cons (hp : ∀ s, Reads limit s p [item] a) (hf : Reads limit stop (f a) rest b) :
    Reads limit stop (p >>= f) (item :: rest) b :=
  bind (fun s _ => hp s) hf

/-- A step that reads an item, with a function of its value as answer. -/
theorem map {g : α → β} (hp : Reads limit stop p items a) :
    Reads limit stop (do return g (← p)) items (g a) := by
  have h : Reads limit stop (do return g (← p)) (items ++ []) (g a) := by
    refine bind (fun s hs => ?_) (pure (g a))
    obtain rfl : s = stop := hs
    exact hp
  rwa [List.append_nil] at h

theorem lift {e : Except Error α} (h : e = .ok a) : Reads limit stop (ReadM.lift e) [] a := by
  subst h
  exact pure a

/-! ### Single elements -/

/-- A header and then a step on the bytes of a primitive value. -/
theorem header_value {g : Nat → ReadM α} {tag : UInt8} (value : List UInt8)
    (hi : item.cells = frame tag (later value))
    (hg : Takes limit stop (g value.length) (later value) a) :
    Reads limit stop (ReadM.header >>= g) [item] a := by
  intro h
  rw [cellsAll, cellsAll, List.append_nil, hi, frame, Cell.length_later] at h ⊢
  rw [List.length_cons, List.length_append, Cell.length_later, Cell.length_later] at h
  exact Takes.header_bind (Length.declares_encode (by omega)) (by omega) hg

theorem octets (tag : UInt8) (value : List UInt8) :
    Reads limit stop ReadM.octets [.octets tag value] value :=
  header_value value rfl (Takes.bytes "value" value)

theorem text (tag : UInt8) (s : String) : Reads limit stop ReadM.text [.text tag s] s := by
  refine bind_cons (a := utf8Bytes s) (fun _ => header_value _ rfl (Takes.bytes "value" _)) ?_
  rw [utf8Text?_utf8Bytes]
  exact pure s

theorem boolean (tag : UInt8) (value : Bool) :
    Reads limit stop ReadM.boolean [.boolean tag value] value := by
  refine header_value [Item.booleanByte value] rfl ?_
  rw [List.length_singleton, if_pos rfl]
  refine Takes.bind_cons (fun _ => Takes.byte "value" _) ?_
  cases value <;> exact Takes.pure _

theorem integer (tag : UInt8) (v : Int32) :
    Reads limit stop ReadM.integer [.integer tag v.toInt64] v := by
  refine header_value (Integer.encode v.toInt64) rfl ?_
  have h1 := Integer.length_encode_pos v.toInt64
  have h4 := Integer.length_encode_int32_le v
  rw [if_pos ⟨h1, h4⟩, ← List.append_nil (later _)]
  refine Takes.bind (fun _ _ => Takes.bytes "value" _) ?_
  rw [Integer.decode_encode, Int32.toInt_toInt64, Int32.ofInt_toInt]
  exact Takes.pure v

theorem null (tag : UInt8) : Reads limit stop ReadM.null [.null tag] () :=
  header_value [] rfl (Takes.pure ())

/-! ### Sequences -/

/-- An open sequence ends where its components do. -/
theorem sequence_bind {tag : UInt8} {f : Bounds → ReadM β}
    (hf : ∀ s, s + (cellsAll rest).length = stop →
      Reads limit stop (f ⟨tag, (cellsAll items).length, s⟩) (items ++ rest) b) :
    Reads limit stop (ReadM.sequence >>= f) (.constructed tag items :: rest) b := by
  intro h
  rw [Item.cellsAll_constructed] at h ⊢
  simp only [List.length_append, List.length_cons] at h
  refine Takes.sequence_bind (Length.declares_encode (by omega)) (by omega) fun r hr => ?_
  have hs := hr.stop_eq
  rw [List.length_append] at hs
  rw [← Item.cellsAll_append]
  refine hf _ (by omega) ?_
  rw [Item.cellsAll_append, List.length_append]
  omega

/-- Whether an open sequence declares more is whether items are left in it. -/
theorem more_bind (items rest : List Item) {f : Bool → ReadM β} {bounds : Bounds}
    (hb : bounds.stop + (cellsAll rest).length = stop)
    (hf : Reads limit stop (f (!items.isEmpty)) (items ++ rest) b) :
    Reads limit stop (ReadM.more bounds >>= f) (items ++ rest) b := by
  intro h
  have ht := hf h
  rw [Item.cellsAll_append, ← Item.isEmpty_cellsAll] at ht
  rw [Item.cellsAll_append]
  exact Takes.more_bind hb ht

theorem more_all {f : Bool → ReadM β} {bounds : Bounds} (hb : bounds.stop = stop)
    (hf : Reads limit stop (f (!items.isEmpty)) items b) :
    Reads limit stop (ReadM.more bounds >>= f) items b := by
  have h := more_bind items [] hb (by rwa [List.append_nil])
  rwa [List.append_nil] at h

/-- All of an open sequence has been read. -/
theorem more_done {f : Bool → ReadM β} {bounds : Bounds} (hb : bounds.stop = stop)
    (hf : Reads limit stop (f false) [] b) : Reads limit stop (ReadM.more bounds >>= f) [] b :=
  more_all hb hf

theorem peek_bind {f : Option UInt8 → ReadM β} (hf : Reads limit stop (f (some item.tag)) (item :: rest) b)
    (hs : Starves stop (f none)) : Reads limit stop (ReadM.peek >>= f) (item :: rest) b := by
  intro h
  have ht := hf h
  obtain ⟨others, hc⟩ := item.cells_eq_cons
  rw [cellsAll, hc] at ht ⊢
  exact Takes.peek_bind ht hs

theorem peekRequired_bind {f : UInt8 → ReadM β} {part : String}
    (hf : Reads limit stop (f item.tag) (item :: rest) b) :
    Reads limit stop (ReadM.peekRequired part >>= f) (item :: rest) b := by
  rw [ReadM.peekRequired, bind_assoc]
  refine peek_bind ?_ (Starves.throw part).bind
  simpa using hf

end Reads

/-! ### Optional components -/

namespace Starves

variable {bounds : Bounds}

theorem tagWithin_bind {f : Option UInt8 → ReadM β} (hb : bounds.stop = stop)
    (hf : Starves stop (f none)) : Starves stop (ReadM.tagWithin bounds >>= f) := by
  rw [ReadM.tagWithin, bind_assoc]
  refine more_bind hb ?_
  rw [if_pos rfl]
  exact peek_bind hf

/-- A component that may be left out is not missed, so what follows it must be. -/
theorem optional_bind {f : Option α → ReadM β} {tag : UInt8} (hb : bounds.stop = stop)
    (hf : Starves stop (f none)) : Starves stop (ReadM.optional bounds tag p >>= f) := by
  rw [ReadM.optional, bind_assoc]
  refine tagWithin_bind hb ?_
  simpa using hf

/-- Passing over what is left of an open sequence fails if the sequence is cut short. -/
theorem skipRest (hb : bounds.stop = stop) : Starves stop (ReadM.skipRest bounds) := by
  rw [ReadM.skipRest, ReadM.components, ReadM.foldComponents]
  refine more_bind hb ?_
  rw [if_pos rfl, ReadM.skipElement]
  exact header_bind.bind

end Starves

namespace Reads

variable {bounds : Bounds}

theorem tagWithin_bind {f : Option UInt8 → ReadM β} (hb : bounds.stop = stop)
    (hf : Reads limit stop (f (items.head?.map Item.tag)) items b) (hs : Starves stop (f none)) :
    Reads limit stop (ReadM.tagWithin bounds >>= f) items b := by
  rw [ReadM.tagWithin, bind_assoc]
  cases items with
  | nil => exact more_done hb hf
  | cons item rest =>
    exact more_all hb (peek_bind hf hs)

theorem head_tag_ne {tag : UInt8} (hne : ∀ item ∈ rest.head?, item.tag ≠ tag) :
    rest.head?.map Item.tag ≠ some tag := by
  cases rest with
  | nil => simp
  | cons item rest => simpa using hne item rfl

/-- A component that may be left out is told from the next one by its tag. -/
theorem optional_bind {f : Option α → ReadM β} {tag : UInt8} {o : Option α} {g : α → Item}
    (hb : bounds.stop = stop) (hp : ∀ a s, Reads limit s p [g a] a) (hg : ∀ a, (g a).tag = tag)
    (hne : ∀ item ∈ rest.head?, item.tag ≠ tag) (hf : Reads limit stop (f o) rest b)
    (hs : Starves stop (f none)) :
    Reads limit stop (ReadM.optional bounds tag p >>= f) ((o.map g).toList ++ rest) b := by
  rw [ReadM.optional, bind_assoc]
  refine tagWithin_bind hb ?_ (by simpa using hs)
  cases o with
  | none =>
    rw [Option.map_none, Option.toList_none, List.nil_append, if_neg (head_tag_ne hne)]
    exact hf
  | some a =>
    rw [if_pos (by simp [hg])]
    exact bind_cons (fun s => map (hp a s)) hf

/-! ### Components -/

/-- Folding the step over the items leads from one value to another. -/
inductive Folds (limit : Nat) (step : σ → ReadM σ) : σ → List Item → σ → Prop
  | nil (s : σ) : Folds limit step s [] s
  | cons {s s' s'' : σ} {item : Item} {rest : List Item} (h : ∀ stop, Reads limit stop (step s) [item] s')
      (hr : Folds limit step s' rest s'') : Folds limit step s (item :: rest) s''

theorem Folds.append {step : σ → ReadM σ} {s s' s'' : σ} (h : Folds limit step s items s')
    (h' : Folds limit step s' rest s'') : Folds limit step s (items ++ rest) s'' := by
  induction h with
  | nil s => exact h'
  | cons h _ ih => exact .cons h (ih h')

theorem foldComponents {step : σ → ReadM σ} {s s' : σ} (hb : bounds.stop = stop)
    (h : Folds limit step s items s') (count : Nat) (hc : items.length < count) :
    Reads limit stop (ReadM.foldComponents bounds step count s) items s' := by
  induction h generalizing count with
  | nil s =>
    cases count with
    | zero => exact absurd hc (Nat.not_lt_zero _)
    | succ count => exact more_done hb (pure s)
  | @cons s s₁ s₂ item rest h hr ih =>
    cases count with
    | zero => exact absurd hc (Nat.not_lt_zero _)
    | succ count =>
      exact more_all hb (bind_cons h (ih count (Nat.lt_of_succ_lt_succ hc)))

/-- The rounds that a declared length allows for suffice for its items. -/
theorem components {step : σ → ReadM σ} {s s' : σ} (hb : bounds.stop = stop)
    (hl : (cellsAll items).length ≤ bounds.length) (h : Folds limit step s items s') :
    Reads limit stop (ReadM.components bounds step s) items s' := by
  have := Item.length_le_cellsAll items
  exact foldComponents hb h _ (by omega)

theorem listOf {g : α → Item} {as : List α} (hb : bounds.stop = stop)
    (hl : (cellsAll (as.map g)).length ≤ bounds.length)
    (hp : ∀ a ∈ as, ∀ s, Reads limit s p [g a] a) :
    Reads limit stop (ReadM.listOf bounds p) (as.map g) as := by
  have hf : ∀ found, Folds limit (fun found => do return (← p) :: found) found (as.map g)
      (as.reverse ++ found) := by
    clear hl
    induction as with
    | nil => exact fun found => .nil found
    | cons a as ih =>
      intro found
      rw [List.reverse_cons, List.append_assoc]
      exact .cons (fun s => map (hp a List.mem_cons_self s))
        (ih (fun b hb => hp b (List.mem_cons_of_mem a hb)) (a :: found))
  have := map (g := List.reverse) (components hb hl (hf []))
  rwa [List.append_nil, List.reverse_reverse] at this

/-- Nothing is left to pass over. -/
theorem skipRest (hb : bounds.stop = stop) : Reads limit stop (ReadM.skipRest bounds) [] () :=
  foldComponents hb (.nil ()) _ (Nat.succ_pos _)

theorem skipRest_bind {f : Unit → ReadM β} (hb : bounds.stop + (cellsAll items).length = stop)
    (hf : Reads limit stop (f ()) items b) : Reads limit stop (ReadM.skipRest bounds >>= f) items b :=
  bind (fun s hs => skipRest (by omega)) hf

/-- A list in a sequence of its own. -/
theorem sequence_listOf_bind {tag : UInt8} {g : α → Item} {as : List α} {f : List α → ReadM β}
    (hp : ∀ a ∈ as, ∀ s, Reads limit s p [g a] a) (hf : Reads limit stop (f as) rest b) :
    Reads limit stop (do f (← ReadM.listOf (← ReadM.sequence) p)) (.constructed tag (as.map g) :: rest) b :=
  sequence_bind fun s hs => bind (fun t ht => listOf (by dsimp only; omega) (Nat.le_refl _) hp) hf

theorem sequence_listOf {tag : UInt8} {g : α → Item} {as : List α}
    (hp : ∀ a ∈ as, ∀ s, Reads limit s p [g a] a) :
    Reads limit stop (do ReadM.listOf (← ReadM.sequence) p) [.constructed tag (as.map g)] as := by
  refine sequence_bind fun s hs => ?_
  rw [List.append_nil]
  exact listOf hs (Nat.le_refl _) hp

end Reads

end Ldap.Ber
