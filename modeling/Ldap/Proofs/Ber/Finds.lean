import Ldap.Proofs.Ber.Meets
import Ldap.Proofs.Ber.Reads

/-! What steps find in items all of which arrive. There a step can be told that would mistake the end of the input for
something else, and also one that does not accept the items: what it finds is the error. -/

namespace Ldap.Ber

open Delivery (Plain content)
open Item (cellsAll)

variable {α β σ : Type} {limit stop : Nat} {p : ReadM α} {f : α → ReadM β} {a : α} {x : Except Error α}
  {y : Except Error β} {e : Error} {item : Item} {items rest : List Item}

/-- On a reader of the given limit, to which the items arrive that end at `stop`, the step takes the items and answers
a value, or it fails. -/
def Finds (limit stop : Nat) (p : ReadM α) (items : List Item) (x : Except Error α) : Prop :=
  (cellsAll items).length ≤ min limit maxLength → ∀ r r' : Reader, r.Before stop (cellsAll items) →
    r.limit = limit → r.draw (cellsAll items) = .ok r' → p.answer r = x.map (·, r')

theorem Reads.finds (h : Reads limit stop p items a) : Finds limit stop p items (.ok a) := fun hl => (h hl).meets

namespace Finds

theorem meets (h : Finds limit stop p items x) (hl : (cellsAll items).length ≤ min limit maxLength) :
    Meets limit stop p (cellsAll items) x := h hl

theorem pure (a : α) : Finds limit stop (pure a) [] (.ok a) := (Reads.pure a).finds

theorem throw (he : e.kind = e) : Finds limit stop (throw e : ReadM α) items (.error e) := fun _ => Meets.throw he

theorem bind (hp : ∀ s, s + (cellsAll rest).length = stop → Finds limit s p items (.ok a))
    (hf : Finds limit stop (f a) rest y) : Finds limit stop (p >>= f) (items ++ rest) y := by
  intro hl
  rw [Item.cellsAll_append] at hl ⊢
  rw [List.length_append] at hl
  exact Meets.bind (fun s hs => (hp s hs).meets (by omega)) (hf.meets (by omega))

/-- What stands behind the items at which a step fails does not matter. -/
theorem bind_error (hp : ∀ s, s + (cellsAll rest).length = stop → Finds limit s p items (.error e)) :
    Finds limit stop (p >>= f) (items ++ rest) (.error e) := by
  intro hl
  rw [Item.cellsAll_append] at hl ⊢
  rw [List.length_append] at hl
  exact Meets.bind_error fun s hs => (hp s hs).meets (by omega)

theorem bind_cons (hp : ∀ s, Finds limit s p [item] (.ok a)) (hf : Finds limit stop (f a) rest y) :
    Finds limit stop (p >>= f) (item :: rest) y :=
  bind (fun s _ => hp s) hf

theorem map {g : α → β} (hp : Finds limit stop p items x) :
    Finds limit stop (do return g (← p)) items (x.map g) := fun hl => (hp.meets hl).map

/-! ### Sequences -/

/-- An open sequence ends where its components do. -/
theorem sequence_bind {tag : UInt8} {f : Bounds → ReadM β}
    (hf : ∀ s, s + (cellsAll rest).length = stop →
      Finds limit stop (f ⟨tag, (cellsAll items).length, s⟩) (items ++ rest) y) :
    Finds limit stop (ReadM.sequence >>= f) (.constructed tag items :: rest) y := by
  intro hl
  rw [Item.cellsAll_constructed, ← Item.cellsAll_append] at hl ⊢
  rw [List.length_append, Item.cellsAll_append, List.length_append] at hl
  refine Meets.sequence_bind (Length.declares_encode (by omega)) (by omega) fun s hs => ?_
  rw [Item.cellsAll_append, List.length_append] at hs
  refine (hf _ (by omega)).meets ?_
  rw [Item.cellsAll_append, List.length_append]
  omega

theorem sequence_all {tag : UInt8} {f : Bounds → ReadM β}
    (hf : Finds limit stop (f ⟨tag, (cellsAll items).length, stop⟩) items y) :
    Finds limit stop (ReadM.sequence >>= f) [.constructed tag items] y := by
  refine sequence_bind fun s hs => ?_
  obtain rfl : s = stop := hs
  rwa [List.append_nil]

theorem more_all {f : Bool → ReadM β} {bounds : Bounds} (hb : bounds.stop = stop)
    (hf : Finds limit stop (f (!items.isEmpty)) items y) :
    Finds limit stop (ReadM.more bounds >>= f) items y := by
  intro hl
  have hm := hf.meets hl
  rw [← Item.isEmpty_cellsAll] at hm
  exact Meets.more_all hb hm

/-- The tag of an item that arrives is seen, whatever the step does where there is none. -/
theorem peek_bind {f : Option UInt8 → ReadM β} (hf : Finds limit stop (f (some item.tag)) (item :: rest) y) :
    Finds limit stop (ReadM.peek >>= f) (item :: rest) y := by
  intro hl
  have hm := hf.meets hl
  obtain ⟨others, hc⟩ := item.cells_eq_cons
  rw [cellsAll, hc, List.cons_append] at hm ⊢
  exact Meets.peek_bind hm

theorem peekRequired_bind {f : UInt8 → ReadM β} {part : String}
    (hf : Finds limit stop (f item.tag) (item :: rest) y) :
    Finds limit stop (ReadM.peekRequired part >>= f) (item :: rest) y := by
  rw [ReadM.peekRequired, bind_assoc]
  exact peek_bind (by simpa using hf)

/-! ### Components -/

/-- Folding the step over the items leads to a value, or fails at one of them. -/
inductive Folds (limit : Nat) (step : σ → ReadM σ) : σ → List Item → Except Error σ → Prop
  | nil (s : σ) : Folds limit step s [] (.ok s)
  | cons {s s' : σ} {item : Item} {rest : List Item} {x : Except Error σ}
      (h : ∀ stop, Finds limit stop (step s) [item] (.ok s')) (hr : Folds limit step s' rest x) :
      Folds limit step s (item :: rest) x
  | error {s : σ} {item : Item} {e : Error} (h : ∀ stop, Finds limit stop (step s) [item] (.error e))
      (rest : List Item) : Folds limit step s (item :: rest) (.error e)

theorem Folds.append {step : σ → ReadM σ} {s s' : σ} {x : Except Error σ} (h : Folds limit step s items (.ok s'))
    (h' : Folds limit step s' rest x) : Folds limit step s (items ++ rest) x := by
  generalize hy : (Except.ok s' : Except Error σ) = y at h
  induction h with
  | nil s =>
    cases hy
    exact h'
  | cons h _ ih => exact .cons h (ih hy)
  | error => cases hy

/-- A component that may be left out. -/
theorem Folds.optional {step : σ → ReadM σ} {s : σ} {g : α → Item} (next : Option α → σ) (hnone : next none = s)
    (hsome : ∀ a stop, Finds limit stop (step s) [g a] (.ok (next (some a)))) (o : Option α) :
    Folds limit step s (o.map g).toList (.ok (next o)) := by
  cases o with
  | none =>
    rw [hnone]
    exact .nil s
  | some a => exact .cons (hsome a) (.nil _)

variable {bounds : Bounds}

theorem Folds.meets {step : σ → ReadM σ} {s : σ} {x : Except Error σ} (h : Folds limit step s items x)
    (hl : (cellsAll items).length ≤ min limit maxLength) : Meets.Folds limit step s (items.map Item.cells) x := by
  induction h with
  | nil s => exact .nil s
  | cons h _ ih =>
    rw [cellsAll, List.length_append] at hl
    refine .cons (Item.cells_ne_nil _) (fun stop => ?_) (ih (by omega))
    exact Item.cellsAll_singleton _ ▸ (h stop).meets (by rw [Item.cellsAll_singleton]; omega)
  | error h rest =>
    rw [cellsAll, List.length_append] at hl
    refine .error (Item.cells_ne_nil _) (fun stop => ?_) _
    exact Item.cellsAll_singleton _ ▸ (h stop).meets (by rw [Item.cellsAll_singleton]; omega)

/-- The rounds that a declared length allows for suffice for its items. -/
theorem components {step : σ → ReadM σ} {s : σ} {x : Except Error σ} (hb : bounds.stop = stop)
    (hl : (cellsAll items).length ≤ bounds.length) (h : Folds limit step s items x) :
    Finds limit stop (ReadM.components bounds step s) items x := by
  intro hlim
  rw [Item.cellsAll_eq_flatten] at hl ⊢
  exact Meets.components hb hl (h.meets hlim)

/-- The values found so far are kept, the last one first. -/
theorem folds_found {g : α → Item} {as found : List α} {x : Except Error (List α)}
    (hp : ∀ a ∈ as, ∀ s, Finds limit s p [g a] (.ok a))
    (hr : Folds limit (fun found => do return (← p) :: found) (as.reverse ++ found) rest x) :
    Folds limit (fun found => do return (← p) :: found) found (as.map g ++ rest) x := by
  induction as generalizing found with
  | nil => exact hr
  | cons a as ih =>
    rw [List.reverse_cons, List.append_assoc] at hr
    exact .cons (fun s => map (hp a List.mem_cons_self s)) (ih (fun b hb => hp b (List.mem_cons_of_mem a hb)) hr)

theorem listOf {g : α → Item} {as : List α} (hb : bounds.stop = stop)
    (hl : (cellsAll (as.map g)).length ≤ bounds.length) (hp : ∀ a ∈ as, ∀ s, Finds limit s p [g a] (.ok a)) :
    Finds limit stop (ReadM.listOf bounds p) (as.map g) (.ok as) := by
  have hfolds : Folds limit (fun found => do return (← p) :: found) [] (as.map g ++ []) (.ok (as.reverse ++ [])) :=
    folds_found hp (.nil _)
  rw [List.append_nil, List.append_nil] at hfolds
  have h := map (g := List.reverse) (components hb hl hfolds)
  rwa [Except.ok_map, List.reverse_reverse] at h

/-- The first item that is not accepted ends a list. -/
theorem listOf_error {g : α → Item} {as : List α} {item : Item} (hb : bounds.stop = stop)
    (hl : (cellsAll (as.map g ++ item :: rest)).length ≤ bounds.length)
    (hp : ∀ a ∈ as, ∀ s, Finds limit s p [g a] (.ok a)) (he : ∀ s, Finds limit s p [item] (.error e)) :
    Finds limit stop (ReadM.listOf bounds p) (as.map g ++ item :: rest) (.error e) :=
  map (x := .error e) (components hb hl (folds_found hp (.error (fun s => map (x := .error e) (he s)) rest)))

/-- A list in a sequence of its own. -/
theorem sequence_listOf_bind {tag : UInt8} {g : α → Item} {as : List α} {f : List α → ReadM β}
    (hp : ∀ a ∈ as, ∀ s, Finds limit s p [g a] (.ok a)) (hf : Finds limit stop (f as) rest y) :
    Finds limit stop (do f (← ReadM.listOf (← ReadM.sequence) p)) (.constructed tag (as.map g) :: rest) y :=
  sequence_bind fun _ hs => bind (fun _ ht => listOf (by dsimp only; omega) (Nat.le_refl _) hp) hf

theorem sequence_listOf_error {tag : UInt8} {g : α → Item} {as : List α} {item : Item} {others : List Item}
    {f : List α → ReadM β} (hp : ∀ a ∈ as, ∀ s, Finds limit s p [g a] (.ok a))
    (he : ∀ s, Finds limit s p [item] (.error e)) :
    Finds limit stop (do f (← ReadM.listOf (← ReadM.sequence) p))
      (.constructed tag (as.map g ++ item :: others) :: rest) (.error e) :=
  sequence_bind fun _ hs => bind_error fun _ ht => listOf_error (by dsimp only; omega) (Nat.le_refl _) hp he

/-! ### Readers -/

/-- An item that arrives is taken, and what follows it is left. -/
theorem answer_arrived {r : Reader} {ds : List Delivery} {bytes : List UInt8}
    (hp : ∀ stop, Finds r.limit stop p [item] x) (hr : r.At ds) (hplain : Plain ds)
    (hc : content ds = item.encode ++ bytes) (hl : item.encode.length ≤ min r.limit maxLength) :
    ∃ left, Plain left ∧ content left = bytes ∧ p.answer r = x.map (·, r.advance item.encode.length left) := by
  rw [← Item.length_cells, ← Item.cellsAll_singleton] at hl
  have hb : (cellsAll [item]).map Cell.byte = item.encode := by rw [Item.cellsAll_singleton, Item.byte_cells]
  exact Meets.answer_arrived (fun stop => (hp stop).meets hl) hb hr hplain hc

end Finds
end Ldap.Ber
