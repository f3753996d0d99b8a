import Ldap.Proofs.Ber.Arrival
import Ldap.Proofs.Ber.Cells
import Ldap.Proofs.Ber.Takes

/-! What steps make of cells all of which arrive. A step answers a value and leaves what stands behind the cells, or it
fails at some of them. The length that a header declares need not be that of the cells behind it. -/

namespace Ldap.Ber

open Cell (later)
open Delivery (Plain content)

variable {α β σ : Type} {limit stop : Nat} {p : ReadM α} {f : α → ReadM β} {a : α} {x : Except Error α}
  {y : Except Error β} {e : Error} {xs ys cells : List Cell} {bounds : Bounds}

/-- On a reader of the given limit, to which the cells arrive that end at `stop`, the step takes the cells and answers
a value, or it fails. -/
def Meets (limit stop : Nat) (p : ReadM α) (cells : List Cell) (x : Except Error α) : Prop :=
  ∀ r r' : Reader, r.Before stop cells → r.limit = limit → r.draw cells = .ok r' → p.answer r = x.map (·, r')

theorem Takes.meets (h : Takes limit stop p cells a) : Meets limit stop p cells (.ok a) := by
  intro r r' hr hlim hd
  rw [h r hr hlim, hd]
  rfl

/-- The cells of an element in which nothing is opened. -/
def Cell.primitive : List UInt8 → List Cell
  | [] => []
  | tag :: rest => ⟨tag, true⟩ :: later rest

@[simp] theorem Cell.byte_primitive (bytes : List UInt8) : (Cell.primitive bytes).map Cell.byte = bytes := by
  cases bytes with
  | nil => rfl
  | cons tag rest => rw [Cell.primitive, List.map_cons, Cell.byte_later]

theorem Cell.byte_flatten_primitive (pieces : List (List UInt8)) :
    (pieces.map Cell.primitive).flatten.map Cell.byte = pieces.flatten := by
  induction pieces with
  | nil => rfl
  | cons piece pieces ih =>
    rw [List.map_cons, List.flatten_cons, List.map_append, Cell.byte_primitive, ih, List.flatten_cons]

theorem Cell.primitive_of_decode {bytes : List UInt8} {e : Element} (h : Element.decode bytes = .ok e) :
    ∃ rest, Cell.primitive bytes = ⟨e.tag, true⟩ :: rest := by
  obtain ⟨header, -, rfl⟩ := Element.decode_eq_ok_iff.mp h
  exact ⟨_, rfl⟩

namespace Meets

theorem pure (a : α) : Meets limit stop (pure a) [] (.ok a) := (Takes.pure a).meets

theorem throw (he : e.kind = e) : Meets limit stop (throw e : ReadM α) cells (.error e) :=
  fun _ _ _ _ _ => congrArg _ he

theorem bind (hp : ∀ s, s + ys.length = stop → Meets limit s p xs (.ok a)) (hf : Meets limit stop (f a) ys y) :
    Meets limit stop (p >>= f) (xs ++ ys) y := by
  intro r r' hr hlim hd
  obtain ⟨s, q, hs, hr, hd, hq, hlim', hd'⟩ := hr.of_draw_append hd
  rw [ReadM.answer_bind_ok (hp s hs r q hr hlim hd)]
  exact hf q r' hq (hlim'.trans hlim) hd'

/-- What stands behind the cells at which a step fails does not matter. -/
theorem bind_error (hp : ∀ s, s + ys.length = stop → Meets limit s p xs (.error e)) :
    Meets limit stop (p >>= f) (xs ++ ys) (.error e) := by
  intro r r' hr hlim hd
  obtain ⟨s, q, hs, hr, hd, -, -, -⟩ := hr.of_draw_append hd
  exact ReadM.answer_bind_error (hp s hs r q hr hlim hd)

theorem map {g : α → β} (hp : Meets limit stop p cells x) :
    Meets limit stop (do return g (← p)) cells (x.map g) := by
  intro r r' hr hlim hd
  rw [ReadM.answer_bind, hp r r' hr hlim hd]
  cases x <;> rfl

theorem lift (e : Except Error α) (he : ∀ error, e = .error error → error.kind = error) :
    Meets limit stop (ReadM.lift e) [] e := by
  cases e with
  | ok a => exact pure a
  | error error => exact throw (he error rfl)

/-! ### Single elements -/

variable {bytes : List UInt8} {element : Element} (h : Element.decode bytes = .ok element) (hl : bytes.length ≤ limit)
include h hl

theorem octets : Meets limit stop ReadM.octets (Cell.primitive bytes) (.ok element.value) := by
  obtain ⟨header, hd, rfl⟩ := Element.decode_eq_ok_iff.mp h
  simp only [List.length_cons, List.length_append] at hl
  rw [Cell.primitive, later, List.map_append]
  exact (Takes.header_bind hd (by omega) (Takes.bytes "value" element.value)).meets

theorem text {s : String} (hs : utf8Text? element.value = some s) :
    Meets limit stop ReadM.text (Cell.primitive bytes) (.ok s) := by
  rw [← List.append_nil (Cell.primitive bytes)]
  refine bind (fun _ _ => octets h hl) ?_
  rw [hs]
  exact pure s

omit h hl

/-! ### Sequences -/

/-- A sequence is opened up to where its header says, whatever is behind the header. -/
theorem sequence_bind {tag : UInt8} {header : List UInt8} {n : Nat} (hd : Length.Declares header n) (hn : n ≤ limit)
    {f : Bounds → ReadM β} (hf : ∀ s, s + ys.length = stop → Meets limit stop (f ⟨tag, n, s + n⟩) ys y) :
    Meets limit stop (ReadM.sequence >>= f) (⟨tag, true⟩ :: later header ++ ys) y := by
  intro r r' hr hlim hdraw
  obtain ⟨s, q, hs, hr, hdraw, hq, hlim', hdraw'⟩ := hr.of_draw_append hdraw
  rw [ReadM.answer_bind_ok ((Takes.sequence hd hn).meets r q hr hlim hdraw)]
  exact hf s hs q r' hq (hlim'.trans hlim) hdraw'

/-- More is asked for within the declared length. -/
theorem more_within {f : Bool → ReadM β} (h : stop < bounds.stop + cells.length)
    (hf : Meets limit stop (f true) cells y) : Meets limit stop (ReadM.more bounds >>= f) cells y := by
  intro r r' hr hlim hd
  have hlt : r.consumed < bounds.stop := by
    have := hr.stop_eq
    omega
  rw [ReadM.answer_bind_ok (ReadM.answer_more (Nat.le_of_lt hlt)), decide_eq_true hlt]
  exact hf r r' hr hlim hd

/-- At the end of the declared length no more is asked for. -/
theorem more_at {f : Bool → ReadM β} (h : bounds.stop + cells.length = stop)
    (hf : Meets limit stop (f false) cells y) : Meets limit stop (ReadM.more bounds >>= f) cells y := by
  intro r r' hr hlim hd
  have heq : r.consumed = bounds.stop := by
    have := hr.stop_eq
    omega
  rw [ReadM.answer_bind_ok (ReadM.answer_more (Nat.le_of_eq heq)), heq, decide_eq_false (Nat.lt_irrefl _)]
  exact hf r r' hr hlim hd

/-- Behind the declared length the sequence was overrun. -/
theorem more_behind {f : Bool → ReadM β} (h : bounds.stop + cells.length < stop) :
    Meets limit stop (ReadM.more bounds >>= f) cells (.error (.sequenceOverrun bounds.length)) := by
  intro r r' hr _ _
  have hlt : bounds.stop < r.consumed := by
    have := hr.stop_eq
    omega
  refine ReadM.answer_bind_error ?_
  rw [ReadM.more, ReadM.answer_bind_ok (ReadM.answer_get r)]
  dsimp only
  rw [if_pos hlt]
  rfl

/-- Whether an open sequence declares more is whether cells are left in it. -/
theorem more_bind {f : Bool → ReadM β} (hb : bounds.stop + ys.length = stop)
    (hf : Meets limit stop (f (!xs.isEmpty)) (xs ++ ys) y) :
    Meets limit stop (ReadM.more bounds >>= f) (xs ++ ys) y := by
  cases xs with
  | nil => exact more_at hb hf
  | cons cell xs =>
    refine more_within ?_ hf
    rw [List.length_append, List.length_cons]
    omega

theorem more_all {f : Bool → ReadM β} (hb : bounds.stop = stop) (hf : Meets limit stop (f (!cells.isEmpty)) cells y) :
    Meets limit stop (ReadM.more bounds >>= f) cells y := by
  have h : Meets limit stop (ReadM.more bounds >>= f) (cells ++ []) y := more_bind hb (by rwa [List.append_nil])
  rwa [List.append_nil] at h

/-- The tag of an element that arrives is seen, whatever the step does where there is none. -/
theorem peek_bind {f : Option UInt8 → ReadM β} {tag : UInt8}
    (hf : Meets limit stop (f (some tag)) (⟨tag, true⟩ :: cells) y) :
    Meets limit stop (ReadM.peek >>= f) (⟨tag, true⟩ :: cells) y := by
  intro r r' hr hlim hd
  have hfetch := hd
  rw [Reader.draw_cons, Except.bind_eq_ok_iff] at hfetch
  obtain ⟨⟨tag', q⟩, hfetch, -⟩ := hfetch
  obtain ⟨seen, hp, hseen, hlim', hsame⟩ := hr.answer_peek hfetch
  rw [ReadM.answer_bind_ok hp]
  refine hf seen r' hseen (hlim'.trans hlim) ?_
  rw [← hd, Reader.draw_cons, hsame, Reader.draw_cons]

theorem peekRequired_bind {f : UInt8 → ReadM β} {tag : UInt8} {part : String}
    (hf : Meets limit stop (f tag) (⟨tag, true⟩ :: cells) y) :
    Meets limit stop (ReadM.peekRequired part >>= f) (⟨tag, true⟩ :: cells) y := by
  rw [ReadM.peekRequired, bind_assoc]
  exact peek_bind (by simpa using hf)

/-! ### Components -/

/-- Folding the step over components leads from one value to another, or to the first component that is not accepted. -/
inductive Folds (limit : Nat) (step : σ → ReadM σ) : σ → List (List Cell) → Except Error σ → Prop
  | nil (s : σ) : Folds limit step s [] (.ok s)
  | cons {s s' : σ} {component : List Cell} {rest : List (List Cell)} {x : Except Error σ} (hne : component ≠ [])
      (h : ∀ stop, Meets limit stop (step s) component (.ok s')) (hr : Folds limit step s' rest x) :
      Folds limit step s (component :: rest) x
  | error {s : σ} {component : List Cell} {e : Error} (hne : component ≠ [])
      (h : ∀ stop, Meets limit stop (step s) component (.error e)) (rest : List (List Cell)) :
      Folds limit step s (component :: rest) (.error e)

theorem more_component {f : Bool → ReadM β} (hb : bounds.stop = stop) (hne : xs ≠ [])
    (hf : Meets limit stop (f true) (xs ++ ys) y) : Meets limit stop (ReadM.more bounds >>= f) (xs ++ ys) y := by
  have := List.length_pos_iff.mpr hne
  refine more_within ?_ hf
  rw [List.length_append]
  omega

/-- As many rounds suffice as there are cells. -/
theorem foldComponents {step : σ → ReadM σ} {s : σ} {components : List (List Cell)} {x : Except Error σ}
    (hb : bounds.stop = stop) (h : Folds limit step s components x) (count : Nat)
    (hc : components.flatten.length < count) :
    Meets limit stop (ReadM.foldComponents bounds step count s) components.flatten x := by
  induction h generalizing count with
  | nil s =>
    obtain ⟨count, rfl⟩ := Nat.exists_eq_add_one_of_ne_zero (Nat.ne_zero_of_lt hc)
    exact more_all hb (pure s)
  | cons hne h _ ih =>
    obtain ⟨count, rfl⟩ := Nat.exists_eq_add_one_of_ne_zero (Nat.ne_zero_of_lt hc)
    have := List.length_pos_iff.mpr hne
    rw [List.flatten_cons, List.length_append] at hc
    exact more_component hb hne (bind (fun s _ => h s) (ih count (by omega)))
  | error hne h rest =>
    obtain ⟨count, rfl⟩ := Nat.exists_eq_add_one_of_ne_zero (Nat.ne_zero_of_lt hc)
    exact more_component hb hne (bind_error fun s _ => h s)

theorem components {step : σ → ReadM σ} {s : σ} {components : List (List Cell)} {x : Except Error σ}
    (hb : bounds.stop = stop) (hl : components.flatten.length ≤ bounds.length) (h : Folds limit step s components x) :
    Meets limit stop (ReadM.components bounds step s) components.flatten x :=
  foldComponents hb h _ (Nat.lt_succ_of_le hl)

/-! ### Readers -/

variable {r : Reader} {ds more : List Delivery} {bytes tail : List UInt8}
  (hp : ∀ stop, Meets r.limit stop p cells x) (hb : cells.map Cell.byte = bytes)
include hp hb

/-- Cells that arrive are taken, and what follows them is left, whatever may be delivered later. -/
theorem answer_arrived_before (hr : r.At (ds ++ more)) (hplain : Plain ds) (hc : content ds = bytes ++ tail) :
    ∃ left, Plain left ∧ content left = tail ∧
      p.answer r = x.map (·, r.advance bytes.length (left ++ more)) := by
  subst hb
  have harrive : content (ds ++ more) = cells.map Cell.byte ++ (tail ++ content more) := by
    rw [Delivery.content_append, hc, List.append_assoc]
  have hb : r.Before (r.consumed + cells.length) cells := hr.before ⟨[], by rw [List.append_nil, harrive]⟩
  obtain ⟨left, hleft, htail, hd⟩ := hr.draw hplain hc
  rw [List.length_map]
  exact ⟨left, hleft, htail, hp _ r _ hb rfl hd⟩

theorem answer_arrived (hr : r.At ds) (hplain : Plain ds) (hc : content ds = bytes ++ tail) :
    ∃ left, Plain left ∧ content left = tail ∧ p.answer r = x.map (·, r.advance bytes.length left) := by
  rw [← List.append_nil ds] at hr
  obtain ⟨left, hleft, htail, hanswer⟩ := answer_arrived_before hp hb hr hplain hc
  rw [List.append_nil] at hanswer
  exact ⟨left, hleft, htail, hanswer⟩

end Meets
end Ldap.Ber
