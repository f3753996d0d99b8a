import Ldap.Proofs.Ber.Draw

/-! Drawing cells from a transport that delivers bytes. The bytes arrive in any chunks, with
interruptions between them; what a read finds behind them is the end of the input or a timeout. -/

namespace Ldap.Ber.Reader

open Delivery

variable {r : Reader} {ds left more : List Delivery} {cells : List Cell}

/-- The reader at a place where it has taken nothing ahead, with the deliveries to come. -/
structure At (r : Reader) (ds : List Delivery) : Prop where
  source : r.source = some ds
  lookahead : r.lookahead = none

theorem at_ofBytes (bytes : List UInt8) : (ofBytes bytes).At [.bytes bytes] := ⟨rfl, rfl⟩

/-- The reader after taking `n` bytes, with other deliveries to come. -/
def advance (r : Reader) (n : Nat) (ds : List Delivery) : Reader :=
  { r with source := some ds, consumed := r.consumed + n }

theorem At.fetch (h : r.At ds) (opens : Bool) : r.fetch opens =
    match (pull (r.ignores opens) 1 ds).outcome with
    | .filled => .ok ((pull (r.ignores opens) 1 ds).got.headD 0, r.advance 1 (pull (r.ignores opens) 1 ds).rest)
    | .ended => .error (.truncated "")
    | .timedOut => .error (.timeout opens)
    | .failed reason => .error (.transport reason) := by
  rw [fetch_of_none h.lookahead, h.source]
  rfl

theorem At.advance (h : r.At ds) (n : Nat) (left : List Delivery) : (r.advance n left).At left :=
  ⟨rfl, h.lookahead⟩

theorem At.advance_zero (h : r.At ds) : r.advance 0 ds = r := by
  obtain ⟨source, lookahead, consumed, limit, initial, later⟩ := r
  obtain rfl : source = some ds := h.source
  rfl

theorem advance_advance (r : Reader) (n m : Nat) (ds ds' : List Delivery) :
    (r.advance n ds).advance m ds' = r.advance (n + m) ds' := by
  simp only [advance, Nat.add_assoc]

/-- Bytes that were delivered have been passed by the reader behind them. -/
theorem At.passes_advance (h : r.At ds) {bytes : List UInt8} (hc : content ds = bytes ++ content left) :
    r.Passes bytes (r.advance bytes.length left) where
  pending := by
    rw [pending_of_none h.lookahead, pending_of_none (h.advance _ left).lookahead, h.source]
    exact hc
  consumed := rfl
  limit := rfl

/-- The reader stands before any cells of which the deliveries are a part, or go on behind. -/
theorem At.before (h : r.At ds) {bytes : List UInt8} (hc : content ds <+: cells.map Cell.byte ++ bytes) :
    r.Before (r.consumed + cells.length) cells where
  stop_eq := rfl
  source := by rw [h.source]; rfl
  pending := ⟨bytes, by rwa [pending_of_none h.lookahead, h.source, Option.getD_some]⟩
  lookahead := by simp [h.lookahead]

/-- A byte that is delivered is taken. -/
theorem At.fetch_arrived (h : r.At (ds ++ more)) (hp : Plain ds) {b : UInt8} {bytes : List UInt8}
    (hc : content ds = b :: bytes) (opens : Bool) :
    ∃ left, Plain left ∧ content left = bytes ∧ r.fetch opens = .ok (b, r.advance 1 (left ++ more)) := by
  obtain ⟨left, hl, hlc, hpull⟩ := pull_one_of_plain hp hc
  exact ⟨left, hl, hlc, by rw [h.fetch, hpull]; rfl⟩

/-- Cells whose bytes are delivered are drawn, and nothing behind them is touched. -/
theorem At.draw (h : r.At (ds ++ more)) (hp : Plain ds) {bytes : List UInt8}
    (hc : content ds = cells.map Cell.byte ++ bytes) :
    ∃ left, Plain left ∧ content left = bytes ∧
      r.draw cells = .ok (r.advance cells.length (left ++ more)) := by
  induction cells generalizing r ds with
  | nil => exact ⟨ds, hp, hc, congrArg Except.ok h.advance_zero.symm⟩
  | cons cell cells ih =>
    obtain ⟨left, hl, hlc, hf⟩ := h.fetch_arrived hp hc cell.opens
    obtain ⟨left', hl', hlc', hd⟩ := ih (h.advance 1 (left ++ more)) hl hlc
    refine ⟨left', hl', hlc', ?_⟩
    rw [draw_of_fetch hf, hd]
    simp only [Reader.advance, List.length_cons, Nat.add_assoc, Nat.add_comm 1]

/-- Where no byte is left, the end of the input is found. -/
theorem At.fetch_ended (h : r.At ds) (hp : Plain ds) (hc : content ds = []) (opens : Bool) :
    r.fetch opens = .error (.truncated "") := by
  rw [← List.append_nil ds] at h
  rw [h.fetch, pull_append_of_plain hp hc]
  rfl

theorem At.answer_element? (h : r.At ds) (hp : Plain ds) (hc : content ds = []) :
    ReadM.element?.answer r = .ok (none, r.close) := by
  have htag := ReadM.answer_tag? r
  rw [h.fetch_ended hp hc] at htag
  rw [ReadM.element?, ReadM.answer_bind_ok htag]
  rfl

/-- Where the deliveries end before the cells do, the end of the input is found. -/
theorem At.draw_ended (h : r.At ds) (hp : Plain ds) {xs ys : List Cell}
    (hc : content ds = xs.map Cell.byte) (hne : ys ≠ []) :
    r.draw (xs ++ ys) = .error (.truncated "") := by
  rw [← List.append_nil ds] at h
  rw [← List.append_nil (xs.map _)] at hc
  obtain ⟨left, hl, hlc, hd⟩ := h.draw hp hc
  obtain ⟨y, ys, rfl⟩ := List.exists_cons_of_ne_nil hne
  rw [draw_append_of_draw hd]
  rw [List.append_nil]
  exact draw_of_fetch_error ((h.advance _ _).fetch_ended hl hlc _) ys

/-- A timeout inside the cells is passed over or reported, by the rule for the cell in front of which
it occurs. -/
theorem At.draw_timeout (h : r.At (ds ++ .timeout :: more)) (hp : Plain ds) {xs ys : List Cell} {cell : Cell}
    (hc : content ds = xs.map Cell.byte) : r.draw (xs ++ cell :: ys) =
      if r.ignores cell.opens then (r.advance xs.length more).draw (cell :: ys)
      else .error (.timeout cell.opens) := by
  rw [← List.append_nil (xs.map _)] at hc
  obtain ⟨left, hl, hlc, hd⟩ := h.draw hp hc
  rw [draw_append_of_draw hd]
  have hi : ∀ ds, (r.advance xs.length ds).ignores cell.opens = r.ignores cell.opens := fun _ => rfl
  rw [draw_cons, draw_cons, (h.advance _ _).fetch, (h.advance _ _).fetch, pull_append_of_plain hl hlc, hi, hi]
  cases r.ignores cell.opens with
  | true => rfl
  | false => rfl

end Ldap.Ber.Reader
