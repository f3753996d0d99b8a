import Ldap.Proofs.Ber.Answer
import Ldap.Proofs.Except

/-! Reading as the taking of bytes one at a time. An encoding is a list of cells, bytes of which some
are the tags of elements; the two kinds of byte are awaited under the two rules for timeouts. A reader
that stands before cells draws them one after the other, as far as they arrive. -/

namespace Ldap.Ber

/-- A byte of an encoding. -/
structure Cell where
  byte : UInt8
  /-- The byte is the tag of an element. -/
  opens : Bool
deriving DecidableEq, Repr

/-- Bytes that are no tags. -/
def Cell.later (bytes : List UInt8) : List Cell := bytes.map (⟨·, false⟩)

namespace Reader

/-- Takes the bytes of cells off the reader, one at a time. -/
def draw (r : Reader) (cells : List Cell) : Except Error Reader :=
  cells.foldlM (fun r cell => (r.fetch cell.opens).map Prod.snd) r

@[simp] theorem draw_nil (r : Reader) : r.draw [] = .ok r := rfl

theorem draw_cons (r : Reader) (cell : Cell) (cells : List Cell) :
    r.draw (cell :: cells) = r.fetch cell.opens >>= fun x => x.2.draw cells := by
  rw [draw, List.foldlM_cons]
  cases r.fetch cell.opens <;> rfl

theorem draw_of_fetch {r r' : Reader} {cell : Cell} {b : UInt8} (h : r.fetch cell.opens = .ok (b, r'))
    (cells : List Cell) : r.draw (cell :: cells) = r'.draw cells := by
  rw [draw_cons, h]
  rfl

theorem draw_of_fetch_error {r : Reader} {cell : Cell} {e : Error} (h : r.fetch cell.opens = .error e)
    (cells : List Cell) : r.draw (cell :: cells) = .error e := by
  rw [draw_cons, h]
  rfl

theorem draw_append (r : Reader) (xs ys : List Cell) :
    r.draw (xs ++ ys) = r.draw xs >>= fun r => r.draw ys :=
  List.foldlM_append

theorem draw_append_of_draw {r r' : Reader} {xs : List Cell} (h : r.draw xs = .ok r') (ys : List Cell) :
    r.draw (xs ++ ys) = r'.draw ys := by
  rw [draw_append, h]
  rfl

/-- The reader stands before cells that end at a count of consumed bytes. What it has yet to consume
may end inside them, or go on behind them. A tag that was looked at is the first of them. -/
structure Before (r : Reader) (stop : Nat) (cells : List Cell) : Prop where
  stop_eq : r.consumed + cells.length = stop
  source : r.source.isSome
  pending : ∃ rest, r.pending <+: cells.map Cell.byte ++ rest
  lookahead : r.lookahead.isSome → ∀ cell ∈ cells.head?, cell.opens

namespace Before

variable {r r' : Reader} {stop : Nat} {cell : Cell} {xs ys cells : List Cell}

theorem left {s : Nat} (h : r.Before stop (xs ++ ys)) (hs : s + ys.length = stop) : r.Before s xs where
  stop_eq := by
    have := h.stop_eq
    rw [List.length_append] at this
    omega
  source := h.source
  pending := by
    obtain ⟨rest, hr⟩ := h.pending
    exact ⟨ys.map Cell.byte ++ rest, by simpa using hr⟩
  lookahead hl cell hc := h.lookahead hl cell (by
    cases xs with
    | nil => simp at hc
    | cons x xs => simpa using hc)

/-- Taking a byte gives the byte of the first cell, and leads to the other cells. -/
theorem fetch_eq (h : r.Before stop (cell :: cells)) {b : UInt8} (hf : r.fetch cell.opens = .ok (b, r')) :
    b = cell.byte ∧ r'.Before stop cells ∧ r'.lookahead = none ∧ r'.limit = r.limit := by
  obtain ⟨hp, hl, hs⟩ := passes_of_fetch hf fun hl => h.lookahead hl cell rfl
  obtain ⟨rest, hpre⟩ := h.pending
  rw [hp.pending, List.singleton_append, List.map_cons, List.cons_append, List.cons_prefix_cons] at hpre
  have hstop := h.stop_eq
  rw [List.length_cons] at hstop
  have hc := hp.consumed
  rw [List.length_singleton] at hc
  exact ⟨hpre.1, ⟨by omega, hs h.source, ⟨rest, hpre.2⟩, by simp [hl]⟩, hl, hp.limit⟩

/-- Taking cells leads to those behind them. -/
theorem draw_eq (h : r.Before stop (xs ++ ys)) (hd : r.draw xs = .ok r') :
    r'.Before stop ys ∧ r'.limit = r.limit := by
  induction xs generalizing r with
  | nil =>
    obtain rfl : r = r' := by simpa using hd
    exact ⟨h, rfl⟩
  | cons x xs ih =>
    rw [draw_cons] at hd
    cases hf : r.fetch x.opens with
    | error e => simp [hf, bind, Except.bind] at hd
    | ok y =>
      rw [hf] at hd
      obtain ⟨-, hb, -, hl⟩ := h.fetch_eq hf
      obtain ⟨hb', hl'⟩ := ih hb hd
      exact ⟨hb', hl'.trans hl⟩

/-- Where all cells arrive, the first of them do, and then the others. -/
theorem of_draw_append (h : r.Before stop (xs ++ ys)) (hd : r.draw (xs ++ ys) = .ok r') :
    ∃ s q, s + ys.length = stop ∧ r.Before s xs ∧ r.draw xs = .ok q ∧
      q.Before stop ys ∧ q.limit = r.limit ∧ q.draw ys = .ok r' := by
  have hs := h.stop_eq
  rw [List.length_append, ← Nat.add_assoc] at hs
  rw [draw_append, Except.bind_eq_ok_iff] at hd
  obtain ⟨q, hx, hy⟩ := hd
  obtain ⟨hq, hl⟩ := h.draw_eq hx
  exact ⟨_, q, hs, h.left hs, hx, hq, hl, hy⟩

end Before

end Reader

end Ldap.Ber
