import Ldap.Proofs.Ber.Draw
import Ldap.Proofs.Ber.Integer

/-! Steps that take cells off a reader. A step takes cells if, on every reader that stands before them,
it ends as the drawing of the cells does: with its value where all of them arrive, and otherwise with
the failure of the transport or with the end of the input. Such steps follow one another as their
cells do. -/

namespace Ldap.Ber

open Cell (later)

variable {α β : Type} {limit stop : Nat} {p : ReadM α} {f : α → ReadM β} {a : α} {b : β}
  {cell : Cell} {xs ys cells : List Cell}

/-- On a reader of the given limit the step takes the cells, which end at `stop`, and answers `a`. -/
def Takes (limit stop : Nat) (p : ReadM α) (cells : List Cell) (a : α) : Prop :=
  ∀ r : Reader, r.Before stop cells → r.limit = limit → p.answer r = (r.draw cells).map (a, ·)

namespace Takes

theorem pure (a : α) : Takes limit stop (pure a) [] a := fun _ _ _ => rfl

theorem bind (hp : ∀ s, s + ys.length = stop → Takes limit s p xs a) (hf : Takes limit stop (f a) ys b) :
    Takes limit stop (p >>= f) (xs ++ ys) b := by
  intro r hr hl
  have hs : r.consumed + xs.length + ys.length = stop := by
    rw [← hr.stop_eq, List.length_append, Nat.add_assoc]
  have hx := hp _ hs r (hr.left hs) hl
  rw [Reader.draw_append]
  cases hd : r.draw xs with
  | error e =>
    rw [hd] at hx
    exact ReadM.answer_bind_error hx
  | ok r' =>
    rw [hd] at hx
    obtain ⟨hr', hl'⟩ := hr.draw_eq hd
    rw [ReadM.answer_bind_ok hx, hf r' hr' (hl'.trans hl)]
    rfl

theorem bind_cons (hp : ∀ s, Takes limit s p [cell] a) (hf : Takes limit stop (f a) ys b) :
    Takes limit stop (p >>= f) (cell :: ys) b :=
  bind (fun s _ => hp s) hf

/-- A step on one cell is settled by the byte that it fetches. -/
theorem of_fetch (cell : Cell) {p : ReadM UInt8} (hp : ∀ r : Reader, p.answer r = r.fetch cell.opens) :
    Takes limit stop p [cell] cell.byte := by
  intro r hr _
  rw [hp, Reader.draw_cons]
  cases hf : r.fetch cell.opens with
  | error e => rfl
  | ok x =>
    obtain ⟨b, r'⟩ := x
    obtain ⟨rfl, -⟩ := hr.fetch_eq hf
    rfl

theorem requiredTag (part : String) (tag : UInt8) :
    Takes limit stop (ReadM.requiredTag part) [⟨tag, true⟩] tag :=
  of_fetch ⟨tag, true⟩ (ReadM.answer_requiredTag part)

theorem byte (part : String) (b : UInt8) : Takes limit stop (ReadM.byte part) [⟨b, false⟩] b :=
  of_fetch ⟨b, false⟩ (ReadM.answer_byte part)

theorem bytes (part : String) (bytes : List UInt8) :
    Takes limit stop (ReadM.bytes bytes.length part) (later bytes) bytes := by
  intro r hr hl
  induction bytes generalizing r with
  | nil => rfl
  | cons b bytes ih =>
    rw [List.length_cons, ReadM.answer_bytes_succ, later, List.map_cons, Reader.draw_cons]
    cases hf : r.fetch false with
    | error e => rfl
    | ok x =>
      obtain ⟨b', r'⟩ := x
      obtain ⟨rfl, hr', -, hl'⟩ := hr.fetch_eq hf
      change ((ReadM.bytes bytes.length part).answer r' >>= _) = (r'.draw (later bytes)).map _
      rw [ih r' hr' (hl'.trans hl)]
      cases r'.draw (later bytes) <;> rfl

theorem get_bind {f : Reader → ReadM β} (hf : ∀ r, r.Before stop ys → Takes limit stop (f r) ys b) :
    Takes limit stop (get >>= f) ys b := by
  intro r hr hl
  rw [ReadM.answer_bind_ok (ReadM.answer_get r), hf r hr r hr hl]

/-! ### Headers -/

theorem lengthBytes (bytes : List UInt8) (n : Nat) :
    Takes limit stop (ReadM.lengthBytes bytes.length n) (later bytes)
      (bytes.foldl (fun n b => n * 256 + b.toNat) n) := by
  induction bytes generalizing n with
  | nil => exact pure n
  | cons b bytes ih => exact bind (fun _ _ => byte "length" b) (ih _)

theorem checkLength {n : Nat} (h : n ≤ limit) : Takes limit stop (ReadM.checkLength n) [] n := by
  intro r _ hl
  have hn : ¬ r.limit < n := by omega
  change ReadM.answer (get >>= _) r = _
  rw [ReadM.answer_bind_ok (ReadM.answer_get r), if_neg hn]
  rfl

theorem length {header : List UInt8} {n : Nat} (hd : Length.Declares header n) (h : n ≤ limit) :
    Takes limit stop ReadM.length (later header) n := by
  cases hd with
  | short hshort =>
    refine bind (fun _ _ => byte "length" _) ?_
    rw [if_pos hshort]
    exact checkLength h
  | @long _ _ bytes hlong hcount hl _ =>
    refine bind (fun _ _ => byte "length" _) ?_
    have h1 := hl.count_pos
    have h4 := hl.count_le
    rw [if_neg hlong, hcount]
    simp only [if_neg (show ¬ (bytes.length < 1 ∨ 4 < bytes.length) by omega)]
    rw [← List.append_nil (List.map _ bytes)]
    refine bind (fun _ _ => lengthBytes bytes 0) ?_
    rw [← ofBigEndian, hl.value]
    exact checkLength h

variable {tag : UInt8} {header : List UInt8} {n : Nat} (hd : Length.Declares header n) (h : n ≤ limit)
include hd h

/-- A tag and a length, in front of what a continuation takes. -/
theorem tag_length {g : UInt8 → Nat → ReadM β} {part : String} (hg : Takes limit stop (g tag n) ys b) :
    Takes limit stop (ReadM.requiredTag part >>= fun tag => ReadM.length >>= g tag)
      (⟨tag, true⟩ :: (later header ++ ys)) b :=
  bind_cons (fun _ => requiredTag part tag) (bind (fun _ _ => length hd h) hg)

theorem header_bind {g : Nat → ReadM β} (hg : Takes limit stop (g n) ys b) :
    Takes limit stop (ReadM.header >>= g) (⟨tag, true⟩ :: (later header ++ ys)) b := by
  rw [ReadM.header, bind_assoc]
  exact tag_length hd h hg

omit hd h in
theorem sequence_bind_eq (f : Bounds → ReadM β) :
    ReadM.sequence >>= f = ReadM.requiredTag "sequence" >>= fun tag => ReadM.length >>= fun n =>
      get >>= fun r => f ⟨tag, n, r.consumed + n⟩ := by
  simp only [ReadM.sequence, ReadM.sequence?, ReadM.requiredTag, bind_assoc]
  refine congrArg _ (funext fun tag => ?_)
  cases tag with
  | none => rfl
  | some tag => simp only [bind_assoc, pure_bind]

/-- Where an open sequence ends is known from where the reader stands. -/
theorem sequence_bind {f : Bounds → ReadM β}
    (hf : ∀ r : Reader, r.Before stop ys → Takes limit stop (f ⟨tag, n, r.consumed + n⟩) ys b) :
    Takes limit stop (ReadM.sequence >>= f) (⟨tag, true⟩ :: later header ++ ys) b := by
  rw [sequence_bind_eq]
  exact tag_length hd h (get_bind hf)

theorem sequence : Takes limit stop ReadM.sequence (⟨tag, true⟩ :: later header) ⟨tag, n, stop + n⟩ := by
  rw [← bind_pure ReadM.sequence, ← List.append_nil (_ :: _)]
  refine sequence_bind hd h fun r hr => ?_
  rw [← hr.stop_eq]
  exact pure _

end Takes

/-! ### Looking ahead -/

/-- Where the input has ended before the given count, the step notices it. -/
def Starves (stop : Nat) (p : ReadM α) : Prop :=
  ∀ r : Reader, r.lookahead = none → r.source = some [] → r.consumed < stop →
    p.answer r = .error (.truncated "")

namespace Starves

theorem throw (part : String) : Starves stop (throw (.truncated part) : ReadM α) := fun _ _ _ _ => rfl

theorem bind (hp : Starves stop p) : Starves stop (p >>= f) :=
  fun r hl hs hc => ReadM.answer_bind_error (hp r hl hs hc)

theorem requiredTag (part : String) : Starves stop (ReadM.requiredTag part) := by
  intro r hl hs _
  obtain ⟨source, lookahead, consumed, limit, initial, later⟩ := r
  obtain rfl : lookahead = none := hl
  obtain rfl : source = some [] := hs
  rw [ReadM.answer_requiredTag]
  rfl

theorem header_bind {f : Nat → ReadM β} : Starves stop (ReadM.header >>= f) := by
  rw [ReadM.header, bind_assoc]
  exact (requiredTag "type").bind

/-- Looking ahead at the end of the input finds nothing and changes nothing. -/
theorem peek_bind {f : Option UInt8 → ReadM β} (hf : Starves stop (f none)) :
    Starves stop (ReadM.peek >>= f) := by
  intro r hl hs hc
  have hp : ReadM.peek.answer r = .ok (none, r) := by
    obtain ⟨source, lookahead, consumed, limit, initial, later⟩ := r
    obtain rfl : lookahead = none := hl
    obtain rfl : source = some [] := hs
    rfl
  rw [ReadM.answer_bind_ok hp, hf r hl hs hc]

/-- Within bounds that reach further, more is asked for. -/
theorem more_bind {f : Bool → ReadM β} {bounds : Bounds} (hb : bounds.stop = stop)
    (hf : Starves stop (f true)) : Starves stop (ReadM.more bounds >>= f) := by
  intro r hl hs hc
  rw [← hb] at hc
  rw [ReadM.answer_bind_ok (ReadM.answer_more (Nat.le_of_lt hc)), decide_eq_true hc]
  exact hf r hl hs (hb ▸ hc)

end Starves

namespace Reader.Before

variable {r r' : Reader}

/-- A tag that arrives can be looked at. The reader that has looked at it still stands in front of it, and takes it
from there. -/
theorem answer_peek {tag tag' : UInt8} (hr : r.Before stop (⟨tag, true⟩ :: cells))
    (hf : r.fetch true = .ok (tag', r')) : ∃ seen, ReadM.peek.answer r = .ok (some tag, seen) ∧
      seen.Before stop (⟨tag, true⟩ :: cells) ∧ seen.limit = r.limit ∧ seen.fetch true = r.fetch true := by
  obtain ⟨rfl, hr', hl', hlim'⟩ := hr.fetch_eq hf
  cases hl : r.lookahead with
  | some tag =>
    obtain ⟨source, lookahead, consumed, limit, initial, later⟩ := r
    obtain rfl : lookahead = some tag := hl
    obtain rfl : tag = tag' := congrArg Prod.fst (Except.ok.inj ((fetch_of_some rfl).symm.trans hf))
    exact ⟨_, rfl, hr, rfl, rfl⟩
  | none =>
    have hc : r'.consumed = r.consumed + 1 := by
      have h1 := hr.stop_eq
      have h2 := hr'.stop_eq
      rw [List.length_cons] at h1
      omega
    refine ⟨{ r' with lookahead := some tag', consumed := r.consumed }, ?_, ?_, hlim', ?_⟩
    · rw [ReadM.answer_peek hr.source hl, hf]
    · obtain ⟨rest, hpre⟩ := hr'.pending
      simp only [Reader.pending, hl', Option.toList_none, List.nil_append] at hpre
      refine ⟨hr.stop_eq, hr'.source, ⟨rest, by simpa [Reader.pending] using hpre⟩, ?_⟩
      intro _ cell hcell
      obtain rfl : _ = cell := by simpa using hcell
      rfl
    · rw [hf]
      simp only [Reader.fetch, ← hc, ← hl']

/-- Whether an open sequence declares more is whether cells are left in it. -/
theorem answer_more {bounds : Bounds} (hr : r.Before stop (xs ++ ys)) (hb : bounds.stop + ys.length = stop) :
    (ReadM.more bounds).answer r = .ok (!xs.isEmpty, r) := by
  have hc := hr.stop_eq
  rw [List.length_append] at hc
  have hlt : decide (r.consumed < bounds.stop) = !xs.isEmpty := by
    cases xs with
    | nil =>
      rw [List.length_nil] at hc
      simpa using by omega
    | cons x xs =>
      rw [List.length_cons] at hc
      simpa using by omega
  rw [ReadM.answer_more (by omega), hlt]

end Reader.Before

namespace Takes

/-- Looking at a tag leaves it to be taken. The input may end there, so the continuation must be able
to notice that no tag was found. -/
theorem peek_bind {f : Option UInt8 → ReadM β} {tag : UInt8}
    (hf : Takes limit stop (f (some tag)) (⟨tag, true⟩ :: cells) b) (hs : Starves stop (f none)) :
    Takes limit stop (ReadM.peek >>= f) (⟨tag, true⟩ :: cells) b := by
  intro r hr hlim
  cases hx : r.fetch true with
  | ok x =>
    obtain ⟨seen, hp, hseen, hl, hfetch⟩ := hr.answer_peek hx
    rw [ReadM.answer_bind_ok hp, hf seen hseen (hl.trans hlim), Reader.draw_cons, hfetch, Reader.draw_cons]
  | error e =>
    -- a tag that was looked at already would have been taken
    have hl : r.lookahead = none := by
      cases hl : r.lookahead with
      | none => rfl
      | some tag' =>
        rw [Reader.fetch_of_some hl] at hx
        cases hx
    rw [ReadM.answer_bind, ReadM.answer_peek hr.source hl, Reader.draw_cons, hx]
    have hlt : r.consumed < stop := by
      rw [← hr.stop_eq, List.length_cons]
      omega
    cases e with
    | truncated part =>
      obtain rfl : "" = part := Error.truncated.inj (Reader.kind_of_fetch hx)
      exact hs { r with source := some [] } hl rfl hlt
    | _ => rfl

/-- Whether an open sequence declares more is whether cells are left in it. -/
theorem more_bind {f : Bool → ReadM β} {bounds : Bounds} (hb : bounds.stop + ys.length = stop)
    (hf : Takes limit stop (f (!xs.isEmpty)) (xs ++ ys) b) :
    Takes limit stop (ReadM.more bounds >>= f) (xs ++ ys) b := by
  intro r hr hl
  rw [ReadM.answer_bind_ok (hr.answer_more hb), hf r hr hl]

end Takes

end Ldap.Ber
