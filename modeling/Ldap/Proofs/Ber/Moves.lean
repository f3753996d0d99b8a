import Ldap.Proofs.Ber.Answer
import Ldap.Proofs.Ber.Length

/-! What a step leaves behind where it succeeds, on any input at all: the bytes that it consumed were the
first of those still to come, and a tag that was looked at lies inside the open sequence. Items are
read up to a place where nothing is looked ahead. -/

namespace Ldap.Ber

variable {α β σ : Type} {p : ReadM α} {f : α → ReadM β} {a : α} {b : β} {r r' : Reader}
  {P P' : Reader → Prop} {Q Q' : α → Reader → Prop} {R : β → Reader → Prop} {bounds : Bounds}

/-! ### Bytes that are consumed -/

namespace ReadM

theorem passes_of_tag? {tag : UInt8} (h : tag?.answer r = .ok (some tag, r')) :
    r.Passes [tag] r' ∧ r'.lookahead = none := by
  rw [answer_tag?] at h
  cases hf : r.fetch true with
  | ok x =>
    rw [hf] at h
    cases h
    obtain ⟨hp, hl, -⟩ := Reader.passes_of_fetch hf fun _ => rfl
    exact ⟨hp, hl⟩
  | error e =>
    rw [hf] at h
    cases e <;> cases h

theorem passes_of_byte {part : String} {b : UInt8} (h : (byte part).answer r = .ok (b, r'))
    (hl : r.lookahead = none) : r.Passes [b] r' ∧ r'.lookahead = none := by
  rw [answer_byte] at h
  obtain ⟨hp, hl', -⟩ := Reader.passes_of_fetch h (by simp [hl])
  exact ⟨hp, hl'⟩

theorem of_checkLength {n n' : Nat} (h : (checkLength n).answer r = .ok (n', r')) :
    n' = n ∧ r' = r ∧ n ≤ r.limit := by
  obtain ⟨s, s', hs, h⟩ := answer_bind_inv h
  cases hs
  by_cases hn : r.limit < n
  · rw [if_pos hn] at h
    cases h
  · rw [if_neg hn] at h
    cases h
    exact ⟨rfl, rfl, Nat.not_lt.mp hn⟩

theorem passes_of_lengthBytes {count n n' : Nat} (h : (lengthBytes count n).answer r = .ok (n', r'))
    (hl : r.lookahead = none) : ∃ bs, bs.length = count ∧ r.Passes bs r' ∧ r'.lookahead = none ∧
      n' = bs.foldl (fun n b => n * 256 + b.toNat) n := by
  induction count generalizing r n with
  | zero =>
    cases h
    exact ⟨[], rfl, .refl _, hl, rfl⟩
  | succ count ih =>
    obtain ⟨b, s, hb, h⟩ := answer_bind_inv h
    obtain ⟨hp, hs⟩ := passes_of_byte hb hl
    obtain ⟨bs, hlen, hp', hl', hn⟩ := ih h hs
    exact ⟨b :: bs, by rw [List.length_cons, hlen], hp.trans hp', hl', hn⟩

/-- A length that is read from a stream is declared by its header, for any reader whose limit is a length. -/
theorem declares_of_length {n : Nat} (h : length.answer r = .ok (n, r')) (hl : r.lookahead = none)
    (hlim : r.limit ≤ maxLength) :
    ∃ header, r.Passes header r' ∧ r'.lookahead = none ∧ Length.Declares header n := by
  obtain ⟨first, s, hf, h⟩ := answer_bind_inv h
  obtain ⟨hp, hs⟩ := passes_of_byte hf hl
  by_cases hshort : first < 0x80
  · rw [if_pos hshort] at h
    obtain ⟨rfl, rfl, -⟩ := of_checkLength h
    exact ⟨[first], hp, hs, .short hshort⟩
  · rw [if_neg hshort] at h
    dsimp only at h
    by_cases hcount : first.toNat - 0x80 < 1 ∨ 4 < first.toNat - 0x80
    · rw [if_pos hcount] at h
      cases h
    · rw [if_neg hcount] at h
      obtain ⟨v, s', hbytes, h⟩ := answer_bind_inv h
      obtain ⟨bs, hlen, hp', hs', hv⟩ := passes_of_lengthBytes hbytes hs
      obtain ⟨rfl, rfl, hle⟩ := of_checkLength h
      rw [hp'.limit, hp.limit] at hle
      exact ⟨first :: bs, hp.trans hp', hs', .long hshort hlen.symm ⟨by omega, by omega, hv.symm⟩ (by omega)⟩

/-- The length that a stream declares is the one that its bytes declare in memory. -/
theorem passes_of_length {n : Nat} (h : length.answer r = .ok (n, r')) (hl : r.lookahead = none)
    (hlim : r.limit ≤ maxLength) : ∃ header, r.Passes header r' ∧ r'.lookahead = none ∧
      ∀ tail, Length.decode (header ++ tail) = .ok (n, header.length) := by
  obtain ⟨header, hp, hl', hd⟩ := declares_of_length h hl hlim
  exact ⟨header, hp, hl', hd.decode_append⟩

end ReadM

/-! ### Steps -/

/-- Where the step succeeds on a reader with `P`, it has consumed what was first to come, and its answer
and the reader behind it have `Q`. -/
def Moves (P : Reader → Prop) (p : ReadM α) (Q : α → Reader → Prop) : Prop :=
  ∀ r, P r → ∀ a r', p.answer r = .ok (a, r') → (∃ taken, r.Passes taken r') ∧ Q a r'

/-- No tag is looked at ahead of being consumed. -/
def Settled (r : Reader) : Prop := r.lookahead = none

/-- A tag that is looked at lies before the given count of consumed bytes. -/
def Within (stop : Nat) (r : Reader) : Prop := r.lookahead.isSome → r.consumed < stop

theorem Settled.within (h : Settled r) (stop : Nat) : Within stop r := by
  intro hl
  rw [show r.lookahead = none from h] at hl
  cases hl

namespace Moves

theorem pure_of (h : ∀ r, P r → Q a r) : Moves P (Pure.pure a) Q := by
  intro r hr a' r' ha
  cases ha
  exact ⟨⟨[], .refl r⟩, h r hr⟩

theorem pure (a : α) : Moves P (Pure.pure a) fun _ => P := pure_of fun _ h => h

theorem throw (e : Error) : Moves P (throw e) Q := by
  intro r _ a r' h
  cases h

theorem bind (hp : Moves P p Q) (hf : ∀ a, Moves (Q a) (f a) R) : Moves P (p >>= f) R := by
  intro r hr b r' h
  obtain ⟨a, s, hs, h⟩ := ReadM.answer_bind_inv h
  obtain ⟨⟨xs, hxs⟩, hq⟩ := hp r hr a s hs
  obtain ⟨⟨ys, hys⟩, hq'⟩ := hf a s hq b r' h
  exact ⟨⟨xs ++ ys, hxs.trans hys⟩, hq'⟩

theorem of_imp (hp : Moves P' p Q') (h : ∀ r, P r → P' r) (h' : ∀ a r, Q' a r → Q a r) : Moves P p Q := by
  intro r hr a r' ha
  obtain ⟨hm, hq⟩ := hp r (h r hr) a r' ha
  exact ⟨hm, h' a r' hq⟩

theorem throw_bind (e : Error) (f : α → ReadM β) : Moves P (MonadExcept.throw e >>= f) R :=
  (throw (Q := fun _ _ => False) e).bind fun _ _ h => h.elim

/-- Of a step that always leaves a settled reader nothing needs to be known beforehand. -/
theorem always (hp : Moves (fun _ => True) p Q) : Moves P p Q :=
  hp.of_imp (fun _ _ => trivial) fun _ _ h => h

/-- A step inside an open sequence may follow one that left a settled reader. -/
theorem settled {stop : Nat} (hp : Moves (Within stop) p Q) : Moves Settled p Q :=
  hp.of_imp (fun _ h => h.within stop) fun _ _ h => h

theorem map {g : α → β} (hp : Moves P p fun _ => P') : Moves P (do return g (← p)) fun _ => P' :=
  hp.bind fun _ => pure _

theorem get : Moves P get fun s r => P r ∧ s = r := by
  intro r hr a r' h
  cases h
  exact ⟨⟨[], .refl _⟩, hr, rfl⟩

theorem lift (e : Except Error α) : Moves P (ReadM.lift e) fun _ => P := by
  cases e with
  | ok a => exact pure a
  | error e => exact throw e

/-! ### Tags and headers -/

theorem tag? : Moves P ReadM.tag? fun _ => Settled := by
  intro r _ tag? r' h
  cases tag? with
  | some tag =>
    obtain ⟨hp, hl⟩ := ReadM.passes_of_tag? h
    exact ⟨⟨[tag], hp⟩, hl⟩
  | none =>
    rw [ReadM.answer_tag?] at h
    cases hf : r.fetch true with
    | ok x =>
      rw [hf] at h
      cases h
    | error e =>
      rw [hf] at h
      cases e with
      | truncated part =>
        have hp := Reader.pending_of_fetch_ended hf
        cases h
        exact ⟨⟨[], hp, rfl, rfl⟩, rfl⟩
      | _ => cases h

theorem requiredTag (part : String) : Moves P (ReadM.requiredTag part) fun _ => Settled := by
  refine tag?.bind fun tag? => ?_
  cases tag? with
  | none => exact throw _
  | some tag => exact pure tag

/-- Looking ahead consumes nothing. -/
theorem peek {C : Nat → Prop} : Moves (fun r => C r.consumed) ReadM.peek fun _ r => C r.consumed := by
  intro r hc a r' h
  cases hl : r.lookahead with
  | some tag =>
    obtain ⟨source, lookahead, consumed, limit, initial, later⟩ := r
    obtain rfl : lookahead = some tag := hl
    cases h
    exact ⟨⟨[], .refl _⟩, hc⟩
  | none =>
    by_cases hs : r.source.isSome
    · rw [ReadM.answer_peek hs hl] at h
      cases hf : r.fetch true with
      | ok x =>
        obtain ⟨tag, s⟩ := x
        obtain ⟨hp, hl', -⟩ := Reader.passes_of_fetch hf fun _ => rfl
        have hpend : r.pending = tag :: Delivery.content (s.source.getD []) := by
          rw [hp.pending, Reader.pending_of_none hl']
          rfl
        rw [hf] at h
        cases h
        exact ⟨⟨[], hpend, rfl, hp.limit⟩, hc⟩
      | error e =>
        rw [hf] at h
        cases e with
        | truncated part =>
          have hp := Reader.pending_of_fetch_ended hf
          cases h
          exact ⟨⟨[], by rw [hp, Reader.pending, hl]; rfl, rfl, rfl⟩, hc⟩
        | _ => cases h
    · obtain ⟨source, lookahead, consumed, limit, initial, later⟩ := r
      obtain rfl : lookahead = none := hl
      obtain rfl : source = none := by simpa using hs
      cases h
      exact ⟨⟨[], .refl _⟩, hc⟩

theorem peekRequired (part : String) : Moves P (ReadM.peekRequired part) fun _ _ => True := by
  refine Moves.bind (Q := fun _ _ => True) (peek (C := fun _ => True)).always fun tag? => ?_
  cases tag? with
  | none => exact throw _
  | some tag => exact pure tag

/-! ### Bytes behind a tag -/

theorem bytes (n : Nat) (part : String) : Moves Settled (ReadM.bytes n part) fun _ => Settled := by
  intro r hr bs r' h
  obtain ⟨hp, -, hl⟩ := ReadM.passes_of_bytes h hr
  exact ⟨⟨bs, hp⟩, hl⟩

theorem byte (part : String) : Moves Settled (ReadM.byte part) fun _ => Settled := by
  intro r hr b r' h
  obtain ⟨hp, hl⟩ := ReadM.passes_of_byte h hr
  exact ⟨⟨[b], hp⟩, hl⟩

theorem checkLength (n : Nat) : Moves P (ReadM.checkLength n) fun _ => P := by
  intro r hr n' r' h
  obtain ⟨-, rfl, -⟩ := ReadM.of_checkLength h
  exact ⟨⟨[], .refl _⟩, hr⟩

theorem lengthBytes (count n : Nat) : Moves Settled (ReadM.lengthBytes count n) fun _ => Settled := by
  intro r hr n' r' h
  obtain ⟨bs, -, hp, hl, -⟩ := ReadM.passes_of_lengthBytes h hr
  exact ⟨⟨bs, hp⟩, hl⟩

theorem length : Moves Settled ReadM.length fun _ => Settled := by
  refine (byte "length").bind fun first => ?_
  split
  · exact checkLength _
  · dsimp only
    split
    · exact throw _
    · exact (lengthBytes _ _).bind fun _ => checkLength _

theorem header : Moves P ReadM.header fun _ => Settled :=
  (requiredTag "type").bind fun _ => length

theorem skipValue (n : Nat) : Moves Settled (ReadM.skipValue n) fun _ => Settled := by
  rw [ReadM.skipValue_eq]
  exact map (bytes n "value")

theorem rejectLength (kind : String) (n : Nat) : Moves Settled (ReadM.rejectLength kind n) Q :=
  (skipValue n).bind fun _ => throw _

/-! ### Single elements -/

theorem octets : Moves P ReadM.octets fun _ => Settled :=
  header.bind fun n => bytes n "value"

theorem skipElement : Moves P ReadM.skipElement fun _ => Settled :=
  header.bind skipValue

theorem boolean : Moves P ReadM.boolean fun _ => Settled := by
  refine header.bind fun n => ?_
  split
  · exact map (byte "value")
  · exact rejectLength "boolean" n

theorem integer : Moves P ReadM.integer fun _ => Settled := by
  refine header.bind fun n => ?_
  split
  · exact map (bytes n "value")
  · exact rejectLength "integer" n

theorem null : Moves P ReadM.null fun _ => Settled := by
  refine header.bind fun n => ?_
  split
  · exact pure ()
  · exact rejectLength "null" n

theorem text : Moves P ReadM.text fun _ => Settled := by
  refine octets.bind fun bs => ?_
  split
  · exact pure _
  · exact throw _

theorem sequence? : Moves P ReadM.sequence? fun _ => Settled := by
  refine tag?.bind fun tag? => ?_
  cases tag? with
  | none => exact pure none
  | some tag => exact length.bind fun n => get.bind fun r => pure_of fun _ h => h.1

theorem sequence : Moves P ReadM.sequence fun _ => Settled := by
  refine sequence?.bind fun bounds? => ?_
  cases bounds? with
  | none => exact throw _
  | some bounds => exact pure bounds

/-! ### Open sequences -/

/-- Asking for more changes nothing, and fails where the sequence was overrun. -/
theorem more : Moves P (ReadM.more bounds) fun more r => P r ∧ r.consumed ≤ bounds.stop ∧
    (more = true ↔ r.consumed < bounds.stop) := by
  refine get.bind fun r => ?_
  dsimp only
  split
  · exact throw_bind _ _
  · rename_i hle
    refine pure_of ?_
    rintro s ⟨hs, rfl⟩
    exact ⟨hs, Nat.not_lt.mp hle, decide_eq_true_iff⟩

theorem foldComponents {step : σ → ReadM σ} (hs : ∀ s, Moves (fun _ => True) (step s) fun _ => Settled)
    (count : Nat) (s : σ) : Moves Settled (ReadM.foldComponents bounds step count s) fun _ => Settled := by
  induction count generalizing s with
  | zero => exact pure s
  | succ count ih =>
    refine more.bind fun more => ?_
    split
    · exact (hs s).always.bind fun s' => ih s'
    · exact pure_of fun _ h => h.1

/-- A tag that was looked at belongs to a component, so at the end of the sequence there is none. -/
theorem components {step : σ → ReadM σ} (hs : ∀ s, Moves (fun _ => True) (step s) fun _ => Settled) (s : σ) :
    Moves (Within bounds.stop) (ReadM.components bounds step s) fun _ => Settled := by
  refine more.bind fun more => ?_
  split
  · exact (hs s).always.bind fun s' => foldComponents hs _ s'
  · rename_i hmore
    refine pure_of fun r ⟨hw, hle, hm⟩ => ?_
    cases hl : r.lookahead with
    | none => exact hl
    | some tag => exact absurd (hm.mpr (hw (by rw [hl]; rfl))) hmore

theorem listOf (hp : Moves (fun _ => True) p fun _ => Settled) :
    Moves Settled (ReadM.listOf bounds p) fun _ => Settled :=
  map (components (fun _ => map hp) []).settled

theorem skipRest : Moves (Within bounds.stop) (ReadM.skipRest bounds) fun _ => Settled :=
  components (fun _ => skipElement) ()

theorem sequence_listOf (hp : Moves (fun _ => True) p fun _ => Settled) :
    Moves P (do ReadM.listOf (← ReadM.sequence) p) fun _ => Settled :=
  sequence.bind fun _ => listOf hp

theorem tagWithin : Moves (Within bounds.stop) (ReadM.tagWithin bounds) fun _ => Within bounds.stop := by
  refine more.bind fun more => ?_
  split
  · refine (peek (C := (· < bounds.stop))).of_imp ?_ fun _ r h _ => h
    rintro r ⟨-, -, hm⟩
    exact hm.mp ‹_›
  · exact pure_of fun _ h => h.1

theorem optional {tag : UInt8} (hp : Moves (fun _ => True) p fun _ => Settled) :
    Moves (Within bounds.stop) (ReadM.optional bounds tag p) fun _ => Within bounds.stop := by
  refine tagWithin.bind fun tag? => ?_
  split
  · exact (map hp.always).of_imp (fun _ h => h) fun _ _ h => Settled.within h _
  · exact pure none

end Moves

end Ldap.Ber
