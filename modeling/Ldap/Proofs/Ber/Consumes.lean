import Ldap.Proofs.Ber.Element
import Ldap.Proofs.Ber.Moves

/-! The bytes that a step has consumed where it succeeds, on any input at all. A step for a single element has consumed
an element. One that opens a sequence has, too, if it goes on to the end of the sequence and notices when it is past
it; otherwise all that is known of the declared length is that it was read. -/

namespace Ldap.Ber

open Length (Declares)

variable {α β σ : Type} {p : ReadM α} {f : α → ReadM β} {r r' : Reader} {Q Q' : α → List UInt8 → Prop}
  {R : β → List UInt8 → Prop} {E : β → Prop → Prop} {bounds : Bounds}

/-- Where the step succeeds, on a reader whose limit is a length, its answer and the bytes that it has consumed
have `Q`. -/
def Consumes (p : ReadM α) (Q : α → List UInt8 → Prop) : Prop :=
  ∀ r, r.limit ≤ maxLength → ∀ a r', p.answer r = .ok (a, r') → ∃ taken, r.Passes taken r' ∧ Q a taken

namespace Consumes

theorem of_imp (hp : Consumes p Q) (h : ∀ a taken, Q a taken → Q' a taken) : Consumes p Q' := by
  intro r hr a r' ha
  obtain ⟨taken, hpasses, hq⟩ := hp r hr a r' ha
  exact ⟨taken, hpasses, h a taken hq⟩

/-- What consumes an element consumes a byte or more. -/
theorem ne_nil (hp : Consumes p fun _ => IsElement) : Consumes p fun _ taken => taken ≠ [] :=
  hp.of_imp fun _ _ h => h.ne_nil

theorem pure (a : α) : Consumes (pure a) fun b taken => b = a ∧ taken = [] := by
  intro r _ b r' h
  cases h
  exact ⟨[], .refl r, rfl, rfl⟩

theorem throw (e : Error) : Consumes (throw e) Q := by
  intro r _ a r' h
  cases h

theorem bind {R : α → β → List UInt8 → Prop} (hp : Consumes p Q) (hf : ∀ a, Consumes (f a) (R a)) :
    Consumes (p >>= f) fun b taken => ∃ a xs ys, taken = xs ++ ys ∧ Q a xs ∧ R a b ys := by
  intro r hr b r' h
  obtain ⟨a, s, hs, h⟩ := ReadM.answer_bind_inv h
  obtain ⟨xs, hxs, hq⟩ := hp r hr a s hs
  obtain ⟨ys, hys, hr'⟩ := hf a s (hxs.limit ▸ hr) b r' h
  exact ⟨xs ++ ys, hxs.trans hys, a, xs, ys, rfl, hq, hr'⟩

theorem throw_bind (e : Error) (f : α → ReadM β) : Consumes (MonadExcept.throw e >>= f) R := by
  intro r _ b r' h
  obtain ⟨a, s, hs, -⟩ := ReadM.answer_bind_inv h
  cases hs

/-- What only looks at the answer of a step consumes nothing more. -/
theorem bind_still {P : List UInt8 → Prop} (hp : Consumes p fun _ => P)
    (hf : ∀ a, Consumes (f a) fun _ taken => taken = []) : Consumes (p >>= f) fun _ => P := by
  refine (hp.bind hf).of_imp ?_
  rintro _ _ ⟨_, xs, _, rfl, hq, rfl⟩
  rwa [List.append_nil]

theorem map {g : α → β} (hp : Consumes p fun a => R (g a)) : Consumes (do return g (← p)) R := by
  refine (hp.bind fun a => pure (g a)).of_imp ?_
  rintro _ _ ⟨a, xs, _, rfl, hq, rfl, rfl⟩
  rwa [List.append_nil]

theorem lift (e : Except Error α) : Consumes (ReadM.lift e) fun a taken => taken = [] ∧ e = .ok a := by
  cases e with
  | ok a => exact (pure a).of_imp fun _ _ h => ⟨h.2, h.1 ▸ rfl⟩
  | error e => exact throw e

/-! ### Looking at what is to come -/

theorem peek : Consumes ReadM.peek fun _ taken => taken = [] := by
  intro r _ tag? r' h
  obtain ⟨⟨taken, hp⟩, hc⟩ := Moves.peek (C := (· = r.consumed)) r rfl tag? r' h
  have hlen := hp.consumed
  exact ⟨taken, hp, List.length_eq_zero_iff.mp (by omega)⟩

theorem peek_bind {f : Option UInt8 → ReadM β} (hf : ∀ tag?, Consumes (f tag?) R) : Consumes (ReadM.peek >>= f) R := by
  refine (peek.bind hf).of_imp ?_
  rintro _ _ ⟨_, _, ys, rfl, rfl, hr⟩
  exact hr

theorem peekRequired_bind {f : UInt8 → ReadM β} {part : String} (hf : ∀ tag, Consumes (f tag) R) :
    Consumes (ReadM.peekRequired part >>= f) R := by
  rw [ReadM.peekRequired, bind_assoc]
  refine peek_bind fun tag? => ?_
  cases tag? with
  | none => exact throw_bind _ _
  | some tag => exact hf tag

/-! ### Single elements -/

/-- A header and then as many bytes as it declares. -/
theorem header_bind {g : Nat → ReadM α} (hg : ∀ n r a r', r.lookahead = none → (g n).answer r = .ok (a, r') →
    ∃ value, value.length = n ∧ r.Passes value r') : Consumes (ReadM.header >>= g) fun _ => IsElement := by
  intro r hr a r' h
  rw [ReadM.header, bind_assoc] at h
  obtain ⟨tag, s, htag, h⟩ := ReadM.answer_bind_inv h
  obtain ⟨n, t, hlength, h⟩ := ReadM.answer_bind_inv h
  rw [ReadM.answer_requiredTag] at htag
  obtain ⟨hpt, hls, -⟩ := Reader.passes_of_fetch htag fun _ => rfl
  obtain ⟨header, hph, hlt, hd⟩ := ReadM.declares_of_length hlength hls (hpt.limit ▸ hr)
  obtain ⟨value, hlen, hpv⟩ := hg n t a r' hlt h
  refine ⟨_, hpt.trans (hph.trans hpv), ?_⟩
  exact (IsElement.iff_of_declares hd).mpr hlen.symm

theorem octets : Consumes ReadM.octets fun _ => IsElement := by
  refine header_bind fun n r bs r' hl h => ?_
  obtain ⟨hp, hlen, -⟩ := ReadM.passes_of_bytes h hl
  exact ⟨bs, hlen, hp⟩

theorem skipElement : Consumes ReadM.skipElement fun _ => IsElement := by
  refine header_bind fun n r a r' hl h => ?_
  rw [ReadM.skipValue_eq] at h
  obtain ⟨bs, s, hbytes, h⟩ := ReadM.answer_bind_inv h
  cases h
  obtain ⟨hp, hlen, -⟩ := ReadM.passes_of_bytes hbytes hl
  exact ⟨bs, hlen, hp⟩

theorem text : Consumes ReadM.text fun _ => IsElement := by
  refine octets.bind_still fun bs => ?_
  split
  · exact (pure _).of_imp fun _ _ h => h.2
  · exact throw _

/-- A value of the wrong size is not answered. -/
theorem not_rejectLength {kind : String} {n : Nat} {a : α} : (ReadM.rejectLength kind n).answer r ≠ .ok (a, r') := by
  intro h
  obtain ⟨_, _, -, h⟩ := ReadM.answer_bind_inv h
  cases h

theorem boolean : Consumes ReadM.boolean fun _ => IsElement := by
  refine header_bind fun n r a r' hl h => ?_
  split at h
  · rename_i hn
    obtain ⟨b, s, hb, h⟩ := ReadM.answer_bind_inv h
    cases h
    obtain ⟨hp, -⟩ := ReadM.passes_of_byte hb hl
    exact ⟨[b], hn.symm, hp⟩
  · exact absurd h not_rejectLength

theorem integer : Consumes ReadM.integer fun _ => IsElement := by
  refine header_bind fun n r a r' hl h => ?_
  split at h
  · obtain ⟨bs, s, hbs, h⟩ := ReadM.answer_bind_inv h
    cases h
    obtain ⟨hp, hlen, -⟩ := ReadM.passes_of_bytes hbs hl
    exact ⟨bs, hlen, hp⟩
  · exact absurd h not_rejectLength

theorem null : Consumes ReadM.null fun _ => IsElement := by
  refine header_bind fun n r a r' hl h => ?_
  split at h
  · rename_i hn
    cases h
    exact ⟨[], hn.symm, .refl r⟩
  · exact absurd h not_rejectLength

end Consumes

/-! ### Open sequences -/

/-- Inside an open sequence, of which no more is left than it declares, an answer has `E` with whether it is given at
the end of the sequence. -/
def EndsAt (bounds : Bounds) (p : ReadM β) (E : β → Prop → Prop) : Prop :=
  ∀ r, r.limit ≤ maxLength → bounds.stop ≤ r.consumed + bounds.length → ∀ b r', p.answer r = .ok (b, r') →
    ∃ taken, r.Passes taken r' ∧ E b (r'.consumed = bounds.stop)

namespace EndsAt

theorem bind (hp : Consumes p Q) (hf : ∀ a, EndsAt bounds (f a) E) : EndsAt bounds (p >>= f) E := by
  intro r hr hstop b r' h
  obtain ⟨a, s, hs, h⟩ := ReadM.answer_bind_inv h
  obtain ⟨xs, hxs, -⟩ := hp r hr a s hs
  have hlen := hxs.consumed
  obtain ⟨ys, hys, hend⟩ := hf a s (hxs.limit ▸ hr) (by omega) b r' h
  exact ⟨xs ++ ys, hxs.trans hys, hend⟩

/-- What consumes nothing may follow the end of the sequence. -/
theorem bind_still {G : β → Prop} (hp : EndsAt bounds p fun _ ended => ended)
    (hf : ∀ a, Consumes (f a) fun b taken => taken = [] ∧ G b) :
    EndsAt bounds (p >>= f) fun b ended => ended ∧ G b := by
  intro r hr hstop b r' h
  obtain ⟨a, s, hs, h⟩ := ReadM.answer_bind_inv h
  obtain ⟨xs, hxs, hend⟩ := hp r hr hstop a s hs
  obtain ⟨_, hys, rfl, hg⟩ := hf a s (hxs.limit ▸ hr) b r' h
  exact ⟨xs ++ [], hxs.trans hys, hys.consumed.trans hend, hg⟩

theorem map {g : α → β} {G : β → Prop} (hp : EndsAt bounds p fun _ ended => ended) (hg : ∀ a, G (g a)) :
    EndsAt bounds (do return g (← p)) fun b ended => ended ∧ G b := by
  refine hp.bind_still fun a => (Consumes.pure (g a)).of_imp ?_
  rintro _ _ ⟨rfl, rfl⟩
  exact ⟨rfl, hg a⟩

theorem of_more {more : Bool} (h : (ReadM.more bounds).answer r = .ok (more, r')) :
    r' = r ∧ r.consumed ≤ bounds.stop ∧ (more = true ↔ r.consumed < bounds.stop) := by
  obtain ⟨s, s', hs, h⟩ := ReadM.answer_bind_inv h
  cases hs
  dsimp only at h
  split at h
  · obtain ⟨_, _, hs, -⟩ := ReadM.answer_bind_inv h
    cases hs
  · rename_i hle
    cases h
    exact ⟨rfl, Nat.not_lt.mp hle, decide_eq_true_iff⟩

/-- Where no more is asked for, the sequence ends. -/
theorem more_bind {f : Bool → ReadM β} (htrue : Consumes (f true) fun b _ => ∀ ended, E b ended)
    (hfalse : Consumes (f false) fun b taken => taken = [] ∧ E b True) : EndsAt bounds (ReadM.more bounds >>= f) E := by
  intro r hr _ b r' h
  obtain ⟨more, s, hmore, h⟩ := ReadM.answer_bind_inv h
  obtain ⟨rfl, hle, hiff⟩ := of_more hmore
  cases more with
  | true =>
    obtain ⟨taken, hp, he⟩ := htrue s hr b r' h
    exact ⟨taken, hp, he _⟩
  | false =>
    obtain ⟨_, hp, rfl, he⟩ := hfalse s hr b r' h
    have hend : s.consumed = bounds.stop :=
      Nat.le_antisymm hle (Nat.not_lt.mp fun hlt => Bool.false_ne_true (hiff.mpr hlt))
    exact ⟨[], hp, (eq_true (hp.consumed.trans hend)).symm ▸ he⟩

/-- Each component takes a byte or more, so that the rounds do not run out before the end of the sequence. -/
theorem foldComponents {step : σ → ReadM σ} (hs : ∀ s, Consumes (step s) fun _ taken => taken ≠ []) (count : Nat)
    (s : σ) {s' : σ} (hr : r.limit ≤ maxLength) (hstop : bounds.stop ≤ r.consumed + count)
    (h : (ReadM.foldComponents bounds step (count + 1) s).answer r = .ok (s', r')) :
    ∃ taken, r.Passes taken r' ∧ r'.consumed = bounds.stop := by
  induction count generalizing s r with
  | zero =>
    obtain ⟨more, t, hmore, hrest⟩ := ReadM.answer_bind_inv h
    obtain ⟨rfl, hle, hiff⟩ := of_more hmore
    cases more with
    | true => exact absurd (hiff.mp rfl) (Nat.not_lt.mpr hstop)
    | false =>
      cases hrest
      exact ⟨[], .refl _, Nat.le_antisymm hle hstop⟩
  | succ count ih =>
    obtain ⟨more, t, hmore, hrest⟩ := ReadM.answer_bind_inv h
    obtain ⟨rfl, hle, hiff⟩ := of_more hmore
    cases more with
    | true =>
      obtain ⟨s₁, u, hstep, hrest⟩ := ReadM.answer_bind_inv hrest
      obtain ⟨xs, hxs, hne⟩ := hs s t hr s₁ u hstep
      have hlen := hxs.consumed
      have hpos := List.length_pos_iff.mpr hne
      obtain ⟨ys, hys, hend⟩ := ih s₁ (hxs.limit ▸ hr) (by omega) hrest
      exact ⟨xs ++ ys, hxs.trans hys, hend⟩
    | false =>
      cases hrest
      exact ⟨[], .refl _, Nat.le_antisymm hle (Nat.not_lt.mp fun hlt => Bool.false_ne_true (hiff.mpr hlt))⟩

theorem components {step : σ → ReadM σ} (hs : ∀ s, Consumes (step s) fun _ taken => taken ≠ []) (s : σ) :
    EndsAt bounds (ReadM.components bounds step s) fun _ ended => ended :=
  fun _ hr hstop _ _ h => foldComponents hs bounds.length s hr hstop h

theorem listOf (hp : Consumes p fun _ taken => taken ≠ []) :
    EndsAt bounds (ReadM.listOf bounds p) fun _ ended => ended := by
  have hfound : EndsAt bounds (ReadM.components bounds (fun found => do return (← p) :: found) [])
      fun _ ended => ended := components (fun _ => hp.map) []
  simpa only [and_true, ReadM.listOf] using hfound.map (G := fun _ => True) fun _ => trivial

end EndsAt

namespace Consumes

theorem more : Consumes (ReadM.more bounds) fun _ taken => taken = [] := by
  intro r _ more r' h
  obtain ⟨rfl, -, -⟩ := EndsAt.of_more h
  exact ⟨[], .refl r', rfl⟩

/-- The end of a sequence may be asked for last of all. -/
theorem unless_more (e : Error) (b : β) : Consumes (do
    if ← ReadM.more bounds then MonadExcept.throw e
    return b) fun b' taken => taken = [] ∧ b' = b := by
  refine (more.bind fun more => (?_ : Consumes _ fun b' taken => b' = b ∧ taken = [])).of_imp ?_
  · dsimp only
    split
    · exact throw_bind _ _
    · exact pure b
  · rintro b' _ ⟨_, _, _, rfl, rfl, rfl, rfl⟩
    exact ⟨rfl, rfl⟩

theorem tagWithin : Consumes (ReadM.tagWithin bounds) fun _ taken => taken = [] := by
  refine more.bind_still fun more => ?_
  split
  · exact peek
  · exact (pure none).of_imp fun _ _ h => h.2

/-- A component that may be left out is an element if it is there. -/
theorem optional {tag : UInt8} (hp : Consumes p fun _ => IsElement) :
    Consumes (ReadM.optional bounds tag p) fun a? taken => a?.isSome → IsElement taken := by
  refine (tagWithin.bind fun tag? => (?_ : Consumes _ fun a? taken => a?.isSome → IsElement taken)).of_imp ?_
  · split
    · exact map (hp.of_imp fun _ _ h _ => h)
    · exact (pure none).of_imp fun _ _ ⟨h, _⟩ hsome => by cases h; cases hsome
  · rintro _ _ ⟨_, _, _, rfl, rfl, h⟩
    exact h

theorem of_sequence (h : ReadM.sequence.answer r = .ok (bounds, r')) (hr : r.limit ≤ maxLength) :
    ∃ header, r.Passes (bounds.tag :: header) r' ∧ Declares header bounds.length ∧
      bounds.stop = r'.consumed + bounds.length := by
  obtain ⟨bounds?, s, hs, h⟩ := ReadM.answer_bind_inv h
  obtain ⟨tag?, t, htag, hs⟩ := ReadM.answer_bind_inv hs
  cases tag? with
  | none =>
    cases hs
    cases h
  | some tag =>
    obtain ⟨n, u, hn, hs⟩ := ReadM.answer_bind_inv hs
    obtain ⟨hpt, ht⟩ := ReadM.passes_of_tag? htag
    obtain ⟨header, hph, -, hd⟩ := ReadM.declares_of_length hn ht (hpt.limit ▸ hr)
    cases hs
    cases h
    exact ⟨header, hpt.trans hph, hd, rfl⟩

/-- A sequence that is opened, whatever is read behind its header. -/
theorem sequence_bind {f : Bounds → ReadM β} (hf : ∀ bounds, Consumes (f bounds) R) :
    Consumes (ReadM.sequence >>= f) fun b taken => ∃ tag header n inner, Declares header n ∧
      taken = tag :: (header ++ inner) ∧ R b inner := by
  intro r hr b r' h
  obtain ⟨bounds, s, hs, h⟩ := ReadM.answer_bind_inv h
  obtain ⟨header, hp, hd, -⟩ := of_sequence hs hr
  obtain ⟨inner, hi, hb⟩ := hf bounds s (hp.limit ▸ hr) b r' h
  exact ⟨_, hp.trans hi, bounds.tag, header, bounds.length, inner, hd, rfl, hb⟩

/-- A sequence is read to its end just if what was consumed is an element. -/
theorem sequence_bind_end {f : Bounds → ReadM β} (hf : ∀ bounds, EndsAt bounds (f bounds) E) :
    Consumes (ReadM.sequence >>= f) fun b taken => E b (IsElement taken) := by
  intro r hr b r' h
  obtain ⟨bounds, s, hs, h⟩ := ReadM.answer_bind_inv h
  obtain ⟨header, hp, hd, hstop⟩ := of_sequence hs hr
  obtain ⟨inner, hi, hend⟩ := hf bounds s (hp.limit ▸ hr) (Nat.le_of_eq hstop) b r' h
  have hiff : (r'.consumed = bounds.stop) = IsElement (bounds.tag :: (header ++ inner)) := by
    have hlen := hi.consumed
    rw [IsElement.iff_of_declares hd, eq_iff_iff]
    omega
  refine ⟨bounds.tag :: (header ++ inner), hp.trans hi, ?_⟩
  dsimp only
  rwa [← hiff]

end Consumes

/-! ### Skipping -/

/-- The reader is past the element in front of it, where the header of that says that it ends. -/
def Reader.Skips (r r' : Reader) : Prop :=
  ∃ e n, Element.decodePrefix r.pending = .ok (e, n) ∧ r'.consumed = r.consumed + n ∧
    r'.pending = r.pending.drop n ∧ r'.lookahead = none

theorem Reader.Passes.skips_iff {taken : List UInt8} (h : r.Passes taken r') (hl : r'.lookahead = none) :
    r.Skips r' ↔ IsElement taken := by
  constructor
  · rintro ⟨e, n, hd, hn, -, -⟩
    obtain rfl : n = taken.length := by
      have := h.consumed
      omega
    rw [h.pending] at hd
    exact ⟨e, Element.decodePrefix_append_iff.mp hd⟩
  · rintro ⟨e, he⟩
    refine ⟨e, taken.length, ?_, h.consumed, ?_, hl⟩
    · rw [h.pending]
      exact Element.decodePrefix_append_iff.mpr he
    · rw [h.pending, List.drop_left]

end Ldap.Ber
