import Ldap.Proofs.Message.Stream

/-! Messages that were decoded can be encoded. The decoder accepts far more than the encoder writes: lengths in
the long form, padded integers, tags and components that it does not know. What it makes of them is nevertheless
a message that can be read back from its encoding. -/

namespace Ldap

open Ber (Reader ReadM Bounds Item)

/-! ### What steps answer -/

namespace Ber

variable {α β σ : Type} {p : ReadM α} {f : α → ReadM β} {a : α} {Q : α → Prop} {R : β → Prop}

/-- Whatever the step answers has the property. -/
def Answers (p : ReadM α) (Q : α → Prop) : Prop := ∀ r a r', p.answer r = .ok (a, r') → Q a

namespace Answers

theorem pure (h : Q a) : Answers (Pure.pure a) Q := by
  intro r a' r' ha
  cases ha
  exact h

theorem throw (e : Error) : Answers (throw e : ReadM α) Q := by
  intro r a r' h
  cases h

theorem bind (hp : Answers p Q) (hf : ∀ a, Q a → Answers (f a) R) : Answers (p >>= f) R := by
  intro r b r' h
  obtain ⟨a, s, ha, hb⟩ := ReadM.answer_bind_inv h
  exact hf a (hp r a s ha) s b r' hb

/-- Of a step whose answer is of no importance nothing needs to be known. -/
theorem skip (hf : ∀ a, Answers (f a) R) : Answers (p >>= f) R :=
  bind (Q := fun _ => True) (fun _ _ _ _ => trivial) fun a _ => hf a

theorem map {g : α → β} (hp : Answers p Q) (h : ∀ a, Q a → R (g a)) : Answers (do return g (← p)) R :=
  hp.bind fun a ha => pure (h a ha)

theorem lift {e : Except Error α} (h : ∀ a, e = .ok a → Q a) : Answers (ReadM.lift e) Q := by
  cases e with
  | ok a => exact pure (h a rfl)
  | error e => exact throw e

variable {bounds : Bounds} {S : σ → Prop}

theorem foldComponents {step : σ → ReadM σ} (hs : ∀ s, S s → Answers (step s) S) (count : Nat) {s : σ} (h : S s) :
    Answers (ReadM.foldComponents bounds step count s) S := by
  induction count generalizing s with
  | zero => exact pure h
  | succ count ih =>
    refine skip fun more => ?_
    split
    · exact (hs s h).bind fun s' => ih
    · exact pure h

theorem listOf (hp : Answers p Q) : Answers (ReadM.listOf bounds p) fun as => ∀ a ∈ as, Q a := by
  refine map (Q := fun found => ∀ a ∈ found, Q a) (foldComponents (fun found hfound => ?_) _ (by simp)) ?_
  · exact map hp fun a ha => List.forall_mem_cons.mpr ⟨ha, hfound⟩
  · intro found hfound a ha
    exact hfound a (List.mem_reverse.mp ha)

end Answers
end Ber

open Ber (Answers)

/-! ### Filters -/

namespace Filter

variable {levels : Nat}

theorem answers_leaf (tag : UInt8) : Answers (readLeaf tag) (Fits (levels + 1)) := by
  unfold readLeaf
  split
  · exact .skip fun _ => .skip fun _ => .skip fun _ => .pure ⟨Nat.succ_pos _, rfl⟩
  split
  · exact .skip fun _ => .skip fun _ => .skip fun _ => .skip fun _ => .pure ⟨Nat.succ_pos _, rfl⟩
  split
  · exact .skip fun _ => .pure ⟨Nat.succ_pos _, rfl⟩
  split
  · refine .skip fun _ => .skip fun m => .lift fun f hf => ?_
    obtain ⟨rule, name, value, dnAttributes⟩ := m
    cases value with
    | none => cases hf
    | some value =>
      cases rule <;> cases name <;> cases hf
      all_goals exact ⟨Nat.succ_pos _, rfl⟩
  · exact .throw _

/-- A filter that was read nests over no more levels than the reader went along. -/
theorem answers_levels (levels : Nat) : Answers (readLevels levels) (Fits levels) := by
  induction levels with
  | zero => exact .throw _
  | succ levels ih =>
    have hall : ∀ filters : List Filter, (∀ f ∈ filters, Fits levels f) →
        depthAll filters < levels + 1 ∧ targetedAll filters := fun _ => fitsAll_iff.mpr
    refine .skip fun tag => ?_
    split
    · exact .skip fun bounds => .map (.listOf ih) hall
    split
    · exact .skip fun bounds => .map (.listOf ih) hall
    split
    · refine .skip fun bounds => .bind ih fun f hf => .skip fun more => ?_
      dsimp only
      split
      · exact .skip fun _ => .pure ⟨Nat.succ_lt_succ hf.1, hf.2⟩
      · exact .pure ⟨Nat.succ_lt_succ hf.1, hf.2⟩
    · exact answers_leaf tag

end Filter

/-! ### Messages -/

theorem SearchRequest.answers : Answers SearchRequest.read fun r => (Op.searchRequest r).Readable := by
  refine .skip fun _ => .skip fun _ => .skip fun _ => .skip fun _ => .skip fun _ => .skip fun _ => .skip fun _ =>
    .bind (Filter.answers_levels _) fun filter hf => .skip fun _ => .skip fun _ => .skip fun _ => .pure ?_
  exact ⟨Nat.le_of_lt_succ hf.1, hf.2⟩

/-- An operation that was read can be read back. -/
theorem Op.answers : Answers Op.read Op.Readable := by
  refine .skip fun tag => ?_
  split
  · exact .skip fun _ => .pure trivial
  · exact .skip fun _ => .skip fun _ => .skip fun _ => .skip fun _ => .pure trivial
  · exact .skip fun _ => .pure trivial
  · exact .skip fun _ => .pure trivial
  · exact .skip fun _ => .skip fun _ => .skip fun _ => .skip fun _ => .pure trivial
  · exact .skip fun _ => .skip fun _ => .skip fun _ => .skip fun _ => .skip fun _ => .skip fun _ => .skip fun _ =>
      .pure trivial
  · exact .skip fun _ => .pure trivial
  · exact .skip fun _ => .pure trivial
  · exact .skip fun _ => .pure trivial
  · exact .skip fun _ => .pure trivial
  · exact .skip fun _ => .pure trivial
  · exact .skip fun _ => .skip fun _ => .skip fun _ => .skip fun _ => .pure trivial
  · exact .skip fun _ => .skip fun _ => .skip fun _ => .skip fun _ => .skip fun _ => .pure trivial
  · exact .skip fun _ => .pure trivial
  · exact .skip fun _ => .pure trivial
  · exact .skip fun _ => .pure trivial
  · exact .map SearchRequest.answers fun _ => id
  · exact .skip fun _ => .pure trivial
  · exact .skip fun _ => .skip fun _ => .pure trivial
  · exact .skip fun _ => .pure trivial
  · exact .skip fun _ => .pure trivial
  · exact .throw _

namespace Message

variable {m : Message} {bytes : List UInt8}

theorem answers_body (bounds : Bounds) : Answers (readBody bounds) fun m => m.op.Readable := by
  have hrest : Answers (do
      let id ← ReadM.integer
      let op ← Op.read
      let controls ← readControls bounds
      if ← ReadM.more bounds then throw (.malformed "trailing data inside LDAP message")
      return (⟨id, op, controls⟩ : Message)) fun m => m.op.Readable := by
    refine .skip fun id => .bind Op.answers fun op hop => .skip fun controls => .skip fun more => ?_
    split
    · exact .skip fun _ => .pure hop
    · exact .pure hop
  unfold readBody
  dsimp only
  split
  · exact .skip fun _ => hrest
  · exact hrest

theorem answers_read : Answers read fun m? => ∀ m, m? = some m → m.op.Readable := by
  refine .skip fun bounds => ?_
  split
  · exact .pure fun m h => by cases h
  · refine .map (answers_body _) fun m hm m' h => ?_
    cases h
    exact hm

/-- Bytes are decoded if they hold an element and no others, and a message is read from them. -/
theorem decode_eq_ok_iff : decode bytes = .ok m ↔ (∃ e, Ber.Element.decode bytes = .ok e) ∧
    ∃ r, read.answer (Reader.ofBytes bytes) = .ok (some m, r) := by
  unfold decode ReadM.answer
  cases Ber.Element.decode bytes with
  | error e => simp [bind, Except.bind]
  | ok e =>
    cases read.run (Reader.ofBytes bytes) with
    | ok m? r => cases m? <;> simp [bind, Except.bind]
    | error e r => simp [bind, Except.bind]

theorem readable_of_decode (h : decode bytes = .ok m) : m.op.Readable := by
  obtain ⟨-, r, hr⟩ := decode_eq_ok_iff.mp h
  exact answers_read _ _ _ hr m rfl

/-- What was decoded, from whatever bytes, is decoded from its encoding as well, provided that this can be
read at all. -/
theorem decode_reencoded (bytes : List UInt8) (m : Message) (h : decode bytes = .ok m)
    (hl : m.toItem.value.length ≤ Ber.maxLength) : decode m.encode = .ok m := by
  refine decode_eq_ok_iff.mpr ⟨⟨⟨m.toItem.tag, m.toItem.value⟩, ?_⟩, ?_⟩
  · rw [encode, Item.toBytes_eq_encode, Item.encode_eq]
    exact Ber.Element.decode_encode hl
  · have hr : (Reader.ofBytes m.encode).At ([.bytes m.encode] ++ []) := ⟨rfl, rfl⟩
    have hc : Ber.Delivery.content [.bytes m.encode] = m.encode ++ [] := rfl
    obtain ⟨left, -, -, ha⟩ := answer_read_arrived ⟨readable_of_decode h, hl⟩ hr rfl
      (by simp [Ber.Delivery.Plain, Ber.Delivery.isPlain]) hc
    exact ⟨_, ha⟩

/-- The length of this message is in the long form, its integers are padded, and the list of its controls is
empty. -/
theorem decode_reencoded_abandon :
    let bytes := [0x30, 0x81, 0x0A, 0x02, 0x02, 0x00, 0x07, 0x50, 0x02, 0x00, 0x05, 0xA0, 0x00]
    let m : Message := ⟨7, .abandonRequest 5, []⟩
    m.encode ≠ bytes ∧ decode bytes = .ok m ∧ decode m.encode = .ok m := by
  intro bytes m
  have h : decode bytes = .ok m := by decide +kernel
  exact ⟨by decide, h, decode_reencoded bytes m h (by decide)⟩

end Message
end Ldap
