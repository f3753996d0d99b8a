import Ldap.Proofs.Ber.Delivery

/-! How a step of reading ends, with a value or with a kind of error. Each step that takes bytes off the
reader is told in terms of one that takes a single byte, under the rule for timeouts in front of an element
or under that for later ones. -/

namespace Ldap.Ber

/-- An error, but for the part of an element at which the input ended. -/
def Error.kind : Error → Error
  | .truncated _ => .truncated ""
  | e => e

theorem Error.eq_timeout_of_kind {e : Error} {initial : Bool} (h : e.kind = .timeout initial) :
    e = .timeout initial := by
  cases e <;> simp_all [kind]

theorem Error.eq_malformed_of_kind {e : Error} {reason : String} (h : e.kind = .malformed reason) :
    e = .malformed reason := by
  cases e <;> simp_all [kind]

theorem Error.truncated_of_kind {e : Error} {part : String} (h : e.kind = .truncated part) :
    ∃ part, e = .truncated part := by
  cases e <;> simp_all [kind]

namespace ReadM

variable {α β : Type}

theorem run_bind_of_ok {p : ReadM α} {f : α → ReadM β} {r r' : Reader} {a : α} (h : p.run r = .ok a r') :
    (p >>= f).run r = (f a).run r' := by
  rw [EStateM.run_bind, h]

theorem run_bind_of_error {p : ReadM α} {f : α → ReadM β} {r r' : Reader} {e : Error} (h : p.run r = .error e r') :
    (p >>= f).run r = .error e r' := by
  rw [EStateM.run_bind, h]

/-- How a step ends: with a value and the reader behind it, or with a kind of error. -/
def answer (p : ReadM α) (r : Reader) : Except Error (α × Reader) :=
  match p.run r with
  | .ok a r => .ok (a, r)
  | .error e _ => .error e.kind

theorem answer_get (r : Reader) : (get : ReadM Reader).answer r = .ok (r, r) := rfl

theorem answer_set (s r : Reader) : (set s : ReadM PUnit).answer r = .ok (⟨⟩, s) := rfl

theorem answer_bind (p : ReadM α) (f : α → ReadM β) (r : Reader) :
    (p >>= f).answer r = p.answer r >>= fun x => (f x.1).answer x.2 := by
  simp only [answer, EStateM.run_bind]
  cases p.run r <;> rfl

theorem answer_bind_ok {p : ReadM α} {f : α → ReadM β} {r r' : Reader} {a : α}
    (h : p.answer r = .ok (a, r')) : (p >>= f).answer r = (f a).answer r' := by
  rw [answer_bind, h]
  rfl

theorem answer_bind_error {p : ReadM α} {f : α → ReadM β} {r : Reader} {e : Error}
    (h : p.answer r = .error e) : (p >>= f).answer r = .error e := by
  rw [answer_bind, h]
  rfl

theorem answer_bind_inv {p : ReadM α} {f : α → ReadM β} {r r' : Reader} {b : β}
    (h : (p >>= f).answer r = .ok (b, r')) :
    ∃ a s, p.answer r = .ok (a, s) ∧ (f a).answer s = .ok (b, r') := by
  rw [answer_bind] at h
  cases hp : p.answer r with
  | error e =>
    rw [hp] at h
    cases h
  | ok x =>
    rw [hp] at h
    exact ⟨x.1, x.2, rfl, h⟩

theorem run_of_answer_ok {p : ReadM α} {r r' : Reader} {a : α} (h : p.answer r = .ok (a, r')) :
    p.run r = .ok a r' := by
  unfold answer at h
  split at h
  · simp_all
  · simp at h

theorem run_of_answer_error {p : ReadM α} {r : Reader} {e : Error} (h : p.answer r = .error e) :
    ∃ e' r', p.run r = .error e' r' ∧ e'.kind = e := by
  unfold answer at h
  split at h
  · simp at h
  · exact ⟨_, _, ‹_›, by simpa using h⟩

end ReadM

namespace Reader

/-- The rule for a timeout before the first byte of an element, or before a later one. -/
def ignores (r : Reader) (opens : Bool) : Bool :=
  if opens then r.ignoreInitialTimeout else r.ignoreLaterTimeout

/-- The bytes still to be consumed. -/
def pending (r : Reader) : List UInt8 :=
  r.lookahead.toList ++ Delivery.content (r.source.getD [])

theorem pending_of_none {r : Reader} (h : r.lookahead = none) :
    r.pending = Delivery.content (r.source.getD []) := by
  rw [pending, h]
  rfl

/-- Takes the first byte of an element, or a later one. -/
def fetch (r : Reader) (opens : Bool) : Except Error (UInt8 × Reader) :=
  match opens, r.lookahead with
  | true, some b => .ok (b, { r with lookahead := none, consumed := r.consumed + 1 })
  | _, _ =>
    let t := pull (r.ignores opens) 1 (r.source.getD [])
    match t.outcome with
    | .filled => .ok (t.got.headD 0, { r with source := some t.rest, consumed := r.consumed + 1 })
    | .ended => .error (.truncated "")
    | .timedOut => .error (.timeout opens)
    | .failed reason => .error (.transport reason)

theorem fetch_of_some {r : Reader} {b : UInt8} (h : r.lookahead = some b) :
    r.fetch true = .ok (b, { r with lookahead := none, consumed := r.consumed + 1 }) := by
  unfold fetch
  rw [h]

theorem fetch_of_none {r : Reader} (h : r.lookahead = none) (opens : Bool) : r.fetch opens =
    let t := pull (r.ignores opens) 1 (r.source.getD [])
    match t.outcome with
    | .filled => .ok (t.got.headD 0, { r with source := some t.rest, consumed := r.consumed + 1 })
    | .ended => .error (.truncated "")
    | .timedOut => .error (.timeout opens)
    | .failed reason => .error (.transport reason) := by
  unfold fetch
  rw [h]
  cases opens <;> rfl

theorem kind_of_fetch {r : Reader} {opens : Bool} {e : Error} (h : r.fetch opens = .error e) :
    e.kind = e := by
  unfold fetch at h
  split at h
  · cases h
  · dsimp only at h
    split at h <;> cases h <;> rfl

/-- What happens to a reader that consumes bytes: they are the first of those that it had yet to consume. -/
structure Passes (r : Reader) (taken : List UInt8) (r' : Reader) : Prop where
  pending : r.pending = taken ++ r'.pending
  consumed : r'.consumed = r.consumed + taken.length
  limit : r'.limit = r.limit

theorem Passes.refl (r : Reader) : r.Passes [] r := ⟨rfl, rfl, rfl⟩

theorem Passes.trans {r r' r'' : Reader} {xs ys : List UInt8} (h : r.Passes xs r') (h' : r'.Passes ys r'') :
    r.Passes (xs ++ ys) r'' where
  pending := by rw [h.pending, h'.pending, List.append_assoc]
  consumed := by rw [h'.consumed, h.consumed, List.length_append, Nat.add_assoc]
  limit := h'.limit.trans h.limit

/-- Bytes that are no tags are not taken from in front of a tag that was looked at. -/
theorem passes_of_fetch {r r' : Reader} {opens : Bool} {b : UInt8} (h : r.fetch opens = .ok (b, r'))
    (hl : r.lookahead.isSome → opens) :
    r.Passes [b] r' ∧ r'.lookahead = none ∧ (r.source.isSome → r'.source.isSome) := by
  cases hlook : r.lookahead with
  | some b' =>
    obtain rfl : opens = true := hl (by rw [hlook]; rfl)
    rw [fetch_of_some hlook] at h
    cases h
    exact ⟨⟨by simp [pending, hlook], rfl, rfl⟩, rfl, id⟩
  | none =>
    have hc := content_pull (r.ignores opens) 1 (r.source.getD [])
    have hlen := length_got (r.ignores opens) 1 (r.source.getD [])
    rw [fetch_of_none hlook] at h
    dsimp only at h
    cases ho : (pull (r.ignores opens) 1 (r.source.getD [])).outcome with
    | filled =>
      obtain ⟨b', hgot⟩ := List.length_eq_one_iff.mp (hlen ho)
      rw [ho, hgot] at h
      rw [hgot] at hc
      cases h
      exact ⟨⟨by simp [pending, hlook, hc], rfl, rfl⟩, hlook, fun _ => rfl⟩
    | _ =>
      rw [ho] at h
      cases h

/-- Where the end of the input is found, nothing was to come. -/
theorem pending_of_fetch_ended {r : Reader} {part : String} (h : r.fetch true = .error (.truncated part)) :
    r.pending = [] := by
  cases hlook : r.lookahead with
  | some b =>
    rw [fetch_of_some hlook] at h
    cases h
  | none =>
    rw [fetch_of_none hlook] at h
    dsimp only at h
    cases ho : (pull (r.ignores true) 1 (r.source.getD [])).outcome with
    | ended =>
      have hc := content_pull (r.ignores true) 1 (r.source.getD [])
      have hgot := List.length_eq_zero_iff.mp (Nat.lt_one_iff.mp (length_got_of_ended _ _ _ ho))
      rw [rest_of_ended _ _ _ ho, hgot] at hc
      rw [pending_of_none hlook, hc]
      rfl
    | _ =>
      rw [ho] at h
      cases h

end Reader

namespace ReadM

theorem answer_firstByte {r : Reader} {ds : List Delivery} (hs : r.source = some ds) :
    firstByte.answer r =
      let t := pull r.ignoreInitialTimeout 1 ds
      match t.outcome with
      | .filled => .ok (t.got.head?, { r with source := some t.rest })
      | .ended => .ok (none, { r with source := some t.rest })
      | .timedOut => .error (.timeout true)
      | .failed reason => .error (.transport reason) := by
  rw [firstByte, answer_bind_ok (answer_get r), hs]
  dsimp only
  rw [answer_bind_ok (answer_set _ r)]
  cases (pull r.ignoreInitialTimeout 1 ds).outcome <;> rfl

/-- At the end of the input there is no tag, and the reader closes. -/
theorem answer_tag? (r : Reader) : tag?.answer r = match r.fetch true with
    | .ok (tag, r') => .ok (some tag, r')
    | .error (.truncated _) => .ok (none, r.close)
    | .error e => .error e := by
  obtain ⟨source, lookahead, consumed, limit, initial, later⟩ := r
  cases lookahead with
  | some b => rfl
  | none =>
    cases source with
    | none => rfl
    | some ds =>
      have hl := length_got initial 1 ds
      rw [tag?, answer_bind_ok (answer_get _)]
      dsimp only
      rw [answer_bind, answer_firstByte rfl, Reader.fetch_of_none rfl]
      simp only [Reader.ignores, if_true, Option.getD_some]
      cases ho : (pull initial 1 ds).outcome with
      | filled =>
        obtain ⟨b, hb⟩ := List.length_eq_one_iff.mp (hl ho)
        rw [hb]
        rfl
      | ended => rfl
      | timedOut => rfl
      | failed reason => rfl

theorem answer_requiredTag (part : String) (r : Reader) :
    (requiredTag part).answer r = r.fetch true := by
  rw [requiredTag, answer_bind, answer_tag?]
  cases hf : r.fetch true with
  | ok x => rfl
  | error e =>
    rw [← Reader.kind_of_fetch hf]
    cases e <;> rfl

/-- Looking ahead is taking a tag and putting it back, but for the end of the input. -/
theorem answer_peek {r : Reader} (hs : r.source.isSome) (hl : r.lookahead = none) :
    peek.answer r = match r.fetch true with
      | .ok (tag, r') => .ok (some tag, { r' with lookahead := some tag, consumed := r.consumed })
      | .error (.truncated _) => .ok (none, { r with source := some [] })
      | .error e => .error e := by
  obtain ⟨source, lookahead, consumed, limit, initial, later⟩ := r
  obtain rfl : lookahead = none := hl
  obtain ⟨ds, rfl⟩ := Option.isSome_iff_exists.mp hs
  have hlen := length_got initial 1 ds
  have hend := rest_of_ended initial 1 ds
  rw [peek, answer_bind_ok (answer_get _)]
  dsimp only
  rw [answer_bind, answer_firstByte rfl, Reader.fetch_of_none rfl]
  simp only [Reader.ignores, if_true, Option.getD_some]
  cases ho : (pull initial 1 ds).outcome with
  | filled =>
    obtain ⟨b, hb⟩ := List.length_eq_one_iff.mp (hlen ho)
    rw [hb]
    rfl
  | ended =>
    rw [hend ho]
    rfl
  | timedOut => rfl
  | failed reason => rfl

theorem run_bytes_of_open {r : Reader} {ds : List Delivery} (hs : r.source = some ds) (n : Nat) (part : String) :
    (bytes n part).run r =
      let t := pull r.ignoreLaterTimeout n ds
      let r' := { r with source := some t.rest, consumed := r.consumed + t.got.length }
      match t.outcome with
      | .filled => .ok t.got r'
      | .ended => .error (.truncated part) r'
      | .timedOut => .error (.timeout false) r'
      | .failed reason => .error (.transport reason) r' := by
  cases n with
  | zero =>
    obtain ⟨source, lookahead, consumed, limit, initial, later⟩ := r
    obtain rfl : source = some ds := hs
    rw [pull_zero]
    rfl
  | succ n =>
    have hget : (get : ReadM Reader).run r = .ok r r := rfl
    rw [bytes, if_neg n.succ_ne_zero, run_bind_of_ok hget, hs]
    have hset : ∀ s, (set s : ReadM PUnit).run r = .ok ⟨⟩ s := fun _ => rfl
    dsimp only
    rw [run_bind_of_ok (hset _)]
    cases (pull r.ignoreLaterTimeout (n + 1) ds).outcome <;> rfl

theorem run_bytes_of_closed {r : Reader} (hs : r.source = none) (n : Nat) (part : String) :
    (bytes n part).run r = if n = 0 then .ok [] r else .error (.truncated part) r := by
  obtain ⟨source, lookahead, consumed, limit, initial, later⟩ := r
  obtain rfl : source = none := hs
  cases n <;> rfl

theorem answer_bytes {r : Reader} {ds : List Delivery} (hs : r.source = some ds) (n : Nat) (part : String) :
    (bytes n part).answer r =
      let t := pull r.ignoreLaterTimeout n ds
      match t.outcome with
      | .filled => .ok (t.got, { r with source := some t.rest, consumed := r.consumed + t.got.length })
      | .ended => .error (.truncated "")
      | .timedOut => .error (.timeout false)
      | .failed reason => .error (.transport reason) := by
  rw [answer, run_bytes_of_open hs]
  dsimp only
  cases (pull r.ignoreLaterTimeout n ds).outcome <;> rfl

theorem answer_byte (part : String) (r : Reader) : (byte part).answer r = r.fetch false := by
  obtain ⟨source, lookahead, consumed, limit, initial, later⟩ := r
  cases source with
  | none => rfl
  | some ds =>
    have hl := length_got later 1 ds
    rw [byte, answer_bind, answer_bytes rfl]
    simp only [Reader.fetch, Reader.ignores, Bool.false_eq_true, if_false, Option.getD_some]
    cases ho : (pull later 1 ds).outcome with
    | filled =>
      rw [hl ho]
      rfl
    | ended => rfl
    | timedOut => rfl
    | failed reason => rfl

/-- Several bytes are one and then the others. -/
theorem answer_bytes_succ (n : Nat) (part : String) (r : Reader) :
    (bytes (n + 1) part).answer r = r.fetch false >>= fun x =>
      (bytes n part).answer x.2 >>= fun y => .ok (x.1 :: y.1, y.2) := by
  obtain ⟨source, lookahead, consumed, limit, initial, later⟩ := r
  cases source with
  | none => rfl
  | some ds =>
    have hl := length_got later 1 ds
    rw [answer_bytes rfl, pull_succ]
    simp only [Reader.fetch, Reader.ignores, Bool.false_eq_true, if_false, Option.getD_some]
    cases ho : (pull later 1 ds).outcome with
    | filled =>
      obtain ⟨b, hgot⟩ := List.length_eq_one_iff.mp (hl ho)
      simp only [hgot, List.headD_cons, bind, Except.bind]
      rw [answer_bytes rfl]
      dsimp only
      cases (pull later n (pull later 1 ds).rest).outcome with
      | filled => simp [Nat.add_assoc, Nat.add_comm 1]
      | ended => rfl
      | timedOut => rfl
      | failed reason => rfl
    | ended => simp [ho, bind, Except.bind]
    | timedOut => simp [ho, bind, Except.bind]
    | failed reason => simp [ho, bind, Except.bind]

/-- A sequence that has not been overrun is asked for more. -/
theorem answer_more {bounds : Bounds} {r : Reader} (h : r.consumed ≤ bounds.stop) :
    (more bounds).answer r = .ok (decide (r.consumed < bounds.stop), r) := by
  rw [more, answer_bind_ok (answer_get r)]
  dsimp only
  rw [if_neg (Nat.not_lt.mpr h)]
  rfl

theorem passes_of_bytes {n : Nat} {part : String} {r r' : Reader} {bs : List UInt8}
    (h : (bytes n part).answer r = .ok (bs, r')) (hl : r.lookahead = none) :
    r.Passes bs r' ∧ bs.length = n ∧ r'.lookahead = none := by
  induction n generalizing r bs with
  | zero =>
    cases h
    exact ⟨.refl _, rfl, hl⟩
  | succ n ih =>
    rw [answer_bytes_succ] at h
    cases hf : r.fetch false with
    | error e =>
      rw [hf] at h
      cases h
    | ok x =>
      obtain ⟨b, s⟩ := x
      rw [hf] at h
      change ((bytes n part).answer s >>= _) = _ at h
      cases hb : (bytes n part).answer s with
      | error e =>
        rw [hb] at h
        cases h
      | ok y =>
        obtain ⟨rest, s'⟩ := y
        rw [hb] at h
        cases h
        obtain ⟨hp, hs, -⟩ := Reader.passes_of_fetch hf (by simp [hl])
        obtain ⟨hp', hlen, hl'⟩ := ih hb hs
        exact ⟨hp.trans hp', by rw [List.length_cons, hlen], hl'⟩

/-! ### Values in pieces -/

theorem bytes_add (m n : Nat) (part : String) : bytes (m + n) part = (do
    let front ← bytes m part
    let rear ← bytes n part
    return front ++ rear) := by
  funext r
  change (bytes (m + n) part).run r = EStateM.run _ r
  cases hs : r.source with
  | none =>
    cases m with
    | zero =>
      rw [run_bind_of_ok (run_bytes_of_closed hs 0 part)]
      simp
    | succ m =>
      rw [run_bind_of_error (run_bytes_of_closed hs (m + 1) part), run_bytes_of_closed hs, if_neg (by omega)]
  | some ds =>
    have hfront := run_bytes_of_open hs m part
    rw [run_bytes_of_open hs, pull_add]
    cases hm : (pull r.ignoreLaterTimeout m ds).outcome with
    | filled =>
      simp only [hm] at hfront
      rw [run_bind_of_ok hfront, EStateM.run_bind, run_bytes_of_open rfl]
      dsimp only
      cases (pull r.ignoreLaterTimeout n (pull r.ignoreLaterTimeout m ds).rest).outcome <;>
        simp [Nat.add_assoc]
    | _ =>
      simp only [hm] at hfront
      simp only [run_bind_of_error hfront, hm]

/-- Pieces of a value are passed over as all of them at once. -/
theorem skipPieces_eq (size count : Nat) : skipPieces size count = (do let _ ← value (size * count)) := by
  induction count with
  | zero => rfl
  | succ count ih =>
    rw [skipPieces, ih, Nat.mul_succ, Nat.add_comm, value, value, value, bytes_add]
    simp only [bind_assoc, pure_bind]

/-- A value is passed over in pieces as it is at once. -/
theorem skipValue_eq (n : Nat) : skipValue n = (do let _ ← value n) := by
  conv_rhs => rw [value, ← Nat.div_add_mod n 512, bytes_add]
  rw [skipValue, skipPieces_eq]
  simp only [value, bind_assoc, pure_bind]

end ReadM

end Ldap.Ber
