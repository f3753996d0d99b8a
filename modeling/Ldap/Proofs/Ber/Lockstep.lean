import Ldap.Proofs.Ber.Compositional
import Ldap.Proofs.Ber.Delivery

/-! Two runs of a step on readers that differ only in what is still to be delivered. If single reads from the
transport cannot tell the two deliveries apart, then no step can; and if they cannot do so in front of some
place, then no step can that leaves the reader there. -/

namespace Ldap.Ber

variable {α β : Type} {p : ReadM α} {f : α → ReadM β} {r r' : Reader} {ds ds' : List Delivery}

namespace ReadM

/-- The reader behind a step, which may have failed. -/
def behind (p : ReadM α) (r : Reader) : Reader :=
  match p.run r with
  | .ok _ r | .error _ r => r

theorem behind_of_ok {a : α} (h : p.run r = .ok a r') : p.behind r = r' := by
  rw [behind, h]

theorem behind_of_error {e : Error} (h : p.run r = .error e r') : p.behind r = r' := by
  rw [behind, h]

theorem behind_bind_of_ok {a : α} (h : p.run r = .ok a r') : (p >>= f).behind r = (f a).behind r' := by
  rw [behind, run_bind_of_ok h]
  rfl

theorem behind_bind_of_error {e : Error} (h : p.run r = .error e r') : (p >>= f).behind r = r' :=
  behind_of_error (run_bind_of_error h)

/-- Obtains bytes from the transport and counts as many of them as consumed as the step says. It goes on with
the bytes and with how the transfer ended. -/
def transfer (opens : Bool) (n : Nat) (count : List UInt8 → Nat) (closed : ReadM α)
    (opened : List UInt8 → Outcome → ReadM α) : ReadM α := do
  let r ← get
  match r.source with
  | none => closed
  | some deliveries =>
    let t := pull (if opens then r.ignoreInitialTimeout else r.ignoreLaterTimeout) n deliveries
    set { r with source := some t.rest, consumed := r.consumed + count t.got }
    opened t.got t.outcome

theorem run_transfer {opens : Bool} {n : Nat} {count : List UInt8 → Nat} {closed : ReadM α}
    {opened : List UInt8 → Outcome → ReadM α} : (transfer opens n count closed opened).run r = match r.source with
      | none => closed.run r
      | some ds =>
        let t := pull (if opens then r.ignoreInitialTimeout else r.ignoreLaterTimeout) n ds
        (opened t.got t.outcome).run { r with source := some t.rest, consumed := r.consumed + count t.got } := by
  obtain ⟨_ | ds, lookahead, consumed, limit, initial, later⟩ := r <;> rfl

theorem firstByte_eq : firstByte = transfer true 1 (fun _ => 0) (return none) fun got outcome =>
    match outcome with
    | .filled => return got.head?
    | .ended => return none
    | .timedOut => throw (.timeout true)
    | .failed reason => throw (.transport reason) := rfl

theorem bytes_succ_eq (n : Nat) (part : String) : bytes (n + 1) part =
    transfer false (n + 1) List.length (throw (.truncated part)) fun got outcome =>
      match outcome with
      | .filled => return got
      | .ended => throw (.truncated part)
      | .timedOut => throw (.timeout false)
      | .failed reason => throw (.transport reason) := rfl

end ReadM

/-! ### Coupled deliveries -/

/-- Pairs of deliveries that single reads from the transport do not tell apart, under some rules for timeouts.
A read that does goes beyond the place up to which they are to agree, and never comes back from there. -/
structure Coupling where
  allows : Bool → Prop
  coupled : List Delivery → List Delivery → Prop
  beyond : List Delivery → Prop
  beyond_pull : ∀ ignore n {ds}, beyond ds → beyond (pull ignore n ds).rest
  beyond_nil : ∀ {ds}, beyond ds → beyond []
  coupled_pull : ∀ {ignore} n {ds ds'}, allows ignore → coupled ds ds' → beyond (pull ignore n ds).rest ∨
    (pull ignore n ds').got = (pull ignore n ds).got ∧ (pull ignore n ds').outcome = (pull ignore n ds).outcome ∧
      coupled (pull ignore n ds).rest (pull ignore n ds').rest

namespace Coupling

variable (c : Coupling)

/-- The reader has gone too far for the comparison. -/
def Beyond (r : Reader) : Prop := c.beyond (r.source.getD [])

/-- The readers differ at most in what is still to be delivered, and that is coupled. -/
structure Alike (r r' : Reader) : Prop where
  source : Option.Rel c.coupled r.source r'.source
  eq : r' = { r with source := r'.source }
  initial : c.allows r.ignoreInitialTimeout
  later : c.allows r.ignoreLaterTimeout

/-- The runs end with the same answer or the same error, and with readers that are alike. -/
inductive Agree {α : Type} : EStateM.Result Error Reader α → EStateM.Result Error Reader α → Prop
  | ok {r r' : Reader} (a : α) (h : c.Alike r r') : Agree (.ok a r) (.ok a r')
  | error {r r' : Reader} (e : Error) (h : c.Alike r r') : Agree (.error e r) (.error e r')

/-- The step does the same on readers that are alike, unless it goes too far. -/
structure Lockstep (p : ReadM α) : Prop where
  beyond : ∀ {r}, c.Beyond r → c.Beyond (p.behind r)
  agree : ∀ {r r'}, c.Alike r r' → c.Beyond (p.behind r) ∨ c.Agree (p.run r) (p.run r')

variable {c : Coupling}

namespace Lockstep

theorem pure (a : α) : c.Lockstep (pure a) := ⟨id, fun h => .inr (.ok a h)⟩

theorem throw (e : Error) : c.Lockstep (throw e : ReadM α) := ⟨id, fun h => .inr (.error e h)⟩

theorem bind (hp : c.Lockstep p) (hf : ∀ a, c.Lockstep (f a)) : c.Lockstep (p >>= f) := by
  have hbeyond : ∀ {r}, c.Beyond (p.behind r) → c.Beyond ((p >>= f).behind r) := by
    intro r hb
    cases h : p.run r with
    | ok a s =>
      rw [ReadM.behind_of_ok h] at hb
      rw [ReadM.behind_bind_of_ok h]
      exact (hf a).beyond hb
    | error e s =>
      rw [ReadM.behind_of_error h] at hb
      rwa [ReadM.behind_bind_of_error h]
  refine ⟨fun hr => hbeyond (hp.beyond hr), fun {r r'} hr => ?_⟩
  obtain hb | ha := hp.agree hr
  · exact .inl (hbeyond hb)
  · generalize h : p.run r = x, h' : p.run r' = x' at ha
    cases ha with
    | ok a hs =>
      rw [ReadM.behind_bind_of_ok h, ReadM.run_bind_of_ok h, ReadM.run_bind_of_ok h']
      exact (hf a).agree hs
    | error e hs =>
      rw [ReadM.run_bind_of_error h, ReadM.run_bind_of_error h']
      exact .inr (.error e hs)

/-- What a step does may depend on all of the reader but what is still to be delivered. -/
theorem get_bind {f : Reader → ReadM α} (hf : ∀ r, c.Lockstep (f r))
    (heq : ∀ (r : Reader) source, f { r with source := source } = f r) : c.Lockstep (get >>= f) := by
  refine ⟨fun {r} hr => (hf r).beyond hr, fun {r r'} hr => ?_⟩
  have hrun : (get >>= f).run r' = (f r).run r' := by
    rw [← heq r r'.source, ← hr.eq]
    rfl
  rw [hrun]
  exact (hf r).agree hr

/-- Other parts of the reader are changed without regard to what is still to be delivered. -/
theorem alter {g : Reader → Reader} (hg : ∀ (r : Reader) source, g { r with source := source } =
    { g r with source := source }) (hi : ∀ r, (g r).ignoreInitialTimeout = r.ignoreInitialTimeout)
    (hl : ∀ r, (g r).ignoreLaterTimeout = r.ignoreLaterTimeout) : c.Lockstep (modify g) := by
  have hsource := source_of_commutes hg
  refine ⟨fun {r} hr => ?_, fun {r r'} hr => .inr (.ok _ ⟨?_, ?_, ?_, ?_⟩)⟩
  · change c.beyond ((g r).source.getD [])
    rw [hsource]
    exact hr
  · rw [hsource, hsource]
    exact hr.source
  · rw [hsource]
    nth_rewrite 1 [hr.eq]
    rw [hg]
  · rw [hi]
    exact hr.initial
  · rw [hl]
    exact hr.later

theorem close : c.Lockstep (modify Reader.close) :=
  ⟨c.beyond_nil, fun hr => .inr (.ok _ ⟨.none, by rw [hr.eq]; rfl, hr.initial, hr.later⟩)⟩

theorem transfer {opens : Bool} {n : Nat} {count : List UInt8 → Nat} {closed : ReadM α}
    {opened : List UInt8 → Outcome → ReadM α} (hc : c.Lockstep closed)
    (ho : ∀ got outcome, c.Lockstep (opened got outcome)) :
    c.Lockstep (ReadM.transfer opens n count closed opened) := by
  constructor
  · rintro ⟨source, lookahead, consumed, limit, initial, later⟩ hr
    rw [ReadM.behind, ReadM.run_transfer]
    cases source with
    | none => exact hc.beyond hr
    | some ds => exact (ho _ _).beyond (c.beyond_pull _ n hr)
  · rintro ⟨source, lookahead, consumed, limit, initial, later⟩ ⟨source', _, _, _, _, _⟩ hr
    obtain ⟨hs, he, hi, hl⟩ := id hr
    cases he
    rw [ReadM.behind, ReadM.run_transfer, ReadM.run_transfer]
    cases hs with
    | none => exact hc.agree hr
    | @some ds ds' hds =>
      have ha : c.allows (if opens then initial else later) := by cases opens <;> assumption
      obtain hb | ⟨hgot, hout, hrest⟩ := c.coupled_pull n ha hds
      · exact .inl ((ho _ _).beyond hb)
      · dsimp only
        rw [hgot, hout]
        exact (ho _ _).agree ⟨.some hrest, rfl, hi, hl⟩

theorem firstByte : c.Lockstep ReadM.firstByte := by
  rw [ReadM.firstByte_eq]
  refine transfer (pure none) fun got outcome => ?_
  cases outcome with
  | filled => exact pure _
  | ended => exact pure _
  | timedOut => exact throw _
  | failed reason => exact throw _

theorem bytes (n : Nat) (part : String) : c.Lockstep (ReadM.bytes n part) := by
  cases n with
  | zero => exact pure []
  | succ n =>
    rw [ReadM.bytes_succ_eq]
    refine transfer (throw _) fun got outcome => ?_
    cases outcome with
    | filled => exact pure _
    | ended => exact throw _
    | timedOut => exact throw _
    | failed reason => exact throw _

end Lockstep

/-- Every reader is in lockstep with itself. -/
theorem compositional (c : Coupling) : Compositional fun _ => c.Lockstep where
  pure := .pure
  throw _ := .throw _
  bind := .bind
  get_bind := .get_bind
  alter := .alter
  close := .close
  firstByte := .firstByte
  bytes := .bytes

end Coupling
end Ldap.Ber
