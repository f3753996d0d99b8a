import Ldap.Proofs.Ber.Reads

/-! Properties that steps of reading have because single reads have them. A step looks at the reader without regard
to what is still to be delivered, obtains bytes from the transport, fails, or goes on with another step. What is
kept by all of that is true of every reader. Some properties are lost where a reader finds the end of the input and
goes on. These are true of the readers that do not, and of those that notice it later. -/

namespace Ldap.Ber

/-- What was read cannot be decoded: the input is at fault, and not the transport. -/
def Error.isUndecodable (e : Error) : Bool := !e.isTransport

/-- A property of steps that is kept when one step follows another. -/
structure Sequential (P : (α : Type) → ReadM α → Prop) : Prop where
  pure : ∀ {α : Type} (a : α), P α (pure a)
  throw : ∀ {α : Type} {e : Error}, e.isUndecodable → P α (throw e)
  bind : ∀ {α β : Type} {p : ReadM α} {f : α → ReadM β}, P α p → (∀ a, P β (f a)) → P β (p >>= f)
  /-- A step may depend on all of the reader but what is still to be delivered. -/
  get_bind : ∀ {α : Type} {f : Reader → ReadM α}, (∀ r, P α (f r)) →
    (∀ (r : Reader) source, f { r with source } = f r) → P α (get >>= f)

/-- The property is one of single reads that do not accept the end of the input. -/
structure Demanding (P : (α : Type) → ReadM α → Prop) : Prop extends Sequential P where
  requiredTag : ∀ part, P _ (ReadM.requiredTag part)
  peekRequired : ∀ part, P _ (ReadM.peekRequired part)
  bytes : ∀ n part, P _ (ReadM.bytes n part)

/-- The property is one of looking for what may be missing as well, where the end of the input is noticed later. -/
structure Watchful (P : (α : Type) → ReadM α → Prop) : Prop extends Demanding P where
  peek_bind : ∀ {β : Type} {f : Option UInt8 → ReadM β}, (∀ tag?, P β (f tag?)) → (∀ stop, Starves stop (f none)) →
    P β (ReadM.peek >>= f)
  tagWithin_bind : ∀ {β : Type} {bounds : Bounds} {f : Option UInt8 → ReadM β}, (∀ tag?, P β (f tag?)) →
    Starves bounds.stop (f none) → P β (ReadM.tagWithin bounds >>= f)

/-- The property is one of all single reads. -/
structure Compositional (P : (α : Type) → ReadM α → Prop) : Prop extends Sequential P where
  /-- Other parts of the reader are changed without regard to what is still to be delivered. -/
  alter : ∀ {g : Reader → Reader}, (∀ (r : Reader) source, g { r with source } = { g r with source }) →
    (∀ r, (g r).ignoreInitialTimeout = r.ignoreInitialTimeout) →
    (∀ r, (g r).ignoreLaterTimeout = r.ignoreLaterTimeout) → P PUnit (modify g)
  close : P PUnit (modify Reader.close)
  firstByte : P _ ReadM.firstByte
  bytes : ∀ n part, P _ (ReadM.bytes n part)

/-- What regards nothing that is still to be delivered does not change it. -/
theorem source_of_commutes {g : Reader → Reader} (hg : ∀ (r : Reader) source, g { r with source } = { g r with source })
    (r : Reader) : (g r).source = r.source := by
  rw [show g r = _ from hg r r.source]

namespace Sequential

variable {P : (α : Type) → ReadM α → Prop} (h : Sequential P) {α β : Type} {p : ReadM α}
include h

theorem map {g : α → β} (hp : P α p) : P β (do return g (← p)) := h.bind hp fun _ => h.pure _

theorem throw_bind {e : Error} (f : α → ReadM β) (he : e.isUndecodable) : P β (MonadExcept.throw e >>= f) :=
  h.throw he

theorem lift {e : Except Error α} (he : ∀ error, e = .error error → error.isUndecodable) : P α (ReadM.lift e) := by
  cases e with
  | ok a => exact h.pure a
  | error e => exact h.throw (he e rfl)

theorem checkLength (n : Nat) : P _ (ReadM.checkLength n) := by
  refine h.get_bind (fun r => ?_) fun _ _ => rfl
  dsimp only
  split
  · exact h.throw_bind _ rfl
  · exact h.pure n

theorem more {bounds : Bounds} : P _ (ReadM.more bounds) := by
  refine h.get_bind (fun r => ?_) fun _ _ => rfl
  dsimp only
  split
  · exact h.throw_bind _ rfl
  · exact h.pure _

end Sequential

/-- A sequence that must be there begins with a tag that must be there. -/
theorem ReadM.sequence_eq : sequence = (do
    let tag ← requiredTag "sequence"
    let n ← length
    return ⟨tag, n, (← get).consumed + n⟩) := by
  rw [sequence, sequence?, requiredTag, bind_assoc, bind_assoc]
  refine congrArg _ (funext fun tag? => ?_)
  cases tag? with
  | none => rfl
  | some tag => simp only [bind_assoc, pure_bind]

namespace Demanding

variable {P : (α : Type) → ReadM α → Prop} (h : Demanding P) {α β σ : Type} {p : ReadM α} {bounds : Bounds}
include h

theorem byte (part : String) : P _ (ReadM.byte part) := h.map (h.bytes 1 part)

theorem lengthBytes (count n : Nat) : P _ (ReadM.lengthBytes count n) := by
  induction count generalizing n with
  | zero => exact h.pure n
  | succ count ih => exact h.bind (h.byte "length") fun b => ih _

theorem length : P _ ReadM.length := by
  refine h.bind (h.byte "length") fun first => ?_
  split
  · exact h.checkLength _
  · dsimp only
    split
    · exact h.throw rfl
    · exact h.bind (h.lengthBytes _ _) fun _ => h.checkLength _

theorem header : P _ ReadM.header := h.bind (h.requiredTag "type") fun _ => h.length

theorem skipValue (n : Nat) : P _ (ReadM.skipValue n) := by
  rw [ReadM.skipValue_eq]
  exact h.map (h.bytes n "value")

theorem rejectLength (kind : String) (n : Nat) : P α (ReadM.rejectLength kind n) :=
  h.bind (h.skipValue n) fun _ => h.throw rfl

/-! ### Elements -/

theorem skipElement : P _ ReadM.skipElement := h.bind h.header fun n => h.skipValue n

theorem boolean : P _ ReadM.boolean := by
  refine h.bind h.header fun n => ?_
  split
  · exact h.map (h.byte "value")
  · exact h.rejectLength "boolean" n

theorem integer : P _ ReadM.integer := by
  refine h.bind h.header fun n => ?_
  split
  · exact h.map (h.bytes n "value")
  · exact h.rejectLength "integer" n

theorem long : P _ ReadM.long := by
  refine h.bind h.header fun n => ?_
  split
  · exact h.map (h.bytes n "value")
  · exact h.rejectLength "long" n

theorem null : P _ ReadM.null := by
  refine h.bind h.header fun n => ?_
  split
  · exact h.pure ()
  · exact h.rejectLength "null" n

theorem octets : P _ ReadM.octets := h.bind h.header fun n => h.bytes n "value"

theorem text : P _ ReadM.text := by
  refine h.bind h.octets fun bs => ?_
  split
  · exact h.pure _
  · exact h.throw rfl

theorem sequence : P _ ReadM.sequence := by
  rw [ReadM.sequence_eq]
  exact h.bind (h.requiredTag _) fun tag => h.bind h.length fun n => h.get_bind (fun r => h.pure _) fun _ _ => rfl

/-! ### Open sequences -/

theorem foldComponents {step : σ → ReadM σ} (hs : ∀ s, P σ (step s)) (count : Nat) (s : σ) :
    P σ (ReadM.foldComponents bounds step count s) := by
  induction count generalizing s with
  | zero => exact h.pure s
  | succ count ih =>
    refine h.bind h.more fun more => ?_
    split
    · exact h.bind (hs s) fun s' => ih s'
    · exact h.pure s

theorem components {step : σ → ReadM σ} (hs : ∀ s, P σ (step s)) (start : σ) :
    P σ (ReadM.components bounds step start) := h.foldComponents hs _ start

theorem listOf (hp : P α p) : P _ (ReadM.listOf bounds p) :=
  h.map (h.foldComponents (fun _ => h.map hp) _ [])

theorem sequence_listOf (hp : P α p) : P _ (do ReadM.listOf (← ReadM.sequence) p) :=
  h.bind h.sequence fun _ => h.listOf hp

theorem skipRest : P _ (ReadM.skipRest bounds) := h.foldComponents (fun _ => h.skipElement) _ ()

theorem skipRest_pure (a : α) : P _ (do ReadM.skipRest bounds; return a) := h.map h.skipRest

end Demanding

namespace Watchful

variable {P : (α : Type) → ReadM α → Prop} (h : Watchful P) {α β : Type} {p : ReadM α} {bounds : Bounds}
include h

theorem optional_bind {f : Option α → ReadM β} {tag : UInt8} (hp : P α p) (hf : ∀ a?, P β (f a?))
    (hs : Starves bounds.stop (f none)) : P β (ReadM.optional bounds tag p >>= f) := by
  rw [ReadM.optional, bind_assoc]
  refine h.tagWithin_bind (fun tag? => ?_) (by simpa using hs)
  split
  · exact h.bind (h.map hp) hf
  · exact h.bind (h.pure none) hf

end Watchful

namespace Compositional

variable {P : (α : Type) → ReadM α → Prop} (h : Compositional P) {α β : Type} {p : ReadM α} {bounds : Bounds}
include h

theorem peek : P _ ReadM.peek := by
  refine h.get_bind (fun r => ?_) fun _ _ => rfl
  split
  · exact h.pure _
  · refine h.bind h.firstByte fun tag => h.bind (h.alter ?_ ?_ ?_) fun _ => h.pure tag
    all_goals intros; rfl

theorem tag? : P _ ReadM.tag? := by
  refine h.get_bind (fun r => ?_) fun _ _ => rfl
  split
  · refine h.bind (h.alter ?_ ?_ ?_) fun _ => h.pure _
    all_goals intros; rfl
  · refine h.bind h.firstByte fun tag => ?_
    split
    · refine h.bind (h.alter ?_ ?_ ?_) fun _ => h.pure _
      all_goals intros; rfl
    · exact h.bind h.close fun _ => h.pure _

theorem demanding : Demanding P where
  toSequential := h.toSequential
  requiredTag part := by
    refine h.bind h.tag? fun tag => ?_
    split
    · exact h.pure _
    · exact h.throw rfl
  peekRequired part := by
    refine h.bind h.peek fun tag => ?_
    split
    · exact h.pure _
    · exact h.throw rfl
  bytes := h.bytes

theorem element? : P _ ReadM.element? := by
  refine h.bind h.tag? fun tag => ?_
  split
  · exact h.pure none
  · exact h.bind h.demanding.length fun n => h.map (h.bytes n "value")

theorem sequence? : P _ ReadM.sequence? := by
  refine h.bind h.tag? fun tag => ?_
  split
  · exact h.pure none
  · exact h.bind h.demanding.length fun n => h.get_bind (fun r => h.pure _) fun _ _ => rfl

theorem tagWithin : P _ (ReadM.tagWithin bounds) := by
  refine h.bind h.more fun more => ?_
  split
  · exact h.peek
  · exact h.pure none

/-- It does not matter whether the end of the input is noticed. -/
theorem watchful : Watchful P where
  toDemanding := h.demanding
  peek_bind hf _ := h.bind h.peek hf
  tagWithin_bind hf _ := h.bind h.tagWithin hf

end Compositional

/-! ### What steps keep -/

variable {α β : Type} {p : ReadM α} {f : α → ReadM β} {r r' : Reader} {I : Reader → Prop} {E : Error → Reader → Prop}

/-- A step has left a reader of one kind, or an error and a reader as that allows. -/
def Leaves (I : Reader → Prop) (E : Error → Reader → Prop) : EStateM.Result Error Reader α → Prop
  | .ok _ r => I r
  | .error e r => E e r

/-- From readers of the kind the step goes on to one, or fails as that is allowed. -/
def Keeps (I : Reader → Prop) (E : Error → Reader → Prop) (p : ReadM α) : Prop := ∀ r, I r → Leaves I E (p.run r)

namespace Keeps

theorem ok {a : α} (h : Keeps I E p) (hr : I r) (hrun : p.run r = .ok a r') : I r' := by
  have hx := h r hr
  rwa [hrun] at hx

theorem error {e : Error} (h : Keeps I E p) (hr : I r) (hrun : p.run r = .error e r') : E e r' := by
  have hx := h r hr
  rwa [hrun] at hx

theorem bind (hp : Keeps I E p) (hf : ∀ a, Keeps I E (f a)) : Keeps I E (p >>= f) := by
  intro r hr
  cases hrun : p.run r with
  | ok a s =>
    rw [ReadM.run_bind_of_ok hrun]
    exact hf a s (hp.ok hr hrun)
  | error e s =>
    rw [ReadM.run_bind_of_error hrun]
    exact hp.error hr hrun

theorem sequential (hE : ∀ {e r}, e.isUndecodable → I r → E e r) : Sequential fun _ => Keeps I E where
  pure _ _ := id
  throw he _ hr := hE he hr
  bind := bind
  get_bind hf _ r hr := hf r r hr

end Keeps

end Ldap.Ber
