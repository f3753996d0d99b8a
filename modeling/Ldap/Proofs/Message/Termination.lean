import Ldap.Proofs.Ber.Ending
import Ldap.Proofs.Filter.Framing
import Ldap.Proofs.Message.Program
import Ldap.Proofs.Message.Stream

/-! Reading a message comes to an end, whatever lengths a peer declares. A round of a loop and a call of the reader of
filters fail or consume two bytes or more, and filters are not followed along more than a fixed number of calls. So a
message that is read has no more than half as many parts as bytes. -/

namespace Ldap

open Ber (ReadM Reader Bounds Error Consumes IsElement Moves)

/-! ### Parts of messages -/

namespace Filter

namespace Parts

def count (parts : Parts) : Nat :=
  parts.initial.toList.length + parts.any.length + parts.final.toList.length

theorem count_le_of_add {parts parts' : Parts} {tag : UInt8} {value : List UInt8}
    (h : parts.add tag value = .ok parts') : parts'.count ≤ parts.count + 1 := by
  unfold add at h
  split at h
  · cases h
    simp [count]
    omega
  split at h
  · cases h
    simp [count]
    omega
  split at h
  · cases h
    simp [count]
  · cases h

end Parts

mutual

/-- The nodes of a filter, and the values and parts of values in them. -/
def parts : Filter → Nat
  | .and filters | .or filters => 1 + partsAll filters
  | .not filter => 1 + parts filter
  | .compare .. | .extensible .. => 2
  | .substrings _ initial any final => 1 + Parts.count ⟨initial, any, final⟩
  | .present _ => 1

def partsAll : List Filter → Nat
  | [] => 0
  | filter :: filters => parts filter + partsAll filters

end

theorem partsAll_eq (filters : List Filter) : partsAll filters = (filters.map parts).sum := by
  induction filters with
  | nil => rfl
  | cons filter filters ih => rw [partsAll, ih, List.map_cons, List.sum_cons]

theorem parts_pos (f : Filter) : 0 < f.parts := by
  cases f <;> rw [parts] <;> omega

end Filter

def Attribute.parts (a : Attribute) : Nat := 1 + a.values.length

def Change.parts (c : Change) : Nat := 1 + c.target.parts

def Control.parts (c : Control) : Nat := 1 + c.value.toList.length

/-- The filter nodes, attributes, changes and referrals of an operation, and the values in it. -/
def Op.parts : Op → Nat
  | .addRequest _ attributes => (attributes.map Attribute.parts).sum
  | .compareRequest .. => 2
  | .extendedRequest request => request.value.toList.length
  | .extendedResponse response => response.result.referrals.length + response.value.toList.length
  | .intermediateResponse _ value => value.toList.length
  | .modifyRequest _ changes => (changes.map Change.parts).sum
  | .searchRequest request => request.filter.parts + request.attributes.length
  | .searchResultEntry entry => (entry.attributes.map Attribute.parts).sum
  | .searchResultReference uris => uris.length
  | .addResponse result | .bindResponse result _ | .compareResponse result | .deleteResponse result
  | .modifyResponse result | .modifyDnResponse result | .searchResultDone result => result.referrals.length
  | .abandonRequest _ | .bindRequest _ | .deleteRequest _ | .modifyDnRequest _ | .unbindRequest => 0

def Message.parts (m : Message) : Nat := m.op.parts + (m.controls.map Control.parts).sum

namespace Program

variable {α β σ : Type} {n start : Nat} {w w' : α → Nat} {p : Program α} {f : α → Program β} {bounds : Bounds}
  {r : Reader}

/-! ### Programs that end -/

/-- Two bytes are the least that a round or a call takes, and there are no more calls around another than there are
levels of filters. -/
def Event.Bounded : Event → Prop
  | .round consumed | .returned consumed => 2 ≤ consumed
  | .call around => around ≤ Filter.maxDepth + 1

/-- The program comes to the outcome on a trace within the bounds. An answer is behind as many bytes as it weighs. -/
def Reaches (n : Nat) (w : α → Nat) (p : Program α) (r : Reader) (out : EStateM.Result Error Reader α) : Prop :=
  ∃ trace, Runs n p r out trace ∧ (∀ e ∈ trace, e.Bounded) ∧
    ∀ a s, out = .ok a s → s.limit = r.limit ∧ r.consumed + w a ≤ s.consumed

/-- Inside `n` calls, the program ends in what it denotes, on readers that have consumed `start` bytes or more. -/
def Ends (n start : Nat) (w : α → Nat) (p : Program α) : Prop :=
  ∀ r, r.limit ≤ Ber.maxLength → start ≤ r.consumed → Reaches n w p r (p.denote.run r)

/-- Behind so many consumed bytes, no more is left of the open sequence than it declares. -/
def Inside (bounds : Bounds) (start : Nat) : Prop := bounds.stop ≤ start + bounds.length

theorem Inside.of_le {start' : Nat} (h : Inside bounds start) (hle : start ≤ start') : Inside bounds start' :=
  Nat.le_trans h (Nat.add_le_add_right hle _)

namespace Reaches

/-- What is left of the weight is on the second program. -/
theorem bind {w' : β → Nat} (hp : Reaches n w p r (p.denote.run r))
    (hf : ∀ a s, p.denote.run r = .ok a s → s.limit = r.limit → r.consumed + w a ≤ s.consumed →
      Reaches n (fun b => w' b - w a) (f a) s ((f a).denote.run s)) :
    Reaches n w' (.bind p f) r ((Program.bind p f).denote.run r) := by
  obtain ⟨first, hfirst, hb, hok⟩ := hp
  rw [denote]
  cases hout : p.denote.run r with
  | error e s =>
    rw [hout] at hfirst
    rw [ReadM.run_bind_of_error hout]
    exact ⟨first, .bind_error hfirst, hb, by simp⟩
  | ok a s =>
    rw [hout] at hfirst
    rw [ReadM.run_bind_of_ok hout]
    obtain ⟨hl, hc⟩ := hok a s hout
    obtain ⟨second, hsecond, hb', hok'⟩ := hf a s hout hl hc
    refine ⟨first ++ second, .bind hfirst hsecond, List.forall_mem_append.mpr ⟨hb, hb'⟩, fun b t hout' => ?_⟩
    obtain ⟨hl', hc'⟩ := hok' b t hout'
    dsimp only at hc'
    exact ⟨hl'.trans hl, by omega⟩

variable {body : σ → Program σ} {size : σ → Nat} {count : Nat} {s : σ}

/-- A round, and then those that follow it. -/
theorem round (hlt : r.consumed < bounds.stop)
    (hb : Reaches n (fun s' => max 2 (size s' - size s)) (body s) r ((body s).denote.run r))
    (hl : ∀ s' u, u.limit = r.limit → r.consumed + 2 ≤ u.consumed →
      Reaches n (fun s'' => size s'' - size s') (.loop bounds body s') u
        ((ReadM.foldComponents bounds (fun s => (body s).denote) count s').run u)) :
    Reaches n (fun s' => size s' - size s) (.loop bounds body s) r
      ((ReadM.foldComponents bounds (fun s => (body s).denote) (count + 1) s).run r) := by
  have hmore := ReadM.run_of_answer_ok (ReadM.answer_more (Nat.le_of_lt hlt))
  rw [decide_eq_true hlt] at hmore
  obtain ⟨first, hfirst, hb, hok⟩ := hb
  rw [ReadM.foldComponents, ReadM.run_bind_of_ok hmore, if_pos rfl]
  cases hout : (body s).denote.run r with
  | error e u =>
    rw [hout] at hfirst
    rw [ReadM.run_bind_of_error hout]
    exact ⟨first, .loop_failed hmore hfirst, hb, by simp⟩
  | ok s' u =>
    rw [hout] at hfirst
    rw [ReadM.run_bind_of_ok hout]
    obtain ⟨hlimit, hc⟩ := hok s' u hout
    dsimp only at hc
    obtain ⟨later, hlater, hb', hok'⟩ := hl s' u hlimit (by omega)
    have hround : (Event.round (u.consumed - r.consumed)).Bounded := by
      rw [Event.Bounded]
      omega
    refine ⟨_, .loop_next hmore hfirst hlater, ?_, fun s'' v hout' => ?_⟩
    · exact List.forall_mem_append.mpr ⟨hb, List.forall_mem_cons.mpr ⟨hround, hb'⟩⟩
    · obtain ⟨hlimit', hc'⟩ := hok' s'' v hout'
      dsimp only at hc' ⊢
      exact ⟨hlimit'.trans hlimit, by omega⟩

/-- There is no round at the end of a sequence, or behind it. -/
theorem no_round (h : bounds.stop ≤ r.consumed) :
    Reaches n (fun s' => size s' - size s) (.loop bounds body s) r
      ((ReadM.foldComponents bounds (fun s => (body s).denote) (count + 1) s).run r) := by
  rw [ReadM.foldComponents]
  obtain hover | hend := Nat.lt_or_eq_of_le h
  · have hmore := ReadM.run_more_of_lt hover
    rw [ReadM.run_bind_of_error hmore]
    exact ⟨[], .loop_overrun hmore, by simp, by simp⟩
  · have hmore := ReadM.run_of_answer_ok (ReadM.answer_more (Nat.le_of_eq hend.symm))
    rw [decide_eq_false (Nat.not_lt.mpr h)] at hmore
    rw [ReadM.run_bind_of_ok hmore]
    refine ⟨[], .loop_end hmore, by simp, fun s' t hout => ?_⟩
    cases hout
    dsimp only
    exact ⟨rfl, by omega⟩

/-- The count of rounds does not run out, since each takes a byte or more of those that are left. -/
theorem foldComponents (hbody : ∀ s, Ends n start (fun s' => max 2 (size s' - size s)) (body s)) (count : Nat) (s : σ)
    (hr : r.limit ≤ Ber.maxLength) (hs : start ≤ r.consumed) (hstop : bounds.stop ≤ r.consumed + count) :
    Reaches n (fun s' => size s' - size s) (.loop bounds body s) r
      ((ReadM.foldComponents bounds (fun s => (body s).denote) (count + 1) s).run r) := by
  -- on the count, which stays as large as what the sequence still declares
  induction count generalizing s r with
  | zero => exact no_round hstop
  | succ count ih =>
    by_cases hlt : r.consumed < bounds.stop
    · exact round hlt (hbody s r hr hs) fun s' u hl hc => ih s' (hl ▸ hr) (by omega) (by omega)
    · exact no_round (Nat.not_lt.mp hlt)

end Reaches

namespace Ends

theorem of_le (hp : Ends n start w p) (h : ∀ a, w' a ≤ w a) : Ends n start w' p := by
  intro r hr hs
  obtain ⟨trace, hrun, hb, hok⟩ := hp r hr hs
  refine ⟨trace, hrun, hb, fun a s hout => ?_⟩
  obtain ⟨hl, hc⟩ := hok a s hout
  exact ⟨hl, Nat.le_trans (Nat.add_le_add_left (h a) _) hc⟩

theorem bind (hp : Ends n start w p) {w' : β → Nat} (hf : ∀ a, Ends n start (fun b => w' b - w a) (f a)) :
    Ends n start w' (.bind p f) := fun r hr hs =>
  (hp r hr hs).bind fun a s _ hl hc => hf a s (hl ▸ hr) (by omega)

/-! ### Steps -/

theorem step {p : ReadM α} (hp : Consumes p fun a taken => w a ≤ taken.length) : Ends n start w (.step p) := by
  intro r hr _
  refine ⟨[], .step p r, by simp, fun a s hout => ?_⟩
  have ha : p.answer r = .ok (a, s) := by rw [ReadM.answer, show p.run r = .ok a s from hout]
  obtain ⟨taken, hpass, hw⟩ := hp r hr a s ha
  have hlen := hpass.consumed
  exact ⟨hpass.limit, by omega⟩

theorem element {p : ReadM α} (hp : Consumes p fun _ => IsElement) : Ends n start (fun _ => 2) (.step p) :=
  step (hp.of_imp fun _ _ h => h.two_le_length)

theorem octets : Ends n start (fun _ => 2) (.step ReadM.octets) := element Consumes.octets

theorem text : Ends n start (fun _ => 2) (.step ReadM.text) := element Consumes.text

theorem integer : Ends n start (fun _ => 2) (.step ReadM.integer) := element Consumes.integer

theorem boolean : Ends n start (fun _ => 2) (.step ReadM.boolean) := element Consumes.boolean

theorem throw (e : Error) : Ends n start w (.step (MonadExcept.throw e)) := step (Consumes.throw e)

theorem moving {p : ReadM α} {Q : α → Reader → Prop} (hp : Moves (fun _ => True) p Q) :
    Ends n start (fun _ => 0) (.step p) :=
  step fun r _ a s ha => (hp r trivial a s ha).1.imp fun _ h => ⟨h, Nat.zero_le _⟩

/-- What consumes nothing may give an answer that weighs nothing. -/
theorem still {p : ReadM α} (hp : Consumes p fun a taken => taken = [] ∧ w a = 0) : Ends n start w (.step p) :=
  step (hp.of_imp fun _ _ h => h.2 ▸ Nat.zero_le _)

theorem looking {p : ReadM α} (hp : Consumes p fun _ taken => taken = []) : Ends n start (fun _ => 0) (.step p) :=
  still (hp.of_imp fun _ _ h => ⟨h, rfl⟩)

theorem pure {a : α} (h : w a = 0) : Ends n start w (.step (Pure.pure a)) :=
  still ((Consumes.pure a).of_imp fun _ _ ⟨ha, ht⟩ => ⟨ht, ha ▸ h⟩)

theorem unless_more (e : Error) {a : α} (h : w a = 0) : Ends n start w (.step do
    if ← ReadM.more bounds then MonadExcept.throw e
    return a) :=
  still ((Consumes.unless_more e a).of_imp fun _ _ ⟨ht, ha⟩ => ⟨ht, ha ▸ h⟩)

theorem map {w : β → Nat} {g : α → β} (hp : Ends n start (fun a => w (g a)) p) :
    Ends n start w (.bind p fun a => .step (Pure.pure (g a))) :=
  hp.bind fun _ => pure (Nat.sub_self _)

theorem peekRequired_bind {w : β → Nat} {part : String} {f : UInt8 → Program β} (hf : ∀ tag, Ends n start w (f tag)) :
    Ends n start w (.bind (.step (ReadM.peekRequired part)) f) := (moving (Moves.peekRequired part)).bind hf

theorem optional {p : ReadM α} {tag : UInt8} (hp : Consumes p fun _ => IsElement) :
    Ends n start (fun a? => 2 * a?.toList.length) (.step (ReadM.optional bounds tag p)) := by
  refine step (hp.optional.of_imp fun a? taken h => ?_)
  cases a? with
  | none => exact Nat.zero_le _
  | some a => exact (h rfl).two_le_length

/-! ### Open sequences -/

/-- Behind its header, no more is left of a sequence than it declares. -/
theorem sequence_bind {w : β → Nat} {f : Bounds → Program β}
    (hf : ∀ bounds start', start ≤ start' → Inside bounds start' → Ends n start' (fun b => w b - 2) (f bounds)) :
    Ends n start w (.bind (.step ReadM.sequence) f) := by
  have htwo : Consumes ReadM.sequence fun _ taken => 2 ≤ taken.length := by
    intro r hr bounds s ha
    obtain ⟨header, hpass, hd, -⟩ := Consumes.of_sequence ha hr
    exact ⟨_, hpass, Nat.succ_le_succ hd.length_pos⟩
  intro r hr hs
  refine Reaches.bind (step htwo r hr hs) fun bounds s hout hl hc => ?_
  have ha : ReadM.sequence.answer r = .ok (bounds, s) := by rw [ReadM.answer, show ReadM.sequence.run r = _ from hout]
  obtain ⟨-, -, -, hstop⟩ := Consumes.of_sequence ha hr
  exact hf bounds s.consumed (by omega) (Nat.le_of_eq hstop) s (hl ▸ hr) (Nat.le_refl _)

theorem loop {body : σ → Program σ} (size : σ → Nat) (hb : Inside bounds start)
    (hbody : ∀ s, Ends n start (fun s' => max 2 (size s' - size s)) (body s)) (s : σ) :
    Ends n start (fun s' => size s' - size s) (.loop bounds body s) := fun _ hr hs =>
  Reaches.foldComponents hbody bounds.length s hr hs (hb.of_le hs)

theorem skipRest (hb : Inside bounds start) : Ends n start (fun _ => 0) (skipRest bounds) :=
  loop (fun _ => 0) hb (fun _ => element Consumes.skipElement) ()

theorem skipRest_pure (hb : Inside bounds start) {a : α} (h : w a = 0) :
    Ends n start w (do Program.skipRest bounds; return a) :=
  (skipRest hb).bind fun _ => pure h

/-- A list has the parts of its items together. -/
theorem listOf {parts : α → Nat} (hb : Inside bounds start) (hp : Ends n start (fun a => 2 * parts a) p)
    (hpos : ∀ a, 0 < parts a) : Ends n start (fun as => 2 * (as.map parts).sum) (listOf bounds p) := by
  have hbody (found : List α) : Ends n start
      (fun found' => max 2 (2 * (found'.map parts).sum - 2 * (found.map parts).sum)) (do return (← p) :: found) := by
    refine map (hp.of_le fun a => ?_)
    have := hpos a
    rw [List.map_cons, List.sum_cons]
    omega
  refine map ((loop (fun found => 2 * (found.map parts).sum) hb hbody []).of_le fun found => ?_)
  rw [List.map_reverse, List.sum_reverse]
  exact Nat.le_refl _

theorem listOf_elements {p : ReadM α} (hb : Inside bounds start) (hp : Consumes p fun _ => IsElement) :
    Ends n start (fun as => 2 * as.length) (Program.listOf bounds (.step p)) := by
  have hone : Ends n start (fun _ => 2 * 1) (.step p) := element hp
  refine (listOf hb hone fun _ => Nat.one_pos).of_le fun as => ?_
  simp

/-! ### Filters -/

theorem substringPart (parts : Filter.Parts) :
    Ends n start (fun parts' => max 2 (2 * parts'.count - 2 * parts.count)) (.step (Filter.Parts.read parts)) := by
  refine step (Consumes.peekRequired_bind fun tag => (Consumes.octets.bind fun value => Consumes.lift _).of_imp ?_)
  rintro parts' _ ⟨value, taken, _, rfl, htaken, rfl, hadd⟩
  have hcount := Filter.Parts.count_le_of_add hadd
  have htwo := htaken.two_le_length
  rw [List.append_nil]
  omega

theorem substrings : Ends n start (fun f => 2 * f.parts) substrings := by
  refine sequence_bind fun _ _ _ _ => text.bind fun name => sequence_bind fun bounds _ _ hb =>
    (loop (fun parts : Filter.Parts => 2 * parts.count) hb substringPart {}).bind fun parts => pure ?_
  change 2 * (1 + parts.count) - 2 - 2 - 2 - (2 * parts.count - 2 * 0) = 0
  omega

theorem extensiblePart (m : Filter.Match) :
    Ends n start (fun m' => max 2 (2 * m'.value.toList.length - 2 * m.value.toList.length)) (.step m.read) := by
  refine (element (Filter.Match.consumes m)).of_le fun m' => ?_
  cases m'.value <;> simp

/-- The value is one of the components, or there is no answer. -/
theorem extensible : Ends n start (fun f => 2 * f.parts) extensible := by
  refine sequence_bind fun bounds _ _ hb =>
    (loop (fun m : Filter.Match => 2 * m.value.toList.length) hb extensiblePart {}).bind fun m =>
      still ((Consumes.lift _).of_imp fun f _ ⟨ht, hf⟩ => ⟨ht, ?_⟩)
  rw [Filter.Match.toFilter] at hf
  split at hf
  · cases hf
  · rename_i value hvalue
    split at hf
    · cases hf
    · cases hf
      simp [Filter.parts, hvalue]

theorem comparison (c : Comparison) : Ends n start (fun f => 2 * f.parts) (.step (Filter.readComparison c)) := by
  refine step ((Consumes.sequence_bind fun _ => Consumes.text.bind fun name => Consumes.octets.bind fun value =>
    Consumes.pure (Filter.compare c name value)).of_imp ?_)
  rintro f _ ⟨tag, header, _, _, hd, rfl, name, first, _, rfl, hfirst, value, second, _, rfl, hsecond, rfl, rfl⟩
  have := hd.length_pos
  have := hfirst.two_le_length
  have := hsecond.two_le_length
  simp only [Filter.parts, List.length_cons, List.length_append]
  omega

theorem filterLeaf (tag : UInt8) : Ends n start (fun f => 2 * f.parts) (filterLeaf tag) := by
  unfold Program.filterLeaf
  split
  · exact comparison _
  split
  · exact substrings
  split
  · exact map text
  split
  · exact extensible
  · exact throw _

/-- A filter weighs what it is made of, and a set or a negation has a header. -/
theorem filterSet {p : Program Filter} {set : List Filter → Filter} (hp : ∀ start, Ends n start (fun f => 2 * f.parts) p)
    (hset : ∀ filters, (set filters).parts = 1 + Filter.partsAll filters) :
    Ends n start (fun f => 2 * f.parts) (do return set (← Program.listOf (← ReadM.sequence) p)) := by
  refine sequence_bind fun bounds start' _ hb =>
    (listOf hb (hp start') Filter.parts_pos).bind fun filters => pure ?_
  rw [hset, Filter.partsAll_eq]
  omega

theorem filterAt
    (hp : n ≤ Filter.maxDepth → ∀ start, Ends (n + 1) start (fun f => 2 * f.parts) (.filter (n + 1))) :
    Ends (n + 1) start (fun f => 2 * f.parts) (Program.filterAt n) := by
  unfold Program.filterAt
  split
  · exact throw _
  · rename_i hn
    have hp := hp (Nat.le_of_not_lt hn)
    refine peekRequired_bind fun tag => ?_
    split
    · exact filterSet hp fun _ => rfl
    split
    · exact filterSet hp fun _ => rfl
    split
    · refine sequence_bind fun bounds start' _ _ => (hp start').bind fun f => unless_more _ ?_
      simp only [Filter.parts]
      omega
    · exact filterLeaf tag

theorem filter_of_filterAt (h : Ends (n + 1) start (fun f => 2 * f.parts) (Program.filterAt n))
    (hn : n ≤ Filter.maxDepth + 1) : Ends n start (fun f => 2 * f.parts) (.filter n) := by
  intro r hr hs
  obtain ⟨trace, hrun, hb, hok⟩ := h r hr hs
  rw [denote_filterAt] at hrun hok
  cases hout : (Program.filter n).denote.run r with
  | error e s =>
    rw [hout] at hrun
    exact ⟨_, .filter_error hrun, List.forall_mem_cons.mpr ⟨hn, hb⟩, by simp⟩
  | ok f s =>
    rw [hout] at hrun
    obtain ⟨hl, hc⟩ := hok f s hout
    have hpos := f.parts_pos
    dsimp only at hc
    have hreturned : (Event.returned (s.consumed - r.consumed)).Bounded := by
      rw [Event.Bounded]
      omega
    refine ⟨_, .filter hrun, ?_, fun g t hout' => ?_⟩
    · exact List.forall_mem_append.mpr
        ⟨List.forall_mem_cons.mpr ⟨hn, hb⟩, List.forall_mem_singleton.mpr hreturned⟩
    · cases hout'
      exact ⟨hl, hc⟩

/-- By induction on the levels that are left, of which a call takes one. -/
theorem filter (hn : n ≤ Filter.maxDepth + 1) : Ends n start (fun f => 2 * f.parts) (.filter n) := by
  obtain ⟨levels, hlevels⟩ := Nat.exists_eq_add_of_le hn
  induction levels generalizing n start with
  | zero => exact filter_of_filterAt (filterAt fun h => absurd h (by omega)) hn
  | succ levels ih => exact filter_of_filterAt (filterAt fun h _ => ih (by omega) (by omega)) hn

/-! ### Parts of operations -/

theorem singleAttribute : Ends n start (fun a => 2 * a.parts) singleAttribute := by
  refine sequence_bind fun bounds _ _ hb => text.bind fun name => sequence_bind fun inner _ hle hi =>
    (listOf_elements hi Consumes.octets).bind fun values => skipRest_pure (hb.of_le hle) ?_
  simp only [Attribute.parts]
  omega

theorem attributes : Ends n start (fun as => 2 * (as.map Attribute.parts).sum) attributes :=
  sequence_bind fun _ _ _ hb => (listOf hb singleAttribute fun _ => Nat.lt_add_right _ Nat.one_pos).of_le
    fun _ => Nat.sub_le _ _

theorem result : Ends n start (fun r => 2 * r.referrals.length) (result bounds) := by
  refine integer.bind fun code => text.bind fun matchedDn => text.bind fun message =>
    (looking Consumes.tagWithin).bind fun tag? => ?_
  split
  · refine sequence_bind fun inner _ _ hi => map ((listOf_elements hi Consumes.text).of_le fun _ => ?_)
    dsimp only
    omega
  · exact pure rfl

theorem scope : Ends n start (fun _ => 2) (.step SearchRequest.readScope) := by
  refine element (Consumes.integer.bind_still fun code => ?_)
  split
  · exact (Consumes.pure _).of_imp fun _ _ h => h.2
  · exact Consumes.throw _

theorem changeKind : Ends n start (fun _ => 2) (.step Change.readKind) := by
  refine element (Consumes.integer.bind_still fun code => ?_)
  split
  · exact (Consumes.pure _).of_imp fun _ _ h => h.2
  · exact Consumes.throw _

theorem sasl : Ends n start (fun _ => 0) sasl := by
  refine sequence_bind fun bounds _ _ hb => text.bind fun mechanism => (looking Consumes.more).bind fun more => ?_
  dsimp only
  split
  · exact (moving (Moves.map Moves.octets)).bind fun _ => skipRest_pure hb (by rfl)
  · exact (moving (Moves.pure none)).bind fun _ => skipRest_pure hb (by rfl)

theorem bindRequest : Ends n start (fun _ => 0) bindRequest := by
  refine sequence_bind fun bounds _ _ hb => integer.bind fun _ => text.bind fun _ =>
    Ends.bind (w := fun _ => 0) ?_ fun _ => skipRest_pure hb (by rfl)
  refine (looking Consumes.peek).bind fun tag? => ?_
  split
  · exact sasl
  · exact map (octets.of_le fun _ => Nat.zero_le _)

theorem bindResponse : Ends n start (fun op => 2 * op.parts) bindResponse := by
  refine sequence_bind fun bounds _ _ hb => result.bind fun result => (optional Consumes.octets).bind fun credentials =>
    skipRest_pure hb ?_
  simp only [Op.parts]
  omega

theorem searchRequest :
    Ends 0 start (fun s => 2 * (s.filter.parts + s.attributes.length)) searchRequest := by
  refine sequence_bind fun bounds _ _ hb => text.bind fun base => scope.bind fun scope =>
    integer.bind fun derefAliases => integer.bind fun sizeLimit => integer.bind fun timeLimit => boolean.bind fun typesOnly =>
    (filter (Nat.zero_le _)).bind fun f => sequence_bind fun inner _ hle hi =>
    (listOf_elements hi Consumes.text).bind fun attributes => skipRest_pure (hb.of_le hle) ?_
  dsimp only
  omega

theorem resultEntry : Ends n start (fun e => 2 * (e.attributes.map Attribute.parts).sum) resultEntry := by
  refine sequence_bind fun bounds _ _ hb => text.bind fun dn => attributes.bind fun attributes =>
    skipRest_pure hb ?_
  dsimp only
  omega

theorem change : Ends n start (fun c => 2 * c.parts) change := by
  refine sequence_bind fun bounds _ _ hb => changeKind.bind fun kind => singleAttribute.bind fun target =>
    skipRest_pure hb ?_
  simp only [Change.parts]
  omega

theorem modifyDnRequest : Ends n start (fun _ => 0) modifyDnRequest :=
  sequence_bind fun bounds _ _ hb => text.bind fun dn => text.bind fun newRdn => boolean.bind fun deleteOldRdn =>
    (optional Consumes.text).bind fun newSuperior => skipRest_pure hb (by simp)

theorem addRequest : Ends n start (fun op => 2 * op.parts) addRequest := by
  refine sequence_bind fun bounds _ _ hb => text.bind fun dn => attributes.bind fun attributes =>
    skipRest_pure hb ?_
  simp only [Op.parts]
  omega

theorem compareRequest : Ends n start (fun op => 2 * op.parts) compareRequest :=
  sequence_bind fun _ _ _ hb => text.bind fun _ => sequence_bind fun _ _ hle ha =>
    text.bind fun _ => octets.bind fun _ => (skipRest ha).bind fun _ => skipRest_pure (hb.of_le hle) (by rfl)

theorem modifyRequest : Ends n start (fun op => 2 * op.parts) modifyRequest := by
  refine sequence_bind fun bounds _ _ hb => text.bind fun dn => sequence_bind fun inner _ hle hi =>
    (listOf hi change fun _ => Nat.lt_add_right _ Nat.one_pos).bind fun changes =>
    skipRest_pure (hb.of_le hle) ?_
  simp only [Op.parts]
  omega

theorem extendedRequest : Ends n start (fun r => 2 * r.value.toList.length) extendedRequest := by
  refine sequence_bind fun bounds _ _ hb => text.bind fun oid => (optional Consumes.octets).bind fun value =>
    skipRest_pure hb ?_
  dsimp only
  omega

theorem extendedResponse :
    Ends n start (fun r => 2 * (r.result.referrals.length + r.value.toList.length)) extendedResponse := by
  refine sequence_bind fun bounds _ _ hb => result.bind fun result => (optional Consumes.text).bind fun oid =>
    (optional Consumes.octets).bind fun value => skipRest_pure hb ?_
  dsimp only
  omega

theorem intermediateResponse : Ends n start (fun op => 2 * op.parts) intermediateResponse := by
  refine sequence_bind fun bounds _ _ hb => (optional Consumes.text).bind fun oid =>
    (optional Consumes.octets).bind fun value => skipRest_pure hb ?_
  simp only [Op.parts]
  omega

theorem resultOnly : Ends n start (fun r => 2 * r.referrals.length) resultOnly := by
  refine sequence_bind fun bounds _ _ hb => result.bind fun result => skipRest_pure hb ?_
  omega

theorem op : Ends 0 start (fun op => 2 * op.parts) op := by
  refine peekRequired_bind fun tag => ?_
  split
  · exact map (integer.of_le fun _ => Nat.zero_le _)
  · exact addRequest
  · exact map resultOnly
  · exact map bindRequest
  · exact bindResponse
  · exact compareRequest
  · exact map resultOnly
  · exact map (text.of_le fun _ => Nat.zero_le _)
  · exact map resultOnly
  · exact map extendedRequest
  · exact map extendedResponse
  · exact intermediateResponse
  · exact modifyRequest
  · exact map resultOnly
  · exact map (modifyDnRequest)
  · exact map resultOnly
  · exact map searchRequest
  · exact map resultEntry
  · exact sequence_bind fun _ _ _ hb => map ((listOf_elements hb Consumes.text).of_le fun _ => Nat.sub_le _ _)
  · exact map resultOnly
  · exact (element Consumes.null).bind fun _ => pure (by rfl)
  · exact throw _

/-! ### Messages -/

theorem controlPart (c : Control) : Ends n start
    (fun c' => max 2 (2 * c'.value.toList.length - 2 * c.value.toList.length)) (.step (Control.readComponent c)) := by
  have hpart : Consumes (Control.readComponent c) fun _ => IsElement := by
    refine Consumes.peekRequired_bind fun tag => ?_
    split
    · exact Consumes.map Consumes.boolean
    split
    · exact Consumes.map Consumes.octets
    · exact Consumes.throw _
  refine (element hpart).of_le fun c' => ?_
  cases c'.value <;> simp

theorem control : Ends n start (fun c => 2 * c.parts) control := by
  refine sequence_bind fun bounds start' _ hb => text.bind fun oid =>
    (loop (fun c : Control => 2 * c.value.toList.length) hb controlPart ⟨oid, false, none⟩).of_le fun c => ?_
  simp only [Control.parts, Option.toList_none, List.length_nil]
  omega

theorem controls : Ends n start (fun cs => 2 * (cs.map Control.parts).sum) (controls bounds) := by
  refine (looking Consumes.more).bind fun more => ?_
  split
  · refine peekRequired_bind fun tag => ?_
    split
    · refine sequence_bind fun inner _ _ hi =>
        (listOf hi control fun _ => Nat.lt_add_right _ Nat.one_pos).of_le fun _ => ?_
      omega
    · exact throw _
  · exact pure rfl

theorem body : Ends 0 start (fun m => 2 * m.parts) (body bounds) := by
  unfold Program.body
  split
  · exact throw _
  · refine integer.bind fun id => op.bind fun op => controls.bind fun controls => unless_more _ ?_
    simp only [Message.parts]
    omega

theorem message : Ends 0 start (fun m? => 2 * (m?.map Message.parts).getD 0) message := by
  refine (moving Moves.sequence?).bind fun bounds? => ?_
  cases bounds? with
  | none => exact pure rfl
  | some bounds => exact map body

end Ends

end Program

/-! ### Reading -/

namespace Message

open Program (Runs Event)

/-- Reading a message returns from any reader, by a run of its program, of which there is one. Each round and each call
that is done on the way has consumed two bytes or more, and no call is inside more calls than filters may have levels.
What is read has no more than half as many parts as bytes were consumed for it. -/
theorem runs_read (r : Reader) (limit : Nat) :
    (∃ trace, Runs 0 Program.message (r.setLimit limit) (read.run (r.setLimit limit)) trace ∧
      (∀ e ∈ trace, e.Bounded) ∧
      ∀ out trace', Runs 0 Program.message (r.setLimit limit) out trace' →
        out = read.run (r.setLimit limit) ∧ trace' = trace) ∧
    ∀ m r', read.run (r.setLimit limit) = .ok (some m) r' → r.consumed + 2 * m.parts ≤ r'.consumed := by
  have hends : Program.Ends 0 0 _ Program.message := Program.Ends.message
  obtain ⟨trace, hrun, hb, hok⟩ := hends (r.setLimit limit) (limit_setLimit_le r limit) (Nat.zero_le _)
  rw [Program.denote_message] at hrun hok
  exact ⟨⟨trace, hrun, hb, fun _ _ h => h.unique hrun⟩, fun m r' h => (hok _ _ h).2⟩

/-- The message that is read has four filters in it, a name of an attribute, and a control. -/
theorem runs_read_search :
    let f : Filter := .and [.not (.present "cn"), .present ""]
    let m : Message :=
      ⟨7, .searchRequest { base := "", scope := .subtree, filter := f, attributes := ["cn"] }, [⟨"1.2", false, none⟩]⟩
    let r := (Reader.ofBytes m.encode).setLimit 0
    ∃ r', read.run r = .ok (some m) r' ∧ r'.consumed = m.encode.length ∧ m.parts = 6 ∧
      (∃ trace, Runs 0 Program.message r (.ok (some m) r') trace ∧ ∀ e ∈ trace, e.Bounded) ∧
      2 * m.parts ≤ m.encode.length := by
  intro f m r
  have h : m.Encodable := ⟨⟨by decide, by decide⟩, by decide⟩
  obtain ⟨r', hread, hconsumed⟩ := run_read_encoded h
  obtain ⟨⟨trace, hrun, hb, -⟩, hparts⟩ := runs_read (Reader.ofBytes m.encode) 0
  rw [hread] at hrun
  have hlen := hparts m _ hread
  rw [hconsumed] at hlen
  exact ⟨r', hread, hconsumed, by decide, ⟨trace, hrun, hb⟩, Nat.le_of_add_left_le hlen⟩

end Message

end Ldap
