import Ldap.Proofs.Control.Admission
import Mathlib.Data.List.Induction
import Mathlib.Data.List.Nodup

/-! Admission decided control by control. The first control that is refused settles the matter, and behind that only
three combinations of controls do. What is admitted is a map of the controls that take effect, in which neither the
order of the controls nor those that are dropped leave a trace. -/

namespace Ldap

theorem ControlKind.ofOid?_oid (kind : ControlKind) : ofOid? kind.oid = some kind := by
  cases kind <;> rfl

theorem ControlKind.oid_injective {kind kind' : ControlKind} (h : kind.oid = kind'.oid) : kind = kind' := by
  have hsome : some kind = some kind' := by rw [← ofOid?_oid kind, h, ofOid?_oid kind']
  exact Option.some.inj hsome

theorem ControlKind.ofOid?_eq_some_iff {oid : String} {kind : ControlKind} :
    ofOid? oid = some kind ↔ kind.oid = oid := by
  constructor
  · intro h
    simpa using List.find?_some h
  · rintro rfl
    exact ofOid?_oid kind

namespace Control

variable {operation : Operation} {before controls : List Control} {c : Control} {kind : ControlKind}
  {decoded : RequestControl} {e : AdmissionError}

/-- The control marks an operation of the server itself, which is open to every request. -/
def IsInternal (c : Control) : Prop := c.oid = ControlKind.internalOperation.oid

/-- The control is of a kind that the operation takes. -/
def Applies (operation : Operation) (c : Control) (kind : ControlKind) : Prop :=
  kind ≠ .internalOperation ∧ kind.oid = c.oid ∧ operation ∈ kind.operations

/-- What a control that takes effect is decoded to. -/
inductive Means (operation : Operation) (c : Control) : RequestControl → Prop
  | applied (kind : ControlKind) (ha : c.Applies operation kind) (decoded : RequestControl)
      (hd : c.decode kind = .ok decoded) : Means operation c decoded
  | internal (hi : c.IsInternal) : Means operation c .internalOperation

/-- Why a control is refused that stands behind others. -/
inductive Refused (operation : Operation) (before : List Control) (c : Control) : AdmissionError → Prop
  | unavailable (hi : ¬ c.IsInternal) (hn : ∀ kind, ¬ c.Applies operation kind) (hc : c.critical = true) :
      Refused operation before c (.unavailable c.oid operation)
  | malformed (kind : ControlKind) (ha : c.Applies operation kind) (cause : Ber.Error)
      (hd : c.decode kind = .error cause) : Refused operation before c (.malformed c.oid cause)
  | repeated (kind : ControlKind) (ha : c.Applies operation kind) (decoded : RequestControl)
      (hd : c.decode kind = .ok decoded) (hb : ∃ b ∈ before, b.oid = c.oid) :
      Refused operation before c (.repeated c.oid)

theorem Applies.unique {kind' : ControlKind} (h : c.Applies operation kind) (h' : c.Applies operation kind') :
    kind = kind' := ControlKind.oid_injective (h.2.1.trans h'.2.1.symm)

/-- Whether a control applies is settled by its object identifier. -/
theorem Applies.of_oid {b : Control} (h : c.Applies operation kind) (ho : b.oid = c.oid) :
    b.Applies operation kind := ⟨h.1, h.2.1.trans ho.symm, h.2.2⟩

theorem Applies.not_internal (h : c.Applies operation kind) : ¬ c.IsInternal := fun hi =>
  h.1 (ControlKind.oid_injective (h.2.1.trans hi))

/-- Some control is of a kind that the operation takes. -/
def Sends (operation : Operation) (controls : List Control) (kind : ControlKind) : Prop :=
  ∃ c ∈ controls, c.Applies operation kind

/-- No control is refused. -/
def NoneRefused (operation : Operation) (controls : List Control) : Prop :=
  ∀ before c after e, controls = before ++ c :: after → ¬ Refused operation before c e

/-- A control is refused, and none before it. -/
def FirstRefused (operation : Operation) (controls : List Control) (e : AdmissionError) : Prop :=
  ∃ before c after, controls = before ++ c :: after ∧ NoneRefused operation before ∧ Refused operation before c e

/-- Why controls may not stand together. The reasons are tried in this order. -/
inductive Clash (operation : Operation) (controls : List Control) : AdmissionError → Prop
  | proxiedTwice
      (h : Sends operation controls .proxiedAuthorizationV1 ∧ Sends operation controls .proxiedAuthorizationV2) :
      Clash operation controls .proxiedTwice
  | pagedListView
      (h : ¬ (Sends operation controls .proxiedAuthorizationV1 ∧ Sends operation controls .proxiedAuthorizationV2))
      (hv : Sends operation controls .listView) (hp : Sends operation controls .pagedResults) :
      Clash operation controls .pagedListView
  | sortMissing
      (h : ¬ (Sends operation controls .proxiedAuthorizationV1 ∧ Sends operation controls .proxiedAuthorizationV2))
      (hv : Sends operation controls .listView) (hp : ¬ Sends operation controls .pagedResults)
      (hs : ¬ Sends operation controls .sort) : Clash operation controls .sortMissing

/-- The last control of an object identifier, with what it is decoded to if it takes effect. -/
def Latest (operation : Operation) (controls : List Control) (oid : String) (x : Control × RequestControl) : Prop :=
  ∃ before after, controls = before ++ x.1 :: after ∧ x.1.oid = oid ∧ x.1.Means operation x.2 ∧
    ∀ c ∈ after, c.oid ≠ oid

/-- Whether a control takes effect is settled by its object identifier. -/
def TakesEffect (operation : Operation) (c : Control) : Prop := c.IsInternal ∨ ∃ kind, c.Applies operation kind

/-- A control without effect is dropped unless it is critical. -/
def Ignored (operation : Operation) (c : Control) : Prop := ¬ c.TakesEffect operation ∧ c.critical = false

theorem TakesEffect.of_oid {b : Control} (h : c.TakesEffect operation) (ho : b.oid = c.oid) :
    b.TakesEffect operation := by
  rcases h with hi | ⟨kind, ha⟩
  · exact .inl (ho.trans hi)
  · exact .inr ⟨kind, ha.of_oid ho⟩

theorem Means.takesEffect (h : c.Means operation decoded) : c.TakesEffect operation := by
  cases h with
  | applied kind ha => exact .inr ⟨kind, ha⟩
  | internal hi => exact .inl hi

theorem Means.applies_iff (h : c.Means operation decoded) (hi : kind ≠ .internalOperation) :
    c.Applies operation kind ↔ c.oid = kind.oid := by
  refine ⟨fun ha => ha.2.1.symm, fun ho => ?_⟩
  rcases h.takesEffect with hc | ⟨kind', ha⟩
  · exact absurd (ControlKind.oid_injective (ho.symm.trans hc)) hi
  · exact ControlKind.oid_injective (ha.2.1.trans ho) ▸ ha

theorem Means.unique {decoded' : RequestControl} (h : c.Means operation decoded) (h' : c.Means operation decoded') :
    decoded = decoded' := by
  cases h with
  | applied kind ha _ hd =>
    cases h' with
    | applied kind' ha' _ hd' =>
      obtain rfl := ha.unique ha'
      exact Except.ok.inj (hd.symm.trans hd')
    | internal hi => exact absurd hi ha.not_internal
  | internal hi =>
    cases h' with
    | applied kind' ha' => exact absurd hi ha'.not_internal
    | internal => rfl

/-! ### Refusals -/

theorem not_refused_internal (h : c.IsInternal) : ¬ c.Refused operation before e := by
  rintro (⟨hi, -, -⟩ | ⟨_, ha, -, -⟩ | ⟨_, ha, -, -, -⟩)
  · exact hi h
  · exact ha.not_internal h
  · exact ha.not_internal h

theorem refused_applies_iff (h : c.Applies operation kind) :
    c.Refused operation before e ↔ (∃ cause, c.decode kind = .error cause ∧ e = .malformed c.oid cause) ∨
      ∃ decoded, c.decode kind = .ok decoded ∧ (∃ b ∈ before, b.oid = c.oid) ∧ e = .repeated c.oid := by
  constructor
  · rintro (⟨-, hn, -⟩ | ⟨kind', ha, cause, hd⟩ | ⟨kind', ha, decoded, hd, hb⟩)
    · exact absurd h (hn kind)
    · obtain rfl := h.unique ha
      exact .inl ⟨cause, hd, rfl⟩
    · obtain rfl := h.unique ha
      exact .inr ⟨decoded, hd, hb, rfl⟩
  · rintro (⟨cause, hd, rfl⟩ | ⟨decoded, hd, hb, rfl⟩)
    · exact .malformed kind h cause hd
    · exact .repeated kind h decoded hd hb

theorem refused_other_iff (h : ¬ c.TakesEffect operation) :
    c.Refused operation before e ↔ c.critical = true ∧ e = .unavailable c.oid operation := by
  constructor
  · rintro (⟨-, -, hc⟩ | ⟨kind, ha, -, -⟩ | ⟨kind, ha, -, -, -⟩)
    · exact ⟨hc, rfl⟩
    · exact absurd (.inr ⟨kind, ha⟩) h
    · exact absurd (.inr ⟨kind, ha⟩) h
  · rintro ⟨hc, rfl⟩
    exact .unavailable (fun hi => h (.inl hi)) (fun kind ha => h (.inr ⟨kind, ha⟩)) hc

/-! ### One more control at the end -/

theorem concat_eq_append_cons_iff {x : Control} {after : List Control} :
    controls ++ [c] = before ++ x :: after ↔
      controls = before ∧ c = x ∧ after = [] ∨
        ∃ between, controls = before ++ x :: between ∧ after = between ++ [c] := by
  rcases List.eq_nil_or_concat after with rfl | ⟨between, y, rfl⟩
  · simp
  · have hsplit : before ++ x :: (between ++ [y]) = (before ++ x :: between) ++ [y] := by simp
    simp only [List.concat_eq_append, hsplit, List.append_singleton_inj]
    constructor
    · rintro ⟨hc, rfl⟩
      exact .inr ⟨between, hc, rfl, rfl⟩
    · rintro (⟨-, -, h⟩ | ⟨_, hc, rfl, rfl⟩)
      · simp at h
      · exact ⟨hc, rfl⟩

theorem noneRefused_concat :
    NoneRefused operation (controls ++ [c]) ↔
      NoneRefused operation controls ∧ ∀ e, ¬ Refused operation controls c e := by
  constructor
  · refine fun h => ⟨fun before x after e hx => ?_, fun e => h controls c [] e rfl⟩
    exact h before x (after ++ [c]) e (by simp [hx])
  · rintro ⟨h, hc⟩ before x after e hx
    rcases concat_eq_append_cons_iff.mp hx with ⟨rfl, rfl, -⟩ | ⟨between, hbetween, -⟩
    · exact hc e
    · exact h before x between e hbetween

theorem firstRefused_concat :
    FirstRefused operation (controls ++ [c]) e ↔
      FirstRefused operation controls e ∨ NoneRefused operation controls ∧ Refused operation controls c e := by
  constructor
  · rintro ⟨before, x, after, hx, hn, hr⟩
    rcases concat_eq_append_cons_iff.mp hx with ⟨rfl, rfl, -⟩ | ⟨between, hbetween, -⟩
    · exact .inr ⟨hn, hr⟩
    · exact .inl ⟨before, x, between, hbetween, hn, hr⟩
  · rintro (⟨before, x, after, hx, hn, hr⟩ | ⟨hn, hr⟩)
    · exact ⟨before, x, after ++ [c], by simp [hx], hn, hr⟩
    · exact ⟨controls, c, [], rfl, hn, hr⟩

theorem sends_concat :
    Sends operation (controls ++ [c]) kind ↔ Sends operation controls kind ∨ c.Applies operation kind := by
  simp [Sends, or_and_right, exists_or]

theorem latest_concat {oid : String} {x : Control × RequestControl} :
    Latest operation (controls ++ [c]) oid x ↔
      if c.oid = oid then x.1 = c ∧ c.Means operation x.2 else Latest operation controls oid x := by
  constructor
  · rintro ⟨before, after, hx, ho, hm, hlast⟩
    rcases concat_eq_append_cons_iff.mp hx with ⟨rfl, rfl, -⟩ | ⟨between, hbetween, rfl⟩
    · rw [if_pos ho]
      exact ⟨rfl, hm⟩
    · rw [if_neg (hlast c (by simp))]
      exact ⟨before, between, hbetween, ho, hm, fun y hy => hlast y (List.mem_append_left _ hy)⟩
  · intro h
    split at h
    · obtain ⟨rfl, hm⟩ := h
      exact ⟨controls, [], rfl, ‹_›, hm, by simp⟩
    · obtain ⟨before, after, hx, ho, hm, hlast⟩ := h
      refine ⟨before, after ++ [c], by simp [hx], ho, hm, fun y hy => ?_⟩
      rcases List.mem_append.mp hy with hy | hy
      · exact hlast y hy
      · rwa [List.mem_singleton.mp hy]

end Control

namespace Admitted

open Control

variable {operation : Operation} {a b : Admitted} {before controls : List Control} {c : Control} {kind : ControlKind}
  {decoded : RequestControl} {e : AdmissionError}

/-- What is admitted are the controls that take effect, the last one of each object identifier. -/
structure Holds (operation : Operation) (controls : List Control) (a : Admitted) : Prop where
  distinct : (a.controls.map (·.1.oid)).Nodup
  held?_iff : ∀ oid x, a.held? oid = some x ↔ Latest operation controls oid x
  contains_iff : ∀ kind, kind ≠ .internalOperation → (a.contains kind ↔ Sends operation controls kind)

/-! ### One step -/

theorem admitNext_internal (h : c.IsInternal) : admitNext operation a c = .ok (a.put c .internalOperation) := by
  rw [admitNext, ControlKind.ofOid?_eq_some_iff.mpr h.symm]

theorem admitNext_applies (h : c.Applies operation kind) :
    admitNext operation a c =
      match c.decode kind with
      | .error cause => .error (.malformed c.oid cause)
      | .ok decoded => if a.contains kind then .error (.repeated c.oid) else .ok (a.put c decoded) := by
  obtain ⟨hi, ho, hop⟩ := h
  have hkind : ControlKind.ofOid? c.oid = some kind := ControlKind.ofOid?_eq_some_iff.mpr ho
  unfold admitNext
  split
  · rename_i h
    exact absurd (Option.some.inj (hkind.symm.trans h)) hi
  · rename_i h
    obtain rfl := Option.some.inj (hkind.symm.trans h)
    exact if_pos (List.contains_iff_mem.mpr hop)
  · rename_i h
    cases hkind.symm.trans h

theorem admitNext_other (ht : ¬ c.TakesEffect operation) :
    admitNext operation a c = if c.critical then .error (.unavailable c.oid operation) else .ok a := by
  unfold admitNext
  split
  · rename_i h
    exact absurd (.inl (ControlKind.ofOid?_eq_some_iff.mp h).symm) ht
  · rename_i kind hne h
    have hop : operation ∉ kind.operations := fun hop =>
      ht (.inr ⟨kind, hne, ControlKind.ofOid?_eq_some_iff.mp h, hop⟩)
    simp [hop, admitNext.dropOrRefuse]
  · rfl

/-! ### A run over all controls -/

namespace Holds

variable (h : Holds operation before a)
include h

/-- A control that applies is admitted already just if one of the same object identifier was sent. -/
theorem repeated_iff (ha : c.Applies operation kind) : a.contains kind ↔ ∃ b ∈ before, b.oid = c.oid := by
  rw [h.contains_iff kind ha.1]
  constructor
  · rintro ⟨b, hb, hk⟩
    exact ⟨b, hb, hk.2.1.symm.trans ha.2.1⟩
  · rintro ⟨b, hb, ho⟩
    exact ⟨b, hb, ha.of_oid ho⟩

/-- A control is refused by itself, or for one that stands before it. -/
theorem admitNext_error_iff : admitNext operation a c = .error e ↔ c.Refused operation before e := by
  by_cases ht : c.TakesEffect operation
  · rcases ht with hi | ⟨kind, ha⟩
    · rw [admitNext_internal hi]
      exact iff_of_false nofun (not_refused_internal hi)
    · rw [admitNext_applies ha, refused_applies_iff ha, ← h.repeated_iff ha]
      cases c.decode kind with
      | error cause => simp [eq_comm (a := e)]
      | ok decoded => by_cases hc : a.contains kind <;> simp [hc, eq_comm (a := e)]
  · rw [admitNext_other ht, refused_other_iff ht]
    by_cases hc : c.critical <;> simp [hc, eq_comm (a := e)]

theorem put (hm : c.Means operation decoded) : Holds operation (before ++ [c]) (a.put c decoded) where
  distinct := by
    have hfilter : ((a.controls.filter (·.1.oid != c.oid)).map (·.1.oid)).Nodup :=
      h.distinct.sublist (List.filter_sublist.map _)
    simp only [Admitted.put, List.map_append, List.map_cons, List.map_nil]
    refine List.nodup_append.mpr ⟨hfilter, List.nodup_singleton _, ?_⟩
    simp only [List.mem_map, List.mem_filter, bne_iff_ne, List.mem_singleton]
    rintro _ ⟨x, ⟨-, hne⟩, rfl⟩ _ rfl
    exact hne
  held?_iff oid x := by
    rw [held?_put, latest_concat]
    split
    · simp only [Option.some.injEq]
      constructor
      · rintro rfl
        exact ⟨rfl, hm⟩
      · rintro ⟨rfl, hx⟩
        exact Prod.ext rfl (hm.unique hx)
    · exact h.held?_iff oid x
  contains_iff kind hi := by
    rw [contains_put, sends_concat, ← h.contains_iff kind hi, hm.applies_iff hi, or_comm]
    simp

theorem skip (ht : ¬ c.TakesEffect operation) : Holds operation (before ++ [c]) a where
  distinct := h.distinct
  held?_iff oid x := by
    rw [h.held?_iff, latest_concat]
    split
    · rename_i ho
      constructor
      · rintro ⟨_, _, _, hx, hm, -⟩
        exact absurd (hm.takesEffect.of_oid (ho.trans hx.symm)) ht
      · exact fun hm => absurd hm.2.takesEffect ht
    · rfl
  contains_iff kind hi := by
    have hc : ¬ c.Applies operation kind := fun ha => ht (.inr ⟨kind, ha⟩)
    rw [h.contains_iff kind hi, sends_concat, or_iff_left hc]

/-- What is held after a control that is not refused. -/
theorem next (hb : admitNext operation a c = .ok b) : Holds operation (before ++ [c]) b := by
  by_cases ht : c.TakesEffect operation
  · rcases ht with hi | ⟨kind, ha⟩
    · rw [admitNext_internal hi] at hb
      exact Except.ok.inj hb ▸ h.put (.internal hi)
    · rw [admitNext_applies ha] at hb
      cases hd : c.decode kind with
      | error cause => simp [hd] at hb
      | ok decoded =>
        have hput : b = a.put c decoded := by
          by_cases hc : a.contains kind <;> simp_all
        exact hput ▸ h.put (.applied kind ha decoded hd)
  · rw [admitNext_other ht] at hb
    have hkept : b = a := by
      by_cases hc : c.critical <;> simp_all
    exact hkept ▸ h.skip ht

end Holds

theorem holds_nil : Holds operation [] {} where
  distinct := .nil
  held?_iff oid x := by simp [held?, Latest]
  contains_iff kind := by simp [contains, Sends]

/-- The controls are gone through in their order, up to the first that is refused. -/
theorem foldlM_decided (operation : Operation) (controls : List Control) :
    (∀ e, controls.foldlM (admitNext operation) {} = .error e ↔ FirstRefused operation controls e) ∧
      ∀ a, controls.foldlM (admitNext operation) {} = .ok a →
        NoneRefused operation controls ∧ Holds operation controls a := by
  -- A control is judged by those before it, so the list grows at its end.
  induction controls using List.reverseRecOn with
  | nil =>
    refine ⟨?_, fun a ha => ?_⟩
    · simp [FirstRefused, pure, Except.pure]
    · obtain rfl := Except.ok.inj ha
      exact ⟨by simp [NoneRefused], holds_nil⟩
  | append_singleton controls c ih =>
    obtain ⟨herror, hok⟩ := ih
    rw [List.foldlM_append]
    cases hr : controls.foldlM (admitNext operation) {} with
    | error cause =>
      obtain ⟨before, x, after, hx, hn, hrefused⟩ := (herror cause).mp hr
      have hsome : ¬ NoneRefused operation controls := fun h => h before x after cause hx hrefused
      refine ⟨fun e => ?_, nofun⟩
      rw [firstRefused_concat, ← herror e, hr, or_iff_left fun h => hsome h.1]
      rfl
    | ok a =>
      obtain ⟨hn, hholds⟩ := hok a hr
      have hnone : ∀ e, ¬ FirstRefused operation controls e := fun e he => by
        rw [← herror e, hr] at he
        cases he
      simp only [Except.ok_bind, List.foldlM_cons, List.foldlM_nil, bind_pure]
      refine ⟨fun e => ?_, fun b hb => ?_⟩
      · rw [firstRefused_concat, hholds.admitNext_error_iff, or_iff_right (hnone e), and_iff_right hn]
      · refine ⟨noneRefused_concat.mpr ⟨hn, fun e he => ?_⟩, hholds.next hb⟩
        rw [← hholds.admitNext_error_iff, hb] at he
        cases he

/-! ### Controls that may not stand together -/

theorem Holds.checkTogether_error_iff (h : Holds operation controls a) :
    a.checkTogether = .error e ↔ Clash operation controls e := by
  classical
  have hv₁ := h.contains_iff .proxiedAuthorizationV1 (by decide)
  have hv₂ := h.contains_iff .proxiedAuthorizationV2 (by decide)
  have hview := h.contains_iff .listView (by decide)
  have hpaged := h.contains_iff .pagedResults (by decide)
  have hsort := h.contains_iff .sort (by decide)
  simp only [checkTogether, Bool.and_eq_true, Bool.not_eq_true', ← Bool.not_eq_true, hv₁, hv₂, hview, hpaged, hsort]
  constructor
  · intro he
    split at he
    · obtain rfl := Except.error.inj he
      exact .proxiedTwice ‹_›
    · split at he
      · obtain rfl := Except.error.inj he
        exact .pagedListView ‹_› (And.left ‹_›) (And.right ‹_›)
      · split at he
        · obtain rfl := Except.error.inj he
          rename_i hp hn hs
          exact .sortMissing hp hs.1 (fun h => hn ⟨hs.1, h⟩) hs.2
        · cases he
  · rintro (h | ⟨h, hv, hp⟩ | ⟨h, hv, hp, hs⟩)
    · rw [if_pos h]
    · rw [if_neg h, if_pos ⟨hv, hp⟩]
    · rw [if_neg h, if_neg (fun h => hp h.2), if_pos ⟨hv, hs⟩]

/-- A list of controls is refused for the first that is refused, or for some that may not stand together. -/
theorem ofControls_error_iff :
    ofControls operation controls = .error e ↔
      FirstRefused operation controls e ∨ NoneRefused operation controls ∧ Clash operation controls e := by
  obtain ⟨herror, hok⟩ := foldlM_decided operation controls
  simp only [ofControls]
  cases hr : controls.foldlM (admitNext operation) {} with
  | error cause =>
    obtain ⟨before, x, after, hx, -, hrefused⟩ := (herror cause).mp hr
    have hsome : ¬ NoneRefused operation controls := fun h => h before x after cause hx hrefused
    rw [← herror e, hr, or_iff_left fun h => hsome h.1]
    rfl
  | ok a =>
    obtain ⟨hn, hholds⟩ := hok a hr
    have hnone : ¬ FirstRefused operation controls e := fun he => by
      rw [← herror e, hr] at he
      cases he
    rw [or_iff_right hnone, and_iff_right hn, ← hholds.checkTogether_error_iff]
    cases ht : a.checkTogether <;> simp [ht, pure, Except.pure]

theorem holds_of_ofControls (h : ofControls operation controls = .ok a) :
    NoneRefused operation controls ∧ Holds operation controls a := by
  simp only [ofControls, Except.bind_eq_ok_iff] at h
  obtain ⟨b, hb, -, -, hab⟩ := h
  obtain rfl : b = a := Except.ok.inj hab
  exact (foldlM_decided operation controls).2 b hb

/-- A control never takes effect with an operation that it does not apply to. -/
theorem get?_eq_none_of_not_mem (h : ofControls operation controls = .ok a) (hi : kind ≠ .internalOperation)
    (ho : operation ∉ kind.operations) : a.get? kind.oid = none := by
  rw [← Option.not_isSome_iff_eq_none, ← contains_eq_isSome, (holds_of_ofControls h).2.contains_iff kind hi]
  rintro ⟨_, _, ha⟩
  exact ho ha.2.2

/-! ### Controls that leave no trace -/

/-- A control that is dropped may as well not be sent. -/
theorem ofControls_ignored {after : List Control} (hc : c.Ignored operation) :
    ofControls operation (before ++ c :: after) = ofControls operation (before ++ after) := by
  obtain ⟨ht, hcritical⟩ := hc
  have hstep : ∀ a, admitNext operation a c = .ok a := fun a => by
    rw [admitNext_other ht, hcritical, if_neg Bool.false_ne_true]
  simp only [ofControls, List.foldlM_append, List.foldlM_cons, hstep, Except.ok_bind]

/-! ### The order of controls -/

/-- No control that takes effect stands behind one of the same object identifier. -/
def Apart (operation : Operation) (controls : List Control) : Prop :=
  controls.Pairwise fun b c => c.TakesEffect operation → b.oid ≠ c.oid

theorem Apart.perm {others : List Control} (h : Apart operation controls) (hp : controls.Perm others) :
    Apart operation others := by
  refine hp.pairwise h fun {b c} hbc hb ho => ?_
  exact hbc (hb.of_oid ho) ho.symm

/-- Controls none of which is refused are apart, but for those that mark operations of the server. -/
theorem pairwise_of_noneRefused (h : NoneRefused operation controls) :
    controls.Pairwise fun b c => ∀ kind, c.Applies operation kind → b.oid ≠ c.oid := by
  induction controls using List.reverseRecOn with
  | nil => exact .nil
  | append_singleton controls c ih =>
    obtain ⟨hn, hc⟩ := noneRefused_concat.mp h
    refine List.pairwise_append.mpr ⟨ih hn, List.pairwise_singleton .., fun b hb x hx kind ha ho => ?_⟩
    obtain rfl := List.mem_singleton.mp hx
    cases hd : x.decode kind with
    | error cause => exact hc _ (.malformed kind ha cause hd)
    | ok decoded => exact hc _ (.repeated kind ha decoded hd ⟨b, hb, ho⟩)

theorem pairwise_of_length_le_one {α : Type} {R : α → α → Prop} {l : List α} (h : l.length ≤ 1) : l.Pairwise R := by
  match l, h with
  | [], _ => exact .nil
  | [a], _ => exact List.pairwise_singleton R a

theorem apart_of_noneRefused (h : NoneRefused operation controls)
    (hi : (controls.filter fun c => c.oid = ControlKind.internalOperation.oid).length ≤ 1) :
    Apart operation controls := by
  have hfew : (controls.filter fun c => c.oid = ControlKind.internalOperation.oid).Pairwise fun _ _ => False :=
    pairwise_of_length_le_one hi
  have hinternal : controls.Pairwise fun b c => c.IsInternal → b.oid ≠ c.oid := by
    refine (List.pairwise_filter.mp hfew).imp fun {b c} hbc hc ho => ?_
    exact hbc (decide_eq_true (ho.trans hc)) (decide_eq_true hc)
  refine hinternal.imp₂ (fun b c hbc hk ht => ?_) (pairwise_of_noneRefused h)
  rcases ht with hc | ⟨kind, ha⟩
  · exact hbc hc
  · exact hk kind ha

/-- Of controls that are apart, one that takes effect is the latest of its object identifier. -/
theorem Apart.latest_iff (h : Apart operation controls) {oid : String} {x : Control × RequestControl} :
    Latest operation controls oid x ↔ x.1 ∈ controls ∧ x.1.oid = oid ∧ x.1.Means operation x.2 := by
  constructor
  · rintro ⟨before, after, rfl, ho, hm, -⟩
    exact ⟨by simp, ho, hm⟩
  · rintro ⟨hx, ho, hm⟩
    obtain ⟨before, after, rfl⟩ := List.append_of_mem hx
    refine ⟨before, after, rfl, ho, hm, fun c hc hoid => ?_⟩
    have hrest : (x.1 :: after).Pairwise fun b c => c.TakesEffect operation → b.oid ≠ c.oid :=
      (List.pairwise_append.mp h).2.1
    have hsame : x.1.oid = c.oid := ho.trans hoid.symm
    exact (List.pairwise_cons.mp hrest).1 c hc (hm.takesEffect.of_oid hsame.symm) hsame

theorem noneRefused_perm {others : List Control} (h : NoneRefused operation controls) (hp : controls.Perm others) :
    NoneRefused operation others := by
  have hpair : others.Pairwise fun b c => ∀ kind, c.Applies operation kind → b.oid ≠ c.oid :=
    hp.pairwise (pairwise_of_noneRefused h) fun {b c} hbc kind hb ho => hbc kind (hb.of_oid ho) ho.symm
  rintro before c after e rfl hr
  have hmem : c ∈ controls := hp.mem_iff.mpr (List.mem_append_right before (List.mem_cons_self ..))
  obtain ⟨before', after', hc⟩ := List.append_of_mem hmem
  cases hr with
  | unavailable hi hn hcritical => exact h before' c after' _ hc (.unavailable hi hn hcritical)
  | malformed kind ha cause hd => exact h before' c after' _ hc (.malformed kind ha cause hd)
  | repeated kind ha decoded hd hb =>
    obtain ⟨b, hb, ho⟩ := hb
    exact (List.pairwise_append.mp hpair).2.2 b hb c (List.mem_cons_self ..) kind ha ho

theorem sends_perm {others : List Control} (hp : controls.Perm others) :
    Sends operation controls kind ↔ Sends operation others kind := by
  simp only [Sends, hp.mem_iff]

theorem clash_perm {others : List Control} (hp : controls.Perm others) (h : Clash operation controls e) :
    Clash operation others e := by
  have hs : ∀ kind, Sends operation controls kind ↔ Sends operation others kind := fun kind => sends_perm hp
  cases h with
  | proxiedTwice h => exact .proxiedTwice (by rwa [hs, hs] at h)
  | pagedListView h hv hp => exact .pagedListView (by rwa [hs, hs] at h) ((hs _).mp hv) ((hs _).mp hp)
  | sortMissing h hv hp ht =>
    exact .sortMissing (by rwa [hs, hs] at h) ((hs _).mp hv) (by rwa [hs] at hp) (by rwa [hs] at ht)

/-- Admission of controls in another order. -/
theorem ofControls_perm {others : List Control} (hp : controls.Perm others)
    (hi : (controls.filter fun c => c.oid = ControlKind.internalOperation.oid).length ≤ 1)
    (h : ofControls operation controls = .ok a) :
    ∃ b, ofControls operation others = .ok b ∧ ∀ oid, b.held? oid = a.held? oid := by
  obtain ⟨hn, hholds⟩ := holds_of_ofControls h
  have hnone : NoneRefused operation others := noneRefused_perm hn hp
  cases hr : ofControls operation others with
  | error e =>
    rcases ofControls_error_iff.mp hr with ⟨before, c, after, hc, -, hrefused⟩ | ⟨-, hclash⟩
    · exact absurd hrefused (hnone before c after e hc)
    · have herror : ofControls operation controls = .error e :=
        ofControls_error_iff.mpr (.inr ⟨hn, clash_perm hp.symm hclash⟩)
      rw [h] at herror
      cases herror
  | ok b =>
    have hapart : Apart operation controls := apart_of_noneRefused hn hi
    refine ⟨b, rfl, fun oid => Option.ext fun x => ?_⟩
    rw [(holds_of_ofControls hr).2.held?_iff, hholds.held?_iff, hapart.latest_iff, (hapart.perm hp).latest_iff,
      hp.mem_iff]

/-- Admission is decided by the table of kinds. A list is refused for its first control that is refused, and if none is
for some that may not stand together. Otherwise the controls that take effect are admitted. Controls that are dropped
leave no trace, and the order of the others none but among those that mark operations of the server. -/
theorem ofControls_decided (operation : Operation) (controls : List Control) :
    (∀ e, ofControls operation controls = .error e ↔
      FirstRefused operation controls e ∨ NoneRefused operation controls ∧ Clash operation controls e) ∧
    (NoneRefused operation controls → (∀ e, ¬ Clash operation controls e) →
      ∃ a, ofControls operation controls = .ok a ∧ (a.controls.map (·.1.oid)).Nodup ∧
        ∀ oid x, a.held? oid = some x ↔ Latest operation controls oid x) ∧
    (∀ before c after, controls = before ++ after → c.Ignored operation →
      ofControls operation (before ++ c :: after) = ofControls operation controls) ∧
    ∀ others a, controls.Perm others →
      (controls.filter fun c => c.oid = ControlKind.internalOperation.oid).length ≤ 1 →
      ofControls operation controls = .ok a →
      ∃ b, ofControls operation others = .ok b ∧ ∀ oid, b.held? oid = a.held? oid := by
  refine ⟨fun e => ofControls_error_iff, fun hn hclash => ?_, ?_, fun others a => ofControls_perm⟩
  · cases hr : ofControls operation controls with
    | error e =>
      rcases ofControls_error_iff.mp hr with ⟨before, c, after, hc, -, hrefused⟩ | ⟨-, hc⟩
      · exact absurd hrefused (hn before c after e hc)
      · exact absurd hc (hclash e)
    | ok a =>
      have hholds : Holds operation controls a := (holds_of_ofControls hr).2
      exact ⟨a, rfl, hholds.distinct, hholds.held?_iff⟩
  · rintro before c after rfl hc
    exact ofControls_ignored hc

theorem ofControls_decided_search :
    let manage : Control := RequestControl.manageDsaIt.toControl true
    let copy : Control := RequestControl.dontUseCopy.toControl false
    let unknown : Control := ⟨"1.2.3", false, none⟩
    unknown.Ignored .search ∧
      ofControls .search [manage, unknown, copy] = .ok ⟨[(manage, .manageDsaIt), (copy, .dontUseCopy)]⟩ ∧
      ∃ b, ofControls .search [copy, manage] = .ok b ∧
        b.held? ControlKind.manageDsaIt.oid = some (manage, .manageDsaIt) := by
  intro manage copy unknown
  have hunknown : unknown.Ignored .search := by
    refine ⟨?_, rfl⟩
    rintro (hi | ⟨kind, ha⟩)
    · exact absurd hi (by unfold IsInternal; decide)
    · have hoid : kind.oid = "1.2.3" := ha.2.1
      revert hoid
      cases kind <;> decide
  have hok : ofControls .search [manage, copy] = .ok ⟨[(manage, .manageDsaIt), (copy, .dontUseCopy)]⟩ := by
    decide +kernel
  obtain ⟨-, -, hignored, hperm⟩ := ofControls_decided .search [manage, copy]
  refine ⟨hunknown, (hignored [manage] unknown [copy] rfl hunknown).trans hok, ?_⟩
  obtain ⟨b, hb, hsame⟩ := hperm [copy, manage] _ (.swap ..) (by decide +kernel) hok
  exact ⟨b, hb, (hsame _).trans (by decide +kernel)⟩

end Admitted

end Ldap
