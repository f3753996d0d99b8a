import Ldap.Control.Admission
import Ldap.Proofs.Except

/-! What is admitted, as a map from object identifiers to controls, and what one more control changes in it. A control
that asks for a preview, behind the other controls of a request, is admitted by itself: what it is admitted with stays
as it is, and so does the reason for which others are refused. -/

namespace Ldap

/-- The control that asks for a preview of an update. -/
def Control.noOp (critical : Bool) : Control := RequestControl.noOp.toControl critical

namespace Admitted

variable {a b : Admitted} {c : Control} {decoded : RequestControl} {operation : Operation}

/-! ### One more control -/

/-- The control of an object identifier, as it was sent and decoded. -/
def held? (a : Admitted) (oid : String) : Option (Control × RequestControl) := a.controls.find? (·.1.oid == oid)

theorem get?_eq_map_held? (a : Admitted) (oid : String) : a.get? oid = (a.held? oid).map (·.2) := rfl

theorem contains_eq_isSome_held? (a : Admitted) (kind : ControlKind) :
    a.contains kind = (a.held? kind.oid).isSome := by
  simp [contains, held?, List.isSome_find?]

theorem held?_filter_of_ne {oid oid' : String} (h : oid ≠ oid') :
    held? ⟨a.controls.filter (·.1.oid != oid)⟩ oid' = a.held? oid' := by
  have hkeep : (fun x : Control × RequestControl => (x.1.oid != oid) && x.1.oid == oid') =
      fun x => x.1.oid == oid' := by
    funext x
    by_cases hx : x.1.oid = oid'
    · simp [hx, Ne.symm h]
    · simp [hx]
  simp only [held?, List.find?_filter, Bool.decide_and, Bool.decide_eq_true, hkeep]

/-- A control stands in nobody's place but that of its own kind. -/
theorem held?_put (oid : String) :
    (a.put c decoded).held? oid = if c.oid = oid then some (c, decoded) else a.held? oid := by
  have hput : (a.put c decoded).held? oid =
      (held? ⟨a.controls.filter (·.1.oid != c.oid)⟩ oid).or (held? ⟨[(c, decoded)]⟩ oid) := by
    simp only [held?, put, List.find?_append]
  rw [hput]
  split
  · rename_i h
    have hnone : held? ⟨a.controls.filter (·.1.oid != c.oid)⟩ oid = none := by
      simp [held?, h]
    rw [hnone]
    simp [held?, h]
  · rename_i h
    rw [held?_filter_of_ne h]
    simp [held?, h]

theorem contains_put (a : Admitted) (c : Control) (decoded : RequestControl) (kind : ControlKind) :
    (a.put c decoded).contains kind = (c.oid == kind.oid || a.contains kind) := by
  rw [contains_eq_isSome_held?, held?_put, contains_eq_isSome_held?]
  by_cases h : c.oid = kind.oid <;> simp [h]

theorem get?_filter_of_ne {oid oid' : String} (h : oid ≠ oid') :
    get? ⟨a.controls.filter (·.1.oid != oid)⟩ oid' = a.get? oid' := by
  rw [get?_eq_map_held?, held?_filter_of_ne h, get?_eq_map_held?]

theorem get?_put_of_ne {oid : String} (h : c.oid ≠ oid) : (a.put c decoded).get? oid = a.get? oid := by
  rw [get?_eq_map_held?, held?_put, if_neg h, get?_eq_map_held?]

/-- What is admitted is put behind the others, or dropped. -/
theorem admitNext_cases (h : admitNext operation a c = .ok b) : b = a ∨ ∃ decoded, b = a.put c decoded := by
  have hdrop : admitNext.dropOrRefuse operation a c = .ok b → b = a := by
    unfold admitNext.dropOrRefuse
    split
    · nofun
    · exact fun h => (Except.ok.inj h).symm
  unfold admitNext at h
  split at h
  · exact .inr ⟨_, (Except.ok.inj h).symm⟩
  · split at h
    · split at h
      · cases h
      · split at h
        · cases h
        · exact .inr ⟨_, (Except.ok.inj h).symm⟩
    · exact .inl (hdrop h)
  · exact .inl (hdrop h)

/-- Controls of one kind are admitted only if one is sent. -/
theorem contains_foldlM {kind : ControlKind} {controls : List Control} (hc : ∀ c ∈ controls, c.oid ≠ kind.oid)
    (h : controls.foldlM (admitNext operation) a = .ok b) : b.contains kind = a.contains kind := by
  induction controls generalizing a with
  | nil => rw [← Except.ok.inj h]
  | cons c controls ih =>
    rw [List.foldlM_cons, Except.bind_eq_ok_iff] at h
    obtain ⟨next, hn, h⟩ := h
    rw [ih (fun c hmem => hc c (List.mem_cons_of_mem _ hmem)) h]
    rcases admitNext_cases hn with rfl | ⟨decoded, rfl⟩
    · rfl
    · simp [contains_put, hc c (by simp)]

/-! ### The control that asks for a preview -/

variable {critical : Bool} {kind : ControlKind}

theorem contains_eq_isSome : a.contains kind = (a.get? kind.oid).isSome := by
  simp [contains, get?, List.isSome_find?]

theorem oid_ne_noOp (h : kind ≠ .noOp) : kind.oid ≠ ControlKind.noOp.oid := by
  revert h
  cases kind <;> decide

/-- The same controls are admitted, but for the one that asks for a preview. -/
def Agree (a b : Admitted) : Prop := ∀ kind : ControlKind, kind ≠ .noOp → a.get? kind.oid = b.get? kind.oid

namespace Agree

variable (h : a.Agree b)
include h

theorem contains (hk : kind ≠ .noOp) : a.contains kind = b.contains kind := by
  rw [contains_eq_isSome, contains_eq_isSome, h kind hk]

theorem assertion? : a.assertion? = b.assertion? := by
  rw [Admitted.assertion?, Admitted.assertion?, h .assertion (by decide)]

theorem preRead? : a.preRead? = b.preRead? := by
  rw [Admitted.preRead?, Admitted.preRead?, h .preRead (by decide)]

theorem postRead? : a.postRead? = b.postRead? := by
  rw [Admitted.postRead?, Admitted.postRead?, h .postRead (by decide)]

theorem checkTogether : a.checkTogether = b.checkTogether := by
  simp only [Admitted.checkTogether, ne_eq, reduceCtorEq, not_false_eq_true, h.contains]

end Agree

/-- The same controls, and the one that asks for a preview. -/
def withNoOp (a : Admitted) (critical : Bool) : Admitted := a.put (.noOp critical) .noOp

/-- The same controls without the one that asks for a preview. -/
def withoutNoOp (a : Admitted) : Admitted := ⟨a.controls.filter (·.1.oid != ControlKind.noOp.oid)⟩

theorem agree_withNoOp : a.Agree (a.withNoOp critical) := fun _ hk =>
  (get?_put_of_ne (oid_ne_noOp hk).symm).symm

theorem contains_withNoOp : (a.withNoOp critical).contains .noOp = true := by
  rw [withNoOp, contains_put]
  rfl

theorem withoutNoOp_agree : a.withoutNoOp.Agree a := fun _ hk => get?_filter_of_ne (oid_ne_noOp hk).symm

theorem contains_withoutNoOp : a.withoutNoOp.contains .noOp = false := by
  simp [withoutNoOp, contains]

theorem admitNext_noOp (ho : operation ∈ ControlKind.noOp.operations) (ha : a.contains .noOp = false) :
    admitNext operation a (.noOp critical) = .ok (a.withNoOp critical) := by
  have hkind : ControlKind.ofOid? (Control.noOp critical).oid = some .noOp := by rfl
  have hdecode : (Control.noOp critical).decode .noOp = .ok .noOp := by rfl
  simp [admitNext, hkind, hdecode, ho, ha, withNoOp]

/-- Where updates may be previewed, the control that asks for it is admitted just if the others are. -/
theorem ofControls_noOp {controls : List Control} (ho : operation ∈ ControlKind.noOp.operations)
    (hc : ∀ c ∈ controls, c.oid ≠ ControlKind.noOp.oid) :
    ofControls operation (controls ++ [.noOp critical]) =
      (ofControls operation controls).map (·.withNoOp critical) := by
  cases ha : controls.foldlM (admitNext operation) {} with
  | error e => simp [ofControls, List.foldlM_append, ha]
  | ok a =>
    have hnone : a.contains .noOp = false := contains_foldlM hc ha
    simp only [ofControls, List.foldlM_append, ha, List.foldlM_cons, List.foldlM_nil, Except.ok_bind,
      admitNext_noOp ho hnone, Except.map_bind, bind_pure, ← agree_withNoOp.checkTogether]
    rfl

theorem contains_noOp_eq_false {controls : List Control} (hc : ∀ c ∈ controls, c.oid ≠ ControlKind.noOp.oid)
    (h : ofControls operation controls = .ok a) : a.contains .noOp = false := by
  simp only [ofControls, Except.bind_eq_ok_iff] at h
  obtain ⟨b, hb, -, -, hab⟩ := h
  obtain rfl : b = a := Except.ok.inj hab
  exact contains_foldlM hc hb

end Admitted

end Ldap
