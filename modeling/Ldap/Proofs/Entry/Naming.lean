import Ldap.Proofs.Entry.Edit

/-! The values that a name lends to its entry. Whether an entry has a value depends on the name of the attribute and on
the value up to what counts as the same. Adding the values of a relative name gives the entry just these. -/

namespace Ldap

/-! ### Names and values that are the same -/

/-- What a value is compared by. -/
def comparand (name : String) (value : List UInt8) : List UInt8 :=
  if Text.containsPart "password".toList (Text.lowerAscii name).toList then value else Text.lowerBytes value

theorem sameValue_iff {name : String} {a b : List UInt8} :
    sameValue name a b ↔ comparand name a = comparand name b := by
  unfold sameValue comparand
  split <;> simp [Text.sameBytes]

theorem sameValue_refl (name : String) (value : List UInt8) : sameValue name value value := sameValue_iff.mpr rfl

theorem comparand_congr {name other : String} (h : Text.sameText name other) : comparand name = comparand other := by
  funext value
  rw [comparand, comparand, Text.sameText_iff.mp h]

namespace Dn.NameValue

/-- The same attribute and the same value, as entries are compared. -/
def Same (c c' : NameValue) : Prop :=
  Text.sameText c.name c'.name ∧ sameValue c'.name (Ber.utf8Bytes c.value) (Ber.utf8Bytes c'.value)

instance (c c' : NameValue) : Decidable (c.Same c') := inferInstanceAs (Decidable (_ ∧ _))

theorem Same.refl (c : NameValue) : c.Same c := ⟨Text.sameText_refl _, sameValue_refl _ _⟩

end Dn.NameValue

/-- Every value of the one list is the same as some value of the other. -/
def Dn.Covers (cs cs' : List Dn.NameValue) : Prop := ∀ c' ∈ cs', ∃ c ∈ cs, c.Same c'

instance (cs cs' : List Dn.NameValue) : Decidable (Dn.Covers cs cs') :=
  inferInstanceAs (Decidable (∀ c' ∈ cs', ∃ c ∈ cs, c.Same c'))

theorem Dn.Covers.of_subset {cs cs' : List Dn.NameValue} (h : cs' ⊆ cs) : Dn.Covers cs cs' :=
  fun c hc => ⟨c, h hc, .refl c⟩

namespace Entry

variable {e : Entry} {name other : String} {value w : List UInt8} {c : Dn.NameValue} {cs cs' : List Dn.NameValue}

theorem hasValue_iff : e.hasValue name value ↔ ∃ v ∈ e.values name, comparand name v = comparand name value := by
  simp [hasValue, List.any_eq_true, sameValue_iff]

theorem attribute?_congr (h : Text.sameText name other) : e.attribute? name = e.attribute? other := by
  simp only [attribute?, Text.sameText, Text.sameText_iff.mp h]

theorem values_congr (h : Text.sameText name other) : e.values name = e.values other := by
  rw [values, values, attribute?_congr h]

theorem hasAttribute_congr (h : Text.sameText name other) : e.hasAttribute name = e.hasAttribute other := by
  rw [hasAttribute, hasAttribute, attribute?_congr h]

/-- Whether an entry has a value, it has all that are the same. -/
theorem hasValue_congr (hn : Text.sameText name other) (hv : sameValue other value w) :
    e.hasValue name value ↔ e.hasValue other w := by
  rw [hasValue_iff, hasValue_iff, values_congr hn, comparand_congr hn, sameValue_iff.mp hv]

/-! ### Values that are added -/

/-- The entry with an attribute, without values if it has to be made. -/
def withAttribute (e : Entry) (name : String) : Entry :=
  if e.hasAttribute name then e else { e with attributes := e.attributes ++ [⟨name, []⟩] }

theorem values_withAttribute : (e.withAttribute name).values other = e.values other := by
  unfold withAttribute
  split
  · rfl
  · simp only [values, attribute?, List.find?_append]
    cases e.attributes.find? fun a => Text.sameText a.name other with
    | some a => rfl
    | none =>
      rw [Option.none_or, List.find?_singleton]
      split <;> rfl

theorem hasAttribute_withAttribute : (e.withAttribute name).hasAttribute name := by
  unfold withAttribute
  split
  · assumption
  · simp [hasAttribute, attribute?, Text.sameText]

theorem attribute?_setValues (f : List (List UInt8) → List (List UInt8)) :
    (e.setValues name f).attribute? other =
      if Text.sameText name other then (e.attribute? other).map fun a => { a with values := f a.values }
      else e.attribute? other := by
  simp only [setValues, attribute?]
  induction e.attributes with
  | nil => simp [updateValues]
  | cons a rest ih =>
    unfold updateValues
    by_cases ha : Text.sameText a.name name
    · have hother : Text.sameText a.name other = Text.sameText name other := by
        simp only [Text.sameText, Text.sameText_iff.mp ha]
      rw [if_pos ha, List.find?_cons, List.find?_cons, hother]
      cases Text.sameText name other <;> rfl
    · rw [if_neg ha, List.find?_cons, List.find?_cons]
      cases hother : Text.sameText a.name other with
      | true =>
        have hne : ¬ Text.sameText name other := fun h =>
          ha (Text.sameText_iff.mpr ((Text.sameText_iff.mp hother).trans (Text.sameText_iff.mp h).symm))
        rw [if_neg hne]
      | false => exact ih

theorem values_setValues (h : e.hasAttribute name) (f : List (List UInt8) → List (List UInt8)) :
    (e.setValues name f).values other = if Text.sameText name other then f (e.values other) else e.values other := by
  rw [values, attribute?_setValues]
  split
  · rename_i hsame
    rw [hasAttribute_congr hsame] at h
    obtain ⟨a, ha⟩ := Option.isSome_iff_exists.mp h
    simp [values, ha]
  · rfl

/-- The entry with a value more, unless it has it already. -/
def withValue (e : Entry) (name : String) (value : List UInt8) : Entry :=
  let e := e.withAttribute name
  if e.hasValue name value then e else e.setValues name (· ++ [value])

theorem hasValue_withValue : (e.withValue name value).hasValue other w ↔
    e.hasValue other w ∨ Text.sameText name other ∧ sameValue other value w := by
  have hattribute : (e.withAttribute name).hasValue other w ↔ e.hasValue other w := by
    rw [hasValue_iff, hasValue_iff, values_withAttribute]
  unfold withValue
  dsimp only
  split
  · rename_i hv
    rw [hattribute, iff_self_or]
    rintro ⟨hn, hsame⟩
    exact hattribute.mp ((hasValue_congr hn hsame).mp hv)
  · rw [← hattribute, hasValue_iff, hasValue_iff, values_setValues hasAttribute_withAttribute, sameValue_iff]
    split
    · rename_i hn
      simp [hn, or_and_right, exists_or]
    · rename_i hn
      simp [hn]

@[simp] theorem dn_withValue : (e.withValue name value).dn = e.dn := by
  unfold withValue withAttribute
  dsimp only
  repeat' split
  all_goals rfl

/-! ### The values of a name -/

/-- The entry has all values of a relative name. -/
def HasNaming (e : Entry) (cs : List Dn.NameValue) : Prop := ∀ c ∈ cs, e.hasValue c.name (Ber.utf8Bytes c.value)

instance (e : Entry) (cs : List Dn.NameValue) : Decidable (e.HasNaming cs) :=
  inferInstanceAs (Decidable (∀ c ∈ cs, _))

theorem HasNaming.of_covers (h : e.HasNaming cs) (hc : Dn.Covers cs cs') : e.HasNaming cs' := by
  intro c' hc'
  obtain ⟨c, hmem, hsame⟩ := hc c' hc'
  exact (hasValue_congr hsame.1 hsame.2).mp (h c hmem)

/-- The entry with the values of a relative name. -/
def withNaming (e : Entry) (cs : List Dn.NameValue) : Entry :=
  cs.foldl (fun e c => e.withValue c.name (Ber.utf8Bytes c.value)) e

theorem hasValue_withNaming : (e.withNaming cs).hasValue c.name (Ber.utf8Bytes c.value) ↔
    e.hasValue c.name (Ber.utf8Bytes c.value) ∨ ∃ c' ∈ cs, c'.Same c := by
  induction cs generalizing e with
  | nil => simp [withNaming]
  | cons first rest ih =>
    have hcons : e.withNaming (first :: rest) =
        (e.withValue first.name (Ber.utf8Bytes first.value)).withNaming rest := rfl
    rw [hcons, ih, hasValue_withValue, or_assoc]
    simp [Dn.NameValue.Same]

theorem hasNaming_withNaming (e : Entry) (cs : List Dn.NameValue) : (e.withNaming cs).HasNaming cs :=
  fun c hc => hasValue_withNaming.mpr (.inr ⟨c, hc, .refl c⟩)

@[simp] theorem dn_withNaming (e : Entry) (cs : List Dn.NameValue) : (e.withNaming cs).dn = e.dn := by
  induction cs generalizing e with
  | nil => rfl
  | cons first rest ih => exact (ih _).trans dn_withValue

/-! ### Values that are replaced -/

theorem hasValue_replaceValues {vs : List (List UInt8)} : (e.replaceValues name vs).hasValue other w ↔
    if Text.sameText name other then ∃ v ∈ vs, sameValue other v w else e.hasValue other w := by
  rw [hasValue_iff, values_replaceValues]
  split
  · simp only [sameValue_iff]
  · rw [hasValue_iff]

end Entry

namespace Edit

theorem run_bind_ok {α β : Type} {step : EStateM Failure Entry α} {next : α → EStateM Failure Entry β} {a : α}
    {e e' : Entry} (h : step.run e = .ok a e') : (step >>= next).run e = (next a).run e' := by
  simp only [EStateM.run, Bind.bind, EStateM.bind] at h ⊢
  rw [h]

theorem addValue_run (e : Entry) (name : String) (value : List UInt8) :
    (addValue name true value).run e =
      .ok () (if e.hasValue name value then e else e.setValues name (· ++ [value])) := by
  change EStateM.run (if e.hasValue name value = true then pure ()
    else modify (·.setValues name (· ++ [value])) : Edit) e = _
  split <;> rfl

theorem addValues_run (e : Entry) (name : String) (value : List UInt8) :
    (addValues name [value] true).run e = .ok () (e.withValue name value) := by
  change EStateM.run (addValue name true value >>= fun _ => pure ()) (e.withAttribute name) = _
  rw [run_bind_ok (addValue_run _ _ _)]
  rfl

theorem addNaming_run (e : Entry) (cs : List Dn.NameValue) : (addNaming cs).run e = .ok () (e.withNaming cs) := by
  induction cs generalizing e with
  | nil => rfl
  | cons first rest ih => exact (run_bind_ok (addValues_run _ _ _)).trans (ih _)

theorem addNaming_apply (e : Entry) (cs : List Dn.NameValue) : (addNaming cs).apply e = .ok (e.withNaming cs) := by
  rw [apply, addNaming_run]

/-- An edit that ends with the values of a relative name leaves an entry that has them. -/
theorem addNaming_last {edit : Edit} {e after : Entry} {cs : List Dn.NameValue}
    (h : Edit.apply (edit >>= fun _ => addNaming cs) e = .ok after) : ∃ x : Entry, after = x.withNaming cs := by
  unfold apply at h
  rcases hr : edit.run e with ⟨⟨⟩, x⟩ | ⟨f, x⟩
  · rw [run_bind_ok hr, addNaming_run] at h
    exact ⟨x, (Except.ok.inj h).symm⟩
  · have hfails : (edit >>= fun _ => addNaming cs).run e = .error f x := by
      simp only [EStateM.run, Bind.bind, EStateM.bind] at hr ⊢
      rw [hr]
    rw [hfails] at h
    cases h

/-- The changes that leave an entry no values of an attribute but those of a relative name. -/
def renewal (name : String) (cs : List Dn.NameValue) : List Change :=
  ⟨.replace, name, []⟩ :: cs.map fun c => ⟨.add, c.name, [Ber.utf8Bytes c.value]⟩

theorem apply_renewal (e : Entry) (name : String) (cs : List Dn.NameValue) :
    Edit.apply ((renewal name cs).forM fun c => change c true) e = .ok ((e.replaceValues name []).withNaming cs) := by
  have hadd : ∀ cs : List Dn.NameValue,
      ((cs.map fun c => (⟨.add, c.name, [Ber.utf8Bytes c.value]⟩ : Change)).forM fun c => change c true) =
        addNaming cs := by
    intro cs
    induction cs with
    | nil => rfl
    | cons c rest ih => exact bind_congr fun _ => ih
  have hreplace : (change ⟨.replace, name, []⟩ true).run e = .ok () (e.replaceValues name []) := rfl
  change Edit.apply (change ⟨.replace, name, []⟩ true >>= fun _ => List.forM _ fun c => change c true) e = _
  rw [hadd, apply, run_bind_ok hreplace, addNaming_run]

/-- Changes may give an entry the values of one relative name, and take away a value that is not among them. -/
theorem exists_renewed (e : Entry) {cs : List Dn.NameValue} {c : Dn.NameValue} (h : ¬ ∃ c' ∈ cs, c'.Same c) :
    ∃ changes after, Edit.apply (List.forM changes fun c => change c true) e = .ok after ∧ after.dn = e.dn ∧
      after.HasNaming cs ∧ ¬ after.hasValue c.name (Ber.utf8Bytes c.value) := by
  refine ⟨_, _, apply_renewal e c.name cs, by simp, Entry.hasNaming_withNaming _ _, fun hv => ?_⟩
  rcases Entry.hasValue_withNaming.mp hv with hv | hv
  · rw [Entry.hasValue_replaceValues, if_pos (Text.sameText_refl _)] at hv
    simp at hv
  · exact h hv

end Edit

end Ldap
