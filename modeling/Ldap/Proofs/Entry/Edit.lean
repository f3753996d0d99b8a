import Ldap.Entry.Basic

/-! Edits change the attributes of an entry and never its name. Replacing the values of one attribute leaves the others
alone. -/

namespace Ldap

theorem Text.sameText_iff {s t : String} : Text.sameText s t ↔ Text.lowerAscii s = Text.lowerAscii t := by
  simp [Text.sameText]

theorem Text.sameText_refl (s : String) : Text.sameText s s := Text.sameText_iff.mpr rfl

namespace Entry

@[simp] theorem dn_replaceValues (e : Entry) (name : String) (values : List (List UInt8)) :
    (e.replaceValues name values).dn = e.dn := by
  unfold replaceValues
  cases values <;> rfl

@[simp] theorem dn_rename (e : Entry) (dn : String) : (e.rename dn).dn = dn := rfl

/-! ### Replaced values -/

/-- The attributes of other names. -/
def besides (e : Entry) (name : String) : List Attribute := e.attributes.filter fun a => !Text.sameText a.name name

theorem attributes_replaceValues (e : Entry) {name : String} {values : List (List UInt8)} (h : values ≠ []) :
    (e.replaceValues name values).attributes = e.besides name ++ [⟨name, values⟩] := by
  simp [replaceValues, besides, eraseAttribute, h]

theorem attribute?_eraseAttribute (e : Entry) (name other : String) : (e.eraseAttribute name).attribute? other =
    if Text.sameText name other then none else e.attribute? other := by
  simp only [eraseAttribute, attribute?, List.find?_filter]
  split
  · rename_i hn
    rw [List.find?_eq_none]
    intro a ha
    simp [Text.sameText, Text.sameText_iff.mp hn]
  · rename_i hn
    refine congrArg (fun p => e.attributes.find? p) (funext fun a => ?_)
    by_cases ha : Text.sameText a.name name
    · have hne : Text.sameText a.name other = false := by
        rw [← Bool.not_eq_true]
        exact fun h => hn (Text.sameText_iff.mpr ((Text.sameText_iff.mp ha).symm.trans (Text.sameText_iff.mp h)))
      simp [ha, hne]
    · simp [ha]

/-- The attribute that is replaced has the new values alone, and the others keep theirs. -/
theorem values_replaceValues (e : Entry) (name other : String) (values : List (List UInt8)) :
    (e.replaceValues name values).values other = if Text.sameText name other then values else e.values other := by
  cases values with
  | nil =>
    rw [replaceValues, if_pos List.isEmpty_nil, Entry.values, attribute?_eraseAttribute]
    split <;> rfl
  | cons value rest =>
    have hfind : (e.replaceValues name (value :: rest)).attribute? other =
        ((e.eraseAttribute name).attribute? other).or
          ([⟨name, value :: rest⟩].find? fun a => Text.sameText a.name other) :=
      List.find?_append
    rw [Entry.values, hfind, attribute?_eraseAttribute, List.find?_singleton]
    split
    · rfl
    · rw [Option.or_none]
      rfl

/-- The other attributes stay as they are. -/
theorem besides_replaceValues (e : Entry) {name : String} {values : List (List UInt8)} (h : values ≠ []) :
    (e.replaceValues name values).besides name = e.besides name := by
  rw [besides, attributes_replaceValues e h, List.filter_append]
  simp [besides, Text.sameText]

end Entry

namespace Edit

/-- The entry that a step over it leaves, whether the step fails or not. -/
def leaves {α : Type} (step : EStateM Failure Entry α) (e : Entry) : Entry :=
  match step.run e with
  | .ok _ e' | .error _ e' => e'

/-- A step leaves the name of the entry as it is. -/
def KeepsName {α : Type} (step : EStateM Failure Entry α) : Prop := ∀ e, (leaves step e).dn = e.dn

namespace KeepsName

variable {α β : Type}

theorem pure (a : α) : KeepsName (pure a) := fun _ => rfl

theorem get : KeepsName (get : EStateM Failure Entry Entry) := fun _ => rfl

theorem throw (f : Failure) : KeepsName (throw f : EStateM Failure Entry α) := fun _ => rfl

theorem modify {f : Entry → Entry} (h : ∀ e, (f e).dn = e.dn) : KeepsName (modify f : EStateM Failure Entry Unit) := h

theorem bind {step : EStateM Failure Entry α} {next : α → EStateM Failure Entry β} (h : KeepsName step)
    (hn : ∀ a, KeepsName (next a)) : KeepsName (step >>= next) := by
  intro e
  have he := h e
  simp only [leaves, EStateM.run, Bind.bind, EStateM.bind] at he ⊢
  rcases hs : step e with ⟨a, e'⟩ | ⟨f, e'⟩
  · rw [hs] at he
    exact (hn a e').trans he
  · rw [hs] at he
    exact he

theorem ite {c : Prop} [Decidable c] {step other : EStateM Failure Entry α} (h : KeepsName step)
    (ho : KeepsName other) : KeepsName (if c then step else other) := by
  split
  · exact h
  · exact ho

theorem forM {step : α → Edit} {as : List α} (h : ∀ a, KeepsName (step a)) : KeepsName (as.forM step) := by
  induction as with
  | nil => exact pure ()
  | cons a as ih => exact (h a).bind fun _ => ih

end KeepsName

/-! ### Edits that succeed -/

variable {α β : Type} {I : Entry → Prop} {e after : Entry} {edit : Edit}

theorem apply_eq_ok_iff : edit.apply e = .ok after ↔ edit.run e = .ok () after := by
  unfold apply
  split <;> simp [*]

/-- Two steps succeed just if both do, the second one on what the first one leaves. -/
theorem run_bind_eq_ok_iff {step : EStateM Failure Entry α} {next : α → EStateM Failure Entry β} {b : β} :
    (step >>= next).run e = .ok b after ↔ ∃ a x, step.run e = .ok a x ∧ (next a).run x = .ok b after := by
  rw [EStateM.run_bind]
  cases step.run e with
  | ok a x =>
    refine ⟨fun h => ⟨a, x, rfl, h⟩, ?_⟩
    rintro ⟨_, _, hx, h⟩
    cases hx
    exact h
  | error f x => simp

/-- What holds before an edit holds afterwards, if the edit succeeds. -/
def Preserves (I : Entry → Prop) (edit : Edit) : Prop := ∀ e after, I e → edit.run e = .ok () after → I after

theorem Preserves.apply (h : Preserves I edit) (he : I e) (ha : edit.apply e = .ok after) : I after :=
  h e after he (apply_eq_ok_iff.mp ha)

theorem Preserves.pure : Preserves I (pure ()) := by
  intro e after he h
  cases h
  exact he

theorem Preserves.bind {other : Edit} (h : Preserves I edit) (ho : Preserves I other) :
    Preserves I (edit >>= fun _ => other) := by
  intro e after he hrun
  obtain ⟨_, x, hx, hafter⟩ := run_bind_eq_ok_iff.mp hrun
  exact ho x after (h e x he hx) hafter

theorem Preserves.forM {step : α → Edit} {as : List α} (h : ∀ a ∈ as, Preserves I (step a)) :
    Preserves I (as.forM step) := by
  induction as with
  | nil => exact .pure
  | cons a as ih => exact (h a List.mem_cons_self).bind (ih fun b hb => h b (List.mem_cons_of_mem _ hb))

/-! ### The edits -/

theorem addValue_keepsName (name : String) (permissive : Bool) (value : List UInt8) :
    KeepsName (addValue name permissive value) :=
  .bind .get fun _ => .ite (.ite (.pure _) (.throw _)) (.modify fun _ => rfl)

theorem addValues_keepsName (name : String) (values : List (List UInt8)) (permissive : Bool) :
    KeepsName (addValues name values permissive) := by
  have hmake : ∀ e : Entry, (if e.hasAttribute name then e
      else { e with attributes := e.attributes ++ [⟨name, []⟩] }).dn = e.dn := by
    intro e
    split <;> rfl
  have hadd : KeepsName (values.forM (addValue name permissive)) := .forM fun v => addValue_keepsName name permissive v
  unfold addValues
  split
  · exact .bind (.throw _) fun _ => .bind (.modify hmake) fun _ => hadd
  · exact .bind (.modify hmake) fun _ => hadd

theorem removeValue_keepsName (name : String) (permissive : Bool) (value : List UInt8) :
    KeepsName (removeValue name permissive value) :=
  .bind .get fun _ => .ite (.modify fun _ => rfl) (.ite (.pure _) (.throw _))

theorem removeValues_keepsName (name : String) (values : List (List UInt8)) (permissive : Bool) :
    KeepsName (removeValues name values permissive) := by
  have hremove : KeepsName (values.forM (removeValue name permissive)) :=
    .forM fun v => removeValue_keepsName name permissive v
  exact .bind .get fun _ =>
    .ite (.bind hremove fun _ => .bind .get fun _ => .ite (.modify fun _ => rfl) (.pure _))
      (.ite (.pure _) (.throw _))

theorem increment_keepsName (name : String) (values : List (List UInt8)) : KeepsName (increment name values) := by
  unfold increment
  cases incrementOf? values with
  | none => exact .throw _
  | some delta =>
    refine .bind .get fun e => ?_
    cases e.attribute? name with
    | none => exact .throw _
    | some a => exact .bind (.modify fun _ => rfl) fun _ => .ite (.pure _) (.throw _)

theorem change_keepsName (c : Change) (permissive : Bool) : KeepsName (change c permissive) := by
  unfold change
  cases c.kind with
  | add => exact addValues_keepsName _ _ _
  | delete => exact removeValues_keepsName _ _ _
  | replace => exact .modify fun e => e.dn_replaceValues _ _
  | increment => exact increment_keepsName _ _

theorem addNaming_keepsName (components : List Dn.NameValue) : KeepsName (addNaming components) :=
  .forM fun _ => addValues_keepsName _ _ _

/-- An edit that succeeds leaves an entry of the same name. -/
theorem KeepsName.apply {edit : Edit} {e after : Entry} (h : KeepsName edit) (ha : edit.apply e = .ok after) :
    after.dn = e.dn := by
  have he := h e
  unfold Edit.apply at ha
  simp only [leaves] at he
  split at ha
  · rename_i hr
    rw [hr] at he
    exact Except.ok.inj ha ▸ he
  · cases ha

end Edit

theorem Entry.dn_ofAttributes (dn : String) (attributes : List Attribute) : (ofAttributes dn attributes).dn = dn := by
  unfold ofAttributes
  refine List.foldlRecOn (motive := fun e : Entry => e.dn = dn) attributes _ rfl fun e he a _ => ?_
  have hkeeps := Edit.addValues_keepsName a.name a.values true e
  unfold Edit.leaves at hkeeps
  cases hr : (Edit.addValues a.name a.values true).run e <;> rw [hr] at hkeeps <;> exact hkeeps.trans he

end Ldap
