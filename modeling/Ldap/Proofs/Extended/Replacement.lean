import Ldap.Proofs.Directory.Run
import Ldap.Proofs.Extended.PasswordModify

/-! Which passwords are accepted once one has been changed. Setting a password replaces the values of the first password
attribute, and no others. So the new password is accepted, and of the passwords before it those that stand elsewhere: as
that of a further identity, or in another password attribute of the entry. -/

namespace Ldap

namespace Directory

variable {d after : Directory} {dn : String} {password new : List UInt8}

/-- A password stands where setting another one does not reach: as that of a further identity, or in a password
attribute with another name than the first. -/
inductive HeldElsewhere (d : Directory) (dn : String) (password : List UInt8) : Prop
  | credential (known : d.credentials.lookup (Dn.normalize dn) = some password)
  | attribute (e : Entry) (name : String) (stored : d.store.get? dn = some e) (configured : name ∈ d.passwordAttributes)
    (other : ¬ Text.sameText d.passwordAttribute name) (held : password ∈ e.values name)

theorem heldElsewhere_iff : d.HeldElsewhere dn password ↔ d.credentials.lookup (Dn.normalize dn) = some password ∨
    ∃ e ∈ d.store.get? dn, ∃ name ∈ d.passwordAttributes,
      ¬ Text.sameText d.passwordAttribute name ∧ password ∈ e.values name := by
  constructor
  · rintro (hknown | ⟨e, name, he, hmem, hother, hin⟩)
    · exact .inl hknown
    · exact .inr ⟨e, he, name, hmem, hother, hin⟩
  · rintro (hknown | ⟨e, he, name, hmem, hother, hin⟩)
    · exact .credential hknown
    · exact .attribute e name he hmem hother hin

instance (d : Directory) (dn : String) (password : List UInt8) : Decidable (d.HeldElsewhere dn password) :=
  decidable_of_iff _ heldElsewhere_iff.symm

theorem checkPassword_iff : d.checkPassword dn password ↔ d.credentials.lookup (Dn.normalize dn) = some password ∨
    ∃ e, d.store.get? dn = some e ∧ ∃ name ∈ d.passwordAttributes, password ∈ e.values name := by
  simp [checkPassword, hasPassword, Option.any_eq_true, List.any_eq_true]

theorem passwordAttribute_mem (h : d.passwordAttributes ≠ []) : d.passwordAttribute ∈ d.passwordAttributes := by
  obtain ⟨name, rest, hname⟩ := List.exists_cons_of_ne_nil h
  simp [passwordAttribute, hname]

/-- A password is accepted behind the change just if it is the new one, or held elsewhere. -/
theorem checkPassword_setPassword (hname : d.passwordAttributes ≠ []) (h : d.setPassword dn new = .ok after) :
    after.checkPassword dn password ↔ password = new ∨ d.HeldElsewhere dn password := by
  obtain ⟨e, he, hkey, rfl⟩ := setPassword_ok h
  have hbefore : d.store.get? dn = some e := Store.get?_eq_some_iff.mpr ⟨he, hkey⟩
  have hafter : (d.store.put (e.replaceValues d.passwordAttribute [new])).get? dn =
      some (e.replaceValues d.passwordAttribute [new]) := by
    rw [Store.get?_put, if_pos (by rw [Entry.key, Entry.dn_replaceValues, ← hkey, Entry.key])]
  simp only [checkPassword_iff, hafter, Option.some.injEq, exists_eq_left', Entry.values_replaceValues]
  constructor
  · rintro (hknown | ⟨name, hmem, hin⟩)
    · exact .inr (.credential hknown)
    · split at hin
      · exact .inl (List.mem_singleton.mp hin)
      · exact .inr (.attribute e name hbefore hmem ‹_› hin)
  · rintro (rfl | hknown | ⟨x, name, hx, hmem, hother, hin⟩)
    · refine .inr ⟨d.passwordAttribute, passwordAttribute_mem hname, ?_⟩
      rw [if_pos (Text.sameText_refl _)]
      exact List.mem_singleton_self _
    · exact .inl hknown
    · obtain rfl := Option.some.inj (hbefore.symm.trans hx)
      exact .inr ⟨name, hmem, by rwa [if_neg hother]⟩

end Directory

namespace Extension

variable {d : Directory} {authenticated dn : String} {generated : List UInt8} {r : ExtendedRequest}
  {pm : PasswordModify}

/-- A request that is answered with success has set the password that it asks for. -/
theorem setPassword_of_success (ho : r.oid = PasswordModify.oid) (hd : passwordModifyOf r.value = .ok pm)
    (ht : PasswordModify.target d authenticated pm.identity = .ok dn)
    (hs : (respond d authenticated generated r).1.result.code = .success) :
    d.setPassword dn (pm.newPassword.getD generated) = .ok (respond d authenticated generated r).2 := by
  unfold respond at hs ⊢
  cases hp : perform d authenticated generated r with
  | error f =>
    rw [hp] at hs
    exact absurd hs f.code_ne.1
  | ok result =>
    obtain ⟨pm', dn', he, hset, -⟩ := (perform_eq_ok_iff ho).mp hp
    obtain rfl := Except.ok.inj (hd.symm.trans he.decoded)
    obtain rfl := Except.ok.inj (ht.symm.trans he.target)
    exact hset

/-- Once a password has been changed the new one is accepted. Any other one, such as the old one that the request has
given, is accepted just if it is held elsewhere. -/
theorem respond_replaces (d : Directory) (authenticated : String) (generated : List UInt8) (r : ExtendedRequest)
    (pm : PasswordModify) (dn : String) (new : List UInt8) (hname : d.passwordAttributes ≠ [])
    (ho : r.oid = PasswordModify.oid) (hd : passwordModifyOf r.value = .ok pm)
    (ht : PasswordModify.target d authenticated pm.identity = .ok dn) (hnew : pm.newPassword = some new)
    (hs : (respond d authenticated generated r).1.result.code = .success) :
    let after := (respond d authenticated generated r).2
    after.checkPassword dn new ∧ ∀ old, new ≠ old → (after.checkPassword dn old ↔ d.HeldElsewhere dn old) := by
  intro after
  have hset : d.setPassword dn new = .ok after := by
    simpa [hnew] using setPassword_of_success ho hd ht hs
  refine ⟨(Directory.checkPassword_setPassword hname hset).mpr (.inl rfl), fun old hne => ?_⟩
  rw [Directory.checkPassword_setPassword hname hset, or_iff_right hne.symm]

/-- An entry with two password attributes of which the first holds the old password alone. -/
theorem respond_replaces_people :
    let d : Directory :=
      { store := Store.put {} ⟨"uid=a,o=x", [⟨"uid", [[0x61]]⟩, ⟨"userPassword", [[0x70], [0x71]]⟩, ⟨"pin", [[0x72]]⟩]⟩
        bases := ["o=x"]
        passwordAttributes := ["USERPASSWORD", "pin", "userPassword"]
        credentials := [("uid=a,o=x", [0x73])] }
    let change : PasswordModify := { identity := some "u:a", oldPassword := some [0x70], newPassword := some [0x74] }
    let r : ExtendedRequest := { oid := PasswordModify.oid, value := some change.encode }
    let after := (respond d "" [] r).2
    (respond d "" [] r).1.result.code = .success ∧ after.checkPassword "uid=a,o=x" [0x74] ∧
      ¬ after.checkPassword "uid=a,o=x" [0x70] ∧ after.checkPassword "uid=a,o=x" [0x72] := by
  intro d change r after
  have hs : (respond d "" [] r).1.result.code = .success := by decide +kernel
  obtain ⟨hnew, hold⟩ := respond_replaces d "" [] r change "uid=a,o=x" [0x74] (by decide) rfl (by decide +kernel)
    (by decide +kernel) rfl hs
  have hpin : d.HeldElsewhere "uid=a,o=x" [0x72] := by decide +kernel
  have hlost : ¬ d.HeldElsewhere "uid=a,o=x" [0x70] := by decide +kernel
  exact ⟨hs, hnew, mt (hold [0x70] (by decide)).mp hlost, (hold [0x72] (by decide)).mpr hpin⟩

/-- The old password is accepted still if it is a value of another password attribute too, or that of a further
identity of the same name. -/
theorem not_respond_replaces :
    let e : Entry := ⟨"uid=a,o=x", [⟨"uid", [[0x61]]⟩, ⟨"userPassword", [[0x70]]⟩, ⟨"pin", [[0x70]]⟩]⟩
    let two : Directory := { store := Store.put {} e, bases := ["o=x"], passwordAttributes := ["userPassword", "pin"] }
    let known : Directory := { store := Store.put {} e, bases := ["o=x"], credentials := [("uid=a,o=x", [0x70])] }
    let change : PasswordModify := { identity := some "u:a", oldPassword := some [0x70], newPassword := some [0x71] }
    let r : ExtendedRequest := { oid := PasswordModify.oid, value := some change.encode }
    ((respond two "" [] r).1.result.code = .success ∧ (respond two "" [] r).2.checkPassword "uid=a,o=x" [0x70]) ∧
      (respond known "" [] r).1.result.code = .success ∧
        (respond known "" [] r).2.checkPassword "uid=a,o=x" [0x70] := by
  decide +kernel

end Extension

end Ldap
