import Ldap.Extended.Basic
import Ldap.Proofs.Ber.Buffer
import Ldap.Proofs.Directory.Renaming
import Ldap.Proofs.Service.Preview

/-! Who may change a password, and what else changes with it. Whoever gives the old password may, and without it only
an identity its own. One attribute of one entry has the new password then. All other extended requests, whether they
are refused or ask for something else, leave the directory as it is. -/

namespace Ldap

namespace Directory

variable {d after : Directory} {dn name : String} {password : List UInt8}

/-- An entry has a new password in an attribute, and all else stays as it is. -/
structure PasswordSet (d after : Directory) (dn name : String) (password : List UInt8) : Prop where
  store_only : after = { d with store := after.store }
  other_entries : ∀ other, Dn.normalize other ≠ Dn.normalize dn → after.store.get? other = d.store.get? other
  entry : ∃ x y, d.store.get? dn = some x ∧ after.store.get? dn = some y ∧ y.dn = x.dn ∧
    y.values name = [password] ∧ y.besides name = x.besides name

theorem setPassword_set {rest : List String} (hname : d.passwordAttributes = name :: rest) (h : d.store.contains dn)
    (password : List UInt8) :
    ∃ after, d.setPassword dn password = .ok after ∧ d.PasswordSet after dn name password := by
  obtain ⟨x, hx⟩ := Option.isSome_iff_exists.mp h
  let y := x.replaceValues name [password]
  have hkey : y.key = Dn.normalize dn := by
    rw [Entry.key, Entry.dn_replaceValues, ← (Store.get?_eq_some_iff.mp hx).2, Entry.key]
  have hset : d.setPassword dn password = .ok { d with store := d.store.put y } := by
    simp only [setPassword, require, hx, hname]
    rfl
  refine ⟨_, hset, rfl, fun other ho => ?_, x, y, hx, ?_, x.dn_replaceValues .., ?_, ?_⟩
  · rw [Store.get?_put, if_neg fun h => ho (h.symm.trans hkey)]
  · rw [Store.get?_put, if_pos hkey]
  · rw [x.values_replaceValues, if_pos (Text.sameText_refl _)]
  · exact x.besides_replaceValues (by simp)

theorem contains_of_setPassword (h : d.setPassword dn password = .ok after) : d.store.contains dn := by
  obtain ⟨x, hx, -⟩ := Except.bind_eq_ok_iff.mp h
  obtain ⟨hmem, hkey⟩ := require_ok hx
  exact Store.contains_iff.mpr ⟨x, hmem, hkey⟩

theorem isSome_get?_of_contains (h : d.store.contains dn) : (d.get? dn).isSome := by
  unfold get?
  split
  · rfl
  · exact h

end Directory

namespace PasswordModify

variable {d after : Directory} {authenticated dn name : String} {generated : List UInt8} {pm : PasswordModify}
  {value : Option (List UInt8)}

theorem checkAllowed_eq_ok_iff {old : Option (List UInt8)} : checkAllowed d authenticated dn old = .ok () ↔
    (∃ password, old = some password ∧ d.checkPassword dn password) ∨
      old = none ∧ authenticated ≠ "" ∧ Dn.normalize authenticated = Dn.normalize dn := by
  unfold checkAllowed
  cases old with
  | some password => by_cases h : d.checkPassword dn password <;> simp [h]
  | none =>
    by_cases ha : authenticated = ""
    · simp [ha]
    · by_cases hn : Dn.normalize authenticated = Dn.normalize dn <;> simp [ha, hn]

/-- What a change is answered with: the new password if it was generated. -/
def answer (pm : PasswordModify) (generated : List UInt8) : Option (List UInt8) :=
  if pm.newPassword.isSome then none else some (generatedValue generated)

theorem perform_eq : perform d authenticated generated pm = (do
    let dn ← target d authenticated pm.identity
    if (d.get? dn).isNone then throw (.noSuchEntry dn "")
    checkAllowed d authenticated dn pm.oldPassword
    (d.setPassword dn (pm.newPassword.getD generated)).map (pm.answer generated, ·)) := by
  unfold perform answer
  cases pm.newPassword <;> rfl

theorem perform_eq_ok_iff : perform d authenticated generated pm = .ok (value, after) ↔
    ∃ dn, target d authenticated pm.identity = .ok dn ∧ (d.get? dn).isSome ∧
      checkAllowed d authenticated dn pm.oldPassword = .ok () ∧
      d.setPassword dn (pm.newPassword.getD generated) = .ok after ∧ pm.answer generated = value := by
  simp only [perform_eq, Except.bind_eq_ok_iff (x := target ..), Except.check_eq_ok_iff,
    Option.isNone_iff_eq_none, ← Option.isSome_iff_ne_none]
  refine exists_congr fun dn => and_congr_right fun _ => and_congr_right fun _ => ?_
  simp only [Except.bind_eq_ok_iff, Except.map_eq_ok_iff, Prod.mk.injEq]
  constructor
  · rintro ⟨⟨⟩, ha, _, hs, hv, rfl⟩
    exact ⟨ha, hs, hv⟩
  · rintro ⟨ha, hs, hv⟩
    exact ⟨(), ha, after, hs, hv, rfl⟩

/-- A generated password is all that an answer holds, behind the headers of a sequence and of the password itself. -/
theorem generatedValue_eq (h : generated.length = 16) :
    generatedValue generated = [0x30, 0x12, 0x80, 0x10] ++ generated := by
  rw [generatedValue, Ber.Item.toBytes_eq_encode]
  simp [Ber.Item.sequence, Ber.Item.encode, Ber.Item.encodeAll, Ber.Element.encode, Ber.Length.encode,
    Ber.sequenceTag, h, generatedTag]

end PasswordModify

namespace Extension

variable {d after : Directory} {authenticated dn name : String} {generated : List UInt8} {r : ExtendedRequest}
  {pm : PasswordModify} {value : Option (List UInt8)}

/-- A request that is entitled to change the password of an entry: it gives the old one, or comes from the identity
whose entry it is. -/
structure Entitled (d : Directory) (authenticated : String) (r : ExtendedRequest) (pm : PasswordModify) (dn : String) :
    Prop where
  oid_eq : r.oid = PasswordModify.oid
  decoded : passwordModifyOf r.value = .ok pm
  target : PasswordModify.target d authenticated pm.identity = .ok dn
  stored : d.store.contains dn
  allowed : (∃ password, pm.oldPassword = some password ∧ d.checkPassword dn password) ∨
    pm.oldPassword = none ∧ authenticated ≠ "" ∧ Dn.normalize authenticated = Dn.normalize dn

theorem ofOid?_eq_passwordModify_iff {oid : String} : ofOid? oid = some .passwordModify ↔ oid = PasswordModify.oid := by
  constructor
  · intro h
    have hoid : Extension.passwordModify.oid = oid := by simpa using List.find?_some h
    exact hoid.symm
  · rintro rfl
    rfl

theorem perform_passwordModify (h : r.oid = PasswordModify.oid) : perform d authenticated generated r =
    passwordModifyOf r.value >>= PasswordModify.perform d authenticated generated := by
  rw [perform, ofOid?_eq_passwordModify_iff.mpr h]

theorem perform_other (h : r.oid ≠ PasswordModify.oid) (hp : perform d authenticated generated r = .ok (value, after)) :
    after = d := by
  unfold perform at hp
  split at hp
  · cases hp
  · exact (Prod.mk.inj (Except.ok.inj hp)).2.symm
  · exact absurd (ofOid?_eq_passwordModify_iff.mp ‹_›) h

/-- A request to change a password is carried out just if it is entitled to. -/
theorem perform_eq_ok_iff (ho : r.oid = PasswordModify.oid) :
    perform d authenticated generated r = .ok (value, after) ↔ ∃ pm dn, Entitled d authenticated r pm dn ∧
      d.setPassword dn (pm.newPassword.getD generated) = .ok after ∧ pm.answer generated = value := by
  rw [perform_passwordModify ho, Except.bind_eq_ok_iff]
  simp only [PasswordModify.perform_eq_ok_iff, PasswordModify.checkAllowed_eq_ok_iff]
  constructor
  · rintro ⟨pm, hd, dn, ht, -, ha, hs, hv⟩
    exact ⟨pm, dn, ⟨ho, hd, ht, Directory.contains_of_setPassword hs, ha⟩, hs, hv⟩
  · rintro ⟨pm, dn, h, hs, hv⟩
    exact ⟨pm, h.decoded, dn, h.target, Directory.isSome_get?_of_contains h.stored, h.allowed, hs, hv⟩

/-! ### Responses -/

/-- A request that succeeds is entitled to, if it is one to change a password, and else changes nothing. -/
theorem entitled_of_perform (h : perform d authenticated generated r = .ok (value, after)) :
    (∃ pm dn, Entitled d authenticated r pm dn) ∨ r.oid ≠ PasswordModify.oid ∧ after = d := by
  by_cases ho : r.oid = PasswordModify.oid
  · obtain ⟨pm, dn, he, -⟩ := (perform_eq_ok_iff ho).mp h
    exact .inl ⟨pm, dn, he⟩
  · exact .inr ⟨ho, perform_other ho h⟩

theorem Entitled.respond {rest : List String} (h : Entitled d authenticated r pm dn)
    (hname : d.passwordAttributes = name :: rest) (generated : List UInt8) :
    ∃ after, d.PasswordSet after dn name (pm.newPassword.getD generated) ∧
      respond d authenticated generated r = ({ result := .success, value := pm.answer generated }, after) := by
  obtain ⟨after, hs, hset⟩ := Directory.setPassword_set hname h.stored (pm.newPassword.getD generated)
  have hp : perform d authenticated generated r = .ok (pm.answer generated, after) :=
    (perform_eq_ok_iff h.oid_eq).mpr ⟨pm, dn, h, hs, rfl⟩
  exact ⟨after, hset, by rw [Extension.respond, hp]⟩

/-- An extended request changes the directory only if it is entitled to change a password, which it then does with
success, for one attribute of one entry. The password that is set is the one given or else the one answered. -/
theorem respond_password (d : Directory) (authenticated : String) (generated : List UInt8) (r : ExtendedRequest)
    (name : String) (rest : List String) (hname : d.passwordAttributes = name :: rest) (hg : generated.length = 16) :
    let response := (respond d authenticated generated r).1
    let after := (respond d authenticated generated r).2
    (after ≠ d → response.result.code = .success ∧ ∃ pm dn, Entitled d authenticated r pm dn) ∧
    (r.oid = PasswordModify.oid → response.result.code = .success → ∃ pm dn, Entitled d authenticated r pm dn) ∧
    ∀ pm dn, Entitled d authenticated r pm dn →
      response.result.code = .success ∧ d.PasswordSet after dn name (pm.newPassword.getD generated) ∧
      response.value = if pm.newPassword.isSome then none else some ([0x30, 0x12, 0x80, 0x10] ++ generated) := by
  intro response after
  refine ⟨fun hchanged => ?_, fun ho hsuccess => ?_, fun pm dn h => ?_⟩
  · cases hp : perform d authenticated generated r with
    | error f => exact absurd (by simp only [after, respond, hp]) hchanged
    | ok result =>
      have hafter : after = result.2 := by simp only [after, respond, hp]
      refine ⟨by simp only [response, respond, hp]; rfl, ?_⟩
      exact (entitled_of_perform hp).resolve_right fun h => hchanged (hafter.trans h.2)
  · cases hp : perform d authenticated generated r with
    | error f =>
      have hcode : response.result.code = f.code := by simp only [response, respond, hp]; rfl
      exact absurd (hcode.symm.trans hsuccess) f.code_ne.1
    | ok result => exact (entitled_of_perform hp).resolve_right fun h => h.1 ho
  · obtain ⟨moved, hset, hrespond⟩ := h.respond hname generated
    have hresponse : response = { result := .success, value := pm.answer generated } := by
      simp only [response, hrespond]
    have hafter : after = moved := by simp only [after, hrespond]
    rw [hresponse, hafter]
    exact ⟨rfl, hset, by rw [← PasswordModify.generatedValue_eq hg, PasswordModify.answer]⟩

/-- Two identities change the password of an entry: its own, that is given a new one, and another that knows it. -/
theorem respond_password_people :
    let d : Directory :=
      { store := (Store.put {} ⟨"o=x", []⟩).put ⟨"uid=a,o=x", [⟨"uid", [[0x61]]⟩, ⟨"userPassword", [[0x70]]⟩]⟩
        bases := ["o=x"] }
    let generated : List UInt8 := List.replicate 16 0x2A
    let own : ExtendedRequest := { oid := PasswordModify.oid, value := none }
    let change : PasswordModify := { identity := some "u:a", oldPassword := some [0x70], newPassword := some [0x71] }
    let others : ExtendedRequest := { oid := PasswordModify.oid, value := some change.encode }
    d.PasswordSet (respond d "UID=a,o=x" generated own).2 "UID=a,o=x" "userPassword" generated ∧
      d.PasswordSet (respond d "" generated others).2 "uid=a,o=x" "userPassword" [0x71] := by
  intro d generated own change others
  have hown : Entitled d "UID=a,o=x" own {} "UID=a,o=x" :=
    ⟨rfl, rfl, by decide +kernel, by decide +kernel, .inr ⟨rfl, by decide, rfl⟩⟩
  have hothers : Entitled d "" others change "uid=a,o=x" :=
    ⟨rfl, by decide +kernel, by decide +kernel, by decide +kernel, .inl ⟨[0x70], rfl, by decide +kernel⟩⟩
  have hname : d.passwordAttributes = ["userPassword"] := rfl
  exact ⟨((respond_password d "UID=a,o=x" generated own "userPassword" [] hname rfl).2.2 _ _ hown).2.1,
    ((respond_password d "" generated others "userPassword" [] hname rfl).2.2 _ _ hothers).2.1⟩

end Extension

end Ldap
