import Ldap.Proofs.Directory.Written

/-! Entries keep the values that their own names begin with. Adding an entry gives it these values. Editing one looks
for the values of the name in the request, which may be spelled otherwise than that of the entry, replacing a password
looks for none, and a renaming adds the values of the new relative name as requested, which need not be those that the
new name begins with. Where these are the same, the values are kept. -/

namespace Ldap.Directory

variable {d : Directory} {u : Update} {r : ModifyDnRequest} {e : Entry} {dn : String}

/-- Every entry has the values that its name begins with. -/
def NamingKept (d : Directory) : Prop := ∀ e ∈ d.store.entries, e.HasNaming (Dn.naming e.dn)

instance (d : Directory) : Decidable d.NamingKept :=
  inferInstanceAs (Decidable (∀ e ∈ d.store.entries, e.HasNaming (Dn.naming e.dn)))

/-- An edit under a name that begins with the same values as that of the entry, a renaming to a name that begins with
the values of the new relative name and under which those below keep theirs, and a password that is no value of the
name, unless it is the same. -/
def KeepsNaming (d : Directory) : Update → Prop
  | .modify dn .. =>
    ∀ e ∈ d.store.entries, e.key = Dn.normalize dn → Dn.Covers (Dn.naming dn) (Dn.naming e.dn)
  | .modifyDn r _ => Dn.Covers (Dn.components r.newRdn) (Dn.naming r.target) ∧
    ∀ e ∈ d.below r, ∀ name ∈ movedName? r.dn r.target e.dn, Dn.Covers (Dn.naming e.dn) (Dn.naming name)
  | .setPassword dn password =>
    ∀ e ∈ d.store.entries, e.key = Dn.normalize dn → ∀ c ∈ Dn.naming e.dn,
      Text.sameText d.passwordAttribute c.name → sameValue c.name password (Ber.utf8Bytes c.value)
  | .add .. | .delete .. | .reorder _ => True

instance (d : Directory) : (u : Update) → Decidable (d.KeepsNaming u)
  | .modify .. => inferInstanceAs (Decidable (∀ e ∈ d.store.entries, _))
  | .modifyDn .. => inferInstanceAs (Decidable (_ ∧ ∀ e ∈ d.below _, ∀ name ∈ movedName? _ _ _, _))
  | .setPassword .. => inferInstanceAs (Decidable (∀ e ∈ d.store.entries, _))
  | .add .. | .delete .. | .reorder _ => inferInstanceAs (Decidable True)

/-- A new password leaves the values of a name alone if it is none of them, or the same. -/
theorem hasNaming_newPassword {name : String} {password : List UInt8} {cs : List Dn.NameValue} (h : e.HasNaming cs)
    (hp : ∀ c ∈ cs, Text.sameText name c.name → sameValue c.name password (Ber.utf8Bytes c.value)) :
    (e.replaceValues name [password]).HasNaming cs := by
  intro c hc
  rw [Entry.hasValue_replaceValues]
  split
  · exact ⟨password, by simp, hp c hc ‹_›⟩
  · exact h c hc

/-- What an update writes has the values that its name begins with. -/
theorem Written.hasNaming {x : Entry} (h : d.Written u x) (hd : d.NamingKept) (hu : d.KeepsNaming u) :
    x.HasNaming (Dn.naming x.dn) := by
  cases h with
  | @added dn attributes noOp named =>
    rw [Entry.dn_withNaming, Entry.dn_ofAttributes]
    exact Entry.hasNaming_withNaming _ _
  | edited changes permissive noOp stored key dn_after naming =>
    rw [dn_after]
    exact naming.of_covers (hu _ stored key)
  | renamed noOp planned =>
    rw [planned.dn_after]
    exact planned.naming.of_covers hu.1
  | moved noOp planned below hname =>
    have hkept := hd _ (mem_below.mp below).1
    exact hkept.of_covers (hu.2 _ below _ hname)
  | newPassword password stored key =>
    rw [Entry.dn_replaceValues]
    exact hasNaming_newPassword (hd _ stored) (hu _ stored key)

theorem NamingKept.update (h : d.NamingKept) (hu : d.KeepsNaming u) : (d.after u).NamingKept := by
  intro x hx
  rcases mem_after hx with hx | hw
  · exact h x hx
  · exact hw.hasNaming h hu

/-- Renamings of plain names keep the values of the names. -/
theorem keepsNaming_of_plain (hd : d.AllPlain) (hr : r.Plain) (hdn : Dn.split r.dn ≠ []) (noOp : Bool) :
    d.KeepsNaming (.modifyDn r noOp) := by
  refine ⟨?_, fun e he name hname => ?_⟩
  · have hnaming : Dn.naming r.target = Dn.components r.newRdn := hr.rdn.naming_newName _
    exact .of_subset (hnaming ▸ List.Subset.refl _)
  · have hlonger : (Dn.split r.dn).length ≤ (Dn.split e.dn).length := by
      by_contra hlt
      have hnone : movedName? r.dn r.target e.dn = none := movedName?_eq_none_iff.mpr (not_le.mp hlt)
      simp [hnone] at hname
    rw [Dn.movedName?_eq hlonger, Option.mem_some_iff] at hname
    exact hname ▸ .of_subset (Dn.naming_relocated_subset (hd e (mem_below.mp he).1) hdn)

/-! ### Exact conditions -/

theorem require_of_mem (he : e ∈ d.store.entries) (hk : e.key = Dn.normalize dn) : d.require dn = .ok e := by
  rw [Directory.require, Store.get?_eq_some_iff.mpr ⟨he, hk⟩]

/-- Edits under a name keep the values of names, whatever they change, just if it begins with the values that the name
of the entry begins with. -/
theorem NamingKept.modify_iff (h : d.NamingKept) (dn : String) :
    (∀ changes permissive noOp, (d.after (.modify dn changes permissive noOp)).NamingKept) ↔
      d.KeepsNaming (.modify dn [] false false) := by
  refine ⟨fun hm e he hk c hc => ?_, fun hu changes permissive noOp => h.update hu⟩
  by_contra hnot
  obtain ⟨changes, x, hedit, hdn, hhas, hmissing⟩ := Edit.exists_renewed e hnot
  have hmodify : d.modify dn changes true false = .ok ((e, x), { d with store := d.store.put x }) := by
    rw [modify, require_of_mem he hk, Except.ok_bind, hedit, Except.ok_bind, checkNaming_eq_ok_iff.mpr hhas]
    rfl
  have hkept := hm changes true false
  simp only [after, hmodify] at hkept
  exact hmissing (hkept x (Store.mem_entries_put.mpr (.inr rfl)) c (hdn.symm ▸ hc))

theorem NamingKept.setPassword_iff (h : d.NamingKept) (dn : String) (password : List UInt8) :
    (d.after (.setPassword dn password)).NamingKept ↔ d.KeepsNaming (.setPassword dn password) := by
  refine ⟨fun hs e he hk c hc hn => ?_, fun hu => h.update hu⟩
  have hset : d.setPassword dn password =
      .ok { d with store := d.store.put (e.replaceValues d.passwordAttribute [password]) } := by
    rw [setPassword, require_of_mem he hk]
    rfl
  simp only [after, hset] at hs
  have hv := hs _ (Store.mem_entries_put.mpr (.inr rfl)) c ((e.dn_replaceValues _ _).symm ▸ hc)
  rw [Entry.hasValue_replaceValues, if_pos hn] at hv
  simpa using hv

/-! ### Sequences of updates -/

/-- In a directory that is empty at first, all entries keep the values that their names begin with, as long as edits and
new passwords leave them alone and renamings are to names that begin with the new values. For edits and passwords there
is no weaker condition, and renamings of plain names meet theirs. -/
theorem naming_kept_run (d : Directory) (updates : List Update) (he : d.store.entries = [])
    (hu : d.Throughout KeepsNaming updates) :
    (d.run updates).NamingKept ∧
    (∀ dn, (∀ changes permissive noOp, ((d.run updates).after (.modify dn changes permissive noOp)).NamingKept) ↔
      (d.run updates).KeepsNaming (.modify dn [] false false)) ∧
    (∀ dn password, ((d.run updates).after (.setPassword dn password)).NamingKept ↔
      (d.run updates).KeepsNaming (.setPassword dn password)) ∧
    ∀ r noOp, (d.run updates).AllPlain → r.Plain → Dn.split r.dn ≠ [] →
      (d.run updates).KeepsNaming (.modifyDn r noOp) := by
  have hempty : d.NamingKept := by simp [NamingKept, he]
  have hrun : (d.run updates).NamingKept := run_of_throughout (fun h hu => h.update hu) hempty hu
  exact ⟨hrun, hrun.modify_iff, hrun.setPassword_iff, fun r noOp hd hr hdn => keepsNaming_of_plain hd hr hdn noOp⟩

theorem naming_kept_run_people :
    let d : Directory := .ofBases ["o=x"]
    let updates : List Update := [.add "o=x" [] false, .add "ou=a,o=x" [] false, .add "cn=b,ou=a,o=x" [] false,
      .modify "CN= \\B ; OU=A,o=x" [⟨.replace, .ofTexts "cn" ["B", "d"]⟩] false false,
      .modifyDn { dn := "ou=a,o=x", newRdn := "ou=c", deleteOldRdn := true } false,
      .setPassword "cn=b,ou=c,o=x" [0x70]]
    let r : ModifyDnRequest := { dn := "ou=c,o=x", newRdn := " ou=e ", deleteOldRdn := true }
    d.store.entries = [] ∧ d.Throughout KeepsNaming updates ∧ (d.run updates).NamingKept ∧ (d.run updates).size = 3 ∧
      (d.run updates).AllPlain ∧ r.Plain ∧ Dn.split r.dn ≠ [] ∧ (d.run updates).KeepsNaming (.modifyDn r false) := by
  intro d updates r
  have hkeeps : d.Throughout KeepsNaming updates := by
    refine ⟨fun _ => ?_, fun _ => ?_, fun _ => ?_, fun _ => ?_, fun _ => ?_, fun _ => ?_, trivial⟩ <;> decide +kernel
  have hplain : (d.run updates).AllPlain := by decide +kernel
  have hr : r.Plain := by decide +kernel
  have hdn : Dn.split r.dn ≠ [] := by decide +kernel
  obtain ⟨hkept, -, -, hrenaming⟩ := naming_kept_run d updates rfl hkeeps
  exact ⟨rfl, hkeeps, hkept, by decide +kernel, hplain, hr, hdn, hrenaming r false hplain hr hdn⟩

/-- Values of a name are lost when an entry is edited under a spelling that begins with others, when they are passwords
and replaced, and when the new relative name of a renaming is two. An entry that moves along with the one above it gets
another first relative name if an escaped blank is cut off at the end of its own: the backslash stays and escapes the
comma behind it. -/
theorem not_naming_kept_run :
    ¬ ((ofBases ["o=x"]).run [.add "o=x" [] false, .add "cn=é,o=x" [] false,
      .modify "cn=É,o=x" [⟨.replace, .ofTexts "cn" ["É"]⟩] false false]).NamingKept ∧
    ¬ ((ofBases ["o=x"]).run [.add "o=x" [] false, .add "userPassword=s,o=x" [] false,
      .setPassword "userPassword=s,o=x" [0x74]]).NamingKept ∧
    ¬ ((ofBases ["o=x"]).run [.add "o=x" [] false, .add "ou=a,o=x" [] false,
      .modifyDn { dn := "ou=a,o=x", newRdn := "cn=b,ou=c", deleteOldRdn := false } false]).NamingKept ∧
    ¬ ((ofBases ["o=x"]).run [.add "o=x" [] false, .add "ou=a,o=x" [] false, .add "cn=q\\ ,ou=a,o=x" [] false,
      .modifyDn { dn := "ou=a,o=x", newRdn := "ou=c", deleteOldRdn := false } false]).NamingKept := by
  decide +kernel

end Ldap.Directory
