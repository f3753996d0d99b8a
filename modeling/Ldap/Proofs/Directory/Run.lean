import Ldap.Directory.Identity
import Ldap.Proofs.Directory.Preview
import Ldap.Proofs.Directory.Renaming
import Ldap.Proofs.Dn.Naming

/-! Sequences of updates of a directory that is empty at first, in whatever order its store lists the entries between
them. Updates that fit keep the hierarchy. To add or edit an entry always fits, to remove one if the names in the
directory are nested. A renaming has to be one of plain names, to lead to a place in the hierarchy and to have no base
below its old or its new name. The check of the place is one that adding an entry makes and a renaming does not. Where
it is missing, the hierarchy breaks and entries are lost. -/

namespace Ldap

/-- An update of a directory, with its arguments. A store may also come to list its entries in another order, at any
time, which counts as an update. -/
inductive Update where
  | add (dn : String) (attributes : List Attribute) (noOp : Bool)
  | delete (dn : String) (subtree noOp : Bool)
  | modify (dn : String) (changes : List Change) (permissive noOp : Bool)
  | modifyDn (r : ModifyDnRequest) (noOp : Bool)
  | setPassword (dn : String) (password : List UInt8)
  | reorder (store : Store)

namespace Directory

/-- The directory that an update leaves, which is the one before if it fails. -/
def after (d : Directory) : Update → Directory
  | .add dn attributes noOp =>
    match d.add (.ofAttributes dn attributes) noOp with
    | .ok (_, d) => d
    | .error _ => d
  | .delete dn subtree noOp =>
    match d.delete dn subtree noOp with
    | .ok (_, d) => d
    | .error _ => d
  | .modify dn changes permissive noOp =>
    match d.modify dn changes permissive noOp with
    | .ok (_, d) => d
    | .error _ => d
  | .modifyDn r noOp =>
    match d.modifyDn r noOp with
    | .ok (.done _ _ d) | .ok (.brokenOff d) => d
    | .error _ => d
  | .setPassword dn password =>
    match d.setPassword dn password with
    | .ok d => d
    | .error _ => d
  | .reorder store => if store.entries.Perm d.store.entries then { d with store } else d

def run (d : Directory) (updates : List Update) : Directory := updates.foldl after d

/-- Each update that changes the directory it is made in meets a condition there. -/
def Throughout (P : Directory → Update → Prop) : Directory → List Update → Prop
  | _, [] => True
  | d, u :: updates => (d.after u ≠ d → P d u) ∧ Throughout P (d.after u) updates

/-- What every update keeps that meets a condition, a sequence of such updates keeps. -/
theorem run_of_throughout {I : Directory → Prop} {P : Directory → Update → Prop}
    (step : ∀ {d u}, I d → P d u → I (d.after u)) {d : Directory} {updates : List Update} (h : I d)
    (hu : d.Throughout P updates) : I (d.run updates) := by
  induction updates generalizing d with
  | nil => exact h
  | cons u updates ih =>
    refine ih ?_ hu.2
    by_cases hd : d.after u = d
    · exact hd.symm ▸ h
    · exact step h (hu.1 hd)

/-- Entries may be removed where names are nested. A renaming has to be one of plain names, with no base below the old
or the new one, and the new name has to be a base or to have the one above it stored. -/
def Fits (d : Directory) : Update → Prop
  | .delete .. => d.AllNested
  | .modifyDn r _ => d.AllPlain ∧ r.Plain ∧ d.NoBaseBelow r.dn ∧ d.NoBaseBelow r.target ∧
    (d.isBase r.target ∨ d.store.contains (Dn.above r.target))
  | .add .. | .modify .. | .setPassword .. | .reorder _ => True

instance (d : Directory) : (u : Update) → Decidable (d.Fits u)
  | .delete .. => inferInstanceAs (Decidable d.AllNested)
  | .modifyDn r _ => inferInstanceAs (Decidable (d.AllPlain ∧ r.Plain ∧ _ ∧ _ ∧ _))
  | .add .. | .modify .. | .setPassword .. | .reorder _ => inferInstanceAs (Decidable True)

/-- Each update fits that changes the directory it is made in. -/
def AllFit : Directory → List Update → Prop
  | _, [] => True
  | d, u :: updates => (d.after u ≠ d → d.Fits u) ∧ AllFit (d.after u) updates

theorem AllFit.throughout {d : Directory} {updates : List Update} (h : d.AllFit updates) :
    d.Throughout Fits updates := by
  induction updates generalizing d with
  | nil => trivial
  | cons u updates ih => exact ⟨h.1, ih h.2⟩

variable {d moved : Directory} {r : ModifyDnRequest} {before after added e : Entry} {dn : String}

/-! ### One update -/

theorem namingOf_eq_ok_iff {components : List Dn.NameValue} :
    namingOf dn = .ok components ↔ Dn.naming dn ≠ [] ∧ components = Dn.naming dn := by
  unfold namingOf Dn.naming
  cases Dn.split dn with
  | nil => simp
  | cons rdn rest =>
    by_cases hc : Dn.components rdn = []
    · simp [hc]
    · simpa [hc] using eq_comm

theorem checkNaming_eq_ok_iff : checkNaming dn e = .ok () ↔ e.HasNaming (Dn.naming dn) := by
  have hfind : (Dn.naming dn).find? (fun c => !e.hasValue c.name (Ber.utf8Bytes c.value)) = none ↔
      e.HasNaming (Dn.naming dn) := by
    simp [List.find?_eq_none, Entry.HasNaming]
  rw [← hfind]
  unfold checkNaming Dn.naming
  dsimp only
  split <;> simp [*]

theorem checkParent_eq_ok_iff : d.checkParent dn = .ok () ↔ d.isBase dn ∨ d.store.contains (Dn.above dn) := by
  unfold checkParent
  change (if d.isBase dn || d.store.contains (Dn.above dn) then _ else _) = _ ↔ _
  rw [← Bool.or_eq_true]
  split <;> simp [*]

/-- An entry is added just if it has a name of its own, and the place of that name is there and vacant. -/
theorem add_eq_ok_iff {noOp : Bool} : d.add e noOp = .ok (added, moved) ↔
    (Dn.naming e.dn ≠ [] ∧ d.Placed e.dn ∧ ¬ d.store.contains e.dn) ∧
      added = e.withNaming (Dn.naming e.dn) ∧ moved = d.commit noOp (d.store.put added) := by
  simp only [add, Except.bind_eq_ok_iff, Except.check_eq_ok_iff, namingOf_eq_ok_iff]
  constructor
  · rintro ⟨_, ⟨hn, rfl⟩, ⟨⟩, hc, hvacant, ⟨⟩, hp, x, ha, h⟩
    obtain ⟨rfl, rfl⟩ := Prod.mk.inj (Except.ok.inj h)
    rw [Edit.addNaming_apply] at ha
    exact ⟨⟨hn, ⟨checkCovered_eq_ok_iff.mp hc, checkParent_eq_ok_iff.mp hp⟩, hvacant⟩, (Except.ok.inj ha).symm, rfl⟩
  · rintro ⟨⟨hn, ⟨hc, hp⟩, hvacant⟩, rfl, rfl⟩
    exact ⟨_, ⟨hn, rfl⟩, ⟨⟩, checkCovered_eq_ok_iff.mpr hc, hvacant, ⟨⟩, checkParent_eq_ok_iff.mpr hp, _,
      Edit.addNaming_apply _ _, rfl⟩

theorem add_ok {noOp : Bool} (h : d.add e noOp = .ok (added, moved)) :
    added = e.withNaming (Dn.naming e.dn) ∧ Dn.naming e.dn ≠ [] ∧ d.Placed e.dn ∧
      moved = d.commit noOp (d.store.put added) := by
  obtain ⟨⟨hn, hp, -⟩, hadded, hmoved⟩ := add_eq_ok_iff.mp h
  exact ⟨hadded, hn, hp, hmoved⟩

theorem delete_ok {subtree noOp : Bool} (h : d.delete dn subtree noOp = .ok (e, moved)) :
    moved = d.commit noOp ((d.store.subtree dn).foldl (fun s e => s.erase e.dn) d.store) := by
  unfold delete at h
  obtain ⟨x, -, h⟩ := Except.bind_eq_ok_iff.mp h
  obtain ⟨-, h⟩ := Except.check_eq_ok_iff.mp h
  exact (Prod.mk.inj (Except.ok.inj h)).2.symm

theorem modify_ok {changes : List Change} {permissive noOp : Bool}
    (h : d.modify dn changes permissive noOp = .ok ((before, after), moved)) :
    before ∈ d.store.entries ∧ before.key = Dn.normalize dn ∧ after.dn = before.dn ∧
      after.HasNaming (Dn.naming dn) ∧ moved = d.commit noOp (d.store.put after) ∧
      Edit.apply (changes.forM fun c => Edit.change c permissive) before = .ok after := by
  unfold modify at h
  obtain ⟨x, hx, h⟩ := Except.bind_eq_ok_iff.mp h
  obtain ⟨y, hy, h⟩ := Except.bind_eq_ok_iff.mp h
  obtain ⟨⟨⟩, hn, h⟩ := Except.bind_eq_ok_iff.mp h
  obtain ⟨hxy, rfl⟩ := Prod.mk.inj (Except.ok.inj h)
  obtain ⟨rfl, rfl⟩ := Prod.mk.inj hxy
  have hkeeps : Edit.KeepsName (changes.forM fun c => Edit.change c permissive) :=
    .forM fun c => Edit.change_keepsName c permissive
  obtain ⟨hmem, hkey⟩ := require_ok hx
  exact ⟨hmem, hkey, hkeeps.apply hy, checkNaming_eq_ok_iff.mp hn, rfl, hy⟩

/-- The attribute that holds the passwords to be set. -/
def passwordAttribute (d : Directory) : String := d.passwordAttributes.headD "userPassword"

theorem setPassword_ok {password : List UInt8} (h : d.setPassword dn password = .ok moved) :
    ∃ before ∈ d.store.entries, before.key = Dn.normalize dn ∧
      moved = { d with store := d.store.put (before.replaceValues d.passwordAttribute [password]) } := by
  unfold setPassword at h
  obtain ⟨x, hx, h⟩ := Except.bind_eq_ok_iff.mp h
  obtain ⟨hmem, hkey⟩ := require_ok hx
  exact ⟨x, hmem, hkey, (Except.ok.inj h).symm⟩

/-- A renaming of plain names does not break off if no base lies below the new one. -/
theorem modifyDn_ok {ending : Renaming} (h : d.Sound) (hn : r.Plain) (hb : d.NoBaseBelow r.target)
    (hm : d.modifyDn r false = .ok ending) :
    ∃ before after store, d.Ready r before after ∧ d.Renamed r after store ∧
      ending = .done before after { d with store } := by
  rw [modifyDn_eq] at hm
  cases hp : d.planRenaming r with
  | error f => simp [hp] at hm
  | ok p =>
    have hready : d.Ready r p.1 p.2 := ⟨planRenaming_ok hp, h, hn, hb⟩
    obtain ⟨store, hs, hr⟩ := hready.moveSubtree_ok
    refine ⟨p.1, p.2, store, hready, hr, ?_⟩
    rw [hp, Except.ok_map, carryOut, hs] at hm
    exact (Except.ok.inj hm).symm

namespace Hierarchical

theorem commit (h : d.Hierarchical) {store : Store} (hs : Hierarchical { d with store }) (noOp : Bool) :
    (d.commit noOp store).Hierarchical := by
  cases noOp with
  | false => exact hs
  | true => exact h

theorem add (h : d.Hierarchical) {noOp : Bool} (ha : d.add e noOp = .ok (added, moved)) : moved.Hierarchical := by
  obtain ⟨rfl, hn, hplace, rfl⟩ := add_ok ha
  refine h.commit (h.put ?_ ?_) noOp
  · rw [Entry.dn_withNaming]
    exact Dn.split_ne_nil_of_naming hn
  · rw [Entry.dn_withNaming]
    exact hplace

theorem delete (h : d.Hierarchical) (hn : d.AllNested) {subtree noOp : Bool}
    (hd : d.delete dn subtree noOp = .ok (e, moved)) : moved.Hierarchical := by
  obtain rfl := delete_ok hd
  exact h.commit (h.remove hn fun x => Store.mem_entries_erase_subtree) noOp

/-- An entry may be put in the place of one of the same name. -/
theorem replace (h : d.Hierarchical) (he : e ∈ d.store.entries) (hdn : after.dn = e.dn) :
    Hierarchical { d with store := d.store.put after } :=
  h.put (hdn ▸ h.named e he) (hdn ▸ h.closed e he)

theorem modifyDn (h : d.Hierarchical) {noOp : Bool} {ending : Renaming} (hf : d.Fits (.modifyDn r noOp))
    (hm : d.modifyDn r noOp = .ok ending) :
    ∃ before after moved, ending = .done before after moved ∧ moved.Hierarchical := by
  obtain ⟨hplain, hr, hold, hnew, hplace⟩ := hf
  cases noOp with
  | true =>
    rw [modifyDn_noOp] at hm
    cases hp : d.planRenaming r with
    | error f => simp [hp] at hm
    | ok p => exact ⟨p.1, p.2, d, by simpa [hp] using hm.symm, h⟩
  | false =>
    obtain ⟨before, after, store, hready, hrenamed, hending⟩ := modifyDn_ok ⟨h, hplain⟩ hr hnew hm
    exact ⟨before, after, _, hending, (hready.sound_renamed hrenamed hplace hold).toHierarchical⟩

/-- An update that fits keeps the hierarchy. -/
theorem update (h : d.Hierarchical) {u : Update} (hf : d.Fits u) : (d.after u).Hierarchical := by
  cases u with
  | add dn attributes noOp =>
    simp only [Directory.after]
    split
    · exact h.add ‹_›
    · exact h
  | delete dn subtree noOp =>
    simp only [Directory.after]
    split
    · exact h.delete hf ‹_›
    · exact h
  | modify dn changes permissive noOp =>
    simp only [Directory.after]
    split
    · rename_i hm
      obtain ⟨he, -, hdn, -, rfl, -⟩ := modify_ok hm
      exact h.commit (h.replace he hdn) noOp
    · exact h
  | modifyDn r noOp =>
    simp only [Directory.after]
    split
    · rename_i hm
      obtain ⟨_, _, _, heq, hs⟩ := h.modifyDn hf hm
      obtain ⟨-, -, rfl⟩ := Renaming.done.inj heq
      exact hs
    · rename_i hm
      obtain ⟨_, _, _, heq, -⟩ := h.modifyDn hf hm
      cases heq
    · exact h
  | setPassword dn password =>
    simp only [Directory.after]
    split
    · rename_i hm
      obtain ⟨before, he, -, rfl⟩ := setPassword_ok hm
      exact h.replace he (before.dn_replaceValues _ _)
    · exact h
  | reorder store =>
    simp only [Directory.after]
    split
    · exact h.of_perm ‹_›
    · exact h

/-! ### Many updates -/

theorem empty (h : d.store.entries = []) : d.Hierarchical where
  named := by simp [h]
  closed := by simp [Closed, h]

theorem run (h : d.Hierarchical) {updates : List Update} (hf : d.AllFit updates) : (d.run updates).Hierarchical :=
  run_of_throughout (fun h hu => h.update hu) h hf.throughout

end Hierarchical

/-- The hierarchy of a directory that is empty at first stays closed under all updates that fit. -/
theorem closed_run (d : Directory) (updates : List Update) (he : d.store.entries = []) (hf : d.AllFit updates) :
    (d.run updates).Closed := ((Hierarchical.empty he).run hf).closed

theorem closed_run_people :
    let d : Directory := .ofBases ["o=x"]
    let updates : List Update := [.add "o=x" [] false, .add "ou=a,o=x" [] false, .add "cn=b,ou=a,o=x" [] false,
      .modifyDn { dn := "ou=a,o=x", newRdn := "ou=c", deleteOldRdn := true } false, .delete "ou=c,o=x" false false]
    d.store.entries = [] ∧ d.AllFit updates ∧ (d.run updates).Closed ∧
      (d.run updates).store.entries.map (·.dn) = ["o=x", "cn=b,ou=c,o=x", "ou=c,o=x"] := by
  intro d updates
  have hfit : d.AllFit updates := by
    refine ⟨fun _ => ?_, fun _ => ?_, fun _ => ?_, fun _ => ?_, fun _ => ?_, trivial⟩ <;> decide +kernel
  exact ⟨rfl, hfit, closed_run d updates rfl hfit, by decide +kernel⟩

/-- A new relative name that is two, and a base that is renamed below another one, lead to entries without a place. So
does the removal of an entry from above another one that is not kept below it: where an escaped blank is cut off at the
end of a relative name, its backslash stays and escapes the comma behind it in the name above. -/
theorem not_closed_run :
    ¬ ((ofBases ["o=x"]).run [.add "o=x" [] false, .add "ou=a,o=x" [] false,
      .modifyDn { dn := "ou=a,o=x", newRdn := "cn=b,ou=c", deleteOldRdn := false } false]).Closed ∧
    ¬ ((ofBases ["o=x", "ou=a,o=x"]).run [.add "ou=a,o=x" [] false,
      .modifyDn { dn := "ou=a,o=x", newRdn := "ou=b", deleteOldRdn := false } false]).Closed ∧
    ¬ ((ofBases ["o=x"]).run [.add "o=x" [] false, .add "z=1\\,a = 2,o=x" [] false,
      .add "cn=q,z=1\\ ,a = 2,o=x" [] false, .delete "z=1\\,a = 2,o=x" false false]).Closed := by
  decide +kernel

/-- A renaming loses no entry and changes none but as it should. -/
theorem renaming_keeps (d : Directory) (updates : List Update) (he : d.store.entries = []) (hf : d.AllFit updates)
    (hp : (d.run updates).AllPlain) (r : ModifyDnRequest) (hn : r.Plain) (hb : (d.run updates).NoBaseBelow r.target)
    (ending : Renaming) (hok : (d.run updates).modifyDn r false = .ok ending) :
    ∃ before after moved, ending = .done before after moved ∧ after.dn = r.target ∧
      moved.size = (d.run updates).size ∧
      (∀ e ∈ (d.run updates).store.entries, ¬ Dn.isWithin e.key (Dn.normalize r.dn) → e ∈ moved.store.entries) ∧
      ∀ e ∈ (d.run updates).store.entries, Dn.isWithin e.key (Dn.normalize r.dn) → e.key ≠ Dn.normalize r.dn →
        e.rename (Dn.relocated r.dn r.target e.dn) ∈ moved.store.entries ∧
        Dn.split (Dn.relocated r.dn r.target e.dn) = Dn.leading e.dn r.dn ++ Dn.split r.target := by
  have hs : (d.run updates).Sound := ⟨(Hierarchical.empty he).run hf, hp⟩
  obtain ⟨before, after, store, hready, hr, hending⟩ := modifyDn_ok hs hn hb hok
  refine ⟨before, after, _, hending, hready.dn_after, hr.size, fun e he hw => ?_, fun e he hw hne => ?_⟩
  · exact (hr.mem_iff e).mpr (.inr (.inl ⟨he, hw⟩))
  · have hbelow : e ∈ (d.run updates).below r := mem_below.mpr ⟨he, hw, hne⟩
    exact ⟨(hr.mem_iff _).mpr (.inr (.inr ⟨e, hbelow, rfl⟩)), hready.split_relocated hbelow⟩

theorem renaming_keeps_people :
    let d : Directory := .ofBases ["o=x"]
    let updates : List Update := [.add "o=x" [] false, .add "ou=a,o=x" [] false, .add "cn=b,ou=a,o=x" [] false]
    let r : ModifyDnRequest := { dn := "ou=a,o=x", newRdn := "ou=c", deleteOldRdn := true }
    d.AllFit updates ∧ (d.run updates).AllPlain ∧ r.Plain ∧ (d.run updates).NoBaseBelow r.target ∧
      ∃ before after moved, (d.run updates).modifyDn r false = .ok (.done before after moved) ∧
        after.dn = "ou=c,o=x" ∧ moved.size = 3 ∧ ∃ e ∈ moved.store.entries, e.dn = "cn=b,ou=c,o=x" := by
  intro d updates r
  have hfit : d.AllFit updates := by
    refine ⟨fun _ => ?_, fun _ => ?_, fun _ => ?_, trivial⟩ <;> decide +kernel
  have hall : (d.run updates).AllPlain := by decide +kernel
  have hplain : r.Plain := by decide +kernel
  have hbase : (d.run updates).NoBaseBelow r.target := by decide +kernel
  have hsize : (d.run updates).size = 3 := by decide +kernel
  have htarget : r.target = "ou=c,o=x" := by decide +kernel
  have hbelow : ∃ e ∈ (d.run updates).store.entries, Dn.isWithin e.key (Dn.normalize r.dn) ∧
      e.key ≠ Dn.normalize r.dn ∧ Dn.relocated r.dn r.target e.dn = "cn=b,ou=c,o=x" := by
    decide +kernel
  have hsome : ((d.run updates).modifyDn r false).isOk = true := by decide +kernel
  cases hok : (d.run updates).modifyDn r false with
  | error f => simp [hok, Except.isOk, Except.toBool] at hsome
  | ok ending =>
    obtain ⟨before, after, moved, rfl, hdn, hmoved, -, hkeeps⟩ :=
      renaming_keeps d updates rfl hfit hall r hplain hbase ending hok
    obtain ⟨e, he, hw, hne, hname⟩ := hbelow
    exact ⟨hfit, hall, hplain, hbase, before, after, moved, rfl, hdn.trans htarget, hmoved.trans hsize,
      _, (hkeeps e he hw hne).1, hname⟩

/-- A renaming may put an entry in the place of another one, if that is a base below the new name. -/
theorem not_renaming_keeps_base :
    let d := (ofBases ["o=x", "cn=c,ou=b,o=x"]).run [.add "o=x" [] false, .add "ou=a,o=x" [] false,
      .add "cn=c,ou=a,o=x" [] false, .add "cn=c,ou=b,o=x" [] false]
    let r : ModifyDnRequest := { dn := "ou=a,o=x", newRdn := "ou=b", deleteOldRdn := false }
    d.size = 4 ∧ (match d.modifyDn r false with
      | .ok (.done _ _ moved) => some moved.size
      | _ => none) = some 3 := by
  decide +kernel

end Directory

end Ldap
