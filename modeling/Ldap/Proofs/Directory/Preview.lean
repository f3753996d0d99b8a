import Ldap.Directory.Update
import Ldap.Proofs.Except

/-! Updates of a directory that are only previewed. They make the same checks and answer the same entries, and leave the
directory as it is. A renaming that has passed its checks may still break off, at an entry that is kept below the
renamed one by its key and yet has fewer relative names. -/

namespace Ldap.Directory

variable {d : Directory} {dn : String}

theorem add_noOp (e : Entry) : d.add e true = (d.add e false).map fun r => (r.1, d) := by
  simp only [add, Except.map_bind]
  refine bind_congr fun components => bind_congr fun _ => ?_
  split
  · rfl
  · simp only [Except.map_bind]
    rfl

theorem delete_noOp (subtree : Bool) :
    d.delete dn subtree true = (d.delete dn subtree false).map fun r => (r.1, d) := by
  simp only [delete, Except.map_bind]
  refine bind_congr fun e => ?_
  split <;> rfl

theorem modify_noOp (changes : List Change) (permissive : Bool) :
    d.modify dn changes permissive true = (d.modify dn changes permissive false).map fun r => (r.1, d) := by
  simp only [modify, Except.map_bind]
  rfl

/-! ### Renaming -/

/-- Some entry is kept below a name by its key, and yet has fewer relative names. -/
def HasShorter (d : Directory) (dn : String) : Prop :=
  ∃ e ∈ d.store.subtree dn, Dn.normalize e.dn ≠ Dn.normalize dn ∧
    (Dn.split e.dn).length < (Dn.split dn).length

instance (d : Directory) (dn : String) : Decidable (d.HasShorter dn) :=
  inferInstanceAs (Decidable (∃ e ∈ d.store.subtree dn, _))

theorem movedName?_eq_none_iff {newDn sub : String} :
    movedName? dn newDn sub = none ↔ (Dn.split sub).length < (Dn.split dn).length := by
  simp [movedName?]

/-- The entries below a renamed one are moved up to the first one that has no new name. -/
theorem moveBelow_fails_iff {newDn : String} {es : List Entry} {s : Store} :
    (∃ s', moveBelow dn newDn es s = .error s') ↔ ∃ e ∈ es, movedName? dn newDn e.dn = none := by
  induction es generalizing s with
  | nil => simp [moveBelow]
  | cons e rest ih =>
    rcases hn : movedName? dn newDn e.dn with _ | name
    · simp [moveBelow, hn]
    · simp [moveBelow, hn, ih]

theorem moveSubtree_fails_iff {after : Entry} :
    (∃ s, moveSubtree d.store dn after = .error s) ↔ d.HasShorter dn := by
  let below := (d.store.subtree dn).filter fun e => Dn.normalize e.dn != Dn.normalize dn
  have hmem : (∃ e ∈ below, movedName? dn after.dn e.dn = none) ↔ d.HasShorter dn := by
    simp [below, HasShorter, and_assoc, movedName?_eq_none_iff]
  rw [← hmem, ← moveBelow_fails_iff (s := d.store.erase dn)]
  simp only [moveSubtree]
  cases moveBelow dn after.dn below (d.store.erase dn) <;> simp [pure, Except.pure]

/-- A planned renaming is carried out. -/
def carryOut (d : Directory) (dn : String) (before after : Entry) : Renaming :=
  match moveSubtree d.store dn after with
  | .ok store => .done before after { d with store }
  | .error store => .brokenOff { d with store }

theorem carryOut_done {before after b a : Entry} {moved : Directory}
    (h : d.carryOut dn before after = .done b a moved) : b = before ∧ a = after := by
  unfold carryOut at h
  split at h <;> simp_all

theorem carryOut_brokenOff_iff {before after : Entry} :
    (∃ moved, d.carryOut dn before after = .brokenOff moved) ↔ d.HasShorter dn := by
  have hfails : (∃ s, moveSubtree d.store dn after = .error s) ↔ d.HasShorter dn := moveSubtree_fails_iff
  rw [← hfails, carryOut]
  cases moveSubtree d.store dn after <;> simp

theorem modifyDn_noOp (r : ModifyDnRequest) :
    d.modifyDn r true = (d.planRenaming r).map fun p => .done p.1 p.2 d := by
  simp only [modifyDn]
  cases d.planRenaming r <;> rfl

theorem modifyDn_eq (r : ModifyDnRequest) :
    d.modifyDn r false = (d.planRenaming r).map fun p => d.carryOut r.dn p.1 p.2 := by
  simp only [modifyDn, carryOut]
  rcases d.planRenaming r with f | ⟨before, after⟩
  · rfl
  · cases hm : moveSubtree d.store r.dn after <;> simp [hm, pure, Except.pure]

/-- A renaming that is not just previewed breaks off where some entry below has no new name. -/
theorem modifyDn_brokenOff_iff (r : ModifyDnRequest) (noOp : Bool) :
    (∃ moved, d.modifyDn r noOp = .ok (.brokenOff moved)) ↔
      noOp = false ∧ (∃ p, d.planRenaming r = .ok p) ∧ d.HasShorter r.dn := by
  cases noOp with
  | true =>
    rw [modifyDn_noOp]
    cases d.planRenaming r <;> simp
  | false =>
    rw [modifyDn_eq]
    cases hp : d.planRenaming r with
    | error f => simp
    | ok p => simp [carryOut_brokenOff_iff]

end Ldap.Directory
