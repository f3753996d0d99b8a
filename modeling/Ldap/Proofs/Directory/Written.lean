import Ldap.Proofs.Directory.Run

/-! What an update may leave in the store, besides entries that were there before: one case for each way in which an
entry is put there. A renaming that breaks off leaves no others. -/

namespace Ldap.Directory

variable {d : Directory} {dn newDn : String} {x : Entry}

/-- An entry that an update may put into the store. -/
inductive Written (d : Directory) : Update → Entry → Prop
  | added {dn : String} (attributes : List Attribute) (noOp : Bool) (named : Dn.naming dn ≠ []) :
    Written d (.add dn attributes noOp) ((Entry.ofAttributes dn attributes).withNaming (Dn.naming dn))
  | edited {dn : String} (changes : List Change) (permissive noOp : Bool) {before after : Entry}
    (stored : before ∈ d.store.entries) (key : before.key = Dn.normalize dn) (dn_after : after.dn = before.dn)
    (naming : after.HasNaming (Dn.naming dn))
    (edited : Edit.apply (changes.forM fun c => Edit.change c permissive) before = .ok after) :
    Written d (.modify dn changes permissive noOp) after
  | renamed {r : ModifyDnRequest} (noOp : Bool) {before after : Entry} (planned : d.Planned r before after) :
    Written d (.modifyDn r noOp) after
  | moved {r : ModifyDnRequest} (noOp : Bool) {before after e : Entry} {name : String}
    (planned : d.Planned r before after) (below : e ∈ d.below r) (hname : movedName? r.dn r.target e.dn = some name) :
    Written d (.modifyDn r noOp) (e.rename name)
  | newPassword {dn : String} (password : List UInt8) {before : Entry} (stored : before ∈ d.store.entries)
    (key : before.key = Dn.normalize dn) :
    Written d (.setPassword dn password) (before.replaceValues d.passwordAttribute [password])

theorem mem_commit {store : Store} {noOp : Bool} (h : x ∈ (d.commit noOp store).store.entries) :
    x ∈ d.store.entries ∨ x ∈ store.entries := by
  cases noOp with
  | false => exact .inr h
  | true => exact .inl h

/-- The entries below a renamed one are moved or stay, also if the moving breaks off. -/
theorem mem_moveBelow {es : List Entry} {s store : Store}
    (h : moveBelow dn newDn es s = .ok store ∨ moveBelow dn newDn es s = .error store) (hx : x ∈ store.entries) :
    x ∈ s.entries ∨ ∃ e ∈ es, ∃ name, movedName? dn newDn e.dn = some name ∧ x = e.rename name := by
  induction es generalizing s with
  | nil =>
    rcases h with h | h <;> cases h
    exact .inl hx
  | cons e rest ih =>
    unfold moveBelow at h
    split at h
    · rename_i name hname
      rcases ih h with hs | ⟨y, hy, moved, hmoved, rfl⟩
      · rcases Store.mem_entries_put.mp hs with ⟨hs, -⟩ | rfl
        · exact .inl (Store.mem_entries_erase.mp hs).1
        · exact .inr ⟨e, by simp, name, hname, rfl⟩
      · exact .inr ⟨y, List.mem_cons_of_mem _ hy, moved, hmoved, rfl⟩
    · rcases h with h | h <;> cases h
      exact .inl (Store.mem_entries_erase.mp hx).1

theorem mem_moveSubtree {r : ModifyDnRequest} {after : Entry} {store : Store}
    (h : moveSubtree d.store r.dn after = .ok store ∨ moveSubtree d.store r.dn after = .error store)
    (hx : x ∈ store.entries) :
    x ∈ d.store.entries ∨ x = after ∨
      ∃ e ∈ d.below r, ∃ name, movedName? r.dn after.dn e.dn = some name ∧ x = e.rename name := by
  have hbelow : ∀ s, moveBelow r.dn after.dn (d.below r) (d.store.erase r.dn) = .ok s ∨
      moveBelow r.dn after.dn (d.below r) (d.store.erase r.dn) = .error s → x ∈ s.entries →
      x ∈ d.store.entries ∨ ∃ e ∈ d.below r, ∃ name, movedName? r.dn after.dn e.dn = some name ∧ x = e.rename name :=
    fun s hs hmem => (mem_moveBelow hs hmem).imp_left fun hmem => (Store.mem_entries_erase.mp hmem).1
  have hsteps : moveSubtree d.store r.dn after = (do
      return (← moveBelow r.dn after.dn (d.below r) (d.store.erase r.dn)).put after) := rfl
  rw [hsteps] at h
  cases hm : moveBelow r.dn after.dn (d.below r) (d.store.erase r.dn) with
  | error s =>
    rw [hm] at h
    obtain rfl : s = store := by simpa using h
    exact (hbelow s (.inr hm) hx).imp_right .inr
  | ok s =>
    rw [hm] at h
    obtain rfl : s.put after = store := by simpa [pure, Except.pure] using h
    rcases Store.mem_entries_put.mp hx with ⟨hmem, -⟩ | rfl
    · exact (hbelow s (.inl hm) hmem).imp_right .inr
    · exact .inr (.inl rfl)

/-- An update leaves entries that were there before, and those that it writes. -/
theorem mem_after {u : Update} (h : x ∈ (d.after u).store.entries) : x ∈ d.store.entries ∨ d.Written u x := by
  cases u with
  | add dn attributes noOp =>
    simp only [after] at h
    split at h
    · rename_i added moved ha
      obtain ⟨rfl, hn, -, rfl⟩ := add_ok ha
      rw [Entry.dn_ofAttributes] at hn h
      refine (mem_commit h).elim .inl fun h => ?_
      rcases Store.mem_entries_put.mp h with ⟨h, -⟩ | rfl
      · exact .inl h
      · exact .inr (.added attributes noOp hn)
    · exact .inl h
  | delete dn subtree noOp =>
    simp only [after] at h
    split at h
    · rename_i e moved hd
      obtain rfl := delete_ok hd
      exact .inl ((mem_commit h).elim id fun h => (Store.mem_entries_foldl_erase.mp h).1)
    · exact .inl h
  | modify dn changes permissive noOp =>
    simp only [after] at h
    split at h
    · rename_i p moved hm
      obtain ⟨before, after⟩ := p
      obtain ⟨hmem, hk, hdn, hn, rfl, hedit⟩ := modify_ok hm
      refine (mem_commit h).elim .inl fun h => ?_
      rcases Store.mem_entries_put.mp h with ⟨h, -⟩ | rfl
      · exact .inl h
      · exact .inr (.edited changes permissive noOp hmem hk hdn hn hedit)
    · exact .inl h
  | modifyDn r noOp =>
    simp only [after] at h
    cases noOp with
    | true =>
      rw [modifyDn_noOp] at h
      cases hp : d.planRenaming r <;> exact .inl (by simpa [hp] using h)
    | false =>
      rw [modifyDn_eq] at h
      cases hp : d.planRenaming r with
      | error f => exact .inl (by simpa [hp] using h)
      | ok p =>
        have hplanned : d.Planned r p.1 p.2 := planRenaming_ok hp
        have hmoved : x ∈ d.store.entries ∨ x = p.2 ∨
            ∃ e ∈ d.below r, ∃ name, movedName? r.dn p.2.dn e.dn = some name ∧ x = e.rename name := by
          rw [hp, Except.ok_map, carryOut] at h
          cases hm : moveSubtree d.store r.dn p.2 <;> rw [hm] at h
          · exact mem_moveSubtree (.inr hm) h
          · exact mem_moveSubtree (.inl hm) h
        rcases hmoved with hx | rfl | ⟨e, he, name, hname, rfl⟩
        · exact .inl hx
        · exact .inr (.renamed false hplanned)
        · exact .inr (.moved false hplanned he (hplanned.dn_after ▸ hname))
  | setPassword dn password =>
    simp only [after] at h
    split at h
    · rename_i moved hs
      obtain ⟨before, hmem, hk, rfl⟩ := setPassword_ok hs
      rcases Store.mem_entries_put.mp h with ⟨h, -⟩ | rfl
      · exact .inl h
      · exact .inr (.newPassword password hmem hk)
    · exact .inl h
  | reorder store =>
    simp only [after] at h
    split at h
    · rename_i hp
      exact .inl (hp.mem_iff.mp h)
    · exact .inl h

/-- An update changes nothing but the store. -/
theorem after_store_only (d : Directory) (u : Update) : d.after u = { d with store := (d.after u).store } := by
  have hcommit : ∀ noOp store, d.commit noOp store = { d with store := (d.commit noOp store).store } := by
    intro noOp store
    cases noOp <;> rfl
  cases u with
  | add dn attributes noOp =>
    simp only [after]
    split
    · obtain ⟨-, -, -, rfl⟩ := add_ok ‹_›
      exact hcommit noOp _
    · rfl
  | delete dn subtree noOp =>
    simp only [after]
    split
    · obtain rfl := delete_ok ‹_›
      exact hcommit noOp _
    · rfl
  | modify dn changes permissive noOp =>
    simp only [after]
    split
    · rename_i p moved hm
      obtain ⟨before, after⟩ := p
      obtain ⟨-, -, -, -, rfl, -⟩ := modify_ok hm
      exact hcommit noOp _
    · rfl
  | modifyDn r noOp =>
    simp only [after]
    cases noOp with
    | true =>
      rw [modifyDn_noOp]
      cases d.planRenaming r <;> rfl
    | false =>
      rw [modifyDn_eq]
      cases d.planRenaming r with
      | error f => rfl
      | ok p =>
        rw [Except.ok_map, carryOut]
        cases moveSubtree d.store r.dn p.2 <;> rfl
  | setPassword dn password =>
    simp only [after]
    split
    · obtain ⟨_, -, -, rfl⟩ := setPassword_ok ‹_›
      rfl
    · rfl
  | reorder store =>
    simp only [after]
    split <;> rfl

end Ldap.Directory
