import Ldap.Proofs.Directory.Written
import Ldap.Proofs.Entry.Table

/-! Stored entries have their attributes as tables: with names that are different up to ASCII case, and none of them
without values. No update stores an entry that an edit has left halfway, whether it succeeds or not, and if a renaming
breaks off, no entry is lost but as a whole. -/

namespace Ldap.Directory

variable {d : Directory} {u : Update} {x : Entry}

/-- Every entry has its attributes as a table. -/
def AllTidy (d : Directory) : Prop := ∀ e ∈ d.store.entries, e.Tidy

theorem removeOldNaming_preserves_tidy (dn : String) (cs : List Dn.NameValue) :
    Edit.Preserves Entry.Tidy (removeOldNaming dn cs) := by
  refine .forM fun c _ => ?_
  dsimp only
  split
  · exact Edit.removeValues_preserves_tidy _ _ _
  · exact .pure

theorem editOf_preserves_tidy (r : ModifyDnRequest) : Edit.Preserves Entry.Tidy (editOf r) := by
  unfold editOf
  split
  · exact .bind (removeOldNaming_preserves_tidy _ _) (Edit.addNaming_preserves_tidy _)
  · exact Edit.addNaming_preserves_tidy _

/-- What an update stores is a table, if all entries were before. -/
theorem Written.tidy (h : d.Written u x) (hd : d.AllTidy) : x.Tidy := by
  cases h with
  | added attributes noOp named => exact (Entry.tidy_ofAttributes _ attributes).withNaming _
  | edited changes permissive noOp stored key dn_after naming edited =>
    refine Edit.Preserves.apply ?_ (hd _ stored) edited
    exact .forM fun c _ => Edit.change_preserves_tidy c permissive
  | renamed noOp planned => exact (editOf_preserves_tidy _).apply ((hd _ planned.stored).rename _) planned.edited
  | moved noOp planned below hname => exact (hd _ (mem_below.mp below).1).rename _
  | newPassword password stored key => exact (hd _ stored).replaceValues

theorem AllTidy.update (h : d.AllTidy) (u : Update) : (d.after u).AllTidy := by
  intro x hx
  rcases mem_after hx with hx | hw
  · exact h x hx
  · exact hw.tidy h

/-- In a directory that is empty at first, all entries have attributes with different names and none without values,
whatever updates are made. -/
theorem tidy_run (d : Directory) (updates : List Update) (he : d.store.entries = []) :
    ∀ e ∈ (d.run updates).store.entries,
      (e.attributes.Pairwise fun a b => ¬ Text.sameText a.name b.name) ∧ ∀ a ∈ e.attributes, a.values ≠ [] := by
  have hempty : d.AllTidy := by simp [AllTidy, he]
  have hrun : (d.run updates).AllTidy :=
    List.foldlRecOn (motive := AllTidy) updates _ hempty fun _ hd u _ => hd.update u
  exact fun e hmem => ⟨(hrun e hmem).distinct, (hrun e hmem).filled⟩

theorem tidy_run_people :
    let d : Directory := .ofBases ["o=x"]
    let p := "cn=p,o=x"
    let updates : List Update := [.add "o=x" [] false,
      .add p [⟨"sn", [[65]]⟩, ⟨"SN", [[97], [98]]⟩, ⟨"pin", []⟩, ⟨"n", [[49]]⟩] false,
      .modify p [⟨.delete, "sn", [[65], [98]]⟩, ⟨.increment, "N", [[50]]⟩, ⟨.add, "mail", [[99]]⟩] false false,
      .modify p [⟨.delete, "mail", [[99]]⟩, ⟨.delete, "mail", [[99]]⟩] false false,
      .modifyDn { dn := p, newRdn := "uid=q", deleteOldRdn := true } false,
      .setPassword "uid=q,o=x" [100], .delete "o=x" false false]
    d.store.entries = [] ∧
      (∀ e ∈ (d.run updates).store.entries,
        (e.attributes.Pairwise fun a b => ¬ Text.sameText a.name b.name) ∧ ∀ a ∈ e.attributes, a.values ≠ []) ∧
      (d.run updates).store.entries = [⟨"o=x", [⟨"o", [[120]]⟩]⟩,
        ⟨"uid=q,o=x", [⟨"n", [[51]]⟩, ⟨"mail", [[99]]⟩, ⟨"uid", [[113]]⟩, ⟨"userPassword", [[100]]⟩]⟩] := by
  intro d p updates
  exact ⟨rfl, tidy_run d updates rfl, by decide +kernel⟩

end Ldap.Directory
