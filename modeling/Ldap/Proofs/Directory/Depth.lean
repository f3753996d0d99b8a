import Ldap.Proofs.Directory.Scope

/-! How deep entries lie below one that is renamed. What is moved along with it is told by keys, and how many of its
relative names go along by counting those of the names. The two fit together as long as an entry does not lie below the
renamed one by commas in its values alone. Where they do not, an entry may be moved without a relative name of its own,
or the renaming breaks off and entries are lost. -/

namespace Ldap.Directory

variable {d : Directory} {r : ModifyDnRequest} {before after e : Entry} {moved : Directory}

/-- What is moved along with a renamed entry has more relative names than that. -/
def MovesDeeper (d : Directory) (r : ModifyDnRequest) : Prop :=
  ∀ e ∈ d.below r, (Dn.split r.dn).length < (Dn.split e.dn).length

instance (d : Directory) (r : ModifyDnRequest) : Decidable (d.MovesDeeper r) :=
  inferInstanceAs (Decidable (∀ e ∈ d.below r, _))

/-! ### Counting -/

/-- The key of what is moved along is that of the renamed entry with something in front of it. -/
theorem exists_front_of_mem_below (hk : Dn.normalize r.dn ≠ "") (he : e ∈ d.below r) :
    ∃ front ≠ [], Dn.keyPieces e.dn = front ++ Dn.keyPieces r.dn := by
  obtain ⟨-, hw, hne⟩ := mem_below.mp he
  obtain ⟨front, hfront⟩ := (Dn.isWithin_normalize_iff_of_ne_empty hk).mp hw
  refine ⟨front, ?_, hfront.symm⟩
  rintro rfl
  have hr : Dn.rdns r.dn ≠ [] := mt Dn.normalize_of_rdns_nil hk
  have hx : Dn.rdns e.dn ≠ [] := by
    rw [Ne, ← Dn.keyPieces_eq_nil_iff, ← hfront]
    exact mt Dn.keyPieces_eq_nil_iff.mp hr
  exact hne ((Dn.normalize_eq_iff_of_ne_nil hx hr).mpr hfront.symm)

/-- Of two names whose keys end alike the first is longer just if it does not make up for what its key has in front by
commas in its values. -/
theorem longer_iff {a b : String} {front : List (List Char)} (h : Dn.keyPieces a = front ++ Dn.keyPieces b) :
    (Dn.split b).length < (Dn.split a).length ↔ Dn.commas a < front.length + Dn.commas b := by
  have hl := congrArg List.length h
  rw [List.length_append, Dn.length_keyPieces, Dn.length_keyPieces, Dn.length_rdns, Dn.length_rdns] at hl
  omega

theorem TellsBelow.movesDeeper (hk : Dn.normalize r.dn ≠ "") (h : d.TellsBelow r.dn) : d.MovesDeeper r := by
  intro e he
  obtain ⟨hstored, hw, -⟩ := mem_below.mp he
  exact length_lt_of_suffix he (h e hstored ((Dn.isWithin_normalize_iff_of_ne_empty hk).mp hw))

/-! ### Moving -/

theorem hasShorter_iff : d.HasShorter r.dn ↔ ∃ e ∈ d.below r, (Dn.split e.dn).length < (Dn.split r.dn).length := by
  simp [HasShorter, below, and_assoc]

/-- Each entry takes along the relative names that the renamed one does not have. -/
theorem MovesDeeper.movedName? (h : d.MovesDeeper r) (he : e ∈ d.below r) (newDn : String) :
    Dn.leading e.dn r.dn ≠ [] ∧ Directory.movedName? r.dn newDn e.dn = some (Dn.relocated r.dn newDn e.dn) := by
  have hlt := h e he
  refine ⟨List.length_pos_iff.mp ?_, Dn.movedName?_eq (Nat.le_of_lt hlt)⟩
  rw [Dn.length_leading]
  omega

theorem MovesDeeper.modifyDn (h : d.MovesDeeper r) (hp : d.planRenaming r = .ok (before, after)) :
    ∃ moved, d.modifyDn r false = .ok (.done before after moved) := by
  have hshorter : ¬ d.HasShorter r.dn := by
    rw [hasShorter_iff]
    rintro ⟨e, he, hlt⟩
    exact absurd (h e he) (Nat.not_lt_of_lt hlt)
  rw [modifyDn_eq, hp, Except.ok_map]
  cases hc : d.carryOut r.dn before after with
  | done b a moved =>
    obtain ⟨rfl, rfl⟩ := carryOut_done hc
    exact ⟨moved, rfl⟩
  | brokenOff moved => exact absurd (carryOut_brokenOff_iff.mp ⟨moved, hc⟩) hshorter

theorem brokenOff_iff (hp : d.planRenaming r = .ok (before, after)) :
    (∃ moved, d.modifyDn r false = .ok (.brokenOff moved)) ↔
      ∃ e ∈ d.below r, (Dn.split e.dn).length < (Dn.split r.dn).length := by
  rw [modifyDn_brokenOff_iff, hasShorter_iff]
  exact ⟨fun h => h.2.2, fun h => ⟨rfl, ⟨_, hp⟩, h⟩⟩

theorem moveSubtree_eq (d : Directory) (r : ModifyDnRequest) (after : Entry) : moveSubtree d.store r.dn after =
    (moveBelow r.dn after.dn (d.below r) (d.store.erase r.dn)).map (·.put after) := by
  simp only [moveSubtree, below]
  cases moveBelow r.dn after.dn ((d.store.subtree r.dn).filter fun e => Dn.normalize e.dn != Dn.normalize r.dn)
    (d.store.erase r.dn) <;> rfl

/-- A renaming that breaks off has removed the renamed entry, and one more. -/
theorem size_of_brokenOff (hp : d.planRenaming r = .ok (before, after))
    (h : d.modifyDn r false = .ok (.brokenOff moved)) : moved.size + 2 ≤ d.size := by
  have hplanned : d.Planned r before after := planRenaming_ok hp
  have hkeys : ∀ e ∈ d.below r, e.key ∈ (d.store.erase r.dn).keys := by
    intro e he
    obtain ⟨hstored, -, hne⟩ := mem_below.mp he
    exact List.mem_map_of_mem (Store.mem_entries_erase.mpr ⟨hstored, hne⟩)
  have hsub : (d.below r).Sublist d.store.entries := List.filter_sublist.trans (List.filter_sublist.map _)
  have hnodup : ((d.below r).map Entry.key).Nodup := (hsub.map _).nodup d.store.nodup_keys
  have herase : (d.store.erase r.dn).size + 1 = d.store.size :=
    Store.size_erase (hplanned.key_before ▸ List.mem_map_of_mem hplanned.stored)
  rw [modifyDn_eq, hp, Except.ok_map, carryOut, moveSubtree_eq] at h
  cases hm : moveBelow r.dn after.dn (d.below r) (d.store.erase r.dn) with
  | ok store =>
    rw [hm] at h
    cases h
  | error store =>
    rw [hm] at h
    cases h
    have hlost := size_of_moveBelow_error hkeys hnodup hm
    change store.size + 2 ≤ d.store.size
    omega

/-- In a directory that is empty at first, what is moved along with a renamed entry has more relative names than that
just if its name does not have as many more commas in values as there are pieces in front in its key. If all of it has
more, the renaming is carried out, and each entry takes relative names of its own along. The renaming breaks off just if
some of it has fewer, and has then lost entries. All of it has more where no comma in a value is taken for a
separator. -/
theorem deeper_run (d : Directory) (updates : List Update) (r : ModifyDnRequest) (before after : Entry)
    (he : d.store.entries = []) (hp : (d.run updates).planRenaming r = .ok (before, after)) :
    (∀ e ∈ (d.run updates).below r, ∃ front ≠ [], Dn.keyPieces e.dn = front ++ Dn.keyPieces r.dn ∧
      ((Dn.split r.dn).length < (Dn.split e.dn).length ↔ Dn.commas e.dn < front.length + Dn.commas r.dn)) ∧
    ((d.run updates).MovesDeeper r →
      (∃ moved, (d.run updates).modifyDn r false = .ok (.done before after moved)) ∧
      ∀ e ∈ (d.run updates).below r, Dn.leading e.dn r.dn ≠ [] ∧
        movedName? r.dn after.dn e.dn = some (Dn.relocated r.dn after.dn e.dn)) ∧
    ((∃ moved, (d.run updates).modifyDn r false = .ok (.brokenOff moved)) ↔
      ∃ e ∈ (d.run updates).below r, (Dn.split e.dn).length < (Dn.split r.dn).length) ∧
    (∀ moved, (d.run updates).modifyDn r false = .ok (.brokenOff moved) → moved.size + 2 ≤ (d.run updates).size) ∧
    ((d.run updates).TellsBelow r.dn → (d.run updates).MovesDeeper r) ∧
    (Dn.Named r.dn → Dn.Legible r.dn → (∀ e ∈ (d.run updates).store.entries, Dn.Named e.dn ∧ Dn.Legible e.dn) →
      (d.run updates).MovesDeeper r) := by
  have hplanned : (d.run updates).Planned r before after := planRenaming_ok hp
  have hk : Dn.normalize r.dn ≠ "" := hplanned.key_before ▸ key_ne_empty_run he hplanned.stored
  refine ⟨fun e hbelow => ?_, fun h => ⟨h.modifyDn hp, fun e hbelow => h.movedName? hbelow after.dn⟩, brokenOff_iff hp,
    fun moved hm => size_of_brokenOff hp hm, fun ht => ht.movesDeeper hk, fun hn hl hall => ?_⟩
  · obtain ⟨front, hne, hfront⟩ := exists_front_of_mem_below hk hbelow
    exact ⟨front, hne, hfront, longer_iff hfront⟩
  · exact TellsBelow.movesDeeper hk fun e hstored =>
      Dn.suffix_of_keyPieces_suffix (hall e hstored).1 hn (hall e hstored).2 hl

theorem deeper_run_people :
    let d : Directory := .ofBases ["o=x"]
    let updates : List Update := [.add "o=x" [] false, .add "ou=a\\,b,o=x" [] false,
      .add "cn=Doe\\, J,ou=a\\,b,o=x" [] false]
    let r : ModifyDnRequest := { dn := "OU=a\\,B;o=X", newRdn := "ou=c", deleteOldRdn := true }
    d.store.entries = [] ∧ (d.run updates).MovesDeeper r ∧
      ∃ before after moved, (d.run updates).planRenaming r = .ok (before, after) ∧
        (d.run updates).modifyDn r false = .ok (.done before after moved) ∧
        ∃ e ∈ (d.run updates).below r, movedName? r.dn after.dn e.dn = some (Dn.relocated r.dn after.dn e.dn) := by
  intro d updates r
  have hn : Dn.Named r.dn := by decide +kernel
  have hl : Dn.Legible r.dn := by decide +kernel
  have hall : ∀ e ∈ (d.run updates).store.entries, Dn.Named e.dn ∧ Dn.Legible e.dn := by decide +kernel
  have hsome : ((d.run updates).planRenaming r).isOk = true := by decide +kernel
  have hbelow : ∃ e ∈ (d.run updates).below r, e.dn = "cn=Doe\\, J,ou=a\\,b,o=x" := by decide +kernel
  cases hp : (d.run updates).planRenaming r with
  | error f => simp [hp, Except.isOk, Except.toBool] at hsome
  | ok p =>
    obtain ⟨before, after⟩ := p
    obtain ⟨-, hdone, -, -, -, hlegible⟩ := deeper_run d updates r before after rfl hp
    have hdeeper := hlegible hn hl hall
    obtain ⟨⟨moved, hmoved⟩, hnames⟩ := hdone hdeeper
    obtain ⟨e, he, -⟩ := hbelow
    exact ⟨rfl, hdeeper, before, after, moved, rfl, hmoved, e, he, (hnames e he).2⟩

/-- Of two entries that lie below others by commas in their values alone, one has as many relative names as the entry
that is renamed, and takes none along, and one has fewer, so that the renaming breaks off. -/
theorem not_deeper_run :
    let level := (ofBases ["c=y"]).run [.add "c=y" [] false, .add "o=x,c=y" [] false, .add "cn=a\\,o=x,c=y" [] false]
    let higher := (ofBases ["c=y"]).run [.add "c=y" [] false, .add "c=y,c=y" [] false, .add "o=x,c=y,c=y" [] false,
      .add "cn=a\\,o=x\\,c=y,c=y" [] false]
    let r : ModifyDnRequest := { dn := "o=x,c=y", newRdn := "o=z", deleteOldRdn := true }
    let q : ModifyDnRequest := { dn := "o=x,c=y,c=y", newRdn := "o=z", deleteOldRdn := true }
    (¬ level.MovesDeeper r ∧ (match level.modifyDn r false with
      | .ok (.done _ _ moved) => some (moved.store.entries.map (·.dn))
      | _ => none) = some ["c=y", ",o=z,c=y", "o=z,c=y"]) ∧
    ¬ higher.MovesDeeper q ∧ (match higher.modifyDn q false with
      | .ok (.brokenOff moved) => some (moved.store.entries.map (·.dn))
      | _ => none) = some ["c=y", "c=y,c=y"] := by
  decide +kernel

end Ldap.Directory
