import Ldap.Config.Build
import Ldap.Proofs.Directory.Run
import Ldap.Proofs.Dn.Verbatim

/-! The entries of a configuration, loaded one after the other with the shortest names first. Where names are written as
they are, the one above a name is always shorter, so that what decides whether all entries can be loaded does not depend
on the order in which they are listed, and neither does what is stored. -/

namespace Ldap

namespace Config

namespace EntrySpec

/-- The key under which the entry is to be kept. -/
def key (e : EntrySpec) : String := Dn.normalize e.dn

/-- How many relative names the name of the entry has. -/
def depth (e : EntrySpec) : Nat := (Dn.split e.dn).length

/-- The entry with the values that its name is made of. -/
def stored (e : EntrySpec) : Entry := e.toEntry.withNaming (Dn.naming e.dn)

theorem dn_toEntry (e : EntrySpec) : e.toEntry.dn = e.dn := Entry.dn_ofAttributes ..

theorem dn_stored (e : EntrySpec) : e.stored.dn = e.dn := (Entry.dn_withNaming ..).trans e.dn_toEntry

end EntrySpec

open EntrySpec (key)

variable {c : Config} {d d' : Directory} {es others entries : List EntrySpec} {e : EntrySpec}

/-! ### Order by depth -/

theorem entriesByDepth_eq_mergeSort (c : Config) :
    c.entriesByDepth = c.entries.mergeSort fun a b => decide (a.depth ≤ b.depth) := by
  have hkeyed : (c.entries.mergeSort fun a b => decide (a.depth ≤ b.depth)).map (fun e => (e.depth, e)) =
      (c.entries.map fun e => (e.depth, e)).mergeSort fun a b => decide (a.1 ≤ b.1) :=
    List.map_mergeSort fun _ _ _ _ => rfl
  change ((c.entries.map fun e => (e.depth, e)).mergeSort fun a b => decide (a.1 ≤ b.1)).map (·.2) = _
  rw [← hkeyed, List.map_map]
  exact List.map_id _

theorem entriesByDepth_perm (c : Config) : c.entriesByDepth.Perm c.entries := by
  rw [entriesByDepth_eq_mergeSort]
  exact List.mergeSort_perm _ _

theorem pairwise_entriesByDepth (c : Config) : c.entriesByDepth.Pairwise (·.depth ≤ ·.depth) := by
  rw [entriesByDepth_eq_mergeSort]
  refine (List.pairwise_mergeSort (fun a b c => ?_) (fun a b => ?_) c.entries).imp of_decide_eq_true
  · simpa using Nat.le_trans
  · simpa using Nat.le_total a.depth b.depth

theorem entriesByDepth_of_pairwise (h : c.entries.Pairwise (·.depth ≤ ·.depth)) : c.entriesByDepth = c.entries := by
  rw [entriesByDepth_eq_mergeSort]
  exact List.mergeSort_of_pairwise (h.imp decide_eq_true)

/-! ### Entries that can be loaded -/

/-- Each entry has a name of its own below a base, and is one itself or has the name above it among the others, and no
two have the same key. -/
structure Loadable (d : Directory) (es : List EntrySpec) : Prop where
  named : ∀ e ∈ es, Dn.naming e.dn ≠ []
  covered : ∀ e ∈ es, d.covers e.dn
  distinct : (es.map key).Nodup
  closed : ∀ e ∈ es, d.isBase e.dn ∨ Dn.normalize (Dn.above e.dn) ∈ es.map key

theorem Loadable.perm (h : Loadable d es) (hp : es.Perm others) : Loadable d others where
  named e he := h.named e (hp.mem_iff.mpr he)
  covered e he := h.covered e (hp.mem_iff.mpr he)
  distinct := (hp.map key).nodup_iff.mp h.distinct
  closed e he := (h.closed e (hp.mem_iff.mpr he)).imp_right (hp.map key).mem_iff.mp

/-- What one more entry has to meet, behind others that can be loaded. -/
structure Fits (d : Directory) (es : List EntrySpec) (e : EntrySpec) : Prop where
  named : Dn.naming e.dn ≠ []
  covered : d.covers e.dn
  vacant : e.key ∉ es.map key
  closed : d.isBase e.dn ∨ Dn.normalize (Dn.above e.dn) ∈ es.map key

theorem Loadable.concat (h : Loadable d es) (hfits : Fits d es e) : Loadable d (es ++ [e]) := by
  have hall : ∀ {P : EntrySpec → Prop}, (∀ x ∈ es, P x) → P e → ∀ x ∈ es ++ [e], P x := by
    intro P hes he x hx
    rcases List.mem_append.mp hx with hx | hx
    · exact hes x hx
    · exact List.mem_singleton.mp hx ▸ he
  have hmore : ∀ k, k ∈ es.map key → k ∈ (es ++ [e]).map key := by
    intro k hk
    rw [List.map_append]
    exact List.mem_append_left _ hk
  refine ⟨hall h.named hfits.named, hall h.covered hfits.covered, ?_,
    hall (fun x hx => (h.closed x hx).imp_right (hmore _)) (hfits.closed.imp_right (hmore _))⟩
  rw [List.map_append, List.map_singleton, List.nodup_append]
  refine ⟨h.distinct, List.nodup_singleton _, fun a ha b hb hab => hfits.vacant ?_⟩
  rw [← List.mem_singleton.mp hb, ← hab]
  exact ha

/-- An entry behind others that are no deeper is above none of them, and not above itself. -/
theorem Loadable.closed_of_concat (h : Loadable d (es ++ [e])) (hv : ∀ x ∈ es ++ [e], Dn.Verbatim x.dn)
    (hs : ∀ x ∈ es, x.depth ≤ e.depth) {x : EntrySpec} (hx : x ∈ es ++ [e]) :
    d.isBase x.dn ∨ Dn.normalize (Dn.above x.dn) ∈ es.map key := by
  have he : e ∈ es ++ [e] := by simp
  have hkey : e.key ≠ "" := Dn.normalize_ne_empty_of_eq_mem (Dn.eq_mem_of_naming (h.named e he))
  have hsplit : Dn.split x.dn ≠ [] := Dn.split_ne_nil_of_naming (h.named x hx)
  have hdepth : x.depth ≤ e.depth := by
    rcases List.mem_append.mp hx with hx | hx
    · exact hs x hx
    · rw [List.mem_singleton.mp hx]
  refine (h.closed x hx).imp_right fun habove => ?_
  rw [List.map_append, List.mem_append] at habove
  refine habove.resolve_right fun hlast => ?_
  -- names with one key are equally deep here, so the last entry would be less deep than one that is no deeper
  have hlt : e.depth < x.depth := (hv e he).length_split_lt (hv x hx) hsplit (List.mem_singleton.mp hlast).symm hkey
  omega

theorem loadable_concat (hv : ∀ x ∈ es ++ [e], Dn.Verbatim x.dn) (hs : ∀ x ∈ es, x.depth ≤ e.depth) :
    Loadable d (es ++ [e]) ↔ Loadable d es ∧ Fits d es e := by
  refine ⟨fun h => ?_, fun ⟨h, hfits⟩ => h.concat hfits⟩
  have he : e ∈ es ++ [e] := by simp
  have hdistinct := h.distinct
  rw [List.map_append, List.nodup_append] at hdistinct
  obtain ⟨hnodup, -, hdisjoint⟩ := hdistinct
  exact ⟨⟨fun x hx => h.named x (by simp [hx]), fun x hx => h.covered x (by simp [hx]), hnodup,
      fun x hx => h.closed_of_concat hv hs (by simp [hx])⟩,
    h.named e he, h.covered e he, fun hmem => hdisjoint _ hmem _ (by simp) rfl, h.closed_of_concat hv hs he⟩

/-! ### Loading -/

theorem loadEntry_eq_ok_iff : loadEntry d e = .ok d' ↔
    (Dn.naming e.dn ≠ [] ∧ d.Placed e.dn ∧ ¬ d.store.contains e.dn) ∧
      d' = { d with store := d.store.put e.stored } := by
  have hadd : ∀ {added : Entry} {moved : Directory}, d.add e.toEntry false = .ok (added, moved) ↔
      (Dn.naming e.dn ≠ [] ∧ d.Placed e.dn ∧ ¬ d.store.contains e.dn) ∧ added = e.stored ∧
        moved = { d with store := d.store.put added } := by
    intro added moved
    rw [Directory.add_eq_ok_iff, e.dn_toEntry]
    rfl
  unfold loadEntry
  constructor
  · intro h
    split at h
    · rename_i added moved ha
      obtain ⟨hok, rfl, rfl⟩ := hadd.mp ha
      exact ⟨hok, (Except.ok.inj h).symm⟩
    · cases h
  · rintro ⟨hok, rfl⟩
    rw [hadd.mpr ⟨hok, rfl, rfl⟩]

/-- All entries are stored as they come, and nothing else is changed. -/
theorem foldlM_loadEntry_ok (he : d.store.entries = []) (h : es.foldlM loadEntry d = .ok d') :
    ∃ s : Store, d' = { d with store := s } ∧ s.entries = es.map EntrySpec.stored := by
  induction es using List.reverseRecOn generalizing d' with
  | nil =>
    obtain rfl : d = d' := Except.ok.inj h
    exact ⟨d.store, rfl, he⟩
  | append_singleton es e ih =>
    simp only [List.foldlM_append, List.foldlM_cons, List.foldlM_nil, bind_pure, Except.bind_eq_ok_iff,
      loadEntry_eq_ok_iff] at h
    obtain ⟨before, hbefore, ⟨-, -, hvacant⟩, rfl⟩ := h
    obtain ⟨s, rfl, hs⟩ := ih hbefore
    rw [← e.dn_stored] at hvacant
    exact ⟨s.put e.stored, rfl, by rw [Store.entries_put_of_vacant hvacant, hs, List.map_append, List.map_singleton]⟩

theorem contains_iff_mem_keys {s : Store} {dn : String} (hs : s.entries = es.map EntrySpec.stored) :
    s.contains dn ↔ Dn.normalize dn ∈ es.map key := by
  rw [Store.contains_iff, hs]
  constructor
  · rintro ⟨_, hx, hk⟩
    obtain ⟨e, he, rfl⟩ := List.mem_map.mp hx
    rw [Entry.key, e.dn_stored] at hk
    exact List.mem_map.mpr ⟨e, he, hk⟩
  · intro hmem
    obtain ⟨e, he, hk⟩ := List.mem_map.mp hmem
    exact ⟨e.stored, List.mem_map_of_mem he, by rw [Entry.key, e.dn_stored]; exact hk⟩

/-- Entries in the order of their depth are loaded just if they can be in any order. -/
theorem foldlM_loadEntry_ok_iff (he : d.store.entries = []) (hv : ∀ e ∈ es, Dn.Verbatim e.dn)
    (hs : es.Pairwise (·.depth ≤ ·.depth)) : (∃ d', es.foldlM loadEntry d = .ok d') ↔ Loadable d es := by
  -- an entry is judged by those before it, so the list grows at its end
  induction es using List.reverseRecOn with
  | nil => exact iff_of_true ⟨d, rfl⟩ ⟨by simp, by simp, by simp, by simp⟩
  | append_singleton es e ih =>
    obtain ⟨hsorted, -, hlast⟩ := List.pairwise_append.mp hs
    rw [loadable_concat hv fun x hx => hlast x hx e (by simp), ← ih (fun x hx => hv x (by simp [hx])) hsorted]
    simp only [List.foldlM_append, List.foldlM_cons, List.foldlM_nil, bind_pure, Except.bind_eq_ok_iff,
      loadEntry_eq_ok_iff]
    constructor
    · rintro ⟨_, before, hbefore, ⟨hn, ⟨hc, hp⟩, hvacant⟩, -⟩
      obtain ⟨s, rfl, hentries⟩ := foldlM_loadEntry_ok he hbefore
      rw [contains_iff_mem_keys hentries] at hvacant hp
      exact ⟨⟨_, hbefore⟩, hn, hc, hvacant, hp⟩
    · rintro ⟨⟨before, hbefore⟩, hfits⟩
      obtain ⟨s, rfl, hentries⟩ := foldlM_loadEntry_ok he hbefore
      refine ⟨_, _, hbefore, ⟨hfits.named, ⟨hfits.covered, ?_⟩, ?_⟩, rfl⟩
      · rw [contains_iff_mem_keys hentries]
        exact hfits.closed
      · rw [contains_iff_mem_keys hentries]
        exact hfits.vacant

/-! ### Configurations -/

theorem entries_emptyDirectory (c : Config) : c.emptyDirectory.store.entries = [] := by
  have hfold : ∀ (l : List Credential) (d : Directory), (l.foldl (fun d credential =>
      d.addCredential credential.dn (Ber.utf8Bytes credential.password)) d).store = d.store := by
    intro l
    induction l with
    | nil => exact fun _ => rfl
    | cons credential l ih => exact fun d => ih _
  rw [emptyDirectory, hfold]
  rfl

theorem directory_ok_iff (hv : ∀ e ∈ c.entries, Dn.Verbatim e.dn) :
    (∃ d, c.directory = .ok d) ↔ Loadable c.emptyDirectory c.entries := by
  have hp : c.entriesByDepth.Perm c.entries := c.entriesByDepth_perm
  rw [directory, foldlM_loadEntry_ok_iff c.entries_emptyDirectory (fun e he => hv e (hp.mem_iff.mp he))
    c.pairwise_entriesByDepth]
  exact ⟨fun h => h.perm hp, fun h => h.perm hp.symm⟩

theorem directory_ok (h : c.directory = .ok d) :
    ∃ s : Store, d = { c.emptyDirectory with store := s } ∧ s.entries.Perm (c.entries.map EntrySpec.stored) := by
  obtain ⟨s, rfl, hs⟩ := foldlM_loadEntry_ok c.entries_emptyDirectory h
  exact ⟨s, rfl, hs ▸ c.entriesByDepth_perm.map _⟩

/-- The order in which entries are listed does not matter where their names are written as they are: either they are
loaded in both orders, into directories that are the same but for the order of the entries, or in neither. -/
theorem directory_perm (c : Config) (hv : ∀ e ∈ c.entries, Dn.Verbatim e.dn) (hp : c.entries.Perm entries) :
    (∃ d d', c.directory = .ok d ∧ { c with entries }.directory = .ok d' ∧
      d.store.entries.Perm d'.store.entries ∧ d' = { d with store := d'.store }) ∨
    ∃ f f', c.directory = .error f ∧ { c with entries }.directory = .error f' := by
  have hv' : ∀ e ∈ entries, Dn.Verbatim e.dn := fun e he => hv e (hp.mem_iff.mpr he)
  have hiff : (∃ d, c.directory = .ok d) ↔ ∃ d', { c with entries }.directory = .ok d' := by
    rw [directory_ok_iff hv, directory_ok_iff hv']
    exact ⟨fun h => h.perm hp, fun h => h.perm hp.symm⟩
  cases hd : c.directory with
  | ok d =>
    obtain ⟨d', hd'⟩ := hiff.mp ⟨d, hd⟩
    obtain ⟨s, rfl, hs⟩ := directory_ok hd
    obtain ⟨s', rfl, hs'⟩ := directory_ok hd'
    exact .inl ⟨_, _, rfl, hd', hs.trans ((hp.map _).trans hs'.symm), rfl⟩
  | error f =>
    cases hd' : { c with entries }.directory with
    | ok d' =>
      obtain ⟨d, h⟩ := hiff.mpr ⟨d', hd'⟩
      rw [hd] at h
      cases h
    | error f' => exact .inr ⟨f, f', rfl, rfl⟩

/-- Names in several spellings, listed in front of those above them. -/
theorem directory_perm_people :
    let entries : List EntrySpec :=
      [⟨"cn=Doe;OU=People,o=X", []⟩, ⟨"ou=people , o=x", [("ou", .one "staff")]⟩, ⟨"o=x", []⟩]
    let c : Config := { baseDns := ["O=x"], entries := entries.reverse }
    (∀ e ∈ c.entries, Dn.Verbatim e.dn) ∧ c.entries.Perm entries ∧
      ∃ d d', c.directory = .ok d ∧ { c with entries }.directory = .ok d' ∧
        d.store.entries.Perm d'.store.entries ∧ d' = { d with store := d'.store } := by
  intro entries c
  have hv : ∀ e ∈ c.entries, Dn.Verbatim e.dn := by decide
  have hp : c.entries.Perm entries := List.reverse_perm entries
  have hloaded : ∃ d, c.directory = .ok d :=
    (directory_ok_iff hv).mpr ⟨by decide, by decide +kernel, by decide +kernel, by decide +kernel⟩
  refine ⟨hv, hp, ?_⟩
  rcases directory_perm c hv hp with h | ⟨f, -, hf, -⟩
  · exact h
  · obtain ⟨d, hd⟩ := hloaded
    cases hd.symm.trans hf

/-- Where a comma is escaped, the name above an entry may have the key of another one that is as long as the entry. -/
theorem not_directory_perm_escaped :
    let parent : EntrySpec := ⟨"ou=a,o=x", []⟩
    let child : EntrySpec := ⟨"cn=k,ou=a\\,o=x", []⟩
    let c : Config := { baseDns := ["o=x"], entries := [⟨"o=x", []⟩, parent, child] }
    c.directory.toOption.isSome ∧
      ({ c with entries := [⟨"o=x", []⟩, child, parent] }.directory.toOption.isSome) = false := by
  intro parent child c
  rw [directory, directory, entriesByDepth_of_pairwise (by decide), entriesByDepth_of_pairwise (by decide)]
  decide +kernel

end Config

end Ldap
