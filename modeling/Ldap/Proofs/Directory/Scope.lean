import Ldap.Proofs.Directory.Search
import Ldap.Proofs.Directory.Written

/-! What a search finds below a name. It goes by keys to find what lies below the base, and by the number of relative
names to find how far below. So it finds what has the relative names of the base behind its own, if commas in values are
not taken for separators, and if the key of the base is not empty, which is that of all entries. -/

namespace Ldap

/-- A scope takes in names with a number of relative names in front of those of the base. -/
def Scope.Takes : Scope → ℕ → Prop
  | .base, further => further = 0
  | .oneLevel, further => further = 1
  | .subtree, _ => True
  | .subordinates, further => 1 ≤ further

namespace Directory

variable {d : Directory} {u : Update} {r : ModifyDnRequest} {e x : Entry} {base dn : String} {scope : Scope}
  {filter : Filter}

theorem inScope_iff {depth further : ℕ} : inScope scope depth (further + depth) ↔ scope.Takes further := by
  cases scope <;> simp [inScope, Scope.Takes] <;> omega

/-- An entry matches a filter and has the relative names of the base behind others, as many as the scope takes in. -/
def Finds (base : String) (scope : Scope) (filter : Filter) (e : Entry) : Prop :=
  e.isMatch filter ∧ ∃ front, Dn.rdns e.dn = front ++ Dn.rdns base ∧ scope.Takes front.length

/-- A search goes by the relative names of base and entries. -/
structure SearchesNames (d : Directory) (base : String) (scope : Scope) (filter : Filter) : Prop where
  missing : ¬ d.store.contains base → ∃ f, d.search base scope filter = .error f ∧ f.code = .noSuchObject
  found : d.store.contains base → ∃ es, d.search base scope filter = .ok es ∧ es.Nodup ∧
    ∀ e, e ∈ es ↔ e ∈ d.store.entries ∧ Finds base scope filter e

/-- No end of a stored name is another one only because commas in values are taken for separators. -/
def TellsBelow (d : Directory) (base : String) : Prop :=
  ∀ e ∈ d.store.entries, Dn.keyPieces base <:+ Dn.keyPieces e.dn → Dn.rdns base <:+ Dn.rdns e.dn

instance (d : Directory) (base : String) : Decidable (d.TellsBelow base) :=
  inferInstanceAs (Decidable (∀ e ∈ d.store.entries, _))

/-! ### The steps of a search -/

theorem candidates_of_key_empty (h : Dn.normalize base = "") : d.candidates base = .ok d.store.entries := by
  rw [candidates, if_pos (by simp [h])]
  rfl

theorem candidates_of_contains (h : Dn.normalize base ≠ "") (hc : d.store.contains base) :
    d.candidates base = .ok (d.store.subtree base) := by
  obtain ⟨e, he⟩ := Option.isSome_iff_exists.mp hc
  rw [candidates, if_neg (by simpa using h), Directory.require, he]
  rfl

theorem candidates_of_not_contains (h : Dn.normalize base ≠ "") (hc : ¬ d.store.contains base) :
    d.candidates base = .error (.noSuchEntry base (d.closestAncestor base)) := by
  have hnone : d.store.get? base = none := by simpa [Store.contains] using hc
  rw [candidates, if_neg (by simpa using h), Directory.require, hnone]
  rfl

theorem search_eq_map (hb : Dn.split base ≠ []) :
    d.search base scope filter = (d.candidates base).map (select base scope filter) := by
  rw [search_eq, if_neg fun h => hb h.1]

/-- What lies below a base by its key, and is as deep as the scope has it. -/
theorem mem_select_subtree (hk : Dn.normalize base ≠ "") (ht : d.TellsBelow base) :
    e ∈ select base scope filter (d.store.subtree base) ↔ e ∈ d.store.entries ∧ Finds base scope filter e := by
  rw [mem_select, Store.mem_subtree, and_assoc]
  refine and_congr_right fun he => ?_
  have hwithin : Dn.isWithin e.key (Dn.normalize base) ↔ Dn.rdns base <:+ Dn.rdns e.dn := by
    rw [Entry.key, Dn.isWithin_normalize_iff_of_ne_empty hk]
    exact ⟨ht e he, Dn.keyPieces_suffix⟩
  rw [hwithin, Finds]
  constructor
  · rintro ⟨⟨front, hfront⟩, hs, hm⟩
    refine ⟨hm, front, hfront.symm, ?_⟩
    rw [← Dn.length_rdns e.dn, ← hfront, List.length_append, Dn.length_rdns] at hs
    exact inScope_iff.mp hs
  · rintro ⟨hm, front, hfront, hs⟩
    refine ⟨⟨front, hfront.symm⟩, ?_, hm⟩
    rw [← Dn.length_rdns e.dn, hfront, List.length_append, Dn.length_rdns]
    exact inScope_iff.mpr hs

theorem SearchesNames.of_tellsBelow (hb : Dn.split base ≠ []) (hk : Dn.normalize base ≠ "")
    (ht : d.store.contains base → d.TellsBelow base) (scope : Scope) (filter : Filter) :
    d.SearchesNames base scope filter where
  missing hc := by
    rw [search_eq_map hb, candidates_of_not_contains hk hc]
    exact ⟨_, rfl, rfl⟩
  found hc := by
    refine ⟨_, by rw [search_eq_map hb, candidates_of_contains hk hc]; rfl, ?_, fun e => mem_select_subtree hk (ht hc)⟩
    refine .of_map Entry.key (nodup_keys_select ?_)
    exact (List.filter_sublist.map _).map _ |>.nodup d.store.nodup_keys

theorem tellsBelow_of_searchesNames (hb : Dn.split base ≠ []) (hk : Dn.normalize base ≠ "")
    (h : d.SearchesNames base .subtree (.and [])) (hc : d.store.contains base) : d.TellsBelow base := by
  intro e he hw
  obtain ⟨es, hes, -, hmem⟩ := h.found hc
  rw [search_eq_map hb, candidates_of_contains hk hc] at hes
  obtain rfl := Except.ok.inj hes
  have hfound : e ∈ select base .subtree (.and []) (d.store.subtree base) := by
    refine mem_select.mpr ⟨Store.mem_subtree.mpr ⟨he, ?_⟩, rfl, by simp [Entry.isMatch, Entry.matchesAll]⟩
    exact (Dn.isWithin_normalize_iff_of_ne_empty hk).mpr hw
  obtain ⟨-, -, front, hfront, -⟩ := (hmem e).mp hfound
  exact ⟨front, hfront.symm⟩

/-! ### Empty keys -/

theorem eq_mem_target (h : Dn.components r.newRdn ≠ []) : '=' ∈ r.target.toList := by
  have hrdn : '=' ∈ r.newRdn.toList := not_not.mp (mt Dn.components_eq_nil_iff.mpr h)
  have htrim : '=' ∈ (Text.trim r.newRdn).toList := by
    rw [Text.trim, String.toList_ofList]
    exact (Text.mem_trimChars (by decide)).mpr hrdn
  unfold ModifyDnRequest.target newName
  split
  · exact htrim
  · simp [htrim]

theorem Written.eq_mem (h : d.Written u x) (hd : ∀ e ∈ d.store.entries, '=' ∈ e.dn.toList) : '=' ∈ x.dn.toList := by
  cases h with
  | added attributes noOp named =>
    rw [Entry.dn_withNaming, Entry.dn_ofAttributes]
    exact Dn.eq_mem_of_naming named
  | edited changes permissive noOp stored key dn_after naming => exact dn_after ▸ hd _ stored
  | renamed noOp planned => exact planned.dn_after ▸ eq_mem_target planned.named
  | moved noOp planned below hname =>
    unfold movedName? at hname
    dsimp only at hname
    split at hname
    · obtain rfl := Option.some.inj hname
      simp [eq_mem_target planned.named]
    · cases hname
  | newPassword password stored key =>
    rw [Entry.dn_replaceValues]
    exact hd _ stored

/-- No entry is ever kept under the empty key. -/
theorem key_ne_empty_run {updates : List Update} (he : d.store.entries = []) (hx : x ∈ (d.run updates).store.entries) :
    x.key ≠ "" := by
  have hrun : ∀ e ∈ (d.run updates).store.entries, '=' ∈ e.dn.toList := by
    refine List.foldlRecOn (motive := fun d : Directory => ∀ e ∈ d.store.entries, '=' ∈ e.dn.toList) updates after
      (by simp [he]) fun d hd u _ e he => ?_
    exact (mem_after he).elim (hd e) fun hw => hw.eq_mem hd
  exact Dn.normalize_ne_empty_of_eq_mem (hrun x hx)

/-- A search goes by names, in all scopes and with all filters, just if the key of its base is not empty and no comma in
a value is taken for a separator. There is no such comma where all names are legible. -/
theorem search_names_iff (d : Directory) (updates : List Update) (base : String) (he : d.store.entries = [])
    (hb : Dn.split base ≠ []) :
    ((∀ scope filter, (d.run updates).SearchesNames base scope filter) ↔
      Dn.normalize base ≠ "" ∧ ((d.run updates).store.contains base → (d.run updates).TellsBelow base)) ∧
    (Dn.Named base → Dn.Legible base → (∀ e ∈ (d.run updates).store.entries, Dn.Named e.dn ∧ Dn.Legible e.dn) →
      ∀ scope filter, (d.run updates).SearchesNames base scope filter) := by
  refine ⟨⟨fun h => ?_, fun h => .of_tellsBelow hb h.1 h.2⟩, fun hn hl hall => ?_⟩
  · have hk : Dn.normalize base ≠ "" := by
      intro hk
      have hc : ¬ (d.run updates).store.contains base := by
        rw [Store.contains_iff]
        rintro ⟨x, hx, hkey⟩
        exact key_ne_empty_run he hx (hkey.trans hk)
      obtain ⟨f, hf, -⟩ := (h .subtree (.and [])).missing hc
      rw [search_eq_map hb, candidates_of_key_empty hk] at hf
      cases hf
    exact ⟨hk, tellsBelow_of_searchesNames hb hk (h _ _)⟩
  · have hk : Dn.normalize base ≠ "" := mt hn.normalize_eq_empty_iff.mp (mt Dn.split_eq_nil_iff.mpr hb)
    exact .of_tellsBelow hb hk fun _ e he =>
      Dn.suffix_of_keyPieces_suffix (hall e he).1 hn (hall e he).2 hl

theorem search_names_iff_people :
    let d : Directory := .ofBases ["o=x"]
    let updates : List Update := [.add "o=x" [] false, .add "ou=a,o=x" [] false, .add "cn=Doe\\, J,ou=a,o=x" [] false]
    let base := "OU=a;o=X"
    d.store.entries = [] ∧ Dn.split base ≠ [] ∧ Dn.Named base ∧ Dn.Legible base ∧
      (∀ e ∈ (d.run updates).store.entries, Dn.Named e.dn ∧ Dn.Legible e.dn) ∧
      (∀ scope filter, (d.run updates).SearchesNames base scope filter) ∧
      ∃ es, (d.run updates).search base .oneLevel (.and []) = .ok es ∧ ∃ e ∈ es, e.dn = "cn=Doe\\, J,ou=a,o=x" := by
  intro d updates base
  have hb : Dn.split base ≠ [] := by decide +kernel
  have hn : Dn.Named base := by decide +kernel
  have hl : Dn.Legible base := by decide +kernel
  have hall : ∀ e ∈ (d.run updates).store.entries, Dn.Named e.dn ∧ Dn.Legible e.dn := by decide +kernel
  have hsearch : ∀ scope filter, (d.run updates).SearchesNames base scope filter :=
    (search_names_iff d updates base rfl hb).2 hn hl hall
  have hstored : ∃ e ∈ (d.run updates).store.entries, e.dn = "cn=Doe\\, J,ou=a,o=x" ∧
      Dn.rdns e.dn = ["cn=doe, j"] ++ Dn.rdns base := by decide +kernel
  obtain ⟨es, hes, -, hmem⟩ := (hsearch .oneLevel (.and [])).found (by decide +kernel)
  obtain ⟨e, he, hdn, hrdns⟩ := hstored
  refine ⟨rfl, hb, hn, hl, hall, hsearch, es, hes, e, (hmem e).mpr ⟨he, ?_, _, hrdns, rfl⟩, hdn⟩
  simp [Entry.isMatch, Entry.matchesAll]

/-- An entry is found below another one of which only its key makes it a part, and all entries are found below a name
without values, which no entry has. -/
theorem not_search_names :
    ¬ ((ofBases ["c=y"]).run [.add "c=y" [] false, .add "o=x,c=y" [] false,
      .add "cn=a\\,o=x,c=y" [] false]).SearchesNames "o=x,c=y" .subtree (.and []) ∧
    ¬ ((ofBases ["o=x"]).run [.add "o=x" [] false]).SearchesNames "foo" .subtree (.and []) := by
  constructor
  · intro h
    have hbelow := tellsBelow_of_searchesNames (by decide +kernel) (by decide +kernel) h (by decide +kernel)
    exact absurd hbelow (by decide +kernel)
  · intro h
    obtain ⟨f, hf, -⟩ := h.missing (by decide +kernel)
    rw [search_eq_map (by decide +kernel), candidates_of_key_empty (by decide +kernel)] at hf
    cases hf

end Directory

end Ldap
