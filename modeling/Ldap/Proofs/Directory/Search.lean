import Ldap.Directory.Search
import Ldap.Proofs.Directory.Store
import Ldap.Proofs.Except
import Mathlib.Data.List.Lex
import Mathlib.Data.String.Basic

/-! What a search finds, and in what order. A store keeps its entries in no particular order, but no two of them
have the same name, so what a search answers is settled by the entries alone. The entries come in the order of their
relative names, the topmost first, so that each stands behind all that are above it. -/

namespace Ldap

namespace Directory

variable {d d' : Directory} {base : String} {scope : Scope} {filter : Filter} {l l' es es' : List Entry}

/-! ### The order of names -/

theorem notBehind_iff (as bs : List String) : notBehind as bs ↔ ¬ bs < as := by
  induction as generalizing bs with
  | nil => exact iff_of_true rfl (List.not_lt_nil bs)
  | cons a as ih =>
    cases bs with
    | nil => exact iff_of_false Bool.false_ne_true (not_not.mpr (List.nil_lt_cons a as))
    | cons b bs =>
      have hlt : b :: bs < a :: as ↔ b < a ∨ b = a ∧ bs < as := List.cons_lt_cons_iff
      rw [notBehind, hlt]
      rcases lt_trichotomy a b with hab | rfl | hba
      · simp [hab, hab.not_gt, hab.ne']
      · simp [ih]
      · simp [hba, hba.not_gt]

theorem notBehind_iff_le (as bs : List String) : notBehind as bs ↔ as ≤ bs :=
  (notBehind_iff as bs).trans not_lt

/-- Entries with the same place in the order of a search have the same key. -/
theorem key_eq_of_searchKey {x y : Entry} (h : searchKey x = searchKey y) : x.key = y.key := by
  have hrdns : Dn.rdns x.dn = Dn.rdns y.dn := List.reverse_injective h
  rw [Entry.key, Entry.key, Dn.normalize, Dn.normalize, hrdns]

theorem sortByName_eq_mergeSort (l : List Entry) :
    sortByName l = l.mergeSort fun x y => notBehind (searchKey x) (searchKey y) := by
  have hkeyed : (l.mergeSort fun x y => notBehind (searchKey x) (searchKey y)).map (fun e => (searchKey e, e)) =
      (l.map fun e => (searchKey e, e)).mergeSort fun a b => notBehind a.1 b.1 :=
    List.map_mergeSort fun _ _ _ _ => rfl
  rw [sortByName, ← hkeyed, List.map_map]
  exact List.map_id _

theorem sortByName_perm (l : List Entry) : (sortByName l).Perm l := by
  rw [sortByName_eq_mergeSort]
  exact List.mergeSort_perm l _

theorem pairwise_sortByName (l : List Entry) : (sortByName l).Pairwise fun x y => searchKey x ≤ searchKey y := by
  rw [sortByName_eq_mergeSort]
  refine (List.pairwise_mergeSort ?_ ?_ l).imp fun h => (notBehind_iff_le _ _).mp h
  · intro x y z hxy hyz
    rw [notBehind_iff_le] at *
    exact hxy.trans hyz
  · intro x y
    rw [Bool.or_eq_true, notBehind_iff_le, notBehind_iff_le]
    exact le_total _ _

/-- Entries with names of their own are sorted in one way, whatever order they came in. -/
theorem sortByName_eq (hp : l.Perm l') (hl : ∀ x ∈ l, ∀ y ∈ l, x.key = y.key → x = y) :
    sortByName l = sortByName l' := by
  refine List.Perm.eq_of_pairwise ?_ (pairwise_sortByName l) (pairwise_sortByName l')
    ((sortByName_perm l).trans (hp.trans (sortByName_perm l').symm))
  intro x y hx hy hxy hyx
  have hx' : x ∈ l := (sortByName_perm l).mem_iff.mp hx
  have hy' : y ∈ l := hp.mem_iff.mpr ((sortByName_perm l').mem_iff.mp hy)
  exact hl x hx' y hy' (key_eq_of_searchKey (le_antisymm hxy hyx))

theorem sortByName_of_pairwise (h : l.Pairwise fun x y => notBehind (searchKey x) (searchKey y)) :
    sortByName l = l := by
  rw [sortByName_eq_mergeSort, List.mergeSort_of_pairwise h]

/-- An entry above another one, or of the same name, is not behind it. -/
theorem searchKey_le_of_suffix {x y : Entry} (h : Dn.rdns x.dn <:+ Dn.rdns y.dn) : searchKey x ≤ searchKey y := by
  obtain ⟨w, hw⟩ : searchKey x <+: searchKey y := List.reverse_prefix.mpr h
  have happend : ∀ as ws : List String, notBehind as (as ++ ws) := by
    intro as ws
    induction as with
    | nil => rfl
    | cons a as ih => simpa [notBehind] using ih
  rw [← notBehind_iff_le, ← hw]
  exact happend _ _

/-! ### The steps of a search -/

/-- The entries in scope that match a filter, in order. -/
def select (base : String) (scope : Scope) (filter : Filter) (es : List Entry) : List Entry :=
  sortByName (es.filter fun e => inScope scope (Dn.split base).length (Dn.split e.dn).length && e.isMatch filter)

theorem search_eq (d : Directory) (base : String) (scope : Scope) (filter : Filter) :
    d.search base scope filter =
      if Dn.split base = [] ∧ scope = .base then .ok ([d.rootDse].filter (·.isMatch filter))
      else (d.candidates base).map (select base scope filter) := by
  simp only [search, List.length_eq_zero_iff]
  split
  · rfl
  · cases d.candidates base <;> rfl

theorem mem_select {e : Entry} : e ∈ select base scope filter es ↔
    e ∈ es ∧ inScope scope (Dn.split base).length (Dn.split e.dn).length ∧ e.isMatch filter := by
  rw [select, (sortByName_perm _).mem_iff, List.mem_filter, Bool.and_eq_true]

theorem nodup_keys_select (h : (es.map Entry.key).Nodup) : ((select base scope filter es).map Entry.key).Nodup :=
  ((sortByName_perm _).map Entry.key).nodup_iff.mpr ((List.filter_sublist.map _).nodup h)

theorem candidates_sublist (h : d.candidates base = .ok es) : es.Sublist d.store.entries := by
  unfold candidates at h
  split at h
  · cases h
    exact .refl _
  · obtain ⟨-, -, h⟩ := Except.bind_eq_ok_iff.mp h
    cases h
    exact List.filter_sublist.map _

/-- No entry is found twice. -/
theorem nodup_keys_search (h : d.search base scope filter = .ok es) : (es.map Entry.key).Nodup := by
  rw [search_eq] at h
  split at h
  · cases h
    exact ((List.filter_sublist (l := [d.rootDse])).map _).nodup (List.nodup_singleton _)
  · obtain ⟨found, hf, rfl⟩ := Except.map_eq_ok_iff.mp h
    exact nodup_keys_select (((candidates_sublist hf).map _).nodup d.store.nodup_keys)

/-- No entry that is found is behind a later one. -/
theorem pairwise_search (h : d.search base scope filter = .ok es) :
    es.Pairwise fun x y => searchKey x ≤ searchKey y := by
  rw [search_eq] at h
  split at h
  · cases h
    exact (List.pairwise_singleton _ d.rootDse).filter _
  · obtain ⟨found, -, rfl⟩ := Except.map_eq_ok_iff.mp h
    exact pairwise_sortByName _

/-- The entries that are found come in one strict order. -/
theorem pairwise_lt_search (h : d.search base scope filter = .ok es) :
    es.Pairwise fun x y => searchKey x < searchKey y := by
  have hkeys : es.Pairwise fun x y => x.key ≠ y.key := List.pairwise_map.mp (nodup_keys_search h)
  exact ((pairwise_search h).and hkeys).imp fun h => lt_of_le_of_ne h.1 (mt key_eq_of_searchKey h.2)

/-! ### Directories with the same content -/

/-- The directories have the same entries, in whatever order their stores keep them. -/
structure Alike (d d' : Directory) : Prop where
  rootDse : d'.rootDse = d.rootDse
  entries : d.store.entries.Perm d'.store.entries

namespace Alike

variable (h : d.Alike d')
include h

theorem symm : d'.Alike d := ⟨h.rootDse.symm, h.entries.symm⟩

theorem get? (dn : String) : d'.store.get? dn = d.store.get? dn := by
  ext e
  rw [Store.get?_eq_some_iff, Store.get?_eq_some_iff, h.entries.mem_iff]

theorem subtree (dn : String) : (d.store.subtree dn).Perm (d'.store.subtree dn) := by
  refine (List.perm_ext_iff_of_nodup (d.store.nodup_subtree dn) (d'.store.nodup_subtree dn)).mpr fun e => ?_
  rw [Store.mem_subtree, Store.mem_subtree, h.entries.mem_iff]

theorem ancestorAmong (steps : ℕ) (dn : String) :
    Directory.ancestorAmong d'.store steps dn = Directory.ancestorAmong d.store steps dn := by
  induction steps generalizing dn with
  | zero => rfl
  | succ steps ih => simp only [Directory.ancestorAmong, h.get?, ih]

theorem require (dn : String) : d'.require dn = d.require dn := by
  rw [Directory.require, Directory.require, h.get?, closestAncestor, closestAncestor, h.ancestorAmong]

theorem candidates (base : String) :
    (∃ f, d.candidates base = .error f ∧ d'.candidates base = .error f) ∨
      ∃ es es', d.candidates base = .ok es ∧ d'.candidates base = .ok es' ∧ es.Perm es' := by
  unfold Directory.candidates
  rw [h.require]
  split
  · exact .inr ⟨_, _, rfl, rfl, h.entries⟩
  · cases d.require base with
    | error f => exact .inl ⟨f, rfl, rfl⟩
    | ok e => exact .inr ⟨_, _, rfl, rfl, h.subtree base⟩

/-- What a search answers is settled by the entries of the directory. -/
theorem search (base : String) (scope : Scope) (filter : Filter) :
    d'.search base scope filter = d.search base scope filter := by
  rw [search_eq, search_eq, h.rootDse]
  rcases h.candidates base with ⟨f, hf, hf'⟩ | ⟨es, es', hes, hes', hp⟩
  · rw [hf, hf']
  · have hselect : select base scope filter es = select base scope filter es' := by
      refine sortByName_eq (hp.filter _) fun x hx y hy hk => ?_
      have hsub := (candidates_sublist hes).subset
      exact Store.eq_of_key (hsub (List.mem_of_mem_filter hx)) (hsub (List.mem_of_mem_filter hy)) hk
    rw [hes, hes', Except.ok_map, Except.ok_map, hselect]

end Alike

/-- A search answers each entry once, behind all that it finds above it, and in an order that is settled by the
entries of the directory, whatever order its store keeps them in. -/
theorem search_ordered (d : Directory) (base : String) (scope : Scope) (filter : Filter) :
    (∀ es, d.search base scope filter = .ok es →
      es.Pairwise (fun x y => searchKey x < searchKey y) ∧ es.Nodup ∧
      es.Pairwise fun x y => ¬ Dn.rdns y.dn <:+ Dn.rdns x.dn) ∧
    ∀ d', d.Alike d' → d'.search base scope filter = d.search base scope filter := by
  refine ⟨fun es h => ⟨pairwise_lt_search h, .of_map _ (nodup_keys_search h), ?_⟩,
    fun d' h => h.search base scope filter⟩
  exact (pairwise_lt_search h).imp fun hlt hw => (searchKey_le_of_suffix hw).not_gt hlt

/-- Two stores that keep the same entries in different orders. -/
theorem search_ordered_people :
    let o : Entry := .ofAttributes "o=x" []
    let a : Entry := .ofAttributes "OU=a , o=x" []
    let b : Entry := .ofAttributes "cn=b,ou=A,o=x" []
    let d : Directory := { store := ((Store.put {} b).put a).put o, bases := ["o=x"] }
    let d' : Directory := { store := ((Store.put {} a).put o).put b, bases := ["o=x"] }
    d.Alike d' ∧ d.search "O=x" .subtree (.and []) = .ok [o, a, b] ∧
      d'.search "O=x" .subtree (.and []) = .ok [o, a, b] ∧ [o, a, b].Pairwise (fun x y => searchKey x < searchKey y) := by
  intro o a b d d'
  have hd : d.Alike d' := ⟨rfl, by decide +kernel⟩
  have hcandidates : d.candidates "O=x" = .ok [b, a, o] := by decide +kernel
  have hmatch : [b, a, o].filter (fun e => inScope .subtree (Dn.split "O=x").length (Dn.split e.dn).length &&
      e.isMatch (.and [])) = [b, a, o] := by simp [inScope, Entry.isMatch, Entry.matchesAll]
  have hsorted : sortByName [o, a, b] = [o, a, b] := sortByName_of_pairwise (by decide +kernel)
  have hsearch : d.search "O=x" .subtree (.and []) = .ok [o, a, b] := by
    have hperm : sortByName [b, a, o] = sortByName [o, a, b] :=
      sortByName_eq (by decide +kernel) (by decide +kernel)
    rw [search_eq, if_neg (by decide +kernel), hcandidates, Except.ok_map, select, hmatch, hperm, hsorted]
  obtain ⟨hordered, hsame⟩ := search_ordered d "O=x" .subtree (.and [])
  exact ⟨hd, hsearch, (hsame d' hd).trans hsearch, (hordered _ hsearch).1⟩

end Directory

end Ldap
