import Ldap.Proofs.Directory.Written

/-! Whom a user name stands for. It is looked for below one base after the other. So an entry is found as many times as
there are bases above it, and one that is found twice passes for two. The only entry of a user is resolved just if it is
found once. It always is if no base lies below another one and the keys of the bases are keys of themselves, by which
they are looked up. -/

namespace Ldap

/-- A list has one element just if it has that one once and no others. -/
theorem eq_singleton_iff_count {α : Type*} [BEq α] [LawfulBEq α] {l : List α} {a : α} :
    l = [a] ↔ l.count a = 1 ∧ ∀ b, b ≠ a → l.count b = 0 := by
  rw [← List.perm_singleton, List.perm_iff_count]
  constructor
  · intro h
    refine ⟨by simp [h], fun b hb => ?_⟩
    rw [h, List.count_singleton, if_neg (by simpa using hb.symm)]
  · rintro ⟨ha, hb⟩ b
    by_cases hba : b = a
    · simp [hba, ha]
    · rw [hb b hba, List.count_singleton, if_neg (by simpa using Ne.symm hba)]

/-- Two keys that have another one within them lie one within the other. -/
theorem Dn.isWithin_or_isWithin {key a b : String} (ha : Dn.isWithin key a) (hb : Dn.isWithin key b) :
    Dn.isWithin a b ∨ Dn.isWithin b a := by
  rw [Dn.isWithin_iff] at ha hb
  rcases ha with rfl | rfl | ha
  · exact .inr (Dn.isWithin_iff.mpr (.inl rfl))
  · exact .inl (Dn.isWithin_iff.mpr hb)
  rcases hb with rfl | rfl | hb
  · exact .inl (Dn.isWithin_iff.mpr (.inl rfl))
  · exact .inr (Dn.isWithin_iff.mpr (.inr (.inr ha)))
  -- both begin behind a comma, and the shorter one is the end of the longer one
  rcases List.suffix_or_suffix_of_suffix ha hb with h | h
  · right
    rcases List.suffix_cons_iff.mp h with heq | hs
    · exact Dn.isWithin_iff.mpr (.inr (.inl (String.toList_inj.mp (List.cons.inj heq).2).symm))
    · exact Dn.isWithin_iff.mpr (.inr (.inr hs))
  · left
    rcases List.suffix_cons_iff.mp h with heq | hs
    · exact Dn.isWithin_iff.mpr (.inr (.inl (String.toList_inj.mp (List.cons.inj heq).2).symm))
    · exact Dn.isWithin_iff.mpr (.inr (.inr hs))

namespace Directory

variable {d : Directory} {user dn : String} {e x : Entry}

/-- A stored entry within the bases that has a user identifier. -/
structure Bears (d : Directory) (user : String) (e : Entry) : Prop where
  stored : e ∈ d.store.entries
  covered : d.covers e.dn
  uid : e.hasValue "uid" (Ber.utf8Bytes user)

/-- The one and only entry of a user. -/
def Sole (d : Directory) (user : String) (e : Entry) : Prop := d.Bears user e ∧ ∀ x, d.Bears user x → x = e

instance (d : Directory) (user : String) (e : Entry) : Decidable (d.Bears user e) :=
  decidable_of_iff (e ∈ d.store.entries ∧ d.covers e.dn ∧ e.hasValue "uid" (Ber.utf8Bytes user))
    ⟨fun ⟨hs, hc, hu⟩ => ⟨hs, hc, hu⟩, fun h => ⟨h.stored, h.covered, h.uid⟩⟩

instance (d : Directory) (user : String) (e : Entry) : Decidable (d.Sole user e) :=
  decidable_of_iff (d.Bears user e ∧ ∀ x ∈ d.store.entries, d.Bears user x → x = e)
    ⟨fun ⟨he, hall⟩ => ⟨he, fun x hx => hall x hx.stored hx⟩, fun h => ⟨h.1, fun x _ => h.2 x⟩⟩

/-- How many times an entry is come across below the bases. -/
def sightings (d : Directory) (e : Entry) : ℕ :=
  d.baseKeys.countP fun base => Dn.isWithin e.key (Dn.normalize base)

/-- An entry is found once, and no other one with the user identifier is. -/
structure FoundOnce (d : Directory) (user : String) (e : Entry) : Prop where
  stored : e ∈ d.store.entries
  uid : e.hasValue "uid" (Ber.utf8Bytes user)
  once : d.sightings e = 1
  alone : ∀ x ∈ d.store.entries, x.hasValue "uid" (Ber.utf8Bytes user) → x ≠ e → d.sightings x = 0

/-- A user name stands for the only entry of the user, and is refused if there is none or more than one. -/
structure ResolvesSole (d : Directory) (user : String) : Prop where
  eq_ok_iff : ∀ dn, d.resolveAuthzid ("u:" ++ user) = .ok dn ↔ ∃ e, d.Sole user e ∧ e.dn = dn
  refused : (∀ e, ¬ d.Sole user e) →
    ∃ f, d.resolveAuthzid ("u:" ++ user) = .error f ∧ f.code = .invalidCredentials

/-! ### What is found -/

/-- What is found for a user name, below one base after the other. -/
def found (d : Directory) (user : String) : List Entry :=
  (d.baseKeys.flatMap d.store.subtree).filter (·.isMatch (Filter.equality "uid" (Ber.utf8Bytes user)))

theorem count_subtree (s : Store) (base : String) (e : Entry) :
    (s.subtree base).count e = if e ∈ s.entries ∧ Dn.isWithin e.key (Dn.normalize base) then 1 else 0 := by
  rw [(s.nodup_subtree base).count]
  exact if_congr Store.mem_subtree rfl rfl

theorem count_flatMap_subtree (he : e ∈ d.store.entries) :
    (d.baseKeys.flatMap d.store.subtree).count e = d.sightings e := by
  rw [sightings, List.count_flatMap]
  induction d.baseKeys with
  | nil => rfl
  | cons base rest ih =>
    rw [List.map_cons, List.sum_cons, ih, List.countP_cons, Function.comp_apply, count_subtree, Nat.add_comm]
    simp [he]

theorem count_found (he : e ∈ d.store.entries) (hu : e.hasValue "uid" (Ber.utf8Bytes user)) :
    (d.found user).count e = d.sightings e := by
  rw [found, List.count_filter (by exact hu), count_flatMap_subtree he]

theorem mem_found : e ∈ d.found user →
    e ∈ d.store.entries ∧ e.hasValue "uid" (Ber.utf8Bytes user) := by
  intro h
  obtain ⟨hmem, hu⟩ := List.mem_filter.mp h
  obtain ⟨base, -, hbase⟩ := List.mem_flatMap.mp hmem
  exact ⟨(Store.mem_subtree.mp hbase).1, hu⟩

theorem found_eq_singleton_iff : d.found user = [e] ↔ d.FoundOnce user e := by
  rw [eq_singleton_iff_count]
  constructor
  · rintro ⟨honce, halone⟩
    have hmem : e ∈ d.found user := List.count_pos_iff.mp (by omega)
    obtain ⟨he, hu⟩ := mem_found hmem
    exact ⟨he, hu, count_found he hu ▸ honce, fun x hx hux hne => count_found hx hux ▸ halone x hne⟩
  · intro h
    refine ⟨(count_found h.stored h.uid).trans h.once, fun x hne => ?_⟩
    by_cases hx : x ∈ d.found user
    · obtain ⟨hs, hu⟩ := mem_found hx
      rw [count_found hs hu, h.alone x hs hu hne]
    · exact List.count_eq_zero.mpr hx

/-! ### What is resolved -/

theorem resolveUser_eq_ok_iff : d.resolveUser user = .ok dn ↔ ∃ e, d.FoundOnce user e ∧ e.dn = dn := by
  simp only [← found_eq_singleton_iff, resolveUser, ← found.eq_1]
  rcases d.found user with _ | ⟨e, _ | ⟨x, rest⟩⟩ <;> simp

theorem code_of_resolveUser {f : Failure} (h : d.resolveUser user = .error f) : f.code = .invalidCredentials := by
  unfold resolveUser at h
  dsimp only at h
  split at h <;> cases h <;> rfl

theorem resolveAuthzid_user (hu : user ≠ "") : d.resolveAuthzid ("u:" ++ user) = d.resolveUser user := by
  have hdn : Text.strip? "dn:".toList ("u:" ++ user).toList = none := by simp [Text.strip?]
  have huser : Text.strip? "u:".toList ("u:" ++ user).toList = some user.toList := by simp [Text.strip?]
  rw [resolveAuthzid, hdn]
  simp only [huser, Option.map_some, Option.getD_some, String.ofList_toList]
  rw [if_neg (by simpa using hu)]

theorem covers_iff : d.covers dn ↔ ∃ base ∈ d.baseKeys, Dn.isWithin (Dn.normalize dn) base := by
  simp [covers]

theorem eq_of_dn (he : e ∈ d.store.entries) (hx : x ∈ d.store.entries) (h : e.dn = x.dn) : e = x :=
  Store.eq_of_key he hx (congrArg Dn.normalize h)

/-- A user name stands for the only entry of the user just if what is found once is that entry. -/
theorem resolvesSole_iff_foundOnce (hu : user ≠ "") :
    d.ResolvesSole user ↔ ∀ e, d.FoundOnce user e ↔ d.Sole user e := by
  constructor
  · intro h e
    have hiff := h.eq_ok_iff e.dn
    rw [resolveAuthzid_user hu, resolveUser_eq_ok_iff] at hiff
    constructor
    · intro he
      obtain ⟨x, hx, hdn⟩ := hiff.mp ⟨e, he, rfl⟩
      rwa [eq_of_dn he.stored hx.1.stored hdn.symm]
    · intro he
      obtain ⟨x, hx, hdn⟩ := hiff.mpr ⟨e, he, rfl⟩
      rwa [eq_of_dn he.1.stored hx.stored hdn.symm]
  · intro h
    constructor
    · intro dn
      rw [resolveAuthzid_user hu, resolveUser_eq_ok_iff]
      simp only [h]
    · intro hnone
      rw [resolveAuthzid_user hu]
      cases hr : d.resolveUser user with
      | error f => exact ⟨f, rfl, code_of_resolveUser hr⟩
      | ok dn =>
        obtain ⟨e, he, -⟩ := resolveUser_eq_ok_iff.mp hr
        exact absurd ((h e).mp he) (hnone e)

/-! ### Bases whose keys are keys of themselves -/

section Settled

variable (hb : ∀ base ∈ d.baseKeys, Dn.normalize base = base)
include hb

theorem sightings_eq (e : Entry) : d.sightings e = d.baseKeys.countP fun base => Dn.isWithin e.key base :=
  List.countP_congr fun base h => by rw [hb base h]

theorem covers_iff_sightings : d.covers e.dn ↔ 0 < d.sightings e := by
  rw [sightings_eq hb, List.countP_pos_iff, covers_iff]
  rfl

theorem bears_iff : d.Bears user e ↔
    e ∈ d.store.entries ∧ e.hasValue "uid" (Ber.utf8Bytes user) ∧ 0 < d.sightings e := by
  rw [← covers_iff_sightings hb]
  exact ⟨fun h => ⟨h.stored, h.uid, h.covered⟩, fun h => ⟨h.1, h.2.2, h.2.1⟩⟩

theorem foundOnce_iff_sole : d.FoundOnce user e ↔ d.Sole user e ∧ d.sightings e = 1 := by
  constructor
  · intro h
    refine ⟨⟨(bears_iff hb).mpr ⟨h.stored, h.uid, by rw [h.once]; decide⟩, fun x hx => ?_⟩, h.once⟩
    by_contra hne
    obtain ⟨hs, hu, hpos⟩ := (bears_iff hb).mp hx
    exact absurd (h.alone x hs hu hne) hpos.ne'
  · rintro ⟨⟨he, hall⟩, honce⟩
    refine ⟨he.stored, he.uid, honce, fun x hx hu hne => ?_⟩
    by_contra hpos
    exact hne (hall x ((bears_iff hb).mpr ⟨hx, hu, Nat.pos_of_ne_zero hpos⟩))

theorem sole_of_entries_eq (hs : d.store.entries = [e]) (hu : e.hasValue "uid" (Ber.utf8Bytes user))
    (hpos : 0 < d.sightings e) : d.Sole user e :=
  ⟨(bears_iff hb).mpr ⟨by simp [hs], hu, hpos⟩, fun x hx => by simpa [hs] using hx.stored⟩

theorem resolvesSole_iff_sightings (hu : user ≠ "") :
    d.ResolvesSole user ↔ ∀ e, d.Sole user e → d.sightings e = 1 := by
  rw [resolvesSole_iff_foundOnce hu]
  refine forall_congr' fun e => ?_
  rw [foundOnce_iff_sole hb]
  tauto

/-- Where no base lies within another one, no entry is found twice. -/
theorem sightings_le_one (h : d.baseKeys.Pairwise fun a b => ¬ Dn.isWithin a b ∧ ¬ Dn.isWithin b a) (e : Entry) :
    d.sightings e ≤ 1 := by
  rw [sightings_eq hb, List.countP_eq_length_filter]
  by_contra hlt
  obtain ⟨a, b, rest, heq⟩ : ∃ a b rest, (d.baseKeys.filter fun base => Dn.isWithin e.key base) = a :: b :: rest := by
    rcases hl : d.baseKeys.filter fun base => Dn.isWithin e.key base with _ | ⟨a, _ | ⟨b, rest⟩⟩
    · simp [hl] at hlt
    · simp [hl] at hlt
    · exact ⟨a, b, rest, rfl⟩
  have hpair := heq ▸ h.filter fun base => Dn.isWithin e.key base
  obtain ⟨hab, hba⟩ := (List.pairwise_cons.mp hpair).1 b (by simp)
  have hwithin : ∀ base ∈ a :: b :: rest, Dn.isWithin e.key base := fun base h =>
    (List.mem_filter.mp (heq ▸ h)).2
  rcases Dn.isWithin_or_isWithin (hwithin a (by simp)) (hwithin b (by simp)) with h | h
  · exact hab h
  · exact hba h

end Settled

/-! ### Reachable directories -/

theorem bases_after (d : Directory) (u : Update) : (d.after u).bases = d.bases := by
  rw [after_store_only]

theorem baseKeys_run (d : Directory) (updates : List Update) : (d.run updates).baseKeys = d.baseKeys := by
  have hbases : (d.run updates).bases = d.bases :=
    List.foldlRecOn (motive := fun x : Directory => x.bases = d.bases) updates after rfl
      fun x hx u _ => (bases_after x u).trans hx
  rw [baseKeys, baseKeys, hbases]

theorem run_singleton (d : Directory) (u : Update) : d.run [u] = d.after u := rfl

/-- A base may be added to a directory that is empty, with any value. -/
theorem exists_added_base {base : String} (he : d.store.entries = []) (hb : base ∈ d.bases) (hn : Dn.naming base ≠ [])
    (name text : String) : ∃ e, e.dn = base ∧ e.hasValue name (Ber.utf8Bytes text) ∧
      (d.after (.add base [⟨name, [Ber.utf8Bytes text]⟩] false)).store.entries = [e] := by
  have hkey : Dn.normalize base ∈ d.baseKeys := List.mem_map_of_mem hb
  have hcovered : d.covers base := covers_iff.mpr ⟨_, hkey, Dn.isWithin_iff.mpr (.inr (.inl rfl))⟩
  have hbase : d.isBase base := by simpa [isBase] using hkey
  have hvacant : ¬ d.store.contains base := by
    rw [Store.contains_iff, he]
    simp
  set bare : Entry := ({ dn := base } : Entry).withValue name (Ber.utf8Bytes text)
  have hbare : Entry.ofAttributes base [⟨name, [Ber.utf8Bytes text]⟩] = bare := by
    simp only [Entry.ofAttributes, List.foldl_cons, List.foldl_nil, Edit.addValues_run, bare]
  have hdn : bare.dn = base := Entry.dn_withValue
  have hadd : d.add bare false =
      .ok (bare.withNaming (Dn.naming base), { d with store := d.store.put (bare.withNaming (Dn.naming base)) }) := by
    rw [add_eq_ok_iff, hdn]
    exact ⟨⟨hn, ⟨hcovered, .inl hbase⟩, hvacant⟩, rfl, rfl⟩
  have hrecords : d.store.records = [] := List.map_eq_nil_iff.mp he
  refine ⟨bare.withNaming (Dn.naming base), by rw [Entry.dn_withNaming, hdn], ?_, ?_⟩
  · have hvalue : bare.hasValue name (Ber.utf8Bytes text) :=
      Entry.hasValue_withValue.mpr (.inr ⟨Text.sameText_refl _, sameValue_refl _ _⟩)
    exact (Entry.hasValue_withNaming (c := ⟨name, text⟩)).mpr (.inl hvalue)
  · simp only [after, hbare, hadd]
    simp [Store.entries, Store.put, Store.eraseKey, hrecords]

/-- Neither of two keys lies within the other. -/
def Apart (a b : String) : Prop := ¬ Dn.isWithin a b ∧ ¬ Dn.isWithin b a

instance (a b : String) : Decidable (Apart a b) := inferInstanceAs (Decidable (_ ∧ _))

/-- If one base lies within another one, its own entry is found twice. -/
theorem exists_doubled (he : d.store.entries = []) (hn : ∀ base ∈ d.bases, Dn.naming base ≠ [])
    (hb : ∀ base ∈ d.baseKeys, Dn.normalize base = base) (h : ¬ d.baseKeys.Pairwise Apart) (user : String) :
    ∃ updates e, (d.run updates).Sole user e ∧ 1 < (d.run updates).sightings e := by
  obtain ⟨a, b, hsub, hab⟩ : ∃ a b, [a, b].Sublist d.baseKeys ∧ ¬ Apart a b := by
    simpa only [List.pairwise_iff_forall_sublist, not_forall, exists_prop] using h
  -- the inner one of the two bases
  obtain ⟨inner, hmem, hina, hinb⟩ : ∃ inner ∈ d.baseKeys, Dn.isWithin inner a ∧ Dn.isWithin inner b := by
    have hself : ∀ key, Dn.isWithin key key := fun key => Dn.isWithin_iff.mpr (.inr (.inl rfl))
    by_cases hw : Dn.isWithin a b
    · exact ⟨a, hsub.subset (by simp), hself a, hw⟩
    · exact ⟨b, hsub.subset (by simp), by_contra fun hw' => hab ⟨hw, hw'⟩, hself b⟩
  obtain ⟨base, hbase, rfl⟩ := List.mem_map.mp hmem
  obtain ⟨e, hdn, huid, hentries⟩ := exists_added_base he hbase (hn base hbase) "uid" user
  have hkeys : (d.after (.add base [⟨"uid", [Ber.utf8Bytes user]⟩] false)).baseKeys = d.baseKeys := by
    rw [baseKeys, baseKeys, bases_after]
  have hsettled : ∀ key ∈ (d.after (.add base [⟨"uid", [Ber.utf8Bytes user]⟩] false)).baseKeys,
      Dn.normalize key = key := by rwa [hkeys]
  have htwo : 1 < (d.after (.add base [⟨"uid", [Ber.utf8Bytes user]⟩] false)).sightings e := by
    rw [sightings_eq hsettled, hkeys, Entry.key, hdn]
    calc 1 < [a, b].countP fun other => Dn.isWithin (Dn.normalize base) other := by simp [hina, hinb]
      _ ≤ _ := hsub.countP_le
  have hsole := sole_of_entries_eq hsettled hentries huid (by omega)
  refine ⟨[.add base [⟨"uid", [Ber.utf8Bytes user]⟩] false], e, ?_⟩
  rw [run_singleton]
  exact ⟨hsole, htwo⟩

/-- A user name is resolved to an entry that is found once, while no other one with that user identifier is found. This
is the only entry of the user, in all directories, just if no base lies within another one. -/
theorem resolves_user_iff (d : Directory) (he : d.store.entries = []) :
    (∀ updates user, user ≠ "" →
      (∀ dn, (d.run updates).resolveAuthzid ("u:" ++ user) = .ok dn ↔
        ∃ e, (d.run updates).FoundOnce user e ∧ e.dn = dn) ∧
      (∀ f, (d.run updates).resolveAuthzid ("u:" ++ user) = .error f → f.code = .invalidCredentials) ∧
      ((d.run updates).ResolvesSole user ↔ ∀ e, (d.run updates).FoundOnce user e ↔ (d.run updates).Sole user e)) ∧
    ((∀ base ∈ d.baseKeys, Dn.normalize base = base) →
      (∀ updates user, user ≠ "" →
        ((d.run updates).ResolvesSole user ↔ ∀ e, (d.run updates).Sole user e → (d.run updates).sightings e = 1)) ∧
      (d.baseKeys.Pairwise Apart → ∀ updates user, user ≠ "" → (d.run updates).ResolvesSole user) ∧
      ((∀ base ∈ d.bases, Dn.naming base ≠ []) →
        (∀ updates user, user ≠ "" → (d.run updates).ResolvesSole user) → d.baseKeys.Pairwise Apart)) := by
  have hsettled : ∀ {updates : List Update}, (∀ base ∈ d.baseKeys, Dn.normalize base = base) →
      ∀ base ∈ (d.run updates).baseKeys, Dn.normalize base = base := by
    intro updates hb
    rwa [baseKeys_run]
  refine ⟨fun updates user hu => ⟨fun dn => ?_, fun f hf => ?_, resolvesSole_iff_foundOnce hu⟩, fun hb =>
    ⟨fun updates user hu => resolvesSole_iff_sightings (hsettled hb) hu, fun hapart updates user hu => ?_,
      fun hn hall => ?_⟩⟩
  · rw [resolveAuthzid_user hu, resolveUser_eq_ok_iff]
  · exact code_of_resolveUser (resolveAuthzid_user hu ▸ hf)
  · rw [resolvesSole_iff_sightings (hsettled hb) hu]
    intro e hsole
    have hpos : 0 < (d.run updates).sightings e := ((bears_iff (hsettled hb)).mp hsole.1).2.2
    have hle : (d.run updates).sightings e ≤ 1 := sightings_le_one (hsettled hb) (by rwa [baseKeys_run]) e
    omega
  · by_contra hnot
    obtain ⟨updates, e, hsole, htwo⟩ := exists_doubled he hn hb hnot "a"
    have hone := (resolvesSole_iff_sightings (hsettled hb) (by decide)).mp (hall updates "a" (by decide)) e hsole
    omega

theorem resolves_user_iff_people :
    let d : Directory := .ofBases ["o=x", "OU=b ; C=y"]
    let updates : List Update := [.add "o=x" [] false, .add "ou=b,c=y" [] false,
      .add "cn=Doe\\, J,ou=b,c=y" [⟨"uid", [Ber.utf8Bytes "J"]⟩] false,
      .add "cn=k,o=x" [⟨"uid", [Ber.utf8Bytes "k", Ber.utf8Bytes "l"]⟩] false]
    d.store.entries = [] ∧ (∀ base ∈ d.baseKeys, Dn.normalize base = base) ∧ d.baseKeys.Pairwise Apart ∧
      (d.run updates).ResolvesSole "j" ∧
      ∃ e, (d.run updates).Sole "j" e ∧ e.dn = "cn=Doe\\, J,ou=b,c=y" := by
  intro d updates
  have hb : ∀ base ∈ d.baseKeys, Dn.normalize base = base := by decide +kernel
  have hapart : d.baseKeys.Pairwise Apart := by decide +kernel
  have hsole : (d.run updates).ResolvesSole "j" := ((resolves_user_iff d rfl).2 hb).2.1 hapart updates "j" (by decide)
  have hfound : (d.run updates).resolveAuthzid "u:j" = .ok "cn=Doe\\, J,ou=b,c=y" := by decide +kernel
  exact ⟨rfl, hb, hapart, hsole, (hsole.eq_ok_iff _).mp hfound⟩

/-- The only entry of a user is refused as one of many if it lies below two bases, and is not found at all below a base
whose key is not the key of itself. -/
theorem not_resolves_user :
    let nested := (ofBases ["o=x", "ou=a,o=x"]).run [.add "o=x" [] false, .add "ou=a,o=x" [] false,
      .add "cn=b,ou=a,o=x" [⟨"uid", [Ber.utf8Bytes "j"]⟩] false]
    let comma := (ofBases ["o=a\\, b"]).run [.add "o=a\\, b" [⟨"uid", [Ber.utf8Bytes "j"]⟩] false]
    (¬ nested.ResolvesSole "j" ∧ nested.resolveAuthzid "u:j" = .error (.ambiguousUser "j") ∧
      ∃ e ∈ nested.store.entries, nested.Sole "j" e) ∧
    ¬ comma.ResolvesSole "j" ∧ comma.resolveAuthzid "u:j" = .error (.noSuchUser "j") ∧
      ∃ e ∈ comma.store.entries, comma.Sole "j" e := by
  intro nested comma
  have hrefused : ∀ {d : Directory} {f : Failure}, d.resolveAuthzid "u:j" = .error f →
      (∃ e ∈ d.store.entries, d.Sole "j" e) → ¬ d.ResolvesSole "j" := by
    rintro d f hf ⟨e, -, hsole⟩ h
    have hok : d.resolveAuthzid ("u:" ++ "j") = .ok e.dn := (h.eq_ok_iff e.dn).mpr ⟨e, hsole, rfl⟩
    exact nomatch hok.symm.trans hf
  have hnested : nested.resolveAuthzid "u:j" = .error (.ambiguousUser "j") := by decide +kernel
  have hcomma : comma.resolveAuthzid "u:j" = .error (.noSuchUser "j") := by decide +kernel
  have hsole : ∃ e ∈ nested.store.entries, nested.Sole "j" e := by decide +kernel
  have hsole' : ∃ e ∈ comma.store.entries, comma.Sole "j" e := by decide +kernel
  exact ⟨⟨hrefused hnested hsole, hnested, hsole⟩, hrefused hcomma hsole', hcomma, hsole'⟩

end Directory

end Ldap
