import Ldap.Proofs.Ber.Buffer
import Ldap.Proofs.Ber.Finds
import Ldap.Proofs.Filter.Codec

/-! How deep filters nest, told by their nodes. A filter that was written is read back if none of its nodes has more
filters around it than the reader goes along. Otherwise the reader comes to the level that it does not enter before it
finds fault with anything else. -/

namespace Ldap.Filter

open Ber (Item ReadM Reads Finds Reader Delivery)
open Ber.Delivery (Plain content)

variable {limit stop levels n : Nat} {f g : Filter} {filters : List Filter}

/-! ### Nodes -/

/-- The filters that a set or a negation is made of. -/
def children : Filter → List Filter
  | .and filters | .or filters => filters
  | .not filter => [filter]
  | .compare .. | .substrings .. | .present _ | .extensible .. => []

/-- A filter within a filter, and the number of sets and negations around it there. -/
inductive Node : Filter → Nat → Filter → Prop
  | root (f : Filter) : Node f 0 f
  | inner {f g node : Filter} {n : Nat} (hg : g ∈ f.children) (h : Node g n node) : Node f (n + 1) node

/-- An extensible match has a rule or an attribute. -/
def NodesTargeted (f : Filter) : Prop :=
  ∀ n rule name value dnAttributes, Node f n (.extensible rule name value dnAttributes) → rule.isSome ∨ name.isSome

theorem depth_le_iff_children : depth f ≤ n ↔ ∀ g ∈ f.children, depth g < n := by
  cases f with
  | and filters => exact depthAll_le_iff
  | or filters => exact depthAll_le_iff
  | not f =>
    rw [depth, children, List.forall_mem_singleton]
    rfl
  | _ => simp [depth, children]

theorem depth_lt_of_mem_children (h : g ∈ f.children) : depth g < depth f :=
  depth_le_iff_children.mp (Nat.le_refl _) g h

theorem depth_le_iff : depth f ≤ n ↔ ∀ m node, Node f m node → m ≤ n := by
  constructor
  · intro h m node hnode
    induction hnode generalizing n with
    | root f => exact Nat.zero_le _
    | inner hg _ ih =>
      have hlt := depth_le_iff_children.mp h _ hg
      have := ih (n := n - 1) (by omega)
      omega
  · intro h
    -- on the bound, which is one less for each child; no recursion over the lists of filters is needed
    induction n generalizing f with
    | zero =>
      refine depth_le_iff_children.mpr fun g hg => ?_
      exact absurd (h 1 g (.inner hg (.root g))) (by omega)
    | succ n ih =>
      refine depth_le_iff_children.mpr fun g hg => Nat.lt_succ_of_le (ih fun m node hnode => ?_)
      exact Nat.le_of_succ_le_succ (h _ node (.inner hg hnode))

theorem targeted_of_mem_children (ht : targeted f) (hg : g ∈ f.children) : targeted g := by
  cases f with
  | and filters => exact targetedAll_iff.mp ht g hg
  | or filters => exact targetedAll_iff.mp ht g hg
  | not f => exact List.mem_singleton.mp hg ▸ ht
  | _ => cases hg

theorem nodesTargeted_iff : f.NodesTargeted ↔ targeted f := by
  constructor
  · intro h
    -- on the depth, since the children are in a list
    induction hd : depth f using Nat.strong_induction_on generalizing f with
    | _ d ih =>
      have hchildren : ∀ g ∈ f.children, targeted g := by
        intro g hg
        exact ih _ (hd ▸ depth_lt_of_mem_children hg)
          (fun n rule name value dnAttributes hnode => h _ _ _ _ _ (.inner hg hnode)) rfl
      cases f with
      | and filters => exact targetedAll_iff.mpr hchildren
      | or filters => exact targetedAll_iff.mpr hchildren
      | not f => exact hchildren f (List.mem_singleton_self f)
      | extensible rule name value dnAttributes => simpa [targeted] using h 0 _ _ _ _ (.root _)
      | _ => rfl
  · intro ht n rule name value dnAttributes hnode
    generalize hm : extensible rule name value dnAttributes = m at hnode
    induction hnode with
    | root f =>
      subst hm
      simpa [targeted] using ht
    | inner hg _ ih => exact ih (targeted_of_mem_children ht hg) hm

/-! ### Levels -/

/-- What the reader reports that does not go along any further. -/
def tooDeep : Ber.Error := .malformed "filter nested deeper than 64 levels"

theorem finds_extensible_untargeted (value : List UInt8) (dnAttributes : Bool) :
    Finds limit stop readExtensible [(extensible none none value dnAttributes).toItem]
      (.error (.malformed "extensible match needs a matching rule or an attribute type")) := by
  rw [toItem]
  refine Finds.sequence_bind fun s hs => ?_
  exact Finds.bind (fun t ht => (Reads.components (by dsimp only; omega) (Nat.le_refl _)
    (Match.folds none none value dnAttributes)).finds) (Finds.throw rfl)

/-- Of filters that do not all fit there is a first one. -/
theorem exists_first (h : ¬ ∀ f ∈ filters, Fits levels f) :
    ∃ before f after, filters = before ++ f :: after ∧ (∀ g ∈ before, Fits levels g) ∧ ¬ Fits levels f := by
  simp only [not_forall] at h
  obtain ⟨f, hf, hn⟩ := h
  have hsome : (filters.find? fun f => !decide (Fits levels f)).isSome :=
    List.find?_isSome.mpr ⟨f, hf, by simpa using hn⟩
  obtain ⟨g, hg⟩ := Option.isSome_iff_exists.mp hsome
  obtain ⟨hgn, before, after, rfl, hbefore⟩ := List.find?_eq_some_iff_append.mp hg
  exact ⟨before, g, after, rfl, by simpa using hbefore, by simpa using hgn⟩

/-- The reader fails on the filter, and for no other reason than its depth if no extensible match is to blame. -/
def Refuses (limit levels : Nat) (f : Filter) : Prop :=
  ∃ e, (targeted f → e = tooDeep) ∧ ∀ stop, Finds limit stop (readLevels levels) [f.toItem] (.error e)

/-- The filters of a set are read up to the first that does not fit. -/
theorem refuses_set (hrefuses : ∀ f, ¬ Fits levels f → Refuses limit levels f) (set : List Filter → Filter)
    (h : ¬ (depthAll filters < levels + 1 ∧ targetedAll filters)) :
    ∃ e, (targetedAll filters → e = tooDeep) ∧ ∀ tag stop, Finds limit stop
      (do return set (← ReadM.listOf (← ReadM.sequence) (readLevels levels)))
      [.constructed tag (filters.map toItem)] (.error e) := by
  obtain ⟨before, f, after, rfl, hbefore, hf⟩ := exists_first (mt fitsAll_iff.mpr h)
  obtain ⟨e, he, hfinds⟩ := hrefuses f hf
  refine ⟨e, fun ht => he (targetedAll_iff.mp ht f (by simp)), fun tag stop => ?_⟩
  rw [List.map_append, List.map_cons]
  exact Finds.sequence_listOf_error
    (fun g hg s => (reads_levels levels g (hbefore g hg).1 (hbefore g hg).2 s).finds) hfinds

/-- A filter that nests too deep, or that holds an extensible match of nothing, is refused. -/
theorem refuses_levels (levels : Nat) (f : Filter) (h : ¬ Fits levels f) : Refuses limit levels f := by
  induction levels generalizing f with
  | zero => exact ⟨tooDeep, fun _ => rfl, fun stop => Finds.throw rfl⟩
  | succ levels ih =>
    rw [Refuses, readLevels]
    cases f with
    | and filters =>
      obtain ⟨e, he, hfinds⟩ := refuses_set ih .and h
      refine ⟨e, he, fun stop => Finds.peekRequired_bind ?_⟩
      rw [toItem, toItems_eq_map, Item.tag, if_pos rfl]
      exact hfinds andTag stop
    | or filters =>
      obtain ⟨e, he, hfinds⟩ := refuses_set ih .or h
      refine ⟨e, he, fun stop => Finds.peekRequired_bind ?_⟩
      rw [toItem, toItems_eq_map, Item.tag, if_neg (by decide), if_pos rfl]
      exact hfinds orTag stop
    | not f =>
      obtain ⟨e, he, hfinds⟩ := ih f fun hf => h ⟨Nat.succ_lt_succ hf.1, hf.2⟩
      refine ⟨e, he, fun stop => Finds.peekRequired_bind ?_⟩
      rw [toItem, Item.tag, if_neg (by decide), if_neg (by decide), if_pos rfl]
      exact Finds.sequence_bind fun s hs => Finds.bind_error fun t _ => hfinds t
    | extensible rule name value dnAttributes =>
      have hnone : rule = none ∧ name = none := by
        simpa [Fits, depth, targeted] using h
      obtain ⟨rfl, rfl⟩ := hnone
      refine ⟨_, fun ht => ?_, fun stop => Finds.peekRequired_bind (finds_extensible_untargeted value dnAttributes)⟩
      exact absurd ht Bool.false_ne_true
    | _ => exact absurd ⟨Nat.succ_pos _, rfl⟩ h

/-! ### Readers -/

variable {r : Reader} {ds : List Delivery} {tail : List UInt8}

theorem run_read_fits (h : Fits (maxDepth + 1) f) (hr : r.At ds) (hp : Plain ds)
    (hc : content ds = f.toItem.toBytes ++ tail) (hl : f.toItem.toBytes.length ≤ min r.limit Ber.maxLength) :
    ∃ left, Plain left ∧ content left = tail ∧ read.run r = .ok f (r.advance f.toItem.toBytes.length left) := by
  rw [Item.toBytes_eq_encode] at *
  have hfinds : ∀ stop, Finds r.limit stop read [f.toItem] (.ok f) := fun stop =>
    (reads_levels _ f h.1 h.2 stop).finds
  obtain ⟨left, hleft, htail, hread⟩ := Finds.answer_arrived hfinds hr hp hc hl
  exact ⟨left, hleft, htail, ReadM.run_of_answer_ok hread⟩

theorem run_read_refused (h : ¬ Fits (maxDepth + 1) f) (hr : r.At ds) (hp : Plain ds)
    (hc : content ds = f.toItem.toBytes ++ tail) (hl : f.toItem.toBytes.length ≤ min r.limit Ber.maxLength) :
    ∃ e r', (targeted f → e = tooDeep) ∧ read.run r = .error e r' := by
  rw [Item.toBytes_eq_encode] at *
  obtain ⟨e, he, hfinds⟩ := refuses_levels _ f h
  obtain ⟨left, -, -, hread⟩ := Finds.answer_arrived hfinds hr hp hc hl
  obtain ⟨e', r', hrun, hkind⟩ := ReadM.run_of_answer_error hread
  exact ⟨e', r', fun ht => Ber.Error.eq_malformed_of_kind (hkind.trans (he ht)), hrun⟩

/-- Filters are read back to the deepest nesting accepted, from bytes that others may follow, and these are left. A
filter that nests deeper is reported as such, whatever stands beside the filter that is too deep. -/
theorem run_read_nested (ht : f.NodesTargeted) (hr : r.At ds) (hp : Plain ds)
    (hc : content ds = f.toItem.toBytes ++ tail) (hl : f.toItem.toBytes.length ≤ min r.limit Ber.maxLength) :
    ((∀ n node, Node f n node → n ≤ maxDepth) → ∃ left, Plain left ∧ content left = tail ∧
      read.run r = .ok f (r.advance f.toItem.toBytes.length left)) ∧
    ((∃ n node, Node f n node ∧ maxDepth < n) → ∃ r', read.run r = .error tooDeep r') := by
  have ht' : targeted f := nodesTargeted_iff.mp ht
  constructor
  · intro hd
    exact run_read_fits ⟨Nat.lt_succ_of_le (depth_le_iff.mpr hd), ht'⟩ hr hp hc hl
  · rintro ⟨n, node, hnode, hn⟩
    have hdeep : ¬ Fits (maxDepth + 1) f := fun h =>
      absurd (depth_le_iff.mp (Nat.le_of_lt_succ h.1) n node hnode) (Nat.not_le.mpr hn)
    obtain ⟨e, r', he, hrun⟩ := run_read_refused hdeep hr hp hc hl
    exact ⟨r', he ht' ▸ hrun⟩

/-- A chain of negations is read back if there are 64 of them, and refused if there are 65. -/
theorem run_read_nested_negations :
    let f := Filter.not^[64] (.present "cn")
    let r := Reader.ofBytes (f.toItem.toBytes ++ [0xFF])
    let r' := Reader.ofBytes (f.not.toItem.toBytes ++ [0xFF])
    f.NodesTargeted ∧ r.At [.bytes (f.toItem.toBytes ++ [0xFF])] ∧ f.toItem.toBytes.length ≤ min r.limit Ber.maxLength ∧
      (∃ left, content left = [0xFF] ∧ read.run r = .ok f (r.advance f.toItem.toBytes.length left)) ∧
      ∃ r'', read.run r' = .error tooDeep r'' := by
  intro f r r'
  have ht : f.NodesTargeted := nodesTargeted_iff.mpr (by decide +kernel)
  have ht' : f.not.NodesTargeted := nodesTargeted_iff.mpr (by decide +kernel)
  have hl : f.toItem.toBytes.length ≤ min r.limit Ber.maxLength := by
    rw [Item.toBytes_eq_encode]
    decide +kernel
  have hl' : f.not.toItem.toBytes.length ≤ min r'.limit Ber.maxLength := by
    rw [Item.toBytes_eq_encode]
    decide +kernel
  have hd : ∀ n node, Node f n node → n ≤ maxDepth := depth_le_iff.mp (by decide +kernel)
  have hd' : ∃ n node, Node f.not n node ∧ maxDepth < n := by
    have h : ¬ depth f.not ≤ maxDepth := by decide +kernel
    simpa only [depth_le_iff, not_forall, not_le, exists_prop] using h
  obtain ⟨left, -, hleft, hrun⟩ :=
    (run_read_nested ht (Reader.at_ofBytes _) (Delivery.plain_bytes _) (Delivery.content_bytes _) hl).1 hd
  exact ⟨ht, Reader.at_ofBytes _, hl, ⟨left, hleft, hrun⟩,
    (run_read_nested ht' (Reader.at_ofBytes _) (Delivery.plain_bytes _) (Delivery.content_bytes _) hl').2 hd'⟩

/-! ### Filters that are read back -/

/-- A filter is read from the bytes that this one is written as. -/
def Decodable (f : Filter) : Prop := ∃ g r, read.run (Reader.ofBytes f.toItem.toBytes) = .ok g r

theorem decodable_iff (hl : f.toItem.toBytes.length ≤ Ber.maxLength) : f.Decodable ↔ Fits (maxDepth + 1) f := by
  have hc : content [.bytes f.toItem.toBytes] = f.toItem.toBytes ++ [] := rfl
  have hl' : f.toItem.toBytes.length ≤ min (Reader.ofBytes f.toItem.toBytes).limit Ber.maxLength :=
    Nat.le_min.mpr ⟨hl, hl⟩
  constructor
  · rintro ⟨g, r, hg⟩
    by_contra hn
    obtain ⟨e, r', -, hrun⟩ := run_read_refused hn (Reader.at_ofBytes _) (Delivery.plain_bytes _) hc hl'
    rw [hg] at hrun
    cases hrun
  · intro h
    obtain ⟨left, -, -, hrun⟩ := run_read_fits h (Reader.at_ofBytes _) (Delivery.plain_bytes _) hc hl'
    exact ⟨f, _, hrun⟩

end Ldap.Filter
