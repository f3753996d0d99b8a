import Ldap.Filter.Codec
import Ldap.Proofs.Ber.Reads

/-! Reading the filters that were written. A filter can be read back if it nests no deeper than the
reader goes along, and if each of its extensible matches names a rule or an attribute. -/

namespace Ldap.Filter

open Ber (Item ReadM Reads)

variable {limit stop : Nat}

mutual

/-- The number of filters around the innermost one. -/
def depth : Filter → Nat
  | .and filters => depthAll filters
  | .or filters => depthAll filters
  | .not filter => depth filter + 1
  | .compare .. | .substrings .. | .present _ | .extensible .. => 0

def depthAll : List Filter → Nat
  | [] => 0
  | filter :: rest => max (depth filter + 1) (depthAll rest)

end

mutual

/-- Every extensible match has a rule or an attribute. -/
def targeted : Filter → Bool
  | .and filters => targetedAll filters
  | .or filters => targetedAll filters
  | .not filter => targeted filter
  | .extensible rule name _ _ => rule.isSome || name.isSome
  | .compare .. | .substrings .. | .present _ => true

def targetedAll : List Filter → Bool
  | [] => true
  | filter :: rest => targeted filter && targetedAll rest

end

theorem toItems_eq_map (filters : List Filter) : toItems filters = filters.map toItem := by
  induction filters with
  | nil => rfl
  | cons filter rest ih => rw [toItems, ih, List.map_cons]

theorem depthAll_le_iff {filters : List Filter} {n : Nat} : depthAll filters ≤ n ↔ ∀ f ∈ filters, depth f < n := by
  induction filters with
  | nil => simp [depthAll]
  | cons filter rest ih =>
    rw [depthAll, Nat.max_le, ih, List.forall_mem_cons]
    rfl

theorem targetedAll_iff {filters : List Filter} : targetedAll filters ↔ ∀ f ∈ filters, targeted f := by
  induction filters with
  | nil => simp [targetedAll]
  | cons filter rest ih => simp [targetedAll, ih]

/-- The filter nests over fewer than the given number of levels, and can be read back from there. -/
def Fits (levels : Nat) (f : Filter) : Prop := f.depth < levels ∧ f.targeted

instance (levels : Nat) : DecidablePred (Fits levels) := fun f =>
  inferInstanceAs (Decidable (f.depth < levels ∧ f.targeted))

/-- A set of filters nests one level more than they do. -/
theorem fitsAll_iff {filters : List Filter} {levels : Nat} :
    depthAll filters < levels + 1 ∧ targetedAll filters ↔ ∀ f ∈ filters, Fits levels f := by
  rw [Nat.lt_succ_iff, depthAll_le_iff, targetedAll_iff]
  exact ⟨fun h f hf => ⟨h.1 f hf, h.2 f hf⟩, fun h => ⟨fun f hf => (h f hf).1, fun f hf => (h f hf).2⟩⟩

/-! ### Leaves -/

theorem comparisonOfTag?_comparisonTag (c : Comparison) : comparisonOfTag? (comparisonTag c) = some c := by
  cases c <;> rfl

namespace Parts

variable {parts parts' : Parts} {tag : UInt8} {value : List UInt8}

theorem reads (h : parts.add tag value = .ok parts') :
    Reads limit stop parts.read [.octets tag value] parts' := by
  refine Reads.peekRequired_bind (Reads.bind_cons (fun _ => Reads.octets tag value) ?_)
  rw [Item.tag]
  exact Reads.lift h

theorem folds_any (any : List (List UInt8)) (hf : parts.final = none) :
    Reads.Folds limit read parts (any.map (Item.octets anyTag)) { parts with any := parts.any ++ any } := by
  induction any generalizing parts with
  | nil =>
    rw [List.append_nil]
    exact .nil parts
  | cons value any ih =>
    have hne : ¬ (anyTag = initialTag ∧ parts.initial.isNone ∧ parts.any.isEmpty) :=
      fun h => absurd h.1 (by decide)
    have hadd : parts.add anyTag value = .ok { parts with any := parts.any ++ [value] } := by
      rw [add, if_neg hne, if_pos ⟨rfl, by simp [hf]⟩]
    have hrest := @ih { parts with any := parts.any ++ [value] } hf
    rw [List.append_assoc] at hrest
    exact .cons (fun _ => reads hadd) hrest

/-- The parts of a substrings filter, gathered in the order in which they are written. -/
theorem folds (initial : Option (List UInt8)) (any : List (List UInt8)) (final : Option (List UInt8)) :
    Reads.Folds limit read {} ((initial.map (Item.octets initialTag)).toList
      ++ any.map (Item.octets anyTag) ++ (final.map (Item.octets finalTag)).toList)
      ⟨initial, any, final⟩ := by
  have h1 : Reads.Folds limit read {} (initial.map (Item.octets initialTag)).toList ⟨initial, [], none⟩ := by
    cases initial with
    | none => exact .nil _
    | some value => exact .cons (fun _ => reads rfl) (.nil _)
  have h2 : Reads.Folds limit read ⟨initial, any, none⟩ (final.map (Item.octets finalTag)).toList
      ⟨initial, any, final⟩ := by
    cases final with
    | none => exact .nil _
    | some value => exact .cons (fun _ => reads rfl) (.nil _)
  exact (h1.append (folds_any any rfl)).append h2

end Parts

theorem reads_parts (name : String) (initial : Option (List UInt8)) (any : List (List UInt8))
    (final : Option (List UInt8)) :
    Reads limit stop (do
      let name ← ReadM.text
      let parts ← ReadM.components (← ReadM.sequence) Parts.read {}
      return substrings name parts.initial parts.any parts.final)
      [.ofText name, .sequence ((initial.map (Item.octets initialTag)).toList ++ any.map (Item.octets anyTag)
        ++ (final.map (Item.octets finalTag)).toList)] (.substrings name initial any final) := by
  refine Reads.bind_cons (fun _ => Reads.text _ name) ?_
  refine Reads.sequence_bind fun s hs => ?_
  exact Reads.bind (fun t ht => Reads.components (by dsimp only; omega) (Nat.le_refl _) (Parts.folds initial any final))
    (Reads.pure _)

theorem reads_substrings (name : String) (initial : Option (List UInt8)) (any : List (List UInt8))
    (final : Option (List UInt8)) :
    Reads limit stop readSubstrings [(substrings name initial any final).toItem]
      (.substrings name initial any final) := by
  rw [toItem]
  exact Reads.sequence_bind fun s hs => reads_parts name initial any final

/-- The components of an extensible match, gathered in the order in which they are written. -/
theorem Match.folds (rule name : Option String) (value : List UInt8) (dnAttributes : Bool) :
    Reads.Folds limit read {} ((rule.map (Item.text ruleTag)).toList
      ++ (name.map (Item.text nameTag)).toList ++ [.octets valueTag value]
      ++ if dnAttributes then [.boolean dnAttributesTag true] else [])
      ⟨rule, name, some value, dnAttributes⟩ := by
  have h1 : Reads.Folds limit read {} (rule.map (Item.text ruleTag)).toList ⟨rule, none, none, false⟩ := by
    cases rule with
    | none => exact .nil _
    | some rule => exact .cons (fun _ => Reads.peekRequired_bind (Reads.map (Reads.text _ rule))) (.nil _)
  have h2 : Reads.Folds limit read ⟨rule, none, none, false⟩ (name.map (Item.text nameTag)).toList
      ⟨rule, name, none, false⟩ := by
    cases name with
    | none => exact .nil _
    | some name => exact .cons (fun _ => Reads.peekRequired_bind (Reads.map (Reads.text _ name))) (.nil _)
  have h3 : Reads.Folds limit read ⟨rule, name, none, false⟩ [.octets valueTag value]
      ⟨rule, name, some value, false⟩ :=
    .cons (fun _ => Reads.peekRequired_bind (Reads.map (Reads.octets _ value))) (.nil _)
  have h4 : Reads.Folds limit read ⟨rule, name, some value, false⟩
      (if dnAttributes then [.boolean dnAttributesTag true] else [])
      ⟨rule, name, some value, dnAttributes⟩ := by
    cases dnAttributes with
    | false => exact .nil _
    | true => exact .cons (fun _ => Reads.peekRequired_bind (Reads.map (Reads.boolean _ true))) (.nil _)
  exact ((h1.append h2).append h3).append h4

theorem reads_extensible (rule name : Option String) (value : List UInt8) (dnAttributes : Bool)
    (h : rule.isSome || name.isSome) :
    Reads limit stop readExtensible [(extensible rule name value dnAttributes).toItem]
      (.extensible rule name value dnAttributes) := by
  rw [toItem]
  refine Reads.sequence_bind fun s hs => ?_
  refine Reads.bind (fun t ht => Reads.components (by dsimp only; omega) (Nat.le_refl _)
    (Match.folds rule name value dnAttributes)) (Reads.lift ?_)
  have hne : ¬ (rule.isNone ∧ name.isNone) := by
    cases rule <;> cases name <;> simp_all
  exact if_neg hne

theorem reads_assertion (comparison : Comparison) (name : String) (value : List UInt8) :
    Reads limit stop (do return compare comparison (← ReadM.text) (← ReadM.octets)) [.ofText name, .ofBytes value]
      (.compare comparison name value) :=
  Reads.bind_cons (fun _ => Reads.text _ name) (Reads.map (Reads.octets _ value))

theorem reads_comparison (comparison : Comparison) (name : String) (value : List UInt8) :
    Reads limit stop (readComparison comparison) [(compare comparison name value).toItem]
      (.compare comparison name value) := by
  rw [toItem]
  exact Reads.sequence_bind fun s hs => reads_assertion comparison name value

theorem comparisonTag_ne (c : Comparison) :
    comparisonTag c ≠ andTag ∧ comparisonTag c ≠ orTag ∧ comparisonTag c ≠ notTag := by
  cases c <;> decide

/-! ### Trees -/

/-- A filter is read back over as many levels as it nests. -/
theorem reads_levels (levels : Nat) (f : Filter) (hd : depth f < levels) (ht : targeted f) :
    ∀ stop, Reads limit stop (readLevels levels) [f.toItem] f := by
  induction levels generalizing f with
  | zero => exact absurd hd (Nat.not_lt_zero _)
  | succ levels ih =>
    intro stop
    rw [readLevels]
    have hall (filters : List Filter) (hd : depthAll filters < levels + 1) (ht : targetedAll filters) :
        ∀ f ∈ filters, ∀ s, Reads limit s (readLevels levels) [f.toItem] f := by
      intro f hf
      obtain ⟨hd, ht⟩ := fitsAll_iff.mp ⟨hd, ht⟩ f hf
      exact ih f hd ht
    refine Reads.peekRequired_bind ?_
    cases f with
    | and filters =>
      rw [toItem, toItems_eq_map, Item.tag, if_pos rfl]
      exact Reads.sequence_listOf_bind (hall filters hd ht) (Reads.pure _)
    | or filters =>
      rw [toItem, toItems_eq_map, Item.tag, if_neg (by decide), if_pos rfl]
      exact Reads.sequence_listOf_bind (hall filters hd ht) (Reads.pure _)
    | not f =>
      rw [toItem, Item.tag, if_neg (by decide), if_neg (by decide), if_pos rfl]
      rw [depth] at hd
      rw [targeted] at ht
      refine Reads.sequence_bind fun s hs => ?_
      refine Reads.bind_cons (ih f (by omega) ht) (Reads.more_done hs ?_)
      rw [if_neg Bool.false_ne_true]
      exact Reads.pure _
    | compare c name value =>
      obtain ⟨hand, hor, hnot⟩ := comparisonTag_ne c
      rw [toItem, Item.tag, if_neg hand, if_neg hor, if_neg hnot, readLeaf, comparisonOfTag?_comparisonTag]
      exact reads_comparison c name value
    | substrings name initial any final => exact reads_substrings name initial any final
    | present name => exact Reads.map (Reads.text _ name)
    | extensible rule name value dnAttributes =>
      exact reads_extensible rule name value dnAttributes ht

end Ldap.Filter
