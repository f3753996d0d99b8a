import Ldap.Proofs.Entry.Naming
import Ldap.Proofs.Entry.Order
import Ldap.Proofs.Entry.Parts

/-! Filters in which letters have changed their case. Wherever they are in a filter, it keeps matching the entries that
it matched, but for the values that are compared with those of an attribute that keeps passwords, byte for byte. -/

namespace Ldap

open Text (RecasedBytes RecasedText lowerBytes)

variable {name other : String} {name? other? : Option String} {value w v : List UInt8}
  {initial initial' final final' : Option (List UInt8)} {any any' : List (List UInt8)}

/-! ### Filters -/

/-- The name has "password" in it, in any case. -/
def Guarded (name : String) : Prop := "password".toList <:+: (Text.lowerAscii name).toList

instance (name : String) : Decidable (Guarded name) := inferInstanceAs (Decidable (_ <:+: _))

namespace Filter

mutual

/-- Filters that are the same but for the case of letters in the names of attributes and in values. A value stays as it
is if it is to be equal to one of an attribute with "password" in its name. -/
inductive Recased : Filter → Filter → Prop
  | and {filters recased : List Filter} (h : RecasedAll filters recased) : Recased (.and filters) (.and recased)
  | or {filters recased : List Filter} (h : RecasedAll filters recased) : Recased (.or filters) (.or recased)
  | not {filter recased : Filter} (h : Recased filter recased) : Recased (.not filter) (.not recased)
  | compare {comparison : Comparison} {name other : String} {value w : List UInt8} (hn : RecasedText name other)
    (hv : RecasedBytes value w)
    (hguarded : comparison = .equality ∨ comparison = .approximate → Guarded name → w = value) :
    Recased (.compare comparison name value) (.compare comparison other w)
  | substrings {name other : String} {initial initial' final final' : Option (List UInt8)}
    {any any' : List (List UInt8)} (hn : RecasedText name other) (hi : Option.Rel RecasedBytes initial initial')
    (ha : List.Forall₂ RecasedBytes any any') (hf : Option.Rel RecasedBytes final final') :
    Recased (.substrings name initial any final) (.substrings other initial' any' final')
  | present {name other : String} (hn : RecasedText name other) : Recased (.present name) (.present other)
  | extensible {rule name other : Option String} {value w : List UInt8} {dnAttributes : Bool}
    (hn : Option.Rel RecasedText name other) (hv : RecasedBytes value w)
    (hguarded : ∀ target, name = some target → Guarded target → w = value) :
    Recased (.extensible rule name value dnAttributes) (.extensible rule other w dnAttributes)

inductive RecasedAll : List Filter → List Filter → Prop
  | nil : RecasedAll [] []
  | cons {filter recased : Filter} {filters rest : List Filter} (h : Recased filter recased)
    (hrest : RecasedAll filters rest) : RecasedAll (filter :: filters) (recased :: rest)

end

end Filter

/-! ### Leaves -/

theorem comparand_eq (name : String) (value : List UInt8) :
    comparand name value = if Guarded name then value else lowerBytes value :=
  if_congr Text.containsPart_iff rfl rfl

theorem sameValue_recased (hn : RecasedText name other) (hv : RecasedBytes value w)
    (hguarded : Guarded name → w = value) : sameValue other value w := by
  rw [sameValue_iff, ← comparand_congr hn.sameText, comparand_eq, comparand_eq]
  split
  · exact (hguarded ‹_›).symm
  · exact hv.lowerBytes_eq

theorem compareValues_congr (h : lowerBytes value = lowerBytes w) : compareValues v value = compareValues v w := by
  rw [compareValues, compareValues, Text.numberOf?_congr h, h]

theorem sameBytes_congr (h : lowerBytes value = lowerBytes w) : Text.sameBytes v value = Text.sameBytes v w := by
  rw [Text.sameBytes, Text.sameBytes, h]

theorem lowerBytes_getD (h : Option.Rel RecasedBytes initial initial') :
    lowerBytes (initial.getD []) = lowerBytes (initial'.getD []) := by
  cases h with
  | some h => exact h.lowerBytes_eq
  | none => rfl

theorem matchesParts_recased (hi : Option.Rel RecasedBytes initial initial') (ha : List.Forall₂ RecasedBytes any any')
    (hf : Option.Rel RecasedBytes final final') :
    matchesParts v initial any final = matchesParts v initial' any' final' := by
  have hany : any.map lowerBytes = any'.map lowerBytes := by
    induction ha with
    | nil => rfl
    | cons h _ ih => exact congrArg₂ List.cons h.lowerBytes_eq ih
  rw [matchesParts_eq, matchesParts_eq, lowerBytes_getD hi, lowerBytes_getD hf, hany]

namespace Entry

variable {e : Entry} {comparison : Comparison}

theorem hasValue_recased (hn : RecasedText name other) (hv : RecasedBytes value w)
    (hguarded : Guarded name → w = value) : e.hasValue name value = e.hasValue other w :=
  Bool.eq_iff_iff.mpr (hasValue_congr hn.sameText (sameValue_recased hn hv hguarded))

theorem satisfies_recased (hn : RecasedText name other) (hv : RecasedBytes value w)
    (hguarded : comparison = .equality ∨ comparison = .approximate → Guarded name → w = value) :
    e.satisfies comparison name value = e.satisfies comparison other w := by
  have hvalues : e.values name = e.values other := values_congr hn.sameText
  cases comparison with
  | equality => exact hasValue_recased hn hv (hguarded (.inl rfl))
  | approximate => exact hasValue_recased hn hv (hguarded (.inr rfl))
  | greaterOrEqual => simp only [satisfies, hvalues, compareValues_congr hv.lowerBytes_eq]
  | lessOrEqual => simp only [satisfies, hvalues, compareValues_congr hv.lowerBytes_eq]

theorem hasValueOf_recased (hn : Option.Rel RecasedText name? other?) (hv : RecasedBytes value w)
    (hguarded : ∀ target, name? = some target → Guarded target → w = value) :
    e.hasValueOf name? value = e.hasValueOf other? w := by
  cases hn with
  | some hn => exact hasValue_recased hn hv (hguarded _ rfl)
  | none => simp only [hasValueOf, sameBytes_congr hv.lowerBytes_eq]

theorem hasNamingValue_recased (hn : Option.Rel RecasedText name? other?) (hv : RecasedBytes value w) :
    e.hasNamingValue name? value = e.hasNamingValue other? w := by
  have hname : ∀ s, name?.all (Text.sameText · s) = other?.all (Text.sameText · s) := by
    intro s
    cases hn with
    | some hn => simp only [Option.all_some, Text.sameText, Text.sameText_iff.mp hn.sameText]
    | none => rfl
  simp only [hasNamingValue, hname, sameBytes_congr hv.lowerBytes_eq]

/-! ### Trees -/

/-- A filter matches the same entries when letters change their case, at whatever depth, in the names of attributes and
in all values but those to be equal to one of an attribute with "password" in its name. -/
theorem isMatch_recased {f g : Filter} (h : f.Recased g) (e : Entry) : e.isMatch f = e.isMatch g := by
  -- along with what holds of lists of filters, by which both sets go on
  refine @Filter.Recased.rec (fun f g _ => e.isMatch f = e.isMatch g)
    (fun fs gs _ => e.matchesAll fs = e.matchesAll gs ∧ e.matchesAny fs = e.matchesAny gs)
    ?and ?or ?not ?compare ?substrings ?present ?extensible ?nil ?cons f g h
  case and => exact fun _ ih => ih.1
  case or => exact fun _ ih => ih.2
  case not => exact fun _ ih => congrArg Bool.not ih
  case compare => exact satisfies_recased
  case substrings =>
    intro name other initial initial' final final' any any' hn hi ha hf
    simp only [isMatch, values_congr hn.sameText, matchesParts_recased hi ha hf]
  case present => exact fun hn => hasAttribute_congr hn.sameText
  case extensible =>
    intro rule name other value w dnAttributes hn hv hguarded
    rw [isMatch, isMatch, hasValueOf_recased hn hv hguarded, hasNamingValue_recased hn hv]
  case nil => exact ⟨rfl, rfl⟩
  case cons =>
    intro f g fs gs _ _ ih ihs
    rw [matchesAll, matchesAll, matchesAny, matchesAny, ih, ihs.1, ihs.2]
    exact ⟨rfl, rfl⟩

/-- The password stays as it is, while its attribute, the part of the name and the unit change their case. -/
theorem isMatch_recased_people :
    let bytes := Ber.utf8Bytes
    let e : Entry := { dn := "cn=Ada,ou=People", attributes := [.ofTexts "cn" ["Ada"], .ofTexts "userPassword" ["pW"]] }
    let f : Filter := .and [.equality "userPassword" (bytes "pW"),
      .not (.or [.substrings "cn" none [bytes "x"] none, .compare .lessOrEqual "cn" (bytes "aa")]),
      .extensible none (some "ou") (bytes "people") true]
    let g : Filter := .and [.equality "USERpassword" (bytes "pW"),
      .not (.or [.substrings "CN" none [bytes "X"] none, .compare .lessOrEqual "cN" (bytes "AA")]),
      .extensible none (some "Ou") (bytes "PEOPLE") true]
    f.Recased g ∧ e.isMatch f ∧ e.isMatch g := by
  intro bytes e f g
  have hpassword : Filter.Recased (.equality "userPassword" (bytes "pW")) (.equality "USERpassword" (bytes "pW")) :=
    .compare (by decide +kernel) (by decide +kernel) fun _ _ => rfl
  have hpart : Filter.Recased (.substrings "cn" none [bytes "x"] none) (.substrings "CN" none [bytes "X"] none) :=
    .substrings (by decide +kernel) .none (by decide +kernel) .none
  have hbound : Filter.Recased (.compare .lessOrEqual "cn" (bytes "aa")) (.compare .lessOrEqual "cN" (bytes "AA")) :=
    .compare (by decide +kernel) (by decide +kernel) nofun
  have hunit : Filter.Recased (.extensible none (some "ou") (bytes "people") true)
      (.extensible none (some "Ou") (bytes "PEOPLE") true) :=
    .extensible (.some (by decide +kernel)) (by decide +kernel) fun _ h hguarded => by
      obtain rfl := Option.some.inj h
      exact absurd hguarded (by decide +kernel)
  have hrecased : f.Recased g :=
    .and (.cons hpassword (.cons (.not (.or (.cons hpart (.cons hbound .nil)))) (.cons hunit .nil)))
  have hmatch : e.isMatch f := by decide +kernel
  exact ⟨hrecased, hmatch, isMatch_recased hrecased e ▸ hmatch⟩

end Entry

end Ldap
