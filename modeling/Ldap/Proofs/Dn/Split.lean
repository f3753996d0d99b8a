import Ldap.Directory.Update
import Ldap.Proofs.Dn.Key
import Ldap.Proofs.Text.Blank

/-! How names are put together from relative names and fall apart into them again. Relative names with commas
between them are cut at these commas, if none of them ends within quotes or with a backslash that would take away
the meaning of the comma after it. -/

namespace Ldap.Dn

open Text (ne_of_isBlank trimChars_concat trimChars_cons trimChars_eq)

/-! ### The cutter -/

/-- Separators of relative names. -/
def isSeparator (c : Char) : Bool := c == ',' || c == ';'

/-- What the cutter knows of the characters before: whether the next one is escaped, and whether it is between
quotes. -/
structure Context where
  escaped : Bool := false
  quoted : Bool := false
deriving DecidableEq

namespace Context

def next (x : Context) (c : Char) : Context :=
  if x.escaped then { x with escaped := false }
  else if c = '\\' then { x with escaped := true }
  else if c = '"' then { x with quoted := !x.quoted }
  else x

/-- The context behind some characters. -/
def after (x : Context) (cs : List Char) : Context := cs.foldl next x

/-- Whether a character is a separator in a context. -/
def separates (x : Context) (c : Char) : Bool := !x.escaped && !x.quoted && isSeparator c

theorem after_append (x : Context) (as bs : List Char) : x.after (as ++ bs) = (x.after as).after bs :=
  List.foldl_append

theorem next_of_separates {x : Context} {c : Char} (h : x.separates c) : x = {} ∧ x.next c = {} := by
  obtain ⟨escaped, quoted⟩ := x
  simp only [separates, isSeparator, Bool.and_eq_true, Bool.not_eq_true', Bool.or_eq_true, beq_iff_eq] at h
  obtain ⟨⟨rfl, rfl⟩, rfl | rfl⟩ := h <;> decide

end Context

def cutFrom (x : Context) (cs : List Char) : List (List Char) := cut isSeparator true x.escaped x.quoted cs

variable {x : Context} {c : Char} {cs rest : List Char}

theorem cutFrom_cons (x : Context) (c : Char) (cs : List Char) :
    cutFrom x (c :: cs) =
      if x.separates c then [] :: cutFrom (x.next c) cs else consFirst c (cutFrom (x.next c) cs) := by
  obtain ⟨_ | _, quoted⟩ := x
  · by_cases hb : c = '\\'
    · simp [cutFrom, cut, Context.next, Context.separates, isSeparator, hb]
    · by_cases hq : c = '"'
      · simp [cutFrom, cut, Context.next, Context.separates, isSeparator, hq]
      · simp [cutFrom, cut, Context.next, Context.separates, hb, hq, and_comm]
  · simp [cutFrom, cut, Context.next, Context.separates]

theorem cutFrom_ne_nil : cutFrom x cs ≠ [] := by
  induction cs generalizing x with
  | nil => simp [cutFrom, cut]
  | cons c cs ih =>
    rw [cutFrom_cons]
    split
    · simp
    · cases h : cutFrom (x.next c) cs <;> simp [consFirst]

/-- No character is a separator where it stands. -/
def Unbroken (x : Context) : List Char → Prop
  | [] => True
  | c :: cs => x.separates c = false ∧ Unbroken (x.next c) cs

theorem unbroken_append : Unbroken x (cs ++ rest) ↔ Unbroken x cs ∧ Unbroken (x.after cs) rest := by
  induction cs generalizing x with
  | nil => exact ⟨fun h => ⟨trivial, h⟩, fun h => h.2⟩
  | cons c cs ih =>
    rw [List.cons_append, Unbroken, Unbroken, ih, and_assoc]
    rfl

theorem Unbroken.of_append (h : Unbroken x (cs ++ rest)) : Unbroken x cs := (unbroken_append.mp h).1

/-- Characters that are no separators all go into the first piece. -/
theorem cutFrom_append (h : Unbroken x cs) :
    cutFrom x (cs ++ rest) = cs.foldr consFirst (cutFrom (x.after cs) rest) := by
  induction cs generalizing x with
  | nil => rfl
  | cons c cs ih =>
    rw [List.cons_append, cutFrom_cons, h.1, ih h.2]
    rfl

theorem foldr_consFirst (cs piece : List Char) (pieces : List (List Char)) :
    cs.foldr consFirst (piece :: pieces) = (cs ++ piece) :: pieces := by
  induction cs with
  | nil => rfl
  | cons c cs ih => rw [List.foldr_cons, ih]; rfl

theorem cutFrom_of_unbroken (h : Unbroken x cs) : cutFrom x cs = [cs] := by
  have happend : cutFrom x (cs ++ []) = cs.foldr consFirst (cutFrom (x.after cs) []) := cutFrom_append h
  simpa [cutFrom, cut, foldr_consFirst] using happend

/-- A piece ends at a separator, behind which the cutting starts again. -/
theorem cutFrom_separator (h : Unbroken x cs) (ha : x.after cs = {}) :
    cutFrom x (cs ++ ',' :: rest) = cs :: cutFrom {} rest := by
  have hnext : cutFrom {} (',' :: rest) = [] :: cutFrom {} rest := cutFrom_cons {} ',' rest
  rw [cutFrom_append h, ha, hnext, foldr_consFirst, List.append_nil]

theorem unbroken_of_mem_cutFrom {first : List Char} {pieces : List (List Char)} (h : cutFrom x cs = first :: pieces) :
    Unbroken x first ∧ ∀ piece ∈ pieces, Unbroken {} piece := by
  induction cs generalizing x first pieces with
  | nil =>
    obtain ⟨rfl, rfl⟩ : [] = first ∧ [] = pieces := by simpa [cutFrom, cut] using h
    exact ⟨trivial, by simp⟩
  | cons c cs ih =>
    have hne : cutFrom (x.next c) cs ≠ [] := cutFrom_ne_nil
    obtain ⟨next, others, hnext⟩ := List.exists_cons_of_ne_nil hne
    obtain ⟨hfirst, hothers⟩ := ih hnext
    rw [cutFrom_cons, hnext] at h
    by_cases hs : x.separates c = true
    · rw [if_pos hs] at h
      obtain ⟨rfl, rfl⟩ := List.cons.inj h
      rw [(Context.next_of_separates hs).2] at hfirst
      exact ⟨trivial, by simpa using ⟨hfirst, hothers⟩⟩
    · rw [if_neg hs] at h
      obtain ⟨rfl, rfl⟩ := List.cons.inj h
      exact ⟨⟨by simpa using hs, hfirst⟩, hothers⟩

/-! ### Blanks -/

theorem next_of_isBlank (h : Text.isBlank c) : ({} : Context).next c = {} := by
  have hbackslash : c ≠ '\\' := (ne_of_isBlank h (by decide)).symm
  have hquote : c ≠ '"' := (ne_of_isBlank h (by decide)).symm
  simp [Context.next, hbackslash, hquote]

/-- A blank at the end goes into the last piece. -/
theorem cut_concat {sep : Char → Bool} (hb : Text.isBlank c) (hsep : sep c = false) (quotes escaped quoted : Bool)
    (cs : List Char) : ∃ front last, cut sep quotes escaped quoted cs = front ++ [last] ∧
      cut sep quotes escaped quoted (cs ++ [c]) = front ++ [last ++ [c]] := by
  have hbackslash : c ≠ '\\' := (ne_of_isBlank hb (by decide)).symm
  have hquote : c ≠ '"' := (ne_of_isBlank hb (by decide)).symm
  have hcons : ∀ (x : Char) (pieces pieces' : List (List Char)),
      (∃ front last, pieces = front ++ [last] ∧ pieces' = front ++ [last ++ [c]]) →
      ∃ front last, consFirst x pieces = front ++ [last] ∧ consFirst x pieces' = front ++ [last ++ [c]] := by
    rintro x _ _ ⟨front, last, rfl, rfl⟩
    cases front with
    | nil => exact ⟨[], x :: last, rfl, rfl⟩
    | cons first front => exact ⟨(x :: first) :: front, last, rfl, rfl⟩
  fun_induction cut sep quotes escaped quoted cs with
  | case1 escaped quoted =>
    cases escaped <;> exact ⟨[], [], by simp [cut, consFirst, hbackslash, hquote, hsep]⟩
  | case2 quoted x cs ih => exact hcons x _ _ ih
  | case3 quoted cs ih => simpa [cut] using hcons _ _ _ ih
  | case4 quoted x cs hne hq ih => simpa [cut, hne, hq] using hcons x _ _ ih
  | case5 quoted x cs hne hq hs ih =>
    obtain ⟨front, last, heq, heq'⟩ := ih
    exact ⟨[] :: front, last, by rw [heq]; rfl, by simp [cut, hne, hq, hs, heq']⟩
  | case6 quoted x cs hne hq hs ih =>
    simp only [List.cons_append, cut, if_neg hne, if_neg hq, if_neg hs]
    exact hcons x _ _ ih

theorem Unbroken.dropWhile (h : Unbroken {} cs) : Unbroken {} (cs.dropWhile Text.isBlank) := by
  induction cs with
  | nil => exact h
  | cons c cs ih =>
    rw [List.dropWhile_cons]
    split
    · rename_i hc
      exact ih (next_of_isBlank hc ▸ h.2)
    · exact h

theorem Unbroken.trimChars (h : Unbroken {} cs) : Unbroken {} (Text.trimChars cs) := by
  obtain ⟨blanks, hb⟩ := List.rdropWhile_prefix Text.isBlank (cs.dropWhile Text.isBlank)
  have happend : Unbroken {} (Text.trimChars cs ++ blanks) := by
    rw [trimChars_eq, hb]
    exact h.dropWhile
  exact happend.of_append

/-! ### Relative names -/

/-- A text is one relative name as it stands. -/
structure Whole (rdn : String) : Prop where
  unbroken : Unbroken {} rdn.toList
  trimmed : Text.trimChars rdn.toList = rdn.toList

/-- No quotes are left open at the end of a text, nor is what comes after it escaped. -/
def Sealed (rdn : String) : Prop := ({} : Context).after rdn.toList = {}

instance (rdn : String) : Decidable (Sealed rdn) := inferInstanceAs (Decidable (_ = _))

theorem split_eq (dn : String) :
    split dn = if (cutFrom {} dn.toList).map Text.trimChars = [[]] then []
      else ((cutFrom {} dn.toList).map Text.trimChars).map String.ofList := rfl

/-- Blanks around a name are not part of its relative names. -/
theorem split_trim (dn : String) : split (Text.trim dn) = split dn := by
  have hsep : ∀ {b : Char}, Text.isBlank b → isSeparator b = false := fun {b} hb => by
    have hcomma : b ≠ ',' := (ne_of_isBlank hb (by decide)).symm
    have hsemicolon : b ≠ ';' := (ne_of_isBlank hb (by decide)).symm
    simp [isSeparator, hcomma, hsemicolon]
  have hfront : ∀ b cs, Text.isBlank b →
      (cutFrom {} (b :: cs)).map Text.trimChars = (cutFrom {} cs).map Text.trimChars := by
    intro b cs hb
    have hne : cutFrom {} cs ≠ [] := cutFrom_ne_nil
    obtain ⟨first, others, heq⟩ := List.exists_cons_of_ne_nil hne
    rw [cutFrom_cons, next_of_isBlank hb, if_neg (by simp [Context.separates, hsep hb]), heq]
    simp [consFirst, trimChars_cons hb]
  have hback : ∀ b cs, Text.isBlank b →
      (cutFrom {} (cs ++ [b])).map Text.trimChars = (cutFrom {} cs).map Text.trimChars := by
    intro b cs hb
    obtain ⟨front, last, heq, heq'⟩ := cut_concat hb (hsep hb) true false false cs
    rw [cutFrom, cutFrom, heq, heq']
    simp [trimChars_concat hb]
  rw [split_eq, split_eq, Text.trim, String.toList_ofList,
    Text.apply_trimChars (fun cs => (cutFrom {} cs).map Text.trimChars) hfront hback dn.toList]

theorem normalize_trim (dn : String) : normalize (Text.trim dn) = normalize dn := by
  rw [normalize, normalize, rdns, rdns, split_trim]

theorem whole_of_mem_split {dn rdn : String} (h : rdn ∈ split dn) : Whole rdn := by
  rw [split_eq] at h
  split at h
  · cases h
  · obtain ⟨_, hmem, rfl⟩ := List.mem_map.mp h
    obtain ⟨piece, hpiece, rfl⟩ := List.mem_map.mp hmem
    have hne : cutFrom {} dn.toList ≠ [] := cutFrom_ne_nil
    obtain ⟨first, pieces, heq⟩ := List.exists_cons_of_ne_nil hne
    obtain ⟨hfirst, hpieces⟩ := unbroken_of_mem_cutFrom heq
    have hu : Unbroken {} piece := by
      rcases List.mem_cons.mp (heq ▸ hpiece) with rfl | hp
      · exact hfirst
      · exact hpieces piece hp
    exact ⟨by simpa using hu.trimChars, by simp⟩

theorem split_of_whole {rdn : String} (h : Whole rdn) (hn : rdn ≠ "") : split rdn = [rdn] := by
  have hne : rdn.toList ≠ [] := by simpa using hn
  simp [split_eq, cutFrom_of_unbroken h.unbroken, h.trimmed, hne]

/-- A relative name in front of others is cut off behind its end. -/
theorem split_cons {rdn dn : String} (h : Whole rdn) (hs : Sealed rdn) (hdn : split dn ≠ []) :
    split (rdn ++ "," ++ dn) = rdn :: split dn := by
  have hcut : cutFrom {} (rdn ++ "," ++ dn).toList = rdn.toList :: cutFrom {} dn.toList := by
    simpa using cutFrom_separator h.unbroken hs
  rw [split_eq] at hdn
  rw [split_eq, hcut, split_eq dn]
  split at hdn
  · exact absurd rfl hdn
  · rename_i hblank
    have hmore : cutFrom {} dn.toList ≠ [] := cutFrom_ne_nil
    simp [h.trimmed, hblank, hmore]

/-- Relative names with commas between them, and a name behind them. -/
theorem split_append {rdns : List String} {dn : String} (hne : rdns ≠ []) (h : ∀ rdn ∈ rdns, Whole rdn)
    (hs : ∀ rdn ∈ rdns, Sealed rdn) (hdn : split dn ≠ []) :
    split (",".intercalate rdns ++ "," ++ dn) = rdns ++ split dn := by
  induction rdns with
  | nil => exact absurd rfl hne
  | cons rdn rdns ih =>
    have hw : Whole rdn := h rdn (by simp)
    have hr : Sealed rdn := hs rdn (by simp)
    cases rdns with
    | nil => simpa using split_cons hw hr hdn
    | cons second rdns =>
      have hrest := ih (by simp) (fun r hr => h r (List.mem_cons_of_mem _ hr))
        (fun r hr => hs r (List.mem_cons_of_mem _ hr))
      have hmore : split (",".intercalate (second :: rdns) ++ "," ++ dn) ≠ [] := by simp [hrest]
      have hglue : ",".intercalate (rdn :: second :: rdns) ++ "," ++ dn =
          rdn ++ "," ++ (",".intercalate (second :: rdns) ++ "," ++ dn) := by
        simp [String.intercalate_cons_cons, String.append_assoc]
      rw [hglue, split_cons hw hr hmore, hrest]
      rfl

/-- Relative names with commas between them fall apart into the same relative names. -/
theorem split_intercalate {rdns : List String} (h : ∀ rdn ∈ rdns, Whole rdn) (hs : ∀ rdn ∈ rdns.dropLast, Sealed rdn)
    (hn : "" ∉ rdns) : split (",".intercalate rdns) = rdns := by
  rcases List.eq_nil_or_concat rdns with rfl | ⟨front, last, rfl⟩
  · decide
  · simp only [List.concat_eq_append, List.mem_append, List.mem_singleton, not_or, List.dropLast_concat] at h hs hn ⊢
    have hlast : split last = [last] := split_of_whole (h last (.inr rfl)) (Ne.symm hn.2)
    by_cases hf : front = []
    · simpa [hf] using hlast
    · have hglue : ",".intercalate (front ++ [last]) = ",".intercalate front ++ "," ++ last := by
        simp [String.intercalate_append_of_ne_nil, hf]
      rw [hglue, split_append hf (fun r hr => h r (.inl hr)) hs (by simp [hlast]), hlast]

/-! ### Plain names -/

/-- A name whose key is faithful, and of which every relative name keeps its end when others follow it. -/
structure Plain (dn : String) : Prop where
  named : Named dn
  legible : Legible dn
  closed : ∀ rdn ∈ (split dn).dropLast, Sealed rdn

instance (dn : String) : Decidable (Plain dn) :=
  decidable_of_iff (Named dn ∧ Legible dn ∧ ∀ rdn ∈ (split dn).dropLast, Sealed rdn)
    ⟨fun ⟨hn, hl, hc⟩ => ⟨hn, hl, hc⟩, fun h => ⟨h.named, h.legible, h.closed⟩⟩

/-- A text that is one plain relative name, once the blanks around it are removed. -/
structure Single (rdn : String) : Prop where
  one : split (Text.trim rdn) = [Text.trim rdn]
  closed : Sealed (Text.trim rdn)
  plain : Plain (Text.trim rdn)

instance (rdn : String) : Decidable (Single rdn) :=
  decidable_of_iff (split (Text.trim rdn) = [Text.trim rdn] ∧ Sealed (Text.trim rdn) ∧ Plain (Text.trim rdn))
    ⟨fun ⟨ho, hc, hp⟩ => ⟨ho, hc, hp⟩, fun h => ⟨h.one, h.closed, h.plain⟩⟩

variable {a b dn superior rdn : String} {front : List String}

theorem length_rdns (dn : String) : (rdns dn).length = (split dn).length := List.length_map _

theorem split_eq_nil_iff : split dn = [] ↔ rdns dn = [] := List.map_eq_nil_iff.symm

theorem Named.empty_not_mem (h : Named dn) : "" ∉ split dn := fun hmem => h "" hmem (by decide)

theorem Plain.faithful (ha : Plain a) (hb : Plain b) : Faithful a b :=
  .of_legible ha.named hb.named ha.legible hb.legible

/-- Plain relative names in front of a plain name make a plain name. -/
theorem Plain.append (h : Plain dn) (hdn : split dn ≠ []) (ha : split a = front ++ split dn) (hp : Plain b)
    (hfront : ∀ rdn ∈ front, rdn ∈ split b ∧ Sealed rdn) : Plain a where
  named := by
    intro rdn hr
    rcases List.mem_append.mp (ha ▸ hr) with hr | hr
    · exact hp.named rdn (hfront rdn hr).1
    · exact h.named rdn hr
  legible := by
    intro rdn hrdn
    obtain ⟨r, hr, rfl⟩ := List.mem_map.mp hrdn
    rcases List.mem_append.mp (ha ▸ hr) with hr | hr
    · exact hp.legible _ (List.mem_map_of_mem (hfront r hr).1)
    · exact h.legible _ (List.mem_map_of_mem hr)
  closed := by
    intro rdn hr
    rw [ha, List.dropLast_append_of_ne_nil hdn] at hr
    rcases List.mem_append.mp hr with hr | hr
    · exact (hfront rdn hr).2
    · exact h.closed rdn hr

/-- The name above another one, empty if there is none. -/
def above (dn : String) : String := (parent? dn).getD ""

theorem above_eq (dn : String) : above dn = ",".intercalate (split dn).tail := by
  unfold above parent?
  cases split dn <;> rfl

/-- The name above another one has its relative names but the first, if all of those but the last keep their ends. -/
theorem split_above_of_sealed (hn : "" ∉ split dn) (hs : ∀ rdn ∈ (split dn).tail.dropLast, Sealed rdn) :
    split (above dn) = (split dn).tail := by
  rw [above_eq]
  exact split_intercalate (fun rdn hr => whole_of_mem_split (List.mem_of_mem_tail hr)) hs
    fun hr => hn (List.mem_of_mem_tail hr)

theorem Plain.split_above (h : Plain dn) : split (above dn) = (split dn).tail := by
  refine split_above_of_sealed h.named.empty_not_mem fun rdn hr => h.closed rdn ?_
  rw [← List.tail_dropLast] at hr
  exact List.mem_of_mem_tail hr

theorem Plain.rdns_above (h : Plain dn) : rdns (above dn) = (rdns dn).tail := by
  rw [rdns, h.split_above, rdns, List.map_tail]

theorem above_eq_empty_or (h : Plain dn) : above dn = "" ∨ split (above dn) ≠ [] := by
  have hsplit : split (above dn) = (split dn).tail := h.split_above
  rcases hs : split dn with _ | ⟨first, _ | ⟨second, rest⟩⟩
  · exact .inl (by simp [above, parent?, hs])
  · exact .inl (by simp [above, parent?, hs])
  · exact .inr (by simp [hsplit, hs])

theorem Plain.above (h : Plain dn) : Plain (above dn) where
  named rdn hr := h.named rdn (List.mem_of_mem_tail (h.split_above ▸ hr))
  legible rdn hr := h.legible rdn (List.mem_of_mem_tail (h.rdns_above ▸ hr))
  closed rdn hr := by
    rw [h.split_above] at hr
    refine h.closed rdn ?_
    cases hs : split dn with
    | nil => simp [hs] at hr
    | cons first others =>
      have hne : others ≠ [] := by
        rintro rfl
        simp [hs] at hr
      rw [List.dropLast_cons_of_ne_nil hne]
      exact List.mem_cons_of_mem _ (by simpa [hs] using hr)

/-- A single relative name in front of the relative names of a superior one. -/
theorem Single.split_newName (h : Single rdn) (ha : superior = "" ∨ split superior ≠ []) :
    split (Directory.newName rdn superior) = Text.trim rdn :: split superior := by
  unfold Directory.newName
  have hmem : Text.trim rdn ∈ split (Text.trim rdn) := by simp [h.one]
  have hw : Whole (Text.trim rdn) := whole_of_mem_split hmem
  split
  · rename_i he
    obtain rfl : superior = "" := by simpa using he
    exact h.one
  · rename_i he
    exact split_cons hw h.closed (ha.resolve_left (by simpa using he))

theorem Single.plain_newName (h : Single rdn) (ha : superior = "" ∨ split superior ≠ []) (hp : Plain superior) :
    Plain (Directory.newName rdn superior) := by
  by_cases hs : split superior = []
  · have he : superior = "" := ha.resolve_right (not_not.mpr hs)
    simpa [Directory.newName, he] using h.plain
  · have hsplit : split (Directory.newName rdn superior) = [Text.trim rdn] ++ split superior := h.split_newName ha
    refine hp.append hs hsplit h.plain ?_
    intro r hr
    obtain rfl := List.mem_singleton.mp hr
    exact ⟨by simp [h.one], h.closed⟩

/-- The relative names of a name that another one does not have. -/
def leading (sub dn : String) : List String := (split sub).take ((split sub).length - (split dn).length)

/-- The leading relative names of a name in front of another name. -/
def relocated (dn newDn sub : String) : String := ",".intercalate (leading sub dn) ++ "," ++ newDn

variable {newDn sub : String}

theorem movedName?_eq (h : (split dn).length ≤ (split sub).length) :
    Directory.movedName? dn newDn sub = some (relocated dn newDn sub) := if_pos h

theorem length_leading (sub dn : String) : (leading sub dn).length = (split sub).length - (split dn).length := by
  rw [leading, List.length_take]
  omega

section Relocated

variable (hs : Plain sub) (hdn : split dn ≠ []) (hlt : (split dn).length < (split sub).length) (hnew : split newDn ≠ [])
include hs hdn

theorem sealed_leading (hr : rdn ∈ leading sub dn) : rdn ∈ split sub ∧ Sealed rdn := by
  have hpos : 0 < (split dn).length := List.length_pos_iff.mpr hdn
  have hmem : rdn ∈ (split sub).dropLast := by
    rw [List.dropLast_eq_take]
    exact List.take_subset_take_left _ (by omega) hr
  exact ⟨List.dropLast_subset _ hmem, hs.closed rdn hmem⟩

include hlt hnew

theorem split_relocated : split (relocated dn newDn sub) = leading sub dn ++ split newDn := by
  have hne : leading sub dn ≠ [] := by
    rw [← List.length_pos_iff, length_leading]
    omega
  exact split_append hne (fun r hr => whole_of_mem_split (sealed_leading hs hdn hr).1)
    (fun r hr => (sealed_leading hs hdn hr).2) hnew

theorem plain_relocated (hp : Plain newDn) : Plain (relocated dn newDn sub) :=
  hp.append hnew (split_relocated hs hdn hlt hnew) hs fun _ hr => sealed_leading hs hdn hr

theorem rdns_relocated :
    rdns (relocated dn newDn sub) = (rdns sub).take ((rdns sub).length - (rdns dn).length) ++ rdns newDn := by
  rw [rdns, split_relocated hs hdn hlt hnew, List.map_append, leading, List.map_take, length_rdns, length_rdns]
  rfl

end Relocated

end Ldap.Dn
