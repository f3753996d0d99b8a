import Ldap.Proofs.Dn.Naming

/-! How values are written in relative names and read back. A value stands there with backslashes, or between quotes.
The names are cut where they should be under either spelling. Blanks are removed from around a value before its
backslashes are, so that with backslashes a value keeps what it is unless a blank stands at one of its ends. Plus signs
separate values also between quotes, so that a value between quotes keeps what it is unless there is one in it. -/

namespace Ldap.Dn

/-! ### Spellings -/

/-- A text with a backslash in front of each marked character. -/
def backslashed (marked : Char → Bool) (cs : List Char) : List Char :=
  cs.flatMap fun c => if marked c then ['\\', c] else [c]

/-- Characters that have a meaning in names, or might have one. -/
def isSpecial (c : Char) : Bool := [' ', ',', '+', ';', '=', '#', '<', '>', '"', '\\'].contains c

/-- Characters that have a meaning between quotes. -/
def isSpecialInQuotes (c : Char) : Bool := c == '"' || c == '\\'

inductive Spelling where
  | escaped
  | quoted

namespace Spelling

def write : Spelling → List Char → List Char
  | .escaped, value => backslashed isSpecial value
  | .quoted, value => '"' :: (backslashed isSpecialInQuotes value ++ ['"'])

/-- A relative name with a value. -/
def rdn (s : Spelling) (value : String) : String := "cn=" ++ String.ofList (s.write value.toList)

/-- A value with backslashes may begin with a space, but with no other blank, and does not end with any. One between
quotes has no plus sign. -/
def Keeps : Spelling → List Char → Prop
  | .escaped, value => (∀ c ∈ value.head?, Text.isBlank c → c = ' ') ∧ ∀ c ∈ value.getLast?, ¬ Text.isBlank c
  | .quoted, value => '+' ∉ value

instance : (s : Spelling) → (value : List Char) → Decidable (s.Keeps value)
  | .escaped, value =>
    decidable_of_iff
      ((value.head?.all fun c => !Text.isBlank c || c == ' ') ∧ value.getLast?.all fun c => !Text.isBlank c)
      (by simp [Keeps, Option.all_eq_true, or_iff_not_imp_left])
  | .quoted, _ => inferInstanceAs (Decidable (_ ∉ _))

end Spelling

variable {marked : Char → Bool} {c : Char} {cs rest : List Char} {x : Context}

theorem backslashed_cons : backslashed marked (c :: cs) =
    (if marked c then ['\\', c] else [c]) ++ backslashed marked cs := List.flatMap_cons

theorem backslashed_append (as bs : List Char) :
    backslashed marked (as ++ bs) = backslashed marked as ++ backslashed marked bs := List.flatMap_append

theorem mem_of_mem_backslashed (h : c ∈ backslashed marked cs) : c = '\\' ∨ c ∈ cs := by
  obtain ⟨a, ha, hc⟩ := List.mem_flatMap.mp h
  split at hc
  · rcases List.mem_cons.mp hc with rfl | hc
    · exact .inl rfl
    · exact .inr (List.mem_singleton.mp hc ▸ ha)
  · exact .inr (List.mem_singleton.mp hc ▸ ha)

theorem head?_backslashed :
    (backslashed marked cs).head? = cs.head?.map fun c => if marked c then '\\' else c := by
  cases cs with
  | nil => rfl
  | cons c cs =>
    rw [backslashed_cons]
    split <;> simp_all

theorem getLast?_backslashed : (backslashed marked cs).getLast? = cs.getLast? := by
  rcases List.eq_nil_or_concat cs with rfl | ⟨front, last, rfl⟩
  · rfl
  · rw [List.concat_eq_append, backslashed_append, backslashed_cons]
    split <;> simp [backslashed, *]

/-! ### Backslashes -/

theorem unescape_cons_of_ne (h : c ≠ '\\') (rest : List Char) : unescape (c :: rest) = c :: unescape rest := by
  cases rest with
  | nil => simp [unescape, h]
  | cons a rest => simp [unescape, h]

theorem unescape_backslashed (hb : marked '\\') : unescape (backslashed marked cs) = cs := by
  induction cs with
  | nil => rfl
  | cons c cs ih =>
    rw [backslashed_cons]
    by_cases hc : marked c
    · simp [hc, unescape, ih]
    · have hne : c ≠ '\\' := by
        rintro rfl
        exact hc hb
      rw [if_neg hc, List.singleton_append, unescape_cons_of_ne hne, ih]

theorem mem_of_mem_unescape (h : c ∈ unescape cs) : c ∈ cs := by
  fun_induction unescape cs with
  | case1 => exact h
  | case2 => cases h
  | case3 a rest ih =>
    rcases List.mem_cons.mp h with rfl | h
    · simp
    · simp [ih h]
  | case4 a rest _ _ ih =>
    rcases List.mem_cons.mp h with rfl | h
    · simp
    · simp [ih h]

theorem mem_of_mem_unquote (h : c ∈ unquote cs) : c ∈ cs := by
  unfold unquote at h
  split at h
  · split at h
    · exact List.mem_cons_of_mem _ (List.dropLast_subset _ h)
    · exact h
  · exact h

/-- What is read off a piece stood in it. -/
theorem mem_of_readComponent? {nv : NameValue} (h : readComponent? cs = some nv)
    (hc : c ∈ nv.name.toList ∨ c ∈ nv.value.toList) : c ∈ cs := by
  unfold readComponent? at h
  split at h
  · rename_i name sign value hspan
    obtain rfl := Option.some.inj h
    have happend : name ++ sign :: value = cs := by
      rw [List.span_eq_takeWhile_dropWhile] at hspan
      obtain ⟨rfl, hdrop⟩ := Prod.mk.inj hspan
      rw [← hdrop, List.takeWhile_append_dropWhile]
    rw [String.toList_ofList, String.toList_ofList] at hc
    rw [← happend, List.mem_append, List.mem_cons]
    rcases hc with hc | hc
    · exact .inl (Text.mem_of_mem_trimChars hc)
    · exact .inr (.inr (Text.mem_of_mem_trimChars (mem_of_mem_unquote (mem_of_mem_unescape hc))))
  · cases h

/-- Between quotes a value stands as it is but for its backslashes. -/
theorem unquote_quoted (cs : List Char) : unquote ('"' :: (cs ++ ['"'])) = cs := by
  simp [unquote]

theorem unquote_of_head (h : ∀ c ∈ cs.head?, c ≠ '"') : unquote cs = cs := by
  unfold unquote
  split
  · simp at h
  · rfl

/-! ### Blanks -/

/-- How many blanks there are in a text. -/
def blanks (cs : List Char) : ℕ := cs.countP Text.isBlank

theorem blanks_backslashed : blanks (backslashed marked cs) = blanks cs := by
  have hbackslash : Text.isBlank '\\' = false := by decide
  induction cs with
  | nil => rfl
  | cons c cs ih =>
    unfold blanks at ih ⊢
    rw [backslashed_cons, List.countP_append, ih, List.countP_cons]
    split <;> simp [List.countP_cons, hbackslash, Nat.add_comm]

theorem blanks_unescape : blanks (unescape cs) = blanks cs := by
  have hbackslash : Text.isBlank '\\' = false := by decide
  unfold blanks
  fun_induction unescape cs with
  | case1 => rfl
  | case2 => simp [hbackslash]
  | case3 a rest ih => simp [List.countP_cons, ih, hbackslash]
  | case4 a rest _ _ ih => simp [List.countP_cons, ih]

theorem blanks_unquote : blanks (unquote cs) = blanks cs := by
  have hquote : Text.isBlank '"' = false := by decide
  unfold unquote
  split
  · rename_i rest
    split
    · rename_i hlast
      obtain ⟨front, rfl⟩ := List.getLast?_eq_some_iff.mp hlast
      simp [blanks, hquote]
    · rfl
  · rfl

theorem nonblanks_trimChars (cs : List Char) :
    (Text.trimChars cs).countP (!Text.isBlank ·) = cs.countP (!Text.isBlank ·) := by
  refine Text.apply_trimChars (List.countP (!Text.isBlank ·)) (fun b cs hb => ?_) (fun b cs hb => ?_) cs
  · simp [hb]
  · simp [hb]

/-- A text that loses no blanks when it is trimmed loses nothing. -/
theorem trimChars_eq_self_of_blanks (h : blanks (Text.trimChars cs) = blanks cs) : Text.trimChars cs = cs := by
  have hsub : (Text.trimChars cs).Sublist cs := by
    rw [Text.trimChars_eq]
    exact (List.rdropWhile_prefix _ _).sublist.trans (List.dropWhile_sublist _)
  refine hsub.eq_of_length ?_
  rw [List.length_eq_countP_add_countP Text.isBlank, List.length_eq_countP_add_countP Text.isBlank (l := cs)]
  have hnot : (fun c => decide ¬ Text.isBlank c = true) = (!Text.isBlank ·) := by
    funext c
    cases Text.isBlank c <;> rfl
  rw [hnot, nonblanks_trimChars]
  exact congrArg (· + _) h

/-! ### Plus signs -/

/-- Without separators there is nothing to cut. -/
theorem cut_of_not_mem {sep : Char → Bool} (quotes escaped quoted : Bool) (h : ∀ c ∈ cs, sep c = false) :
    cut sep quotes escaped quoted cs = [cs] := by
  fun_induction cut sep quotes escaped quoted cs with
  | case1 => rfl
  | case2 quoted x cs ih => rw [ih fun c hc => h c (List.mem_cons_of_mem _ hc)]; rfl
  | case3 quoted cs ih => rw [ih fun c hc => h c (List.mem_cons_of_mem _ hc)]; rfl
  | case4 quoted x cs _ _ ih => rw [ih fun c hc => h c (List.mem_cons_of_mem _ hc)]; rfl
  | case5 quoted x cs _ _ hs ih => simp [h x List.mem_cons_self] at hs
  | case6 quoted x cs _ _ _ ih => rw [ih fun c hc => h c (List.mem_cons_of_mem _ hc)]; rfl

/-- A plus sign with a backslash in front of it separates nothing. -/
theorem summands_backslashed (hb : marked '\\') (hp : marked '+') (cs : List Char) :
    summands false false (backslashed marked cs) = [backslashed marked cs] := by
  induction cs with
  | nil => rfl
  | cons c cs ih =>
    rw [backslashed_cons]
    by_cases hc : marked c
    · simp only [summands] at ih ⊢
      simp [hc, cut, ih, consFirst]
    · have hbackslash : c ≠ '\\' := fun h => hc (h ▸ hb)
      have hplus : c ≠ '+' := fun h => hc (h ▸ hp)
      simp only [summands] at ih ⊢
      simp [hc, cut, ih, consFirst, hbackslash, hplus]

/-- A plus sign without one always separates. -/
theorem plus_not_mem_summands (hb : marked '\\') (hp : marked '+' = false) (cs : List Char)
    (h : ¬ ∃ piece ∈ summands false false rest, '+' ∈ piece) :
    ¬ ∃ piece ∈ summands false false (backslashed marked cs ++ rest), '+' ∈ piece := by
  induction cs with
  | nil => exact h
  | cons c cs ih =>
    rw [backslashed_cons]
    by_cases hc : marked c
    · have hplus : '+' ≠ c := by
        rintro rfl
        simp [hp] at hc
      simp only [summands] at ih ⊢
      simpa [hc, cut, exists_mem_consFirst, hplus] using ih
    · have hbackslash : c ≠ '\\' := fun h => hc (h ▸ hb)
      simp only [summands] at ih ⊢
      by_cases hplus : c = '+'
      · simpa [hplus, hp, cut] using ih
      · simpa [hc, cut, exists_mem_consFirst, hplus, Ne.symm hplus, hbackslash] using ih

/-! ### Separators of relative names -/

/-- Behind a text with backslashes the context is the one in front of it. -/
theorem after_backslashed (hb : marked '\\') (hq : marked '"') (hx : x.escaped = false) :
    x.after (backslashed marked cs) = x := by
  obtain ⟨_, quoted⟩ := x
  obtain rfl : _ = false := hx
  induction cs with
  | nil => rfl
  | cons c cs ih =>
    rw [backslashed_cons, Context.after_append]
    by_cases hc : marked c
    · simpa [hc, Context.after, Context.next] using ih
    · have hbackslash : c ≠ '\\' := fun h => hc (h ▸ hb)
      have hquote : c ≠ '"' := fun h => hc (h ▸ hq)
      simpa [hc, Context.after, Context.next, hbackslash, hquote] using ih

/-- Such a text holds no separators if they have backslashes, or if it stands between quotes. -/
theorem unbroken_backslashed (hb : marked '\\') (hq : marked '"') (hx : x.escaped = false)
    (hs : x.quoted = true ∨ ∀ c, isSeparator c → marked c) : Unbroken x (backslashed marked cs) := by
  obtain ⟨_, quoted⟩ := x
  obtain rfl : _ = false := hx
  induction cs with
  | nil => trivial
  | cons c cs ih =>
    rw [backslashed_cons]
    by_cases hc : marked c
    · have hnone : isSeparator '\\' = false := by decide
      simpa [hc, Unbroken, Context.separates, Context.next, hnone] using ih
    · have hbackslash : c ≠ '\\' := fun h => hc (h ▸ hb)
      have hquote : c ≠ '"' := fun h => hc (h ▸ hq)
      have hno : ({ quoted } : Context).separates c = false := by
        rcases hs with rfl | hs
        · rfl
        · simp [Context.separates, mt (hs c) hc]
      simpa [hc, Unbroken, hno, Context.next, hbackslash, hquote] using ih

namespace Spelling

variable {s : Spelling} {v w : String}

theorem toList_rdn (s : Spelling) (v : String) : (s.rdn v).toList = ['c', 'n'] ++ '=' :: s.write v.toList := by
  simp [rdn]

/-- The name in front of a value keeps its context. -/
theorem after_rdn (s : Spelling) (v : String) :
    Unbroken {} (s.rdn v).toList ∧ ({} : Context).after (s.rdn v).toList = {} := by
  have hname : Unbroken {} ['c', 'n', '='] ∧ ({} : Context).after ['c', 'n', '='] = {} := by
    refine ⟨⟨?_, ?_, ?_, trivial⟩, ?_⟩ <;> decide
  have hglue : (s.rdn v).toList = ['c', 'n', '='] ++ s.write v.toList := toList_rdn s v
  rw [hglue, unbroken_append, Context.after_append, hname.2]
  suffices h : Unbroken {} (s.write v.toList) ∧ ({} : Context).after (s.write v.toList) = {} from
    ⟨⟨hname.1, h.1⟩, h.2⟩
  cases s with
  | escaped =>
    have hs : ∀ c, isSeparator c → isSpecial c := by
      intro c hc
      obtain rfl | rfl : c = ',' ∨ c = ';' := by simpa [isSeparator] using hc
      all_goals decide
    exact ⟨unbroken_backslashed (by decide) (by decide) rfl (.inr hs), after_backslashed (by decide) (by decide) rfl⟩
  | quoted =>
    have hopen : ({} : Context).next '"' = { quoted := true } := by decide
    have hinside : ({ quoted := true } : Context).after (backslashed isSpecialInQuotes v.toList) = { quoted := true } :=
      after_backslashed (by decide) (by decide) rfl
    constructor
    · refine ⟨by decide, ?_⟩
      rw [hopen, unbroken_append, hinside]
      exact ⟨unbroken_backslashed (by decide) (by decide) rfl (.inl rfl), by decide, trivial⟩
    · rw [write, ← List.singleton_append, Context.after_append, Context.after_append]
      change (Context.after (({} : Context).next '"') _).after _ = _
      rw [hopen, hinside]
      decide

/-- A comma behind a relative name cuts it off, whatever its value is. -/
theorem split_rdn (s : Spelling) (v : String) : split (s.rdn v ++ ",o=x") = [Text.trim (s.rdn v), "o=x"] := by
  have hcut : cutFrom {} (s.rdn v ++ ",o=x").toList = (s.rdn v).toList :: cutFrom {} "o=x".toList := by
    rw [String.toList_append]
    exact cutFrom_separator (after_rdn s v).1 (after_rdn s v).2
  have hlast : cutFrom {} "o=x".toList = [['o', '=', 'x']] := by decide
  have htrim : Text.trimChars ['o', '=', 'x'] = ['o', '=', 'x'] := by decide
  rw [split_eq, hcut, hlast]
  simp [htrim, Text.trim]

/-! ### Values -/

theorem isSpecial_iff {c : Char} :
    isSpecial c ↔ c ∈ [' ', ',', '+', ';', '=', '#', '<', '>', '"', '\\'] := List.contains_iff_mem

/-- With backslashes nothing is cut off from a value just if no blank without one stands at either end of it. -/
theorem trimChars_escaped_iff (cs : List Char) :
    Text.trimChars (backslashed isSpecial cs) = backslashed isSpecial cs ↔ escaped.Keeps cs := by
  have hblank : ∀ c, isSpecial c → Text.isBlank c → c = ' ' := by
    intro c hc hb
    by_contra hne
    have hother : c ∈ [',', '+', ';', '=', '#', '<', '>', '"', '\\'] :=
      (List.mem_cons.mp (isSpecial_iff.mp hc)).resolve_left hne
    simp only [List.mem_cons, List.not_mem_nil, or_false] at hother
    rcases hother with rfl | rfl | rfl | rfl | rfl | rfl | rfl | rfl | rfl <;> exact absurd hb (by decide)
  have hbackslash : ¬ Text.isBlank '\\' := by decide
  rw [Text.trimChars_eq_self_iff, head?_backslashed, getLast?_backslashed, Keeps]
  refine and_congr_left fun _ => ?_
  cases cs with
  | nil => simp
  | cons c cs =>
    by_cases hc : isSpecial c
    · simpa [hc, hbackslash] using hblank c hc
    · have hspace : c ≠ ' ' := by
        rintro rfl
        exact hc (by decide)
      simp [hc, hspace]

theorem summands_name (cs : List Char) : summands false false (['c', 'n'] ++ '=' :: cs) =
    ['c', 'n', '='].foldr consFirst (summands false false cs) := by
  simp [summands, cut]

/-- A relative name without plus signs has the value that stands in it. -/
theorem components_of_summands (h : summands false false (s.write v.toList) = [s.write v.toList]) :
    components (s.rdn v) =
      [⟨"cn", String.ofList (unescape (unquote (Text.trimChars (s.write v.toList))))⟩] := by
  have hname : Text.trimChars ['c', 'n'] = ['c', 'n'] := by decide
  have hread : readComponent? (['c', 'n'] ++ '=' :: s.write v.toList) = _ := readComponent?_append (by decide)
  rw [components_eq, toList_rdn, summands_name, h, foldr_consFirst]
  rw [hname] at hread
  exact congrArg Option.toList hread

theorem components_escaped_iff (v : String) :
    components (escaped.rdn v) = [⟨"cn", v⟩] ↔ escaped.Keeps v.toList := by
  have hone : summands false false (escaped.write v.toList) = [escaped.write v.toList] :=
    summands_backslashed (by decide) (by decide) v.toList
  rw [components_of_summands hone, ← trimChars_escaped_iff, write]
  constructor
  · intro h
    have hvalue : unescape (unquote (Text.trimChars (backslashed isSpecial v.toList))) = v.toList := by
      simpa [← String.toList_inj] using h
    -- neither quotes nor backslashes are blank, so all blanks must have been left in place
    refine trimChars_eq_self_of_blanks ?_
    rw [← blanks_unquote, ← blanks_unescape, hvalue, blanks_backslashed]
  · intro h
    have hhead : ∀ c ∈ (backslashed isSpecial v.toList).head?, c ≠ '"' := by
      rw [head?_backslashed]
      rintro c hc rfl
      obtain ⟨a, -, ha⟩ := Option.map_eq_some_iff.mp hc
      split at ha
      · cases ha
      · rename_i hnot
        exact hnot (ha ▸ by decide)
    rw [h, unquote_of_head hhead, unescape_backslashed (by decide), String.ofList_toList]

theorem components_quoted_iff (v : String) :
    components (quoted.rdn v) = [⟨"cn", v⟩] ↔ quoted.Keeps v.toList := by
  constructor
  · intro h hplus
    have hnone : ¬ ∃ piece ∈ summands false false (quoted.rdn v).toList, '+' ∈ piece := by
      have hclose : ¬ ∃ piece ∈ summands false false ['"'], '+' ∈ piece := by decide
      have hinside : ¬ ∃ piece ∈ summands false false (backslashed isSpecialInQuotes v.toList ++ ['"']), '+' ∈ piece :=
        plus_not_mem_summands (by decide) (by decide) _ hclose
      rw [toList_rdn, summands_name]
      simpa [write, summands, cut, exists_mem_consFirst] using hinside
    -- the plus sign of the value must stem from one of the pieces
    have hmem : (⟨"cn", v⟩ : NameValue) ∈ components (quoted.rdn v) := by simp [h]
    obtain ⟨piece, hpiece, hread⟩ := List.mem_filterMap.mp (components_eq _ ▸ hmem)
    exact hnone ⟨piece, hpiece, mem_of_readComponent? hread (.inr hplus)⟩
  · intro h
    have hplus : ∀ c ∈ quoted.write v.toList, (c == '+') = false := by
      rintro c hc
      by_contra hne
      obtain rfl : c = '+' := by simpa using hne
      simp only [write, List.mem_cons, List.mem_append, List.not_mem_nil, or_false] at hc
      rcases hc with hc | hc | hc
      · cases hc
      · exact (mem_of_mem_backslashed hc).elim (by decide) h
      · cases hc
    have htrim : Text.trimChars (quoted.write v.toList) = quoted.write v.toList := by
      have hquote : ∀ c ∈ some '"', ¬ Text.isBlank c := by
        rintro c ⟨⟩
        decide
      rw [Text.trimChars_eq_self_iff, write]
      exact ⟨hquote, by rwa [← List.cons_append, List.getLast?_concat]⟩
    rw [components_of_summands (cut_of_not_mem false false false hplus), htrim, write, unquote_quoted,
      unescape_backslashed (by decide), String.ofList_toList]

end Spelling

/-- A value is read back from a relative name just if its spelling keeps it, and then no other value is. A comma behind
the relative name cuts it off in any case. -/
theorem components_rdn_iff (s : Spelling) (v : String) :
    (components (s.rdn v) = [⟨"cn", v⟩] ↔ s.Keeps v.toList) ∧
      split (s.rdn v ++ ",o=x") = [Text.trim (s.rdn v), "o=x"] ∧
      ∀ (t : Spelling) (w : String), s.Keeps v.toList → t.Keeps w.toList →
        components (s.rdn v) = components (t.rdn w) → v = w := by
  have hread : ∀ (s : Spelling) (v : String), components (s.rdn v) = [⟨"cn", v⟩] ↔ s.Keeps v.toList := by
    rintro (_ | _) v
    · exact Spelling.components_escaped_iff v
    · exact Spelling.components_quoted_iff v
  refine ⟨hread s v, s.split_rdn v, fun t w hv hw heq => ?_⟩
  rw [(hread s v).mpr hv, (hread t w).mpr hw] at heq
  simpa using heq

theorem components_rdn_iff_people : let v := " Doe, \"J\\K\"; #<1>="
    components (Spelling.escaped.rdn v) = [⟨"cn", v⟩] ∧ components (Spelling.quoted.rdn v) = [⟨"cn", v⟩] ∧
      components (Spelling.escaped.rdn v) ≠ components (Spelling.quoted.rdn "Doe") := by
  have he : Spelling.escaped.Keeps " Doe, \"J\\K\"; #<1>=".toList := by decide
  have hq : Spelling.quoted.Keeps " Doe, \"J\\K\"; #<1>=".toList := by decide
  have hd : Spelling.quoted.Keeps "Doe".toList := by decide
  refine ⟨(components_rdn_iff .escaped _).1.mpr he, (components_rdn_iff .quoted _).1.mpr hq, fun heq => ?_⟩
  exact absurd ((components_rdn_iff .escaped _).2.2 .quoted _ he hd heq) (by decide)

/-- With backslashes a space at the end of a value is lost, and between quotes all that stands behind a plus sign. -/
theorem not_components_rdn :
    components (Spelling.escaped.rdn "a ") = components (Spelling.escaped.rdn "a") ∧
      components (Spelling.escaped.rdn "a ") = [⟨"cn", "a"⟩] ∧
      components (Spelling.quoted.rdn "a+b") = [⟨"cn", "\"a"⟩] := by
  decide

end Ldap.Dn
