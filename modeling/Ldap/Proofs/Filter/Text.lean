import Ldap.Filter.Text
import Ldap.Proofs.Filter.Nesting

/-! The text of a filter tells the filter. Values are written without the characters that end them, so that the text of
a leaf is cut where it was put together: the name of the attribute ends at the first character that no name has, the
mark behind it at the first equals sign, and a value at an asterisk or at the closing parenthesis. The texts of filters
can then be told apart wherever they stand, by induction on the filters. -/

namespace Ldap.Filter

variable {f g : Filter} {filters others : List Filter} {name : String} {v w : List UInt8} {b c : UInt8}

/-! ### Cutting -/

section Cutting

variable {α : Type*} {p : α → Bool} {xs ys r s : List α}

/-- Elements of one kind end at the first element that is of another kind. -/
theorem append_inj_of_all (hx : ∀ a ∈ xs, p a) (hy : ∀ a ∈ ys, p a) (hr : ∀ a ∈ r.head?, p a = false)
    (hs : ∀ a ∈ s.head?, p a = false) (h : xs ++ r = ys ++ s) : xs = ys ∧ r = s := by
  have hstop : ∀ {t : List α}, (∀ a ∈ t.head?, p a = false) → t.takeWhile p = [] := by
    intro t ht
    cases t with
    | nil => rfl
    | cons a t => exact List.takeWhile_cons_of_neg (by rw [ht a rfl]; exact Bool.false_ne_true)
  have htake := congrArg (List.takeWhile p) h
  rw [List.takeWhile_append_of_pos hx, List.takeWhile_append_of_pos hy, hstop hr, hstop hs, List.append_nil,
    List.append_nil] at htake
  exact ⟨htake, List.append_cancel_left (htake ▸ h)⟩

/-- Lists without the separator are told by the list in which each is followed by one. -/
theorem flatMap_concat_inj {a : α} {blocks others : List (List α)} [DecidableEq α] (hb : ∀ block ∈ blocks, a ∉ block)
    (ho : ∀ block ∈ others, a ∉ block) (h : blocks.flatMap (· ++ [a]) = others.flatMap (· ++ [a])) :
    blocks = others := by
  induction blocks generalizing others with
  | nil =>
    cases others with
    | nil => rfl
    | cons block others => simp at h
  | cons block blocks ih =>
    cases others with
    | nil => simp at h
    | cons other others =>
      have hne : ∀ {block : List α}, a ∉ block → ∀ x ∈ block, (x != a) = true := by
        intro block hblock x hx
        exact bne_iff_ne.mpr fun heq => hblock (heq ▸ hx)
      simp only [List.flatMap_cons, List.append_assoc, List.singleton_append] at h
      obtain ⟨rfl, hrest⟩ := append_inj_of_all (hne (hb block List.mem_cons_self))
        (hne (ho other List.mem_cons_self)) (by simp) (by simp) h
      rw [ih (fun block hblock => hb block (List.mem_cons_of_mem _ hblock))
        (fun block hblock => ho block (List.mem_cons_of_mem _ hblock)) (List.cons.inj hrest).2]

end Cutting

/-! ### Values -/

theorem toNat_ofNat_toNat (b : UInt8) : (Char.ofNat b.toNat).toNat = b.toNat := by
  have hvalid : b.toNat.isValidChar := .inl (Nat.lt_of_lt_of_le b.toNat_lt (by decide))
  rw [Char.ofNat, dif_pos hvalid]
  rfl

theorem toList_escapeByte (b : UInt8) : (escapeByte b).toList =
    if isPlain b then [Char.ofNat b.toNat]
    else ['\\', Text.hexDigit (b.toNat / 16), Text.hexDigit (b.toNat % 16)] := by
  unfold escapeByte
  split <;> simp [Text.hexByte]

theorem toList_escape (v : List UInt8) : (escape v).toList = v.flatMap fun b => (escapeByte b).toList := by
  rw [escape, String.toList_join, List.flatMap_map]

theorem special_of_isPlain (h : isPlain b) : Char.ofNat b.toNat ∉ ['*', '(', ')', '\\'] := by
  simpa [isPlain] using And.right (by simpa [isPlain] using h : _ ∧ _)

theorem hexDigit_inj : ∀ m < 16, ∀ n < 16, Text.hexDigit m = Text.hexDigit n → m = n := by decide

/-- A byte is told by what it is written as. -/
theorem escapeByte_append_inj {r s : List Char} (h : (escapeByte b).toList ++ r = (escapeByte c).toList ++ s) :
    b = c ∧ r = s := by
  have hplain : ∀ {b : UInt8}, isPlain b → Char.ofNat b.toNat ≠ '\\' := fun hb heq => by
    have hspecial := special_of_isPlain hb
    rw [heq] at hspecial
    exact absurd hspecial (by decide)
  rw [toList_escapeByte, toList_escapeByte] at h
  split at h <;> split at h
  · obtain ⟨hchar, rfl⟩ := List.cons.inj h
    refine ⟨UInt8.toNat_inj.mp ?_, rfl⟩
    rw [← toNat_ofNat_toNat b, hchar, toNat_ofNat_toNat]
  · exact absurd (List.cons.inj h).1 (hplain ‹_›)
  · exact absurd (List.cons.inj h).1.symm (hplain ‹_›)
  · simp only [List.cons_append, List.nil_append, List.cons.injEq, true_and] at h
    obtain ⟨hhigh, hlow, rfl⟩ := h
    have hb := b.toNat_lt
    have hc := c.toNat_lt
    have := hexDigit_inj _ (by omega) _ (by omega) hhigh
    have := hexDigit_inj _ (by omega) _ (by omega) hlow
    exact ⟨UInt8.toNat_inj.mp (by omega), rfl⟩

theorem escape_inj (h : (escape v).toList = (escape w).toList) : v = w := by
  have hne : ∀ b, (escapeByte b).toList ≠ [] := fun b => by
    rw [toList_escapeByte]
    split <;> exact List.cons_ne_nil _ _
  rw [toList_escape, toList_escape] at h
  induction v generalizing w with
  | nil =>
    cases w with
    | nil => rfl
    | cons c w => simp [hne] at h
  | cons b v ih =>
    cases w with
    | nil => simp [hne] at h
    | cons c w =>
      rw [List.flatMap_cons, List.flatMap_cons] at h
      obtain ⟨rfl, hrest⟩ := escapeByte_append_inj h
      rw [ih hrest]

/-- No asterisk and no parenthesis stands in a value that is written. -/
theorem not_mem_of_mem_escape {x : Char} (h : x ∈ (escape v).toList) : x ∉ ['*', '(', ')'] := by
  rw [toList_escape, List.mem_flatMap] at h
  obtain ⟨b, -, hx⟩ := h
  rw [toList_escapeByte] at hx
  split at hx
  · have hspecial := special_of_isPlain ‹_›
    rw [← List.mem_singleton.mp hx] at hspecial
    exact fun h => hspecial (List.mem_append_left ['\\'] h)
  · have hdigit : ∀ n < 16, Text.hexDigit n ∉ ['*', '(', ')'] := by decide
    have hb := b.toNat_lt
    simp only [List.mem_cons, List.not_mem_nil, or_false] at hx
    rcases hx with rfl | rfl | rfl
    · decide
    · exact hdigit _ (by omega)
    · exact hdigit _ (by omega)

/-! ### Leaves -/

/-- A character of attribute names and matching rules. -/
def isNameChar (c : Char) : Bool := c.isAlphanum || ['-', '.', ';'].contains c

/-- The name of an attribute or of a matching rule, as it is usually written. -/
def IsName (s : String) : Prop := s ≠ "" ∧ ∀ c ∈ s.toList, isNameChar c

instance (s : String) : Decidable (IsName s) :=
  decidable_of_iff (s ≠ "" ∧ s.toList.all isNameChar) (and_congr_right' List.all_eq_true)

/-- What the text of a leaf is put together from: a name, a mark that tells the kind of the match, and values. -/
structure Leaf where
  name : String
  mark : List Char
  first : List UInt8
  others : List (List UInt8) := []

namespace Leaf

variable {l l' : Leaf}

/-- The values with asterisks between them. -/
def pattern (l : Leaf) : List Char := (escape l.first).toList ++ l.others.flatMap fun v => '*' :: (escape v).toList

def chars (l : Leaf) : List Char := l.name.toList ++ (l.mark ++ '=' :: l.pattern)

/-- It can be seen where the name and the mark end. -/
structure Legible (l : Leaf) : Prop where
  name : ∀ c ∈ l.name.toList, isNameChar c
  mark : ∀ c ∈ l.mark, c ∉ ['=', '(', ')']
  mark_head : ∀ c ∈ l.mark.head?, isNameChar c = false

/-- With an asterisk at the end there is one behind each value. -/
theorem pattern_concat (l : Leaf) :
    l.pattern ++ ['*'] = ((l.first :: l.others).map fun v => (escape v).toList).flatMap (· ++ ['*']) := by
  obtain ⟨name, mark, first, others⟩ := l
  unfold pattern
  dsimp only
  induction others generalizing first with
  | nil => simp
  | cons v others ih => simpa using ih v

theorem pattern_inj (h : l.pattern = l'.pattern) : l.first = l'.first ∧ l.others = l'.others := by
  have hasterisk : ∀ l : Leaf, ∀ piece ∈ (l.first :: l.others).map fun v => (escape v).toList, '*' ∉ piece := by
    intro l piece hpiece hmem
    obtain ⟨v, -, rfl⟩ := List.mem_map.mp hpiece
    exact not_mem_of_mem_escape hmem (by decide)
  have hpieces := congrArg (· ++ ['*']) h
  rw [pattern_concat, pattern_concat] at hpieces
  have hvalues := List.map_injective_iff.mpr (fun _ _ => escape_inj)
    (flatMap_concat_inj (hasterisk l) (hasterisk l') hpieces)
  exact List.cons.inj hvalues

theorem not_mem_of_mem_pattern {x : Char} (h : x ∈ l.pattern) : x ∉ ['(', ')'] := by
  have hvalue : ∀ {v : List UInt8}, x ∈ (escape v).toList → x ∉ ['(', ')'] := fun hx hmem =>
    not_mem_of_mem_escape hx (List.mem_cons_of_mem '*' hmem)
  rcases List.mem_append.mp h with hx | hx
  · exact hvalue hx
  · obtain ⟨v, -, hx⟩ := List.mem_flatMap.mp hx
    rcases List.mem_cons.mp hx with rfl | hx
    · decide
    · exact hvalue hx

theorem not_mem_of_mem_chars (h : l.Legible) {x : Char} (hx : x ∈ l.chars) : x ∉ ['(', ')'] := by
  rw [chars, List.mem_append, List.mem_append, List.mem_cons] at hx
  rcases hx with hx | hx | rfl | hx
  · have hname := h.name x hx
    intro hmem
    simp only [List.mem_cons, List.not_mem_nil, or_false] at hmem
    rcases hmem with rfl | rfl <;> exact absurd hname (by decide)
  · exact fun hmem => h.mark x hx (List.mem_cons_of_mem '=' hmem)
  · decide
  · exact not_mem_of_mem_pattern hx

/-- A leaf is told by its text. -/
theorem chars_inj (h : l.Legible) (h' : l'.Legible) (heq : l.chars = l'.chars) : l = l' := by
  have hhead : ∀ {l : Leaf}, l.Legible → ∀ c ∈ (l.mark ++ '=' :: l.pattern).head?, isNameChar c = false := by
    intro l h c hc
    cases hm : l.mark with
    | nil =>
      rw [hm] at hc
      obtain rfl := Option.some.inj hc
      decide
    | cons x mark =>
      rw [hm] at hc
      exact h.mark_head c (by rw [hm]; exact hc)
  have hmark : ∀ {l : Leaf}, l.Legible → ∀ c ∈ l.mark, (c != '=') = true := by
    intro l h c hc
    exact bne_iff_ne.mpr fun heq => h.mark c hc (heq ▸ List.mem_cons_self)
  obtain ⟨hname, hrest⟩ := append_inj_of_all h.name h'.name (hhead h) (hhead h') heq
  obtain ⟨hmarks, hpattern⟩ := append_inj_of_all (hmark h) (hmark h') (by simp) (by simp) hrest
  obtain ⟨hfirst, hothers⟩ := pattern_inj (List.cons.inj hpattern).2
  obtain ⟨name, mark, first, others⟩ := l
  obtain ⟨name', mark', first', others'⟩ := l'
  exact congr (congr (congrArg₂ Leaf.mk (String.toList_inj.mp hname) hmarks) hfirst) hothers

end Leaf

/-- What stands between the name and the equals sign of a comparison. -/
def comparisonMark : Comparison → List Char
  | .equality => []
  | .greaterOrEqual => ['>']
  | .lessOrEqual => ['<']
  | .approximate => ['~']

/-- What is set between the colons of a match by a rule. -/
def ruleNames (dnAttributes : Bool) (rule : Option String) : List String :=
  (if dnAttributes then ["dn"] else []) ++ rule.toList

def ruleMark (dnAttributes : Bool) (rule : Option String) : List Char :=
  ':' :: ((ruleNames dnAttributes rule).map String.toList).flatMap (· ++ [':'])

/-- What the leaf of a filter is written from. -/
def leaf? : Filter → Option Leaf
  | .compare comparison name value => some ⟨name, comparisonMark comparison, value, []⟩
  | .substrings name initial any final => some ⟨name, [], initial.getD [], any ++ [final.getD []]⟩
  | .present name => some ⟨name, [], [], [[]]⟩
  | .extensible rule name value dnAttributes => some ⟨name.getD "", ruleMark dnAttributes rule, value, []⟩
  | .and _ | .or _ | .not _ => none

/-- The names in a leaf are written as usual, and it can be seen what it is made of: a substrings filter has a part, and
no part is empty, and a match by a rule has a rule or a name, where no rule is called as the mark for names is. -/
def LegibleNode : Filter → Prop
  | .compare _ name _ | .present name => IsName name
  | .substrings name initial any final =>
    IsName name ∧ initial.toList ++ any ++ final.toList ≠ [] ∧ [] ∉ initial.toList ++ any ++ final.toList
  | .extensible rule name _ _ =>
    (∀ r ∈ rule, IsName r ∧ r ≠ "dn") ∧ (∀ n ∈ name, IsName n) ∧ (rule.isSome ∨ name.isSome)
  | .and _ | .or _ | .not _ => True

theorem not_mem_of_isNameChar {x : Char} (h : isNameChar x) : x ∉ ['=', '(', ')', ':'] := by
  intro hmem
  simp only [List.mem_cons, List.not_mem_nil, or_false] at hmem
  rcases hmem with rfl | rfl | rfl | rfl <;> exact absurd h (by decide)

theorem comparisonMark_legible (comparison : Comparison) : (∀ c ∈ comparisonMark comparison, c ∉ ['=', '(', ')']) ∧
    ∀ c ∈ (comparisonMark comparison).head?, isNameChar c = false := by
  constructor
  · cases comparison <;> simp [comparisonMark]
  · rintro c hc
    cases comparison <;> cases hc <;> rfl

theorem comparisonMark_ne_ruleMark (comparison : Comparison) (dnAttributes : Bool) (rule : Option String) :
    comparisonMark comparison ≠ ruleMark dnAttributes rule := by
  intro h
  cases comparison <;> cases h

theorem comparisonMark_inj : ∀ {c c' : Comparison}, comparisonMark c = comparisonMark c' → c = c' := by
  intro c c'
  cases c <;> cases c' <;> decide

section Rule

variable {dnAttributes dnAttributes' : Bool} {rule rule' : Option String} (hr : ∀ r ∈ rule, IsName r ∧ r ≠ "dn")
include hr

theorem isName_of_mem_ruleNames {s : String} (h : s ∈ ruleNames dnAttributes rule) : IsName s := by
  rcases List.mem_append.mp h with h | h
  · split at h
    · rw [List.mem_singleton.mp h]
      decide
    · cases h
  · exact (hr s (Option.mem_toList.mp h)).1

theorem not_mem_of_mem_ruleMark {c : Char} (h : c ∈ ruleMark dnAttributes rule) : c ∉ ['=', '(', ')'] := by
  rcases List.mem_cons.mp h with rfl | h
  · decide
  obtain ⟨piece, hpiece, hc⟩ := List.mem_flatMap.mp h
  obtain ⟨s, hs, rfl⟩ := List.mem_map.mp hpiece
  rcases List.mem_append.mp hc with hc | hc
  · exact fun hmem => not_mem_of_isNameChar ((isName_of_mem_ruleNames hr hs).2 c hc)
      (List.mem_append_left [':'] hmem)
  · rw [List.mem_singleton.mp hc]
    decide

/-- The mark for names is told from a rule, as no rule is called so. -/
theorem ruleMark_inj (hr' : ∀ r ∈ rule', IsName r ∧ r ≠ "dn") (h : ruleMark dnAttributes rule = ruleMark dnAttributes' rule') :
    dnAttributes = dnAttributes' ∧ rule = rule' := by
  have hcolon : ∀ {dnAttributes rule}, (∀ r ∈ rule, IsName r ∧ r ≠ "dn") →
      ∀ piece ∈ (ruleNames dnAttributes rule).map String.toList, ':' ∉ piece := by
    intro dnAttributes rule hr piece hpiece hmem
    obtain ⟨s, hs, rfl⟩ := List.mem_map.mp hpiece
    exact not_mem_of_isNameChar ((isName_of_mem_ruleNames hr hs).2 ':' hmem) (by decide)
  have hnames : ruleNames dnAttributes rule = ruleNames dnAttributes' rule' :=
    List.map_injective_iff.mpr (fun _ _ => String.toList_inj.mp)
      (flatMap_concat_inj (hcolon hr) (hcolon hr') (List.cons.inj h).2)
  have hdn : ∀ {dnAttributes rule}, (∀ r ∈ rule, IsName r ∧ r ≠ "dn") →
      ("dn" ∈ ruleNames dnAttributes rule ↔ dnAttributes = true) := by
    intro dnAttributes rule hr
    have hrule : "dn" ∉ rule.toList := fun hmem => (hr "dn" (Option.mem_toList.mp hmem)).2 rfl
    cases dnAttributes <;> simp [ruleNames, hrule]
  obtain rfl : dnAttributes = dnAttributes' := Bool.eq_iff_iff.mpr ((hdn hr).symm.trans (hnames ▸ hdn hr'))
  have hrules : rule.toList = rule'.toList := List.append_cancel_left hnames
  refine ⟨rfl, Option.ext fun r => ?_⟩
  rw [← Option.mem_toList, ← Option.mem_toList, hrules]

end Rule

theorem LegibleNode.leaf {l : Leaf} (h : f.LegibleNode) (hl : f.leaf? = some l) : l.Legible := by
  cases f with
  | compare comparison name value =>
    cases hl
    exact ⟨h.2, (comparisonMark_legible comparison).1, (comparisonMark_legible comparison).2⟩
  | substrings name initial any final =>
    cases hl
    exact ⟨h.1.2, nofun, nofun⟩
  | present name =>
    cases hl
    exact ⟨h.2, nofun, nofun⟩
  | extensible rule name value dnAttributes =>
    cases hl
    obtain ⟨hrule, hname, -⟩ := h
    refine ⟨?_, fun c => not_mem_of_mem_ruleMark hrule, ?_⟩
    · cases name with
      | none => exact nofun
      | some name => exact (hname name rfl).2
    · intro c hc
      obtain rfl := Option.some.inj hc
      decide
  | _ => cases hl

section Parts

variable {initial final initial' final' : Option (List UInt8)} {any any' : List (List UInt8)}

/-- A part that is not empty is told from one that is left out. -/
theorem getD_inj (h : [] ∉ initial.toList) (h' : [] ∉ initial'.toList) (heq : initial.getD [] = initial'.getD []) :
    initial = initial' := by
  cases initial <;> cases initial' <;> simp_all

/-- A presence test is told from parts, of which there are some that are not empty. -/
theorem parts_ne_present (hne : initial.toList ++ any ++ final.toList ≠ [])
    (h : [] ∉ initial.toList ++ any ++ final.toList) : ¬ (initial.getD [] = [] ∧ any ++ [final.getD []] = [[]]) := by
  rintro ⟨hinitial, hothers⟩
  obtain ⟨rfl, hfinal⟩ : any = [] ∧ final.getD [] = [] := by
    cases any with
    | nil => exact ⟨rfl, List.head_eq_of_cons_eq hothers⟩
    | cons part any => simp at hothers
  simp only [List.append_nil, List.mem_append, not_or] at h hne
  have hnone : [] ∉ (none : Option (List UInt8)).toList := List.not_mem_nil
  rw [getD_inj h.1 hnone hinitial, getD_inj h.2 hnone hfinal] at hne
  exact hne rfl

end Parts

/-- A name is told from one that is left out. -/
theorem name_inj {name name' : Option String} (h : ∀ n ∈ name, IsName n) (h' : ∀ n ∈ name', IsName n)
    (heq : name.getD "" = name'.getD "") : name = name' := by
  cases name with
  | none =>
    cases name' with
    | none => rfl
    | some n => exact absurd heq.symm (h' n rfl).1
  | some n =>
    cases name' with
    | none => exact absurd heq (h n rfl).1
    | some n' => exact congrArg some heq

/-- Leaves that are written from the same are the same. -/
theorem leaf?_inj {l : Leaf} (hf : f.LegibleNode) (hg : g.LegibleNode) (hl : f.leaf? = some l) (hl' : g.leaf? = some l) :
    f = g := by
  have h := hl.trans hl'.symm
  clear hl'
  cases f with
  | compare comparison name value =>
    cases g with
    | compare comparison' name' value' =>
      simp only [leaf?, Option.some.injEq, Leaf.mk.injEq, and_true] at h
      obtain ⟨rfl, hmark, rfl⟩ := h
      rw [comparisonMark_inj hmark]
    | extensible => simp [leaf?, comparisonMark_ne_ruleMark] at h
    | _ => simp [leaf?] at h
  | substrings name initial any final =>
    obtain ⟨-, hne, hparts⟩ := hf
    cases g with
    | substrings name' initial' any' final' =>
      obtain ⟨-, -, hparts'⟩ := hg
      simp only [List.mem_append, not_or] at hparts hparts'
      simp only [leaf?, Option.some.injEq, Leaf.mk.injEq, true_and] at h
      obtain ⟨rfl, hinitial, hothers⟩ := h
      obtain ⟨rfl, hfinal⟩ := List.append_inj' hothers rfl
      rw [getD_inj hparts.1.1 hparts'.1.1 hinitial,
        getD_inj hparts.2 hparts'.2 (List.head_eq_of_cons_eq hfinal)]
    | present name' =>
      simp only [leaf?, Option.some.injEq, Leaf.mk.injEq, true_and] at h
      exact absurd h.2 (parts_ne_present hne hparts)
    | _ => simp [leaf?] at h
  | present name =>
    cases g with
    | present name' =>
      obtain ⟨rfl, -⟩ := Leaf.mk.inj (Option.some.inj h)
      rfl
    | substrings name' initial' any' final' =>
      obtain ⟨-, hne, hparts⟩ := hg
      simp only [leaf?, Option.some.injEq, Leaf.mk.injEq, true_and] at h
      exact absurd ⟨h.2.1.symm, h.2.2.symm⟩ (parts_ne_present hne hparts)
    | _ => simp [leaf?] at h
  | extensible rule name value dnAttributes =>
    obtain ⟨hrule, hname, -⟩ := hf
    cases g with
    | extensible rule' name' value' dnAttributes' =>
      obtain ⟨hrule', hname', -⟩ := hg
      simp only [leaf?, Option.some.injEq, Leaf.mk.injEq, and_true] at h
      obtain ⟨hnames, hmark, rfl⟩ := h
      obtain ⟨rfl, rfl⟩ := ruleMark_inj hrule hrule' hmark
      rw [name_inj hname hname' hnames]
    | compare => simp [leaf?, (comparisonMark_ne_ruleMark _ _ _).symm] at h
    | _ => simp [leaf?] at h
  | _ => cases hl

/-! ### Filters -/

/-- What the text of a filter starts with, before the filters that it is made of. -/
def front : Filter → List Char
  | .and _ => ['&']
  | .or _ => ['|']
  | .not _ => ['!']
  | f => (f.leaf?.map Leaf.chars).getD []

/-- The attribute names and rules of a filter are written as usual, and its leaves tell what they are made of. -/
def Legible (f : Filter) : Prop := ∀ n node, Node f n node → node.LegibleNode

/-- The parts within a substrings filter are written with the asterisks behind them, where a leaf has them in front. -/
theorem toList_parts (any : List (List UInt8)) (r : List Char) :
    '*' :: ((String.join (any.map (escape · ++ "*"))).toList ++ r) =
      (any.flatMap fun v => '*' :: (escape v).toList) ++ '*' :: r := by
  rw [String.toList_join, List.flatMap_map]
  induction any with
  | nil => rfl
  | cons v any ih => simpa using ih

theorem toList_text (f : Filter) : f.text.toList = '(' :: (f.front ++ ((texts f.children).toList ++ [')'])) := by
  cases f with
  | compare comparison name value =>
    cases comparison <;>
      simp [text, front, leaf?, Leaf.chars, Leaf.pattern, comparisonMark, comparisonSign, children, texts]
  | substrings name initial any final =>
    simp [-String.toList_join, text, front, leaf?, Leaf.chars, Leaf.pattern, children, texts, toList_parts]
  | present name =>
    have hempty : (escape []).toList = [] := rfl
    simp [text, front, leaf?, Leaf.chars, Leaf.pattern, children, texts, hempty]
  | extensible rule name value dnAttributes =>
    cases dnAttributes <;> cases rule <;>
      simp [text, front, leaf?, Leaf.chars, Leaf.pattern, ruleMark, ruleNames, children, texts]
  | _ => simp [text, front, children, texts]

theorem not_mem_of_mem_front (h : f.LegibleNode) {x : Char} (hx : x ∈ f.front) : x ∉ ['(', ')'] := by
  cases hl : f.leaf? with
  | none =>
    cases f with
    | and | or | not =>
      rw [List.mem_singleton.mp hx]
      decide
    | _ => cases hl
  | some l =>
    refine Leaf.not_mem_of_mem_chars (h.leaf hl) ?_
    cases f with
    | and | or | not => cases hl
    | _ =>
      cases hl
      exact hx

/-- A filter is told by what its text starts with and the filters that it is made of. -/
theorem eq_of_front (hf : f.LegibleNode) (hg : g.LegibleNode) (h : f.front = g.front) (hc : f.children = g.children) :
    f = g := by
  have hleaf : ∀ {f : Filter} {l : Leaf}, f.leaf? = some l → f.front = l.chars := by
    intro f l hl
    cases f <;> cases hl <;> rfl
  have hequals : ∀ {f : Filter}, '=' ∈ f.front ↔ f.leaf?.isSome := by
    intro f
    cases f <;> simp [front, leaf?, Leaf.chars]
  have hsome : f.leaf?.isSome ↔ g.leaf?.isSome := by rw [← hequals, ← hequals, h]
  cases hl : f.leaf? with
  | some l =>
    obtain ⟨l', hl'⟩ := Option.isSome_iff_exists.mp (hsome.mp (hl ▸ rfl))
    rw [hleaf hl, hleaf hl'] at h
    obtain rfl := Leaf.chars_inj (hf.leaf hl) (hg.leaf hl') h
    exact leaf?_inj hf hg hl hl'
  | none =>
    have hnone : g.leaf? = none := by
      rw [← Option.not_isSome_iff_eq_none, ← hsome, hl]
      exact Bool.false_ne_true
    cases f <;> cases hl <;> cases g <;> cases hnone <;> simp_all [front, children]

theorem legible_iff : f.Legible ↔ f.LegibleNode ∧ ∀ g ∈ f.children, g.Legible := by
  constructor
  · exact fun h => ⟨h 0 f (.root f), fun g hg n node hnode => h (n + 1) node (.inner hg hnode)⟩
  · rintro ⟨hf, hchildren⟩ n node hnode
    cases hnode with
    | root => exact hf
    | inner hg hnode => exact hchildren _ hg _ _ hnode

/-- The texts of filters, closed, begin with a parenthesis. -/
theorem head_texts (filters : List Filter) (r : List Char) :
    ∀ c ∈ ((texts filters).toList ++ ')' :: r).head?, c ∈ ['(', ')'] := by
  cases filters with
  | nil => simp [texts]
  | cons f filters => simp [texts, toList_text]

/-- The texts of filters, closed, are told filter by filter. -/
theorem texts_append_inj {r s : List Char}
    (hinj : ∀ f ∈ filters, f.Legible → ∀ g, g.Legible → ∀ r s, f.text.toList ++ r = g.text.toList ++ s → f = g ∧ r = s)
    (hf : ∀ f ∈ filters, f.Legible) (hg : ∀ g ∈ others, g.Legible)
    (h : (texts filters).toList ++ ')' :: r = (texts others).toList ++ ')' :: s) : filters = others ∧ r = s := by
  induction filters generalizing others with
  | nil =>
    cases others with
    | nil => exact ⟨rfl, (List.cons.inj h).2⟩
    | cons g others => simp [texts, toList_text] at h
  | cons f filters ih =>
    cases others with
    | nil => simp [texts, toList_text] at h
    | cons g others =>
      simp only [texts, String.toList_append, List.append_assoc] at h
      obtain ⟨rfl, hrest⟩ := hinj f List.mem_cons_self (hf f List.mem_cons_self) g (hg g List.mem_cons_self) _ _ h
      obtain ⟨rfl, hend⟩ := ih (fun f hf => hinj f (List.mem_cons_of_mem _ hf))
        (fun f hm => hf f (List.mem_cons_of_mem _ hm)) (fun g hm => hg g (List.mem_cons_of_mem _ hm)) hrest
      exact ⟨rfl, hend⟩

/-- The text of a filter tells the filter and where its text ends, whatever is written behind it. -/
theorem text_append_inj {r s : List Char} (hf : f.Legible) (hg : g.Legible)
    (h : f.text.toList ++ r = g.text.toList ++ s) : f = g ∧ r = s := by
  -- on the depth, since the children are in a list
  induction hd : depth f using Nat.strong_induction_on generalizing f g r s with
  | _ d ih =>
    obtain ⟨hnode, hin⟩ := legible_iff.mp hf
    obtain ⟨hnode', hin'⟩ := legible_iff.mp hg
    have hparen : ∀ {f : Filter}, f.LegibleNode → ∀ c ∈ f.front, (!(['(', ')'].contains c)) = true := by
      intro f hf c hc
      simpa using not_mem_of_mem_front hf hc
    have hstop : ∀ (filters : List Filter) (r : List Char),
        ∀ c ∈ ((texts filters).toList ++ ')' :: r).head?, (!(['(', ')'].contains c)) = false := by
      intro filters r c hc
      rw [Bool.not_eq_false']
      exact List.contains_iff_mem.mpr (head_texts filters r c hc)
    simp only [toList_text, List.cons_append, List.append_assoc, List.nil_append, List.cons.injEq, true_and] at h
    obtain ⟨hfront, hrest⟩ := append_inj_of_all (hparen hnode) (hparen hnode') (hstop _ _) (hstop _ _) h
    obtain ⟨hchildren, hend⟩ := texts_append_inj
      (fun f' hf' hlegible g' hg' r s h => ih _ (hd ▸ depth_lt_of_mem_children hf') hlegible hg' h rfl) hin hin' hrest
    exact ⟨eq_of_front hnode hnode' hfront hchildren, hend⟩

/-- Filters are written alike only if they are the same. -/
theorem text_inj (hf : f.Legible) (hg : g.Legible) : f.text = g.text ↔ f = g := by
  refine ⟨fun h => ?_, congrArg text⟩
  have hchars : f.text.toList ++ [] = g.text.toList ++ [] := by rw [h]
  exact (text_append_inj hf hg hchars).1

/-- A value that spells the end of its filter and another filter behind it is not taken for these. -/
theorem text_spelled_filters :
    let f := Filter.and [.compare .equality "cn" [0x78, 0x29, 0x28, 0x73, 0x6E, 0x3D, 0x2A]]
    let g := Filter.and [.compare .equality "cn" [0x78], .present "sn"]
    f.Legible ∧ g.Legible ∧ f.text ≠ g.text := by
  intro f g
  have hleaf : ∀ {f : Filter}, f.LegibleNode → f.children = [] → f.Legible := by
    intro f hf hnone
    exact legible_iff.mpr ⟨hf, by simp [hnone]⟩
  have hcn : IsName "cn" := by decide
  have hsn : IsName "sn" := by decide
  have hf : f.Legible := by
    refine legible_iff.mpr ⟨trivial, fun f' hf' => ?_⟩
    rw [List.mem_singleton.mp hf']
    exact hleaf hcn rfl
  have hg : g.Legible := by
    refine legible_iff.mpr ⟨trivial, fun g' hg' => ?_⟩
    rcases List.mem_pair.mp hg' with rfl | rfl
    · exact hleaf hcn rfl
    · exact hleaf hsn rfl
  refine ⟨hf, hg, fun h => ?_⟩
  have heq : f = g := (text_inj hf hg).mp h
  simp [f, g] at heq

-- a rule that is called as the mark for names is taken for it
example (v : List UInt8) : text (.extensible (some "dn") (some "sn") v false) = text (.extensible none (some "sn") v true) :=
  rfl

end Ldap.Filter
