import Ldap.Proofs.Ber.Consumes
import Ldap.Proofs.Ber.Meets
import Ldap.Proofs.Filter.Codec
import Ldap.Proofs.Message.Framing

/-! Where a filter ends on a stream. The readers of sets, negations, presence tests and extensible matches leave the
stream where the header of the filter says that it ends. Those of comparisons and of substrings filters open a sequence
without looking at its length again: they end behind two elements, whatever was declared. -/

namespace Ldap.Filter

open Ber (Item ReadM Reader Bounds Reads Meets Consumes EndsAt IsElement Delivery)
open Ber.Length (Declares)
open Ber.Delivery (Plain content)
open Ber.Item (cellsAll)

variable {f : Filter} {limit stop n : Nat} {header : List UInt8} {r r' : Reader}

/-- The declared length of the filter is compared with what was read. -/
def Bounded : Filter → Prop
  | .compare .. | .substrings .. => False
  | .and _ | .or _ | .not _ | .present _ | .extensible .. => True

instance : DecidablePred Bounded := fun f => by
  cases f <;> unfold Bounded <;> infer_instance

/-- A header, whatever it declares, in front of two elements. -/
def IsPair (bytes : List UInt8) : Prop :=
  ∃ tag header n first second, Declares header n ∧ IsElement first ∧ IsElement second ∧
    bytes = tag :: (header ++ (first ++ second))

/-- The bytes that a filter was read from. -/
def Framed (f : Filter) (bytes : List UInt8) : Prop := (f.Bounded → IsElement bytes) ∧ (¬ f.Bounded → IsPair bytes)

namespace Framed

variable {bytes : List UInt8}

theorem of_isElement (hf : f.Bounded) (h : IsElement bytes) : Framed f bytes := ⟨fun _ => h, fun hn => absurd hf hn⟩

theorem of_isPair (hf : ¬ f.Bounded) (h : IsPair bytes) : Framed f bytes := ⟨fun hb => absurd hb hf, fun _ => h⟩

theorem ne_nil (h : Framed f bytes) : bytes ≠ [] := by
  by_cases hf : f.Bounded
  · exact (h.1 hf).ne_nil
  · obtain ⟨tag, header, n, first, second, -, -, -, rfl⟩ := h.2 hf
    exact List.cons_ne_nil _ _

end Framed

/-! ### What is consumed -/

theorem Parts.consumes (parts : Parts) : Consumes parts.read fun _ => IsElement :=
  Consumes.peekRequired_bind fun _ => Consumes.octets.bind_still fun _ => (Consumes.lift _).of_imp fun _ _ h => h.1

theorem Match.consumes (m : Match) : Consumes m.read fun _ => IsElement := by
  refine Consumes.peekRequired_bind fun tag => ?_
  split
  · exact Consumes.map Consumes.text
  split
  · exact Consumes.map Consumes.text
  split
  · exact Consumes.map Consumes.octets
  split
  · exact Consumes.map Consumes.boolean
  · exact Consumes.throw _

/-- A reader that opens a sequence and reads two elements in it. -/
theorem consumes_pair {f : Bounds → ReadM Filter} (hf : ∀ bounds, Consumes (f bounds) fun f inner =>
    ¬ f.Bounded ∧ ∃ first second, IsElement first ∧ IsElement second ∧ inner = first ++ second) :
    Consumes (ReadM.sequence >>= f) Framed := by
  refine (Consumes.sequence_bind hf).of_imp ?_
  rintro f _ ⟨tag, header, n, _, hd, rfl, hf, first, second, hfirst, hsecond, rfl⟩
  exact Framed.of_isPair hf ⟨tag, header, n, first, second, hd, hfirst, hsecond, rfl⟩

theorem consumes_comparison (c : Comparison) : Consumes (readComparison c) Framed := by
  refine consumes_pair fun _ => (Consumes.text.bind fun name => Consumes.map
    (R := fun f second => ¬ f.Bounded ∧ IsElement second) (Consumes.octets.of_imp fun _ _ h => ⟨id, h⟩)).of_imp ?_
  rintro f inner ⟨_, first, second, rfl, hfirst, hf, hsecond⟩
  exact ⟨hf, first, second, hfirst, hsecond, rfl⟩

/-- Of the two sequences of a substrings filter the inner one is read to its end. -/
theorem consumes_substrings : Consumes readSubstrings Framed := by
  have hparts (name : String) : Consumes (do
      let parts ← ReadM.components (← ReadM.sequence) Parts.read {}
      return Filter.substrings name parts.initial parts.any parts.final) fun f second =>
        IsElement second ∧ ¬ f.Bounded :=
    Consumes.sequence_bind_end fun bounds => (EndsAt.components (fun parts => (Parts.consumes parts).ne_nil) {}).map
      fun _ => id
  refine consumes_pair fun _ => (Consumes.text.bind hparts).of_imp ?_
  rintro f inner ⟨_, first, second, rfl, hfirst, hsecond, hf⟩
  exact ⟨hf, first, second, hfirst, hsecond, rfl⟩

theorem Match.bounded_of_toFilter {m : Match} (h : m.toFilter = .ok f) : f.Bounded := by
  unfold toFilter at h
  split at h
  · cases h
  · split at h
    · cases h
    · cases h
      trivial

theorem consumes_extensible : Consumes readExtensible Framed := by
  have hfilter (m : Match) : Consumes (ReadM.lift m.toFilter) fun f taken => taken = [] ∧ f.Bounded :=
    (Consumes.lift _).of_imp fun _ _ h => ⟨h.1, Match.bounded_of_toFilter h.2⟩
  refine (Consumes.sequence_bind_end fun bounds => (EndsAt.components (fun m => (Match.consumes m).ne_nil) {}).bind_still
    hfilter).of_imp ?_
  rintro f taken ⟨helement, hf⟩
  exact Framed.of_isElement hf helement

theorem consumes_leaf (tag : UInt8) : Consumes (readLeaf tag) Framed := by
  unfold readLeaf
  split
  · exact consumes_comparison _
  split
  · exact consumes_substrings
  split
  · exact Consumes.map (Consumes.text.of_imp fun _ _ h => Framed.of_isElement trivial h)
  split
  · exact consumes_extensible
  · exact Consumes.throw _

theorem consumes_set {p : ReadM Filter} (hp : Consumes p Framed) {set : List Filter → Filter}
    (hset : ∀ filters, (set filters).Bounded) :
    Consumes (do return set (← ReadM.listOf (← ReadM.sequence) p)) Framed := by
  refine (Consumes.sequence_bind_end fun bounds => (EndsAt.listOf (hp.of_imp fun _ _ h => h.ne_nil)).map hset).of_imp ?_
  rintro f taken ⟨helement, hf⟩
  exact Framed.of_isElement hf helement

theorem consumes_levels (levels : Nat) : Consumes (readLevels levels) Framed := by
  induction levels with
  | zero => exact Consumes.throw _
  | succ levels ih =>
    refine Consumes.peekRequired_bind fun tag => ?_
    split
    · exact consumes_set ih fun _ => trivial
    split
    · exact consumes_set ih fun _ => trivial
    split
    · refine (Consumes.sequence_bind_end (E := fun f ended => ended ∧ f.Bounded) fun bounds =>
        EndsAt.bind ih fun f => EndsAt.more_bind ?_ ?_).of_imp fun f taken h => Framed.of_isElement h.2 h.1
      · exact Consumes.throw_bind _ _
      · exact (Consumes.pure _).of_imp fun _ _ h => ⟨h.2, trivial, h.1 ▸ trivial⟩
    · exact consumes_leaf tag

/-! ### What is accepted -/

/-- A filter that is not bounded is read behind any header. -/
theorem meets_unbounded (hf : ¬ f.Bounded) (hd : Declares header n) (hn : n ≤ limit)
    (hl : f.toItem.value.length ≤ min limit Ber.maxLength) (levels : Nat) :
    ∃ components, f.toItem.value = (cellsAll components).map Ber.Cell.byte ∧
      ∀ stop, Meets limit stop (readLevels (levels + 1))
        (⟨f.toItem.tag, true⟩ :: Ber.Cell.later header ++ cellsAll components) (.ok f) := by
  cases f with
  | compare c name value =>
    obtain ⟨hand, hor, hnot⟩ := comparisonTag_ne c
    rw [toItem, Item.value, ← Item.byte_cellsAll, List.length_map] at hl
    refine ⟨_, by rw [toItem, Item.value, Item.byte_cellsAll], fun stop => Meets.peekRequired_bind ?_⟩
    rw [toItem, Item.tag, if_neg hand, if_neg hor, if_neg hnot, readLeaf, comparisonOfTag?_comparisonTag]
    exact Meets.sequence_bind hd hn fun s hs => (reads_assertion c name value hl).meets
  | substrings name initial any final =>
    rw [toItem, Item.value, ← Item.byte_cellsAll, List.length_map] at hl
    refine ⟨_, by rw [toItem, Item.value, Item.byte_cellsAll], fun stop => Meets.peekRequired_bind ?_⟩
    exact Meets.sequence_bind hd hn fun s hs => (reads_parts name initial any final hl).meets
  | _ => exact absurd trivial hf

/-- A filter that is read has taken the stream past the element in front, as its header tells where that ends, if the
filter is bounded. Otherwise it has taken a header and two elements, so that it depends on what the header declares, and
the filter is read behind headers that declare any other length, too. This holds at every depth. -/
theorem run_levels_skips (levels limit : Nat) (r r' : Reader) (f : Filter)
    (h : (readLevels levels).run (r.setLimit limit) = .ok f r') :
    (f.Bounded → r.Skips r') ∧
    (¬ f.Bounded → ∃ tag header n first second, Declares header n ∧ IsElement first ∧ IsElement second ∧
      r.pending = tag :: (header ++ (first ++ second)) ++ r'.pending ∧
      (r.Skips r' ↔ n = (first ++ second).length)) ∧
    (¬ f.Bounded → ∀ (n : Nat) (header tail : List UInt8) (q : Reader) (ds : List Delivery), Declares header n →
      n ≤ q.limit → f.toItem.value.length ≤ min q.limit Ber.maxLength → q.At ds → Plain ds →
      content ds = f.toItem.tag :: (header ++ f.toItem.value) ++ tail →
      ∃ q', (readLevels levels).run q = .ok f q' ∧ q'.pending = tail ∧
        (q.Skips q' ↔ n = f.toItem.value.length)) := by
  have ha : (readLevels levels).answer (r.setLimit limit) = .ok (f, r') := by rw [ReadM.answer, h]
  obtain ⟨taken, hp, hf⟩ := consumes_levels levels _ (Message.limit_setLimit_le r limit) f r' ha
  obtain ⟨-, hl⟩ := moves_levels levels (P := fun _ => True) _ trivial f r' ha
  -- the limit is not looked at by either
  have hskips : r.Skips r' ↔ IsElement taken := hp.skips_iff hl
  refine ⟨fun hb => hskips.mpr (hf.1 hb), fun hb => ?_, fun hb n header tail q ds hd hn hlen hq hplain hc => ?_⟩
  · obtain ⟨tag, header, n, first, second, hd, hfirst, hsecond, rfl⟩ := hf.2 hb
    exact ⟨tag, header, n, first, second, hd, hfirst, hsecond, hp.pending,
      hskips.trans (IsElement.iff_of_declares hd)⟩
  · obtain ⟨levels, rfl⟩ : ∃ fewer, levels = fewer + 1 := by
      cases levels with
      | zero => cases h
      | succ levels => exact ⟨levels, rfl⟩
    obtain ⟨components, hvalue, hmeets⟩ := meets_unbounded hb hd hn hlen levels
    have hbytes : (⟨f.toItem.tag, true⟩ :: Ber.Cell.later header ++ cellsAll components).map Ber.Cell.byte =
        f.toItem.tag :: (header ++ f.toItem.value) := by
      rw [hvalue]
      simp
    obtain ⟨left, -, htail, hread⟩ := Meets.answer_arrived hmeets hbytes hq hplain hc
    have hpasses := hq.passes_advance (htail ▸ hc)
    refine ⟨_, ReadM.run_of_answer_ok hread, ?_, ?_⟩
    · exact htail ▸ Reader.pending_of_none (hq.advance _ left).lookahead
    · exact (hpasses.skips_iff (hq.advance _ left).lookahead).trans (IsElement.iff_of_declares hd)

/-- A presence test, and a comparison that is read behind a length in the long form that is too small, too, with a byte
behind it. -/
theorem run_levels_skips_name :
    let r := Reader.ofBytes [0x87, 0x02, 0x63, 0x6E, 0xFF]
    let r' : Reader := { source := some [.bytes [0xFF]], consumed := 4 }
    let s := Reader.ofBytes [0xA3, 0x07, 0x04, 0x02, 0x63, 0x6E, 0x04, 0x01, 0x61]
    let s' : Reader := { source := some [], consumed := 9 }
    let f := equality "cn" [0x61]
    let q := Reader.ofBytes (f.toItem.tag :: ([0x81, 0x03] ++ f.toItem.value) ++ [0xFF])
    (read.run (r.setLimit 0) = .ok (.present "cn") r' ∧ r.Skips r') ∧ read.run (s.setLimit 0) = .ok f s' ∧
      ∃ q', read.run q = .ok f q' ∧ q'.pending = [0xFF] ∧ ¬ q.Skips q' := by
  intro r r' s s' f q
  have hr : read.run ((Reader.ofBytes [0x87, 0x02, 0x63, 0x6E, 0xFF]).setLimit 0) =
      .ok (.present "cn") { source := some [.bytes [0xFF]], consumed := 4 } := rfl
  have hs : read.run ((Reader.ofBytes [0xA3, 0x07, 0x04, 0x02, 0x63, 0x6E, 0x04, 0x01, 0x61]).setLimit 0) =
      .ok (equality "cn" [0x61]) { source := some [], consumed := 9 } := rfl
  have hd : Declares [0x81, 0x03] 3 := .long (by decide) rfl ⟨by decide, by decide, rfl⟩ (by decide)
  obtain ⟨-, -, hany⟩ := run_levels_skips (maxDepth + 1) 0 s s' f hs
  obtain ⟨q', hq, htail, hiff⟩ := hany id 3 [0x81, 0x03] [0xFF] q _ hd (by decide)
    (by decide +kernel) (Reader.at_ofBytes _) (Ber.Delivery.plain_bytes _) (Ber.Delivery.content_bytes _)
  refine ⟨⟨hr, (run_levels_skips (maxDepth + 1) 0 r r' _ hr).1 trivial⟩, hs, q', hq, htail, fun hskips => ?_⟩
  exact absurd (hiff.mp hskips) (by decide +kernel)

/-- Of these comparisons the first declares no bytes and is read with the bytes behind it all the same; the second
declares two bytes more than it has, and these are left. -/
theorem not_read_skips :
    let short := Reader.ofBytes [0xA3, 0x00, 0x04, 0x02, 0x63, 0x6E, 0x04, 0x01, 0x61]
    let long := Reader.ofBytes [0xA3, 0x09, 0x04, 0x02, 0x63, 0x6E, 0x04, 0x01, 0x61, 0xFF, 0xFF]
    let behindShort : Reader := { source := some [], consumed := 9 }
    let behindLong : Reader := { source := some [.bytes [0xFF, 0xFF]], consumed := 9 }
    read.run (short.setLimit 0) = .ok (equality "cn" [0x61]) behindShort ∧ ¬ short.Skips behindShort ∧
      read.run (long.setLimit 0) = .ok (equality "cn" [0x61]) behindLong ∧ ¬ long.Skips behindLong := by
  refine ⟨rfl, ?_, rfl, ?_⟩
  · rintro ⟨e, n, hd, hn, -, -⟩
    cases hd
    cases hn
  · rintro ⟨e, n, hd, hn, -, -⟩
    cases hd
    cases hn

end Ldap.Filter
