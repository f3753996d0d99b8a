import Ldap.Proofs.Ber.Buffer
import Ldap.Proofs.Ber.Meets
import Ldap.Proofs.Control.Decision
import Ldap.Proofs.Directory.Depth
import Ldap.Proofs.Message.Codec
import Ldap.Proofs.Service.Preview

/-! Copies of entries in the answers to updates. A request may ask for the entry as it was before an update and as it is
after it. The copy in the answer is read back as what a search would have returned of the entry that was stored under
the name of the request, and of the one that is now stored under the name which the update gives it. This is also the
one that is found there, with one exception. Under the blank name the description of the server is found, whatever is
stored there, and an entry that is stored there may still be modified. -/

namespace Ldap

open Ber (Item Reader Takes Reads)

/-! ### Entries on the wire -/

namespace ResultEntry

/-- The bytes are read as the entry, up to their end. -/
def ReadFrom (e : ResultEntry) (bytes : List UInt8) : Prop :=
  ∃ r, read.run (Reader.ofBytes bytes) = .ok e r ∧ r.pending = []

/-- An entry is read if the length of what stands behind its header can be told. -/
theorem takes {limit stop : Nat} (e : ResultEntry) (tag : UInt8)
    (hl : (Item.encodeAll e.components).length ≤ min limit Ber.maxLength) :
    Takes limit stop read (Item.cells (.constructed tag e.components)) e := by
  rw [← Item.length_cellsAll] at hl
  have hinside : ∀ s n, s = stop → Reads limit stop (do
      let dn ← Ber.ReadM.text
      let attributes ← Attribute.readList
      Ber.ReadM.skipRest ⟨tag, n, s⟩
      return ⟨dn, attributes⟩) e.components e := by
    rintro s n rfl
    refine Reads.bind_cons (fun _ => Reads.text _ e.dn) ?_
    refine Reads.bind_cons (fun _ => Attribute.reads_list e.attributes) ?_
    exact Reads.skipRest_bind rfl (Reads.pure e)
  exact Takes.sequence_bind (Ber.Length.declares_encode (by omega)) (by omega)
    fun r hr => hinside _ _ hr.stop_eq hl

/-- An entry that is not too long is read back from the bytes that it was written as. -/
theorem readFrom_toBytes {e : ResultEntry} (hl : (Op.searchResultEntry e).toItem.value.length ≤ Ber.maxLength) :
    e.ReadFrom (Op.searchResultEntry e).toItem.toBytes := by
  have hb : (Op.searchResultEntry e).toItem.cells.map Ber.Cell.byte = (Op.searchResultEntry e).toItem.toBytes := by
    rw [Item.byte_cells, Item.toBytes_eq_encode]
  obtain ⟨left, hleft, hempty, hread⟩ := Ber.Meets.answer_arrived
    (fun stop => (e.takes _ (Nat.le_min.mpr ⟨hl, hl⟩)).meets) hb (Reader.at_ofBytes _)
    (Ber.Delivery.plain_bytes _) ((Ber.Delivery.content_bytes _).trans (List.append_nil _).symm)
  refine ⟨_, Ber.ReadM.run_of_answer_ok hread, ?_⟩
  rw [Reader.pending_of_none rfl]
  exact hempty

end ResultEntry

/-! ### Entries of an update -/

namespace Directory

variable {d moved : Directory} {dn : String} {r : ModifyDnRequest} {before after e : Entry}

/-- An entry that was put into the store last is stored under its name. -/
theorem stored_of_put {s : Store} (hs : d.store = s.put e) (hk : e.key = Dn.normalize dn) :
    d.store.get? dn = some e := by
  rw [hs, Store.get?_put, if_pos hk]

/-- What is stored under a name is found there, if that is not blank. -/
theorem get?_of_split_ne_nil (hdn : Dn.split dn ≠ []) : d.get? dn = d.store.get? dn := by
  rw [get?, if_neg (by simpa using hdn)]

theorem require_eq_ok_iff : d.require dn = .ok e ↔ d.store.get? dn = some e := by
  unfold require
  cases d.store.get? dn <;> simp

/-- What is answered of an entry that is removed is what was stored under its name. -/
theorem get?_of_delete {subtree noOp : Bool} (h : d.delete dn subtree noOp = .ok (e, moved)) :
    d.store.get? dn = some e := by
  unfold delete at h
  obtain ⟨x, hx, h⟩ := Except.bind_eq_ok_iff.mp h
  obtain ⟨-, h⟩ := Except.check_eq_ok_iff.mp h
  obtain ⟨rfl, -⟩ := Prod.mk.inj (Except.ok.inj h)
  exact require_eq_ok_iff.mp hx

/-- The entries below a renamed one are moved first, and the renamed one is put behind them. -/
theorem modifyDn_done {noOp : Bool} (h : d.modifyDn r noOp = .ok (.done before after moved)) :
    d.Planned r before after ∧ (noOp = false → ∃ s : Store, moved.store = s.put after) := by
  cases noOp with
  | true =>
    rw [modifyDn_noOp, Except.map_eq_ok_iff] at h
    obtain ⟨p, hp, h⟩ := h
    obtain ⟨rfl, rfl, -⟩ := Renaming.done.inj h
    exact ⟨planRenaming_ok hp, nofun⟩
  | false =>
    rw [modifyDn_eq, Except.map_eq_ok_iff] at h
    obtain ⟨p, hp, h⟩ := h
    obtain ⟨rfl, rfl⟩ := carryOut_done h
    refine ⟨planRenaming_ok hp, fun _ => ?_⟩
    rw [carryOut, moveSubtree_eq] at h
    cases hm : moveBelow r.dn p.2.dn (d.below r) (d.store.erase r.dn) with
    | error s => simp [hm] at h
    | ok s =>
      rw [hm] at h
      exact ⟨s, ((Renaming.done.inj h).2.2 ▸ rfl)⟩

end Directory

namespace Op

/-- The name that a request for an update gives. -/
def dn : Op → String
  | .addRequest dn _ | .deleteRequest dn | .modifyRequest dn _ => dn
  | .modifyDnRequest r => r.dn
  | _ => ""

/-- The name that the entry has behind the update. -/
def newDn : Op → String
  | .modifyDnRequest r => r.target
  | op => op.dn

/-- The update edits the entry that is stored under the blank name. -/
def EditsBlank : Op → Prop
  | .modifyRequest dn _ => Dn.split dn = []
  | _ => False

end Op

namespace Service

variable {d d' : Directory} {a : Admitted} {op : Op} {reply : Reply} {names : List String}

/-- What an update answers, with the entries that it may have copied: the one that is stored under the name of the
request before, and the one that is stored under the new name behind the update, unless that was only a preview. -/
inductive Copied (d : Directory) (a : Admitted) (d' : Directory) : Op → Reply → Prop
  | added (dn : String) (attributes : List Attribute) (after : Entry) (hdn : Dn.split dn ≠ [])
      (ha : a.contains .noOp = false → d'.store.get? dn = some after) :
      Copied d a d' (.addRequest dn attributes) ⟨.addResponse (updateResult a), postRead a after⟩
  | removed (dn : String) (before : Entry) (hb : d.store.get? dn = some before) :
      Copied d a d' (.deleteRequest dn) ⟨.deleteResponse (updateResult a), preRead a before⟩
  | edited (dn : String) (changes : List Change) (before after : Entry) (hb : d.store.get? dn = some before)
      (ha : a.contains .noOp = false → d'.store.get? dn = some after) :
      Copied d a d' (.modifyRequest dn changes)
        ⟨.modifyResponse (updateResult a), preRead a before ++ postRead a after⟩
  | renamed (r : ModifyDnRequest) (before after : Entry) (hb : d.store.get? r.dn = some before)
      (hdn : Dn.split r.target ≠ []) (ha : a.contains .noOp = false → d'.store.get? r.target = some after) :
      Copied d a d' (.modifyDnRequest r)
        ⟨.modifyDnResponse (updateResult a), preRead a before ++ postRead a after⟩

theorem add_copied {dn : String} {attributes : List Attribute} (h : add d dn attributes a = .ok (reply, d')) :
    Copied d a d' (.addRequest dn attributes) reply := by
  unfold add at h
  obtain ⟨⟨⟩, -, h⟩ := Except.bind_eq_ok_iff.mp h
  obtain ⟨⟨added, moved⟩, hadd, h⟩ := Except.bind_eq_ok_iff.mp h
  obtain ⟨rfl, rfl⟩ := Prod.mk.inj (Except.ok.inj h)
  obtain ⟨rfl, hn, -, hmoved⟩ := Directory.add_ok hadd
  rw [Entry.dn_ofAttributes] at hn
  refine .added dn attributes _ (Dn.split_ne_nil_of_naming hn) fun hno => ?_
  refine Directory.stored_of_put (by rw [hmoved, hno]; rfl) ?_
  rw [Entry.key, Entry.dn_withNaming, Entry.dn_ofAttributes]

theorem delete_copied {dn : String} (h : delete d dn a = .ok (reply, d')) :
    Copied d a d' (.deleteRequest dn) reply := by
  unfold delete at h
  obtain ⟨e, -, h⟩ := Except.bind_eq_ok_iff.mp h
  obtain ⟨⟨⟩, -, h⟩ := Except.bind_eq_ok_iff.mp h
  obtain ⟨⟨removed, moved⟩, hdelete, h⟩ := Except.bind_eq_ok_iff.mp h
  obtain ⟨rfl, rfl⟩ := Prod.mk.inj (Except.ok.inj h)
  exact .removed dn removed (Directory.get?_of_delete hdelete)

theorem modify_copied {dn : String} {changes : List Change} (h : modify d dn changes a = .ok (reply, d')) :
    Copied d a d' (.modifyRequest dn changes) reply := by
  unfold modify at h
  obtain ⟨e, -, h⟩ := Except.bind_eq_ok_iff.mp h
  obtain ⟨⟨⟩, -, h⟩ := Except.bind_eq_ok_iff.mp h
  obtain ⟨⟨⟨before, after⟩, moved⟩, hmodify, h⟩ := Except.bind_eq_ok_iff.mp h
  obtain ⟨rfl, rfl⟩ := Prod.mk.inj (Except.ok.inj h)
  obtain ⟨hb, hkey, hdn, -, hmoved, -⟩ := Directory.modify_ok hmodify
  refine .edited dn changes before after (Store.get?_eq_some_iff.mpr ⟨hb, hkey⟩) fun hno => ?_
  refine Directory.stored_of_put (by rw [hmoved, hno]; rfl) ?_
  rw [Entry.key, hdn]
  exact hkey

theorem modifyDn_copied {r : ModifyDnRequest} (h : modifyDn d r a = .ok (some reply, d')) :
    Copied d a d' (.modifyDnRequest r) reply := by
  unfold modifyDn at h
  obtain ⟨e, -, h⟩ := Except.bind_eq_ok_iff.mp h
  obtain ⟨⟨⟩, -, h⟩ := Except.bind_eq_ok_iff.mp h
  obtain ⟨ending, hend, h⟩ := Except.bind_eq_ok_iff.mp h
  cases ending with
  | brokenOff moved => cases h
  | done before after moved =>
    obtain ⟨hreply, rfl⟩ := Prod.mk.inj (Except.ok.inj h)
    obtain rfl := Option.some.inj hreply
    obtain ⟨hplanned, hput⟩ := Directory.modifyDn_done hend
    have hsplit : Dn.split r.target ≠ [] := by
      obtain ⟨rdn, hr, -⟩ := Dn.exists_mem_split (by decide) (by decide) (Directory.eq_mem_target hplanned.named)
      exact List.ne_nil_of_mem hr
    have hbefore : d.store.get? r.dn = some before :=
      Store.get?_eq_some_iff.mpr ⟨hplanned.stored, hplanned.key_before⟩
    refine .renamed r before after hbefore hsplit fun hno => ?_
    obtain ⟨s, hs⟩ := hput hno
    exact Directory.stored_of_put hs (by rw [Entry.key, hplanned.dn_after])

/-- Every update copies the entries that it is about. -/
theorem update_copied (h : update d a op = .ok (some reply, d')) : Copied d a d' op reply := by
  have hreplied : ∀ {x : Except Failure (Reply × Directory)}, perform.replied <$> x = .ok (some reply, d') →
      x = .ok (reply, d') := by
    intro x hx
    obtain ⟨⟨y, moved⟩, rfl, hy⟩ := Except.map_eq_ok_iff.mp hx
    obtain ⟨hreply, hmoved⟩ := Prod.mk.inj hy
    exact congrArg Except.ok (Prod.ext (Option.some.inj hreply) hmoved)
  cases op with
  | addRequest dn attributes => exact add_copied (hreplied h)
  | deleteRequest dn => exact delete_copied (hreplied h)
  | modifyRequest dn changes => exact modify_copied (hreplied h)
  | modifyDnRequest r => exact modifyDn_copied h
  | _ => cases h

/-- The entry of the blank name is edited only where it is stored. -/
theorem Copied.exists_blank (h : Copied d a d' op reply) (hb : op.EditsBlank) :
    ∃ e ∈ d.store.entries, e.key = "" := by
  cases h with
  | edited dn changes before after hbefore =>
    obtain ⟨hmem, hkey⟩ := Store.get?_eq_some_iff.mp hbefore
    exact ⟨before, hmem, hkey.trans (Dn.normalize_of_rdns_nil (Dn.split_eq_nil_iff.mp hb))⟩
  | added | removed | renamed => cases hb

theorem Copied.contains_noOp (h : Copied d a d' op reply) (hc : reply.op.result?.map (·.code) = some .success) :
    a.contains .noOp = false := by
  by_contra hno
  rw [Bool.not_eq_false] at hno
  have hresult : reply.op.result? = some (updateResult a) := by cases h <;> rfl
  rw [hresult, updateResult_preview hno] at hc
  cases hc

/-! ### Copies in an answer -/

variable {kind other : ControlKind} {attributes : Option (List String)} {before after e : Entry} {operation : Operation}
  {controls : List Control}

theorem filter_copy : (copy kind (some names) e).filter (·.oid = kind.oid) =
    [Control.readEntry kind (e.toResult names false)] := by
  simp [copy, Control.readEntry]

theorem filter_copy_of_ne (h : kind.oid ≠ other.oid) :
    (copy kind attributes e).filter (·.oid = other.oid) = [] := by
  cases attributes <;> simp [copy, Control.readEntry, h]

theorem filter_preRead (hn : a.preRead? = some names) : (preRead a e).filter (·.oid = ControlKind.preRead.oid) =
    [Control.readEntry .preRead (e.toResult names false)] := by
  rw [preRead, hn, filter_copy]

theorem filter_postRead (hn : a.postRead? = some names) : (postRead a e).filter (·.oid = ControlKind.postRead.oid) =
    [Control.readEntry .postRead (e.toResult names false)] := by
  rw [postRead, hn, filter_copy]

/-- Among copies of both kinds, there is one of the entry before. -/
theorem filter_copies_preRead (hn : a.preRead? = some names) :
    (preRead a before ++ postRead a after).filter (·.oid = ControlKind.preRead.oid) =
      [Control.readEntry .preRead (before.toResult names false)] := by
  rw [List.filter_append, filter_preRead hn, postRead, filter_copy_of_ne (by decide), List.append_nil]

/-- Among copies of both kinds, there is one of the entry after. -/
theorem filter_copies_postRead (hn : a.postRead? = some names) :
    (preRead a before ++ postRead a after).filter (·.oid = ControlKind.postRead.oid) =
      [Control.readEntry .postRead (after.toResult names false)] := by
  rw [List.filter_append, filter_postRead hn, preRead, filter_copy_of_ne (by decide), List.nil_append]

theorem Copied.preRead (h : Copied d a d' op reply) (ho : op.operation? = some operation)
    (ha : Admitted.ofControls operation controls = .ok a) (hn : a.preRead? = some names) :
    ∃ e, d.store.get? op.dn = some e ∧
      reply.controls.filter (·.oid = ControlKind.preRead.oid) =
        [Control.readEntry .preRead (e.toResult names false)] := by
  cases h with
  | added dn attributes after =>
    obtain rfl := Option.some.inj ho
    have hnone : a.get? ControlKind.preRead.oid = none := Admitted.get?_eq_none_of_not_mem ha (by decide) (by decide)
    simp [Admitted.preRead?, hnone] at hn
  | removed dn before hb => exact ⟨before, hb, filter_preRead hn⟩
  | edited dn changes before after hb => exact ⟨before, hb, filter_copies_preRead hn⟩
  | renamed r before after hb => exact ⟨before, hb, filter_copies_preRead hn⟩

theorem Copied.postRead (h : Copied d a d' op reply) (ho : op.operation? = some operation)
    (ha : Admitted.ofControls operation controls = .ok a) (hno : a.contains .noOp = false)
    (hn : a.postRead? = some names) :
    ∃ e, d'.store.get? op.newDn = some e ∧ (¬ op.EditsBlank → d'.get? op.newDn = some e) ∧
      reply.controls.filter (·.oid = ControlKind.postRead.oid) =
        [Control.readEntry .postRead (e.toResult names false)] := by
  cases h with
  | added dn attributes after hdn hafter =>
    exact ⟨after, hafter hno, fun _ => (Directory.get?_of_split_ne_nil hdn).trans (hafter hno), filter_postRead hn⟩
  | removed dn before =>
    obtain rfl := Option.some.inj ho
    have hnone : a.get? ControlKind.postRead.oid = none := Admitted.get?_eq_none_of_not_mem ha (by decide) (by decide)
    simp [Admitted.postRead?, hnone] at hn
  | edited dn changes before after _ hafter =>
    exact ⟨after, hafter hno, fun hdn => (Directory.get?_of_split_ne_nil hdn).trans (hafter hno),
      filter_copies_postRead hn⟩
  | renamed r before after _ hdn hafter =>
    exact ⟨after, hafter hno, fun _ => (Directory.get?_of_split_ne_nil hdn).trans (hafter hno),
      filter_copies_postRead hn⟩

end Service

/-- A response has one control of a kind, and its value is read as the entry with the attributes asked for, if that is
not too long. -/
def Message.HasCopy (m : Message) (kind : ControlKind) (names : List String) (e : Entry) : Prop :=
  ∃ value, m.controls.filter (·.oid = kind.oid) = [⟨kind.oid, false, some value⟩] ∧
    ((Op.searchResultEntry (e.toResult names false)).toItem.value.length ≤ Ber.maxLength →
      (e.toResult names false).ReadFrom value)

theorem Message.hasCopy_of_filter {m : Message} {kind : ControlKind} {names : List String} {e : Entry}
    (h : m.controls.filter (·.oid = kind.oid) = [Control.readEntry kind (e.toResult names false)]) :
    m.HasCopy kind names e :=
  ⟨_, h, ResultEntry.readFrom_toBytes⟩

namespace Service

variable {s s' : Service} {c c' : Connection} {a : Admitted} {m reply : Message} {operation : Operation}

/-- An update that is answered with success was admitted and carried out. -/
theorem handle_succeeded (hu : m.op.IsUpdate) (ho : m.op.operation? = some operation)
    (hh : s.handle c m = (.answered [reply], c', s')) (hc : reply.code? = some .success) : ∃ a answer,
      Admitted.ofControls operation m.controls = .ok a ∧ update s.directory a m.op = .ok (some answer, s'.directory) ∧
      reply = { id := m.id, op := answer.op, controls := answer.controls } := by
  obtain ⟨hsent, hdirectory⟩ := handle_update (s := s) (c := c) hu ho
  rw [hh] at hsent hdirectory
  dsimp only at hsent hdirectory
  rcases hr : requested s c operation m with f | ⟨_ | answer, after⟩
  · obtain ⟨_, hop, hmem⟩ := hu.operation
    obtain rfl := Option.some.inj (ho.symm.trans hop)
    obtain ⟨r, hfailed, hcode⟩ := sent_failure f hmem m.id
    rw [hr, hfailed] at hsent
    obtain rfl : reply = r := by simpa using hsent
    exact absurd (Option.some.inj (hcode.symm.trans hc)) f.code_ne.1
  · rw [hr] at hsent
    cases hsent
  · rw [hr] at hsent hdirectory
    obtain rfl : s'.directory = after := hdirectory
    obtain ⟨a, hgate, hupdate⟩ := Except.bind_eq_ok_iff.mp hr
    exact ⟨a, answer, ofControls_of_gate hgate, hupdate, by simpa [sent] using hsent⟩

/-- The answer to an update that succeeds copies the entry that was stored under the name of the request, if that was
asked for, and the one that is stored under the new name, if that was. The latter is found under its name unless the
blank name was edited, which takes an entry that is stored there. -/
theorem handle_copies (hu : m.op.IsUpdate) (ho : m.op.operation? = some operation)
    (ha : Admitted.ofControls operation m.controls = .ok a) (hh : s.handle c m = (.answered [reply], c', s'))
    (hc : reply.code? = some .success) :
    (∀ names, a.preRead? = some names →
      ∃ e, s.directory.store.get? m.op.dn = some e ∧ reply.HasCopy .preRead names e) ∧
    (∀ names, a.postRead? = some names →
      ∃ e, s'.directory.store.get? m.op.newDn = some e ∧
        (¬ m.op.EditsBlank → s'.directory.get? m.op.newDn = some e) ∧ reply.HasCopy .postRead names e) ∧
    (m.op.EditsBlank → ∃ e ∈ s.directory.store.entries, e.key = "") := by
  obtain ⟨b, answer, hb, hupdate, rfl⟩ := handle_succeeded hu ho hh hc
  obtain rfl : a = b := Except.ok.inj (ha.symm.trans hb)
  have hcopied : Copied s.directory a s'.directory m.op answer := update_copied hupdate
  refine ⟨fun names hn => ?_, fun names hn => ?_, hcopied.exists_blank⟩
  · obtain ⟨e, hstored, hfilter⟩ := hcopied.preRead ho ha hn
    exact ⟨e, hstored, Message.hasCopy_of_filter hfilter⟩
  · obtain ⟨e, hstored, hfound, hfilter⟩ := hcopied.postRead ho ha (hcopied.contains_noOp hc) hn
    exact ⟨e, hstored, hfound, Message.hasCopy_of_filter hfilter⟩

/-- An entry is renamed together with one below it, and copied in full before and with one attribute after. -/
theorem handle_copies_rename :
    let updates : List Update := [.add "o=x" [] false, .add "ou=a,o=x" [] false, .add "cn=b,ou=a,o=x" [] false]
    let d : Directory := .ofBases ["o=x"]
    let s : Service := { directory := d.run updates, mechanisms := {}, settings := {} }
    let controls := [(RequestControl.preRead []).toControl true, (RequestControl.postRead ["OU"]).toControl false]
    let m : Message :=
      { id := 1, op := .modifyDnRequest { dn := "OU=A,o=x", newRdn := "ou=c", deleteOldRdn := true }, controls }
    let reply : Message :=
      { id := 1, op := .modifyDnResponse .success
        controls := [Control.readEntry .preRead ⟨"ou=a,o=x", [⟨"ou", [[0x61]]⟩]⟩,
          Control.readEntry .postRead ⟨"ou=c,o=x", [⟨"ou", [[0x63]]⟩]⟩] }
    ∃ before after, (s.handle {} m).1 = .answered [reply] ∧ reply.code? = some .success ∧
      s.directory.store.get? "OU=A,o=x" = some before ∧ reply.HasCopy .preRead [] before ∧
      (s.handle {} m).2.2.directory.get? "ou=c,o=x" = some after ∧ reply.HasCopy .postRead ["OU"] after := by
  intro updates d s controls m reply
  have hu : m.op.IsUpdate := trivial
  have ho : m.op.operation? = some .modifyDn := rfl
  have ha : Admitted.ofControls .modifyDn m.controls = .ok ⟨controls.zip [.preRead [], .postRead ["OU"]]⟩ := by
    decide +kernel
  have hreply : (s.handle {} m).1 = .answered [reply] := by decide +kernel
  have hh : s.handle {} m = (.answered [reply], (s.handle {} m).2) := by rw [← hreply]
  have hc : reply.code? = some .success := rfl
  obtain ⟨hpre, hpost, -⟩ := handle_copies hu ho ha hh hc
  obtain ⟨before, hbefore, hcopy⟩ := hpre [] rfl
  obtain ⟨after, -, hafter, hcopy'⟩ := hpost ["OU"] rfl
  exact ⟨before, after, hreply, hc, hbefore, hcopy, hafter (by rintro ⟨⟩), hcopy'⟩

/-- An entry that is stored under the blank name is modified and copied, but the description of the server is what is
found there. -/
theorem not_handle_copies_blank :
    let d : Directory := { store := Store.put {} ⟨"", [⟨"cn", [[0x61]]⟩]⟩, bases := ["o=x"] }
    let s : Service := { directory := d, mechanisms := {}, settings := {} }
    let controls := [(RequestControl.postRead []).toControl true]
    let m : Message := { id := 1, op := .modifyRequest "" [], controls }
    ∃ a reply, Admitted.ofControls .modify m.controls = .ok a ∧ a.postRead? = some [] ∧
      (s.handle {} m).1 = .answered [reply] ∧ reply.code? = some .success ∧
      ∀ e, (s.handle {} m).2.2.directory.get? m.op.newDn = some e → ¬ reply.HasCopy .postRead [] e := by
  intro d s controls m
  let stored : ResultEntry := ⟨"", [⟨"cn", [[0x61]]⟩]⟩
  have ha : Admitted.ofControls .modify m.controls = .ok ⟨controls.zip [.postRead []]⟩ := by decide +kernel
  have hreply : (s.handle {} m).1 =
      .answered [{ id := 1, op := .modifyResponse .success, controls := [Control.readEntry .postRead stored] }] := by
    decide +kernel
  refine ⟨_, _, ha, rfl, hreply, rfl, ?_⟩
  rintro e he ⟨value, hvalue, hread⟩
  obtain rfl : e = { dn := "" } := Option.some.inj (he.symm.trans rfl)
  obtain ⟨r, hr, -⟩ := hread (by decide +kernel)
  obtain rfl : (Op.searchResultEntry stored).toItem.toBytes = value :=
    Option.some.inj (congrArg Control.value (List.cons.inj hvalue).1)
  obtain ⟨r', hr', -⟩ := ResultEntry.readFrom_toBytes (e := stored) (by decide +kernel)
  have hsame : (Entry.mk "" []).toResult [] false = stored := (EStateM.Result.ok.inj (hr.symm.trans hr')).1
  revert hsame
  decide

end Service

end Ldap
