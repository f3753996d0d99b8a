import Ldap.Proofs.Directory.Preview
import Ldap.Service.Handle

/-! What a request is answered by. Whether it fails or not, it has responses of its own type under its own identifier,
and those that call for none have none. Only a renaming that breaks off is left without an answer. -/

namespace Ldap

/-- The responses that a request of some kind calls for. A search has any number of entries before its end. -/
inductive Answers : Operation → List Op → Prop
  | abandon : Answers .abandon []
  | add (result : Result) : Answers .add [.addResponse result]
  | bind (result : Result) (serverCredentials : Option (List UInt8)) :
      Answers .bind [.bindResponse result serverCredentials]
  | compare (result : Result) : Answers .compare [.compareResponse result]
  | delete (result : Result) : Answers .delete [.deleteResponse result]
  | extended (response : ExtendedResponse) : Answers .extended [.extendedResponse response]
  | modify (result : Result) : Answers .modify [.modifyResponse result]
  | modifyDn (result : Result) : Answers .modifyDn [.modifyDnResponse result]
  | search (entries : List ResultEntry) (result : Result) :
      Answers .search (entries.map .searchResultEntry ++ [.searchResultDone result])
  | unbind : Answers .unbind []

namespace Service

variable {s : Service} {c : Connection} {d after : Directory} {m : Message} {operation : Operation} {a : Admitted}
  {reply : Reply} {dn : String} {outcome : Outcome}

/-! ### One request -/

/-- How a request ends, with the connection and the directory afterwards. A bind has no identity to begin with. -/
def ending (s : Service) (c : Connection) (operation : Operation) (m : Message) : Outcome × Connection × Directory :=
  s.process (if operation = .bind then c.anonymous else c) operation m

section Handle

variable (ho : m.op.operation? = some operation)
include ho

theorem handle_eq : s.handle c m =
    let (outcome, c, directory) := s.ending c operation m
    let after := { s.redraw with directory }
    if outcome = .brokenOff then (.brokenOff, c, after)
    else
      let replies := messages m.id operation outcome
      (.answered replies, c, { after with metrics := count s.metrics operation outcome replies }) := by
  simp only [handle, ho, ending]
  rfl

theorem handle_fst : (s.handle c m).1 =
    if (s.ending c operation m).1 = .brokenOff then .brokenOff
    else .answered (messages m.id operation (s.ending c operation m).1) := by
  rw [handle_eq ho]
  dsimp only
  split <;> rfl

theorem handle_connection : (s.handle c m).2.1 = (s.ending c operation m).2.1 := by
  rw [handle_eq ho]
  dsimp only
  split <;> rfl

theorem handle_directory : (s.handle c m).2.2.directory = (s.ending c operation m).2.2 := by
  rw [handle_eq ho]
  dsimp only
  split <;> rfl

end Handle

/-- A response where a request is due changes nothing. -/
theorem handle_response (ho : m.op.operation? = none) :
    s.handle c m = (.rejected (.responseOperation m.id m.op.tag), c, s) := by
  simp only [handle, ho]

/-! ### Replies -/

theorem bind_reply {r : BindRequest} (h : (s.bind c r a).1 = .ok reply) : Answers .bind [reply.op] := by
  unfold bind at h
  split at h
  · cases h
  · obtain rfl := Except.ok.inj h
    exact .bind ..

theorem add_reply {attributes : List Attribute} (h : add d dn attributes a = .ok (reply, after)) :
    Answers .add [reply.op] := by
  simp only [add, Except.bind_eq_ok_iff] at h
  obtain ⟨_, _, _, _, h⟩ := h
  obtain ⟨rfl, -⟩ := Prod.mk.inj (Except.ok.inj h)
  exact .add _

theorem delete_reply (h : delete d dn a = .ok (reply, after)) : Answers .delete [reply.op] := by
  simp only [delete, Except.bind_eq_ok_iff] at h
  obtain ⟨_, _, _, _, _, _, h⟩ := h
  obtain ⟨rfl, -⟩ := Prod.mk.inj (Except.ok.inj h)
  exact .delete _

theorem modify_reply {changes : List Change} (h : modify d dn changes a = .ok (reply, after)) :
    Answers .modify [reply.op] := by
  simp only [modify, Except.bind_eq_ok_iff] at h
  obtain ⟨_, _, _, _, _, _, h⟩ := h
  obtain ⟨rfl, -⟩ := Prod.mk.inj (Except.ok.inj h)
  exact .modify _

theorem modifyDn_reply {r : ModifyDnRequest} (h : modifyDn d r a = .ok (some reply, after)) :
    Answers .modifyDn [reply.op] := by
  simp only [modifyDn, Except.bind_eq_ok_iff] at h
  obtain ⟨_, _, _, _, ending, _, h⟩ := h
  cases ending with
  | done before after' moved =>
    obtain ⟨hreply, -⟩ := Prod.mk.inj (Except.ok.inj h)
    obtain rfl := Option.some.inj hreply
    exact .modifyDn _
  | brokenOff moved => cases h

theorem compare_reply {name : String} {value : List UInt8} (h : compare d dn name value a = .ok reply) :
    Answers .compare [reply.op] := by
  simp only [compare, Except.bind_eq_ok_iff] at h
  obtain ⟨_, _, _, _, _, _, h⟩ := h
  obtain rfl := Except.ok.inj h
  exact .compare _

theorem search_replies {r : SearchRequest} {replies : List Reply} (h : s.search r a = .ok replies) :
    Answers .search (replies.map (·.op)) := by
  have hend : ∃ found : Found, replies =
      found.entries.map (fun e => ⟨.searchResultEntry (e.toResult r.attributes r.typesOnly), []⟩)
        ++ [⟨.searchResultDone found.result, found.controls⟩] := by
    unfold search at h
    split at h <;> simp only [Except.bind_eq_ok_iff] at h
    · obtain ⟨_, _, _, _, _, _, _, _, h⟩ := h
      exact ⟨_, (Except.ok.inj h).symm⟩
    · obtain ⟨_, _, _, _, h⟩ := h
      exact ⟨_, (Except.ok.inj h).symm⟩
  obtain ⟨found, rfl⟩ := hend
  have hops := Answers.search (found.entries.map fun e => e.toResult r.attributes r.typesOnly) found.result
  simpa [Function.comp_def] using hops

/-- A request that did not break off has failed, or has the responses that it calls for. -/
def Outcome.Fits (operation : Operation) : Outcome → Prop
  | .answered replies => Answers operation (replies.map (·.op))
  | .failed _ => True
  | .brokenOff => False

/-- A step that always has one reply, if it succeeds. -/
theorem fits_reply {x : Except Failure Reply} (h : ∀ reply, x = .ok reply → Answers operation [reply.op]) :
    (Outcome.ofExcept (x.map fun reply => [reply])).Fits operation := by
  cases x with
  | error f => trivial
  | ok reply => exact h reply rfl

/-- An update that always has one reply, if it succeeds. -/
theorem fits_replied {x : Except Failure (Reply × Directory)}
    (h : ∀ reply after, x = .ok (reply, after) → Answers operation [reply.op]) :
    (updated d (perform.replied <$> x)).1.Fits operation := by
  rcases x with f | ⟨reply, after⟩
  · trivial
  · exact h reply after rfl

theorem fits_modifyDn {r : ModifyDnRequest} (hb : (updated d (modifyDn d r a)).1 ≠ .brokenOff) :
    (updated d (modifyDn d r a)).1.Fits .modifyDn := by
  rcases hx : modifyDn d r a with f | ⟨_ | reply, after⟩
  · trivial
  · rw [hx] at hb
    exact absurd rfl hb
  · exact modifyDn_reply hx

theorem fits_search {r : SearchRequest} : (Outcome.ofExcept (s.search r a)).Fits .search := by
  cases hx : s.search r a with
  | error f => trivial
  | ok replies => exact search_replies hx

/-- What a request that was admitted ends with. -/
theorem perform_fits {op : Op} (ho : op.operation? = some operation) (hb : (s.perform c op a).1 ≠ .brokenOff) :
    (s.perform c op a).1.Fits operation := by
  cases op with
  | abandonRequest id => cases ho; exact .abandon
  | addRequest dn attributes => cases ho; exact fits_replied fun _ _ => add_reply
  | bindRequest r => cases ho; exact fits_reply fun _ => bind_reply
  | compareRequest dn name value => cases ho; exact fits_reply fun _ => compare_reply
  | deleteRequest dn => cases ho; exact fits_replied fun _ _ => delete_reply
  | extendedRequest r => cases ho; exact .extended _
  | modifyRequest dn changes => cases ho; exact fits_replied fun _ _ => modify_reply
  | modifyDnRequest r => cases ho; exact fits_modifyDn hb
  | searchRequest r => cases ho; exact fits_search
  | unbindRequest => cases ho; exact .unbind
  | _ => cases ho

theorem ending_fits (ho : m.op.operation? = some operation) (hb : (s.ending c operation m).1 ≠ .brokenOff) :
    (s.ending c operation m).1.Fits operation := by
  unfold ending process at hb ⊢
  cases hg : s.gate (if operation = .bind then c.anonymous else c) operation m.controls with
  | error f => trivial
  | ok a =>
    rw [hg] at hb
    exact perform_fits ho hb

/-! ### Messages -/

/-- A request that failed is answered by a result, unless it calls for no response. -/
theorem failure?_answers (id : Int32) (operation : Operation) (result : Result) :
    Answers operation ((Message.failure? id operation result).toList.map (·.op)) := by
  cases operation with
  | abandon => exact .abandon
  | add => exact .add result
  | bind => exact .bind result none
  | compare => exact .compare result
  | delete => exact .delete result
  | extended => exact .extended _
  | modify => exact .modify result
  | modifyDn => exact .modifyDn result
  | search => exact .search [] result
  | unbind => exact .unbind

theorem messages_answers (id : Int32) (h : outcome.Fits operation) :
    Answers operation ((messages id operation outcome).map (·.op)) := by
  cases outcome with
  | answered replies => simpa [messages, Function.comp_def, Outcome.Fits] using h
  | failed f => exact failure?_answers id operation f.result
  | brokenOff => exact h.elim

theorem id_messages {id : Int32} {r : Message} (h : r ∈ messages id operation outcome) : r.id = id := by
  cases outcome with
  | answered replies =>
    obtain ⟨reply, -, rfl⟩ := List.mem_map.mp h
    rfl
  | failed f =>
    obtain ⟨op, -, rfl⟩ := Option.map_eq_some_iff.mp (Option.mem_toList.mp h)
    rfl
  | brokenOff => cases h

/-! ### Renamings that break off -/

/-- A renaming passes all checks, while an entry is kept below the renamed one that has fewer relative names. -/
def BreaksOff (s : Service) (c : Connection) (m : Message) : Prop :=
  ∃ r a e p, m.op = .modifyDnRequest r ∧ s.gate c .modifyDn m.controls = .ok a ∧ a.contains .noOp = false ∧
    existing s.directory r.dn = .ok e ∧ checkAssertion a e = .ok () ∧ s.directory.planRenaming r = .ok p ∧
    s.directory.HasShorter r.dn

theorem modifyDn_brokenOff_iff {r : ModifyDnRequest} :
    (∃ after, modifyDn d r a = .ok (none, after)) ↔
      ∃ e p, a.contains .noOp = false ∧ existing d r.dn = .ok e ∧ checkAssertion a e = .ok () ∧
        d.planRenaming r = .ok p ∧ d.HasShorter r.dn := by
  have hends := Directory.modifyDn_brokenOff_iff (d := d) r (a.contains .noOp)
  simp only [modifyDn, Except.bind_eq_ok_iff]
  constructor
  · rintro ⟨after, e, he, ⟨⟩, ha, ending, hm, h⟩
    cases ending with
    | done before after moved => cases h
    | brokenOff moved =>
      obtain ⟨hn, ⟨p, hp⟩, hs⟩ := hends.mp ⟨moved, hm⟩
      exact ⟨e, p, hn, he, ha, hp, hs⟩
  · rintro ⟨e, p, hn, he, ha, hp, hs⟩
    obtain ⟨moved, hm⟩ := hends.mpr ⟨hn, ⟨p, hp⟩, hs⟩
    exact ⟨moved, e, he, (), ha, _, hm, rfl⟩

theorem updated_brokenOff_iff {x : Except Failure (Option Reply × Directory)} :
    (updated d x).1 = .brokenOff ↔ ∃ after, x = .ok (none, after) := by
  rcases x with f | ⟨_ | reply, after⟩ <;> simp [updated]

theorem perform_brokenOff_iff {op : Op} :
    (s.perform c op a).1 = .brokenOff ↔
      ∃ r, op = .modifyDnRequest r ∧ ∃ after, modifyDn s.directory r a = .ok (none, after) := by
  have hreplied : ∀ x : Except Failure (Reply × Directory),
      (updated s.directory (perform.replied <$> x)).1 ≠ .brokenOff := by
    rintro (f | ⟨reply, after⟩) <;> nofun
  have hexcept : ∀ x : Except Failure (List Reply), Outcome.ofExcept x ≠ .brokenOff := by
    rintro (f | replies) <;> nofun
  cases op with
  | addRequest dn attributes => exact iff_of_false (hreplied _) nofun
  | bindRequest r => exact iff_of_false (hexcept _) nofun
  | compareRequest dn name value => exact iff_of_false (hexcept _) nofun
  | deleteRequest dn => exact iff_of_false (hreplied _) nofun
  | modifyRequest dn changes => exact iff_of_false (hreplied _) nofun
  | searchRequest r => exact iff_of_false (hexcept _) nofun
  | modifyDnRequest r =>
    rw [show (s.perform c (.modifyDnRequest r) a).1 = (updated s.directory (modifyDn s.directory r a)).1 from rfl,
      updated_brokenOff_iff]
    simp
  | _ => exact iff_of_false nofun nofun

theorem ending_brokenOff_iff (ho : m.op.operation? = some operation) :
    (s.ending c operation m).1 = .brokenOff ↔ s.BreaksOff c m := by
  have hrequest : ∀ r, m.op = .modifyDnRequest r → operation = .modifyDn := fun r hr => by
    rw [hr] at ho
    exact (Option.some.inj ho).symm
  constructor
  · intro h
    unfold ending process at h
    cases hg : s.gate (if operation = .bind then c.anonymous else c) operation m.controls with
    | error f => rw [hg] at h; cases h
    | ok a =>
      rw [hg] at h
      obtain ⟨r, hr, hbroken⟩ := perform_brokenOff_iff.mp h
      obtain rfl := hrequest r hr
      obtain ⟨e, p, hn, he, ha, hp, hs⟩ := modifyDn_brokenOff_iff.mp hbroken
      exact ⟨r, a, e, p, hr, hg, hn, he, ha, hp, hs⟩
  · rintro ⟨r, a, e, p, hr, hg, hn, he, ha, hp, hs⟩
    obtain rfl := hrequest r hr
    unfold ending process
    rw [if_neg (by decide), hg]
    exact perform_brokenOff_iff.mpr ⟨r, hr, modifyDn_brokenOff_iff.mpr ⟨e, p, hn, he, ha, hp, hs⟩⟩

theorem handle_brokenOff_iff : (s.handle c m).1 = .brokenOff ↔ s.BreaksOff c m := by
  cases ho : m.op.operation? with
  | none =>
    rw [handle_response ho]
    refine iff_of_false nofun ?_
    rintro ⟨r, a, e, p, hr, -⟩
    rw [hr] at ho
    cases ho
  | some operation =>
    rw [handle_fst ho, ← ending_brokenOff_iff ho]
    split
    · exact iff_of_true rfl ‹_›
    · exact iff_of_false nofun ‹_›

/-- A request is not rejected. -/
theorem handle_request (ho : m.op.operation? ≠ none) :
    (s.handle c m).1 = .brokenOff ∨ ∃ replies, (s.handle c m).1 = .answered replies := by
  obtain ⟨operation, ho⟩ := Option.ne_none_iff_exists'.mp ho
  rw [handle_fst ho]
  split
  · exact .inl rfl
  · exact .inr ⟨_, rfl⟩

/-- Every request but a renaming that breaks off is answered by the responses that it calls for, under its identifier,
and a response where a request is due changes nothing. -/
theorem handle_answers (s : Service) (c : Connection) (m : Message) :
    (m.op.operation? = none → ∃ f : Failure, f.code = .protocolError ∧ s.handle c m = (.rejected f, c, s)) ∧
    ∀ operation, m.op.operation? = some operation →
      (¬ s.BreaksOff c m → ∃ replies, (s.handle c m).1 = .answered replies ∧ (∀ r ∈ replies, r.id = m.id) ∧
        Answers operation (replies.map (·.op))) ∧
      (s.BreaksOff c m → (s.handle c m).1 = .brokenOff) := by
  refine ⟨fun ho => ⟨_, rfl, handle_response ho⟩, fun operation ho => ⟨fun hb => ?_, fun hb => ?_⟩⟩
  · have hends : (s.ending c operation m).1 ≠ .brokenOff := fun h => hb ((ending_brokenOff_iff ho).mp h)
    refine ⟨messages m.id operation (s.ending c operation m).1, ?_, fun r => id_messages, ?_⟩
    · rw [handle_fst ho, if_neg hends]
    · exact messages_answers m.id (ending_fits ho hends)
  · rw [handle_fst ho, if_pos ((ending_brokenOff_iff ho).mpr hb)]

theorem handle_answers_rename :
    let d : Directory :=
      { store := ((Store.put {} ⟨"o=x", []⟩).put ⟨"ou=a,o=x", []⟩).put ⟨"cn=b,ou=a,o=x", []⟩, bases := ["o=x"] }
    let s := Service.start d {} {}
    let m : Message := { id := 7, op := .modifyDnRequest { dn := "ou=a,o=x", newRdn := "ou=c", deleteOldRdn := true } }
    m.op.operation? = some .modifyDn ∧ ¬ s.BreaksOff {} m ∧
      ∃ replies, (s.handle {} m).1 = .answered replies ∧ (∀ r ∈ replies, r.id = 7) ∧
        Answers .modifyDn (replies.map (·.op)) := by
  intro d s m
  have hb : ¬ s.BreaksOff {} m := by
    rintro ⟨r, _, _, _, hr, -, -, -, -, -, hs⟩
    cases hr
    exact absurd hs (by decide +kernel)
  exact ⟨rfl, hb, ((handle_answers s {} m).2 .modifyDn rfl).1 hb⟩

/-- A renaming that passes all checks may be left without an answer. The name of the last entry has a comma in its
value, so that its key lies below that of the renamed one. -/
theorem not_handle_answers_escaped :
    let d : Directory :=
      { store := (((Store.put {} ⟨"c=y", []⟩).put ⟨"c=y,c=y", []⟩).put ⟨"o=x,c=y,c=y", []⟩).put
          ⟨"cn=a\\,o=x\\,c=y,c=y", []⟩
        bases := ["c=y"] }
    let s := Service.start d {} {}
    let m : Message :=
      { id := 1, op := .modifyDnRequest { dn := "o=x,c=y,c=y", newRdn := "o=z", deleteOldRdn := true } }
    m.op.operation? = some .modifyDn ∧ ¬ ∃ replies, (s.handle {} m).1 = .answered replies := by
  intro d s m
  have hbroken : (s.handle {} m).1 = .brokenOff := by decide +kernel
  refine ⟨rfl, ?_⟩
  rintro ⟨replies, hr⟩
  rw [hbroken] at hr
  cases hr

end Service

end Ldap
