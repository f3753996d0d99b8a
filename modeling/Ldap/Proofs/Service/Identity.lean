import Ldap.Proofs.Control.Decision
import Ldap.Proofs.Sasl.Plain
import Ldap.Proofs.Service.Preview
import Ldap.Proofs.Service.Response

/-! The identity of a client over a session. Only its last bind can have given it one, and only if that succeeded for
someone who knew a password. A bind that fails at whatever point takes the identity away, no other request touches it,
and without one the requests that call for authentication are refused. -/

namespace Ldap

namespace BindRequest

/-- Whom a bind stands for in a directory, where the mechanisms are built from their names. -/
inductive Grants (names : List String) (allowAnonymous : Bool) (d : Directory) (r : BindRequest) : String → Prop
  | anonymous (hr : r.credentials = .simple []) (hn : Text.trim r.name = "") : Grants names allowAnonymous d r ""
  | simple (password : List UInt8) (hr : r.credentials = .simple password) (hn : Text.trim r.name ≠ "")
      (hp : password ≠ []) (hc : d.checkPassword r.name password) : Grants names allowAnonymous d r r.name
  | plain (ho : names.any Plain.isNamed) (bytes : List UInt8) (c : Plain.Credentials) (dn : String)
      (hr : r.credentials = .sasl Plain.name (some bytes)) (hp : Plain.parse bytes = .ok c)
      (hg : Plain.Grants allowAnonymous d c dn) : Grants names allowAnonymous d r dn

/-- A password is known: that of the name of the bind, or that of the identity which PLAIN authenticates. -/
inductive Verified (d : Directory) (r : BindRequest) : String → Prop
  | simple (password : List UInt8) (hr : r.credentials = .simple password) (hc : d.checkPassword r.name password) :
      Verified d r r.name
  | plain (bytes : List UInt8) (c : Plain.Credentials) (authenticated dn : String)
      (hr : r.credentials = .sasl Plain.name (some bytes)) (hp : Plain.parse bytes = .ok c)
      (hv : Plain.Verified d c authenticated dn) : Verified d r dn

variable {names : List String} {allowAnonymous : Bool} {d : Directory} {r : BindRequest} {dn : String}

theorem Grants.verified (h : r.Grants names allowAnonymous d dn) (hn : dn ≠ "") : r.Verified d dn := by
  cases h with
  | anonymous => exact absurd rfl hn
  | simple password hr _ _ hc => exact .simple password hr hc
  | plain _ bytes c _ hr hp hg =>
    cases hg with
    | anonymous => exact absurd rfl hn
    | verified authenticated _ _ _ hv => exact .plain bytes c authenticated dn hr hp hv

end BindRequest

namespace Service

variable {s : Service} {c : Connection} {d : Directory} {m : Message} {r : BindRequest} {operation : Operation}
  {a : Admitted} {names : List String} {allowAnonymous : Bool} {name dn : String} {outcome : BindOutcome}

/-! ### Authentication -/

theorem simpleBind_eq_ok_iff {password : List UInt8} : simpleBind d name password = .ok dn ↔
    Text.trim name = "" ∧ password = [] ∧ dn = "" ∨
      Text.trim name ≠ "" ∧ password ≠ [] ∧ d.checkPassword name password ∧ dn = name := by
  unfold simpleBind
  by_cases hn : Text.trim name = "" <;> by_cases hp : password = []
  · simp [hn, hp]
  · simp [hn, hp]
  · simp [hn, hp]
  · by_cases hc : d.checkPassword name password
    · simpa [hn, hp, hc] using eq_comm
    · simp [hn, hp, hc]

theorem simpleBind_eq_ok_iff_grants {password : List UInt8} (hr : r.credentials = .simple password) :
    simpleBind d r.name password = .ok dn ↔ r.Grants names allowAnonymous d dn := by
  rw [simpleBind_eq_ok_iff]
  constructor
  · rintro (⟨hn, rfl, rfl⟩ | ⟨hn, hp, hc, rfl⟩)
    · exact .anonymous hr hn
    · exact .simple password hr hn hp hc
  · rintro (⟨hr', hn⟩ | ⟨password', hr', hn, hp, hc⟩ | ⟨_, _, _, _, hr', _, _⟩)
    · exact .inl ⟨hn, Credentials.simple.inj (hr.symm.trans hr'), rfl⟩
    · obtain rfl := Credentials.simple.inj (hr.symm.trans hr')
      exact .inr ⟨hn, hp, hc, rfl⟩
    · cases hr.symm.trans hr'

theorem saslBind_eq_ok_iff (hm : s.mechanisms = .ofNames names allowAnonymous) {mechanism : String}
    {credentials : Option (List UInt8)} : (s.saslBind c name mechanism credentials).1 = .ok outcome ↔
      names.any Plain.isNamed ∧ mechanism = Plain.name ∧
        Plain.bind allowAnonymous s.directory credentials = .ok outcome := by
  unfold saslBind
  rw [hm, Mechanisms.get?_ofNames]
  by_cases h : names.any Plain.isNamed ∧ mechanism = Plain.name
  · rw [if_pos h]
    simp [h, Except.mapError_eq_ok_iff, Plain.mechanism]
  · rw [if_neg h]
    refine iff_of_false (fun hok => ?_) fun hok => h ⟨hok.1, hok.2.1⟩
    cases hok

theorem saslBind_eq_ok_iff_grants (hm : s.mechanisms = .ofNames names allowAnonymous) {mechanism : String}
    {credentials : Option (List UInt8)} (hr : r.credentials = .sasl mechanism credentials) :
    (s.saslBind c name mechanism credentials).1 = .ok outcome ↔
      ∃ dn, r.Grants names allowAnonymous s.directory dn ∧ outcome = { dn } := by
  rw [saslBind_eq_ok_iff hm, Plain.bind_eq_ok_iff]
  constructor
  · rintro ⟨ho, rfl, bytes, c, rfl, hp, dn, hg, rfl⟩
    exact ⟨dn, .plain ho bytes c dn hr hp hg, rfl⟩
  · rintro ⟨dn, ⟨hr', _⟩ | ⟨_, hr', _, _, _⟩ | ⟨ho, bytes, c, _, hr', hp, hg⟩, rfl⟩
    · cases hr.symm.trans hr'
    · cases hr.symm.trans hr'
    · obtain ⟨rfl, rfl⟩ := Credentials.sasl.inj (hr.symm.trans hr')
      exact ⟨ho, rfl, bytes, c, rfl, hp, dn, hg, rfl⟩

/-- Authentication succeeds for whom the bind stands, and for no one else. -/
theorem authenticate_eq_ok_iff (hm : s.mechanisms = .ofNames names allowAnonymous) :
    (s.authenticate c r).1 = .ok outcome ↔
      r.version = 3 ∧ ∃ dn, r.Grants names allowAnonymous s.directory dn ∧ outcome = { dn } := by
  unfold authenticate
  by_cases hv : r.version = 3
  · rw [if_neg (not_not_intro hv), and_iff_right hv]
    cases hr : r.credentials with
    | simple password =>
      rw [Except.map_eq_ok_iff]
      exact exists_congr fun dn => and_congr (simpleBind_eq_ok_iff_grants hr) eq_comm
    | sasl mechanism credentials => exact saslBind_eq_ok_iff_grants hm hr
  · rw [if_pos hv]
    exact iff_of_false nofun fun h => hv h.1

theorem authenticate_connection : (s.authenticate c r).2.authenticatedDn = c.authenticatedDn := by
  unfold authenticate saslBind
  split
  · rfl
  · split
    · rfl
    · split <;> rfl

/-! ### The gate -/

theorem checkOperation_bind_iff {settings : Settings} :
    checkOperation settings c .bind = .ok () ↔ .bind ∈ settings.allowed := by
  by_cases h : Operation.bind ∈ settings.allowed <;> simp [checkOperation, h]

/-- A control for proxied authorization never takes effect with a bind. -/
theorem checkProxied_bind {controls : List Control} (h : Admitted.ofControls .bind controls = .ok a) :
    checkProxied d a = .ok () := by
  have hv₁ : a.get? ControlKind.proxiedAuthorizationV1.oid = none :=
    Admitted.get?_eq_none_of_not_mem h (by decide) (by decide)
  have hv₂ : a.get? ControlKind.proxiedAuthorizationV2.oid = none :=
    Admitted.get?_eq_none_of_not_mem h (by decide) (by decide)
  rw [checkProxied, hv₁, hv₂]
  rfl

theorem gate_bind_iff {controls : List Control} : s.gate c .bind controls = .ok a ↔
    .bind ∈ s.settings.allowed ∧ Admitted.ofControls .bind controls = .ok a := by
  simp only [gate, Except.bind_eq_ok_iff, Except.mapError_eq_ok_iff]
  constructor
  · rintro ⟨_, hop, b, hb, _, -, h⟩
    obtain rfl : b = a := Except.ok.inj h
    exact ⟨checkOperation_bind_iff.mp hop, hb⟩
  · rintro ⟨hop, ha⟩
    exact ⟨(), checkOperation_bind_iff.mpr hop, a, ha, (), checkProxied_bind ha, rfl⟩

/-- Why a request that calls for authentication is refused without an identity. -/
def refusal (settings : Settings) (operation : Operation) : Failure :=
  if operation ∈ settings.allowed then .authenticationRequired operation else .operationNotAllowed operation

theorem code_refusal (settings : Settings) (operation : Operation) : (refusal settings operation).code =
    if operation ∈ settings.allowed then .insufficientAccessRights else .unwillingToPerform := by
  unfold refusal
  split <;> rfl

theorem checkOperation_anonymous {settings : Settings} (hc : c.authenticatedDn = "")
    (ho : operation ∈ settings.authenticationRequired) (hne : operation ∉ [Operation.bind, .unbind, .abandon]) :
    checkOperation settings c operation = .error (refusal settings operation) := by
  have hunbind : operation ≠ .unbind := fun h => hne (by simp [h])
  by_cases ha : operation ∈ settings.allowed
  · simp_all [checkOperation, refusal, Connection.isAuthenticated]
  · simp [checkOperation, refusal, ha, hunbind]

/-! ### Binds -/

theorem operation?_eq_bind_iff : m.op.operation? = some .bind ↔ ∃ r, m.op = .bindRequest r := by
  constructor
  · intro h
    cases hop : m.op with
    | bindRequest r => exact ⟨r, rfl⟩
    | _ => rw [hop] at h; cases h
  · rintro ⟨r, hr⟩
    rw [hr]
    rfl

/-- What is handled is answered by success, and by nothing else. -/
def Handled.Succeeds (h : Handled) : Prop := ∃ reply, h = .answered [reply] ∧ reply.code? = some .success

/-- A bind passes the gate and stands for someone. -/
structure Accepts (s : Service) (names : List String) (allowAnonymous : Bool) (m : Message) (r : BindRequest)
    (dn : String) : Prop where
  allowed : .bind ∈ s.settings.allowed
  admitted : ∃ a, Admitted.ofControls .bind m.controls = .ok a
  version : r.version = 3
  grants : r.Grants names allowAnonymous s.directory dn

theorem bind_accepted (hm : s.mechanisms = .ofNames names allowAnonymous) (hv : r.version = 3)
    (hg : r.Grants names allowAnonymous s.directory dn) :
    ∃ reply, (s.bind c r a).1 = .ok reply ∧ reply.op = .bindResponse .success none ∧
      (s.bind c r a).2.authenticatedDn = dn := by
  have hok : (s.authenticate c.anonymous r).1 = .ok { dn } := (authenticate_eq_ok_iff hm).mpr ⟨hv, dn, hg, rfl⟩
  unfold bind
  rcases h : s.authenticate c.anonymous r with ⟨x, after⟩
  obtain rfl : x = .ok { dn } := by rw [← hok, h]
  exact ⟨_, rfl, rfl, rfl⟩

theorem bind_refused (hm : s.mechanisms = .ofNames names allowAnonymous)
    (hn : r.version = 3 → ∀ dn, ¬ r.Grants names allowAnonymous s.directory dn) :
    (∃ f, (s.bind c r a).1 = .error f) ∧ (s.bind c r a).2.authenticatedDn = "" := by
  have hdn : (s.authenticate c.anonymous r).2.authenticatedDn = "" := authenticate_connection
  unfold bind
  rcases h : s.authenticate c.anonymous r with ⟨f | outcome, after⟩
  · exact ⟨⟨f, rfl⟩, by rw [← hdn, h]⟩
  · have hok : (s.authenticate c.anonymous r).1 = .ok outcome := by rw [h]
    obtain ⟨hv, dn, hg, -⟩ := (authenticate_eq_ok_iff hm).mp hok
    exact absurd hg (hn hv dn)

section Bind

variable (hm : s.mechanisms = .ofNames names allowAnonymous) (hr : m.op = .bindRequest r)
include hm hr

theorem handle_accepted (h : s.Accepts names allowAnonymous m r dn) :
    (s.handle c m).1.Succeeds ∧ (s.handle c m).2.1.authenticatedDn = dn := by
  obtain ⟨a, ha⟩ := h.admitted
  obtain ⟨reply, hok, hop, hdn⟩ := bind_accepted (c := c.anonymous) (a := a) hm h.version h.grants
  have ho : m.op.operation? = some .bind := by rw [hr]; rfl
  have hends : s.ending c .bind m = (.answered [reply], (s.bind c.anonymous r a).2, s.directory) := by
    simp only [ending, process, if_pos, gate_bind_iff.mpr ⟨h.allowed, ha⟩, perform, hr, hok]
    rfl
  refine ⟨⟨{ id := m.id, op := reply.op, controls := reply.controls }, ?_, ?_⟩, ?_⟩
  · rw [handle_fst ho, hends]
    rfl
  · rw [Message.code?, hop]
    rfl
  · rw [handle_connection ho, hends]
    exact hdn

theorem handle_refused (h : ∀ dn, ¬ s.Accepts names allowAnonymous m r dn) :
    (∃ f : Failure, (s.handle c m).1 = .answered [{ id := m.id, op := .bindResponse f.result none }]) ∧
      (s.handle c m).2.1.authenticatedDn = "" := by
  have ho : m.op.operation? = some .bind := by rw [hr]; rfl
  have hends : (∃ f, (s.ending c .bind m).1 = .failed f) ∧ (s.ending c .bind m).2.1.authenticatedDn = "" := by
    simp only [ending, process, if_pos]
    cases hg : s.gate c.anonymous .bind m.controls with
    | error f => exact ⟨⟨f, rfl⟩, rfl⟩
    | ok a =>
      obtain ⟨hallowed, ha⟩ := gate_bind_iff.mp hg
      obtain ⟨⟨f, hf⟩, hdn⟩ := bind_refused (c := c.anonymous) (a := a) hm fun hv dn hg =>
        h dn ⟨hallowed, ⟨a, ha⟩, hv, hg⟩
      simp only [perform, hr, hf]
      exact ⟨⟨f, rfl⟩, hdn⟩
  obtain ⟨⟨f, hf⟩, hdn⟩ := hends
  refine ⟨⟨f, ?_⟩, ?_⟩
  · rw [handle_fst ho, hf]
    rfl
  · rw [handle_connection ho, hdn]

theorem succeeds_iff : (s.handle c m).1.Succeeds ↔ ∃ dn, s.Accepts names allowAnonymous m r dn := by
  constructor
  · rintro ⟨reply, hreply, hcode⟩
    by_contra hnone
    obtain ⟨f, hf⟩ := (handle_refused (c := c) hm hr fun dn h => hnone ⟨dn, h⟩).1
    rw [hf] at hreply
    obtain rfl := List.singleton_inj.mp (Handled.answered.inj hreply)
    exact f.code_ne.1 (Option.some.inj hcode)
  · rintro ⟨dn, h⟩
    exact (handle_accepted hm hr h).1

end Bind

/-! ### Other requests -/

theorem perform_connection {op : Op} (h : op.operation? ≠ some .bind) : (s.perform c op a).2.1 = c := by
  cases op with
  | bindRequest r => exact absurd rfl h
  | _ => rfl

/-- No request but a bind touches the connection. -/
theorem handle_other (h : m.op.operation? ≠ some .bind) : (s.handle c m).2.1 = c := by
  cases ho : m.op.operation? with
  | none => rw [handle_response ho]
  | some operation =>
    have hne : operation ≠ .bind := fun hb => h (hb ▸ ho)
    rw [handle_connection ho, ending, if_neg hne, process]
    cases s.gate c operation m.controls with
    | error f => rfl
    | ok a => exact perform_connection h

/-- Without an identity, a request that calls for authentication is refused by a result alone. -/
theorem handle_anonymous (hc : c.authenticatedDn = "") (ho : m.op.operation? = some operation)
    (hr : operation ∈ s.settings.authenticationRequired) (hne : operation ∉ [Operation.bind, .unbind, .abandon]) :
    ∃ (f : Failure) (op : Op), (s.handle c m).1 = .answered [{ id := m.id, op }] ∧
      Message.resultOp? operation f.result = some op ∧
      f.code = (if operation ∈ s.settings.allowed then .insufficientAccessRights else .unwillingToPerform) ∧
      (s.handle c m).2.2.directory = s.directory := by
  have hbind : operation ≠ .bind := fun h => hne (by simp [h])
  have hop : ∀ f : Failure, ∃ op, Message.resultOp? operation f.result = some op := by
    cases operation <;> simp_all [Message.resultOp?]
  have hgate : s.gate c operation m.controls = .error (refusal s.settings operation) := by
    rw [gate, checkOperation_anonymous hc hr hne, Except.error_bind]
  have hends : s.ending c operation m = (.failed (refusal s.settings operation), c, s.directory) := by
    rw [ending, if_neg hbind, process, hgate]
  obtain ⟨op, h⟩ := hop (refusal s.settings operation)
  refine ⟨refusal s.settings operation, op, ?_, h, code_refusal .., ?_⟩
  · rw [handle_fst ho, hends]
    simp only [messages, Message.failure?, h]
    rfl
  · rw [handle_directory ho, hends]

/-! ### Sessions -/

/-- What a service attends to, as one of its clients sees it. -/
inductive Event where
  /-- The client sends a message. -/
  | request (m : Message)
  /-- Others have changed the directory, and the passwords to be generated are other ones. -/
  | others (directory : Directory) (passwords : Nat → List UInt8)

def attend : Connection × Service → Event → Connection × Service
  | (c, s), .request m => (s.handle c m).2
  | (c, s), .others directory passwords => (c, { s with directory, passwords })

/-- The connection of a client and the service, from when it comes on. -/
def session (s : Service) (events : List Event) : Connection × Service := events.foldl attend ({}, s)

theorem session_concat (s : Service) (events : List Event) (e : Event) :
    s.session (events ++ [e]) = attend (s.session events) e := by
  simp [session]

/-- A client is authenticated by the last bind that it sent, which succeeded and knew a password then. -/
def Backed (s : Service) (events : List Event) (dn : String) : Prop :=
  ∃ earlier m r later, events = earlier ++ .request m :: later ∧ m.op = .bindRequest r ∧
    (∀ m', .request m' ∈ later → m'.op.operation? ≠ some .bind) ∧
    ((s.session earlier).2.handle (s.session earlier).1 m).1.Succeeds ∧
    r.Verified (s.session earlier).2.directory dn

theorem Backed.concat {events : List Event} {e : Event} (h : s.Backed events dn)
    (he : ∀ m, e = .request m → m.op.operation? ≠ some .bind) : s.Backed (events ++ [e]) dn := by
  obtain ⟨earlier, m, r, later, rfl, hr, hlater, hsucceeds, hv⟩ := h
  refine ⟨earlier, m, r, later ++ [e], by simp, hr, fun m' hm' => ?_, hsucceeds, hv⟩
  rcases List.mem_append.mp hm' with h | h
  · exact hlater m' h
  · exact he m' (List.mem_singleton.mp h).symm

theorem handle_offers : (s.handle c m).2.2.mechanisms = s.mechanisms ∧ (s.handle c m).2.2.settings = s.settings := by
  cases ho : m.op.operation? with
  | none =>
    rw [handle_response ho]
    exact ⟨rfl, rfl⟩
  | some operation =>
    rw [handle_eq ho]
    dsimp only
    split <;> exact ⟨rfl, rfl⟩

theorem session_offers (s : Service) (events : List Event) :
    (s.session events).2.mechanisms = s.mechanisms ∧ (s.session events).2.settings = s.settings := by
  induction events using List.reverseRecOn with
  | nil => exact ⟨rfl, rfl⟩
  | append_singleton events e ih =>
    rw [session_concat]
    cases e with
    | request m => exact ⟨handle_offers.1.trans ih.1, handle_offers.2.trans ih.2⟩
    | others directory passwords => exact ih

theorem session_backed (hm : s.mechanisms = .ofNames names allowAnonymous) (events : List Event)
    (hne : (s.session events).1.authenticatedDn ≠ "") : s.Backed events (s.session events).1.authenticatedDn := by
  induction events using List.reverseRecOn with
  | nil => exact absurd rfl hne
  | append_singleton events e ih =>
    have hoffers : (s.session events).2.mechanisms = .ofNames names allowAnonymous :=
      (session_offers s events).1.trans hm
    rw [session_concat] at hne ⊢
    cases e with
    | others directory passwords => exact (ih hne).concat nofun
    | request m =>
      -- A bind settles the identity anew, and all else leaves it to the bind that backs it so far.
      by_cases hb : m.op.operation? = some .bind
      · obtain ⟨r, hr⟩ := operation?_eq_bind_iff.mp hb
        by_cases ha : ∃ dn, (s.session events).2.Accepts names allowAnonymous m r dn
        · obtain ⟨dn, ha⟩ := ha
          obtain ⟨hsucceeds, hdn⟩ := handle_accepted (c := (s.session events).1) hoffers hr ha
          have hnamed : (attend (s.session events) (.request m)).1.authenticatedDn = dn := hdn
          rw [hnamed] at hne ⊢
          exact ⟨events, m, r, [], rfl, hr, by simp, hsucceeds, ha.grants.verified hne⟩
        · exact absurd (handle_refused hoffers hr fun dn h => ha ⟨dn, h⟩).2 hne
      · have hkept : (attend (s.session events) (.request m)).1 = (s.session events).1 := handle_other hb
        rw [hkept] at hne ⊢
        refine (ih hne).concat fun m' hm' => ?_
        obtain rfl := Event.request.inj hm'
        exact hb

/-- A client has an identity only if its last bind succeeded and knew a password then. A bind succeeds just if it passes
the gate, is of version 3 and stands for someone, who is then the identity, and else takes the identity away. No other
request touches the identity. Without one, a request that calls for authentication is refused by a result alone. -/
theorem session_identity (s : Service) (names : List String) (allowAnonymous : Bool)
    (hm : s.mechanisms = .ofNames names allowAnonymous) (events : List Event) :
    let c := (s.session events).1
    let t := (s.session events).2
    (c.authenticatedDn ≠ "" → s.Backed events c.authenticatedDn) ∧
    (∀ m r, m.op = .bindRequest r →
      ((t.handle c m).1.Succeeds ↔ ∃ dn, t.Accepts names allowAnonymous m r dn) ∧
      (∀ dn, t.Accepts names allowAnonymous m r dn → (t.handle c m).2.1.authenticatedDn = dn) ∧
      (¬ (t.handle c m).1.Succeeds → (t.handle c m).2.1.authenticatedDn = "")) ∧
    (∀ m, m.op.operation? ≠ some .bind → (t.handle c m).2.1 = c) ∧
    ∀ m operation, c.authenticatedDn = "" → m.op.operation? = some operation →
      operation ∈ s.settings.authenticationRequired → operation ∉ [Operation.bind, .unbind, .abandon] →
      ∃ (f : Failure) (op : Op), (t.handle c m).1 = .answered [{ id := m.id, op }] ∧
        Message.resultOp? operation f.result = some op ∧
        f.code = (if operation ∈ s.settings.allowed then .insufficientAccessRights else .unwillingToPerform) ∧
        (t.handle c m).2.2.directory = t.directory := by
  intro c t
  obtain ⟨hmechanisms, hsettings⟩ := session_offers s events
  rw [hm] at hmechanisms
  refine ⟨session_backed hm events, fun m r hr => ⟨succeeds_iff hmechanisms hr, fun dn ha => ?_, fun hn => ?_⟩,
    fun m => handle_other, fun m operation hc ho hr hne => ?_⟩
  · exact (handle_accepted hmechanisms hr ha).2
  · exact (handle_refused hmechanisms hr fun dn ha => hn (handle_accepted hmechanisms hr ha).1).2
  · rw [← hsettings] at hr ⊢
    exact handle_anonymous hc ho hr hne

/-- A session that binds by name, fails to bind, and binds by PLAIN for someone else. -/
theorem session_identity_people :
    let d : Directory := ({ bases := ["o=x"] } : Directory).addCredential "cn=root" [0x70]
    let s : Service :=
      { directory := { d with store := Store.put {} ⟨"o=x", []⟩ }
        mechanisms := .ofNames ["plain"] true
        settings := { authenticationRequired := [.delete] } }
    let simple : Message := { id := 1, op := .bindRequest { name := "CN=root", credentials := .simple [0x70] } }
    let failing : Message := { id := 2, op := .bindRequest { version := 2, name := "", credentials := .simple [] } }
    let bytes : List UInt8 := Ber.utf8Bytes "dn:o=x" ++ [0] ++ Ber.utf8Bytes "dn:cn=root" ++ [0, 0x70]
    let plain : Message := { id := 3, op := .bindRequest { name := "", credentials := .sasl "PLAIN" (some bytes) } }
    s.Backed [.request simple] "CN=root" ∧
      (s.session [.request simple, .request failing]).1.authenticatedDn = "" ∧
      s.Backed [.request simple, .request failing, .request plain] "o=x" ∧
      ∃ op, ((s.session []).2.handle (s.session []).1 { id := 1, op := .deleteRequest "o=x" }).1 =
        .answered [{ id := 1, op }] := by
  intro d s simple failing bytes plain
  have hsimple : (s.session [.request simple]).1.authenticatedDn = "CN=root" := by decide +kernel
  have hplain : (s.session [.request simple, .request failing, .request plain]).1.authenticatedDn = "o=x" := by
    decide +kernel
  have hb₁ := (session_identity s ["plain"] true rfl [.request simple]).1 (by rw [hsimple]; decide)
  have hb₂ := (session_identity s ["plain"] true rfl [.request simple, .request failing, .request plain]).1
    (by rw [hplain]; decide)
  rw [hsimple] at hb₁
  rw [hplain] at hb₂
  obtain ⟨f, op, hop, -⟩ := (session_identity s ["plain"] true rfl []).2.2.2 { id := 1, op := .deleteRequest "o=x" }
    .delete rfl rfl (by decide) (by decide)
  exact ⟨hb₁, by decide +kernel, hb₂, op, hop⟩

end Service

end Ldap
