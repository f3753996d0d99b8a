import Ldap.Proofs.Ber.Lockstep

/-! Readers over a transport that neither fails nor keeps waiting. Where such a reader fails, the input is at
fault, and what it has not yet obtained makes no difference to what it has done. -/

namespace Ldap.Ber

open Delivery

variable {α β : Type} {p : ReadM α} {f : α → ReadM β} {r r' : Reader}

/-! ### Failures -/

/-- What the reader still has to obtain from the transport. -/
def Reader.unread (r : Reader) : List UInt8 := content (r.source.getD [])

/-- The transport neither fails nor keeps waiting, or it is closed. -/
def Reader.Quiet (r : Reader) : Prop := Plain (r.source.getD [])

/-- On a quiet reader the step fails only where the input cannot be decoded, and leaves a quiet one. -/
def KeepsQuiet (p : ReadM α) : Prop := Keeps Reader.Quiet (fun e r => e.isUndecodable ∧ r.Quiet) p

namespace KeepsQuiet

theorem sequential : Sequential fun _ => KeepsQuiet := Keeps.sequential fun he hr => ⟨he, hr⟩

/-- A single read obtains bytes, or finds the end of the input. -/
theorem transfer {opens : Bool} {n : Nat} {count : List UInt8 → Nat} {closed : ReadM α}
    {opened : List UInt8 → Outcome → ReadM α} (hc : KeepsQuiet closed) (hf : ∀ got, KeepsQuiet (opened got .filled))
    (he : ∀ got, KeepsQuiet (opened got .ended)) : KeepsQuiet (ReadM.transfer opens n count closed opened) := by
  intro r hr
  rw [ReadM.run_transfer]
  cases hs : r.source with
  | none => exact hc r hr
  | some ds =>
    rw [Reader.Quiet, hs, Option.getD_some] at hr
    obtain ⟨left, hl, -, hpull⟩ := pull_of_plain hr n
    dsimp only
    rw [hpull]
    split
    · exact hf _ _ hl
    · exact he _ _ hl

theorem compositional : Compositional fun _ => KeepsQuiet where
  toSequential := sequential
  alter hg _ _ r hr := by
    change Plain ((_ : Reader).source.getD [])
    rw [source_of_commutes hg]
    exact hr
  close _ _ := nofun
  firstByte := by
    rw [ReadM.firstByte_eq]
    exact transfer (sequential.pure none) (fun _ => sequential.pure _) fun _ => sequential.pure _
  bytes n part := by
    cases n with
    | zero => exact sequential.pure []
    | succ n =>
      rw [ReadM.bytes_succ_eq]
      exact transfer (sequential.throw rfl) (fun _ => sequential.pure _) fun _ => sequential.throw rfl

end KeepsQuiet

/-! ### What has not been obtained -/

/-- Deliveries that share their bytes up to some place, from where on there is something left in both of them, or
nothing. -/
def Coupling.ofShared (left other : List UInt8) (h : left = [] → other = []) : Coupling where
  allows _ := True
  coupled ds ds' := Plain ds ∧ Plain ds' ∧ ∃ shared, content ds = shared ++ left ∧ content ds' = shared ++ other
  beyond ds := (content ds).length < left.length
  beyond_pull ignore n ds hds := by
    rw [content_pull ignore n ds, List.length_append] at hds
    omega
  beyond_nil hds := Nat.zero_lt_of_lt hds
  coupled_pull := by
    rintro ignore n ds ds' - ⟨hp, hp', shared, hc, hc'⟩
    obtain ⟨rest, hr, hrc, hpull⟩ := pull_of_plain hp n
    obtain ⟨rest', hr', hrc', hpull'⟩ := pull_of_plain hp' n
    rw [hpull, hpull']
    dsimp only
    by_cases hn : n ≤ shared.length
    · refine .inr ⟨?_, ?_, hr, hr', shared.drop n, ?_, ?_⟩
      · rw [hc, hc', List.take_append_of_le_length hn, List.take_append_of_le_length hn]
      · rw [hc, hc', List.length_append, List.length_append, if_pos (by omega), if_pos (by omega)]
      · rw [hrc, hc, List.drop_append_of_le_length hn]
      · rw [hrc', hc', List.drop_append_of_le_length hn]
    · cases left with
      | nil =>
        have heq : content ds' = content ds := by rw [hc, hc', h rfl]
        refine .inr ⟨by rw [heq], by rw [heq], hr, hr', shared.drop n, ?_, ?_⟩
        · rw [hrc, hc, List.append_nil, List.append_nil]
        · rw [hrc', hc', h rfl, List.append_nil, List.append_nil]
      | cons b left =>
        left
        rw [hrc, hc, List.length_drop, List.length_append, List.length_cons]
        omega

end Ldap.Ber
