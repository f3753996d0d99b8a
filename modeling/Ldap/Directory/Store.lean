import Ldap.Entry.Basic

/-! The entries of a directory, each kept under the normalized form of its name. No two records have
the same key. -/

namespace Ldap

/-- An entry with the normalized form of its name. -/
structure Record where
  entry : Entry
  key : String := Dn.normalize entry.dn
  key_eq : key = Dn.normalize entry.dn := by rfl

structure Store where
  records : List Record := []
  distinct : records.Pairwise fun a b => a.key ≠ b.key := by exact .nil

namespace Store

def entries (s : Store) : List Entry := s.records.map (·.entry)

def size (s : Store) : Nat := s.records.length

/-- The entry of a name, however it is spelled. -/
def get? (s : Store) (dn : String) : Option Entry :=
  let key := Dn.normalize dn
  (s.records.find? (·.key == key)).map (·.entry)

def contains (s : Store) (dn : String) : Bool :=
  (s.get? dn).isSome

/-- Drops the record of a key. -/
def eraseKey (s : Store) (key : String) : Store :=
  ⟨s.records.filter (·.key != key), s.distinct.filter _⟩

theorem mem_eraseKey {s : Store} {key : String} {r : Record} :
    r ∈ (s.eraseKey key).records ↔ r ∈ s.records ∧ r.key ≠ key := by
  simp [eraseKey]

/-- Removes the entry of a name. -/
def erase (s : Store) (dn : String) : Store :=
  s.eraseKey (Dn.normalize dn)

/-- Stores an entry, in place of one of the same name. -/
def put (s : Store) (e : Entry) : Store :=
  let r : Record := { entry := e }
  ⟨(s.eraseKey r.key).records ++ [r], by
    refine List.pairwise_append.2 ⟨(s.eraseKey r.key).distinct, List.pairwise_singleton .., ?_⟩
    intro a ha b hb
    rw [List.mem_singleton.1 hb]
    exact (mem_eraseKey.1 ha).2⟩

/-- The entries at or below a name. -/
def subtree (s : Store) (dn : String) : List Entry :=
  let base := Dn.normalize dn
  (s.records.filter fun r => Dn.isWithin r.key base).map (·.entry)

end Store

end Ldap
