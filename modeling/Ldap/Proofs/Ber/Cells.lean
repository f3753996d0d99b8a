import Ldap.Ber.Item
import Ldap.Proofs.Ber.Draw
import Ldap.Proofs.Ber.Element

/-! The cells of an item. A tag opens the item, the bytes of its length follow, and then its value:
the bytes of a primitive value, or the cells of the items inside a constructed one. -/

namespace Ldap.Ber

open Cell (later)

@[simp] theorem Cell.length_later (bytes : List UInt8) : (later bytes).length = bytes.length :=
  List.length_map ..

@[simp] theorem Cell.byte_later (bytes : List UInt8) : (later bytes).map Cell.byte = bytes := by
  rw [later, List.map_map]
  exact List.map_id bytes

namespace Item

def tag : Item → UInt8
  | .boolean tag _ | .integer tag _ | .null tag | .octets tag _ | .text tag _ | .constructed tag _ => tag

/-- The bytes behind the header of an item. -/
def value : Item → List UInt8
  | .boolean _ value => [booleanByte value]
  | .integer _ value => Integer.encode value
  | .null _ => []
  | .octets _ value => value
  | .text _ value => utf8Bytes value
  | .constructed _ components => encodeAll components

theorem encode_eq (item : Item) : item.encode = Element.encode ⟨item.tag, item.value⟩ := by
  cases item <;> simp only [encode, tag, value]

/-- A header in front of the cells of a value. -/
def frame (tag : UInt8) (inner : List Cell) : List Cell :=
  ⟨tag, true⟩ :: (later (Length.encode inner.length) ++ inner)

theorem byte_frame (tag : UInt8) (inner : List Cell) :
    (frame tag inner).map Cell.byte = Element.encode ⟨tag, inner.map Cell.byte⟩ := by
  simp [frame, Element.encode]

mutual

def cells : Item → List Cell
  | .boolean tag value => frame tag (later [booleanByte value])
  | .integer tag value => frame tag (later (Integer.encode value))
  | .null tag => frame tag (later [])
  | .octets tag value => frame tag (later value)
  | .text tag value => frame tag (later (utf8Bytes value))
  | .constructed tag components => frame tag (cellsAll components)

/-- The cells of items that follow one another. -/
def cellsAll : List Item → List Cell
  | [] => []
  | item :: rest => cells item ++ cellsAll rest

end

mutual

theorem byte_cells (item : Item) : item.cells.map Cell.byte = item.encode := by
  cases item with
  | constructed tag components => rw [cells, encode, byte_frame, byte_cellsAll components]
  | _ => rw [cells, encode, byte_frame, Cell.byte_later]

theorem byte_cellsAll (items : List Item) : (cellsAll items).map Cell.byte = encodeAll items := by
  cases items with
  | nil => rfl
  | cons item rest =>
    rw [cellsAll, encodeAll, List.map_append, byte_cells item, byte_cellsAll rest]

end

theorem length_cells (item : Item) : item.cells.length = item.encode.length := by
  rw [← byte_cells, List.length_map]

theorem length_cellsAll (items : List Item) : (cellsAll items).length = (encodeAll items).length := by
  rw [← byte_cellsAll, List.length_map]

/-- A constructed item opens in front of its components. -/
theorem cellsAll_constructed (tag : UInt8) (items rest : List Item) :
    cellsAll (.constructed tag items :: rest) =
      ⟨tag, true⟩ :: later (Length.encode (cellsAll items).length) ++ (cellsAll items ++ cellsAll rest) := by
  simp [cellsAll, cells, frame]

theorem cellsAll_append (items rest : List Item) :
    cellsAll (items ++ rest) = cellsAll items ++ cellsAll rest := by
  induction items with
  | nil => rfl
  | cons item items ih => rw [List.cons_append, cellsAll, cellsAll, ih, List.append_assoc]

theorem encodeAll_append (items rest : List Item) : encodeAll (items ++ rest) = encodeAll items ++ encodeAll rest := by
  rw [← byte_cellsAll, cellsAll_append, List.map_append, byte_cellsAll, byte_cellsAll]

theorem cellsAll_singleton (item : Item) : cellsAll [item] = item.cells := by
  rw [cellsAll, cellsAll, List.append_nil]

theorem cellsAll_eq_flatten (items : List Item) : cellsAll items = (items.map cells).flatten := by
  induction items with
  | nil => rfl
  | cons item items ih => rw [cellsAll, ih, List.map_cons, List.flatten_cons]

/-- An item begins with the cell of its tag. -/
theorem cells_eq_cons (item : Item) : ∃ others, item.cells = ⟨item.tag, true⟩ :: others := by
  cases item <;> exact ⟨_, by rw [cells, frame, tag]⟩

theorem cells_ne_nil (item : Item) : item.cells ≠ [] := by
  obtain ⟨others, h⟩ := item.cells_eq_cons
  rw [h]
  exact List.cons_ne_nil _ _

theorem isEmpty_cellsAll (items : List Item) : (cellsAll items).isEmpty = items.isEmpty := by
  cases items with
  | nil => rfl
  | cons item rest => simp [cellsAll, item.cells_ne_nil]

/-- Every item has a cell of its own. -/
theorem length_le_cellsAll (items : List Item) : items.length ≤ (cellsAll items).length := by
  induction items with
  | nil => exact Nat.zero_le _
  | cons item rest ih =>
    have := List.length_pos_iff.mpr item.cells_ne_nil
    rw [cellsAll, List.length_append, List.length_cons]
    omega

end Item

end Ldap.Ber
