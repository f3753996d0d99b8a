import Ldap.Ber.Buffer
import Ldap.Proofs.Ber.Integer

/-! What the buffer holds. Every operation is told by its effect on the list of the bytes written, and
an item is written as its reference encoding behind what stood there before: the length headers that
are rewritten in place end up right. -/

namespace Ldap.Ber

theorem length_utf8Bytes (s : String) : (utf8Bytes s).length = s.utf8ByteSize := by
  simp [utf8Bytes]

namespace Buffer

@[simp] theorem toList_empty : empty.toList = [] := rfl

@[simp] theorem length_toList (b : Buffer) : b.toList.length = b.size := by
  simp [toList, size]

@[simp] theorem toList_append (b : Buffer) (bytes : List UInt8) :
    (b.append bytes).toList = b.toList ++ bytes := by
  simp [toList, append]

@[simp] theorem size_append (b : Buffer) (bytes : List UInt8) :
    (b.append bytes).size = b.size + bytes.length := by
  simp [← length_toList]

theorem toList_splice (b : Buffer) (start stop : Nat) (bytes : List UInt8) :
    (b.splice start stop bytes).toList = b.toList.take start ++ bytes ++ b.toList.drop stop := by
  have hrest : (b.bytes.toList.drop stop).length ≤ b.bytes.size - stop := by simp
  simp only [toList, splice, Array.toList_append, Array.toList_appendList, Array.toList_extract,
    List.extract_eq_take_drop, List.drop_zero, Nat.sub_zero]
  rw [List.take_of_length_le hrest]

/-- Bytes in the middle of the buffer are replaced where they stand. -/
theorem toList_splice_middle {b : Buffer} {front middle rear : List UInt8}
    (h : b.toList = front ++ (middle ++ rear)) (bytes : List UInt8) :
    (b.splice front.length (front.length + middle.length) bytes).toList = front ++ (bytes ++ rear) := by
  rw [toList_splice, h, List.take_left' rfl, ← List.append_assoc front middle,
    List.drop_left' (by simp), List.append_assoc]

theorem toList_addBoolean (b : Buffer) (tag : UInt8) (value : Bool) :
    (b.addBoolean tag value).toList = b.toList ++ Element.encode ⟨tag, [Item.booleanByte value]⟩ := by
  simp [addBoolean, Element.encode, Length.encode]

theorem toList_addInteger (b : Buffer) (tag : UInt8) (value : Int64) :
    (b.addInteger tag value).toList = b.toList ++ Element.encode ⟨tag, Integer.encode value⟩ := by
  have h127 : (Integer.encode value).length ≤ 0x7F := (Integer.length_encode_le value).trans (by omega)
  simp [addInteger, Element.encode, Length.encode, if_pos h127]

theorem toList_addNull (b : Buffer) (tag : UInt8) :
    (b.addNull tag).toList = b.toList ++ Element.encode ⟨tag, []⟩ := by
  simp [addNull, Element.encode, Length.encode]

theorem toList_addOctets (b : Buffer) (tag : UInt8) (value : List UInt8) :
    (b.addOctets tag value).toList = b.toList ++ Element.encode ⟨tag, value⟩ := by
  simp [addOctets, Element.encode]

/-- The header guessed from the number of characters gives way to the one of the bytes. -/
theorem toList_addText (b : Buffer) (tag : UInt8) (value : String) :
    (b.addText tag value).toList = b.toList ++ Element.encode ⟨tag, utf8Bytes value⟩ := by
  have hfull : (((b.append [tag]).append (Length.encode value.length)).append (utf8Bytes value)).toList =
      (b.toList ++ [tag]) ++ (Length.encode value.length ++ utf8Bytes value) := by simp
  rw [addText]
  by_cases h : value.utf8ByteSize = value.length
  · rw [if_pos h, hfull, Element.encode, length_utf8Bytes, h]
    simp
  · have hs := toList_splice_middle hfull (Length.encode value.utf8ByteSize)
    rw [if_neg h]
    simp only [List.length_append, length_toList, List.length_singleton] at hs
    simp only [size_append, List.length_singleton]
    rw [hs, Element.encode, length_utf8Bytes]
    simp

/-- Closing a constructed value turns the byte held for its length into its header. -/
theorem toList_finish {b opened closed : Buffer} {tag : UInt8} {value : List UInt8}
    (ho : opened = b.beginConstructed tag) (hc : closed.toList = opened.toList ++ value) :
    (closed.finish opened.size).toList = b.toList ++ Element.encode ⟨tag, value⟩ := by
  have hsize : opened.size = b.size + 1 + 1 := by
    rw [ho, beginConstructed, size_append, List.length_cons, List.length_singleton]
  have hlen : closed.size - opened.size = value.length := by
    rw [← length_toList, hc, List.length_append, length_toList, Nat.add_sub_cancel_left]
  have hparts : closed.toList = (b.toList ++ [tag]) ++ ([0x00] ++ value) := by
    rw [hc, ho, beginConstructed, toList_append]
    simp
  have hs := toList_splice_middle hparts (Length.encode value.length)
  simp only [List.length_append, length_toList, List.length_singleton] at hs
  rw [finish, hlen, hsize, Nat.add_sub_cancel, hs, Element.encode]
  simp

mutual

theorem toList_add (item : Item) (b : Buffer) : (add item b).toList = b.toList ++ item.encode := by
  cases item with
  | boolean tag value => exact toList_addBoolean b tag value
  | integer tag value => exact toList_addInteger b tag value
  | null tag => exact toList_addNull b tag
  | octets tag value => exact toList_addOctets b tag value
  | text tag value => exact toList_addText b tag value
  | constructed tag components => exact toList_finish rfl (toList_addAll components _)

theorem toList_addAll (items : List Item) (b : Buffer) :
    (addAll items b).toList = b.toList ++ Item.encodeAll items := by
  cases items with
  | nil => rw [addAll, Item.encodeAll, List.append_nil]
  | cons item rest => rw [addAll, toList_addAll rest, toList_add item, Item.encodeAll, List.append_assoc]

end

end Buffer

theorem Item.toBytes_eq_encode (item : Item) : item.toBytes = item.encode := by
  rw [toBytes, Buffer.toList_add, Buffer.toList_empty, List.nil_append]

end Ldap.Ber
