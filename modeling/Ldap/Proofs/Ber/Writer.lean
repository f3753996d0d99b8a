import Ldap.Proofs.Ber.Buffer

/-! The writer as its callers use it. A primitive value is written by one call. A constructed value is opened by
one call and closed by a later one, and the calls for its components stand in between; the writer keeps for each
open value the place where its components start. What has been written once a tree of values is closed is the
encoding of the tree, computed from the leaves up. -/

namespace Ldap.Ber

/-- A value that is written by a single call. -/
inductive Leaf where
  | boolean (tag : UInt8) (value : Bool)
  | integer (tag : UInt8) (value : Int32)
  | long (tag : UInt8) (value : Int64)
  | enumerated (tag : UInt8) (value : Int32)
  | null (tag : UInt8)
  | octets (tag : UInt8) (value : List UInt8)
  | text (tag : UInt8) (value : String)
  | element (e : Element)

namespace Leaf

def add : Leaf → Buffer → Buffer
  | .boolean tag value, b => b.addBoolean tag value
  | .integer tag value, b | .enumerated tag value, b => b.addInteger tag value.toInt64
  | .long tag value, b => b.addInteger tag value
  | .null tag, b => b.addNull tag
  | .octets tag value, b => b.addOctets tag value
  | .text tag value, b => b.addText tag value
  | .element e, b => b.addElement e

def toItem : Leaf → Item
  | .boolean tag value => .boolean tag value
  | .integer tag value | .enumerated tag value => .integer tag value.toInt64
  | .long tag value => .integer tag value
  | .null tag => .null tag
  | .octets tag value => .octets tag value
  | .text tag value => .text tag value
  | .element e => .octets e.tag e.value

theorem add_eq (leaf : Leaf) (b : Buffer) : leaf.add b = Buffer.add leaf.toItem b := by
  cases leaf <;> simp only [add, toItem, Buffer.add, Buffer.addElement]

end Leaf

/-- A value with all that is inside it. The constructed ones are sequences and sets, under any tag. -/
inductive Tree where
  | leaf (value : Leaf)
  | constructed (tag : UInt8) (components : List Tree)

/-- What the caller of a writer may do next. -/
inductive Writer.Call where
  | add (value : Leaf)
  | begin (tag : UInt8)
  /-- Closes the innermost open value. -/
  | close

/-- A buffer, with the places where the components of the open values start, the innermost one first. -/
structure Writer where
  buffer : Buffer
  starts : List Nat := []

def Writer.Call.run : Writer.Call → Writer → Writer
  | .add value, w => { w with buffer := value.add w.buffer }
  | .begin tag, w =>
    let opened := w.buffer.beginConstructed tag
    ⟨opened, opened.size :: w.starts⟩
  | .close, w =>
    match w.starts with
    | [] => w
    | start :: outer => ⟨w.buffer.finish start, outer⟩

namespace Tree

mutual

def toItem : Tree → Item
  | .leaf value => value.toItem
  | .constructed tag components => .constructed tag (toItems components)

def toItems : List Tree → List Item
  | [] => []
  | t :: rest => toItem t :: toItems rest

end

mutual

/-- The calls that write a tree. -/
def calls : Tree → List Writer.Call
  | .leaf value => [.add value]
  | .constructed tag components => .begin tag :: (callsAll components ++ [.close])

def callsAll : List Tree → List Writer.Call
  | [] => []
  | t :: rest => calls t ++ callsAll rest

end

end Tree

namespace Writer

def run (w : Writer) (calls : List Call) : Writer := calls.foldl (fun w c => c.run w) w

@[simp] theorem run_nil (w : Writer) : w.run [] = w := rfl

@[simp] theorem run_cons (w : Writer) (c : Call) (calls : List Call) : w.run (c :: calls) = (c.run w).run calls := rfl

theorem run_append (w : Writer) (calls more : List Call) : w.run (calls ++ more) = (w.run calls).run more :=
  List.foldl_append

mutual

/-- The calls for a tree leave the open values alone, and do to the buffer what the recursion over the tree does. -/
theorem run_calls (t : Tree) (w : Writer) : w.run t.calls = { w with buffer := Buffer.add t.toItem w.buffer } := by
  cases t with
  | leaf value => rw [Tree.calls, Tree.toItem, run_cons, run_nil, Call.run, Leaf.add_eq]
  | constructed tag components =>
    rw [Tree.calls, run_cons, run_append, run_callsAll components, Tree.toItem, Buffer.add]
    rfl

theorem run_callsAll (ts : List Tree) (w : Writer) :
    w.run (Tree.callsAll ts) = { w with buffer := Buffer.addAll (Tree.toItems ts) w.buffer } := by
  cases ts with
  | nil => rw [Tree.callsAll, Tree.toItems, run_nil, Buffer.addAll]
  | cons t rest => rw [Tree.callsAll, run_append, run_calls t, run_callsAll rest, Tree.toItems, Buffer.addAll]

end

/-- The bytes that stood in the buffer stay, and behind them stands the encoding of the tree: every length that was
guessed or left open at first has become that of the bytes which follow it, and outer values are still open where
they were. -/
theorem toList_run_calls (t : Tree) (w : Writer) :
    (w.run t.calls).buffer.toList = w.buffer.toList ++ t.toItem.encode ∧ (w.run t.calls).starts = w.starts := by
  rw [run_calls]
  exact ⟨Buffer.toList_add t.toItem w.buffer, rfl⟩

end Writer

end Ldap.Ber
