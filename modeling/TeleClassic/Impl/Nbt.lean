import TeleClassic.Framework.CString

/-!
# NBT trees (`cNBT`)

The trees that `nbt_parse_path` reads and `nbt_dump_file` writes, and the
searches of `nbt_treeops.c` in them. A `char *` is the string of its bytes, one
character a byte, up to its terminator; an element of a list has no name. A
path such as `ClassicWorld.Spawn.X` is the list of its parts.
-/

namespace TC.Impl.Nbt

/-- The data of an array; its length is a non-negative `int32_t`. -/
abbrev Bytes := { bytes : List Byte // bytes.length < 2 ^ 31 }

/-- An array of at most 256 bytes. -/
def Bytes.ofList (bytes : List Byte) (h : bytes.length.ble 256 = true) : Bytes :=
  ⟨bytes, Nat.lt_of_le_of_lt (Nat.le_of_ble_eq_true h) (by decide)⟩

/-- A buffer of a fixed size, which is at most 256. -/
def Bytes.ofVector {n : Nat} (v : Vector Byte n) (h : n.ble 256 = true) : Bytes :=
  .ofList v.toList (by rw [Vector.length_toList]; exact h)

/-- The payloads of the nodes that are no lists and no compounds. -/
inductive Payload where
  | byte (v : BitVec 8)
  | short (v : BitVec 16)
  | int (v : BitVec 32)
  | long (v : BitVec 64)
  | float (v : BitVec 32)
  | double (v : BitVec 64)
  | byteArray (v : Bytes)
  | string (v : String)
  | intArray (v : List (BitVec 32))
  | longArray (v : List (BitVec 64))

/-- `nbt_node`. -/
inductive Node where
  | leaf (name : Option String) (payload : Payload)
  | list (name : Option String) (items : List Node)
  | compound (name : Option String) (items : List Node)

def Node.name : Node → Option String
  | .leaf name _ => name
  | .list name _ => name
  | .compound name _ => name

/-- The entries of a list or a compound. -/
def Node.items : Node → List Node
  | .leaf _ _ => []
  | .list _ items => items
  | .compound _ items => items

mutual

/-- `nbt_find_by_name`: the first node of that name, depth first. -/
def nbtFindByName (name : String) : Node → Option Node
  | .leaf n payload => if n = some name then some (.leaf n payload) else none
  | .list n items => if n = some name then some (.list n items) else nbtFindInItems name items
  | .compound n items => if n = some name then some (.compound n items) else nbtFindInItems name items

/-- The loop of `nbt_find`. -/
def nbtFindInItems (name : String) : List Node → Option Node
  | [] => none
  | item :: items =>
    match nbtFindByName name item with
    | some found => some found
    | none => nbtFindInItems name items

end

/-- `nbt_find_by_path`. -/
def nbtFindByPath : List String → Node → Option Node
  | [], _ => none
  | [part], tree => if tree.name = some part then some tree else none
  | part :: part' :: parts, tree =>
    if tree.name = some part then tree.items.findSome? (nbtFindByPath (part' :: parts)) else none

/-! ## Payloads -/

/-- `nbt_type`. -/
inductive NbtType where
  | byte
  | short
  | int
  | long
  | float
  | double
  | byteArray
  | string
  | list
  | compound
  | intArray
  | longArray
deriving DecidableEq, Repr

def payloadType : Payload → NbtType
  | .byte _ => .byte
  | .short _ => .short
  | .int _ => .int
  | .long _ => .long
  | .float _ => .float
  | .double _ => .double
  | .byteArray _ => .byteArray
  | .string _ => .string
  | .intArray _ => .intArray
  | .longArray _ => .longArray

/-- `node->type`. -/
def nodeType : Node → NbtType
  | .leaf _ payload => payloadType payload
  | .list _ _ => .list
  | .compound _ _ => .compound

/-- The values of the member of `payload` that the nodes of a type have. -/
abbrev Member : NbtType → Type
  | .byte => BitVec 8
  | .short => BitVec 16
  | .int => BitVec 32
  | .long => BitVec 64
  | .float => BitVec 32
  | .double => BitVec 64
  | .byteArray => Bytes
  | .string => String
  | .list => List Node
  | .compound => List Node
  | .intArray => List (BitVec 32)
  | .longArray => List (BitVec 64)

/-- The member of a type, if the node is of that type. -/
def Node.member? : (type : NbtType) → Node → Option (Member type)
  | .byte, .leaf _ (.byte v) => some v
  | .short, .leaf _ (.short v) => some v
  | .int, .leaf _ (.int v) => some v
  | .long, .leaf _ (.long v) => some v
  | .float, .leaf _ (.float v) => some v
  | .double, .leaf _ (.double v) => some v
  | .byteArray, .leaf _ (.byteArray v) => some v
  | .string, .leaf _ (.string v) => some v
  | .list, .list _ items => some items
  | .compound, .compound _ items => some items
  | .intArray, .leaf _ (.intArray v) => some v
  | .longArray, .leaf _ (.longArray v) => some v
  | _, _ => none

end TC.Impl.Nbt
