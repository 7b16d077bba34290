import ReactorTrace.Reading
import ReactorTrace.SymbolTable
import ReactorTrace.Text.Utf8

/-! The header of a trace: the start time, the number of traced objects, and for each object its
identity and its description. A description ends at a zero byte, or after `descriptionLimit` bytes,
in which case one more byte is read and dropped. -/

namespace ReactorTrace

structure Header where
  startTime : Int64
  symbols : SymbolTable
deriving Inhabited

namespace Header

/-- The longest description, in bytes, not counting its end. -/
def descriptionLimit : Nat := 1023

/-- The largest object count that is accepted unless another limit is given. -/
def objectLimit : Nat := 1048576

def readField (field : HeaderField) : Reading (List UInt8) := do
  let bs ← Reading.bytes field.width
  if bs.length = field.width then return bs
  else Reading.fail (.shortHeader field field.width bs.length)

/-- A description with room for `room` more bytes. -/
def readDescriptionBytes : (room : Nat) → Reading (List UInt8)
  | 0 => do
    let _ ← readField .objectDescription
    return []
  | room + 1 => do
    let bs ← readField .objectDescription
    if bs = [0] then return []
    else
      let more ← readDescriptionBytes room
      return bs ++ more

def readDescription : Reading String := do
  let bs ← readDescriptionBytes descriptionLimit
  return Text.Utf8.decodeLossy bs

def readEntry : Reading SymbolEntry := do
  let object ← readField .objectIdentity
  let description ← readDescription
  return ⟨ObjectId.ofBytes object, description⟩

/-- Reads `count` entries into the table. -/
def readEntries : (count : Nat) → SymbolTable → Reading SymbolTable
  | 0, table => pure table
  | count + 1, table => do
    let entry ← readEntry
    readEntries count (table.insert entry.object entry.description)

/-- The object count is checked before any entry is read. -/
def readCount (limit : Nat) : Reading Nat := do
  let bs ← readField .objectCount
  let count := LittleEndian.decodeInt32 bs
  if 0 ≤ count ∧ count.toInt.toNat ≤ limit then return count.toInt.toNat
  else Reading.fail (.objectCount count limit)

def read (limit : Nat) : Reading Header := do
  let startTime ← readField .startTime
  let count ← readCount limit
  let symbols ← readEntries count .empty
  return ⟨LittleEndian.decodeInt64 startTime, symbols⟩

/-- What is printed of a header on request. -/
def dump (header : Header) : String :=
  "Start time is " ++ header.startTime.toInt.repr ++ ".\n" ++
    "There are " ++ header.symbols.size.repr ++ " objects traced.\n" ++
    header.symbols.dump ++ "\n"

end Header

end ReactorTrace
