import Std.Data.HashMap
import ReactorTrace.ObjectId

/-! Descriptions of traced objects, in the order in which they were inserted. An identity may occur
more than once; a lookup gives its first description. Lookups go through an index from identities to
the positions of their first entries. -/

namespace ReactorTrace

structure SymbolEntry where
  object : ObjectId
  description : String
deriving DecidableEq, Inhabited

/-- The line of the entry in a dump. -/
def SymbolEntry.line (entry : SymbolEntry) : String :=
  entry.object.render ++ ": " ++ entry.description ++ "\n"

structure SymbolTable where
  entries : Array SymbolEntry
  index : Std.HashMap ObjectId Nat

namespace SymbolTable

/-- Shown in place of the description of an unknown object. -/
def noDescription : String := "NO DESCRIPTION FOUND"

def empty : SymbolTable := ⟨#[], ∅⟩

instance : Inhabited SymbolTable := ⟨empty⟩

/-- An empty table with room for a number of entries. -/
def withCapacity (capacity : Nat) : SymbolTable :=
  ⟨Array.emptyWithCapacity capacity, Std.HashMap.emptyWithCapacity capacity⟩

def insert : SymbolTable → ObjectId → String → SymbolTable
  | ⟨entries, index⟩, object, description =>
    let position := entries.size
    ⟨entries.push ⟨object, description⟩, index.insertIfNew object position⟩

def ofList (entries : List SymbolEntry) : SymbolTable :=
  entries.foldl (fun table entry => table.insert entry.object entry.description) empty

def get? (table : SymbolTable) (object : ObjectId) : Option String :=
  table.index[object]?.bind fun position => table.entries[position]?.map SymbolEntry.description

def describe (table : SymbolTable) (object : ObjectId) : String :=
  (table.get? object).getD noDescription

/-- The number of entries, repeated identities included. -/
def size (table : SymbolTable) : Nat := table.entries.size

def isEmpty (table : SymbolTable) : Bool := table.entries.isEmpty

def toList (table : SymbolTable) : List SymbolEntry := table.entries.toList

/-! ### Dump -/

def dumpTitle : String := "------- objects traced:\n"

def dumpEnd : String := "-------"

def dump (table : SymbolTable) : String :=
  dumpTitle ++ String.join (table.toList.map SymbolEntry.line) ++ dumpEnd

@[simp] theorem toList_empty : empty.toList = [] := rfl

@[simp] theorem toList_withCapacity (capacity : Nat) : (withCapacity capacity).toList = [] := rfl

@[simp] theorem toList_insert (table : SymbolTable) (object : ObjectId) (description : String) :
    (table.insert object description).toList = table.toList ++ [⟨object, description⟩] :=
  Array.toList_push ..

end SymbolTable

end ReactorTrace
