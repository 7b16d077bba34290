/-! The names of event types. The type stored in a record is an index into this table; the
standard table is that of the runtime that writes the traces. -/

namespace ReactorTrace

structure EventNames where
  names : List String
deriving DecidableEq, Inhabited

namespace EventNames

def standard : EventNames := ⟨[
  "Reaction starts",
  "Reaction ends",
  "Schedule called",
  "User-defined event",
  "User-defined valued event",
  "Worker wait starts",
  "Worker wait ends",
  "Scheduler advancing time starts",
  "Scheduler advancing time ends"]⟩

def size (table : EventNames) : Nat := table.names.length

def isEmpty (table : EventNames) : Bool := table.names.isEmpty

/-- Negative types have no name. -/
def get? (table : EventNames) (eventType : Int32) : Option String :=
  if eventType < 0 then none else table.names[eventType.toInt.toNat]?

end EventNames

end ReactorTrace
