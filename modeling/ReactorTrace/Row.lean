import ReactorTrace.Record

/-! Rows of the table that a trace is converted to: one row per event, with names in place of
numbers and times relative to the start of the trace. Fields are joined as they are, without quotes
or escapes. -/

namespace ReactorTrace

structure Row where
  event : String
  reactor : String
  reaction : Option UInt32
  worker : Int32
  elapsedLogical : Int64
  microstep : Int32
  elapsedPhysical : Int64
deriving DecidableEq, Inhabited

namespace Row

def separator : String := ", "

/-- Shown in the reaction column of an event without reaction. -/
def noReaction : String := "none"

def columns : List String :=
  ["Event", "Reactor", "Reaction", "Worker", "Elapsed Logical Time", "Microstep",
    "Elapsed Physical Time"]

def ofRecord (record : Record) (event reactor : String) (startTime : Int64) : Row where
  event
  reactor
  reaction := record.reaction
  worker := record.worker
  elapsedLogical := record.elapsedLogical startTime
  microstep := record.microstep
  elapsedPhysical := record.elapsedPhysical startTime

def renderReaction : Option UInt32 → String
  | none => noReaction
  | some r => r.toNat.repr

def fields (row : Row) : List String :=
  [row.event, row.reactor, renderReaction row.reaction, row.worker.toInt.repr,
    row.elapsedLogical.toInt.repr, row.microstep.toInt.repr, row.elapsedPhysical.toInt.repr]

def render (row : Row) : String := separator.intercalate row.fields

/-- The column names in the form of a row. -/
def title : String := separator.intercalate columns

end Row

end ReactorTrace
