import ReactorTrace.ObjectId

/-! Event records, as they stand in a trace and as the library reads them. The stored form marks
a missing reaction by a negative number, the decoded form by `none`. Decoding forgets which negative
number it was; storing fails on reactions that have no nonnegative 32-bit number. -/

namespace ReactorTrace

/-- An event as stored. `eventType` is an index into the table of event names, and times are
absolute. -/
structure RawRecord where
  eventType : Int32
  object : ObjectId
  reaction : Int32
  worker : Int32
  logicalTime : Int64
  microstep : Int32
  physicalTime : Int64
deriving DecidableEq, Inhabited

structure Record where
  eventType : Int32
  object : ObjectId
  reaction : Option UInt32
  worker : Int32
  logicalTime : Int64
  microstep : Int32
  physicalTime : Int64
deriving DecidableEq, Inhabited

namespace Record

/-- The largest reaction index that can be stored. -/
def maxReaction : Nat := 2147483647

def ofRaw (raw : RawRecord) : Record where
  eventType := raw.eventType
  object := raw.object
  reaction := if raw.reaction < 0 then none else some raw.reaction.toUInt32
  worker := raw.worker
  logicalTime := raw.logicalTime
  microstep := raw.microstep
  physicalTime := raw.physicalTime

/-- Why a record cannot be stored. -/
inductive Unstorable
  | reactionTooLarge
deriving DecidableEq, Inhabited

def Unstorable.message : Unstorable → String
  | reactionTooLarge => "number too large to fit in target type"

def storedReaction : Option UInt32 → Except Unstorable Int32
  | none => .ok (-1)
  | some r => if r.toNat ≤ maxReaction then .ok r.toInt32 else .error .reactionTooLarge

def toRaw (record : Record) : Except Unstorable RawRecord :=
  (storedReaction record.reaction).map fun reaction =>
    { eventType := record.eventType
      object := record.object
      reaction
      worker := record.worker
      logicalTime := record.logicalTime
      microstep := record.microstep
      physicalTime := record.physicalTime }

/-- Elapsed times wrap around modulo `2 ^ 64`. -/
def elapsedLogical (record : Record) (startTime : Int64) : Int64 := record.logicalTime - startTime

def elapsedPhysical (record : Record) (startTime : Int64) : Int64 := record.physicalTime - startTime

end Record

end ReactorTrace
