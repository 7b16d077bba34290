import ReactorTrace.Record

/-! The 48 bytes of a stored record. Fields stand at fixed offsets, aligned to their size; the
four bytes after the event type and the four after the microstep are padding, written as zero and
not read. -/

namespace ReactorTrace.RawRecord

open LittleEndian

def size : Nat := 48

def padding : List UInt8 := [0, 0, 0, 0]

def toBytes (raw : RawRecord) : List UInt8 :=
  encodeInt32 raw.eventType ++ padding ++ raw.object.toBytes ++ encodeInt32 raw.reaction ++
    encodeInt32 raw.worker ++ encodeInt64 raw.logicalTime ++ encodeInt32 raw.microstep ++ padding ++
    encodeInt64 raw.physicalTime

/-- The `width` bytes at `offset`. -/
def slice (bs : List UInt8) (offset width : Nat) : List UInt8 := (bs.drop offset).take width

/-- The fields of a block of at least 48 bytes, whatever the bytes are. -/
def ofBlock (bs : List UInt8) : RawRecord where
  eventType := decodeInt32 (slice bs 0 4)
  object := ObjectId.ofBytes (slice bs 8 8)
  reaction := decodeInt32 (slice bs 16 4)
  worker := decodeInt32 (slice bs 20 4)
  logicalTime := decodeInt64 (slice bs 24 8)
  microstep := decodeInt32 (slice bs 32 4)
  physicalTime := decodeInt64 (slice bs 40 8)

/-- Bytes past the record are left alone. -/
def ofBytes? (bs : List UInt8) : Option RawRecord :=
  if bs.length < size then none else some (ofBlock bs)

@[simp] theorem length_toBytes (raw : RawRecord) : raw.toBytes.length = size := by
  simp [toBytes, size, padding, ObjectId.width]

end ReactorTrace.RawRecord
