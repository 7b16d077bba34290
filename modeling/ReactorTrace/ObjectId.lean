import ReactorTrace.LittleEndian
import ReactorTrace.Text.Hexadecimal

/-! Identities of traced objects. An identity is the address that the object had in the traced
process: it is compared and shown, and otherwise opaque. -/

namespace ReactorTrace

structure ObjectId where
  value : UInt64
deriving DecidableEq, Hashable, Inhabited

namespace ObjectId

def width : Nat := 8

def ofBytes (bs : List UInt8) : ObjectId := ⟨LittleEndian.decodeUInt64 bs⟩

def toBytes (object : ObjectId) : List UInt8 := LittleEndian.encodeUInt64 object.value

/-- All 16 digits are shown, so that identities have texts of one length. -/
def render (object : ObjectId) : String :=
  String.ofList ('0' :: 'x' :: Text.Hexadecimal.padded (2 * width) object.value.toNat)

@[simp] theorem ofBytes_toBytes (object : ObjectId) : ofBytes object.toBytes = object := by
  simp [ofBytes, toBytes]

@[simp] theorem length_toBytes (object : ObjectId) : object.toBytes.length = width :=
  LittleEndian.length_encodeUInt64 _

end ObjectId

end ReactorTrace
