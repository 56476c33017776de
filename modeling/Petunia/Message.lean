import Petunia.Lib.CTypes

set_option autoImplicit false

/-!
# Messages and connection roles

`Petunia::Message`: a type name and the data, both byte strings of any length, and the overwrite
flag. `getType` hands out a `const char *`, so readers see the type name up to its first `NUL`.

* `Message.new`, `getType`, `getDataSize`, `getData`, `setOverwriteMode`, `getOverwriteMode`;
* `Message.view`: what a receiver can observe of a message, its type and its data.
-/

namespace Petunia

open CTypes

/-- `ConnectionRole`. -/
inductive ConnectionRole
  | auto
  | server
  | client
  deriving DecidableEq

/-- `Message`, with `m_msg_type`, `m_msg_data` and `m_overwrite`. -/
structure Message where
  msgType : Bytes
  msgData : Bytes
  overwrite : Bool
  deriving DecidableEq

namespace Message

/-- The constructor `Message(msg_type, msg_data)`. -/
def new (msgType msgData : Bytes) : Message := ⟨msgType, msgData, false⟩

/-- `GetType`, a `const char *`. -/
def getType (m : Message) : CString := cStr m.msgType

/-- `GetDataSize`. -/
def getDataSize (m : Message) : ℕ := m.msgData.length

/-- `GetData`. -/
def getData (m : Message) : Bytes := m.msgData

/-- `SetOverwriteMode`. -/
def setOverwriteMode (m : Message) (overwrite : Bool) : Message := { m with overwrite }

/-- `GetOverwriteMode`. -/
def getOverwriteMode (m : Message) : Bool := m.overwrite

/-- What a receiver can observe: the type and the data. -/
def view (m : Message) : CString × Bytes := (m.getType, m.getData)

theorem getDataSize_eq (m : Message) : m.getDataSize = m.getData.length := rfl

@[simp] theorem getType_new (type : CString) (data : Bytes) :
    (new type.bytes data).getType = type :=
  cStr_bytes type

@[simp] theorem view_new (type : CString) (data : Bytes) :
    (new type.bytes data).view = (type, data) := by
  rw [view, getType_new]; rfl

end Message

end Petunia
