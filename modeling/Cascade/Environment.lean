/-
  Cascade.Environment
  ────────────────────────────────
  **THE VARIABLES OF A PROCESS.**

  The system keeps names and values as bytes.  They are set, asked for and
  answered as names are read and written: a half of a pair that stands for
  no byte cannot be handed over, and two spellings of the same bytes are one
  name.

      unencodable    — the name or the value has no bytes
      embeddedNull   — the name or the value holds a NUL
      misplacedSign  — the name holds an equals sign, which would end it
      emptyName      — the name is empty

  `get?_of_set` says that what is set is answered, as it is read back.
-/
import Cascade.Table
import Cascade.Text.Utf8

namespace Cascade

open Cascade.Text

/-- The variables of a process, by name. -/
structure Environment where
  byName : Table Bytes Bytes
  deriving DecidableEq

namespace Environment

/-- Why a variable cannot be set or asked for. -/
inductive Fault
  | unencodable (fault : Utf8.Unencodable)
  | embeddedNull
  | misplacedSign
  | emptyName
  deriving DecidableEq, Repr

/-- The wording of a fault. -/
def Fault.message : Fault → Text
  | .unencodable fault => fault.message
  | .embeddedNull => "embedded null byte"
  | .misplacedSign => "illegal environment variable name"
  | .emptyName => "[Errno 22] Invalid argument"

/-- No variables. -/
def empty : Environment := ⟨.empty⟩

/-- The bytes of a name or a value. -/
def bytesOf (t : Text) : Except Fault Bytes := (Utf8.encodeName t).mapError .unencodable

/-- The value of a variable; a name that cannot be asked for has none. -/
def get? (e : Environment) (name : Text) : Option Text :=
  match bytesOf name with
  | .error _ => none
  | .ok name => (e.byName.get? name).map Utf8.decodeName

/-- The variables with one set. -/
def set (e : Environment) (name value : Text) : Except Fault Environment := do
  let name ← bytesOf name
  let value ← bytesOf value
  if name.contains 0 || value.contains 0 then throw .embeddedNull
  else if name.contains 0x3D then throw .misplacedSign
  else if name.isEmpty then throw .emptyName
  else return ⟨e.byName.insert name value⟩

/-- The variables without one; that it is not there is no fault. -/
def erase (e : Environment) (name : Text) : Except Fault Environment :=
  (bytesOf name).map fun name => ⟨e.byName.erase name⟩

/-- What is set is answered, as it is read back. -/
theorem get?_of_set {e e' : Environment} {name value : Text} (h : e.set name value = .ok e') :
    e'.get? name = some (Utf8.settledName value) := by
  unfold set at h
  unfold get? Utf8.settledName
  cases hn : bytesOf name with
  | error fault => rw [hn] at h; cases h
  | ok n =>
    cases hv : Utf8.encodeName value with
    | error fault =>
      have hb : bytesOf value = .error (.unencodable fault) := by rw [bytesOf, hv]; rfl
      rw [hn, hb] at h
      cases h
    | ok v =>
      have hb : bytesOf value = .ok v := by rw [bytesOf, hv]; rfl
      rw [hn, hb] at h
      simp only [bind, Except.bind] at h
      split at h
      · cases h
      · split at h
        · cases h
        · split at h
          · cases h
          · cases h
            simp [Table.get?_insert]

end Environment

end Cascade
