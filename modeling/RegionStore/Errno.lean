import RegionStore.Bytes
import RegionStore.Decimal
import RegionStore.Errno.Table

/-!
Reasons the operating system gives for refusing a call. A reason is its number; the symbolic name and
the text it is reported with are looked up in tables.
-/

set_option autoImplicit false

namespace RegionStore

structure Errno where
  number : Nat
  deriving DecidableEq, Repr

namespace Errno

@[match_pattern] def noEntry : Errno := ⟨2⟩

@[match_pattern] def interrupted : Errno := ⟨4⟩

@[match_pattern] def alreadyExists : Errno := ⟨17⟩

@[match_pattern] def notDirectory : Errno := ⟨20⟩

@[match_pattern] def isDirectory : Errno := ⟨21⟩

@[match_pattern] def invalid : Errno := ⟨22⟩

@[match_pattern] def tooLarge : Errno := ⟨27⟩

@[match_pattern] def noSpace : Errno := ⟨28⟩

@[match_pattern] def nameTooLong : Errno := ⟨36⟩

def code (errno : Errno) : Int := errno.number

/-- Empty for a number that is not in use. -/
def name (errno : Errno) : String := (names[errno.number - 1]?).getD ""

def ofName? (name : String) : Option Errno :=
  (names.idxOf? name).map fun index => ⟨index + 1⟩

def textOfCode (code : Int) : Bytes :=
  match if code < 1 then none else texts[(code - 1).toNat]? with
  | none | some "" => Bytes.concat ["Unknown error ", Decimal.print code]
  | some text => text

def text (errno : Errno) : Bytes := textOfCode errno.code

end Errno

/-- A message with the reason behind it; the number zero gives no reason. -/
def withReason (message : Bytes) (code : Int) : Bytes :=
  Bytes.beforeZero
    (if code = 0 then message else Bytes.concat [message, ": ", Errno.textOfCode code])

end RegionStore
