import Std.Data.TreeMap
import RegionStore.Bytes
import RegionStore.Bytes.Order
import RegionStore.Decimal
import RegionStore.Host.Basic
import RegionStore.Host.Files
import RegionStore.Notice
import RegionStore.Preferences.Line

/-!
Settings: values under keys, both byte strings, read from a file and written back to it in the order
of the keys. An integer is kept as its text.
-/

set_option autoImplicit false

namespace RegionStore

abbrev Preferences.Values := Std.TreeMap Bytes Bytes Bytes.compare

structure Preferences where
  path : Bytes
  values : Preferences.Values

abbrev OnPreferences := WithHost Preferences

namespace Preferences

def minInteger : Int := -9223372036854775808

def maxInteger : Int := 9223372036854775807

def integer? (text : Bytes) : Option Int :=
  (Decimal.parse? minInteger.natAbs text.list).filter fun value =>
    minInteger ≤ value ∧ value ≤ maxInteger

def get? (preferences : Preferences) (key : Bytes) : Option Bytes := preferences.values[key]?

def has (preferences : Preferences) (key : Bytes) : Bool := (preferences.get? key).isSome

def set (preferences : Preferences) (key value : Bytes) : Preferences :=
  { preferences with values := preferences.values.insert key value }

/-- A value that is there stays. -/
def setDefault (preferences : Preferences) (key value : Bytes) : Preferences :=
  { preferences with values := preferences.values.insertIfNew key value }

def setInteger (preferences : Preferences) (key : Bytes) (value : Int) : Preferences :=
  preferences.set key (Decimal.print value)

def getString (preferences : Preferences) (key default : Bytes) : Bytes :=
  (preferences.get? key).getD default

def getInteger (preferences : Preferences) (key : Bytes) (default : Int) : Int :=
  ((preferences.get? key).bind integer?).getD default

/-- The values in the bytes of a file. The first of several values of a key counts, and lines without a
key do not. -/
def parse (bytes : Bytes) : Values :=
  (lines bytes.list).foldl (fun values line =>
    let (key, value) := words line
    if key = [] then values else values.insertIfNew (Bytes.ofList key) (Bytes.ofList value)) ∅

def print (values : Values) : Bytes :=
  Bytes.ofList (values.toList.flatMap fun (key, value) => entryLine key.list value.list)

/-- Reads the settings in a file; without the file there are none. -/
def load (path : Bytes) : OnHost Preferences := do
  match (← get).readWhole? path with
  | some bytes => return ⟨path, parse bytes⟩
  | none =>
    Host.notify (.defaultsUsed path)
    return ⟨path, ∅⟩

def save (preferences : Preferences) : OnHost Bool := do
  match ← modifyGet (Host.replaceFile preferences.path (print preferences.values)) with
  | .done => return true
  | .notOpened =>
    Host.notify (.notWritable preferences.path)
    return false
  | .notWritten =>
    Host.notify (.notWritten preferences.path)
    return false

def change (update : Preferences → Preferences) : OnPreferences Unit :=
  modify fun (preferences, host) => (update preferences, host)

def getOrSetString (key default : Bytes) : OnPreferences Bytes := do
  let value := (← get).1.getString key default
  change fun preferences => preferences.setDefault key default
  return value

/-- The integer under a key. The default is put there if there is no value, or one that is none. -/
def getOrSetInteger (key : Bytes) (default : Int) : OnPreferences Int := do
  match (← get).1.get? key with
  | none =>
    change fun preferences => preferences.setInteger key default
    return default
  | some text =>
    match integer? text with
    | some value => return value
    | none =>
      WithHost.host (Host.notify (.badInteger text key))
      change fun preferences => preferences.setInteger key default
      return default

end Preferences
end RegionStore
