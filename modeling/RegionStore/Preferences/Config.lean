import RegionStore.Bytes
import RegionStore.Compression
import RegionStore.Notice
import RegionStore.Preferences.Basic
import RegionStore.World.Basic

/-!
The configuration of a world in settings. Values that are missing or cannot be used are replaced in
the settings, too, so that the next reading finds nothing to replace.
-/

set_option autoImplicit false

namespace RegionStore.Preferences

def directoryKey : Bytes := "g_region_dir"

def maxOpenKey : Bytes := "g_region_max_open"

def methodKey : Bytes := "g_region_compression"

def syncKey : Bytes := "g_region_sync_writes"

def maxOpenLimit : Int := 65536

/-- The method of a name; for an unknown one the default. -/
def namedMethod (name : Bytes) : OnPreferences UInt8 := do
  match Method.ofName? name with
  | some method => return method.tag
  | none =>
    let fallback : WorldConfig := {}
    let fallbackName := Method.nameOfTag fallback.method
    WithHost.host (Host.notify (.unknownMethodName name fallbackName))
    change fun preferences => preferences.set methodKey fallbackName
    return fallback.method

def loadConfig : OnPreferences WorldConfig := do
  let defaults : WorldConfig := {}
  let directory ← getOrSetString directoryKey defaults.directory
  let wanted ← getOrSetInteger maxOpenKey defaults.maxOpen.toNat
  let maxOpen := max 1 (min wanted maxOpenLimit)
  change fun preferences => preferences.setInteger maxOpenKey maxOpen
  let name ← getOrSetString methodKey (Method.nameOfTag defaults.method)
  let method ← namedMethod name
  let sync ← getOrSetInteger syncKey (if defaults.sync then 1 else 0)
  return ⟨directory, maxOpen.toNat.toUInt32, method, sync ≠ 0⟩

end RegionStore.Preferences
