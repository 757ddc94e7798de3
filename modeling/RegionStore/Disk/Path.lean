import RegionStore.Bytes

/-!
Paths as byte strings, and the names they are made of. Only the part in front of a zero byte reaches
the operating system.
-/

set_option autoImplicit false

namespace RegionStore.Disk

structure Path where
  absolute : Bool
  names : List Bytes
  /-- Whether a slash follows the last name. -/
  trailingSlash : Bool

namespace Path

def slash : UInt8 := 0x2F

def self : Bytes := "."

def parent : Bytes := ".."

def IsDots (name : Bytes) : Prop := name = self ∨ name = parent

instance (name : Bytes) : Decidable (IsDots name) := inferInstanceAs (Decidable (_ ∨ _))

def maxName : Nat := 255

def maxPath : Nat := 4095

/-- The names between slashes, each behind the position where it ends. What is already known of the
first one, in reverse, stands in front of `position`. -/
def namesFrom (position : Nat) (known : List UInt8) : List UInt8 → List (Nat × Bytes)
  | [] => if known = [] then [] else [(position, Bytes.ofList known.reverse)]
  | byte :: rest =>
    if byte ≠ slash then namesFrom (position + 1) (byte :: known) rest
    else if known = [] then namesFrom (position + 1) [] rest
    else (position, Bytes.ofList known.reverse) :: namesFrom (position + 1) [] rest

/-- The names of a path with the positions where they end. A zero byte is a byte like any other. -/
def namesOf (path : Bytes) : List (Nat × Bytes) := namesFrom 0 [] path.list

def ofBytes (path : Bytes) : Path :=
  let seen := path.beforeZero
  ⟨seen.list.head? = some slash, (namesOf seen).map (·.2), seen.list.getLast? = some slash⟩

def join (directory name : Bytes) : Bytes :=
  if directory.size = 0 ∨ directory.get (directory.size - 1) = slash then directory ++ name
  else Bytes.concat [directory, "/", name]

end Path
end RegionStore.Disk
