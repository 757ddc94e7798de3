import RegionStore.Bytes

/-!
Lines of a settings file: a key and a value, each in quotes. A quote or backslash inside is written
with a backslash in front. Reading is lenient: words may also stand without quotes, and what follows
the second word does not matter.
-/

set_option autoImplicit false

namespace RegionStore.Preferences

def newline : UInt8 := 0x0A

def quote : UInt8 := 0x22

def backslash : UInt8 := 0x5C

def space : UInt8 := 0x20

/-- Space, and the five control characters that move the place of writing. -/
def IsBlank (byte : UInt8) : Prop := byte = space ∨ 0x09 ≤ byte ∧ byte ≤ 0x0D

instance (byte : UInt8) : Decidable (IsBlank byte) := inferInstanceAs (Decidable (_ ∨ _))

def NeedsBackslash (byte : UInt8) : Prop := byte = quote ∨ byte = backslash

instance (byte : UInt8) : Decidable (NeedsBackslash byte) := inferInstanceAs (Decidable (_ ∨ _))

def escape (word : List UInt8) : List UInt8 :=
  word.flatMap fun byte => if NeedsBackslash byte then [backslash, byte] else [byte]

def quoted (word : List UInt8) : List UInt8 := quote :: escape word ++ [quote]

/-- The word up to the next quote, behind what is already known of it in reverse, and what follows the
quote if there is one. -/
def quotedWord : List UInt8 → (known : List UInt8) → List UInt8 × Option (List UInt8)
  | [], known => (known.reverse, none)
  | byte :: rest, known =>
    if byte = quote then (known.reverse, some rest)
    else
      match rest with
      | next :: more =>
        if byte = backslash ∧ NeedsBackslash next then quotedWord more (next :: known)
        else quotedWord (next :: more) (byte :: known)
      | [] => ((byte :: known).reverse, none)

def firstWord (line : List UInt8) : List UInt8 × Option (List UInt8) :=
  match line.dropWhile (IsBlank ·) with
  | [] => ([], none)
  | byte :: rest =>
    if byte = quote then quotedWord rest []
    else ((byte :: rest).takeWhile (¬ IsBlank ·), some ((byte :: rest).dropWhile (¬ IsBlank ·)))

/-- The first two words; missing ones are empty. -/
def words (line : List UInt8) : List UInt8 × List UInt8 :=
  match firstWord line with
  | (key, none) => (key, [])
  | (key, some rest) => (key, (firstWord rest).1)

def entryLine (key value : List UInt8) : List UInt8 :=
  quoted key ++ [space] ++ quoted value ++ [newline]

/-- The lines of a file. The last one needs no newline. -/
def lines (bytes : List UInt8) : List (List UInt8) :=
  match bytes with
  | [] => []
  | byte :: rest =>
    (byte :: rest).takeWhile (· ≠ newline) ::
      lines (((byte :: rest).dropWhile (· ≠ newline)).drop 1)
termination_by bytes.length
decreasing_by
  have := (List.dropWhile_sublist (fun byte => decide (byte ≠ newline)) (l := byte :: rest)).length_le
  simp only [List.length_drop, List.length_cons] at *
  omega

end RegionStore.Preferences
