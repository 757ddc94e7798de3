import RegionStore.Deflate.Code

/-!
Word lengths for given frequencies. The two rarest subtrees are joined until one is left; if a word
comes out too long the frequencies are flattened and the tree is built again.
-/

set_option autoImplicit false

namespace RegionStore.Deflate.WordLengths

structure Weighted where
  weight : Nat
  tree : Code

def insert (entry : Weighted) : List Weighted → List Weighted
  | [] => [entry]
  | first :: rest =>
    if entry.weight ≤ first.weight then entry :: first :: rest else first :: insert entry rest

def join : Nat → List Weighted → Code
  | _, [] => .unused
  | _, [last] => last.tree
  | 0, first :: _ => first.tree
  | bound + 1, first :: second :: rest =>
    join bound (insert ⟨first.weight + second.weight, .branch first.tree second.tree⟩ rest)

def depths : Code → (depth : Nat) → List Word → List Word
  | .unused, _, known => known
  | .symbol value, depth, known => ⟨depth, value⟩ :: known
  | .branch zero one, depth, known => depths zero (depth + 1) (depths one (depth + 1) known)

def ofFrequencies (frequencies : Array Nat) : Array Nat :=
  let used := frequencies.toList.zipIdx.filter fun entry => entry.1 ≠ 0
  let leaves := used.map fun entry => Weighted.mk entry.1 (.symbol entry.2)
  let sorted := leaves.mergeSort fun a b => a.weight ≤ b.weight
  let words := match sorted with
    | [only] => depths only.tree 1 []
    | _ => depths (join sorted.length sorted) 0 []
  words.foldl (fun lengths word => lengths.setIfInBounds word.symbol word.length)
    (Array.replicate frequencies.size 0)

/-- Flattening makes all frequencies in use equal in the end, so a few rounds are enough. -/
def limited (limit : Nat) : (rounds : Nat) → Array Nat → Array Nat
  | 0, frequencies => ofFrequencies frequencies
  | rounds + 1, frequencies =>
    let lengths := ofFrequencies frequencies
    if lengths.all (· ≤ limit) then lengths
    else limited limit rounds (frequencies.map fun count => if count = 0 then 0 else count / 2 + 1)

end RegionStore.Deflate.WordLengths
