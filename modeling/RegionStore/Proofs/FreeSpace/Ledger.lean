import Mathlib.Algebra.GroupWithZero.Nat
import Mathlib.Algebra.Order.BigOperators.Group.Finset
import Mathlib.Order.Interval.Finset.Nat
import RegionStore.Proofs.FreeSpace.Claim
import RegionStore.Proofs.Placement

/-!
The free space of a file against a ledger of its occupied sectors: those that have been claimed or got a
record, and have not been released since. After any calls the free extents are the maximal runs of the
other sectors, so the order in which the sectors came to be occupied and free does not matter.
-/

set_option autoImplicit false

namespace RegionStore

open Disk

def Extent.cells (extent : Extent) : Finset Nat := Finset.Ico extent.first.toNat extent.behind

@[simp] theorem Extent.mem_cells {extent : Extent} {sector : Nat} :
    sector ∈ extent.cells ↔ extent.Holds sector := Finset.mem_Ico

@[simp] theorem Extent.card_cells (extent : Extent) : extent.cells.card = extent.count.toNat := by
  simp [cells, behind_def]

theorem Extent.cells_of_empty {extent : Extent} (empty : extent.count.toNat = 0) : extent.cells = ∅ := by
  simp [← Finset.card_eq_zero, empty]

namespace FreeSpace

section
variable {space : FreeSpace} (sound : space.Sound) {cells : Finset Nat}
  (free : ∀ sector, sector ∈ cells ↔ space.Free sector)
include sound free

/-- No free sector is in two free extents. -/
theorem Sound.card_eq_sum :
    cells.card = (space.byStart.map fun extent => extent.count.toNat).sum := by
  have disjoint : (space.byStart.toFinset : Set Extent).PairwiseDisjoint Extent.cells := by
    intro a memberA b memberB different
    refine Finset.disjoint_left.2 fun sector inA inB => ?_
    have order := before_of_ne sound.separate (by simpa using memberA) (by simpa using memberB) different
    simp only [Extent.mem_cells, Extent.Holds] at inA inB
    omega
  have nodup : space.byStart.Nodup := by
    refine sound.separate.imp ?_
    rintro extent _ separate rfl
    rw [Extent.behind_def] at separate
    omega
  have union : cells = space.byStart.toFinset.biUnion Extent.cells := by
    ext sector
    simp [free, Free]
  rw [union, Finset.card_biUnion disjoint, List.sum_toFinset _ nodup]
  simp

end

/-- Counts are added as words, which does not wrap when their sum is small. -/
theorem toNat_foldl_count (extents : List Extent) (start : UInt32)
    (bounded : start.toNat + (extents.map fun extent => extent.count.toNat).sum < 2 ^ 32) :
    (extents.foldl (fun sum extent => sum + extent.count) start).toNat =
      start.toNat + (extents.map fun extent => extent.count.toNat).sum := by
  induction extents generalizing start with
  | nil => rfl
  | cons extent rest ih =>
    simp only [List.map_cons, List.sum_cons] at bounded
    have added : (start + extent.count).toNat = start.toNat + extent.count.toNat := by
      rw [UInt32.toNat_add]
      exact Nat.mod_eq_of_lt (by omega)
    rw [List.foldl_cons, ih _ (by omega), added]
    simp [Nat.add_assoc]

theorem Sound.toNat_total {space : FreeSpace} (sound : space.Sound) {cells : Finset Nat}
    (free : ∀ sector, sector ∈ cells ↔ space.Free sector) : space.total.toNat = cells.card := by
  have sum := sound.card_eq_sum free
  have inFile : cells ⊆ Finset.range space.sectors.toNat := by
    intro sector member
    exact Finset.mem_range.2 (sound.free_inside ((free sector).1 member)).2
  have few := Finset.card_le_card inFile
  have bounded := space.sectors.toNat_lt
  rw [Finset.card_range] at few
  unfold total
  rw [toNat_foldl_count _ _ (by simp; omega), sum]
  simp

inductive Call where
  | claim (extent : Extent)
  | place (record : Bytes) (old : Option Extent) (sync : Bool)
  | release (extent : Extent)

/-- What a call has to keep to when these sectors are occupied. -/
def Call.Proper (occupied : Finset Nat) : Call → Prop
  | .claim extent => extent.behind < 2 ^ 32
  | .place _ old _ => ∀ extent, old = some extent → extent.cells ⊆ occupied
  | .release extent => extent.cells ⊆ occupied

/-- The free space of a file, with the sectors that have been claimed or placed and not been released. -/
structure Ledger where
  space : FreeSpace
  file : Device
  occupied : Finset Nat

namespace Ledger

def unoccupied (ledger : Ledger) : Finset Nat :=
  Finset.Ico headerSectors.toNat ledger.space.sectors.toNat \ ledger.occupied

def call (ledger : Ledger) (around : Surroundings) : Call → Ledger
  | .claim extent =>
    match ledger.space.claim? extent with
    | some next => { ledger with space := next, occupied := ledger.occupied ∪ extent.cells }
    | none => ledger
  | .place record old sync =>
    match place record old sync (ledger.space, { ledger.file with around := around }) with
    | .ok extent (next, after) => ⟨next, after, ledger.occupied ∪ extent.cells⟩
    | .error _ (next, after) => ⟨next, after, ledger.occupied⟩
  | .release extent =>
    { ledger with
      space := ledger.space.release extent
      occupied := ledger.occupied \ extent.cells }

inductive Reached : Ledger → Prop where
  | start (sectors : UInt32) (file : Device) (enough : headerSectors ≤ sectors) :
    Reached ⟨ofSectors sectors, file, ∅⟩
  | call {ledger : Ledger} (before : Reached ledger) (around : Surroundings) (call : Call)
    (proper : call.Proper ledger.occupied) : Reached (ledger.call around call)

/-- Every sector of the file is in the header, occupied or free. -/
structure Balanced (ledger : Ledger) : Prop where
  sound : ledger.space.Sound
  header : headerSectors.toNat ≤ ledger.space.sectors.toNat
  inside : ledger.occupied ⊆ Finset.Ico headerSectors.toNat ledger.space.sectors.toNat
  free : ∀ sector, sector ∈ ledger.unoccupied ↔ ledger.space.Free sector

theorem balanced_start {sectors : UInt32} (file : Device) (enough : headerSectors ≤ sectors) :
    Balanced ⟨ofSectors sectors, file, ∅⟩ := by
  obtain ⟨sound, free⟩ := ofSectors_sound sectors
  refine ⟨sound, ?_, Finset.empty_subset _, fun sector => ?_⟩
  · rw [sectors_ofSectors]
    exact UInt32.le_iff_toNat_le.1 enough
  · simp [unoccupied, free]

section
variable {ledger : Ledger} (balanced : ledger.Balanced)
include balanced

theorem Balanced.takes {extent : Extent} {next : FreeSpace} (takes : Takes ledger.space extent next)
    (file : Device) : Balanced ⟨next, file, ledger.occupied ∪ extent.cells⟩ := by
  have header := takes.inside.behindHeader
  have within := takes.inside.within
  refine ⟨takes.sound, Nat.le_trans balanced.header takes.longer, ?_, fun sector => ?_⟩
  · refine Finset.union_subset (balanced.inside.trans ?_) (Finset.Ico_subset_Ico header within)
    exact Finset.Ico_subset_Ico_right takes.longer
  · have free := balanced.free sector
    simp only [unoccupied, Finset.mem_sdiff, Finset.mem_Ico, Finset.mem_union, Extent.mem_cells,
      takes.free, takes.length] at free ⊢
    rw [← free]
    tauto

theorem Balanced.release {extent : Extent} (occupied : extent.cells ⊆ ledger.occupied) :
    Balanced { ledger with
      space := ledger.space.release extent
      occupied := ledger.occupied \ extent.cells } := by
  by_cases empty : extent.count = 0
  · have none : extent.cells = ∅ := Extent.cells_of_empty (by simp [empty])
    simpa [FreeSpace.release, empty, none] using balanced
  · have nonempty : 0 < extent.count.toNat :=
      Nat.pos_of_ne_zero fun zero => empty (UInt32.toNat_inj.1 zero)
    have ends := (Finset.Ico_subset_Ico_iff (by rw [Extent.behind_def]; omega)).1
      (occupied.trans balanced.inside)
    have apart : ∀ sector, extent.Holds sector → ¬ ledger.space.Free sector := by
      intro sector holds free
      rw [← balanced.free, unoccupied, Finset.mem_sdiff] at free
      exact free.2 (occupied (Extent.mem_cells.2 holds))
    obtain ⟨sound, sectors, free⟩ := balanced.sound.release ⟨ends.1, nonempty, ends.2⟩ apart
    refine ⟨sound, ?_, ?_, fun sector => ?_⟩
    · simpa [sectors] using balanced.header
    · simpa [sectors] using Finset.sdiff_subset.trans balanced.inside
    · have old := balanced.free sector
      have within := @balanced.inside sector
      have held := @occupied sector
      simp only [unoccupied, Finset.mem_sdiff, Finset.mem_Ico, Extent.mem_cells, free, sectors]
        at old within held ⊢
      rw [← old]
      tauto

theorem Balanced.claim {extent : Extent} (bounded : extent.behind < 2 ^ 32) (around : Surroundings) :
    (ledger.call around (.claim extent)).Balanced := by
  simp only [call]
  cases claimed : ledger.space.claim? extent with
  | none => exact balanced
  | some next =>
    obtain ⟨inside, fresh, sound, sectors, free⟩ := balanced.sound.claim? bounded claimed
    refine balanced.takes ⟨sound, sectors ▸ inside, fun sector => ?_, fun _ holds _ => fresh _ holds, free⟩ _
    have within := inside.within
    rw [sectors, Extent.Holds]
    omega

theorem Balanced.refiled (file : Device) : Balanced ⟨ledger.space, file, ledger.occupied⟩ :=
  ⟨balanced.sound, balanced.header, balanced.inside, balanced.free⟩

/-- A record takes sectors, or it stays where sectors are occupied already. -/
theorem Balanced.placed {old : Option Extent} {count : Nat} {extent : Extent} {next : FreeSpace}
    (target : Target ledger.space old count extent next) (small : count ≤ maxExtentSectors)
    (occupied : ∀ place, old = some place → place.cells ⊆ ledger.occupied) (file : Device) :
    Balanced ⟨next, file, ledger.occupied ∪ extent.cells⟩ := by
  have unchanged (same : next = ledger.space) (within : extent.cells ⊆ ledger.occupied) :
      Balanced ⟨next, file, ledger.occupied ∪ extent.cells⟩ := by
    rw [same, Finset.union_eq_left.2 within]
    exact balanced.refiled file
  rcases Nat.eq_zero_or_pos extent.count.toNat with empty | positive
  · -- A record without bytes gets no sectors, and nothing changes.
    have zero : extent.count = 0 := UInt32.toNat_inj.1 empty
    refine unchanged ?_ (by simp [Extent.cells_of_empty empty])
    cases target with
    | stays same fits kept => exact kept
    | carved moves size carves =>
      simpa [FreeSpace.release, zero] using carves.release balanced.sound
    | appended moves size appends => simpa [zero] using appends.next
  · cases target with
    | stays same fits kept => exact unchanged kept (occupied extent same)
    | carved moves size carves => exact balanced.takes (carves.takes balanced.sound positive) file
    | appended moves size appends =>
      exact balanced.takes (appends.takes balanced.sound balanced.header positive (size ▸ small)) file

theorem Balanced.place (record : Bytes) {old : Option Extent} (sync : Bool)
    (occupied : ∀ extent, old = some extent → extent.cells ⊆ ledger.occupied)
    (around : Surroundings) : (ledger.call around (.place record old sync)).Balanced := by
  have placing := place_ends balanced.sound { ledger.file with around := around } record old sync
  simp only [call]
  cases ran : FreeSpace.place record old sync (ledger.space, { ledger.file with around := around }) with
  | error failure state =>
    obtain ⟨space, after⟩ := state
    obtain ⟨rfl, _⟩ := (ends_of_eq_error ran).1 placing
    exact balanced.refiled after
  | ok extent state =>
    obtain ⟨small, target, _⟩ := (ends_of_eq_ok ran).1 placing
    exact balanced.placed target small occupied state.2

theorem Balanced.call {call : Call} (proper : call.Proper ledger.occupied) (around : Surroundings) :
    (ledger.call around call).Balanced := by
  cases call with
  | claim extent => exact balanced.claim proper around
  | place record old sync => exact balanced.place record sync proper around
  | release extent => exact balanced.release proper

end

variable {ledger : Ledger}

theorem Reached.balanced (reached : ledger.Reached) : ledger.Balanced := by
  induction reached with
  | start sectors file enough => exact balanced_start file enough
  | call _ around call proper ih => exact ih.call proper around

/-- The free extents are in order, and they tell which sectors are not occupied. -/
structure Exact (ledger : Ledger) : Prop where
  ascending : ledger.space.byStart.Pairwise fun a b => a.first < b.first
  runs : ∀ extent, extent ∈ ledger.space.byStart ↔ extent.IsRun (· ∈ ledger.unoccupied)
  ordered : ledger.space.bySize.Pairwise Extent.Smaller
  mirrored : ledger.space.bySize.Perm ledger.space.byStart
  total : ledger.space.total.toNat = ledger.unoccupied.card

theorem Balanced.exact (balanced : ledger.Balanced) : ledger.Exact := by
  have sound := balanced.sound
  have ascending : ledger.space.byStart.Pairwise fun a b => a.first < b.first := by
    refine sound.separate.imp fun {a b} separate => ?_
    rw [Extent.behind_def] at separate
    rw [UInt32.lt_iff_toNat_lt]
    omega
  have free : ledger.space.Free = (· ∈ ledger.unoccupied) :=
    funext fun sector => propext (balanced.free sector).symm
  refine ⟨ascending, fun extent => free ▸ sound.mem_iff_isRun extent, sound.ordered, ?_, ?_⟩
  · refine (List.perm_ext_iff_of_nodup ?_ ?_).2 sound.mirrored
    · refine sound.ordered.imp ?_
      rintro extent _ smaller rfl
      exact smaller.asymm smaller
    · refine ascending.imp ?_
      rintro extent _ before rfl
      exact UInt32.lt_irrefl _ before
  · exact sound.toNat_total balanced.free

/-- Whatever has been claimed, placed and released, and whatever has failed: the free extents are the
maximal runs of unoccupied sectors, and they are the same after any other calls that have led to the
same occupied sectors. -/
theorem exact_of_reached (reached : ledger.Reached) :
    ledger.Exact ∧ ∀ other : Ledger, other.Reached → other.occupied = ledger.occupied →
      other.space.sectors = ledger.space.sectors → other.space = ledger.space := by
  have balanced := reached.balanced
  refine ⟨balanced.exact, fun other reachedOther occupied sectors => ?_⟩
  refine reachedOther.balanced.sound.eq_of_free_iff balanced.sound sectors fun sector => ?_
  rw [← reachedOther.balanced.free, ← balanced.free, unoccupied, unoccupied, occupied, sectors]

/-- Two claims, of which one is released again, and a record for which the disk is full. -/
theorem exact_of_reached_full :
    let file : Device := ⟨"r.0.0.mca", Content.empty, false, Surroundings.initial⟩
    let start : Ledger := ⟨ofSectors 10, file, ∅⟩
    let first := start.call Surroundings.initial (.claim ⟨3, 2⟩)
    let second := first.call Surroundings.initial (.claim ⟨6, 1⟩)
    let released := second.call Surroundings.initial (.release ⟨3, 2⟩)
    (released.call { Surroundings.initial with ceiling := some 9000 } (.place "abc" none true)).Exact := by
  intro file start first second released
  have begun : start.Reached := .start 10 file (by decide)
  have claimed : first.Reached := .call begun _ _ (by decide : (5 : Nat) < 2 ^ 32)
  have both : second.Reached := .call claimed _ _ (by decide : (7 : Nat) < 2 ^ 32)
  have reached : released.Reached := .call both _ _ (by decide : Extent.cells ⟨3, 2⟩ ⊆ second.occupied)
  have homeless : Call.Proper released.occupied (.place "abc" none true) := nofun
  exact (exact_of_reached (.call reached _ _ homeless)).1

end Ledger
end FreeSpace
end RegionStore
