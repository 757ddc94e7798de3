import RegionStore.Proofs.Placement

/-!
Where a record goes if no call of its file fails. The free space, the old extent and the number of sectors
leave no choice: the conditions of the ways to place a record and of the reasons to reject it exclude one
another, and the smallest free extent that is large enough is only one.
-/

set_option autoImplicit false

namespace RegionStore

open Disk

namespace FreeSpace

def Occupied (space : FreeSpace) (extent : Extent) : Prop :=
  ∀ sector, extent.Holds sector →
    headerSectors.toNat ≤ sector ∧ sector < space.sectors.toNat ∧ ¬ space.Free sector

/-- Where a record of so many sectors goes and what is free after that, or why it goes nowhere. -/
inductive Chosen (space : FreeSpace) (old : Option Extent) (count : Nat) (path : Bytes) :
    Except Failure (Extent × FreeSpace) → Prop where
  | taken {extent : Extent} {next : FreeSpace} (small : count ≤ maxExtentSectors)
    (target : Target space old count extent next) : Chosen space old count path (.ok (extent, next))
  | rejected {failure : Failure} (why : Rejected space old count path failure) :
    Chosen space old count path (.error failure)

/-- The record lies in its extent with zeros behind it, the old extent is in use as before, and nothing
else in the file has changed. The file is as long as the free space has it, if it was before. -/
structure Lodged (space : FreeSpace) (file : Device) (old : Option Extent) (record : Bytes)
    (extent : Extent) (next : FreeSpace) (after : Device) : Prop where
  data : after.content.read extent.position extent.size = extent.padded record
  others : ∀ position < file.content.size,
    position < extent.position ∨ extent.position + extent.size ≤ position →
      after.content.byteAt position = file.content.byteAt position
  occupied : ∀ place, old = some place → next.Occupied place
  size : 0 < extent.size →
    after.content.size = max file.content.size (extent.position + extent.size)
  length : file.content.size = space.sectors.toNat * sectorSize →
    after.content.size = next.sectors.toNat * sectorSize

variable {space : FreeSpace} {old : Option Extent} {count : Nat} {path : Bytes}

theorem Carves.unique {a b : Extent} {nextA nextB : FreeSpace}
    (carvesA : Carves space a nextA) (carvesB : Carves space b nextB)
    (size : a.count.toNat = b.count.toNat) : a = b ∧ nextA = nextB := by
  obtain ⟨wholeA, memberA, firstA, enoughA, smallestA⟩ := carvesA.fits
  obtain ⟨wholeB, memberB, firstB, enoughB, smallestB⟩ := carvesB.fits
  have sameWhole : wholeA = wholeB := by
    rcases smallestB wholeA memberA (by omega) with same | smaller
    · exact same
    · rcases smallestA wholeB memberB (by omega) with same | smaller'
      · exact same.symm
      · exact absurd smaller smaller'.asymm
  have same : a = b := by
    apply Extent.ext_toNat _ size
    rw [← firstA, ← firstB, sameWhole]
  subst same
  refine ⟨rfl, carvesA.sound.eq_of_free_iff carvesB.sound (carvesA.sectors.trans carvesB.sectors.symm) ?_⟩
  exact fun sector => (carvesA.free sector).trans (carvesB.free sector).symm

theorem Carves.not_noRoom {extent : Extent} {next : FreeSpace} (carves : Carves space extent next)
    (noRoom : ∀ other ∈ space.byStart, other.count.toNat < extent.count.toNat) : False := by
  obtain ⟨whole, member, _, enough, _⟩ := carves.fits
  exact absurd enough (Nat.not_le_of_lt (noRoom whole member))

theorem Target.unique {a b : Extent} {nextA nextB : FreeSpace}
    (targetA : Target space old count a nextA) (targetB : Target space old count b nextB) :
    a = b ∧ nextA = nextB := by
  have remains {place : Extent} (same : old = some place) (fits : count ≤ place.count.toNat)
      (moves : ∀ place, old = some place → place.count.toNat < count) : False :=
    absurd fits (Nat.not_le_of_lt (moves place same))
  cases targetA with
  | stays same fits kept =>
    cases targetB with
    | stays same' fits' kept' => exact ⟨Option.some.inj (same.symm.trans same'), kept.trans kept'.symm⟩
    | carved moves size carves => exact (remains same fits moves).elim
    | appended moves size appends => exact (remains same fits moves).elim
  | carved moves size carves =>
    cases targetB with
    | stays same fits kept => exact (remains same fits moves).elim
    | carved moves' size' carves' => exact carves.unique carves' (size.trans size'.symm)
    | appended moves' size' appends =>
      exact (carves.not_noRoom (by rw [size, ← size']; exact appends.noRoom)).elim
  | appended moves size appends =>
    cases targetB with
    | stays same fits kept => exact (remains same fits moves).elim
    | carved moves' size' carves =>
      exact (carves.not_noRoom (by rw [size', ← size]; exact appends.noRoom)).elim
    | appended moves' size' appends' =>
      obtain rfl : a = b := Extent.ext_toNat (by rw [appends.first, appends'.first]) (size.trans size'.symm)
      exact ⟨rfl, appends.next.trans appends'.next.symm⟩

theorem Target.not_rejected {extent : Extent} {next : FreeSpace} {failure : Failure}
    (small : count ≤ maxExtentSectors) (target : Target space old count extent next) :
    ¬ Rejected space old count path failure := by
  intro why
  cases why with
  | large tooLarge => exact absurd small (Nat.not_le_of_lt tooLarge)
  | full _ moves beyond noRoom =>
    cases target with
    | stays same fits kept => exact absurd fits (Nat.not_le_of_lt (moves extent same))
    | carved _ size carves => exact carves.not_noRoom (by rwa [size])
    | appended _ size appends => exact absurd appends.addressable (Nat.not_le_of_lt beyond)

theorem Chosen.unique {a b : Except Failure (Extent × FreeSpace)}
    (first : Chosen space old count path a) (second : Chosen space old count path b) : a = b := by
  cases first with
  | taken small target =>
    cases second with
    | taken _ target' =>
      obtain ⟨rfl, rfl⟩ := target.unique target'
      rfl
    | rejected why => exact absurd why (target.not_rejected small)
  | rejected why =>
    cases second with
    | taken small target => exact absurd why (target.not_rejected small)
    | rejected why' =>
      cases why with
      | large tooLarge =>
        cases why' with
        | large _ => rfl
        | full small _ _ _ => exact absurd small (Nat.not_le_of_lt tooLarge)
      | full small _ _ _ =>
        cases why' with
        | large tooLarge => exact absurd small (Nat.not_le_of_lt tooLarge)
        | full _ _ _ _ => rfl

/-- With no failing call the choice decides how placing a record ends. -/
theorem place_chosen (sound : space.Sound) {file : Device} (untroubled : file.Untroubled)
    (record : Bytes) (old : Option Extent) (sync : Bool) :
    Ends (place record old sync) (space, file)
      (fun extent state =>
        Chosen space old (sectorsOf record.size) file.path (.ok (extent, state.1)) ∧
          Placed space file old record extent state.1 state.2)
      fun failure state =>
        Chosen space old (sectorsOf record.size) file.path (.error failure) ∧ state = (space, file) := by
  refine Ends.mono (place_ends sound file record old sync) ?_ ?_
  · exact fun extent state placed => ⟨.taken placed.small placed.target, placed⟩
  · rintro failure state ⟨kept, unplaced⟩
    cases unplaced with
    | rejected same why => exact ⟨.rejected why, Prod.ext kept same⟩
    | spoiled troubled => exact absurd untroubled troubled

theorem Target.occupied {extent place : Extent} {next : FreeSpace}
    (target : Target space old count extent next) (small : count ≤ maxExtentSectors)
    (occupied : space.Occupied place) : next.Occupied place := by
  intro sector holds
  obtain ⟨header, within, taken⟩ := occupied sector holds
  cases target with
  | stays same fits kept => exact kept ▸ ⟨header, within, taken⟩
  | carved moves size carves =>
    exact ⟨header, carves.sectors ▸ within, fun free => taken ((carves.free sector).1 free).1⟩
  | appended moves size appends =>
    have longer := appends.sectors (by omega)
    rw [Extent.behind_def, appends.first] at longer
    exact ⟨header, by omega, fun free => taken ((appends.free sector).1 free)⟩

theorem Target.sectors_eq_max {extent : Extent} {next : FreeSpace} (sound : space.Sound)
    (target : Target space old count extent next) (small : count ≤ maxExtentSectors)
    (occupied : ∀ place, old = some place → space.Occupied place) (some : 0 < extent.count.toNat) :
    next.sectors.toNat = max space.sectors.toNat extent.behind := by
  have behind := extent.behind_def
  cases target with
  | stays same fits kept =>
    have last := (occupied extent same (extent.behind - 1) ⟨by omega, by omega⟩).2.1
    rw [kept]
    omega
  | carved moves size carves =>
    have holds : extent.Holds (extent.behind - 1) := ⟨by omega, by omega⟩
    have last := (sound.free_inside (carves.holds_free holds)).2
    rw [carves.sectors]
    omega
  | appended moves size appends =>
    have first := congrArg UInt32.toNat appends.first
    rw [appends.sectors (by omega)]
    omega

theorem Target.sectors_of_empty {extent : Extent} {next : FreeSpace}
    (target : Target space old count extent next) (empty : extent.count.toNat = 0) :
    next.sectors = space.sectors := by
  cases target with
  | stays same fits kept => rw [kept]
  | carved moves size carves => exact carves.sectors
  | appended moves size appends =>
    rw [appends.next, UInt32.toNat_inj.1 (empty.trans UInt32.toNat_zero.symm)]
    exact UInt32.add_zero _

theorem Placed.lodged {file after : Device} {record : Bytes} {extent : Extent} {next : FreeSpace}
    (sound : space.Sound) (occupied : ∀ place, old = some place → space.Occupied place)
    (placed : Placed space file old record extent next after) :
    Lodged space file old record extent next after := by
  have small := placed.small
  have size := Extent.size_padded placed.target.fits
  have wrote := placed.wrote.content
  have longer : 0 < extent.size →
      after.content.size = max file.content.size (extent.position + extent.size) := by
    intro some
    rw [wrote.size, Content.size_write, size, if_neg (Nat.ne_of_gt some)]
  constructor
  · rw [wrote.read, ← size, Content.read_write]
  · intro position _ outside
    rw [wrote.byte, Content.byteAt_write, size, if_neg (by omega)]
  · exact fun place same => placed.target.occupied small (occupied place same)
  · exact longer
  · intro whole
    by_cases some : 0 < extent.count.toNat
    · have bytes : 0 < extent.size := Nat.mul_pos some (by decide)
      rw [longer bytes, whole, Extent.position_add_size, placed.target.sectors_eq_max sound small occupied some,
        Nat.mul_max_mul_right]
    · have empty := Nat.eq_zero_of_not_pos some
      have nothing : extent.size = 0 := by rw [Extent.size, empty, Nat.zero_mul]
      rw [wrote.size, Content.size_write, size, if_pos nothing, whole,
        placed.target.sectors_of_empty empty]

/-- Placing a record in a file whose calls all succeed. It stays in its old extent if it fits there;
otherwise it takes the front of the smallest free extent that is large enough, of equally small ones the
one nearest to the start; otherwise it is appended, or rejected if no table word can point there. -/
theorem place_of_untroubled (sound : space.Sound) {file : Device} (untroubled : file.Untroubled)
    {old : Option Extent} (occupied : ∀ place, old = some place → space.Occupied place)
    (record : Bytes) (sync : Bool) :
    Ends (place record old sync) (space, file)
      (fun extent state =>
        Chosen space old (sectorsOf record.size) file.path (.ok (extent, state.1)) ∧
          Lodged space file old record extent state.1 state.2)
      fun failure state =>
        Chosen space old (sectorsOf record.size) file.path (.error failure) ∧ state = (space, file) := by
  refine Ends.mono (place_chosen sound untroubled record old sync) ?_ fun _ _ => id
  exact fun extent state ⟨chosen, placed⟩ => ⟨chosen, placed.lodged sound occupied⟩

/-- Twenty sectors, of which 4 and 5, 7 to 9 and 12 to 14 are free. -/
def scattered : FreeSpace := ⟨20, [⟨4, 2⟩, ⟨7, 3⟩, ⟨12, 3⟩], [⟨4, 2⟩, ⟨7, 3⟩, ⟨12, 3⟩]⟩

theorem scattered_sound : scattered.Sound :=
  ⟨by decide, by decide, by decide, fun _ => Iff.rfl⟩

theorem occupied_scattered : scattered.Occupied ⟨10, 2⟩ := by
  rintro sector ⟨fromFirst, toLast⟩
  have inside : sector = 10 ∨ sector = 11 := by
    simp only [Extent.behind, UInt32.reduceToNat] at fromFirst toLast
    omega
  simp only [Free, scattered]
  rcases inside with rfl | rfl <;> decide

/-- Of two free extents of three sectors the first one is taken, although there are free sectors nearer to
the start of the file. -/
theorem place_of_untroubled_smallest :
    ∃ next after,
      place ⟨Array.replicate 9000 1⟩ (some ⟨10, 2⟩) true
          (scattered, ⟨"a.mca", Content.empty.resize 81920, false, Surroundings.initial⟩) =
        .ok ⟨7, 3⟩ (next, after) ∧
      next.byStart = [⟨4, 2⟩, ⟨12, 3⟩] ∧ next.Occupied ⟨10, 2⟩ ∧
      after.content.read 28672 12288 = ⟨Array.replicate 9000 1⟩ ++ Bytes.zeros 3288 ∧
      after.content.size = 81920 := by
  generalize whole : (⟨Array.replicate 9000 1⟩ : Bytes) = record
  have size : record.size = 9000 := by
    rw [← whole]
    exact Array.size_replicate
  have three : sectorsOf record.size = 3 := by rw [size]; decide
  have untroubled : Device.Untroubled
      ⟨"a.mca", Content.empty.resize 81920, false, Surroundings.initial⟩ :=
    ⟨rfl, rfl, Schedule.calm_mild⟩
  have occupied : ∀ place, some ⟨10, 2⟩ = some place → scattered.Occupied place := by
    rintro place ⟨⟩
    exact occupied_scattered
  have found : scattered.bySize.find? (fun extent => (3 : UInt32) ≤ extent.count) = some ⟨7, 3⟩ := by
    decide
  have chosen : Chosen scattered (some ⟨10, 2⟩) (sectorsOf record.size) "a.mca"
      (.ok (⟨7, 3⟩, ⟨20, [⟨4, 2⟩, ⟨12, 3⟩], [⟨4, 2⟩, ⟨12, 3⟩]⟩)) := by
    rw [three]
    refine .taken (by decide) (.carved ?_ (by decide) (scattered_sound.carves found (by decide)))
    rintro place ⟨⟩
    decide
  have ends := place_of_untroubled scattered_sound untroubled occupied record true
  unfold Ends at ends
  split at ends
  · next extent state ran =>
    obtain ⟨next, after⟩ := state
    obtain ⟨taken, lodged⟩ := ends
    cases chosen.unique taken
    have data := lodged.data
    rw [Extent.padded, size] at data
    have length : after.content.size = 20 * sectorSize := lodged.length (Content.size_resize ..)
    exact ⟨_, after, ran, rfl, lodged.occupied _ rfl, data, length⟩
  · next failure state ran => cases chosen.unique ends.1

end FreeSpace
end RegionStore
