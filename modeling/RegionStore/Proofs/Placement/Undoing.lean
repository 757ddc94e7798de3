import RegionStore.Proofs.Disk.Order
import RegionStore.Proofs.Disk.Turns
import RegionStore.Proofs.Placement.Choice

/-!
What is left when a record could not be placed. The free space is the same as before in every case, so the
next attempt chooses the same sectors. Sectors that were appended are cut off last of all; if that is
refused, they stay in the file, but not in the free space.
-/

set_option autoImplicit false

namespace RegionStore

open Disk

/-- The newest call was to cut the file to the given length; unless it was refused, the file is so long. -/
def Disk.Device.CutTo (file : Device) (length : Nat) : Prop :=
  ∃ refusal, file.around.events.head? = some (.resized length refusal) ∧
    (refusal = none → file.content.size = length)

namespace FreeSpace

variable {space : FreeSpace}

theorem rollBack_cuts (extent : Extent) (space : FreeSpace) (file : Device) :
    Ends (rollBack ⟨extent, true⟩) (space, file)
      (fun _ state => state.2.CutTo (extent.first.toNat * sectorSize)) fun _ _ => False := by
  unfold rollBack
  simp only [if_true, ends_bind, ends_modify]
  refine (ends_device _ _ file _ _).2 ?_
  have cut := Device.resize_newest (extent.first.toNat * sectorSize) file
  unfold Ends at cut ⊢
  dsimp only
  cases ran : Device.resize (extent.first.toNat * sectorSize) file with
  | ok result after =>
    rw [ran] at cut
    exact ⟨none, cut.1, fun _ => cut.2⟩
  | error failure after =>
    rw [ran] at cut
    obtain ⟨reason, newest⟩ := cut
    refine ⟨some reason, newest, ?_⟩
    rintro ⟨⟩

structure Appending (space : FreeSpace) (old : Option Extent) (count : Nat) : Prop where
  small : count ≤ maxExtentSectors
  moves : ∀ place, old = some place → place.count.toNat < count
  noRoom : ∀ other ∈ space.byStart, other.count.toNat < count
  addressable : space.sectors.toNat ≤ maxSectorIndex

/-- If writing the appended sectors fails, the last thing done is to cut the file where they start. -/
theorem place_cuts (sound : space.Sound) (file : Device) {record : Bytes} {old : Option Extent}
    (sync : Bool) (appending : space.Appending old (sectorsOf record.size)) :
    Ends (place record old sync) (space, file) (fun _ _ => True)
      fun _ state => state.2.CutTo (space.sectors.toNat * sectorSize) := by
  have noRoom := appending.noRoom
  rw [← toNat_toUInt32 appending.small] at noRoom
  rw [ends_place_of_moving appending.small appending.moves,
    ends_placeAnew (sound.allocate?_of_noRoom noRoom appending.addressable)]
  refine (ends_somehow _ _).mono (fun _ _ => id) fun _ after _ => ?_
  exact (rollBack_cuts ⟨space.sectors, (sectorsOf record.size).toUInt32⟩ _ after).mono
    (fun _ _ => id) fun _ _ => False.elim

theorem exists_chosen (sound : space.Sound) {file : Device} (untroubled : file.Untroubled)
    (record : Bytes) (old : Option Extent) (sync : Bool) :
    ∃ choice, Chosen space old (sectorsOf record.size) file.path choice ∧
      outcome (place record old sync) (space, file) = choice.map Prod.fst := by
  have ends := place_chosen sound untroubled record old sync
  unfold Ends at ends
  unfold outcome
  cases ran : place record old sync (space, file) with
  | ok extent state =>
    rw [ran] at ends
    exact ⟨_, ends.1, rfl⟩
  | error failure state =>
    rw [ran] at ends
    exact ⟨_, ends.1, rfl⟩

theorem outcome_place_congr (sound : space.Sound) {file other : Device} (untroubled : file.Untroubled)
    (untroubled' : other.Untroubled) (path : file.path = other.path) (record : Bytes)
    (old : Option Extent) (sync : Bool) :
    outcome (place record old sync) (space, file) = outcome (place record old sync) (space, other) := by
  obtain ⟨choice, chosen, same⟩ := exists_chosen sound untroubled record old sync
  obtain ⟨choice', chosen', same'⟩ := exists_chosen sound untroubled' record old sync
  rw [path] at chosen
  rw [same, same', chosen.unique chosen']

/-- A record that could not be placed, whatever has failed. The free space is as before. Placing it again in
surroundings where nothing fails has the outcome that the first attempt would have had in such surroundings.
If its sectors were to be appended, the last call was to cut the file behind the sectors from before. -/
theorem place_undone (sound : space.Sound) (file : Device) (record : Bytes) (old : Option Extent)
    (sync : Bool) :
    Ends (place record old sync) (space, file) (fun _ _ => True) fun _ state =>
      state.1 = space ∧
        (∀ again calm : Surroundings, { state.2 with around := again }.Untroubled →
          { file with around := calm }.Untroubled →
            outcome (place record old sync) (state.1, { state.2 with around := again }) =
              outcome (place record old sync) (space, { file with around := calm })) ∧
        (space.Appending old (sectorsOf record.size) →
          state.2.CutTo (state.1.sectors.toNat * sectorSize)) := by
  have cuts : Ends (place record old sync) (space, file) (fun _ _ => True) fun _ state =>
      space.Appending old (sectorsOf record.size) →
        state.2.CutTo (space.sectors.toNat * sectorSize) := by
    by_cases appending : space.Appending old (sectorsOf record.size)
    · exact (place_cuts sound file sync appending).mono (fun _ _ => id) fun _ _ cut _ => cut
    · exact (ends_somehow _ _).mono (fun _ _ => id) fun _ _ _ now => absurd now appending
  have ends := (place_ends sound file record old sync).and (place_goes space file record old sync)
  refine (ends.and cuts).mono (fun _ _ _ => trivial) ?_
  rintro failure ⟨next, after⟩ ⟨⟨⟨same, _⟩, unwritten⟩, cut⟩
  obtain rfl : next = space := same
  refine ⟨rfl, fun again calm untroubled untroubled' => ?_, cut⟩
  exact outcome_place_congr sound untroubled untroubled' unwritten.continues.path record old sync

/-- A record of four sectors that no free extent has room for; its write stops behind a hundred bytes. -/
theorem place_undone_short :
    let broken : Surroundings := { Surroundings.initial with schedule :=
      { Schedule.calm with writing := [⟨.short 100, 1⟩, ⟨.refused ⟨5⟩, 1⟩] } }
    ∃ failure after,
      place ⟨Array.replicate 16000 1⟩ (some ⟨10, 2⟩) false
          (scattered, ⟨"a.mca", Content.empty.resize 81920, false, broken⟩) =
        .error failure (scattered, after) ∧
      after.CutTo 81920 ∧
      outcome (place ⟨Array.replicate 16000 1⟩ (some ⟨10, 2⟩) false)
        (scattered, { after with around := Surroundings.initial }) = .ok ⟨20, 4⟩ := by
  intro broken
  generalize whole : (⟨Array.replicate 16000 1⟩ : Bytes) = record
  have size : record.size = 16000 := by
    rw [← whole]
    exact Array.size_replicate
  have four : sectorsOf record.size = 4 := by rw [size]; decide
  have appending : scattered.Appending (some ⟨10, 2⟩) (sectorsOf record.size) := by
    rw [four]
    refine ⟨by decide, ?_, by decide, by decide⟩
    rintro place ⟨⟩
    decide
  have appends : Appends scattered ⟨20, 4⟩ ⟨24, scattered.byStart, scattered.bySize⟩ :=
    ⟨rfl, by decide, by decide, rfl⟩
  have target : Target scattered (some ⟨10, 2⟩) (sectorsOf record.size) ⟨20, 4⟩ _ :=
    .appended appending.moves four.symm appends
  have fails : Ends (place record (some ⟨10, 2⟩) false)
      (scattered, ⟨"a.mca", Content.empty.resize 81920, false, broken⟩) (fun _ _ => False)
      fun _ _ => True := by
    have cut : (broken.turns .writing).Cut 100 := ⟨by decide, _, _, _, rfl, rfl, by decide⟩
    have longer : 100 < (Extent.padded ⟨20, 4⟩ record).size := by
      rw [Extent.size_padded target.fits]
      decide
    have noRoom := appending.noRoom
    rw [← toNat_toUInt32 appending.small] at noRoom
    rw [ends_place_of_moving appending.small appending.moves,
      ends_placeAnew (scattered_sound.allocate?_of_noRoom noRoom appending.addressable), four]
    simp only [writeRecord, ends_bind]
    refine Ends.mono (Device.writeAt_of_cut rfl rfl (Extent.bounded_padded ⟨20, 4⟩ target.fits) cut longer)
      (fun _ _ => False.elim) fun _ after _ => ends_somehow _ _
  obtain ⟨failure, ⟨left, after⟩, ran, _⟩ := fails.exists_error
  obtain ⟨kept, repeats, tail⟩ := (ends_of_eq_error ran).1 (place_undone scattered_sound _ record _ false)
  obtain rfl : left = scattered := kept
  have isFile : after.full = false :=
    ((ends_of_eq_error ran).1 (place_goes scattered _ record _ false)).continues.full
  have cut : after.CutTo (20 * sectorSize) := tail appending
  refine ⟨failure, after, ran, cut, ?_⟩
  rw [repeats Surroundings.initial Surroundings.initial ⟨isFile, rfl, Schedule.calm_mild⟩
    ⟨rfl, rfl, Schedule.calm_mild⟩]
  obtain ⟨choice, chosen, same⟩ := exists_chosen scattered_sound
    (show Device.Untroubled ⟨"a.mca", Content.empty.resize 81920, false, Surroundings.initial⟩ from
      ⟨rfl, rfl, Schedule.calm_mild⟩) record (some ⟨10, 2⟩) false
  rw [chosen.unique (.taken appending.small target)] at same
  exact same

end FreeSpace
end RegionStore
