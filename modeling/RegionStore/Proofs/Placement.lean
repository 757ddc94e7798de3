import RegionStore.Proofs.Disk.Device
import RegionStore.Proofs.FreeSpace.Allocate
import RegionStore.Proofs.FreeSpace.Release

/-!
What placing a record comes to. The sectors are chosen before anything is written, so a failure is
either a rejection that touches nothing or a write to the chosen sectors that did not get through; in
both cases the free space is the same as before.
-/

set_option autoImplicit false

namespace RegionStore

open Disk

def Extent.padded (extent : Extent) (record : Bytes) : Bytes :=
  record ++ Bytes.zeros (extent.size - record.size)

theorem sectorsOf_le_iff (size count : Nat) : sectorsOf size ≤ count ↔ size ≤ count * sectorSize := by
  rw [sectorsOf, sectorSize]
  omega

theorem sectorsOf_pos {size : Nat} (nonempty : 0 < size) : 0 < sectorsOf size := by
  rw [sectorsOf, sectorSize]
  omega

theorem Extent.size_padded {extent : Extent} {record : Bytes}
    (fits : sectorsOf record.size ≤ extent.count.toNat) :
    (extent.padded record).size = extent.size := by
  have := (sectorsOf_le_iff record.size extent.count.toNat).1 fits
  rw [padded, ByteArray.size_append, Bytes.size_zeros, Extent.size]
  omega

theorem Extent.position_add_size_le (extent : Extent) :
    extent.position + extent.size ≤ maxOffset := by
  have first := extent.first.toNat_lt
  have count := extent.count.toNat_lt
  rw [Extent.position, Extent.size, sectorSize, maxOffset]
  omega

theorem Extent.bounded_padded (extent : Extent) {record : Bytes}
    (fits : sectorsOf record.size ≤ extent.count.toNat) :
    extent.position + (extent.padded record).size ≤ maxOffset := by
  rw [Extent.size_padded fits]
  exact extent.position_add_size_le

namespace FreeSpace

theorem toNat_toUInt32 {count : Nat} (small : count ≤ maxExtentSectors) : count.toUInt32.toNat = count := by
  rw [maxExtentSectors] at small
  exact Nat.mod_eq_of_lt (by omega)

theorem moves_of_absent {old : Option Extent} (absent : old = none) {count : Nat} :
    ∀ place, old = some place → place.count.toNat < count := by
  rintro place same
  cases absent.symm.trans same

/-- Where a record of so many sectors goes, given its old extent, and the free space after that. -/
inductive Target (space : FreeSpace) (old : Option Extent) (count : Nat) (extent : Extent)
    (next : FreeSpace) : Prop where
  | stays (same : old = some extent) (fits : count ≤ extent.count.toNat) (kept : next = space)
  | carved (moves : ∀ place, old = some place → place.count.toNat < count)
    (size : extent.count.toNat = count) (carves : Carves space extent next)
  | appended (moves : ∀ place, old = some place → place.count.toNat < count)
    (size : extent.count.toNat = count) (appends : Appends space extent next)

inductive Rejected (space : FreeSpace) (old : Option Extent) (count : Nat) (path : Bytes) :
    Failure → Prop where
  | large (tooLarge : maxExtentSectors < count) : Rejected space old count path (.recordTooLarge count)
  | full (small : count ≤ maxExtentSectors)
    (moves : ∀ place, old = some place → place.count.toNat < count)
    (beyond : maxSectorIndex < space.sectors.toNat)
    (noRoom : ∀ other ∈ space.byStart, other.count.toNat < count) :
    Rejected space old count path (.regionFull path space.sectors)

/-- The file after a write to an extent that has not got through: some beginning of the data is there,
and sectors that would have been appended may be cut off. -/
structure Spoiled (file : Device) (space : FreeSpace) (extent : Extent) (data : Bytes)
    (after : Device) : Prop where
  continues : file.Continues after
  content : ∃ count ≤ data.size, ∃ between,
    file.Wrote extent.position (data.extract 0 count) between ∧
      (after.content = between.content ∨
        extent.first = space.sectors ∧
          after.content = between.content.resize (space.sectors.toNat * sectorSize))

structure Placed (space : FreeSpace) (file : Device) (old : Option Extent) (record : Bytes)
    (extent : Extent) (next : FreeSpace) (after : Device) : Prop where
  small : sectorsOf record.size ≤ maxExtentSectors
  target : Target space old (sectorsOf record.size) extent next
  wrote : file.Wrote extent.position (extent.padded record) after

inductive Unplaced (space : FreeSpace) (file : Device) (old : Option Extent) (record : Bytes)
    (failure : Failure) (after : Device) : Prop where
  | rejected (same : after = file)
    (why : Rejected space old (sectorsOf record.size) file.path failure)
  | spoiled (troubled : ¬ file.Untroubled) (small : sectorsOf record.size ≤ maxExtentSectors)
    (extent : Extent) (next : FreeSpace) (target : Target space old (sectorsOf record.size) extent next)
    (spoiled : Spoiled file space extent (extent.padded record) after)
    (cut : old ≠ some extent → extent.first = space.sectors → file.full = false →
      file.around.Resizes → after.content.size = space.sectors.toNat * sectorSize)

variable {space : FreeSpace}

theorem Target.fits {old : Option Extent} {count : Nat} {extent : Extent} {next : FreeSpace}
    (target : Target space old count extent next) : count ≤ extent.count.toNat := by
  cases target with
  | stays same fits kept => exact fits
  | carved moves size carves => exact Nat.le_of_eq size.symm
  | appended moves size appends => exact Nat.le_of_eq size.symm

theorem writeRecord_ends (extent : Extent) (record : Bytes) (sync : Bool) (file : Device)
    (fits : sectorsOf record.size ≤ extent.count.toNat) :
    Ends (writeRecord extent record sync) file
      (fun _ after => file.Wrote extent.position (extent.padded record) after)
      fun _ after =>
        (∃ count ≤ (extent.padded record).size,
          file.Wrote extent.position ((extent.padded record).extract 0 count) after) ∧
        ¬ file.Untroubled := by
  have bounded := extent.bounded_padded fits
  simp only [writeRecord, ends_bind]
  refine Ends.mono (Device.writeAt_ends extent.position (extent.padded record) file) ?_ ?_
  · intro _ written wrote
    split
    · refine Ends.mono (Device.sync_ends written) ?_ ?_
      · intro _ after keeps
        exact ⟨wrote.continues.trans keeps.continues, keeps.content ▸ wrote.content⟩
      · rintro _ after ⟨keeps, troubled⟩
        refine ⟨⟨_, Nat.le_refl _, ?_⟩, fun untroubled => troubled (wrote.continues.untroubled untroubled)⟩
        rw [ByteArray.extract_zero_size]
        exact ⟨wrote.continues.trans keeps.continues, keeps.content ▸ wrote.content⟩
    · rw [ends_pure]
      exact wrote
  · rintro _ after ⟨⟨count, short, wrote⟩, troubled⟩
    exact ⟨⟨count, Nat.le_of_lt short, wrote⟩, troubled bounded⟩

/-- Undoing does not fail; at worst the appended sectors stay in the file. -/
theorem rollBack_ends (allocation : Allocation) (space : FreeSpace) (file : Device) :
    Ends (rollBack allocation) (space, file)
      (fun _ state => file.Continues state.2 ∧
        if allocation.appended then
          state.1 = { space with sectors := allocation.extent.first } ∧
            (state.2.content = file.content.resize (allocation.extent.first.toNat * sectorSize) ∨
              state.2.content = file.content ∧ (file.full = false → ¬ file.around.Resizes))
        else state.1 = space.release allocation.extent ∧ state.2.content = file.content)
      fun _ _ => False := by
  unfold rollBack
  split
  · simp only [ends_bind, ends_modify]
    refine (ends_device _ _ file _ _).2 ?_
    have cut := Device.resize_ends (allocation.extent.first.toNat * sectorSize) file
    unfold Ends at cut ⊢
    dsimp only
    cases ran : Device.resize (allocation.extent.first.toNat * sectorSize) file with
    | ok result after =>
      rw [ran] at cut
      exact ⟨cut.1, rfl, .inl cut.2⟩
    | error failure after =>
      rw [ran] at cut
      have noted := Device.keeps_notify (.tailNotCut failure) after
      have first := allocation.extent.first.toNat_lt
      have bounded : allocation.extent.first.toNat * sectorSize ≤ maxOffset := by
        rw [sectorSize, maxOffset]
        omega
      exact ⟨cut.1.continues.trans noted.continues, rfl,
        .inr ⟨noted.content.trans cut.1.content, cut.2 bounded⟩⟩
  · rw [ends_modify]
    exact ⟨Device.Continues.refl file, rfl, rfl⟩

theorem Carves.first_ne (sound : space.Sound) {extent : Extent} {next : FreeSpace}
    (carves : Carves space extent next) : extent.first ≠ space.sectors := by
  obtain ⟨whole, member, first, _⟩ := carves.fits
  have inside := sound.inside whole member
  have within := inside.within
  have nonempty := inside.nonempty
  rw [Extent.behind_def] at within
  rw [← first]
  intro behind
  rw [behind] at within
  omega

/-- Releasing what an allocation has carved brings the free space back. -/
theorem Carves.release (sound : space.Sound) {extent : Extent} {next : FreeSpace}
    (carves : Carves space extent next) : next.release extent = space := by
  obtain ⟨whole, member, first, count, _⟩ := carves.fits
  have insideWhole := sound.inside whole member
  by_cases empty : extent.count = 0
  · rw [FreeSpace.release, if_pos empty]
    refine carves.sound.eq_of_free_iff sound carves.sectors fun sector => ?_
    have nothing : ¬ extent.Holds sector := by
      rw [Extent.Holds, Extent.behind_def, empty, UInt32.toNat_zero]
      omega
    rw [carves.free, and_iff_left nothing]
  · have positive : 0 < extent.count.toNat := by
      apply Nat.pos_of_ne_zero
      exact fun zero => empty (UInt32.toNat_inj.1 zero)
    have within := insideWhole.within
    have inside : extent.Inside next.sectors.toNat := by
      rw [Extent.behind_def] at within
      rw [carves.sectors]
      exact ⟨first ▸ insideWhole.behindHeader, positive, by rw [Extent.behind_def, ← first]; omega⟩
    obtain ⟨sound', sectors, free⟩ :=
      carves.sound.release inside fun sector holds free => ((carves.free sector).1 free).2 holds
    refine sound'.eq_of_free_iff sound (sectors.trans carves.sectors) fun sector => ?_
    rw [free, carves.free]
    by_cases holds : extent.Holds sector
    · simp only [holds, carves.holds_free holds, true_or]
    · simp only [holds, not_false_eq_true, and_true, false_or]

/-- Once sectors have been chosen for a record, writing it decides. -/
theorem ends_placeAnew {record : Bytes} {count : UInt32} {sync : Bool} {file : Device}
    {allocation : Allocation} {next : FreeSpace} {done : Extent → FreeSpace × Device → Prop}
    {failed : Failure → FreeSpace × Device → Prop}
    (found : space.allocate? count = some (allocation, next)) :
    Ends (placeAnew record count sync) (space, file) done failed ↔
      Ends (writeRecord allocation.extent record sync) file
        (fun _ after => done allocation.extent (next, after))
        fun failure after => Ends (rollBack allocation) (next, after)
          (fun _ state => failed failure state) failed := by
  unfold placeAnew
  simp only [ends_bind, ends_get, found, ends_set, ends_tryCatch, ends_device, ends_throw]
  rfl

theorem placeAnew_ends (sound : space.Sound) (file : Device) {record : Bytes} {old : Option Extent}
    (small : sectorsOf record.size ≤ maxExtentSectors)
    (moves : ∀ place, old = some place → place.count.toNat < sectorsOf record.size) (sync : Bool) :
    Ends (placeAnew record (sectorsOf record.size).toUInt32 sync) (space, file)
      (fun extent state => Placed space file old record extent state.1 state.2)
      fun failure state => state.1 = space ∧ Unplaced space file old record failure state.2 := by
  have word := toNat_toUInt32 small
  rcases sound.allocate?_cases (sectorsOf record.size).toUInt32 with
    ⟨extent, next, found, size, carves⟩ | ⟨extent, next, found, size, appends⟩ | ⟨found, beyond, noRoom⟩
  · have target := Target.carved moves ((congrArg UInt32.toNat size).trans word) carves
    rw [ends_placeAnew found]
    refine Ends.mono (writeRecord_ends extent record sync file target.fits) ?_ ?_
    · exact fun _ after wrote => ⟨small, target, wrote⟩
    · rintro _ after ⟨⟨written, short, wrote⟩, troubled⟩
      refine Ends.mono (rollBack_ends ⟨extent, false⟩ next after) ?_ fun _ _ => False.elim
      rintro _ state ⟨continues, released, content⟩
      refine ⟨released.trans (carves.release sound), .spoiled troubled small extent next target
        ⟨wrote.continues.trans continues, written, short, after, wrote, .inl content⟩ ?_⟩
      exact fun _ behind => absurd behind (carves.first_ne sound)
  · have target := Target.appended moves ((congrArg UInt32.toNat size).trans word) appends
    rw [ends_placeAnew found]
    refine Ends.mono (writeRecord_ends extent record sync file target.fits) ?_ ?_
    · exact fun _ after wrote => ⟨small, target, wrote⟩
    · rintro _ after ⟨⟨written, short, wrote⟩, troubled⟩
      refine Ends.mono (rollBack_ends ⟨extent, true⟩ next after) ?_ fun _ _ => False.elim
      rintro _ state ⟨continues, cut, content⟩
      have back : state.1 = space := by rw [cut, appends.next, appends.first]
      rw [show (⟨extent, true⟩ : Allocation).extent.first = space.sectors from appends.first] at content
      refine ⟨back, .spoiled troubled small extent next target
        ⟨wrote.continues.trans continues, written, short, after, wrote, ?_⟩ ?_⟩
      · exact content.symm.imp And.left fun resized => ⟨appends.first, resized⟩
      · intro _ _ isFile resizes
        rcases content with resized | ⟨_, refused⟩
        · rw [resized, Content.size_resize]
        · exact absurd (wrote.continues.resizes resizes) (refused (wrote.continues.full.trans isFile))
  · unfold placeAnew
    simp only [ends_bind, ends_get, found, ends_throw]
    rw [word] at noRoom
    exact ⟨trivial, .rejected rfl (.full small moves beyond noRoom)⟩

theorem ends_place_of_moving {record : Bytes} {old : Option Extent} {sync : Bool} {file : Device}
    {done : Extent → FreeSpace × Device → Prop} {failed : Failure → FreeSpace × Device → Prop}
    (small : sectorsOf record.size ≤ maxExtentSectors)
    (moves : ∀ place, old = some place → place.count.toNat < sectorsOf record.size) :
    Ends (place record old sync) (space, file) done failed ↔
      Ends (placeAnew record (sectorsOf record.size).toUInt32 sync) (space, file) done failed := by
  unfold place
  simp only [if_neg (Nat.not_lt_of_le small)]
  cases old with
  | none => rfl
  | some extent => simp only [if_neg (Nat.not_le_of_lt (moves extent rfl))]

theorem ends_place_of_staying {record : Bytes} {extent : Extent} {sync : Bool} {file : Device}
    {done : Extent → FreeSpace × Device → Prop} {failed : Failure → FreeSpace × Device → Prop}
    (small : sectorsOf record.size ≤ maxExtentSectors)
    (fits : sectorsOf record.size ≤ extent.count.toNat) :
    Ends (place record (some extent) sync) (space, file) done failed ↔
      Ends (writeRecord extent record sync) file (fun _ after => done extent (space, after))
        fun failure after => failed failure (space, after) := by
  unfold place
  simp only [if_neg (Nat.not_lt_of_le small), if_pos fits, ends_bind, ends_device, ends_pure]

/-- How placing a record ends, under any schedule. -/
theorem place_ends (sound : space.Sound) (file : Device) (record : Bytes) (old : Option Extent)
    (sync : Bool) :
    Ends (place record old sync) (space, file)
      (fun extent state => Placed space file old record extent state.1 state.2)
      fun failure state => state.1 = space ∧ Unplaced space file old record failure state.2 := by
  by_cases large : maxExtentSectors < sectorsOf record.size
  · unfold place
    simp only [if_pos large, ends_bind, ends_throw]
    exact ⟨trivial, .rejected rfl (.large large)⟩
  · have small := Nat.le_of_not_lt large
    have anew (moves : ∀ place, old = some place → place.count.toNat < sectorsOf record.size) :
        Ends (place record old sync) (space, file)
          (fun extent state => Placed space file old record extent state.1 state.2)
          fun failure state => state.1 = space ∧ Unplaced space file old record failure state.2 := by
      rw [ends_place_of_moving small moves]
      exact placeAnew_ends sound file small moves sync
    cases old with
    | none => exact anew (moves_of_absent rfl)
    | some extent =>
      by_cases fits : sectorsOf record.size ≤ extent.count.toNat
      · have target := Target.stays (rfl : some extent = _) fits (rfl : space = _)
        rw [ends_place_of_staying small fits]
        refine Ends.mono (writeRecord_ends extent record sync file fits) ?_ ?_
        · exact fun _ after wrote => ⟨small, target, wrote⟩
        · rintro _ after ⟨⟨written, short, wrote⟩, troubled⟩
          exact ⟨rfl, .spoiled troubled small extent space target
            ⟨wrote.continues, written, short, after, wrote, .inl rfl⟩ fun moves => absurd rfl moves⟩
      · apply anew
        rintro place same
        cases same
        exact Nat.lt_of_not_le fits

/-- Where a record of so many sectors goes, also in a free space that is not in order: it stays in an
extent that is large enough, or it goes to the front of the first free extent by size that is, or behind
the end of the file if there is none. -/
inductive Goes (space : FreeSpace) (old : Option Extent) (count : Nat) (extent : Extent) : Prop where
  | stays (same : old = some extent) (fits : count ≤ extent.count.toNat)
  | front (moves : ∀ place, old = some place → place.count.toNat < count)
    (size : extent.count.toNat = count) (whole : Extent)
    (found : space.bySize.find? (fun free => extent.count ≤ free.count) = some whole)
    (first : extent.first = whole.first)
  | behind (moves : ∀ place, old = some place → place.count.toNat < count)
    (size : extent.count.toNat = count)
    (noRoom : space.bySize.find? (fun free => extent.count ≤ free.count) = none)
    (first : extent.first = space.sectors) (addressable : space.sectors.toNat ≤ maxSectorIndex)

inductive Declined (space : FreeSpace) (old : Option Extent) (count : Nat) (path : Bytes) :
    Failure → Prop where
  | large (tooLarge : maxExtentSectors < count) : Declined space old count path (.recordTooLarge count)
  | full (small : count ≤ maxExtentSectors)
    (moves : ∀ place, old = some place → place.count.toNat < count)
    (noRoom : space.bySize.find? (fun free => count.toUInt32 ≤ free.count) = none)
    (beyond : maxSectorIndex < space.sectors.toNat) :
    Declined space old count path (.regionFull path space.sectors)

theorem Goes.fits {old : Option Extent} {count : Nat} {extent : Extent}
    (goes : Goes space old count extent) : count ≤ extent.count.toNat := by
  cases goes with
  | stays same fits => exact fits
  | front moves size whole found first => exact Nat.le_of_eq size.symm
  | behind moves size noRoom first addressable => exact Nat.le_of_eq size.symm

structure Written (space : FreeSpace) (file : Device) (old : Option Extent) (record : Bytes)
    (extent : Extent) (after : Device) : Prop where
  small : sectorsOf record.size ≤ maxExtentSectors
  goes : Goes space old (sectorsOf record.size) extent
  wrote : file.Wrote extent.position (extent.padded record) after

/-- The file is still the same one; it is untouched, and so is the free space, if no call has failed. -/
structure Unwritten (space : FreeSpace) (file : Device) (old : Option Extent) (record : Bytes)
    (failure : Failure) (state : FreeSpace × Device) : Prop where
  continues : file.Continues state.2
  why : file.Untroubled →
    state = (space, file) ∧ Declined space old (sectorsOf record.size) file.path failure

theorem placeAnew_goes (space : FreeSpace) (file : Device) {record : Bytes} {old : Option Extent}
    (small : sectorsOf record.size ≤ maxExtentSectors)
    (moves : ∀ place, old = some place → place.count.toNat < sectorsOf record.size) (sync : Bool) :
    Ends (placeAnew record (sectorsOf record.size).toUInt32 sync) (space, file)
      (fun extent state => Written space file old record extent state.2)
      fun failure state => Unwritten space file old record failure state := by
  have size := toNat_toUInt32 small
  generalize word : (sectorsOf record.size).toUInt32 = count at size ⊢
  have chosen {first : UInt32} {appended : Bool} {next : FreeSpace}
      (found : space.allocate? count = some (⟨⟨first, count⟩, appended⟩, next))
      (goes : Goes space old (sectorsOf record.size) ⟨first, count⟩) :
      Ends (placeAnew record count sync) (space, file)
        (fun extent state => Written space file old record extent state.2)
        fun failure state => Unwritten space file old record failure state := by
    rw [ends_placeAnew found]
    refine Ends.mono (writeRecord_ends ⟨first, count⟩ record sync file goes.fits) ?_ ?_
    · exact fun _ after wrote => ⟨small, goes, wrote⟩
    · rintro _ after ⟨⟨_, _, wrote⟩, troubled⟩
      refine Ends.mono (rollBack_ends ⟨⟨first, count⟩, appended⟩ next after) ?_ fun _ _ => False.elim
      exact fun _ state back =>
        ⟨wrote.continues.trans back.1, fun untroubled => absurd untroubled troubled⟩
  cases found : space.bySize.find? fun free => count ≤ free.count with
  | some whole =>
    obtain ⟨next, allocated⟩ := allocate?_of_found found
    exact chosen allocated (.front moves size whole found rfl)
  | none =>
    have allocated := allocate?_of_noRoom found
    by_cases beyond : maxSectorIndex < space.sectors.toNat
    · rw [if_pos beyond] at allocated
      unfold placeAnew
      simp only [ends_bind, ends_get, allocated, ends_throw]
      exact ⟨Device.Continues.refl file, fun _ => ⟨rfl, .full small moves (word ▸ found) beyond⟩⟩
    · rw [if_neg beyond] at allocated
      exact chosen allocated (.behind moves size found rfl (Nat.le_of_not_lt beyond))

/-- How placing a record ends, under any schedule and in any free space. -/
theorem place_goes (space : FreeSpace) (file : Device) (record : Bytes) (old : Option Extent)
    (sync : Bool) :
    Ends (place record old sync) (space, file)
      (fun extent state => Written space file old record extent state.2)
      fun failure state => Unwritten space file old record failure state := by
  by_cases large : maxExtentSectors < sectorsOf record.size
  · unfold place
    simp only [if_pos large, ends_bind, ends_throw]
    exact ⟨Device.Continues.refl file, fun _ => ⟨rfl, .large large⟩⟩
  · have small := Nat.le_of_not_lt large
    by_cases moves : ∀ place, old = some place → place.count.toNat < sectorsOf record.size
    · rw [ends_place_of_moving small moves]
      exact placeAnew_goes space file small moves sync
    · cases old with
      | none => exact absurd (moves_of_absent rfl) moves
      | some extent =>
        have fits : sectorsOf record.size ≤ extent.count.toNat := by
          apply Nat.le_of_not_lt
          exact fun short => moves fun place same => Option.some.inj same ▸ short
        rw [ends_place_of_staying small fits]
        refine Ends.mono (writeRecord_ends extent record sync file fits) ?_ ?_
        · exact fun _ after wrote => ⟨small, .stays rfl fits, wrote⟩
        · rintro _ after ⟨⟨_, _, wrote⟩, troubled⟩
          exact ⟨wrote.continues, fun untroubled => absurd untroubled troubled⟩

end FreeSpace
end RegionStore
