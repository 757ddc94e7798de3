import RegionStore.Proofs.Host.Opening
import RegionStore.Proofs.Host.Stock
import RegionStore.Proofs.Region.Reopen
import RegionStore.Proofs.Region.Run
import RegionStore.Proofs.Region.Warnings

/-!
Opening a region file that may contain anything. Without failing calls it depends on the size of the file
alone whether it can be opened. Of the entries in its tables those are kept that can be used, the others
are told, and nothing is written to a file that is not empty.
-/

set_option autoImplicit false

namespace RegionStore

open Disk

theorem Region.Loaded.admissible {position : RegionPos} {sync : Bool} {file after : Device}
    {region : Region} (loaded : Loaded position sync file region after) :
    Admissible file.content.size := by
  have content := loaded.prepared.content
  split at content
  · next empty => exact .inl empty
  · have header := loaded.prepared.header
    have short := loaded.prepared.short
    rw [Extent.headerSectors_toNat] at header
    rw [← content, loaded.prepared.size]
    refine .inr ⟨Nat.mul_mod_left _ _, ?_, Nat.mul_le_mul_right _ short⟩
    exact Nat.mul_le_mul_right sectorSize header

theorem Region.Loaded.keeps {position : RegionPos} {sync : Bool} {file after : Device} {region : Region}
    (loaded : Loaded position sync file region after) :
    (stored after.content).Keeps region.space.sectors.toNat slotCount region.tables := by
  have keeps := (Tables.surveyed_survey (stored after.content) region.space.sectors).keeps
  rwa [← loaded.tables] at keeps

theorem Region.Loaded.accounted {position : RegionPos} {sync : Bool} {file after : Device}
    {region : Region} (loaded : Loaded position sync file region after) : Accounted region after :=
  (loaded.intact (Nat.le_refl _)).accounted

namespace Host

/-- What opening the file at a path has come to: a region with the entries that can be used. -/
structure Admitted (path : Bytes) (file : Nat) (position : RegionPos) (host : Host) (region : Region)
    (after : Host) : Prop where
  own : region.position = position
  length : (after.content file).size = region.space.sectors.toNat * sectorSize
  keeps : (Region.stored (after.content file)).Keeps region.space.sectors.toNat slotCount region.tables
  timestamps : ∀ slot : Slot, region.tables.offsets.get slot ≠ 0 →
    (Region.stored (after.content file)).timestamps.get slot = region.tables.timestamps.get slot
  shows : ∀ slot : Slot, region.findExtent slot = .ok (region.tables.extent? slot)
  absent : ∀ chunk : ChunkPos, chunk.regionOf = position → region.tables.extent? chunk.slotOf = none →
    region.hasChunk chunk = .ok false ∧ region.timestamp? chunk = .ok none
  accounted : Region.Accounted region (after.device ⟨path, some file⟩)
  notices : after.around.notices = Region.openingNotices (host.device ⟨path, some file⟩) position
    (Region.stored (after.content file)) region ++ host.around.notices
  created : (host.content file).size = 0 →
    (after.content file).Same ((host.content file).write 0 (Bytes.zeros headerSize))
  spared : (host.content file).size ≠ 0 →
    after.content file = host.content file ∧ after.around.events = host.around.events

section
variable {path : Bytes} {file : Nat} {position : RegionPos} {sync : Bool} {host : Host}

def opening (host : Host) (path : Bytes) (file : Nat) : Device :=
  device { host with around := host.afterOpening } ⟨path, some file⟩

theorem Leads.atOpening (leads : host.Leads path file) :
    Leads { host with around := host.afterOpening } path file := ⟨leads.place, leads.inside⟩

theorem Admitted.of_loaded {after : Host} {region : Region} {last : Device}
    (same : after.device ⟨path, some file⟩ = last)
    (loaded : Region.Loaded position sync (host.opening path file) region last)
    (told : last.around.notices =
      Region.openingNotices (host.opening path file) position (Region.stored last.content) region ++
        (host.opening path file).around.notices)
    (spares : Region.Spares (host.opening path file) last) :
    Admitted path file position host region after := by
  subst same
  refine ⟨loaded.position, loaded.prepared.size, loaded.keeps, loaded.faithful.timestamps,
    fun slot => by simp [Region.findExtent], ?_, loaded.accounted, told, fun empty => ?_,
    fun nonempty => ⟨loaded.content_eq nonempty, ?_⟩⟩
  · intro chunk own absent
    have slot := Region.slot_eq_ok_iff.2 ⟨own.trans loaded.position.symm, rfl⟩
    constructor
    · rw [Region.hasChunk_of_slot slot, absent]
      rfl
    · rw [Region.timestamp?, slot]
      exact congrArg Except.ok (Tables.timestamp?_eq_none_iff.2 absent)
  · have content := loaded.prepared.content
    have blank : (host.opening path file).content.size = 0 := empty
    rwa [if_pos blank] at content
  · exact (spares nonempty).log

theorem close_spares (leads : host.Leads path file) {refused : Device}
    (silent : (host.opening path file).Silent refused) :
    Ends (onDevice ⟨path, some file⟩ Device.close)
      (keep { host with around := host.afterOpening } ⟨path, some file⟩ refused)
      (fun _ after => after.content file = host.content file ∧ after.around.events = host.around.events)
      fun _ _ => False := by
  have opened := leads.atOpening
  have kept := opened.keep ⟨path, some file⟩ refused
  rw [ends_onDevice]
  refine Ends.mono ((Device.close_silent _).and (Device.close_ends _)) ?_ fun _ _ failed => failed.2
  rintro _ closed ⟨silentClosed, _⟩
  constructor
  · have left := content_keep opened.inside path refused file
    rw [if_pos rfl, silent.content] at left
    rw [content_keep kept.inside, if_pos rfl, silentClosed.content]
    exact left
  · exact silentClosed.log.trans silent.log

end

section
variable {host : Host} {path : Bytes} {file : Nat} (untroubled : host.around.Untroubled)
  (leads : host.Leads path file) (position : RegionPos) (sync : Bool)
include untroubled leads

theorem openRegion_ends :
    Ends (openRegion path position sync) host
      (fun number after => Region.Admissible (host.content file).size ∧ ∃ region,
        after.region? number = some ⟨region, ⟨path, some file⟩, 1⟩ ∧
        Admitted path file position host region after)
      fun _ after => ¬ Region.Admissible (host.content file).size ∧
        after.content file = host.content file ∧ after.around.events = host.around.events := by
  unfold openRegion
  rw [ends_bind, ends_of_eq_ok (openFile_of_leads untroubled leads), ends_tryCatch, ends_bind,
    ends_onDevice]
  have calm : (host.opening path file).Untroubled := ⟨rfl, untroubled_afterOpening untroubled⟩
  refine Ends.mono ((Region.load_ends position sync (host.opening path file) rfl).and
    (Region.load_tells position sync rfl)) ?_ ?_
  · rintro region last ⟨loaded, told, spares⟩
    have same : (keep { host with around := host.afterOpening } ⟨path, some file⟩ last).device
        ⟨path, some file⟩ = last := device_keep leads.atOpening.inside loaded.prepared.continues
    exact ⟨loaded.admissible, region, region?_setRegion _ _ _, .of_loaded same loaded told spares⟩
  · rintro failure refused ⟨why, spares⟩
    have inadmissible := why.resolve_left (not_not_intro calm)
    have nonempty : (host.content file).size ≠ 0 := fun empty => inadmissible (.inl empty)
    rw [ends_bind]
    refine Ends.mono (close_spares leads (spares nonempty)) ?_ fun _ _ => False.elim
    exact fun _ _ closed => ⟨inadmissible, closed⟩

/-- Opening a file in which anything may be, when no call fails. It works exactly if the size of the file is
admissible; then the entries that can be used are kept, and the others are told. -/
theorem openRegion_iff_admissible :
    ((∃ number after, openRegion path position sync host = .ok number after) ↔
        Region.Admissible (host.content file).size) ∧
      (∀ number after, openRegion path position sync host = .ok number after → ∃ region,
        after.region? number = some ⟨region, ⟨path, some file⟩, 1⟩ ∧
          Admitted path file position host region after) ∧
      ∀ failure after, openRegion path position sync host = .error failure after →
        after.content file = host.content file ∧ after.around.events = host.around.events := by
  have ends := openRegion_ends untroubled leads position sync
  cases ran : openRegion path position sync host with
  | ok number after =>
    obtain ⟨admissible, opened⟩ := (ends_of_eq_ok ran).1 ends
    refine ⟨iff_of_true ⟨number, after, rfl⟩ admissible, ?_, nofun⟩
    rintro _ _ ⟨⟩
    exact opened
  | error failure after =>
    obtain ⟨inadmissible, spared⟩ := (ends_of_eq_error ran).1 ends
    refine ⟨iff_of_false ?_ inadmissible, nofun, ?_⟩
    · rintro ⟨_, _, ⟨⟩⟩
    · rintro _ _ ⟨⟩
      exact spared

end

/-- A file of three sectors in which two slots have the same extent. -/
theorem openRegion_iff_admissible_shared :
    let place : Tree.Place := ⟨Tree.home, "r.0.0.mca", false⟩
    let content := (Content.empty.resize 12288).write 0 (Bytes.ofWord 0x201 ++ Bytes.ofWord 0x201)
    let host := { Host.initial.withFile place with contents := #[content] }
    ∃ number after region, openRegion "r.0.0.mca" ⟨0, 0⟩ true host = .ok number after ∧
      after.region? number = some ⟨region, ⟨"r.0.0.mca", some 0⟩, 1⟩ ∧
      Admitted "r.0.0.mca" 0 ⟨0, 0⟩ host region after := by
  intro place content host
  have vacant : Tree.initial.filePlace "r.0.0.mca" = .ok (place, none) := rfl
  have inside := Tree.sound_initial.of_locate (Tree.locate_of_filePlace vacant)
  have leads : host.Leads "r.0.0.mca" 0 := ⟨⟨place, Tree.filePlace_put inside vacant 0⟩, by decide⟩
  have admissible : Region.Admissible (host.content 0).size := by decide
  obtain ⟨opens, kept, _⟩ :=
    openRegion_iff_admissible ⟨rfl, Schedule.calm_mild⟩ leads ⟨0, 0⟩ true
  obtain ⟨number, after, ran⟩ := opens.2 admissible
  obtain ⟨region, found, admitted⟩ := kept number after ran
  exact ⟨number, after, region, ran, found, admitted⟩

end Host
end RegionStore
