import RegionStore.Proofs.Region.History

/-!
Closing a region and opening its file again, after whatever calls have failed before. The file can be
opened exactly if it ends with a whole sector, and it has the chunks of the live region exactly if its
words bring them back.
-/

set_option autoImplicit false

namespace RegionStore.Region

open Disk

/-- Two open regions with the same chunks; they may differ in what is free. -/
structure SameChunks [Codec] (again live : Region × Device) : Prop where
  extents : ∀ slot, again.1.tables.extent? slot = live.1.tables.extent? slot
  timestamps : ∀ slot, again.1.tables.timestamp? slot = live.1.tables.timestamp? slot
  loads : ∀ chunk, outcome (loadChunk chunk) again = outcome (loadChunk chunk) live

section
variable {position : RegionPos} {live again : Region} {file closed opened : Device} {sync : Bool}
  (compact : Compact position live file)
include compact

theorem Compact.opens_iff (untroubled : file.Untroubled) (sync : Bool) :
    (∃ again opened, load position sync file = .ok again opened) ↔
      file.content.size % sectorSize = 0 := by
  constructor
  · rintro ⟨again, opened, ran⟩
    have loaded := loaded_of_load compact.isFile ran
    rw [← compact.content_eq loaded, loaded.prepared.size]
    exact Nat.mul_mod_left _ _
  · intro whole
    have admissible : Admissible file.content.size := by
      apply Or.inr
      refine ⟨whole, compact.intact.header_present, Nat.le_trans compact.short ?_⟩
      decide
    obtain ⟨again, opened, ran, _⟩ := exists_load position sync untroubled admissible
    exact ⟨again, opened, ran⟩

theorem Compact.closes (untroubled : file.Untroubled) :
    ∃ closed, close (live, file) = .ok () (live, closed) ∧ closed.content = file.content ∧
      closed.Untroubled ∧ Compact position live closed := by
  obtain ⟨_, ⟨left, closed⟩, ran, same, keeps⟩ := (close_ends live file).exists_ok
  obtain rfl : live = left := same.symm
  exact ⟨closed, ran, keeps.content, keeps.continues.untroubled untroubled, compact.keeps keeps⟩

theorem Compact.sameChunks_iff [Codec] (untroubled : file.Untroubled)
    (loaded : Loaded position sync closed again opened) (content : closed.content = file.content)
    (untroubledClosed : closed.Untroubled) :
    SameChunks (again, opened) (live, file) ↔
      (stored file.content).Recovers live.tables again.space.sectors.toNat := by
  have intact : Intact _ live closed :=
    compact.intact.grown (Nat.le_of_eq (congrArg Content.size content.symm))
  rw [← content, ← loaded.recovers_iff intact]
  constructor
  · exact fun same slot => ⟨same.extents slot, same.timestamps slot⟩
  · intro same
    refine ⟨fun slot => (same slot).1, fun slot => (same slot).2, fun chunk => ?_⟩
    have untroubledOpened := loaded.prepared.continues.untroubled untroubledClosed
    rw [outcome_loadChunk again untroubledOpened, outcome_loadChunk live untroubled,
      loaded.content_eq intact.nonempty, content]
    apply find_congr
    · exact loaded.position.trans compact.position.symm
    · exact fun slot _ => ⟨(same slot).1, fun _ _ => rfl⟩

end

/-- What can be said of opening the file again once the surroundings are calm. -/
theorem Compact.recovery [Codec] {position : RegionPos} {live : Region} {file : Device}
    (compact : Compact position live file) {later : Surroundings} (calm : later.Untroubled)
    (sync : Bool) :
    ∃ closed, close (live, file.under later) = .ok () (live, closed) ∧
      ((∃ again opened, load position sync closed = .ok again opened) ↔
        file.content.size % sectorSize = 0) ∧
      ∀ again opened, load position sync closed = .ok again opened →
        (SameChunks (again, opened) (live, file.under later) ↔
          (stored file.content).Recovers live.tables again.space.sectors.toNat) := by
  have untroubled : (file.under later).Untroubled := ⟨compact.isFile, calm⟩
  have start := compact.under later
  obtain ⟨closed, closes, content, untroubledClosed, compactClosed⟩ := start.closes untroubled
  refine ⟨closed, closes, ?_, fun again opened ran => ?_⟩
  · rw [compactClosed.opens_iff untroubledClosed, content, Device.content_under]
  · exact start.sameChunks_iff untroubled (loaded_of_load compactClosed.isFile ran) content
      untroubledClosed

end RegionStore.Region
