import RegionStore.Proofs.Region.Intact

/-!
Runs of changes to an open region, with other surroundings before each one, so any call may fail in any
of them. Every sector stays accounted for: it belongs to the tables, to exactly one chunk or to exactly
one free extent.
-/

set_option autoImplicit false

namespace RegionStore.Region

open Disk

section
variable [Codec]

def Change.apply (state : Region × Device) (step : Surroundings × Change) : Region × Device :=
  final step.2.run (state.1, { state.2 with around := step.1 })

theorem Change.full_apply (state : Region × Device) (step : Surroundings × Change) :
    (Change.apply state step).2.full = state.2.full :=
  Ends.final (fun next : Region × Device => next.2.full = state.2.full)
    ((Change.run_continues state.1 (state.2.under step.1) step.2).mono
      (fun _ _ continues => continues.full) fun _ _ continues => continues.full)

theorem full_run (state : Region × Device) (steps : List (Surroundings × Change)) :
    (steps.foldl Change.apply state).2.full = state.2.full := by
  induction steps generalizing state with
  | nil => rfl
  | cons step rest ih => exact (ih (Change.apply state step)).trans (Change.full_apply state step)

/-- No sector is lost or shared, and the file has all of them. -/
structure Accounted (region : Region) (file : Device) : Prop where
  inside : ∀ slot extent, region.tables.extent? slot = some extent →
    extent.Inside region.space.sectors.toNat
  apart : ∀ slot other, slot ≠ other → ∀ a b, region.tables.extent? slot = some a →
    region.tables.extent? other = some b → a.Apart b
  ascending : region.space.byStart.Pairwise fun a b => a.first < b.first
  free : ∀ extent, extent ∈ region.space.byStart ↔ extent.IsRun fun sector =>
    headerSectors.toNat ≤ sector ∧ sector < region.space.sectors.toNat ∧ ¬ region.tables.Used sector
  covered : region.space.sectors.toNat * sectorSize ≤ file.content.size

omit [Codec] in
theorem Intact.accounted {limit : Nat} {region : Region} {file : Device}
    (intact : Intact limit region file) : Accounted region file := by
  have partitioned := intact.partitioned
  refine ⟨partitioned.inside, partitioned.apart, ?_, fun extent => ?_, intact.covered⟩
  · refine partitioned.sound.separate.imp fun {a b} separate => ?_
    rw [Extent.behind_def] at separate
    rw [UInt32.lt_iff_toNat_lt]
    omega
  · have free : region.space.Free = fun sector => headerSectors.toNat ≤ sector ∧
        sector < region.space.sectors.toNat ∧ ¬ region.tables.Used sector :=
      funext fun sector => propext (partitioned.free sector)
    rw [partitioned.sound.mem_iff_isRun, free]

theorem Intact.apply_of_fits {limit : Nat} {state : Region × Device}
    (intact : Intact limit state.1 state.2) (step : Surroundings × Change)
    (fits : step.2.Fits limit state.1) :
    Intact limit (Change.apply state step).1 (Change.apply state step).2 := by
  have start : Intact limit state.1 (state.2.under step.1) := intact.grown (Nat.le_refl _)
  exact Ends.final (fun state : Region × Device => Intact limit state.1 state.2) (start.change fits)

section
variable {limit : Nat} (room : Partitioned.fragmentedSectors + maxExtentSectors ≤ limit)
  (addressable : limit ≤ maxSectorIndex + 1)
include room addressable

theorem Intact.apply {state : Region × Device} (intact : Intact limit state.1 state.2)
    (step : Surroundings × Change) :
    Intact limit (Change.apply state step).1 (Change.apply state step).2 :=
  intact.apply_of_fits step (intact.fits room addressable step.2)

theorem Intact.run {state : Region × Device} (intact : Intact limit state.1 state.2)
    (steps : List (Surroundings × Change)) :
    Intact limit (steps.foldl Change.apply state).1 (steps.foldl Change.apply state).2 := by
  induction steps generalizing state with
  | nil => exact intact
  | cons step rest ih => exact ih (intact.apply room addressable step)

end

/-- After every run on a file that is not longer than table words can tell, whatever it contains and
whatever fails, every sector is accounted for. -/
theorem accounted_of_run (position : RegionPos) (sync : Bool) {file opened : Device} {region : Region}
    (isFile : file.full = false) (short : file.content.size ≤ (maxSectorIndex + 1) * sectorSize)
    (loaded : load position sync file = .ok region opened) (steps : List (Surroundings × Change)) :
    Accounted (steps.foldl Change.apply (region, opened)).1
      (steps.foldl Change.apply (region, opened)).2 := by
  have found := loaded_of_load isFile loaded
  have intact : Intact (maxSectorIndex + 1) (region, opened).1 (region, opened).2 :=
    found.intact (found.short short)
  exact (Intact.run (by decide) (Nat.le_refl _) intact steps).accounted

end

/-- A new file, to which a chunk is saved that a full disk keeps out at first. -/
theorem accounted_of_run_new :
    let file : Device := ⟨"r.0.0.mca", Content.empty, false, Surroundings.initial⟩
    let steps := [({ Surroundings.initial with ceiling := some 9000 }, Change.save ⟨0, 0⟩ "abc" 3),
      (Surroundings.initial, Change.save ⟨0, 0⟩ "abc" 3)]
    ∃ region opened, load ⟨0, 0⟩ true file = .ok region opened ∧
      Accounted (steps.foldl Change.apply (region, opened)).1
        (steps.foldl Change.apply (region, opened)).2 := by
  intro file steps
  have untroubled : file.Untroubled := ⟨rfl, rfl, Schedule.calm_mild⟩
  obtain ⟨region, opened, loaded, _⟩ := exists_load ⟨0, 0⟩ true untroubled (.inl rfl)
  exact ⟨region, opened, loaded, accounted_of_run ⟨0, 0⟩ true rfl (by decide) loaded steps⟩

end RegionStore.Region
