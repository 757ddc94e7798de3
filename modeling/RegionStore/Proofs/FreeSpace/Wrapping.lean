import RegionStore.Proofs.FreeSpace.Claim

/-!
Claims of extents that end behind the last 32-bit word. The end that a claim goes by has wrapped to the
front of such an extent, so it passes for one inside the file, and it is claimed if there is a free sector
between that end and its start. Every other claim is exact.
-/

set_option autoImplicit false

namespace RegionStore

theorem Extent.stop_toNat_of_wraps {extent : Extent} (wraps : 2 ^ 32 ≤ extent.behind) :
    extent.stop.toNat = extent.behind - 2 ^ 32 := by
  have first := extent.first.toNat_lt
  have count := extent.count.toNat_lt
  rw [Extent.behind_def] at wraps ⊢
  rw [Extent.stop, UInt32.toNat_add]
  omega

namespace FreeSpace

variable {space : FreeSpace} {extent : Extent}

/-- What a claim of an extent should come to. If the extent lies in the file behind the header and all its
sectors are free, it leaves the free space and nothing else does; otherwise nothing is taken. -/
inductive Claimed (space : FreeSpace) (extent : Extent) : Option FreeSpace → Prop where
  | taken {next : FreeSpace} (inside : extent.Inside space.sectors.toNat)
    (free : ∀ sector, extent.Holds sector → space.Free sector) (sound : next.Sound)
    (sectors : next.sectors = space.sectors)
    (left : ∀ sector, next.Free sector ↔ space.Free sector ∧ ¬ extent.Holds sector) :
    Claimed space extent (some next)
  | refused (why : ¬ (extent.Inside space.sectors.toNat ∧
      ∀ sector, extent.Holds sector → space.Free sector)) : Claimed space extent none

/-- The end of the extent wraps, and a free sector lies between where it wraps to and where the extent
starts. -/
structure Misjudges (space : FreeSpace) (extent : Extent) : Prop where
  wraps : 2 ^ 32 ≤ extent.behind
  between : ∃ sector, space.Free sector ∧ extent.stop.toNat ≤ sector + 1 ∧ sector ≤ extent.first.toNat

theorem not_inside_of_wraps (wraps : 2 ^ 32 ≤ extent.behind) : ¬ extent.Inside space.sectors.toNat := by
  intro inside
  have within := inside.within
  have bounded := space.sectors.toNat_lt
  omega

theorem isSome_claim? : (space.claim? extent).isSome = (space.holder? extent).isSome := by
  rw [claim?, Option.isSome_map]

/-- Only the last free extent that starts in front of the claimed one is looked at, and only its end. -/
theorem Sound.isSome_claim?_of_wraps (sound : space.Sound) (wraps : 2 ^ 32 ≤ extent.behind) :
    (space.claim? extent).isSome = true ↔
      ∃ sector, space.Free sector ∧ extent.stop.toNat ≤ sector + 1 ∧ sector ≤ extent.first.toNat := by
  have stop := Extent.stop_toNat_of_wraps wraps
  have first := extent.first.toNat_lt
  have count := extent.count.toNat_lt
  have behindSelf := extent.behind_def
  have header := Extent.headerSectors_toNat
  have zero : extent.count = 0 ↔ extent.count.toNat = 0 := UInt32.toNat_inj.symm
  have otherStop : ∀ other ∈ space.byStart, other.stop.toNat = other.behind := by
    intro other member
    exact Extent.stop_toNat (Nat.lt_of_le_of_lt (sound.inside other member).within space.sectors.toNat_lt)
  rw [isSome_claim?, holder?]
  simp only [UInt32.lt_iff_toNat_lt, zero]
  constructor
  · intro claimed
    split at claimed
    · cases claimed
    · cases last : (space.byStart.filter fun other => other.first ≤ extent.first).getLast? with
      | none =>
        rw [last] at claimed
        cases claimed
      | some other =>
        obtain ⟨member, before, _⟩ := before_getLast?_filter sound.separate last
        rw [decide_eq_true_eq, UInt32.le_iff_toNat_le] at before
        have nonempty := (sound.inside other member).nonempty
        have behindOther := other.behind_def
        simp only [last, otherStop other member] at claimed
        split at claimed
        · cases claimed
        · have holds : other.Holds (min extent.first.toNat (other.behind - 1)) := by
            constructor <;> omega
          exact ⟨_, ⟨other, member, holds⟩, by omega, by omega⟩
  · rintro ⟨sector, free, reaches, before⟩
    have inside := sound.free_inside free
    obtain ⟨other, member, fromFirst, toLast⟩ := free
    rw [if_neg (by omega)]
    have started : decide (other.first ≤ extent.first) = true :=
      decide_eq_true (UInt32.le_iff_toNat_le.2 (by omega))
    cases last : (space.byStart.filter fun other => other.first ≤ extent.first).getLast? with
    | none =>
      rw [List.getLast?_eq_none_iff, List.filter_eq_nil_iff] at last
      exact absurd started (last other member)
    | some found =>
      obtain ⟨memberFound, _, greatest⟩ := before_getLast?_filter sound.separate last
      have behindFound := found.behind_def
      have reached : ¬ found.stop.toNat < extent.stop.toNat := by
        rw [otherStop found memberFound]
        rcases greatest other member started with rfl | earlier
        · omega
        · omega
      simp only [if_neg reached, Option.isSome_some]

/-- A claim does what it should, for any two numbers, except where the end of the extent wraps and a free
sector lies in front of it; then it goes through although the extent does not lie in the file. -/
theorem claimed_iff_not_misjudges (sound : space.Sound) (extent : Extent) :
    (Claimed space extent (space.claim? extent) ↔ ¬ space.Misjudges extent) ∧
      (space.Misjudges extent →
        (space.claim? extent).isSome = true ∧ ¬ extent.Inside space.sectors.toNat) := by
  by_cases bounded : extent.behind < 2 ^ 32
  · have judged : ¬ space.Misjudges extent :=
      fun misjudges => Nat.not_lt_of_le misjudges.wraps bounded
    refine ⟨iff_of_true ?_ judged, fun misjudges => absurd misjudges judged⟩
    cases claim : space.claim? extent with
    | none =>
      refine .refused fun free => ?_
      have taken := (isSome_claim?_iff sound bounded).2 free
      rw [claim] at taken
      cases taken
    | some next =>
      obtain ⟨inside, free, soundNext, sectors, left⟩ := sound.claim? bounded claim
      exact .taken inside free soundNext sectors left
  · have wraps := Nat.le_of_not_lt bounded
    have outside : ¬ extent.Inside space.sectors.toNat := not_inside_of_wraps wraps
    have claimed := sound.isSome_claim?_of_wraps wraps
    refine ⟨⟨fun should misjudges => ?_, fun judged => ?_⟩, fun misjudges => ?_⟩
    · have through := claimed.2 misjudges.between
      generalize space.claim? extent = claim at should through
      cases should with
      | taken inside free soundNext sectors left => exact outside inside
      | refused why => cases through
    · have none : space.claim? extent = none :=
        Option.not_isSome_iff_eq_none.1 fun through => judged ⟨wraps, claimed.1 through⟩
      rw [none]
      exact .refused fun free => outside free.1
    · exact ⟨claimed.2 misjudges.between, outside⟩

/-- In a file of ten sectors, all free behind the header, an extent at sector 5 whose computed end is 3
can be claimed; after that the sectors 3 and 4 lie in two free extents. -/
theorem not_claimed_of_wrapping_end :
    (ofSectors 10).Sound ∧
      (ofSectors 10).claim? ⟨5, 4294967294⟩ =
        some ⟨10, [⟨2, 3⟩, ⟨3, 7⟩], [⟨2, 3⟩, ⟨3, 7⟩]⟩ ∧
      ¬ Claimed (ofSectors 10) ⟨5, 4294967294⟩ ((ofSectors 10).claim? ⟨5, 4294967294⟩) ∧
      ¬ Extent.Inside ⟨5, 4294967294⟩ 10 := by
  obtain ⟨sound, free⟩ := ofSectors_sound 10
  have misjudges : (ofSectors 10).Misjudges ⟨5, 4294967294⟩ :=
    ⟨by decide, 5, (free 5).2 (by decide), by decide, by decide⟩
  have claim := claimed_iff_not_misjudges sound ⟨5, 4294967294⟩
  exact ⟨sound, by decide, fun exact => claim.1.1 exact misjudges, (claim.2 misjudges).2⟩

end FreeSpace
end RegionStore
