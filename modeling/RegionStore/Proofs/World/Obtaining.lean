import RegionStore.Proofs.Host.Opening
import RegionStore.Proofs.World.Upkeep

/-!
Getting a region of a world. One that is still open at the position and has not been forgotten is what
is got, wherever it was; otherwise its file is opened, and the new region is the only one there.
-/

set_option autoImplicit false

namespace RegionStore.World

open Disk

def received (position : RegionPos) (result : Option Nat) (handles : List (RegionPos × Nat)) :
    List (RegionPos × Nat) :=
  match result with
  | some number => (position, number) :: handles
  | none => handles

/-- A region was got that is not a forgotten one, or nothing if none was to be made, and the handle of
the caller is tracked. -/
structure Obtained (first : Nat) (forgotten : Nat → Prop) (handles : List (RegionPos × Nat))
    (position : RegionPos) (create : Bool) (result : Option Nat) (state : World × Host) : Prop where
  inOrder : InOrder first forgotten (received position result handles) [] state
  remembered : ∀ number, result = some number → ¬ forgotten number
  exists_of_create : create = true → ∃ number, result = some number

/-- The regions that were put away and are still open, by the positions where they are looked for. -/
def remembered (state : World × Host) : List (RegionPos × Nat) :=
  state.1.parked.filter fun entry => state.2.IsOpen entry.2

/-- The same regions are open in the same order, with the same holders, and the same ones are remembered. -/
structure Unmoved (before after : World × Host) : Prop where
  config : after.1.config = before.1.config
  opened : after.1.opened = before.1.opened
  recency : after.1.recency = before.1.recency
  remembered : remembered after = remembered before
  alike : before.2.Alike after.2

theorem Unmoved.trans {a b c : World × Host} (first : Unmoved a b) (second : Unmoved b c) : Unmoved a c :=
  ⟨second.config.trans first.config, second.opened.trans first.opened,
    second.recency.trans first.recency, second.remembered.trans first.remembered,
    first.alike.trans second.alike⟩

theorem unmoved_of_alike {world : World} {host next : Host} (alike : host.Alike next) :
    Unmoved (world, host) (world, next) := by
  refine ⟨rfl, rfl, rfl, List.filter_congr fun entry _ => ?_, alike⟩
  rw [decide_eq_decide, Host.isOpen_iff, Host.isOpen_iff, alike.holding]

section
variable {first number : Nat} {forgotten : Nat → Prop} {handles leaving : List (RegionPos × Nat)}
  {world : World} {host : Host} {position : RegionPos}

/-- What is parked at a position where nothing is open any more does not count. -/
theorem InOrder.unmoved_of_vacant (inOrder : InOrder first forgotten handles leaving (world, host))
    (vacant : ∀ number, first ≤ number → ¬ forgotten number → ¬ host.OpenAt number position) :
    Unmoved (world, host) ({ world with parked := erased world.parked position }, host) := by
  refine ⟨rfl, rfl, rfl, ?_, Host.Alike.refl host⟩
  unfold remembered erased
  rw [List.filter_filter]
  refine List.filter_congr fun entry member => ?_
  rw [Bool.eq_iff_iff, Bool.and_eq_true, decide_eq_true_eq, decide_eq_true_eq, and_iff_left_iff_imp]
  rintro isOpen rfl
  obtain ⟨place, isOpen⟩ := Host.isOpen_iff_openAt.1 isOpen
  have remembered : ¬ forgotten entry.2 := fun isForgotten =>
    (inOrder.lost entry.2 isForgotten).2.2 entry member rfl
  rw [← inOrder.atPosition entry member place isOpen] at isOpen
  exact vacant entry.2 (inOrder.numbered entry member).1 remembered isOpen

theorem makeDirectory_alike (world : World) (host : Host) :
    Ends makeDirectory (world, host) (fun _ next => next.1 = world ∧ host.Alike next.2)
      fun _ next => next.1 = world ∧ host.Alike next.2 := by
  rw [ends_makeDirectory]
  exact Ends.mono (ends_somehow _ _) (fun _ _ _ => ⟨rfl, fun _ => rfl, rfl⟩)
    fun _ _ _ => ⟨rfl, fun _ => rfl, rfl⟩

theorem fileExists_alike (world : World) (host : Host) (path : Bytes) :
    Ends (fileExists path) (world, host) (fun _ next => next.1 = world ∧ host.Alike next.2)
      fun _ next => next.1 = world ∧ host.Alike next.2 := by
  rw [ends_fileExists]
  exact Ends.mono (ends_somehow _ _) (fun _ _ _ => ⟨rfl, fun _ => rfl, rfl⟩)
    fun _ _ _ => ⟨rfl, fun _ => rfl, rfl⟩

/-- A region that has entered the table is held for it and for the caller. -/
theorem admitRegion_inOrder
    (tracked : Tracked first forgotten handles [] (world.opened.insert position number) world.parked host)
    (found : (world.opened.insert position number).find? position = some number) :
    Ends (admitRegion position number) (world, host)
      (fun _ next => InOrder first forgotten ((position, number) :: handles) [] next ∧ next.1.opened =
        ((position :: world.recency).drop world.config.maxOpen.toNat).reverse.foldl OpenTable.erase
          (world.opened.insert position number))
      fun _ _ => False := by
  unfold admitRegion
  simp only [change, ends_bind, ends_modify, ends_host]
  refine Ends.mono (Host.hold_gains tracked.fresh (tracked.inTable position number found).2) ?_
    fun _ _ => id
  intro _ held gains
  have entered : InOrder first forgotten ((position, number) :: handles) []
      ({ world with
          recency := position :: world.recency
          opened := world.opened.insert position number }, held) :=
    tracked.gained gains (.inl found)
  exact entered.evictExcess

theorem InOrder.openFresh (inOrder : InOrder first forgotten handles [] (world, host))
    (absent : world.opened.find? position = none)
    (vacant : ∀ number, first ≤ number → ¬ forgotten number → ¬ host.OpenAt number position)
    (create : Bool) :
    Ends (openFresh position create) (world, host) (Obtained first forgotten handles position create)
      fun _ next => next.1 = world ∧ host.Alike next.2 := by
  have opens {ready : Host} (alike : host.Alike ready) :
      Ends (do
          let number ← WithHost.host
            (Host.openRegion (world.filePath position) position world.config.sync)
          admitRegion position number
          return some number) (world, ready) (Obtained first forgotten handles position create)
        fun _ next => next.1 = world ∧ host.Alike next.2 := by
    have before := Tracked.alike inOrder alike
    simp only [ends_bind, ends_host, ends_pure]
    refine Ends.mono (Host.openRegion_gains _ position _ before.fresh) ?_ ?_
    · rintro number opened ⟨gains, new⟩
      have remembered : ¬ forgotten number := fun isForgotten =>
        Nat.lt_irrefl _ (new ▸ (before.lost number isForgotten).1)
      have found := (before.single.find?_insert absent number position).trans (if_pos rfl)
      have admitted := before.admit gains (new ▸ before.begins) remembered absent fun other own known isOpen =>
        absurd (alike.openAt ▸ isOpen) (vacant other own known)
      refine Ends.mono (admitRegion_inOrder admitted found) ?_ fun _ _ => False.elim
      intro _ next done
      refine ⟨done.1, ?_, fun _ => ⟨number, rfl⟩⟩
      rintro _ ⟨⟩
      exact remembered
    · intro _ next still
      exact ⟨trivial, alike.trans still⟩
  simp only [ends_bind] at opens
  unfold World.openFresh
  cases create with
  | true =>
    simp only [ends_bind, ends_get, if_true]
    refine Ends.mono (makeDirectory_alike world host) ?_ ?_
    · rintro _ ⟨_, made⟩ ⟨rfl, alike⟩
      exact opens alike
    · rintro _ ⟨_, made⟩ ⟨rfl, alike⟩
      exact ⟨rfl, alike⟩
  | false =>
    simp only [ends_bind, ends_get, Bool.false_eq_true, if_false]
    refine Ends.mono (fileExists_alike world host _) ?_ ?_
    · rintro (_ | _) ⟨_, examined⟩ ⟨rfl, alike⟩
      · refine ⟨inOrder.alike alike, ?_, ?_⟩
        · rintro _ ⟨⟩
        · rintro ⟨⟩
      · simpa only [Bool.not_true, Bool.false_eq_true, if_false, ends_bind] using opens alike
    · rintro _ ⟨_, examined⟩ ⟨rfl, alike⟩
      exact ⟨rfl, alike⟩

theorem InOrder.openVacant (inOrder : InOrder first forgotten handles [] (world, host))
    (absent : world.opened.find? position = none)
    (vacant : ∀ number, first ≤ number → ¬ forgotten number → ¬ host.OpenAt number position)
    (create : Bool) :
    Ends (World.openFresh position create) (world, host)
      (fun result next => Obtained first forgotten handles position create result next ∧
        ∀ number, first ≤ number → ¬ forgotten number → host.OpenAt number position →
          result = some number)
      fun _ next => InOrder first forgotten handles [] next ∧ Unmoved (world, host) next ∧
        ∀ number, first ≤ number → ¬ forgotten number → ¬ host.OpenAt number position := by
  refine Ends.mono (inOrder.openFresh absent vacant create) ?_ ?_
  · intro result next obtained
    exact ⟨obtained, fun number own remembered isOpen => absurd isOpen (vacant number own remembered)⟩
  · rintro _ ⟨_, next⟩ ⟨rfl, alike⟩
    exact ⟨inOrder.alike alike, unmoved_of_alike alike, vacant⟩

theorem InOrder.readopt (inOrder : InOrder first forgotten handles [] (world, host))
    (absent : world.opened.find? position = none) (member : (position, number) ∈ world.parked)
    (isOpen : host.OpenAt number position)
    (alone : ∀ other, first ≤ other → ¬ forgotten other → host.OpenAt other position → other = number)
    (create : Bool) :
    Ends (do
        WithHost.host (Host.hold number)
        admitRegion position number
        return some number)
      ({ world with parked := erased world.parked position }, host)
      (fun result next => result = some number ∧
        Obtained first forgotten handles position create result next)
      fun _ _ => False := by
  have remembered : ¬ forgotten number := fun isForgotten =>
    (inOrder.lost number isForgotten).2.2 _ member rfl
  simp only [ends_bind, ends_host, ends_pure]
  refine Ends.mono (Host.hold_gains inOrder.fresh isOpen) ?_ fun _ _ => False.elim
  intro _ held gains
  have inserted := (inOrder.single.find?_insert absent number position).trans (if_pos rfl)
  have admitted := inOrder.admit gains (inOrder.numbered _ member).1 remembered absent alone
  have dropped : Tracked first forgotten handles [] (world.opened.insert position number)
      (erased world.parked position) held := admitted.drop fun _ absent => by
    rw [inserted] at absent
    cases absent
  refine Ends.mono (admitRegion_inOrder dropped inserted) ?_ fun _ _ => False.elim
  intro _ next done
  refine ⟨trivial, done.1, ?_, fun _ => ⟨number, rfl⟩⟩
  rintro _ ⟨⟩
  exact remembered

/-- A region that is open at the position and has not been forgotten is always got. If none can be got,
nothing has moved. -/
theorem InOrder.obtain (inOrder : InOrder first forgotten handles [] (world, host))
    (position : RegionPos) (create : Bool) :
    Ends (obtain position create) (world, host)
      (fun result next => Obtained first forgotten handles position create result next ∧
        ∀ number, first ≤ number → ¬ forgotten number → host.OpenAt number position →
          result = some number)
      fun _ next => InOrder first forgotten handles [] next ∧ Unmoved (world, host) next ∧
        ∀ number, first ≤ number → ¬ forgotten number → ¬ host.OpenAt number position := by
  have known (number : Nat) (own : first ≤ number) (remembered : ¬ forgotten number)
      (isOpen : host.OpenAt number position) :
      world.opened.find? position = some number ∨
        world.opened.find? position = none ∧ world.parked.lookup position = some number :=
    (inOrder.known number position own remembered isOpen).imp_right fun ⟨absent, rest⟩ =>
      ⟨absent, rest.resolve_right fun leaves => List.not_mem_nil leaves.1⟩
  unfold World.obtain
  simp only [ends_bind, ends_get]
  cases found : world.opened.find? position with
  | some number =>
    simp only [change, ends_bind, ends_modify, ends_host, ends_pure]
    refine Ends.mono (Host.hold_gains inOrder.fresh (inOrder.inTable position number found).2) ?_
      fun _ _ => False.elim
    intro _ held gains
    refine ⟨⟨inOrder.gained gains (.inl found), ?_, fun _ => ⟨number, rfl⟩⟩, fun other own remembered isOpen => ?_⟩
    · rintro _ ⟨⟩ isForgotten
      exact (inOrder.lost number isForgotten).2.1 position found
    · rcases known other own remembered isOpen with inTable | ⟨absent, _⟩
      · exact found ▸ inTable
      · rw [found] at absent
        cases absent
  | none =>
    have parkedOf (other : Nat) (own : first ≤ other) (remembered : ¬ forgotten other)
        (isOpen : host.OpenAt other position) : world.parked.lookup position = some other := by
      rcases known other own remembered isOpen with inTable | ⟨_, isParked⟩
      · rw [found] at inTable
        cases inTable
      · exact isParked
    cases parked : world.parked.lookup position with
    | none =>
      refine inOrder.openVacant found (fun number own remembered isOpen => ?_) create
      have isParked := parkedOf number own remembered isOpen
      rw [parked] at isParked
      cases isParked
    | some number =>
      have member : (position, number) ∈ world.parked := mem_of_lookup parked
      -- What is open at the position and has not been forgotten is the region that is parked there.
      have alone (other : Nat) (own : first ≤ other) (remembered : ¬ forgotten other)
          (isOpen : host.OpenAt other position) : other = number :=
        Option.some.inj ((parkedOf other own remembered isOpen).symm.trans parked)
      dsimp only
      rw [change, ends_bind, ends_modify, ends_ite]
      split
      · next isOpen =>
        obtain ⟨place, isOpen⟩ := Host.isOpen_iff_openAt.1 isOpen
        obtain rfl : position = place := inOrder.atPosition _ member place isOpen
        refine Ends.mono (inOrder.readopt found member isOpen alone create) ?_ fun _ _ => False.elim
        rintro _ next ⟨rfl, obtained⟩
        exact ⟨obtained, fun other own remembered isOpen =>
          congrArg some (alone other own remembered isOpen).symm⟩
      · next closed =>
        have vacant (other : Nat) (own : first ≤ other) (remembered : ¬ forgotten other) :
            ¬ host.OpenAt other position := fun isOpen =>
          closed (alone other own remembered isOpen ▸ Host.isOpen_iff_openAt.2 ⟨position, isOpen⟩)
        have dropped : InOrder first forgotten handles []
            ({ world with parked := erased world.parked position }, host) :=
          Tracked.drop inOrder fun other _ => vacant other
        refine Ends.mono (dropped.openVacant found vacant create) (fun _ _ => id) ?_
        rintro _ next ⟨holds, unmoved, stillVacant⟩
        exact ⟨holds, (InOrder.unmoved_of_vacant inOrder vacant).trans unmoved, stillVacant⟩

theorem InOrder.giveUp (inOrder : InOrder first forgotten handles [] (world, host))
    (isHandle : (position, number) ∈ handles) :
    Ends (WithHost.host (Host.release number)) (world, host)
      (fun _ next => next.1 = world ∧ InOrder first forgotten (handles.erase (position, number)) [] next)
      fun _ _ => False :=
  InOrder.release (inOrder.leave isHandle)

theorem InOrder.onChunk {Result : Type} [Inhabited Result]
    (inOrder : InOrder first forgotten handles [] (world, host)) {action : OnRegion Result}
    (steady : Region.Steady action) (chunk : ChunkPos) (create : Bool) (absent : Result) :
    Ends (onChunk chunk create absent action) (world, host)
      (fun _ next => InOrder first forgotten handles [] next)
      fun _ next => InOrder first forgotten handles [] next := by
  unfold World.onChunk
  rw [ends_bind]
  refine Ends.mono (inOrder.obtain chunk.regionOf create) ?_ fun _ _ failed => failed.1
  rintro (_ | number) ⟨between, opened⟩ ⟨obtained, _⟩
  · exact obtained.inOrder
  · have givesUp {used : Host} (alike : opened.Alike used) :
        Ends (WithHost.host (Host.release number)) (between, used)
          (fun _ next => next.1 = between ∧ InOrder first forgotten handles [] next) fun _ _ => False := by
      have given := (obtained.inOrder.alike alike).giveUp List.mem_cons_self
      rwa [received, List.erase_cons_head] at given
    simp only [ends_tryCatch, ends_bind, ends_throw]
    rw [ends_host]
    refine Ends.mono (Host.onRegion_alike steady number opened) ?_ ?_
    · intro result used alike
      exact Ends.mono (givesUp alike) (fun _ _ given => given.2) fun _ _ => False.elim
    · intro failure used alike
      exact Ends.mono (givesUp alike) (fun _ _ given => given.2) fun _ _ => False.elim

end

/-- The first region that is got from a new world, if nothing fails and its file is still to be made. -/
theorem obtain_of_vacant (config : WorldConfig) {host : Host} (fresh : host.Fresh) (sound : host.Sound)
    (untroubled : host.around.Untroubled) (position : RegionPos)
    (hasDirectory : makeDirectory (ofConfig config, host) = .ok () (ofConfig config, host))
    (vacant : host.Vacant ((ofConfig config).filePath position)) :
    Ends (obtain position true) (ofConfig config, host)
      (fun result next => result = some host.nextRegion ∧ next.1.opened =
        ([position].drop config.maxOpen.toNat).reverse.foldl OpenTable.erase
          (OpenTable.empty.insert position host.nextRegion))
      fun _ _ => False := by
  obtain ⟨file, made, ran, leads, empty, around⟩ := Host.openFile_of_vacant untroubled sound vacant
  obtain ⟨number, region, opened, openRan, _⟩ := Host.openRegion_of_openFile ran leads
    (around ▸ Host.untroubled_afterOpening untroubled) (.inl empty) position (ofConfig config).config.sync
  have gains := Host.openRegion_gains ((ofConfig config).filePath position) position
    (ofConfig config).config.sync fresh
  rw [ends_of_eq_ok openRan] at gains
  obtain ⟨gains, rfl⟩ := gains
  have tracked := tracked_new fresh
  have admitted := tracked.admit gains (Nat.le_refl _) not_false rfl fun other own _ isOpen =>
    absurd (fresh other position isOpen) (Nat.not_lt_of_le own)
  have inserted := (tracked.single.find?_insert rfl host.nextRegion position).trans (if_pos rfl)
  change Ends (openFresh position true) (ofConfig config, host) _ _
  unfold openFresh
  simp only [ends_bind, ends_get, if_true]
  rw [ends_of_eq_ok hasDirectory, ends_host, ends_of_eq_ok openRan]
  refine Ends.mono (admitRegion_inOrder admitted inserted) ?_ fun _ _ => id
  rintro _ next ⟨_, opened⟩
  exact ⟨rfl, opened⟩

end RegionStore.World
