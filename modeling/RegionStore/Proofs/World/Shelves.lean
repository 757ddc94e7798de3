import RegionStore.Proofs.Host.Stock
import RegionStore.Proofs.World.Resting
import RegionStore.Proofs.World.Session

/-!
What a world finds in its directory when it gets a region. The directory may still be missing, and then no
region has a file; once it has been made, it has the files of all regions of the map, and whichever
regions are open, the one that is got has its chunks.
-/

set_option autoImplicit false

namespace RegionStore.World

open Disk

variable [Codec]

/-- The directory is missing and can be made, and no region is open. -/
structure Missing (directory : Bytes) (folder first : Nat) (host : Host) : Prop where
  makes : ∃ made tree,
    OnTree.makeDirectories directory (host.tree, Schedule.calm) = .ok made (tree, Schedule.calm) ∧
      Host.Stocked directory folder first Chunks.empty { host with tree := tree }
  absent : ∀ position, host.tree.exists? (Host.regionPath directory position) = .ok false
  closed : ∀ number, first ≤ number → host.region? number = none

/-- The directory has the regions of the map, or it is missing and there are none. -/
inductive Provided (directory : Bytes) (folder first : Nat) (chunks : Chunks) (host : Host) : Prop where
  | stocked (stocked : Host.Stocked directory folder first chunks host)
  | missing (missing : Missing directory folder first host) (nothing : chunks = Chunks.empty)

def Closed (first : Nat) (host : Host) (position : RegionPos) : Prop :=
  ∀ number, first ≤ number → ¬ host.OpenAt number position

omit [Codec] in
theorem Closed.of_regions {first : Nat} {host next : Host} {position : RegionPos}
    (closed : Closed first host position) (same : next.regions = host.regions) :
    Closed first next position := by
  rintro number own ⟨count, held⟩
  rw [Host.holding, Host.region?, same] at held
  exact closed number own ⟨count, held⟩

section
variable {directory : Bytes} {folder first : Nat} {chunks : Chunks} {host : Host}

theorem Provided.stays (provided : Provided directory folder first chunks host) {next : Host}
    (stays : host.Stays next) (untroubled : next.around.Untroubled) :
    Provided directory folder first chunks next := by
  cases provided with
  | stocked stocked => exact .stocked (stocked.stays stays untroubled)
  | missing missing nothing =>
    obtain ⟨⟨made, tree, makes, stocked⟩, absent, closed⟩ := missing
    have staysMade : Host.Stays { host with tree := tree } { next with tree := tree } :=
      ⟨rfl, stays.contents, stays.regions⟩
    refine .missing ⟨⟨made, tree, stays.tree.symm ▸ makes, stocked.stays staysMade untroubled⟩,
      stays.tree.symm ▸ absent, fun number own => ?_⟩ nothing
    cases found : next.region? number with
    | none => rfl
    | some entry =>
      obtain ⟨old, foundOld, _⟩ := stays.regions number entry found
      rw [closed number own] at foundOld
      cases foundOld

theorem Provided.untroubled (provided : Provided directory folder first chunks host) :
    host.around.Untroubled := by
  cases provided with
  | stocked stocked => exact stocked.untroubled
  | missing missing _ =>
    obtain ⟨_, _, _, stocked⟩ := missing.makes
    exact stocked.untroubled

theorem Provided.rests (provided : Provided directory folder first chunks host) {next : Host}
    (rests : host.Rests next) : Provided directory folder first chunks next :=
  provided.stays rests.toStays (rests.untroubled provided.untroubled)

theorem Provided.stocked_of_open (provided : Provided directory folder first chunks host) {number : Nat}
    (own : first ≤ number) {entry : OpenRegion} (found : host.region? number = some entry) :
    Host.Stocked directory folder first chunks host := by
  cases provided with
  | stocked stocked => exact stocked
  | missing missing _ =>
    rw [missing.closed number own] at found
    cases found

/-- A directory without region files, or one that can be made, has no chunks. -/
theorem provided_of_unused (sound : host.tree.Sound) (fresh : host.Fresh)
    (untroubled : host.around.Untroubled) {made : Bool} {tree : Tree}
    (makes : OnTree.makeDirectories directory (host.tree, Schedule.calm) = .ok made (tree, Schedule.calm))
    (there : tree.look directory = .ok (.directory folder))
    (vacant : ∀ position, ∃ place,
      tree.filePlace (Host.regionPath directory position) = .ok (place, none)) :
    Provided directory folder host.nextRegion Chunks.empty host := by
  obtain ⟨_, someFile⟩ := vacant ⟨0, 0⟩
  have clean := Tree.clean_of_filePlace_join there someFile
  obtain ⟨nonempty, either⟩ :=
    (ends_of_eq_ok makes).1 (OnTree.makeDirectories_cases Schedule.calm_mild directory)
  have named : directory.list ≠ [] := fun none => nonempty (congrArg List.length none)
  have place (position : RegionPos) : tree.filePlace (Host.regionPath directory position) =
        .ok (⟨folder, position.fileName, false⟩, none) ∧
      (Host.regionPath directory position).size ≤ Path.maxPath := by
    obtain ⟨_, found⟩ := vacant position
    obtain ⟨rfl, short⟩ := Tree.place_of_filePlace_join named clean position.isName_fileName there found
    exact ⟨found, short⟩
  have soundMade := (ends_of_eq_ok makes).1 (OnTree.makeDirectories_sound sound directory)
  have closed (number : Nat) (own : host.nextRegion ≤ number) : host.region? number = none := by
    cases found : host.region? number with
    | none => rfl
    | some entry =>
      exact absurd (fresh number _ (Host.openAt_of_region? found)) (Nat.not_lt_of_le own)
  have stocked : Host.Stocked directory folder host.nextRegion Chunks.empty { host with tree := tree } := by
    refine ⟨untroubled, soundMade.of_look there, there, fun position => ?_, fun a _ file leads _ => ?_,
      fun number entry own found => ?_⟩
    · exact ⟨none, (place position).1, .vacant (Chunks.within_empty position)⟩
    · cases leads.unique (place a).1
    · have none : host.region? number = none := closed number own
      cases found.symm.trans none
  rcases either with rfl | missing
  · exact .stocked stocked
  · refine .missing ⟨⟨made, tree, makes, stocked⟩, fun position => ?_, closed⟩ rfl
    exact Tree.exists?_join_of_missing named clean position.isName_fileName missing (place position).2

omit [Codec] in
/-- There is room for every region in a directory with a path that is not too long and without entries of
their names. -/
theorem vacant_of_absent {tree : Tree} (there : tree.look directory = .ok (.directory folder))
    (clean : ∀ byte ∈ directory.list, byte ≠ 0) (short : directory.size + 30 ≤ Path.maxPath)
    (absent : ∀ position : RegionPos, (tree.directory folder).entries[position.fileName]? = none)
    (position : RegionPos) :
    ∃ place, tree.filePlace (Host.regionPath directory position) = .ok (place, none) := by
  have named : directory.list ≠ [] := fun none =>
    Tree.size_ne_zero_of_look there (congrArg List.length none)
  have size := @Path.size_join_le directory position.fileName named
  have name := position.size_fileName_le
  exact ⟨_, Tree.filePlace_join_of_absent named clean position.isName_fileName there (absent position)
    (by omega)⟩

end

section
variable {config : WorldConfig} {folder first : Nat} {chunks : Chunks} {world : World} {host : Host}

/-- A region has been got in good order: the directory has what it had, and nothing was got only if
there was nothing and nothing was to be made. -/
structure Got (config : WorldConfig) (folder first : Nat) (chunks : Chunks) (before : Host)
    (position : RegionPos) (create : Bool) (result : Option Nat) (next : World × Host) : Prop where
  same : next.1.config = config
  provided : Provided config.directory folder first chunks next.2
  timestamp : next.2.around.timestamp = before.around.timestamp
  nothing : result = none → create = false ∧ chunks.within position = Chunks.empty

theorem Got.rests {before : Host} {position : RegionPos} {create : Bool} {result : Option Nat}
    {next last : World × Host} (got : Got config folder first chunks before position create result next)
    (rests : Rests next last) : Got config folder first chunks before position create result last :=
  ⟨rests.config.trans got.same, got.provided.rests rests.host, rests.host.timestamp.trans got.timestamp,
    got.nothing⟩

omit [Codec] in
theorem rests_keepTree (untroubled : host.around.Untroubled) {ahead : Schedule} (mild : ahead.Mild) :
    host.Rests (host.keepTree host.tree ahead) :=
  ⟨Host.stays_inSurroundings host _, rfl, fun _ => ⟨untroubled.ceiling, mild⟩⟩

theorem makeDirectory_provided (same : world.config = config)
    (provided : Provided config.directory folder first chunks host) :
    Ends makeDirectory (world, host)
      (fun _ next => next.1 = world ∧ Host.Stocked config.directory folder first chunks next.2 ∧
        next.2.regions = host.regions ∧ next.2.around.timestamp = host.around.timestamp)
      fun _ _ => False := by
  subst same
  have untroubled := provided.untroubled
  rw [ends_makeDirectory]
  cases provided with
  | stocked stocked =>
    refine Ends.mono (OnTree.makeDirectories_of_look untroubled.schedule stocked.there) ?_ fun _ _ => id
    rintro _ ⟨_, ahead⟩ ⟨rfl, mild⟩
    exact ⟨rfl, stocked.rests (rests_keepTree untroubled mild), rfl, rfl⟩
  | missing missing nothing =>
    obtain ⟨made, tree, makes, stocked⟩ := missing.makes
    obtain ⟨ahead, ran, mild⟩ := OnTree.makes_of_calm untroubled.schedule makes
    rw [ends_of_eq_ok ran]
    exact ⟨rfl, nothing ▸ stocked.rests (rests_keepTree stocked.untroubled mild), rfl, rfl⟩

omit [Codec] in
theorem filePath_eq (same : world.config = config) (position : RegionPos) :
    world.filePath position = Host.regionPath config.directory position := same ▸ rfl

theorem openRegion_provided (same : world.config = config) {before : Host}
    (stocked : Host.Stocked config.directory folder first chunks host)
    (timestamp : host.around.timestamp = before.around.timestamp) {position : RegionPos}
    (closed : Closed first host position) (create : Bool) :
    Ends (WithHost.host (Host.openRegion (world.filePath position) position world.config.sync))
      (world, host)
      (fun number opened => Ends (admitRegion position number) opened
        (fun _ next => Got config folder first chunks before position create (some number) next)
        fun _ _ => False)
      fun _ _ => False := by
  have apart (number : Nat) (entry : OpenRegion) (own : first ≤ number)
      (found : host.region? number = some entry) : entry.region.position ≠ position := by
    rintro rfl
    exact closed number own (Host.openAt_of_region? found)
  rw [filePath_eq same, ends_host]
  refine Ends.mono (stocked.openRegion apart _) ?_ fun _ _ => id
  rintro number opened ⟨left, second⟩
  have got : Got config folder first chunks before position create (some number) (world, opened) :=
    ⟨same, .stocked left, second.trans timestamp, nofun⟩
  exact Ends.mono (restful_admitRegion position number (world, opened)) (fun _ _ => got.rests)
    fun _ _ => And.left

omit [Codec] in
theorem fileExists_ends (untroubled : host.around.Untroubled) {path : Bytes} {found : Bool}
    (known : host.tree.exists? path = .ok found) :
    Ends (fileExists path) (world, host)
      (fun result next => result = found ∧ next.1 = world ∧ host.Rests next.2 ∧
        next.2.regions = host.regions)
      fun _ _ => False := by
  rw [ends_fileExists]
  refine Ends.mono (OnTree.examine_of_mild untroubled.schedule path) ?_ ?_
  · rintro node ⟨_, ahead⟩ ⟨present, rfl, mild⟩
    exact ⟨Except.ok.inj (present.symm.trans known), rfl, rests_keepTree untroubled mild, rfl⟩
  · rintro reason _ ⟨fails, _⟩
    cases known.symm.trans fails

theorem openFresh_provided (same : world.config = config)
    (provided : Provided config.directory folder first chunks host) {position : RegionPos}
    (closed : Closed first host position) (create : Bool) :
    Ends (openFresh position create) (world, host)
      (Got config folder first chunks host position create) fun _ _ => False := by
  unfold openFresh
  simp only [ends_bind, ends_get]
  cases create with
  | true =>
    simp only [if_true, ends_bind]
    refine Ends.mono (makeDirectory_provided same provided) ?_ fun _ _ => id
    rintro _ ⟨_, ready⟩ ⟨rfl, stocked, regions, timestamp⟩
    exact openRegion_provided same stocked timestamp (closed.of_regions regions) true
  | false =>
    simp only [Bool.false_eq_true, if_false, ends_bind]
    have untroubled := provided.untroubled
    have absent (nothing : chunks.within position = Chunks.empty) {examined : Host}
        (rests : host.Rests examined) :
        Got config folder first chunks host position false none (world, examined) :=
      ⟨same, provided.rests rests, rests.timestamp, fun _ => ⟨rfl, nothing⟩⟩
    have path := filePath_eq same position
    cases provided with
    | stocked stocked =>
      obtain ⟨node, found, shelf⟩ := stocked.shelves position
      refine Ends.mono (fileExists_ends untroubled (path ▸ Tree.exists?_of_filePlace found)) ?_ fun _ _ => id
      rintro _ ⟨_, examined⟩ ⟨rfl, rfl, rests, regions⟩
      cases shelf with
      | vacant nothing => exact absent nothing rests
      | taken =>
        simp only [Option.isSome_some, Bool.not_true, Bool.false_eq_true, if_false, ends_bind]
        exact openRegion_provided same (stocked.rests rests) rests.timestamp (closed.of_regions regions) false
    | missing missing nothing =>
      refine Ends.mono (fileExists_ends untroubled (path ▸ missing.absent position)) ?_ fun _ _ => id
      rintro _ ⟨_, examined⟩ ⟨rfl, rfl, rests, _⟩
      exact absent (nothing ▸ Chunks.within_empty position) rests

theorem obtain_provided (same : world.config = config)
    (provided : Provided config.directory folder first chunks host) {position : RegionPos}
    (closed : world.opened.find? position = none → Closed first host position) (create : Bool) :
    Ends (obtain position create) (world, host)
      (Got config folder first chunks host position create) fun _ _ => False := by
  have here (number : Nat) (recency : List RegionPos) (parked : List (RegionPos × Nat)) :
      Got config folder first chunks host position create (some number)
        ({ world with recency := recency, parked := parked }, host) :=
    ⟨same, provided, rfl, nofun⟩
  unfold obtain
  simp only [ends_bind, ends_get]
  cases found : world.opened.find? position with
  | some number =>
    simp only [change, ends_bind, ends_modify, ends_pure]
    refine Ends.mono (restful_hold number _) (fun _ _ => ?_) fun _ _ => And.left
    exact (here number _ _).rests
  | none =>
    dsimp only
    cases world.parked.lookup position with
    | none => exact openFresh_provided same provided (closed found) create
    | some number =>
      dsimp only
      rw [change, ends_bind, ends_modify, ends_ite]
      split
      · simp only [ends_bind, ends_pure]
        refine Ends.mono (restful_hold number _) (fun _ held rests => ?_) fun _ _ => And.left
        refine Ends.mono (restful_admitRegion position number held) (fun _ _ => ?_) fun _ _ => And.left
        exact ((here number _ _).rests rests).rests
      · have still : { world with parked := erased world.parked position }.config = config := same
        exact openFresh_provided still provided (closed found) create

omit [Codec] in
/-- The table holds all that is open when no caller has a handle. -/
theorem InOrder.closed (inOrder : InOrder first (fun _ => False) [] [] (world, host))
    {position : RegionPos} (absent : world.opened.find? position = none) : Closed first host position := by
  intro number own isOpen
  obtain ⟨positive, counted⟩ := inOrder.holders_of_openAt own isOpen
  rw [absent, if_neg nofun, List.count_nil] at counted
  omega

theorem release_provided (same : world.config = config)
    (stocked : Host.Stocked config.directory folder first chunks host) (number : Nat) :
    Ends (WithHost.host (Host.release number)) (world, host)
      (fun _ next => next.1.config = config ∧ Provided config.directory folder first chunks next.2)
      fun _ _ => False := by
  refine Ends.mono (restful_release number (world, host)) (fun _ _ rests => ?_) fun _ _ => And.left
  exact ⟨rests.config.trans same, .stocked (stocked.rests rests.host)⟩

theorem onChunk_provided {Result : Type} [Inhabited Result]
    (inOrder : InOrder first (fun _ => False) [] [] (world, host)) (same : world.config = config)
    (provided : Provided config.directory folder first chunks host) {chunk : ChunkPos} {create : Bool}
    {absent : Result} {action : OnRegion Result} {after : Chunks} {done : Result → Prop}
    {failed : Failure → Prop}
    (others : ∀ other ≠ chunk.regionOf, after.within other = chunks.within other)
    (missing : create = false → chunks.within chunk.regionOf = Chunks.empty → done absent ∧ after = chunks)
    (serves : ∀ region file, region.position = chunk.regionOf →
      Region.Represents (chunks.within chunk.regionOf) region file → file.Untroubled →
      file.around.timestamp = host.around.timestamp →
      Ends action (region, file)
        (fun result state => done result ∧ state.1.position = region.position ∧
          Region.Represents (after.within chunk.regionOf) state.1 state.2 ∧ file.Continues state.2)
        fun failure state => failed failure ∧ state.1.position = region.position ∧
          Region.Represents (after.within chunk.regionOf) state.1 state.2 ∧ file.Continues state.2) :
    Ends (onChunk chunk create absent action) (world, host)
      (fun result next => done result ∧ next.1.config = config ∧
        Provided config.directory folder first after next.2)
      fun failure next => failed failure ∧ next.1.config = config ∧
        Provided config.directory folder first after next.2 := by
  unfold onChunk
  rw [ends_bind]
  refine Ends.mono ((inOrder.obtain chunk.regionOf create).and
    (obtain_provided same provided inOrder.closed create)) ?_ fun _ _ both => both.2.elim
  rintro (_ | number) ⟨between, opened⟩ ⟨⟨obtained, _⟩, got⟩
  · obtain ⟨noCreate, nothing⟩ := got.nothing rfl
    obtain ⟨isDone, rfl⟩ := missing noCreate nothing
    exact ⟨isDone, got.same, got.provided⟩
  · obtain ⟨own, count, held⟩ := obtained.inOrder.live chunk.regionOf number (.inl List.mem_cons_self)
    obtain ⟨entry, found, isEntry⟩ := Option.map_eq_some_iff.1 held
    have position : entry.region.position = chunk.regionOf := congrArg Prod.fst isEntry
    have stocked := got.provided.stocked_of_open own found
    -- no handles are kept, so what is open at the place is what the table has there
    have alone (other : Nat) (again : OpenRegion) (ownOther : first ≤ other)
        (foundOther : opened.region? other = some again)
        (samePlace : again.region.position = entry.region.position) : other = number := by
      have isOpen := Host.openAt_of_region? foundOther
      rw [samePlace, position] at isOpen
      have session : Session.InOrder first (fun _ => False)
        ⟨between, opened, received chunk.regionOf (some number) []⟩ := obtained.inOrder
      exact session.eq_of_remembered ownOther own not_false not_false isOpen ⟨count, held⟩
    rw [← position] at others serves
    have used := stocked.onRegion own found alone others fun file represents untroubled around =>
      serves entry.region file rfl represents untroubled
        ((congrArg Surroundings.timestamp around).trans got.timestamp)
    simp only [ends_tryCatch, ends_bind, ends_throw]
    rw [ends_host]
    refine Ends.mono used ?_ ?_
    · rintro result last ⟨isDone, left⟩
      exact Ends.mono (release_provided got.same left number) (fun _ _ => And.intro isDone)
        fun _ _ => False.elim
    · rintro failure last ⟨hasFailed, left⟩
      exact Ends.mono (release_provided got.same left number) (fun _ _ => And.intro hasFailed)
        fun _ _ => False.elim

end

end RegionStore.World
