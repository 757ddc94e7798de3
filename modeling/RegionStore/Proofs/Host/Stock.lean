import RegionStore.Proofs.Disk.Path
import RegionStore.Proofs.Host.Opening
import RegionStore.Proofs.Host.Resting
import RegionStore.Proofs.Region.Requests

/-!
The files of a directory that have the regions of one map. Each file has the chunks of the region it is
named for, whether the region is open or not, and no two regions have one file; so what is done to one
region changes nothing for the others, and a region that is opened finds its chunks.
-/

set_option autoImplicit false

namespace RegionStore

open Disk

def Chunks.within (chunks : Chunks) (position : RegionPos) : Chunks := fun chunk =>
  if chunk.regionOf = position then chunks chunk else none

theorem Chunks.within_own (chunks : Chunks) (chunk : ChunkPos) :
    chunks.within chunk.regionOf chunk = chunks chunk := if_pos rfl

theorem Chunks.within_put (chunks : Chunks) (chunk : ChunkPos) (saved : Option SavedChunk) :
    (chunks.put chunk saved).within chunk.regionOf = (chunks.within chunk.regionOf).put chunk saved := by
  funext other
  unfold within put
  by_cases here : other = chunk
  · rw [if_pos here, if_pos here, if_pos (congrArg ChunkPos.regionOf here)]
  · rw [if_neg here, if_neg here]

theorem Chunks.within_put_of_ne (chunks : Chunks) {chunk : ChunkPos} {position : RegionPos}
    (foreign : position ≠ chunk.regionOf) (saved : Option SavedChunk) :
    (chunks.put chunk saved).within position = chunks.within position := by
  funext other
  unfold within put
  by_cases here : other = chunk
  · subst here
    rw [if_neg (Ne.symm foreign), if_neg (Ne.symm foreign)]
  · rw [if_neg here]

theorem Chunks.eq_none_of_within_empty (chunks : Chunks) {chunk : ChunkPos}
    (empty : chunks.within chunk.regionOf = Chunks.empty) : chunks chunk = none := by
  rw [← chunks.within_own chunk, empty]
  rfl

theorem Chunks.within_empty (position : RegionPos) : Chunks.empty.within position = Chunks.empty :=
  funext fun _ => ite_self _

variable [Codec]

namespace Region

/-- A content has the chunks of a region: it is that of its file, or there are none and it is empty. -/
inductive Stands (chunks : Chunks) (position : RegionPos) (content : Content) : Prop where
  | blank (empty : content.size = 0) (nothing : chunks = Chunks.empty)
  | written {region : Region} {file : Device} (same : file.content = content)
    (isPosition : region.position = position) (represents : Represents chunks region file)

theorem Stands.load {chunks : Chunks} {position : RegionPos} {file : Device}
    (stands : Stands chunks position file.content) (untroubled : file.Untroubled) (sync : Bool) :
    ∃ region after, load position sync file = .ok region after ∧ region.position = position ∧
      Represents chunks region after ∧ file.Continues after := by
  cases stands with
  | blank empty nothing =>
    obtain ⟨region, after, ran, loaded⟩ := exists_load position sync untroubled (.inl empty)
    exact ⟨region, after, ran, loaded.position, nothing ▸ represents_of_loaded loaded empty,
      loaded.prepared.continues⟩
  | @written old before same isPosition represents =>
    subst isPosition
    have here : Represents chunks old file := represents.congr same.symm
    have admissible : Admissible file.content.size := by
      refine here.faithful.admissible (Nat.le_trans represents.short ?_)
      decide
    obtain ⟨region, after, ran, loaded⟩ := exists_load old.position sync untroubled admissible
    exact ⟨region, after, ran, loaded.position, here.reopened untroubled loaded, loaded.prepared.continues⟩

end Region

namespace Host

def regionPath (directory : Bytes) (position : RegionPos) : Bytes :=
  Path.join directory position.fileName

omit [Codec] in
theorem Leads.of_sameFiles {before after : Host} {path : Bytes} {file : Nat}
    (leads : before.Leads path file) (same : before.SameFiles after) : after.Leads path file := by
  obtain ⟨place, found⟩ := leads.place
  exact ⟨⟨place, same.tree.symm ▸ found⟩, same.count.symm ▸ leads.inside⟩

omit [Codec] in
theorem SameFiles.symm {before after : Host} (same : before.SameFiles after) : after.SameFiles before :=
  ⟨same.tree.symm, same.count.symm⟩

omit [Codec] in
/-- A path leads to one file. -/
theorem Leads.unique {host : Host} {path : Bytes} {file : Nat} (leads : host.Leads path file)
    {place : Tree.Place} {node : Option Node} (found : host.tree.filePlace path = .ok (place, node)) :
    node = some (.file file) := by
  obtain ⟨_, same⟩ := leads.place
  rw [found, Except.ok.injEq, Prod.mk.injEq] at same
  exact same.2

omit [Codec] in
theorem content_keep {host : Host} {file : Nat} (inside : file < host.contents.size) (path : Bytes)
    (device : Device) (other : Nat) : (host.keep ⟨path, some file⟩ device).content other =
      if other = file then device.content else host.content other := by
  have kept : (host.keep ⟨path, some file⟩ device).contents =
      host.contents.setIfInBounds file device.content := rfl
  rw [content, kept, content, Array.getD_eq_getD_getElem?, Array.getD_eq_getD_getElem?,
    Array.getElem?_setIfInBounds]
  by_cases here : file = other
  · rw [if_pos here, if_pos inside, if_pos here.symm]
    rfl
  · rw [if_neg here, if_neg (Ne.symm here)]

/-- What is at the place of the file of a region: nothing, or a file with its chunks. -/
inductive Shelf (chunks : Chunks) (position : RegionPos) (host : Host) : Option Node → Prop where
  | vacant (nothing : chunks = Chunks.empty) : Shelf chunks position host none
  | taken {file : Nat} (inside : file < host.contents.size)
    (stands : Region.Stands chunks position (host.content file)) :
    Shelf chunks position host (some (.file file))

structure Live (directory : Bytes) (chunks : Chunks) (host : Host) (entry : OpenRegion) : Prop where
  leads : ∃ file, entry.handle = ⟨regionPath directory entry.region.position, some file⟩ ∧
    host.Leads (regionPath directory entry.region.position) file
  represents : Region.Represents (chunks.within entry.region.position) entry.region
    (host.device entry.handle)

section
variable {chunks after : Chunks} {host next : Host}

theorem Shelf.transfer {position : RegionPos} {node : Option Node} (shelf : Shelf chunks position host node)
    (larger : host.contents.size ≤ next.contents.size)
    (kept : ∀ file, node = some (.file file) → file < host.contents.size →
      next.content file = host.content file) : Shelf chunks position next node := by
  cases shelf with
  | vacant nothing => exact .vacant nothing
  | taken inside stands =>
    exact .taken (Nat.lt_of_lt_of_le inside larger) ((kept _ rfl inside).symm ▸ stands)

theorem Live.transfer {directory : Bytes} {entry : OpenRegion} (live : Live directory chunks host entry)
    (same : after.within entry.region.position = chunks.within entry.region.position)
    (kept : ∀ file, host.Leads (regionPath directory entry.region.position) file →
      next.Leads (regionPath directory entry.region.position) file ∧
        next.content file = host.content file) : Live directory after next entry := by
  obtain ⟨file, handle, leads⟩ := live.leads
  obtain ⟨leadsNext, content⟩ := kept file leads
  refine ⟨⟨file, handle, leadsNext⟩, ?_⟩
  rw [same]
  refine live.represents.congr ?_
  rw [handle]
  exact content

end

/-- The directory has the files of all regions of the map, by their names. The open ones with numbers
from `first` on are such regions. -/
structure Stocked (directory : Bytes) (folder first : Nat) (chunks : Chunks) (host : Host) : Prop where
  untroubled : host.around.Untroubled
  inside : folder < host.tree.directories.size
  there : host.tree.look directory = .ok (.directory folder)
  shelves : ∀ position, ∃ node, host.tree.filePlace (regionPath directory position) =
    .ok (⟨folder, position.fileName, false⟩, node) ∧ Shelf (chunks.within position) position host node
  apart : ∀ a b file, host.Leads (regionPath directory a) file → host.Leads (regionPath directory b) file →
    a = b
  live : ∀ number entry, first ≤ number → host.region? number = some entry →
    Live directory chunks host entry

section
variable {directory : Bytes} {folder first : Nat} {chunks : Chunks} {host : Host}
  (stocked : Stocked directory folder first chunks host)
include stocked

/-- A region is opened or used, and stands for its part of another map that differs from the old one only
there. -/
theorem Stocked.settle {position : RegionPos} {file : Nat}
    (leads : host.Leads (regionPath directory position) file) {device : Device}
    (continues : (host.device ⟨regionPath directory position, some file⟩).Continues device)
    {region : Region} (isPosition : region.position = position) {after : Chunks}
    (represents : Region.Represents (after.within position) region device)
    (others : ∀ other ≠ position, after.within other = chunks.within other) {number : Nat}
    (alone : ∀ other entry, first ≤ other → host.region? other = some entry →
      entry.region.position = position → other = number) (holders : Nat) :
    Stocked directory folder first after
      ((host.keep ⟨regionPath directory position, some file⟩ device).setRegion number
        ⟨region, ⟨regionPath directory position, some file⟩, holders⟩) := by
  have same : host.SameFiles ((host.keep ⟨regionPath directory position, some file⟩ device).setRegion number
      ⟨region, ⟨regionPath directory position, some file⟩, holders⟩) :=
    (sameFiles_keep host _ device).trans ⟨rfl, rfl⟩
  -- one file changes, and the paths of other regions do not lead to it
  have content (other : Nat) := content_keep leads.inside (regionPath directory position) device other
  refine ⟨(continues.untroubled ⟨rfl, stocked.untroubled⟩).around, same.tree.symm ▸ stocked.inside,
    same.tree.symm ▸ stocked.there, fun other => ?_, fun a b shared leadsA leadsB => ?_,
    fun other entry own found => ?_⟩
  · obtain ⟨node, found, shelf⟩ := stocked.shelves other
    refine ⟨node, same.tree.symm ▸ found, ?_⟩
    by_cases here : other = position
    · subst here
      obtain rfl := leads.unique found
      refine .taken (same.count.symm ▸ leads.inside) (.written ?_ isPosition represents)
      exact ((content file).trans (if_pos rfl)).symm
    · rw [others other here]
      refine shelf.transfer (Nat.le_of_eq same.count.symm) ?_
      rintro file' rfl inside
      refine (content file').trans (if_neg ?_)
      rintro rfl
      exact here (stocked.apart other position file' ⟨⟨_, found⟩, inside⟩ leads)
  · exact stocked.apart a b shared (leadsA.of_sameFiles same.symm) (leadsB.of_sameFiles same.symm)
  · rw [region?_insert, region?_keep] at found
    split at found
    · cases found
      subst isPosition
      refine ⟨⟨file, rfl, leads.of_sameFiles same⟩, ?_⟩
      exact (device_keep leads.inside continues).symm ▸ represents
    · next different =>
      have elsewhere : entry.region.position ≠ position := fun here =>
        different (alone other entry own found here)
      refine (stocked.live other entry own found).transfer (others _ elsewhere) fun file' leadsOther =>
        ⟨leadsOther.of_sameFiles same, (content file').trans (if_neg ?_)⟩
      rintro rfl
      exact elsewhere (stocked.apart _ position file' leadsOther leads)

theorem Stocked.stays {next : Host} (stays : host.Stays next) (untroubled : next.around.Untroubled) :
    Stocked directory folder first chunks next := by
  have same := stays.sameFiles
  have content (file : Nat) : next.content file = host.content file :=
    congrArg (fun contents => contents.getD file Content.empty) stays.contents
  refine ⟨untroubled, stays.tree.symm ▸ stocked.inside, stays.tree.symm ▸ stocked.there,
    fun position => ?_, fun a b file leadsA leadsB => ?_, fun number entry own found => ?_⟩
  · obtain ⟨node, found, shelf⟩ := stocked.shelves position
    exact ⟨node, stays.tree.symm ▸ found,
      shelf.transfer (Nat.le_of_eq same.count.symm) fun file _ _ => content file⟩
  · exact stocked.apart a b file (leadsA.of_sameFiles same.symm) (leadsB.of_sameFiles same.symm)
  · obtain ⟨old, foundOld, sameRegion, sameHandle⟩ := stays.regions number entry found
    have live := (stocked.live number old own foundOld).transfer rfl fun file leads =>
      ⟨leads.of_sameFiles same, content file⟩
    exact ⟨sameRegion ▸ sameHandle ▸ live.leads, sameRegion ▸ sameHandle ▸ live.represents⟩

theorem Stocked.rests {next : Host} (rests : host.Rests next) :
    Stocked directory folder first chunks next :=
  stocked.stays rests.toStays (rests.untroubled stocked.untroubled)

/-- An action on an open region that has done its part of a change of the map. -/
theorem Stocked.onRegion {Result : Type} [Inhabited Result] {number : Nat} {entry : OpenRegion}
    (own : first ≤ number) (found : host.region? number = some entry)
    (alone : ∀ other again, first ≤ other → host.region? other = some again →
      again.region.position = entry.region.position → other = number)
    {action : OnRegion Result} {after : Chunks}
    (others : ∀ other ≠ entry.region.position, after.within other = chunks.within other)
    {done : Result → Prop} {failed : Failure → Prop}
    (serves : ∀ file, Region.Represents (chunks.within entry.region.position) entry.region file →
      file.Untroubled → file.around = host.around →
      Ends action (entry.region, file)
        (fun result state => done result ∧ state.1.position = entry.region.position ∧
          Region.Represents (after.within entry.region.position) state.1 state.2 ∧ file.Continues state.2)
        fun failure state => failed failure ∧ state.1.position = entry.region.position ∧
          Region.Represents (after.within entry.region.position) state.1 state.2 ∧ file.Continues state.2) :
    Ends (onRegion number action) host
      (fun result next => done result ∧ Stocked directory folder first after next)
      fun failure next => failed failure ∧ Stocked directory folder first after next := by
  obtain ⟨⟨file, isHandle, leads⟩, represents⟩ := stocked.live number entry own found
  obtain ⟨region, handle, holders⟩ := entry
  dsimp only at *
  subst isHandle
  have settled {state : Region × Device} (isPosition : state.1.position = region.position)
      (changed : Region.Represents (after.within region.position) state.1 state.2)
      (continues : Device.Continues _ state.2) :=
    stocked.settle leads continues isPosition changed others alone holders
  rw [ends_onRegion found]
  refine Ends.mono (serves _ represents ⟨rfl, stocked.untroubled⟩ rfl) ?_ ?_
  · rintro result state ⟨isDone, isPosition, changed, continues⟩
    exact ⟨isDone, settled isPosition changed continues⟩
  · rintro failure state ⟨hasFailed, isPosition, changed, continues⟩
    exact ⟨hasFailed, settled isPosition changed continues⟩

section
variable {position : RegionPos} (vacant : host.tree.filePlace (regionPath directory position) =
  .ok (⟨folder, position.fileName, false⟩, none))
include vacant

theorem Stocked.filePlace_withFile {other : RegionPos} (different : other ≠ position) {node : Option Node}
    (found : host.tree.filePlace (regionPath directory other) =
      .ok (⟨folder, other.fileName, false⟩, node)) :
    (host.withFile ⟨folder, position.fileName, false⟩).tree.filePlace (regionPath directory other) =
      .ok (⟨folder, other.fileName, false⟩, node) :=
  Tree.filePlace_put_of_ne stocked.inside (Tree.find_of_vacant vacant).2 (.file host.contents.size) found
    fun both => different (RegionPos.fileName_injective both.2)

theorem Stocked.leads_withFile {other : RegionPos} {file : Nat}
    (leads : (host.withFile ⟨folder, position.fileName, false⟩).Leads (regionPath directory other) file) :
    other = position ∧ file = host.contents.size ∨
      file < host.contents.size ∧ host.Leads (regionPath directory other) file := by
  by_cases here : other = position
  · subst here
    have made := Tree.filePlace_put stocked.inside vacant host.contents.size
    cases leads.unique made
    exact .inl ⟨rfl, rfl⟩
  · obtain ⟨node, before, shelf⟩ := stocked.shelves other
    obtain rfl := leads.unique (stocked.filePlace_withFile vacant here before)
    cases shelf with
    | taken inside _ => exact .inr ⟨inside, ⟨_, before⟩, inside⟩

theorem Stocked.make :
    Stocked directory folder first chunks (host.withFile ⟨folder, position.fileName, false⟩) := by
  have fresh := (Tree.find_of_vacant vacant).2
  have made := Tree.filePlace_put stocked.inside vacant host.contents.size
  have larger : host.contents.size ≤ (host.withFile ⟨folder, position.fileName, false⟩).contents.size :=
    count_withFile ▸ Nat.le_succ _
  refine ⟨stocked.untroubled, (Tree.size_put ..).symm ▸ stocked.inside,
    Tree.look_put stocked.inside fresh _ stocked.there, fun other => ?_,
    fun a b file leadsA leadsB => ?_, fun number entry own found => ?_⟩
  · obtain ⟨node, before, shelf⟩ := stocked.shelves other
    by_cases here : other = position
    · subst here
      rw [vacant] at before
      cases before
      cases shelf with
      | vacant nothing =>
        refine ⟨_, made, .taken (count_withFile ▸ Nat.lt_succ_self _) (.blank ?_ nothing)⟩
        exact congrArg Content.size content_withFile
    · exact ⟨node, stocked.filePlace_withFile vacant here before,
        shelf.transfer larger fun _ _ inside => content_withFile_of_lt inside⟩
  · rcases stocked.leads_withFile vacant leadsA with ⟨rfl, rfl⟩ | ⟨oldA, leadsA⟩
    · rcases stocked.leads_withFile vacant leadsB with ⟨rfl, _⟩ | ⟨oldB, _⟩
      · rfl
      · exact absurd oldB (Nat.lt_irrefl _)
    · rcases stocked.leads_withFile vacant leadsB with ⟨_, rfl⟩ | ⟨_, leadsB⟩
      · exact absurd oldA (Nat.lt_irrefl _)
      · exact stocked.apart a b file leadsA leadsB
  · refine (stocked.live number entry own found).transfer rfl fun file leads => ?_
    have elsewhere : entry.region.position ≠ position := by
      intro here
      cases leads.unique (here ▸ vacant)
    obtain ⟨node, before, _⟩ := stocked.shelves entry.region.position
    obtain rfl := leads.unique before
    exact ⟨⟨⟨_, stocked.filePlace_withFile vacant elsewhere before⟩,
      Nat.lt_of_lt_of_le leads.inside larger⟩, content_withFile_of_lt leads.inside⟩

end

theorem Stocked.stands {position : RegionPos} {file : Nat}
    (leads : host.Leads (regionPath directory position) file) :
    Region.Stands (chunks.within position) position (host.content file) := by
  obtain ⟨node, found, shelf⟩ := stocked.shelves position
  obtain rfl := leads.unique found
  cases shelf with
  | taken _ stands => exact stands

theorem Stocked.openFile (position : RegionPos) :
    ∃ file opened, Host.openFile (regionPath directory position) host =
        .ok ⟨regionPath directory position, some file⟩ opened ∧
      opened.Leads (regionPath directory position) file ∧
      Stocked directory folder first chunks opened ∧ opened.regions = host.regions ∧
      opened.around = host.afterOpening := by
  have accepted := Turns.refusal_settle stocked.untroubled.schedule.opening
  have ready := stocked.stays (stays_inSurroundings host host.afterOpening)
    (untroubled_afterOpening stocked.untroubled)
  obtain ⟨node, found, shelf⟩ := stocked.shelves position
  cases shelf with
  | vacant _ =>
    have made := Tree.filePlace_put stocked.inside found host.contents.size
    refine ⟨_, _, openFile_of_absent accepted found, ⟨⟨_, made⟩, ?_⟩, ready.make found, rfl, rfl⟩
    exact count_withFile ▸ Nat.lt_succ_self host.contents.size
  | taken inside _ =>
    have leads : host.Leads (regionPath directory position) _ := ⟨⟨_, found⟩, inside⟩
    exact ⟨_, _, leads.openFile accepted, ⟨leads.place, leads.inside⟩, ready, rfl, rfl⟩

/-- A region is opened that is not open yet, and has its chunks. -/
theorem Stocked.openRegion {position : RegionPos}
    (closed : ∀ number entry, first ≤ number → host.region? number = some entry →
      entry.region.position ≠ position) (sync : Bool) :
    Ends (Host.openRegion (regionPath directory position) position sync) host
      (fun _ next => Stocked directory folder first chunks next ∧
        next.around.timestamp = host.around.timestamp)
      fun _ _ => False := by
  obtain ⟨file, opened, ran, leads, ready, sameRegions, around⟩ := stocked.openFile position
  have untroubled : (opened.device ⟨regionPath directory position, some file⟩).Untroubled :=
    ⟨rfl, ready.untroubled⟩
  obtain ⟨region, device, loadRan, isPosition, represents, continues⟩ :=
    Region.Stands.load (ready.stands leads) untroubled sync
  have alone (number other : Nat) (entry : OpenRegion) (own : first ≤ other)
      (found : opened.region? other = some entry) (here : entry.region.position = position) :
      other = number := by
    refine absurd here (closed other entry own ?_)
    rw [region?, ← sameRegions]
    exact found
  have settled := ready.settle leads continues isPosition represents (fun _ _ => rfl)
    (alone opened.nextRegion) 1
  have openedIn : opened.around.timestamp = host.around.timestamp :=
    (congrArg Surroundings.timestamp around :)
  have second : device.around.timestamp = host.around.timestamp := continues.timestamp.trans openedIn
  unfold Host.openRegion
  rw [ends_bind, ends_of_eq_ok ran, ends_tryCatch, ends_bind, ends_onDevice, ends_of_eq_ok loadRan]
  exact ⟨settled.stays ⟨rfl, rfl, fun _ entry found => ⟨entry, found, rfl, rfl⟩⟩ settled.untroubled, second⟩

end

end Host
end RegionStore
