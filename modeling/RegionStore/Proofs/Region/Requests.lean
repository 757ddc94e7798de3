import RegionStore.Proofs.Region.Chunks
import RegionStore.Proofs.Region.Listing

/-!
What can be asked of an open region, and what a map from chunks to payloads would answer. On an
untroubled file the region answers the same, and stands for the same map afterwards.
-/

set_option autoImplicit false

namespace RegionStore

open Disk

inductive Request where
  | save (chunk : ChunkPos) (payload : Bytes) (tag : UInt8)
  | delete (chunk : ChunkPos)
  | load (chunk : ChunkPos)
  | has (chunk : ChunkPos)
  | timestamp (chunk : ChunkPos)
  | count
  | list
  | flush

inductive Answer where
  | done
  | failed (failure : Failure)
  | payload (found : Option Bytes)
  | presence (present : Bool)
  | second (found : Option Int32)
  | count (number : Nat)
  | chunks (list : List ChunkPos)
  deriving DecidableEq, Inhabited

variable [Codec]

def Request.run : Request → OnRegion Answer
  | .save chunk payload tag => (fun _ => .done) <$> Region.saveChunk chunk payload tag
  | .delete chunk => (fun _ => .done) <$> Region.deleteChunk chunk
  | .load chunk => .payload <$> Region.loadChunk chunk
  | .has chunk => .presence <$> Region.ask fun region => region.hasChunk chunk
  | .timestamp chunk => .second <$> Region.ask fun region => region.timestamp? chunk
  | .count => .count <$> Region.ask fun region => .ok region.count
  | .list => .chunks <$> Region.ask fun region => .ok (region.listing 0).chunks
  | .flush => (fun _ => .done) <$> Region.flush

/-- Why a payload is not saved with a tag, if it is not: it is not encoded, or its record takes too many
sectors. -/
def saveRefusal? (payload : Bytes) (tag : UInt8) : Option Failure :=
  match encodeChunk payload tag with
  | .ok data =>
    let sectors := sectorsOf (Region.record data).size
    if sectors ≤ maxExtentSectors then none else some (.recordTooLarge sectors)
  | .error failure => some failure

section
variable {payload data : Bytes} {tag : UInt8}

theorem saveRefusal?_of_small (accepted : encodeChunk payload tag = .ok data)
    (small : sectorsOf (Region.record data).size ≤ maxExtentSectors) : saveRefusal? payload tag = none := by
  rw [saveRefusal?, accepted]
  exact if_pos small

theorem saveRefusal?_of_large (accepted : encodeChunk payload tag = .ok data)
    (large : maxExtentSectors < sectorsOf (Region.record data).size) :
    saveRefusal? payload tag = some (.recordTooLarge (sectorsOf (Region.record data).size)) := by
  rw [saveRefusal?, accepted]
  exact if_neg (Nat.not_le_of_lt large)

theorem saveRefusal?_of_unencoded {failure : Failure} (refused : encodeChunk payload tag = .error failure) :
    saveRefusal? payload tag = some failure := by
  rw [saveRefusal?, refused]

end

namespace Chunks

variable (chunks : Chunks) (position : RegionPos)

/-- The chunks of a region that are in the map, in the order of their slots. -/
def list : List ChunkPos :=
  ((List.finRange slotCount).map position.chunkAt).filter fun chunk => (chunks chunk).isSome

def about (chunk : ChunkPos) (answer : Answer) : Answer :=
  if chunk.regionOf = position then answer else .failed (.foreignChunk chunk position)

def answer : Request → Answer
  | .save chunk payload tag => about position chunk ((saveRefusal? payload tag).elim .done .failed)
  | .delete chunk => about position chunk .done
  | .load chunk => about position chunk (.payload ((chunks chunk).map SavedChunk.payload))
  | .has chunk => about position chunk (.presence (chunks chunk).isSome)
  | .timestamp chunk => about position chunk (.second ((chunks chunk).map SavedChunk.second))
  | .count => .count (chunks.list position).length
  | .list => .chunks (chunks.list position)
  | .flush => .done

def after (second : Int32) : Request → Chunks
  | .save chunk payload tag =>
    if chunk.regionOf = position ∧ saveRefusal? payload tag = none then
      chunks.put chunk (some ⟨payload, second⟩)
    else chunks
  | .delete chunk => chunks.put chunk none
  | _ => chunks

end Chunks

namespace Region

structure Served (chunks : Chunks) (request : Request) (region : Region) (file : Device)
    (answer : Answer) (state : Region × Device) : Prop where
  answer : answer = chunks.answer region.position request
  represents : Represents (chunks.after region.position file.around.timestamp request) state.1 state.2
  position : state.1.position = region.position
  continues : file.Continues state.2

section
variable {chunks : Chunks} {region : Region} {file : Device}
  (represents : Represents chunks region file)
include represents

theorem Represents.put_none_of_absent {chunk : ChunkPos} {slot : Slot}
    (found : region.slot chunk = .ok slot) (absent : region.tables.extent? slot = none) :
    chunks.put chunk none = chunks := by
  have none := (represents.tells_own found).extent?_eq_none_iff.1 absent
  funext other
  unfold Chunks.put
  split
  · next same => rw [same, none]
  · rfl

theorem Represents.answer_of_foreign {chunk : ChunkPos} {failure : Failure} {answer : Answer}
    (refused : region.slot chunk = .error failure) :
    Chunks.about region.position chunk answer = .failed failure ∧
      chunk.regionOf ≠ region.position ∧ chunks.put chunk none = chunks := by
  unfold slot at refused
  split at refused
  · cases refused
  · next foreign =>
    cases refused
    refine ⟨if_neg foreign, foreign, ?_⟩
    funext other
    unfold Chunks.put
    split
    · next same => rw [same, represents.none_of_foreign foreign]
    · rfl

theorem Represents.served_refusal {chunk : ChunkPos} {slot : Slot} (found : region.slot chunk = .ok slot)
    {payload : Bytes} {tag : UInt8} {failure : Failure} (refused : saveRefusal? payload tag = some failure) :
    Served chunks (.save chunk payload tag) region file (.failed failure) (region, file) := by
  refine ⟨?_, ?_, rfl, Device.Continues.refl file⟩
  · simp only [Chunks.answer, Chunks.about]
    rw [if_pos (slot_eq_ok_iff.1 found).1, refused]
    rfl
  · simp only [Chunks.after]
    rwa [if_neg fun both => Option.some_ne_none failure (refused.symm.trans both.2)]

theorem Represents.serve_save [LawfulCodec] (untroubled : file.Untroubled) (chunk : ChunkPos)
    (payload : Bytes) (tag : UInt8) :
    Ends (Request.save chunk payload tag).run (region, file)
      (Served chunks (.save chunk payload tag) region file)
      fun failure => Served chunks (.save chunk payload tag) region file (.failed failure) := by
  have sound := represents.faithful.partitioned.sound
  have unchanged : file.Continues file := Device.Continues.refl file
  unfold Request.run
  rw [ends_map]
  refine Ends.mono (saveChunk_ends_untroubled sound untroubled chunk payload tag) ?_ ?_
  · rintro _ ⟨saved, after⟩ ⟨slot, data, found, accepted, ends⟩
    obtain ⟨extent, next, written, phases, _, _⟩ := ends.phases
    obtain ⟨placed, wrote, _⟩ := phases.phases
    have own := (slot_eq_ok_iff.1 found).1
    have taken := saveRefusal?_of_small accepted wrote.small
    obtain ⟨representsSaved, position, continues⟩ := represents.saved found accepted ends
    refine ⟨?_, ?_, position, continues⟩
    · simp only [Chunks.answer, Chunks.about]
      rw [if_pos own, taken]
      rfl
    · simp only [Chunks.after]
      rw [if_pos ⟨own, taken⟩]
      exact representsSaved
  · rintro failure ⟨_, _⟩ ⟨same, foreign | ⟨slot, found, unencoded | ⟨data, accepted, rejected⟩⟩⟩
    · cases same
      obtain ⟨answer, foreign, _⟩ := represents.answer_of_foreign foreign
      refine ⟨answer.symm, ?_, rfl, unchanged⟩
      simp only [Chunks.after]
      rwa [if_neg fun both => foreign both.1]
    · cases same
      exact represents.served_refusal found (saveRefusal?_of_unencoded unencoded)
    · cases same
      cases rejected with
      | large tooLarge => exact represents.served_refusal found (saveRefusal?_of_large accepted tooLarge)
      | full small moves beyond noRoom =>
        have short := represents.short
        rw [Partitioned.fragmentedSectors, maxExtentSectors] at short
        rw [maxSectorIndex] at beyond
        omega

theorem Represents.serve_delete (untroubled : file.Untroubled) (chunk : ChunkPos) :
    Ends (Request.delete chunk).run (region, file) (Served chunks (.delete chunk) region file)
      fun failure => Served chunks (.delete chunk) region file (.failed failure) := by
  have unchanged : file.Continues file := Device.Continues.refl file
  unfold Request.run
  rw [ends_map]
  refine Ends.mono (deleteChunk_ends_untroubled region untroubled chunk) ?_ ?_
  · rintro _ ⟨cleared, after⟩ ⟨slot, found, ⟨absent, same⟩ | ⟨extent, present, ends⟩⟩
    · cases same
      have nothing := represents.put_none_of_absent found absent
      refine ⟨(if_pos (slot_eq_ok_iff.1 found).1).symm, ?_, rfl, unchanged⟩
      simp only [Chunks.after]
      rwa [nothing]
    · obtain ⟨representsCleared, position, continues⟩ := represents.cleared found present ends
      exact ⟨(if_pos (slot_eq_ok_iff.1 found).1).symm, representsCleared, position, continues⟩
  · rintro failure ⟨_, _⟩ ⟨same, refused⟩
    cases same
    obtain ⟨answer, _, nothing⟩ := represents.answer_of_foreign refused
    refine ⟨answer.symm, ?_, rfl, unchanged⟩
    simp only [Chunks.after]
    rwa [nothing]

theorem Represents.find_eq {chunk : ChunkPos} {slot : Slot} (found : region.slot chunk = .ok slot) :
    region.find file.content chunk = .ok ((chunks chunk).map SavedChunk.payload) := by
  have tells := represents.tells_own found
  unfold find
  simp only [found]
  cases known : chunks chunk with
  | none =>
    rw [known] at tells
    have absent : region.tables.extent? slot = none := tells
    simp only [absent]
    rfl
  | some saved =>
    rw [known] at tells
    obtain ⟨extent, present, _, data⟩ := tells
    simp only [present, data]
    rfl

theorem Represents.serve_load (untroubled : file.Untroubled) (chunk : ChunkPos) :
    Ends (Request.load chunk).run (region, file) (Served chunks (.load chunk) region file)
      fun failure => Served chunks (.load chunk) region file (.failed failure) := by
  have expected : match region.find file.content chunk with
      | .ok result => Chunks.answer chunks region.position (.load chunk) = .payload result
      | .error failure => Chunks.answer chunks region.position (.load chunk) = .failed failure := by
    cases found : region.slot chunk with
    | error failure =>
      simp only [find, found]
      exact (represents.answer_of_foreign found).1
    | ok slot =>
      rw [represents.find_eq found]
      exact if_pos (slot_eq_ok_iff.1 found).1
  unfold Request.run
  rw [ends_map]
  refine Ends.mono (loadChunk_ends region untroubled.full untroubled.around.schedule.reads chunk) ?_ ?_
  · rintro result ⟨_, after⟩ ⟨rfl, keeps, found⟩
    rw [found] at expected
    exact ⟨expected.symm, represents.congr keeps.content, rfl, keeps.continues⟩
  · rintro failure ⟨_, after⟩ ⟨rfl, keeps, found⟩
    rw [found] at expected
    exact ⟨expected.symm, represents.congr keeps.content, rfl, keeps.continues⟩

theorem Represents.serve_question {Result : Type} (request : Request)
    (question : Region → Except Failure Result) (form : Result → Answer)
    (isQuestion : request.run = form <$> ask question)
    (kept : ∀ second, chunks.after region.position second request = chunks)
    (expected : match question region with
      | .ok result => chunks.answer region.position request = form result
      | .error failure => chunks.answer region.position request = .failed failure) :
    Ends request.run (region, file) (Served chunks request region file)
      fun failure => Served chunks request region file (.failed failure) := by
  have unchanged : file.Continues file := Device.Continues.refl file
  have same : Represents (chunks.after region.position file.around.timestamp request) region file := by
    rwa [kept]
  rw [isQuestion]
  unfold ask
  simp only [ends_map, ends_bind, ends_get, ends_ofExcept]
  cases asked : question region with
  | ok result =>
    rw [asked] at expected
    exact ⟨expected.symm, same, rfl, unchanged⟩
  | error failure =>
    rw [asked] at expected
    exact ⟨expected.symm, same, rfl, unchanged⟩

theorem Represents.hasChunk_eq {chunk : ChunkPos} {slot : Slot} (found : region.slot chunk = .ok slot) :
    region.hasChunk chunk = .ok (chunks chunk).isSome := by
  have absent := (represents.tells_own found).extent?_eq_none_iff
  have same : (region.tables.extent? slot).isSome = (chunks chunk).isSome := by
    rw [Bool.eq_iff_iff, Option.isSome_iff_ne_none, Option.isSome_iff_ne_none, ne_eq, ne_eq, absent]
  rw [hasChunk, found]
  exact congrArg Except.ok same

theorem Represents.serve_has (chunk : ChunkPos) :
    Ends (Request.has chunk).run (region, file) (Served chunks (.has chunk) region file)
      fun failure => Served chunks (.has chunk) region file (.failed failure) := by
  refine represents.serve_question _ _ _ rfl (fun _ => rfl) ?_
  cases found : region.slot chunk with
  | error failure =>
    simp only [hasChunk, found]
    exact (represents.answer_of_foreign found).1
  | ok slot =>
    rw [represents.hasChunk_eq found]
    exact if_pos (slot_eq_ok_iff.1 found).1

theorem Represents.serve_timestamp (chunk : ChunkPos) :
    Ends (Request.timestamp chunk).run (region, file) (Served chunks (.timestamp chunk) region file)
      fun failure => Served chunks (.timestamp chunk) region file (.failed failure) := by
  refine represents.serve_question _ _ _ rfl (fun _ => rfl) ?_
  unfold timestamp?
  cases found : region.slot chunk with
  | error failure => exact (represents.answer_of_foreign found).1
  | ok slot =>
    have tells := represents.tells_own found
    have same : (chunks chunk).map SavedChunk.second = region.tables.timestamp? slot := by
      cases known : chunks chunk with
      | none =>
        rw [known] at tells
        exact (Tables.timestamp?_eq_none_iff.2 tells).symm
      | some saved =>
        rw [known] at tells
        obtain ⟨_, _, second, _⟩ := tells
        exact second.symm
    refine (if_pos (slot_eq_ok_iff.1 found).1).trans ?_
    rw [same]

theorem Represents.list_eq : chunks.list region.position =
    ((List.finRange slotCount).filter fun slot => region.tables.offsets.get slot ≠ 0).map
      region.position.chunkAt := by
  rw [Chunks.list, List.filter_map]
  refine congrArg (List.map region.position.chunkAt) (List.filter_congr fun slot _ => ?_)
  have absent := (represents.tells slot).extent?_eq_none_iff
  rw [Tables.extent?_eq_none_iff] at absent
  rw [Function.comp_apply, Bool.eq_iff_iff, Option.isSome_iff_ne_none, decide_eq_true_eq, ne_eq, ne_eq,
    absent]

theorem Represents.serve_list :
    Ends Request.list.run (region, file) (Served chunks .list region file)
      fun failure => Served chunks .list region file (.failed failure) := by
  refine represents.serve_question _ _ _ rfl (fun _ => rfl) ?_
  exact congrArg Answer.chunks (represents.list_eq.trans (Listing.chunks_eq (region.listing 0)).symm)

theorem Represents.serve_count :
    Ends Request.count.run (region, file) (Served chunks .count region file)
      fun failure => Served chunks .count region file (.failed failure) := by
  refine represents.serve_question _ _ _ rfl (fun _ => rfl) ?_
  refine congrArg Answer.count ?_
  rw [represents.list_eq, List.length_map, Region.count, Tables.count_eq, List.countP_eq_length_filter]

theorem Represents.serve_flush (untroubled : file.Untroubled) :
    Ends Request.flush.run (region, file) (Served chunks .flush region file)
      fun failure => Served chunks .flush region file (.failed failure) := by
  unfold Request.run
  rw [ends_map]
  refine Ends.mono (flush_ends region file) ?_ ?_
  · rintro _ ⟨_, after⟩ ⟨rfl, keeps⟩
    exact ⟨rfl, represents.congr keeps.content, rfl, keeps.continues⟩
  · rintro _ _ ⟨_, _, troubled⟩
    exact absurd untroubled troubled

theorem Represents.serve [LawfulCodec] (untroubled : file.Untroubled) (request : Request) :
    Ends request.run (region, file) (Served chunks request region file)
      fun failure => Served chunks request region file (.failed failure) := by
  cases request with
  | save chunk payload tag => exact represents.serve_save untroubled chunk payload tag
  | delete chunk => exact represents.serve_delete untroubled chunk
  | load chunk => exact represents.serve_load untroubled chunk
  | has chunk => exact represents.serve_has chunk
  | timestamp chunk => exact represents.serve_timestamp chunk
  | count => exact represents.serve_count
  | list => exact represents.serve_list
  | flush => exact represents.serve_flush untroubled

end

end Region
end RegionStore
