import RegionStore.Proofs.Host.Basic
import RegionStore.Proofs.Region.Load

/-!
Opening region files by their paths when no call fails. The file is the one that the path leads to, or a
new one, and the region that is loaded from it gets a number of its own.
-/

set_option autoImplicit false

namespace RegionStore.Host

open Disk

def afterOpening (host : Host) : Surroundings :=
  host.around.setTurns .opening (host.around.turns .opening).settle.ahead

theorem mild_afterOpening {host : Host} (mild : host.around.schedule.Mild) :
    host.afterOpening.schedule.Mild := by
  have continues := Device.continues_setTurns ⟨ByteArray.empty, Content.empty, false, host.around⟩ .opening
    fun _ _ all => Turns.all_settle all
  exact continues.mild mild

theorem untroubled_afterOpening {host : Host} (untroubled : host.around.Untroubled) :
    host.afterOpening.Untroubled :=
  ⟨untroubled.ceiling, mild_afterOpening untroubled.schedule⟩

def withFile (host : Host) (place : Tree.Place) : Host :=
  { host with
    tree := host.tree.put place (.file host.contents.size)
    contents := host.contents.push Content.empty }

section
variable {host : Host} {place : Tree.Place}

theorem count_withFile : (host.withFile place).contents.size = host.contents.size + 1 := Array.size_push _

theorem content_withFile : (host.withFile place).content host.contents.size = Content.empty := by
  have pushed : (host.withFile place).contents = host.contents.push Content.empty := rfl
  rw [content, pushed, Array.getD_eq_getD_getElem?, Array.getElem?_push_size]
  rfl

theorem content_withFile_of_lt {file : Nat} (inside : file < host.contents.size) :
    (host.withFile place).content file = host.content file := by
  have pushed : (host.withFile place).contents = host.contents.push Content.empty := rfl
  rw [content, pushed, content, Array.getD_eq_getD_getElem?, Array.getD_eq_getD_getElem?,
    Array.getElem?_push, if_neg (Nat.ne_of_lt inside)]

theorem Sound.leads_withFile (sound : host.Sound) {path : Bytes}
    (found : host.tree.filePlace path = .ok (place, none)) :
    (host.withFile place).Leads path host.contents.size := by
  have inside := sound.tree.of_locate (Tree.locate_of_filePlace found)
  refine ⟨⟨place, Tree.filePlace_put inside found host.contents.size⟩, ?_⟩
  exact count_withFile ▸ Nat.lt_succ_self host.contents.size

end

section
variable {host : Host} {path : Bytes}

section
variable (accepted : (host.around.turns .opening).settle.refusal = none)
include accepted

theorem openFile_of_accepted {place : Tree.Place} {node : Option Node}
    (found : host.tree.filePlace path = .ok (place, node)) :
    openFile path host =
      .ok ⟨path, (fileAt { host with around := host.afterOpening } place node).1⟩
        (fileAt { host with around := host.afterOpening } place node).2 := by
  simp only [openFile, accepted, found]
  rfl

theorem Leads.openFile {file : Nat} (leads : host.Leads path file) :
    openFile path host = .ok ⟨path, some file⟩ { host with around := host.afterOpening } := by
  obtain ⟨place, found⟩ := leads.place
  rw [openFile_of_accepted accepted found]
  rfl

theorem openFile_of_absent {place : Tree.Place} (found : host.tree.filePlace path = .ok (place, none)) :
    openFile path host = .ok ⟨path, some host.contents.size⟩
      ({ host with around := host.afterOpening }.withFile place) :=
  openFile_of_accepted accepted found

/-- A path to nothing or to an empty file opens an empty file, to which it leads from then on. -/
theorem Vacant.openFile (sound : host.Sound) (vacant : host.Vacant path) :
    ∃ file opened, openFile path host = .ok ⟨path, some file⟩ opened ∧ opened.Leads path file ∧
      (opened.content file).size = 0 ∧ opened.around = host.afterOpening := by
  rcases vacant with ⟨place, found⟩ | ⟨place, file, found, empty⟩
  · have leads := sound.leads_withFile found
    exact ⟨_, _, openFile_of_absent accepted found, ⟨leads.place, leads.inside⟩,
      congrArg Content.size content_withFile, rfl⟩
  · have leads := sound.leads found
    exact ⟨file, _, leads.openFile accepted, ⟨leads.place, leads.inside⟩, empty, rfl⟩

end

variable (untroubled : host.around.Untroubled)
include untroubled

theorem openFile_of_leads {file : Nat} (leads : host.Leads path file) :
    openFile path host = .ok ⟨path, some file⟩ { host with around := host.afterOpening } :=
  leads.openFile (Turns.refusal_settle untroubled.schedule.opening)

theorem openFile_of_vacant (sound : host.Sound) (vacant : host.Vacant path) :
    ∃ file opened, openFile path host = .ok ⟨path, some file⟩ opened ∧ opened.Leads path file ∧
      (opened.content file).size = 0 ∧ opened.around = host.afterOpening :=
  vacant.openFile (Turns.refusal_settle untroubled.schedule.opening) sound

end

structure Opened (path : Bytes) (file number : Nat) (region : Region) (host : Host) : Prop where
  leads : host.Leads path file
  region : host.region? number = some ⟨region, ⟨path, some file⟩, 1⟩
  untroubled : host.around.Untroubled

theorem Opened.device {path : Bytes} {file number : Nat} {region : Region} {host : Host}
    (opened : Opened path file number region host) :
    (host.device ⟨path, some file⟩).Untroubled := ⟨rfl, opened.untroubled⟩

theorem openRegion_of_openFile {path : Bytes} {file : Nat} {host opened : Host}
    (ran : openFile path host = .ok ⟨path, some file⟩ opened) (leads : opened.Leads path file)
    (untroubled : opened.around.Untroubled)
    (admissible : Region.Admissible (opened.content file).size) (position : RegionPos) (sync : Bool) :
    ∃ number region after, openRegion path position sync host = .ok number after ∧
      Opened path file number region after ∧
      Region.Loaded position sync (opened.device ⟨path, some file⟩) region
        (after.device ⟨path, some file⟩) := by
  have calm : (opened.device ⟨path, some file⟩).Untroubled := ⟨rfl, untroubled⟩
  obtain ⟨region, device, loadRan, loaded⟩ := Region.exists_load position sync calm admissible
  have continues := loaded.prepared.continues
  have device_eq := device_keep leads.inside continues
  have onDevice : Ends (onDevice ⟨path, some file⟩ (Region.load position sync)) opened
      (fun result next => result = region ∧ next = opened.keep ⟨path, some file⟩ device)
      fun _ _ => False := by
    rw [ends_onDevice, ends_of_eq_ok loadRan]
    exact ⟨rfl, rfl⟩
  have ends : Ends (openRegion path position sync) host
      (fun number after => Opened path file number region after ∧
        after.device ⟨path, some file⟩ = device) fun _ _ => False := by
    unfold openRegion
    rw [ends_bind, ends_of_eq_ok ran, ends_tryCatch, ends_bind]
    refine Ends.mono onDevice ?_ fun _ _ => False.elim
    rintro _ _ ⟨rfl, rfl⟩
    have kept := leads.keep ⟨path, some file⟩ device
    exact ⟨⟨⟨kept.place, kept.inside⟩, region?_setRegion _ _ _,
      (continues.untroubled calm).around⟩, device_eq⟩
  obtain ⟨number, after, openRan, result, same⟩ := ends.exists_ok
  exact ⟨number, region, after, openRan, result, same ▸ loaded⟩

end RegionStore.Host
