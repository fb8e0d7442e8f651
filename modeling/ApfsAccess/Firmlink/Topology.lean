import ApfsAccess.Firmlink.Router
import ApfsAccess.Library.CrossedTrees
import ApfsAccess.Library.Loops

/-!
# The unified view is a tree

What `TryBuild` has checked makes the directories of the two volumes two trees joined by crossings
(`Library/CrossedTrees.lean`): the crossings are one to one, they go from the System to the Data volume,
and no directory that is crossed to lies below another.  `Forward` and `Parent` then are the ways
down and up in these trees.

* `sound_of_tryBuild` : what a router that was built has.
* `forwardKey_eq`, `parentKey_eq` : the traversals are those of the trees.
* `unified_view_is_tree` : the tree of the visible directories.
-/

namespace ApfsAccess
namespace Firmlink

open Format Names OrderedMap Loops Trees

/-! ## What the loops leave -/

section Loops

variable {container : ApfsContainerDescriptor} {volume : ApfsVolumeDescriptor}
  {projection : NativeApfsVolumeProjection} {groupUuidHex : String} {unicode : UnicodeData}

/-- What the loop over the volumes has found. -/
structure FoundVolumes (found : GroupVolumes) : Prop where
  system : ∀ v ∈ found.systemVolume, v.objectId ∈ found.volumeOids
  data : ∀ v ∈ found.dataVolume, v.objectId ∈ found.volumeOids
  apart : ∀ s ∈ found.systemVolume, ∀ d ∈ found.dataVolume, s.objectId ≠ d.objectId

/-- A volume that is neither the one nor the other. -/
theorem FoundVolumes.other {found next : GroupVolumes} (h : FoundVolumes found) {objectId : ℕ}
    (hoids : next.volumeOids = objectId :: found.volumeOids)
    (hsystem : next.systemVolume = found.systemVolume)
    (hdata : next.dataVolume = found.dataVolume) : FoundVolumes next where
  system v hv := by
    rw [hoids]
    exact List.mem_cons_of_mem _ (h.system v (hsystem ▸ hv))
  data v hv := by
    rw [hoids]
    exact List.mem_cons_of_mem _ (h.data v (hdata ▸ hv))
  apart s hs d hd := h.apart s (hsystem ▸ hs) d (hdata ▸ hd)

theorem FoundVolumes.step {found next : GroupVolumes} {v : ApfsVolumeDescriptor}
    (h : FoundVolumes found) (hok : volumeStep container groupUuidHex found v = .ok next) :
    FoundVolumes next := by
  rw [volumeStep] at hok
  split at hok
  · cases hok
  rename_i hnew
  push Not at hnew
  have hfresh : ∀ oid ∈ found.volumeOids, oid ≠ v.objectId :=
    fun oid hoid hsame => hnew.2.1 (hsame ▸ hoid)
  dsimp only at hok
  split at hok
  · cases hok
    exact h.other rfl rfl rfl
  split at hok
  · cases hok
  split at hok
  · cases hok
  by_cases hsystem : v.roleRaw = 0x1
  · have hdata : v.roleRaw ≠ 0x40 := by omega
    simp only [if_pos hsystem, if_neg hdata] at hok
    split at hok
    · cases hok
    cases hok
    refine ⟨fun s hs => ?_, fun d hd => List.mem_cons_of_mem _ (h.data d hd), fun s hs d hd => ?_⟩
    · cases hs
      exact List.mem_cons_self
    · cases hs
      exact (hfresh _ (h.data d hd)).symm
  · simp only [if_neg hsystem] at hok
    split at hok
    · cases hok
    by_cases hdata : v.roleRaw = 0x40
    · rw [if_pos hdata] at hok
      cases hok
      refine ⟨fun s hs => List.mem_cons_of_mem _ (h.system s hs), fun d hd => ?_,
        fun s hs d hd => ?_⟩
      · cases hd
        exact List.mem_cons_self
      · cases hd
        exact hfresh _ (h.system s hs)
    · rw [if_neg hdata] at hok
      cases hok
      exact h.other rfl rfl rfl

/-- The System and the Data volume are two. -/
theorem objectId_ne_of_groupVolumes {systemVolume dataVolume : ApfsVolumeDescriptor}
    (h : groupVolumes container groupUuidHex = .ok (systemVolume, dataVolume)) :
    systemVolume.objectId ≠ dataVolume.objectId := by
  rw [groupVolumes] at h
  obtain ⟨group, -, h⟩ := bind_ok_iff.mp h
  cases group with
  | none => cases h
  | some group =>
    dsimp only at h
    split at h
    · cases h
    obtain ⟨found, hfound, h⟩ := bind_ok_iff.mp h
    have hspec : FoundVolumes found := by
      refine foldlM_ok ⟨?_, ?_, ?_⟩ ?_ hfound
      · exact fun v hv => absurd hv (Option.not_mem_none v)
      · exact fun v hv => absurd hv (Option.not_mem_none v)
      · exact fun v hv => absurd hv (Option.not_mem_none v)
      exact fun current v _ next hcurrent hnext => hcurrent.step hnext
    cases hsystem : found.systemVolume with
    | none =>
      rw [hsystem] at h
      cases h
    | some s =>
      cases hdata : found.dataVolume with
      | none =>
        rw [hsystem, hdata] at h
        cases h
      | some d =>
        rw [hsystem, hdata] at h
        dsimp only at h
        split at h
        · cases h
        · obtain ⟨rfl, rfl⟩ := Prod.mk.inj (Except.ok.inj h)
          exact hspec.apart s hsystem d hdata

/-- The entry comes from a directory of the volume. -/
def FromVolume (container : ApfsContainerDescriptor) (volume : ApfsVolumeDescriptor)
    (projection : NativeApfsVolumeProjection) (key : Key) (directory : Directory) : Prop :=
  ∃ inode ∈ projection.inodes, inode.isDirectory = true ∧ key = (volume.objectId, inode.objectId) ∧
    directory = directoryOf container volume projection inode ∧
    (inode.objectId ≠ projection.rootDirectoryInode → inode.parentObjectId ≠ inode.objectId)

/-- One pass of the loop over the inodes. -/
theorem inodeStep_eq_ok {found next : List (ℕ × InodeRecord) × List (Key × Directory)}
    {inode : InodeRecord} (h : inodeStep container volume projection found inode = .ok next) :
    next.2 = found.2 ∧ inode.isDirectory = false ∨
    next.2 = (emplace keyLt found.2 (volume.objectId, inode.objectId)
        (directoryOf container volume projection inode)).1 ∧ inode.isDirectory = true ∧
      (inode.objectId ≠ projection.rootDirectoryInode →
        inode.parentObjectId ≠ inode.objectId) := by
  rw [inodeStep] at h
  split at h
  · cases h
  dsimp only at h
  split at h
  · cases h
  split at h
  · rename_i hfile
    cases h
    exact .inl ⟨rfl, by simpa using hfile⟩
  rename_i hdirectory
  split at h
  · cases h
  rename_i hself
  split at h
  · cases h
  cases h
  exact .inr ⟨rfl, by simpa using hdirectory, fun hroot hsame => hself ⟨hroot, hsame⟩⟩

/-- What `add_volume` leaves. -/
structure AddedVolume (container : ApfsContainerDescriptor) (volume : ApfsVolumeDescriptor)
    (projection : NativeApfsVolumeProjection) (before after : List (Key × Directory)) : Prop where
  entry : ∀ key directory, find? after key = some directory →
    find? before key = some directory ∨ FromVolume container volume projection key directory
  kept : ∀ key, contains before key = true → find? after key = find? before key
  directory : ∀ inode ∈ projection.inodes, inode.isDirectory = true →
    contains after (volume.objectId, inode.objectId) = true
  root : ∃ directory, find? after (volume.objectId, projection.rootDirectoryInode) = some directory ∧
    directory.parent = (volume.objectId, projection.rootDirectoryInode)
  parent : ∀ key directory, find? after key = some directory → key.1 = volume.objectId →
    contains after directory.parent = true

/-- What the loop over the inodes keeps. -/
theorem foldlM_inodeStep {before : List (Key × Directory)}
    {last : List (ℕ × InodeRecord) × List (Key × Directory)}
    (h : projection.inodes.foldlM (inodeStep container volume projection) ([], before) = .ok last) :
    (∀ key directory, find? last.2 key = some directory →
      find? before key = some directory ∨ FromVolume container volume projection key directory) ∧
    (∀ key, contains before key = true → find? last.2 key = find? before key) ∧
    ∀ inode ∈ projection.inodes, inode.isDirectory = true →
      contains last.2 (volume.objectId, inode.objectId) = true := by
  have hstays : ∀ current : List (ℕ × InodeRecord) × List (Key × Directory),
      ∀ inode ∈ projection.inodes, ∀ next,
      inodeStep container volume projection current inode = .ok next →
      ∀ key, contains current.2 key = true → find? next.2 key = find? current.2 key := by
    intro current inode _ next hnext key hkey
    rcases inodeStep_eq_ok hnext with ⟨hsame, -⟩ | ⟨hput, -, -⟩
    · rw [hsame]
    · rw [hput]
      by_cases hkeys : (volume.objectId, inode.objectId) = key
      · rw [hkeys, emplace, if_pos hkey]
      · exact find?_emplace_of_ne hkeys
  refine ⟨?_, fun key hkey => ?_, ?_⟩
  · refine @foldlM_ok _ _ _ _ _ _ _ (fun found : List (ℕ × InodeRecord) × List (Key × Directory) =>
      ∀ key directory, find? found.2 key = some directory →
        find? before key = some directory ∨ FromVolume container volume projection key directory)
      (fun _ _ hfound => .inl hfound) ?_ h
    intro current inode hinode next hcurrent hnext key directory hfound
    rcases inodeStep_eq_ok hnext with ⟨hsame, -⟩ | ⟨hput, hdirectory, hself⟩
    · exact hcurrent key directory (hsame ▸ hfound)
    · rw [hput, emplace] at hfound
      split at hfound
      · exact hcurrent key directory hfound
      · rename_i hcontains
        rw [contains, Option.not_isSome_iff_eq_none] at hcontains
        rw [find?_insert hcontains] at hfound
        split at hfound
        · rename_i hkeys
          exact .inr ⟨inode, hinode, hdirectory, hkeys.symm, (Option.some.inj hfound).symm, hself⟩
        · exact hcurrent key directory hfound
  · refine @foldlM_ok _ _ _ _ _ _ _ (fun found : List (ℕ × InodeRecord) × List (Key × Directory) =>
      find? found.2 key = find? before key) rfl ?_ h
    intro current inode hinode next hcurrent hnext
    rw [hstays current inode hinode next hnext key, hcurrent]
    rwa [contains, hcurrent]
  · refine @foldlM_forall _ _ _ _ _ _ _ (fun inode
      (found : List (ℕ × InodeRecord) × List (Key × Directory)) => inode.isDirectory = true →
        contains found.2 (volume.objectId, inode.objectId) = true) ?_ ?_ h
    · intro current inode _ next hnext hdirectory
      rcases inodeStep_eq_ok hnext with ⟨-, hfile⟩ | ⟨hput, -, -⟩
      · rw [hfile] at hdirectory
        cases hdirectory
      · rw [hput]
        exact contains_emplace
    · intro current inode hinode next hnext other hother hdirectory
      rw [contains, hstays current inode hinode next hnext _ (hother hdirectory)]
      exact hother hdirectory

theorem addedVolume_of_addVolume {before after : List (Key × Directory)}
    (h : addVolume container volume projection unicode before = .ok after) :
    AddedVolume container volume projection before after := by
  rw [addVolume] at h
  split at h
  · cases h
  obtain ⟨⟨inodes, directories⟩, hinodes, h⟩ := bind_ok_iff.mp h
  dsimp only at h
  split at h
  · cases h
  rename_i hroot
  rw [not_not, Option.map_eq_some_iff] at hroot
  obtain ⟨⟨linkedDirectories, names⟩, -, h⟩ := bind_ok_iff.mp h
  obtain ⟨_, hparents, h⟩ := bind_ok_iff.mp h
  obtain rfl : directories = after := Except.ok.inj h
  obtain ⟨hentry, hkept, hdirectory⟩ := foldlM_inodeStep hinodes
  refine ⟨hentry, hkept, hdirectory, hroot, fun key directory hfound hvolume => ?_⟩
  have hcheck := forM_eq_ok_iff.mp hparents _ (mem_of_find?_eq_some hfound)
  rw [parentCheck, if_neg (not_not.mpr hvolume)] at hcheck
  split at hcheck
  · cases hcheck
  · rename_i hok
    by_contra hmissing
    refine hok ?_
    rw [Bool.or_eq_true, Bool.not_eq_true']
    exact .inl ((Bool.not_eq_true _).mp hmissing)

/-- One pass of the loop over the records. -/
theorem recordStep_eq_ok {systemVolume dataVolume : ApfsVolumeDescriptor} {systemRoot dataRoot : ℕ}
    {table next : ApfsFirmlinkRouter} {record : VerifiedFirmlinkRecord}
    (h : recordStep systemVolume dataVolume systemRoot dataRoot table record = .ok next) :
    ∃ source target : Key, source.1 = systemVolume.objectId ∧ target.1 = dataVolume.objectId ∧
      contains table.directories source = true ∧ contains table.directories target = true ∧
      source.2 ≠ systemRoot ∧ target.2 ≠ dataRoot ∧ next.directories = table.directories ∧
      emplace keyLt table.forward source target = (next.forward, true) ∧
      emplace keyLt table.reverse target source = (next.reverse, true) := by
  rw [recordStep] at h
  split at h
  · cases h
  rename_i hidentity
  simp only [Bool.or_eq_true, Bool.not_eq_true', bne_iff_ne, not_or, ne_eq, not_not,
    Bool.not_eq_false] at hidentity
  obtain ⟨⟨⟨hsource, htarget⟩, hsystem⟩, hdata⟩ := hidentity
  have hcontains : ∀ value : FirmlinkObjectIdentity, table.isMatch value = true →
      contains table.directories value.key = true := by
    intro value hvalue
    rw [ApfsFirmlinkRouter.isMatch] at hvalue
    rw [contains]
    cases hfound : find? table.directories value.key with
    | none =>
      rw [hfound] at hvalue
      cases hvalue
    | some directory => rfl
  dsimp only at h
  split at h
  · cases h
  rename_i hroots
  push Not at hroots
  generalize hforward : emplace keyLt table.forward record.source.key record.target.key = put at h
  obtain ⟨forward, first⟩ := put
  cases first with
  | false => cases h
  | true =>
    generalize hreverse : emplace keyLt table.reverse record.target.key record.source.key = put
      at h
    obtain ⟨reverse, second⟩ := put
    cases second with
    | false => cases h
    | true =>
      cases h
      exact ⟨record.source.key, record.target.key, hsystem, hdata, hcontains _ hsource,
        hcontains _ htarget, hroots.1, hroots.2, rfl, hforward, hreverse⟩

end Loops

/-! ## A router that was built -/

/-- The root of a volume. -/
def rootKey (volume : ApfsVolumeDescriptor) (projection : NativeApfsVolumeProjection) : Key :=
  (volume.objectId, projection.rootDirectoryInode)

/-- The crossings of a router from one volume to another. -/
structure Crossings (systemRoot dataRoot : Key) (table : ApfsFirmlinkRouter) : Prop where
  back : ∀ source target, find? table.reverse target = some source ↔
    find? table.forward source = some target
  system : ∀ source target, find? table.forward source = some target →
    source.1 = systemRoot.1 ∧ contains table.directories source = true ∧ source ≠ systemRoot
  data : ∀ source target, find? table.forward source = some target →
    target.1 = dataRoot.1 ∧ contains table.directories target = true ∧ target ≠ dataRoot

/-- **What `TryBuild` has checked.** -/
structure Sound (systemRoot dataRoot : Key) (router : ApfsFirmlinkRouter) : Prop
    extends Crossings systemRoot dataRoot router where
  apart : systemRoot.1 ≠ dataRoot.1
  identity : ∀ key directory, find? router.directories key = some directory →
    directory.identity.key = key
  volume : ∀ key directory, find? router.directories key = some directory →
    directory.parent.1 = key.1
  parent : ∀ key directory, find? router.directories key = some directory →
    contains router.directories directory.parent = true
  root : ∀ key directory, find? router.directories key = some directory →
    directory.parent = key → key = systemRoot ∨ key = dataRoot
  systemRoot_parent : ∃ directory, find? router.directories systemRoot = some directory ∧
    directory.parent = systemRoot
  chains : router.validateChains = .ok ()
  unnested : router.validateUnnestedCrossings = .ok ()

section Build

variable {unicode : UnicodeData} {container : ApfsContainerDescriptor} {groupUuidHex : String}
  {system data : NativeApfsVolumeProjection} {records : List VerifiedFirmlinkRecord}
  {router : ApfsFirmlinkRouter}

theorem crossings_of_records {systemVolume dataVolume : ApfsVolumeDescriptor}
    {directories : List (Key × Directory)}
    (h : records.foldlM (recordStep systemVolume dataVolume system.rootDirectoryInode
      data.rootDirectoryInode) ⟨directories, [], []⟩ = .ok router) :
    router.directories = directories ∧
      Crossings (rootKey systemVolume system) (rootKey dataVolume data) router := by
  have hsame : router.directories = directories := by
    refine @foldlM_ok _ _ _ _ _ _ _ (fun table : ApfsFirmlinkRouter =>
      table.directories = directories) rfl ?_ h
    intro table record _ next htable hnext
    obtain ⟨_, _, _, _, _, _, _, _, hdirectories, _, _⟩ := recordStep_eq_ok hnext
    rw [hdirectories, htable]
  refine ⟨hsame, foldlM_ok ?_ ?_ h⟩
  · exact ⟨fun _ _ => iff_of_false nofun nofun, nofun, nofun⟩
  intro table record _ next htable hnext
  obtain ⟨source, target, hsystem, hdata, hsource, htarget, hsystemRoot, hdataRoot, hdirectories,
    hforward, hreverse⟩ := recordStep_eq_ok hnext
  obtain ⟨hnoForward, hforwardAfter⟩ := find?_of_emplace hforward
  obtain ⟨hnoReverse, hreverseAfter⟩ := find?_of_emplace hreverse
  refine ⟨fun s t => ?_, fun s t hfound => ?_, fun s t hfound => ?_⟩
  · rw [hforwardAfter, hreverseAfter]
    by_cases hs : source = s
    · by_cases ht : target = t
      · rw [if_pos hs, if_pos ht, hs, ht]
        exact iff_of_true rfl rfl
      · rw [if_pos hs, if_neg ht, htable.back, ← hs, hnoForward]
        exact iff_of_false nofun fun heq => ht (Option.some.inj heq)
    · by_cases ht : target = t
      · rw [if_neg hs, if_pos ht, ← htable.back, ← ht, hnoReverse]
        exact iff_of_false (fun heq => hs (Option.some.inj heq)) nofun
      · rw [if_neg hs, if_neg ht]
        exact htable.back s t
  · rw [hdirectories]
    rw [hforwardAfter] at hfound
    split at hfound
    · rename_i hs
      subst hs
      exact ⟨hsystem, hsource, fun heq => hsystemRoot (congrArg Prod.snd heq)⟩
    · exact htable.system s t hfound
  · rw [hdirectories]
    rw [hforwardAfter] at hfound
    split at hfound
    · obtain rfl := Option.some.inj hfound
      exact ⟨hdata, htarget, fun heq => hdataRoot (congrArg Prod.snd heq)⟩
    · exact htable.data s t hfound

/-- The parts of a build that goes through. -/
theorem tryBuild_stages
    (h : tryBuild unicode container groupUuidHex system data records = .ok router) :
    ∃ systemVolume dataVolume before directories,
      groupVolumes container groupUuidHex = .ok (systemVolume, dataVolume) ∧
      addVolume container systemVolume system unicode [] = .ok before ∧
      addVolume container dataVolume data unicode before = .ok directories ∧
      records.foldlM (recordStep systemVolume dataVolume system.rootDirectoryInode
        data.rootDirectoryInode) ⟨directories, [], []⟩ = .ok router ∧
      router.validateChains = .ok () ∧ router.validateUnnestedCrossings = .ok () := by
  rw [tryBuild] at h
  split at h
  · cases h
  split at h
  · cases h
  obtain ⟨⟨systemVolume, dataVolume⟩, hvolumes, h⟩ := bind_ok_iff.mp h
  obtain ⟨before, hbefore, h⟩ := bind_ok_iff.mp h
  obtain ⟨directories, hdirectories, h⟩ := bind_ok_iff.mp h
  obtain ⟨table, htable, h⟩ := bind_ok_iff.mp h
  obtain ⟨_, hchains, h⟩ := bind_ok_iff.mp h
  obtain ⟨_, hunnested, h⟩ := bind_ok_iff.mp h
  obtain rfl : table = router := Except.ok.inj h
  exact ⟨systemVolume, dataVolume, before, directories, hvolumes, hbefore, hdirectories, htable,
    hchains, hunnested⟩

/-- **A router that was built is sound.** -/
theorem sound_of_tryBuild
    (h : tryBuild unicode container groupUuidHex system data records = .ok router) :
    ∃ systemVolume dataVolume,
      groupVolumes container groupUuidHex = .ok (systemVolume, dataVolume) ∧
      Sound (rootKey systemVolume system) (rootKey dataVolume data) router ∧
      (∀ inode ∈ system.inodes, inode.isDirectory = true →
        contains router.directories (systemVolume.objectId, inode.objectId) = true) ∧
      ∀ inode ∈ data.inodes, inode.isDirectory = true →
        contains router.directories (dataVolume.objectId, inode.objectId) = true := by
  obtain ⟨systemVolume, dataVolume, before, directories, hvolumes, hbefore, hdirectories, htable,
    hchains, hunnested⟩ := tryBuild_stages h
  obtain ⟨hsame, hcrossings⟩ := crossings_of_records htable
  have hsystem := addedVolume_of_addVolume hbefore
  have hdata := addedVolume_of_addVolume hdirectories
  have hapart := objectId_ne_of_groupVolumes hvolumes
  have hfrom : ∀ key directory, find? router.directories key = some directory →
      FromVolume container systemVolume system key directory ∧
          find? before key = some directory ∨
        FromVolume container dataVolume data key directory := by
    intro key directory hfound
    rw [hsame] at hfound
    rcases hdata.entry key directory hfound with hfirst | hsecond
    · rcases hsystem.entry key directory hfirst with hnone | hfirst'
      · cases hnone
      · exact .inl ⟨hfirst', hfirst⟩
    · exact .inr hsecond
  have hkept : ∀ key, contains before key = true →
      find? router.directories key = find? before key := fun key hkey => by
    rw [hsame, hdata.kept key hkey]
  refine ⟨systemVolume, dataVolume, hvolumes, ⟨hcrossings, hapart, ?_, ?_, ?_, ?_, ?_, hchains,
    hunnested⟩, ?_, ?_⟩
  · intro key directory hfound
    rcases hfrom key directory hfound with ⟨⟨inode, -, -, hkey, rfl, -⟩, -⟩ |
      ⟨inode, -, -, hkey, rfl, -⟩
    · exact hkey.symm
    · exact hkey.symm
  · intro key directory hfound
    rcases hfrom key directory hfound with ⟨⟨inode, -, -, rfl, rfl, -⟩, -⟩ |
      ⟨inode, -, -, rfl, rfl, -⟩
    · rfl
    · rfl
  · intro key directory hfound
    rcases hfrom key directory hfound with ⟨⟨inode, -, -, hkey, -, -⟩, hfirst⟩ |
      ⟨inode, -, -, hkey, -, -⟩
    · have hparent := hsystem.parent key directory hfirst (by rw [hkey])
      rw [contains, hkept _ hparent]
      exact hparent
    · rw [hsame] at hfound ⊢
      exact hdata.parent key directory hfound (by rw [hkey])
  · intro key directory hfound hself
    rcases hfrom key directory hfound with ⟨⟨inode, -, -, rfl, rfl, hroot⟩, -⟩ |
      ⟨inode, -, -, rfl, rfl, hroot⟩
    · refine .inl ?_
      by_contra hne
      refine hroot (fun heq => hne ?_) (congrArg Prod.snd hself)
      rw [rootKey, heq]
    · refine .inr ?_
      by_contra hne
      refine hroot (fun heq => hne ?_) (congrArg Prod.snd hself)
      rw [rootKey, heq]
  · obtain ⟨directory, hfound, hparent⟩ := hsystem.root
    refine ⟨directory, ?_, hparent⟩
    have hcontains : contains before (rootKey systemVolume system) = true :=
      contains_iff.mpr ⟨directory, hfound⟩
    rw [hkept _ hcontains]
    exact hfound
  · intro inode hinode hdirectory
    have hcontains := hsystem.directory inode hinode hdirectory
    rw [contains, hkept _ hcontains]
    exact hcontains
  · intro inode hinode hdirectory
    rw [hsame]
    exact hdata.directory inode hinode hdirectory

end Build

/-! ## Forward and Parent in the trees -/

section Traversal

variable {systemRoot dataRoot : Key} {router : ApfsFirmlinkRouter}

/-- The backing parent of a key; what is no directory is its own. -/
def backingParent (router : ApfsFirmlinkRouter) (key : Key) : Key :=
  ((find? router.directories key).map Directory.parent).getD key

theorem backingParent_eq {key : Key} {directory : Directory}
    (h : find? router.directories key = some directory) :
    backingParent router key = directory.parent := by
  rw [backingParent, h]
  rfl

theorem directoryAt_eq_ok_iff {key : Key} {directory : Directory} :
    router.directoryAt key = .ok directory ↔ find? router.directories key = some directory := by
  rw [ApfsFirmlinkRouter.directoryAt]
  cases find? router.directories key with
  | none => exact iff_of_false nofun nofun
  | some found => exact ⟨fun h => congrArg some (Except.ok.inj h),
      fun h => congrArg Except.ok (Option.some.inj h)⟩

theorem Sound.backingParent_fst (h : Sound systemRoot dataRoot router) (key : Key) :
    (backingParent router key).1 = key.1 := by
  rw [backingParent]
  cases hfound : find? router.directories key with
  | none => rfl
  | some directory => exact h.volume key directory hfound

/-- The loop over the ancestors of a crossing's end has met no other end. -/
theorem find?_eq_none_of_unnestedFrom {edges : List (Key × Key)} {steps : ℕ} {current : Key}
    (h : router.unnestedFrom edges steps current = .ok ()) (n : ℕ) :
    find? edges ((backingParent router)^[n] current) = none := by
  induction steps generalizing current n with
  | zero => cases h
  | succ steps ih =>
    rw [ApfsFirmlinkRouter.unnestedFrom] at h
    split at h
    · cases h
    rename_i hcontains
    have hnone : find? edges current = none := by
      rwa [contains, Option.not_isSome_iff_eq_none] at hcontains
    obtain ⟨directory, hdirectory, h⟩ := bind_ok_iff.mp h
    have hparent := backingParent_eq (directoryAt_eq_ok_iff.mp hdirectory)
    cases n with
    | zero => exact hnone
    | succ n =>
      rw [Function.iterate_succ_apply, hparent]
      split at h
      · rename_i hroot
        -- above the root there is the root
        rw [Function.iterate_fixed (by rw [hroot, hparent, hroot]), hroot]
        exact hnone
      · exact ih h n

theorem Sound.reverse_unnested (h : Sound systemRoot dataRoot router) {target : Key}
    (htarget : (find? router.reverse target).isSome) (n : ℕ) :
    find? router.reverse ((backingParent router)^[n + 1] target) = none := by
  obtain ⟨source, hsource⟩ := Option.isSome_iff_exists.mp htarget
  have hedges := forM_eq_ok_iff.mp h.unnested router.reverse (by simp)
  have hedge := forM_eq_ok_iff.mp hedges _ (mem_of_find?_eq_some hsource)
  obtain ⟨directory, hdirectory, hloop⟩ := bind_ok_iff.mp hedge
  rw [Function.iterate_succ_apply, backingParent_eq (directoryAt_eq_ok_iff.mp hdirectory)]
  exact find?_eq_none_of_unnestedFrom hloop n

/-- The two volumes of a router as trees joined by its crossings. -/
def Sound.trees (h : Sound systemRoot dataRoot router) : CrossedTrees Key where
  parent := backingParent router
  across := find? router.forward
  back := find? router.reverse
  Inner key := key.1 = dataRoot.1
  root := systemRoot
  back_eq_some_iff := @fun source target => h.back source target
  inner_parent key := by rw [h.backingParent_fst]
  outer_of_across := @fun source target hcross hinner =>
    h.apart ((h.system source target hcross).1.symm.trans hinner)
  inner_of_across := @fun source target hcross => (h.data source target hcross).1
  root_outer := h.apart
  across_root := by
    cases hroot : find? router.forward systemRoot with
    | none => rfl
    | some target => exact absurd rfl (h.system _ _ hroot).2.2
  unnested := @fun target htarget n => h.reverse_unnested htarget n

/-- **`Forward`** crosses once, and always comes to an end. -/
theorem Sound.forwardKey_eq (h : Sound systemRoot dataRoot router) (key : Key) :
    router.forwardKey key = .ok (h.trees.forward key) := by
  have hstep : ∀ (steps : ℕ) (seen : List Key) (input : Key), input ∉ seen →
      find? router.forward input = none → router.forwardFrom (steps + 1) seen input = .ok input := by
    intro steps seen input hnew hnone
    rw [ApfsFirmlinkRouter.forwardFrom, if_neg hnew, hnone]
  rw [ApfsFirmlinkRouter.forwardKey, show kMaxTraversalSteps = 254 + 1 + 1 from rfl]
  cases hcross : find? router.forward key with
  | none => rw [hstep _ _ _ List.not_mem_nil hcross, CrossedTrees.forward_of_none hcross]
  | some target =>
    have hne : target ∉ [key] := by
      rw [List.mem_singleton]
      rintro rfl
      exact h.apart ((h.system _ _ hcross).1.symm.trans (h.data _ _ hcross).1)
    have hstop : find? router.forward target = none :=
      CrossedTrees.across_of_inner (h.trees.inner_of_across hcross)
    rw [ApfsFirmlinkRouter.forwardFrom, if_neg List.not_mem_nil, hcross]
    dsimp only
    rw [hstep _ _ _ hne hstop, CrossedTrees.forward_of_across hcross]

/-- `Forward` stays among the directories. -/
theorem Sound.contains_forward (h : Sound systemRoot dataRoot router) {key : Key}
    (hkey : contains router.directories key = true) :
    contains router.directories (h.trees.forward key) = true := by
  cases hcross : find? router.forward key with
  | none => rwa [CrossedTrees.forward_of_none hcross]
  | some target =>
    rw [CrossedTrees.forward_of_across hcross]
    exact (h.data _ _ hcross).2.1

/-- The directory whose parent `Parent` looks for. -/
theorem Sound.contains_back (h : Sound systemRoot dataRoot router) {key : Key}
    (hkey : contains router.directories key = true) :
    contains router.directories ((find? router.reverse key).getD key) = true := by
  cases hback : find? router.reverse key with
  | none => exact hkey
  | some source => exact (h.system _ _ ((h.back _ _).mp hback)).2.1

/-- **`Parent`** is the way up. -/
theorem Sound.parentKey_eq (h : Sound systemRoot dataRoot router) {key : Key}
    (hkey : contains router.directories key = true) :
    router.parentKey key = .ok (h.trees.up key) ∧
      contains router.directories (h.trees.up key) = true := by
  obtain ⟨directory, hdirectory⟩ := contains_iff.mp (h.contains_back hkey)
  have hup : h.trees.up key = h.trees.forward directory.parent :=
    congrArg h.trees.forward (backingParent_eq hdirectory)
  refine ⟨?_, ?_⟩
  · rw [hup, ApfsFirmlinkRouter.parentKey]
    refine bind_ok_iff.mpr ⟨directory, directoryAt_eq_ok_iff.mpr hdirectory, ?_⟩
    exact h.forwardKey_eq directory.parent
  · rw [hup]
    exact h.contains_forward (h.parent _ _ hdirectory)

/-- The loop of `ValidateChains` has come to a root. -/
theorem Sound.exists_root_of_chainFrom (h : Sound systemRoot dataRoot router) {steps : ℕ}
    {seen : List Key} {current : Key} (hcurrent : contains router.directories current = true)
    (hok : router.chainFrom true steps seen current = .ok ()) :
    ∃ n, (h.trees.up^[n] current = systemRoot ∨ h.trees.up^[n] current = dataRoot) := by
  induction steps generalizing seen current with
  | zero => cases hok
  | succ steps ih =>
    obtain ⟨hparent, hcontains⟩ := h.parentKey_eq hcurrent
    rw [ApfsFirmlinkRouter.chainFrom] at hok
    split at hok
    · cases hok
    rw [if_pos rfl] at hok
    obtain ⟨parent, hfound, hok⟩ := bind_ok_iff.mp hok
    obtain ⟨directory, hdirectory, hok⟩ := bind_ok_iff.mp hok
    rw [hparent] at hfound
    obtain rfl := Except.ok.inj hfound
    split at hok
    · rename_i hroot
      exact ⟨0, h.root _ _ (directoryAt_eq_ok_iff.mp hdirectory) hroot.2.1⟩
    · obtain ⟨n, hn⟩ := ih hcontains hok
      exact ⟨n + 1, hn⟩

theorem Sound.exists_root (h : Sound systemRoot dataRoot router) {key : Key}
    (hkey : contains router.directories key = true) :
    ∃ n, (h.trees.up^[n] key = systemRoot ∨ h.trees.up^[n] key = dataRoot) := by
  obtain ⟨directory, hdirectory⟩ := contains_iff.mp hkey
  have hentry := forM_eq_ok_iff.mp h.chains _ (mem_of_find?_eq_some hdirectory)
  obtain ⟨_, -, hchains⟩ := bind_ok_iff.mp hentry
  exact h.exists_root_of_chainFrom hkey (forM_eq_ok_iff.mp hchains true (by simp))

end Traversal

/-! ## Routing identities -/

/-- A read in the unified view. -/
def ApfsFirmlinkRouter.route (router : ApfsFirmlinkRouter) (traversal : FirmlinkTraversal)
    (input : FirmlinkObjectIdentity) : Except String FirmlinkObjectIdentity :=
  router.tryRoute input .readOnlyUnifiedGroup traversal .read

/-- The identity is a directory of one of the volumes. -/
def IsDirectory (router : ApfsFirmlinkRouter) (identity : FirmlinkObjectIdentity) : Prop :=
  ∃ directory, find? router.directories identity.key = some directory ∧
    directory.identity = identity

/-- The identity is a backing child directory of another one. -/
def IsBackingChild (router : ApfsFirmlinkRouter) (parent child : FirmlinkObjectIdentity) : Prop :=
  ∃ directory, find? router.directories child.key = some directory ∧ directory.identity = child ∧
    directory.parent = parent.key ∧ child ≠ parent

/-- The children chosen on a way from the root, with `Forward` after each, and the directory that the
way ends at. -/
inductive Reached (router : ApfsFirmlinkRouter) (root : FirmlinkObjectIdentity) :
    List FirmlinkObjectIdentity → FirmlinkObjectIdentity → Prop
  | root : Reached router root [] root
  | step {children : List FirmlinkObjectIdentity} {parent child next : FirmlinkObjectIdentity}
      (hparent : Reached router root children parent)
      (hchild : IsBackingChild router parent child)
      (hroute : router.route .forward child = .ok next) :
      Reached router root (children ++ [child]) next

/-- The directory is visible in the unified view. -/
def Visible (router : ApfsFirmlinkRouter) (root identity : FirmlinkObjectIdentity) : Prop :=
  ∃ children, Reached router root children identity

section Identities

variable {systemRoot dataRoot : Key} {router : ApfsFirmlinkRouter}
  {identity other root : FirmlinkObjectIdentity}

theorem IsDirectory.contains_key (h : IsDirectory router identity) :
    contains router.directories identity.key = true :=
  contains_iff.mpr ⟨h.choose, h.choose_spec.1⟩

theorem IsBackingChild.isDirectory (h : IsBackingChild router other identity) :
    IsDirectory router identity :=
  ⟨h.choose, h.choose_spec.1, h.choose_spec.2.1⟩

/-- A directory is known by its key. -/
theorem IsDirectory.eq_of_key (h : IsDirectory router identity) (hother : IsDirectory router other)
    (hkey : identity.key = other.key) : identity = other := by
  obtain ⟨directory, hfound, rfl⟩ := h
  obtain ⟨directory', hfound', rfl⟩ := hother
  rw [hkey, hfound'] at hfound
  rw [Option.some.inj hfound]

/-- The directory at a key. -/
def identityAt (router : ApfsFirmlinkRouter) (fallback : FirmlinkObjectIdentity) (key : Key) :
    FirmlinkObjectIdentity :=
  ((find? router.directories key).map Directory.identity).getD fallback

/-- Keys give back the directories that they are the keys of. -/
theorem map_identityAt (fallback : FirmlinkObjectIdentity) {identities : List FirmlinkObjectIdentity}
    (h : ∀ identity ∈ identities, IsDirectory router identity) :
    (identities.map FirmlinkObjectIdentity.key).map (identityAt router fallback) = identities := by
  rw [List.map_map]
  refine (List.map_congr_left fun identity hidentity => ?_).trans identities.map_id
  obtain ⟨directory, hfound, hsame⟩ := h identity hidentity
  show identityAt router fallback identity.key = identity
  rw [identityAt, hfound, Option.map_some, Option.getD_some, hsame]

theorem sameIdentity_self (identity : FirmlinkObjectIdentity) :
    sameIdentity identity identity = true := by
  simp [sameIdentity]

/-- **Routing a directory** gives the directory at the key that the traversal ends at. -/
theorem Sound.route_eq_ok_iff (h : Sound systemRoot dataRoot router)
    (hidentity : IsDirectory router identity) {traversal : FirmlinkTraversal} :
    router.route traversal identity = .ok other ↔ IsDirectory router other ∧
      other.key = if traversal = .forward then h.trees.forward identity.key
        else h.trees.up identity.key := by
  have hmatch : router.isMatch identity = true := by
    obtain ⟨directory, hfound, hsame⟩ := hidentity
    rw [ApfsFirmlinkRouter.isMatch, hfound]
    dsimp only
    rw [hsame]
    exact sameIdentity_self identity
  have hkeys : router.traverse traversal identity.key = .ok (if traversal = .forward then
      h.trees.forward identity.key else h.trees.up identity.key) := by
    rw [ApfsFirmlinkRouter.traverse]
    split
    · exact h.forwardKey_eq identity.key
    · exact (h.parentKey_eq hidentity.contains_key).1
  rw [ApfsFirmlinkRouter.route, ApfsFirmlinkRouter.tryRoute, if_neg nofun, if_neg (not_not.mpr rfl),
    if_neg (by rw [hmatch]; exact nofun), hkeys, bind_ok_iff]
  generalize (if traversal = FirmlinkTraversal.forward then h.trees.forward identity.key
    else h.trees.up identity.key) = key
  constructor
  · rintro ⟨_, hkey, hok⟩
    obtain rfl := Except.ok.inj hkey
    obtain ⟨directory, hdirectory, hok⟩ := bind_ok_iff.mp hok
    obtain rfl := Except.ok.inj hok
    have hfound := directoryAt_eq_ok_iff.mp hdirectory
    have hown := h.identity _ _ hfound
    exact ⟨⟨directory, hown ▸ hfound, rfl⟩, hown⟩
  · rintro ⟨⟨directory, hfound, rfl⟩, rfl⟩
    exact ⟨_, rfl, bind_ok_iff.mpr ⟨directory, directoryAt_eq_ok_iff.mpr hfound, rfl⟩⟩

/-- Every traversal of a directory succeeds. -/
theorem Sound.exists_route (h : Sound systemRoot dataRoot router)
    (hidentity : IsDirectory router identity) (traversal : FirmlinkTraversal) :
    ∃ next, router.route traversal identity = .ok next := by
  have hcontains : contains router.directories (if traversal = .forward then
      h.trees.forward identity.key else h.trees.up identity.key) = true := by
    split
    · exact h.contains_forward hidentity.contains_key
    · exact (h.parentKey_eq hidentity.contains_key).2
  obtain ⟨directory, hfound⟩ := contains_iff.mp hcontains
  have hown := h.identity _ _ hfound
  exact ⟨directory.identity, (h.route_eq_ok_iff hidentity).mpr
    ⟨⟨directory, hown ▸ hfound, rfl⟩, hown⟩⟩

/-- A backing child is a child in the trees. -/
theorem Sound.isChild (h : Sound systemRoot dataRoot router) (hparent : IsDirectory router other)
    (hchild : IsBackingChild router other identity) :
    h.trees.IsChild other.key identity.key := by
  have hdirectory := hchild.isDirectory
  obtain ⟨directory, hfound, -, hkey, hne⟩ := hchild
  exact ⟨(backingParent_eq hfound).trans hkey,
    fun hsame => hne (hdirectory.eq_of_key hparent hsame)⟩

/-- A way through the view is a way in the trees. -/
theorem Sound.path_of_reached (h : Sound systemRoot dataRoot router)
    (hroot : IsDirectory router root) (hkey : root.key = systemRoot)
    {children : List FirmlinkObjectIdentity} (hreached : Reached router root children identity) :
    IsDirectory router identity ∧
      h.trees.Path (children.map FirmlinkObjectIdentity.key) identity.key := by
  induction hreached with
  | root =>
    refine ⟨hroot, ?_⟩
    rw [hkey]
    exact .root
  | @step children parent child next _ hchild hroute ih =>
    obtain ⟨hparent, hpath⟩ := ih
    obtain ⟨hnext, hforward⟩ := (h.route_eq_ok_iff hchild.isDirectory).mp hroute
    rw [if_pos rfl] at hforward
    refine ⟨hnext, ?_⟩
    rw [List.map_append, List.map_singleton, hforward]
    exact .step hpath (h.isChild hparent hchild)

theorem Reached.forall_isDirectory {children : List FirmlinkObjectIdentity}
    (hreached : Reached router root children identity) :
    ∀ child ∈ children, IsDirectory router child := by
  induction hreached with
  | root => exact fun child hchild => absurd hchild List.not_mem_nil
  | step _ hchild _ ih =>
    intro child hmem
    rcases List.mem_append.mp hmem with hmem | hmem
    · exact ih child hmem
    · rw [List.mem_singleton.mp hmem]
      exact hchild.isDirectory

theorem Sound.reached_unique (h : Sound systemRoot dataRoot router)
    (hroot : IsDirectory router root) (hkey : root.key = systemRoot)
    {children others : List FirmlinkObjectIdentity}
    (hreached : Reached router root children identity)
    (hother : Reached router root others identity) : children = others := by
  obtain ⟨directory, hfound, hself⟩ := h.systemRoot_parent
  have hfixed : h.trees.parent h.trees.root = h.trees.root :=
    (backingParent_eq hfound).trans hself
  have hkeys := CrossedTrees.path_unique hfixed (h.path_of_reached hroot hkey hreached).2
    (h.path_of_reached hroot hkey hother).2
  rw [← map_identityAt root hreached.forall_isDirectory, hkeys,
    map_identityAt root hother.forall_isDirectory]

/-- Repeated `Parent` follows the way up. -/
theorem Sound.climbs (h : Sound systemRoot dataRoot router) (n : ℕ)
    (hidentity : IsDirectory router identity) :
    ∃ last, Relation.ReflTransGen
        (fun lower upper => router.route .parent lower = .ok upper) identity last ∧
      IsDirectory router last ∧ last.key = h.trees.up^[n] identity.key := by
  induction n generalizing identity with
  | zero => exact ⟨identity, .refl, hidentity, rfl⟩
  | succ n ih =>
    obtain ⟨next, hroute⟩ := h.exists_route hidentity .parent
    obtain ⟨hnext, hkey⟩ := (h.route_eq_ok_iff hidentity).mp hroute
    rw [if_neg nofun] at hkey
    obtain ⟨last, hclimb, hlast, hlastKey⟩ := ih hnext
    refine ⟨last, .head hroute hclimb, hlast, ?_⟩
    rw [hlastKey, hkey, Function.iterate_succ_apply]

end Identities

/-- What the unified view of a router is, from the root of the System volume. -/
structure IsTreeView (router : ApfsFirmlinkRouter)
    (systemVolume dataVolume : ApfsVolumeDescriptor) (system data : NativeApfsVolumeProjection)
    (root : FirmlinkObjectIdentity) : Prop where
  root_isDirectory : IsDirectory router root
  root_key : root.key = rootKey systemVolume system
  /-- Down to a backing child, across, and up again. -/
  round_trip : ∀ parent child, Visible router root parent → IsBackingChild router parent child →
    ∃ next, router.route .forward child = .ok next ∧ router.route .parent next = .ok parent
  /-- A visible directory is reached in one way. -/
  unique : ∀ identity children others, Reached router root children identity →
    Reached router root others identity → children = others
  system_directories : ∀ inode ∈ system.inodes, inode.isDirectory = true →
    ∃ identity, IsDirectory router identity ∧
      identity.key = (systemVolume.objectId, inode.objectId)
  data_directories : ∀ inode ∈ data.inodes, inode.isDirectory = true →
    ∃ identity, IsDirectory router identity ∧ identity.key = (dataVolume.objectId, inode.objectId)
  /-- `Forward` succeeds and is idempotent. -/
  forward : ∀ identity, IsDirectory router identity →
    ∃ next, router.route .forward identity = .ok next ∧ router.route .forward next = .ok next
  /-- Repeated `Parent` reaches a root. -/
  rooted : ∀ identity, IsDirectory router identity → ∃ last,
    Relation.ReflTransGen
      (fun lower upper => router.route .parent lower = .ok upper) identity last ∧
    IsDirectory router last ∧
    (last.key = rootKey systemVolume system ∨ last.key = rootKey dataVolume data)

/-- **The unified view is a tree.**  From a visible directory to a backing child, across, and up by
`Parent` leads back; every visible directory is reached in one way only; and from every directory
of the two volumes `Forward` succeeds, is idempotent, and repeated `Parent` reaches a root. -/
theorem unified_view_is_tree {unicode : UnicodeData} {container : ApfsContainerDescriptor}
    {groupUuidHex : String} {system data : NativeApfsVolumeProjection}
    {records : List VerifiedFirmlinkRecord} {router : ApfsFirmlinkRouter}
    (h : tryBuild unicode container groupUuidHex system data records = .ok router) :
    ∃ systemVolume dataVolume root,
      groupVolumes container groupUuidHex = .ok (systemVolume, dataVolume) ∧
      IsTreeView router systemVolume dataVolume system data root := by
  obtain ⟨systemVolume, dataVolume, hvolumes, hsound, hsystem, hdata⟩ := sound_of_tryBuild h
  have hidentity : ∀ key, contains router.directories key = true →
      ∃ identity, IsDirectory router identity ∧ identity.key = key := by
    intro key hkey
    obtain ⟨directory, hfound⟩ := contains_iff.mp hkey
    have hown := hsound.identity _ _ hfound
    exact ⟨directory.identity, ⟨directory, hown ▸ hfound, rfl⟩, hown⟩
  obtain ⟨rootDirectory, hrootFound, -⟩ := hsound.systemRoot_parent
  obtain ⟨root, hroot, hrootKey⟩ := hidentity _ (contains_iff.mpr ⟨rootDirectory, hrootFound⟩)
  refine ⟨systemVolume, dataVolume, root, hvolumes, ⟨hroot, hrootKey, ?_, ?_, ?_, ?_, ?_, ?_⟩⟩
  · rintro parent child ⟨children, hreached⟩ hchild
    obtain ⟨hparent, hpath⟩ := hsound.path_of_reached hroot hrootKey hreached
    obtain ⟨next, hroute⟩ := hsound.exists_route hchild.isDirectory .forward
    obtain ⟨hnext, hkey⟩ := (hsound.route_eq_ok_iff hchild.isDirectory).mp hroute
    rw [if_pos rfl] at hkey
    refine ⟨next, hroute, (hsound.route_eq_ok_iff hnext).mpr ⟨hparent, ?_⟩⟩
    rw [if_neg nofun, hkey,
      CrossedTrees.up_forward ⟨_, hpath⟩ (hsound.isChild hparent hchild)]
  · exact fun identity children others hreached hother =>
      hsound.reached_unique hroot hrootKey hreached hother
  · exact fun inode hinode hdirectory => hidentity _ (hsystem inode hinode hdirectory)
  · exact fun inode hinode hdirectory => hidentity _ (hdata inode hinode hdirectory)
  · intro identity hdirectory
    obtain ⟨next, hroute⟩ := hsound.exists_route hdirectory .forward
    obtain ⟨hnext, hkey⟩ := (hsound.route_eq_ok_iff hdirectory).mp hroute
    rw [if_pos rfl] at hkey
    refine ⟨next, hroute, (hsound.route_eq_ok_iff hnext).mpr ⟨hnext, ?_⟩⟩
    rw [if_pos rfl, hkey, CrossedTrees.forward_forward]
  · intro identity hdirectory
    obtain ⟨n, hn⟩ := hsound.exists_root hdirectory.contains_key
    obtain ⟨last, hclimb, hlast, hkey⟩ := hsound.climbs n hdirectory
    rw [← hkey] at hn
    exact ⟨last, hclimb, hlast, hn⟩

/-! ## A group with one crossing -/

/-- A volume of the group, with the role and one digit of its UUID. -/
def groupMember (objectId roleRaw : ℕ) (digit : Char) : ApfsVolumeDescriptor where
  objectId := objectId
  volumeUuidHex := String.ofList (List.replicate 32 digit)
  groupUuidHex := String.ofList (List.replicate 32 'd')
  nameUtf8 := []
  roleRaw := roleRaw
  groupMetadataValid := true
  groupAssociationStatus := "valid-system-data"
  locked := false
  incompatibleFeatures := 0
  superblockBlock := 100
  superblockXid := 87

/-- A container with a System and a Data volume. -/
def groupContainer : ApfsContainerDescriptor where
  containerUuidHex := String.ofList (List.replicate 32 'a')
  memberStoreIds := ["apfs-store:raw"]
  volumes := [groupMember 10 0x1 'b', groupMember 11 0x40 'c']
  groups := [{
    containerUuidHex := String.ofList (List.replicate 32 'a')
    groupUuidHex := String.ofList (List.replicate 32 'd')
    memberVolumeIds := ["apfs-vol:aaaaaaaaaaaaaaaaaaaaaaaaaaaaaaaa:10",
      "apfs-vol:aaaaaaaaaaaaaaaaaaaaaaaaaaaaaaaa:11"]
    associationStatus := "valid-system-data"
    systemVolumeId := "apfs-vol:aaaaaaaaaaaaaaaaaaaaaaaaaaaaaaaa:10"
    dataVolumeId := "apfs-vol:aaaaaaaaaaaaaaaaaaaaaaaaaaaaaaaa:11" }]
  checkpointXid := 90
  fusion := false

/-- A directory of a volume. -/
def plainDirectory (objectId parentObjectId : ℕ) (nameUtf8 : Bytes) : InodeRecord where
  objectId := objectId
  parentObjectId := parentObjectId
  isDirectory := true
  xid := 85
  nameUtf8 := nameUtf8
  mode := 0o040755
  nodeType := .directory
  symlinkTargetUtf8 := []

/-- The directories `/a` and `/a/b` of a volume. -/
def plainProjection (objectId : ℕ) : NativeApfsVolumeProjection where
  checkpointXid := 90
  volumeObjectId := objectId
  volumeSuperblockBlock := 100
  rootDirectoryInode := 2
  incompatibleFeatures := 0
  namePolicy := {}
  inodes := [plainDirectory 2 2 [], plainDirectory 3 2 [0x61], plainDirectory 4 3 [0x62]]
  directoryLinks := [⟨2, wide "a", 3, 89, [0x61]⟩, ⟨3, wide "b", 4, 89, [0x62]⟩]

/-- The crossing from `/a` to `/a`. -/
def plainRecords : List VerifiedFirmlinkRecord :=
  [⟨(directoryOf groupContainer (groupMember 10 0x1 'b') (plainProjection 10)
      (plainDirectory 3 2 [0x61])).identity,
    (directoryOf groupContainer (groupMember 11 0x40 'c') (plainProjection 11)
      (plainDirectory 3 2 [0x61])).identity⟩]

theorem unified_view_is_tree_plain :
    ∃ router, tryBuild latinData groupContainer (String.ofList (List.replicate 32 'd'))
        (plainProjection 10) (plainProjection 11) plainRecords = .ok router ∧
      ∃ systemVolume dataVolume root,
        groupVolumes groupContainer (String.ofList (List.replicate 32 'd')) =
          .ok (systemVolume, dataVolume) ∧
        IsTreeView router systemVolume dataVolume (plainProjection 10) (plainProjection 11)
          root := by
  have hbuilt : (tryBuild latinData groupContainer (String.ofList (List.replicate 32 'd'))
      (plainProjection 10) (plainProjection 11) plainRecords).isOk = true := by
    decide +kernel
  cases hrouter : tryBuild latinData groupContainer (String.ofList (List.replicate 32 'd'))
      (plainProjection 10) (plainProjection 11) plainRecords with
  | error reason =>
    rw [hrouter] at hbuilt
    cases hbuilt
  | ok router => exact ⟨router, rfl, unified_view_is_tree hrouter⟩

end Firmlink
end ApfsAccess
