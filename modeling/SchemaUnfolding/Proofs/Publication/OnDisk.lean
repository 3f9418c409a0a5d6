import SchemaUnfolding.Files.Destination
import SchemaUnfolding.Files.Reading
import SchemaUnfolding.Proofs.Files.Writing
import SchemaUnfolding.Proofs.Publication.Writes

/-!
# Writes on a disk

A directory that took all writes it was handed holds a file for each of them, at a place that the
write alone determines. A file holds the text of the last write to its place: a write changes no
other file, and makes nothing but directories besides.

Links could lead two paths to one place, so none may stand below the directory.
-/

namespace SchemaUnfolding

open ExceptT

theorem Text.Utf8.decode_encode (text : String) : decode (encode text) = .ok text := by
  have whole : (⟨(encode text).toArray⟩ : ByteArray) = text.toUTF8 := by simp [encode]
  have read : String.fromUTF8? text.toUTF8 = some text := dif_pos text.isValidUTF8
  rw [decode, whole, read]

/-- A file that a text was written to is read as that text. -/
theorem Disk.readText_of_look {disk : Disk} {path text : String} {place : Place}
    (found : disk.look .throughLink path = .ok (place, .file (Text.Utf8.encode text))) :
    disk.readText path = .ok text := by
  rw [readText, found]
  dsimp only
  rw [Text.Utf8.decode_encode]
  rfl

/-! ## Places of writes -/

/-- The directories on the way to the file of a write. -/
def Write.above : Write → List String
  | document kind .. | kindIndex kind _ => [kind.directory]
  | rootIndex _ => []

/-- The place of the file of a write below the place of a directory. -/
def Write.place (top : Place) (write : Write) : Place :=
  top ++ write.above ++ [Destination.nameOf write]

theorem Write.place_ne_nil (top : Place) (write : Write) : write.place top ≠ [] := by
  simp [place]

/-- Only files and directories stand below a place. -/
def Disk.PlainBelow (disk : Disk) (top : Place) : Prop :=
  ∀ below entry, below ≠ [] → disk.get? (top ++ below) = some entry → entry.IsPlain

theorem Disk.mem_of_find? {place : Place} {entry : Entry} {entries : List (Place × Entry)}
    (found : find? place entries = some entry) : (place, entry) ∈ entries := by
  induction entries with
  | nil => cases found
  | cons pair rest ih =>
    rw [find?] at found
    split at found
    · rename_i same
      cases found
      exact same ▸ List.mem_cons_self
    · exact List.mem_cons_of_mem pair (ih found)

theorem Disk.plainBelow_of_entries {disk : Disk}
    (plain : ∀ pair ∈ disk.entries, pair.2.IsPlain) (top : Place) : disk.PlainBelow top := by
  intro below entry inside stands
  rcases place : top ++ below with _ | ⟨name, rest⟩
  · exact (inside (List.append_eq_nil_iff.mp place).2).elim
  · rw [place] at stands
    exact plain _ (mem_of_find? stands)

/-- A path opens a directory below which only files and directories stand. -/
structure Disk.PlainTree (disk : Disk) (root : String) (top : Place) : Prop where
  opens : disk.Opens root top
  plain : disk.PlainBelow top

theorem OperationKind.isFileName_directory (kind : OperationKind) :
    Path.IsFileName kind.directory := by
  cases kind <;> decide

namespace Destination

variable {before after : Destination} {final disk : Disk} {root : String} {top place : Place}
  {write : Write} {writes rest : List Write}

/-- The directory that a write is put into opens at the place that the write determines. -/
theorem opens_directoryOf (tree : final.PlainTree root top)
    (opens : final.Opens (directoryOf root write) place) : place = top ++ write.above := by
  have inKind : ∀ kind : OperationKind, final.Opens (Path.join root kind.directory) place →
      place = top ++ [kind.directory] := by
    intro kind opens
    refine tree.opens.join_eq kind.isFileName_directory opens fun text stands => ?_
    exact tree.plain _ _ (List.cons_ne_nil _ _) stands
  cases write with
  | document kind => exact inKind kind opens
  | kindIndex kind => exact inKind kind opens
  | rootIndex => exact (tree.opens.unique opens).trans (List.append_nil top).symm

/-! ## One write -/

/-- A write that was not refused was put into its directory, which was made before if needed. -/
theorem accept_returns (accepted : (accept before write).refusal = none) :
    (accept before write).state.directory = before.directory ∧
      (accept before write).state.written = before.written + 1 ∧
      ∃ middle,
        (DiskAction.makeDirectories (directoryOf before.directory write)).Returns before.disk ()
          middle ∧
        (DiskAction.writeFile (pathOf before.directory write) (textOf write)).Returns middle ()
          (accept before write).state.disk := by
  unfold accept at accepted ⊢
  rcases made : (DiskAction.makeDirectories (directoryOf before.directory write)).run.run
      before.disk with ⟨_ | _, middle⟩
  · simp [made] at accepted
  · rcases wrote : (DiskAction.writeFile (pathOf before.directory write) (textOf write)).run.run
        middle with ⟨_ | _, after⟩
    · simp [made, wrote] at accepted
    · simp only [wrote]
      exact ⟨trivial, trivial, middle, made, wrote⟩

theorem grows_accept (accepted : (accept before write).refusal = none) :
    before.disk.Grows Set.univ (accept before write).state.disk := by
  rcases accept_returns accepted with ⟨_, _, middle, made, wrote⟩
  have early := (DiskAction.returns_makeDirectories made).1.mono (Set.empty_subset Set.univ)
  exact early.trans (DiskAction.grows_writeFile wrote)

/-- What a write leaves on a disk that nothing is taken from later: its text in the file at its
place. -/
theorem accept_settles (accepted : (accept before write).refusal = none)
    (named : Path.IsFileName (nameOf write))
    (later : (accept before write).state.disk.Grows Set.univ final)
    (tree : final.PlainTree before.directory top) :
    before.disk.Grows {write.place top} (accept before write).state.disk ∧
      (accept before write).state.disk.get? (write.place top) =
        some (.file (Text.Utf8.encode (textOf write))) ∧
      ∀ content, final.get? (write.place top) = some (.file content) →
        final.look .throughLink (pathOf before.directory write) =
          .ok (write.place top, .file content) := by
  rcases accept_returns accepted with ⟨_, _, middle, made, wrote⟩
  rcases DiskAction.returns_makeDirectories made with ⟨early, place, opens⟩
  have settled : middle.Grows Set.univ final := (DiskAction.grows_writeFile wrote).trans later
  have directory : place = top ++ write.above := opens_directoryOf tree (settled.opens opens)
  subst directory
  have plain : ∀ entry, middle.get? (write.place top) = some entry → entry.IsPlain := by
    intro entry stands
    by_cases file : ∃ content, entry = .file content
    · rcases file with ⟨content, rfl⟩
      trivial
    · have kept : final.get? (write.place top) = some entry :=
        settled.keeps stands fun _ content same => file ⟨content, same⟩
      rw [Write.place, List.append_assoc] at kept
      exact tree.plain _ _ (by simp) kept
  rcases DiskAction.returns_writeFile_join opens named plain wrote with
    ⟨entry, usable, grows, stands⟩
  refine ⟨(early.mono (Set.empty_subset _)).trans grows, stands, fun content stands => ?_⟩
  exact (settled.opens opens).look_join named entry usable stands

/-! ## All writes -/

theorem grows_after (accepts : sink.AcceptsAll before writes) :
    before.disk.Grows Set.univ (sink.after before writes).disk ∧
      (sink.after before writes).directory = before.directory ∧
      (sink.after before writes).written = before.written + writes.length := by
  induction writes generalizing before with
  | nil => exact ⟨.refl _ _, rfl, rfl⟩
  | cons write rest ih =>
    rcases accept_returns accepts.1 with ⟨directory, written, _⟩
    rcases ih accepts.2 with ⟨grows, directory', written'⟩
    refine ⟨(grows_accept accepts.1).trans grows, directory'.trans directory, ?_⟩
    rw [List.length_cons]
    exact written'.trans (by rw [sink, written]; omega)

/-- After the last index was written the directory is there. No link or device is new below it. -/
theorem plainTree_after {text : String}
    (accepts : sink.AcceptsAll before (writes ++ [.rootIndex text]))
    (plain : ∀ top, (sink.after before (writes ++ [.rootIndex text])).disk.look .throughLink
      before.directory = .ok (top, .directory) → before.disk.PlainBelow top) :
    ∃ top, (sink.after before (writes ++ [.rootIndex text])).disk.PlainTree before.directory
      top := by
  rcases Sink.acceptsAll_append.mp accepts with ⟨early, accepted, _⟩
  rcases accept_returns accepted with ⟨_, _, middle, made, wrote⟩
  rcases (DiskAction.returns_makeDirectories made).2 with ⟨top, opens⟩
  have opened := (DiskAction.grows_writeFile wrote).opens opens
  have found : (sink.after before (writes ++ [.rootIndex text])).disk.Opens before.directory
      top := by
    rw [Sink.after_append, ← (grows_after early).2.1]
    exact opened
  refine ⟨top, found, fun below entry inside stands => ?_⟩
  rcases (grows_after accepts).1.plain stands with isPlain | earlier
  · exact isPlain
  · exact plain top (Disk.look_directory_iff.mpr found) below entry inside earlier

/-- A file keeps its content through writes to other places. -/
theorem keeps_after {content : List UInt8} (accepts : sink.AcceptsAll before writes)
    (named : ∀ write ∈ writes, Path.IsFileName (nameOf write))
    (tree : (sink.after before writes).disk.PlainTree before.directory top)
    (stands : before.disk.get? place = some (.file content))
    (spared : ∀ write ∈ writes, write.place top ≠ place) :
    (sink.after before writes).disk.get? place = some (.file content) := by
  induction writes generalizing before with
  | nil => exact stands
  | cons write rest ih =>
    rcases accept_returns accepts.1 with ⟨directory, _⟩
    have settled := accept_settles accepts.1 (named write List.mem_cons_self)
      (grows_after accepts.2).1 tree
    have kept : (sink.accept before write).state.disk.get? place = some (.file content) :=
      settled.1.keeps stands fun same _ _ => spared write List.mem_cons_self same.symm
    refine ih accepts.2 (fun other later => named other (List.mem_cons_of_mem write later)) ?_
      kept fun other later => spared other (List.mem_cons_of_mem write later)
    exact directory.symm ▸ tree

/-- Of the writes to one place the last one can be read back. -/
theorem readText_of_last (named : ∀ other ∈ writes ++ write :: rest, Path.IsFileName (nameOf other))
    (accepts : sink.AcceptsAll before (writes ++ write :: rest))
    (tree : (sink.after before (writes ++ write :: rest)).disk.PlainTree before.directory top)
    (last : ∀ other ∈ rest, other.place top ≠ write.place top) :
    (sink.after before (writes ++ write :: rest)).disk.readText (pathOf before.directory write) =
      .ok (textOf write) := by
  rcases Sink.acceptsAll_append.mp accepts with ⟨early, accepted, late⟩
  rcases grows_after early with ⟨_, directory, _⟩
  rcases accept_returns accepted with ⟨directory', _⟩
  rw [Sink.after_append] at tree ⊢
  have tree' : (sink.after (sink.accept (sink.after before writes) write).state rest).disk.PlainTree
      (sink.after before writes).directory top := directory.symm ▸ tree
  have settled := accept_settles accepted (named write (by simp)) (grows_after late).1 tree'
  have kept := keeps_after late (fun other later => named other (by simp [later]))
    (directory'.symm ▸ tree') settled.2.1 last
  exact directory ▸ Disk.readText_of_look (settled.2.2 _ kept)

/-! ## Writing into directories that are there -/

/-- A write has a name, in a directory that is there, under which nothing or a file stands. -/
structure Fits (disk : Disk) (root : String) (top : Place) (write : Write) : Prop where
  opens : disk.Opens (directoryOf root write) (top ++ write.above)
  named : Path.IsFileName (nameOf write)
  entry : Path.IsEntry (nameOf write)
  usable : Path.Usable (pathOf root write)
  free : disk.get? (write.place top) = none ∨
    ∃ old, disk.get? (write.place top) = some (.file old)

theorem accept_of_returns {middle after : Disk}
    (made : (DiskAction.makeDirectories (directoryOf before.directory write)).Returns before.disk ()
      middle)
    (wrote : (DiskAction.writeFile (pathOf before.directory write) (textOf write)).Returns middle ()
      after) :
    accept before write =
      ⟨{ before with disk := after, written := before.written + 1 }, none,
        [.writing (pathOf before.directory write)]⟩ := by
  rw [Returns] at made wrote
  unfold accept
  rw [made]
  dsimp only
  rw [wrote]

/-- A write that fits still fits after another that fits was written. -/
theorem Fits.put {content : List UInt8} {other : Write} (fits : Fits disk root top write)
    (written : Fits disk root top other) :
    Fits (disk.put (other.place top) (.file content)) root top write where
  opens := (DiskAction.grows_put_file (other.place_ne_nil top) written.free).opens fits.opens
  named := fits.named
  entry := fits.entry
  usable := fits.usable
  free := by
    rw [Disk.get?_put disk (other.place_ne_nil top)]
    by_cases same : write.place top = other.place top
    · rw [if_pos same]
      exact .inr ⟨content, rfl⟩
    · rw [if_neg same]
      exact fits.free

/-- Writes that fit are all accepted. -/
theorem acceptsAll_of_fits (fits : ∀ write ∈ writes, Fits before.disk before.directory top write) :
    sink.AcceptsAll before writes := by
  induction writes generalizing before with
  | nil => trivial
  | cons write rest ih =>
    have first := fits write List.mem_cons_self
    have wrote : (DiskAction.writeFile (pathOf before.directory write) (textOf write)).Returns
        before.disk () _ :=
      DiskAction.writeFile_join_of_opens first.opens first.named first.entry first.usable first.free
    have accepted : sink.accept before write = _ :=
      accept_of_returns (DiskAction.makeDirectories_of_opens first.opens) wrote
    rw [Sink.AcceptsAll, accepted]
    refine ⟨rfl, ?_⟩
    exact ih fun other later => (fits other (List.mem_cons_of_mem write later)).put first

end Destination

end SchemaUnfolding
