/-
  Cascade.Proofs.StoredDocument
  ────────────────────────────────
  **A DOCUMENT IN ITS PLACE.**

  Writing a document makes the directories above it, makes a draft and puts
  it in the place of whatever entry its path names.  A path `Keeps`
  documents when one can be written there, is found again, and can be
  replaced.  From then on the document is `Settled`: directories, draft and
  entry are where they were, every write succeeds, and what was written is
  read.

      writeDocument_of_site   — a document that has a site is written
      site_of_writeDocument   — and one that is written has a site
      settled_of_keeps        — after the first write it is settled
      Settled.write           — then every write succeeds and stays settled
-/
import Cascade.Proofs.StoredGroups
import Cascade.Proofs.Walks

namespace Cascade

open Cascade.Text
open Cascade.Files

namespace FileSystem

variable {fs fs' : FileSystem} {l l' : Location} {now : Int}

/-! ## §1. Changes and the shape of a tree. -/

/-- A tree has its own shape. -/
theorem SameShape.refl (fs : FileSystem) : SameShape fs fs := fun _ => rfl

/-- One shape is that of the other. -/
theorem SameShape.symm (h : SameShape fs fs') : SameShape fs' fs := fun l => (h l).symm

/-- Trees of the shape of a third one have one shape. -/
theorem SameShape.trans {fs'' : FileSystem} (h : SameShape fs fs') (h' : SameShape fs' fs'') :
    SameShape fs fs'' := fun l => (h' l).trans (h l)

/-- A node that is put at a place is there; the root stays what it is. -/
theorem node?_put (fs : FileSystem) (l l' : Location) (node : Node) :
    (fs.put l node).node? l' =
      if l' = [] then some (.directory 0) else if l = l' then some node else fs.node? l' := by
  unfold node? put
  by_cases hroot : l' = []
  · rw [if_pos hroot, if_pos hroot]
  · rw [if_neg hroot, if_neg hroot, if_neg hroot, Table.get?_insert]

/-- The root is a directory. -/
theorem kind?_root (fs : FileSystem) : fs.kind? [] = some .directory := rfl

/-- A directory whose time is set leaves the shape. -/
theorem sameShape_put (h : fs.kind? l = some .directory) :
    SameShape fs (fs.put l (.directory now)) := by
  intro l'
  rw [kind?, node?_put]
  by_cases hroot : l' = []
  · rw [if_pos hroot, hroot, kind?_root]
    rfl
  · rw [if_neg hroot]
    by_cases hl : l = l'
    · rw [if_pos hl, ← hl, h]
      rfl
    · rw [if_neg hl]
      rfl

/-- Touching a place leaves the shape. -/
theorem sameShape_touchAt (fs : FileSystem) (l : Location) (now : Int) :
    SameShape fs (fs.touchAt l now) := by
  unfold touchAt
  split
  · rename_i time hn
    refine sameShape_put ?_
    unfold kind? node?
    by_cases hroot : l = []
    · rw [if_pos hroot]
      rfl
    · rw [if_neg hroot, hn]
      rfl
  · exact .refl fs

/-- Touching a place leaves every other one. -/
theorem node?_touchAt_of_ne (hne : l' ≠ l) : (fs.touchAt l now).node? l' = fs.node? l' := by
  unfold touchAt
  split
  · rw [node?_put, if_neg (Ne.symm hne)]
    by_cases hroot : l' = []
    · rw [if_pos hroot, hroot]
      rfl
    · rw [if_neg hroot]
  · rfl

/-- A place below the root is not the one above it. -/
theorem ne_dropLast (h : l ≠ []) : l ≠ l.dropLast := by
  intro he
  have hlen := congrArg List.length he
  have hpos := List.length_pos_of_ne_nil h
  rw [List.length_dropLast] at hlen
  omega

/-- A new entry is there. -/
theorem node?_create (fs : FileSystem) (hl : l ≠ []) (node : Node) (now : Int) :
    (fs.create l node now).node? l = some node := by
  unfold create touchAbove
  rw [node?_touchAt_of_ne (ne_dropLast hl), node?_put, if_neg hl, if_pos rfl]

/-- A new file is there, and every other place holds what it held. -/
theorem fileAt_create (fs : FileSystem) (hl : l ≠ []) (content : Bytes) (time now : Int) :
    FileAt fs (fs.create l (.file content time) now) l := by
  constructor
  · intro l' hne
    unfold create touchAbove
    rw [sameShape_touchAt _ _ _ l', kind?, node?_put, if_neg (Ne.symm hne)]
    by_cases hroot : l' = []
    · rw [if_pos hroot, hroot, kind?_root]
      rfl
    · rw [if_neg hroot]
      rfl
  · rw [kind?, node?_create fs hl]
    rfl

/-- Trees that got a file at one place have one shape if they had one before. -/
theorem FileAt.sameShape {gs gs' : FileSystem} (h : FileAt fs gs l) (h' : FileAt fs' gs' l)
    (hs : SameShape fs fs') : SameShape gs gs' := by
  intro l'
  by_cases hl : l' = l
  · rw [hl, h.file, h'.file]
  · rw [h.others l' hl, h'.others l' hl, hs l']

/-- A tree that gets a file where one is keeps its shape. -/
theorem FileAt.sameShape_of_file (h : FileAt fs fs' l) (hfile : fs.kind? l = some .file) :
    SameShape fs fs' := by
  intro l'
  by_cases hl : l' = l
  · rw [hl, h.file, hfile]
  · exact h.others l' hl

/-! ## §2. Directories that are there. -/

section

variable {cwd : Position} {p : Path}

/-- A directory that is there is not made again. -/
theorem makeDirectories_of_there {position : Position} {node : Node}
    (hfound : fs.walk cwd false p = .ok (position, some node))
    (hdir : fs.isDirectory cwd p = .ok true) : fs.makeDirectories cwd p now = (.ok (), fs) := by
  have hmake : fs.makeDirectory cwd p now = .error .alreadyExists := by
    rw [makeDirectory, hfound]
  have hexisting : fs.orExisting cwd p .alreadyExists = (.ok (), fs) := by
    rw [orExisting, if_neg (by decide), hdir]
  unfold makeDirectories
  cases p.parts.length with
  | zero => rw [makeDirectoriesWithin, hmake]; exact hexisting
  | succ above => rw [makeDirectoriesWithin, hmake]; exact hexisting

/-- When nothing is missing and directories are made, they are there and nothing changes. -/
theorem there_of_makeDirectories (hthere : ∀ position, fs.walk cwd false p ≠ .ok (position, none))
    (hfound : fs.walk cwd false p ≠ .error .notFound)
    (h : fs.makeDirectories cwd p now = (.ok (), fs')) :
    fs' = fs ∧ fs.isDirectory cwd p = .ok true := by
  obtain ⟨problem, hmake, hproblem⟩ :
      ∃ problem, fs.makeDirectory cwd p now = .error problem ∧ problem ≠ .notFound := by
    unfold makeDirectory
    cases hw : fs.walk cwd false p with
    | error problem => exact ⟨problem, rfl, fun he => hfound (by rw [hw, he])⟩
    | ok r =>
      obtain ⟨position, node?⟩ := r
      cases node? with
      | none => exact absurd hw (hthere position)
      | some node => exact ⟨.alreadyExists, rfl, by decide⟩
  have hexisting : fs.orExisting cwd p problem = (.ok (), fs') := by
    unfold makeDirectories at h
    cases hn : p.parts.length with
    | zero =>
      rw [hn, makeDirectoriesWithin, hmake] at h
      exact h
    | succ above =>
      rw [hn, makeDirectoriesWithin, hmake] at h
      cases problem <;> first | exact absurd rfl hproblem | exact h
  rw [orExisting, if_neg hproblem] at hexisting
  split at hexisting
  · rename_i hdir
    cases hexisting
    exact ⟨rfl, hdir⟩
  · cases hexisting
  · cases hexisting

/-- A path leads to a directory when the walk along it does. -/
theorem isDirectory_eq_true_iff :
    fs.isDirectory cwd p = .ok true ↔
      ∃ position time, fs.walk cwd true p = .ok (position, some (.directory time)) := by
  unfold isDirectory stat
  cases hw : fs.walk cwd true p with
  | error problem =>
    constructor
    · intro h
      simp only [bind, Except.bind] at h
      split at h <;> cases h
    · rintro ⟨_, _, h⟩
      cases h
  | ok r =>
    obtain ⟨position, node?⟩ := r
    cases node? with
    | none =>
      constructor
      · intro h
        cases h
      · rintro ⟨_, _, h⟩
        cases h
    | some node =>
      cases node with
      | directory time => exact ⟨fun _ => ⟨position, time, rfl⟩, fun _ => rfl⟩
      | file content time =>
        constructor
        · intro h
          cases h
        · rintro ⟨_, _, h⟩
          cases h
      | link target =>
        constructor
        · intro h
          cases h
        · rintro ⟨_, _, h⟩
          cases h

end

end FileSystem

namespace Preferences

open FileSystem

/-! ## §3. How a document is written. -/

/-- Where a document is put: the tree once the directories above it are made, the place drafts
are made at, and the place of the entry, which is no directory. -/
structure IsSite (w : World) (p : Path) (made : FileSystem) (drafts entry : Location) : Prop where
  directories : w.files.makeDirectories w.cwd p.parent w.now = (.ok (), made)
  draft : ∃ directory time, absolute? w.cwd p.parent = some directory ∧
    made.walk w.cwd true directory = .ok (⟨drafts, 0⟩, some (.directory time))
  found : ∃ node?, (made.put drafts (.directory w.now)).walk w.cwd false p =
      .ok (⟨entry, 0⟩, node?) ∧ ∀ time, node? ≠ some (.directory time)

/-- The tree once a document was put in its place. -/
def withEntry (made : FileSystem) (drafts entry : Location) (content : Bytes) (now : Int) :
    FileSystem :=
  (made.put drafts (.directory now)).create entry (.file content now) now

section

variable {w w' : World} {p : Path} {made : FileSystem} {drafts entry : Location}

/-- A path whose parent has an absolute form starts at a place. -/
theorem isPlaced_of_absolute? {cwd : Position} {directory : Path}
    (h : absolute? cwd p.parent = some directory) : p.IsPlaced cwd := by
  intro ha
  have hanchor : p.parent.anchor = .relative := ha
  unfold absolute? at h
  rw [hanchor] at h
  simp only at h
  split at h
  · assumption
  · cases h

/-- An absolute path starts at a place. -/
theorem isPlaced_absolute? {cwd : Position} {directory : Path}
    (h : absolute? cwd p = some directory) : directory.IsPlaced cwd := by
  intro ha
  unfold absolute? at h
  split at h
  · split at h
    · cases h
      cases ha
    · cases h
  · rename_i hne
    cases h
    exact absurd ha hne

/-- What is seen as a directory is one. -/
theorem exists_directory {fs : FileSystem} {l : Location} (h : fs.kind? l = some .directory) :
    ∃ time, fs.node? l = some (.directory time) := by
  obtain ⟨node, hn, hk⟩ := Option.map_eq_some_iff.1 h
  cases node with
  | directory time => exact ⟨time, hn⟩
  | file content time => cases hk
  | link target => cases hk

/-- The path of a document that has a site starts at a place. -/
theorem IsSite.isPlaced (h : IsSite w p made drafts entry) : p.IsPlaced w.cwd := by
  obtain ⟨directory, time, habs, -⟩ := h.draft
  exact isPlaced_of_absolute? habs

/-- The directory of drafts is walked to. -/
theorem IsSite.walks_drafts (h : IsSite w p made drafts entry) :
    ∃ directory, absolute? w.cwd p.parent = some directory ∧ directory.IsSpelled ∧
      Walks made true linkLimit (directory.start w.cwd) directory.place drafts ∧
        made.kind? drafts = some .directory := by
  obtain ⟨directory, time, habs, hdraft⟩ := h.draft
  obtain ⟨hdir, l, hwalks, hposition, hn⟩ := (walk_eq_ok_iff (isPlaced_absolute? habs)).1 hdraft
  obtain rfl := (Position.mk.inj hposition).1
  refine ⟨directory, habs, hdir, hwalks, ?_⟩
  rw [kind?, ← hn]
  rfl

/-- The entry of a site is walked to without following it, and is no directory. -/
theorem IsSite.walks_entry (h : IsSite w p made drafts entry) :
    p.IsSpelled ∧ Walks (made.put drafts (.directory w.now)) false linkLimit (p.start w.cwd)
      p.place entry ∧
      (made.put drafts (.directory w.now)).isDirectoryAt entry = false ∧ entry ≠ [] := by
  obtain ⟨node?, hfound, hnode⟩ := h.found
  obtain ⟨hspelled, l, hwalks, hposition, hn⟩ := (walk_eq_ok_iff h.isPlaced).1 hfound
  obtain rfl := (Position.mk.inj hposition).1
  have hnot : (made.put drafts (.directory w.now)).kind? entry ≠ some .directory := by
    intro hk
    obtain ⟨time, ht⟩ := exists_directory hk
    exact hnode time (hn.trans ht)
  refine ⟨hspelled, hwalks, ?_, ?_⟩
  · rwa [Bool.eq_false_iff, Ne, isDirectoryAt_iff]
  · rintro rfl
    exact hnot (kind?_root _)

/-- A document that has a site is written when its groups can be. -/
theorem writeDocument_of_site (h : IsSite w p made drafts entry) {gs : Groups}
    {content : Bytes} (he : encode p gs = .ok content) :
    writeDocument w p gs =
      (.ok (), { w with files := withEntry made drafts entry content w.now }) := by
  obtain ⟨directory, time, habs, hdraft⟩ := h.draft
  obtain ⟨node?, hfound, hnode⟩ := h.found
  have hdrafted : made.draft w.cwd directory w.now =
      .ok (made.put drafts (.directory w.now)) := by
    simp only [FileSystem.draft, hdraft]
  have hreplace : (made.put drafts (.directory w.now)).replace w.cwd p content w.now =
      .ok (withEntry made drafts entry content w.now) := by
    rw [FileSystem.replace, hfound]
    split
    · rename_i heq
      cases heq
      exact absurd rfl (hnode _)
    · rename_i heq
      cases heq
      rfl
    · rename_i heq
      cases heq
  unfold writeDocument
  rw [h.directories]
  simp only
  unfold replaceDocument
  simp only [habs, hdrafted, changed, he, hreplace]

/-- Where a draft is made there is a directory. -/
theorem draft_eq_ok {fs fs' : FileSystem} {cwd : Position} {directory : Path} {now : Int}
    (h : fs.draft cwd directory now = .ok fs') :
    ∃ l time, fs.walk cwd true directory = .ok (⟨l, 0⟩, some (.directory time)) ∧
      fs' = fs.put l (.directory now) := by
  unfold FileSystem.draft at h
  split at h
  · rename_i l time hw
    cases h
    exact ⟨l, time, hw, rfl⟩
  all_goals cases h

/-- What is replaced is no directory. -/
theorem replace_eq_ok {fs fs' : FileSystem} {cwd : Position} {content : Bytes} {now : Int}
    (h : fs.replace cwd p content now = .ok fs') :
    ∃ position node?, fs.walk cwd false p = .ok (position, node?) ∧
      (∀ time, node? ≠ some (.directory time)) ∧
        fs' = fs.create position.place (.file content now) now := by
  unfold FileSystem.replace at h
  split at h
  · cases h
  · rename_i position node? hno hw
    cases h
    exact ⟨position, node?, hw, fun time ht => hno time ht, rfl⟩
  · cases h

/-- A change that succeeds changes the files. -/
theorem changed_eq_ok {result : Except Files.Fault FileSystem}
    (h : changed w result = (.ok (), w')) :
    ∃ files, result = .ok files ∧ w' = { w with files } := by
  cases result with
  | error fault => cases h
  | ok files =>
    cases h
    exact ⟨files, rfl, rfl⟩

/-- A document that is written has a site. -/
theorem site_of_writeDocument {gs : Groups} (h : writeDocument w p gs = (.ok (), w')) :
    ∃ made drafts entry content, IsSite w p made drafts entry ∧ encode p gs = .ok content ∧
      w' = { w with files := withEntry made drafts entry content w.now } := by
  unfold writeDocument at h
  split at h
  · cases h
  · rename_i made hmade
    unfold replaceDocument at h
    split at h
    · cases h
    · rename_i directory habs
      split at h
      · cases h
      · rename_i w₁ hdraft
        obtain ⟨files, hfiles, rfl⟩ := changed_eq_ok hdraft
        obtain ⟨drafts, time, hwalk, rfl⟩ := draft_eq_ok hfiles
        split at h
        · cases h
        · rename_i content hencode
          obtain ⟨files, hreplace, rfl⟩ := changed_eq_ok h
          obtain ⟨position, node?, hfound, hnode, rfl⟩ := replace_eq_ok hreplace
          -- the path starts at a place, so the entry has one
          obtain ⟨-, entry, -, rfl, -⟩ := (walk_eq_ok_iff (isPlaced_of_absolute? habs)).1 hfound
          exact ⟨made, drafts, entry, content,
            ⟨hmade, ⟨directory, time, habs, hwalk⟩, ⟨node?, hfound, hnode⟩⟩, hencode, rfl⟩

/-! ## §4. A document that is settled. -/

/-- A document that is in its place: there is a directory above it, drafts can be made, and its
path leads to a file, whether links are followed or not. -/
structure Settled (fs : FileSystem) (cwd : Position) (p : Path) (entry : Location) : Prop where
  placed : p.IsPlaced cwd
  spelled : p.IsSpelled
  above : p.parent.IsSpelled ∧
    ∃ l, Walks fs false linkLimit (p.parent.start cwd) p.parent.place l ∧ fs.kind? l ≠ none
  directory : ∃ l, Walks fs true linkLimit (p.parent.start cwd) p.parent.place l ∧
    fs.kind? l = some .directory
  draft : ∃ directory l, absolute? cwd p.parent = some directory ∧ directory.IsSpelled ∧
    Walks fs true linkLimit (directory.start cwd) directory.place l ∧
      fs.kind? l = some .directory
  document : ∀ follows, Walks fs follows linkLimit (p.start cwd) p.place entry
  file : fs.kind? entry = some .file

/-- A document stays settled in a tree of the same shape. -/
theorem Settled.sameShape {fs fs' : FileSystem} {cwd : Position}
    (h : Settled fs cwd p entry) (hs : SameShape fs fs') : Settled fs' cwd p entry := by
  obtain ⟨hparent, a, ha, hak⟩ := h.above
  obtain ⟨b, hb, hbk⟩ := h.directory
  obtain ⟨directory, c, habs, hdir, hc, hck⟩ := h.draft
  exact ⟨h.placed, h.spelled, ⟨hparent, a, ha.sameShape hs, (hs a).symm ▸ hak⟩,
    ⟨b, hb.sameShape hs, (hs b).trans hbk⟩,
    ⟨directory, c, habs, hdir, hc.sameShape hs, (hs c).trans hck⟩,
    fun follows => (h.document follows).sameShape hs, (hs entry).trans h.file⟩

/-- A file at the end of a walk holds what is read. -/
theorem read_of_walks {fs : FileSystem} {cwd : Position} {l : Location} {content : Bytes}
    {time : Int} (hplaced : p.IsPlaced cwd) (hspelled : p.IsSpelled)
    (h : Walks fs true linkLimit (p.start cwd) p.place l)
    (hn : fs.node? l = some (.file content time)) : fs.read cwd p = .ok content := by
  have hwalk : fs.walk cwd true p = .ok (⟨l, 0⟩, some (.file content time)) :=
    (walk_eq_ok_iff hplaced).2 ⟨hspelled, l, h, rfl, hn.symm⟩
  unfold FileSystem.read stat
  rw [hwalk]
  rfl

/-- The file that a settled document is in holds what is read. -/
theorem Settled.read_of_node? {fs : FileSystem} {cwd : Position} {content : Bytes} {time : Int}
    (h : Settled fs cwd p entry) (hn : fs.node? entry = some (.file content time)) :
    fs.read cwd p = .ok content := read_of_walks h.placed h.spelled (h.document true) hn

/-- A file is not at the root. -/
theorem ne_root_of_file {fs : FileSystem} {l : Location} (h : fs.kind? l = some .file) :
    l ≠ [] := by
  rintro rfl
  rw [kind?_root] at h
  cases h

/-- What is put in the place of a settled document is in it. -/
theorem node?_withEntry {l : Location} (hl : l ≠ []) (content : Bytes) (now : Int) :
    (withEntry made drafts l content now).node? l = some (.file content now) :=
  node?_create _ hl _ _

/-- A settled document has a site, and putting another one there leaves the shape. -/
theorem Settled.site (h : Settled w.files w.cwd p entry) :
    ∃ drafts, IsSite w p w.files drafts entry ∧
      ∀ content now, SameShape w.files (withEntry w.files drafts entry content now) := by
  obtain ⟨hparent, a, ha, hak⟩ := h.above
  obtain ⟨b, hb, hbk⟩ := h.directory
  obtain ⟨directory, drafts, habs, hdir, hc, hck⟩ := h.draft
  have hplaced : p.parent.IsPlaced w.cwd := h.placed
  have hdrafted (now : Int) : SameShape w.files (w.files.put drafts (.directory now)) :=
    sameShape_put hck
  refine ⟨drafts, ⟨?_, ⟨directory, ?_⟩, ?_⟩, fun content now => ?_⟩
  · obtain ⟨node, hn⟩ := Option.ne_none_iff_exists'.1 (mt kind?_eq_none_iff.2 hak)
    obtain ⟨time, hd⟩ := exists_directory hbk
    have hfound : w.files.walk w.cwd false p.parent = .ok (⟨a, 0⟩, some node) :=
      (walk_eq_ok_iff hplaced).2 ⟨hparent, a, ha, rfl, hn.symm⟩
    exact makeDirectories_of_there hfound (isDirectory_eq_true_iff.2 ⟨⟨b, 0⟩, time,
      (walk_eq_ok_iff hplaced).2 ⟨hparent, b, hb, rfl, hd.symm⟩⟩)
  · obtain ⟨time, hd⟩ := exists_directory hck
    exact ⟨time, habs, (walk_eq_ok_iff (isPlaced_absolute? habs)).2
      ⟨hdir, drafts, hc, rfl, hd.symm⟩⟩
  · refine ⟨_, (walk_eq_ok_iff h.placed).2
      ⟨h.spelled, entry, (h.document false).sameShape (hdrafted _), rfl, rfl⟩, fun time ht => ?_⟩
    have hfile := (hdrafted w.now entry).trans h.file
    rw [kind?, ht] at hfile
    cases hfile
  · have hfile := (hdrafted now entry).trans h.file
    exact (hdrafted now).trans
      ((fileAt_create _ (ne_root_of_file hfile) content now now).sameShape_of_file hfile)

/-- **A SETTLED DOCUMENT CAN ALWAYS BE REPLACED**: it is settled again, and what was written is
read. -/
theorem Settled.write (h : Settled w.files w.cwd p entry) {gs : Groups} {content : Bytes}
    (he : encode p gs = .ok content) :
    ∃ files, writeDocument w p gs = (.ok (), { w with files }) ∧
      Settled files w.cwd p entry ∧ files.read w.cwd p = .ok content := by
  obtain ⟨drafts, hsite, hshape⟩ := h.site
  have hsettled := h.sameShape (hshape content w.now)
  exact ⟨_, writeDocument_of_site hsite he, hsettled,
    hsettled.read_of_node? (node?_withEntry (ne_root_of_file h.file) content w.now)⟩

/-! ## §5. From the first write on. -/

/-- A path at which documents can be kept: one can be written there, is found again, and can be
replaced. -/
def Keeps (w : World) (p : Path) : Prop :=
  ∃ w₁ w₂ content, writeDocument w p .empty = (.ok (), w₁) ∧ w₁.read p = .ok content ∧
    writeDocument w₁ p .empty = (.ok (), w₂)

/-- A path that cannot be handed to the system leads nowhere, but not because something is
missing. -/
theorem walk_ne_notFound {fs : FileSystem} {cwd : Position} {follows : Bool}
    (h : ¬ p.IsSpelled) : fs.walk cwd follows p ≠ .error .notFound := by
  intro he
  unfold walk at he
  cases hb : systemBytes p.text with
  | error problem =>
    rw [hb] at he
    cases he
    exact absurd (isUnusable_of_systemBytes hb) (by decide)
  | ok bytes =>
    have hlong : pathLimit ≤ bytes.length := Nat.le_of_not_lt fun hs => h ⟨bytes, hb, hs⟩
    simp only [hb, hlong, if_true] at he
    cases he

/-- The parent of a path on which something is found leads to something. -/
theorem exists_above {fs : FileSystem} {cwd : Position} {l : Location}
    (h : Walks fs true linkLimit (p.start cwd) p.place l) (hl : fs.kind? l ≠ none) :
    ∃ a, Walks fs false linkLimit (p.parent.start cwd) p.parent.place a ∧ fs.kind? a ≠ none := by
  by_cases hp : p.parts = []
  · -- a path without parts is its own parent
    have hplace : p.place = [] := by rw [Path.place, hp]; rfl
    have hparent : p.parent.place = [] := by rw [Path.place, Path.parent, hp]; rfl
    rw [hplace] at h
    rw [hparent]
    cases h
    exact ⟨_, .done, hl⟩
  · have hsplit : p.place = p.parent.place ++ [Utf8.settledName (p.parts.getLast hp)] := by
      have hparts := List.dropLast_append_getLast hp
      rw [Path.place, Path.place, Path.parent, ← List.map_singleton, ← List.map_append, hparts]
    rw [hsplit] at h
    obtain ⟨a, node, ha, hn⟩ := h.above (by simp)
    refine ⟨a, ha, fun hk => ?_⟩
    rw [kind?_eq_none_iff, hn] at hk
    cases hk

/-- What is read is in a file. -/
theorem walk_of_read {fs : FileSystem} {cwd : Position} {content : Bytes}
    (h : fs.read cwd p = .ok content) :
    ∃ position time, fs.walk cwd true p = .ok (position, some (.file content time)) := by
  unfold FileSystem.read stat at h
  cases hw : fs.walk cwd true p with
  | error problem =>
    rw [hw] at h
    cases h
  | ok r =>
    obtain ⟨position, node?⟩ := r
    rw [hw] at h
    cases node? with
    | none => cases h
    | some node =>
      cases node with
      | file content' time =>
        cases h
        exact ⟨position, time, rfl⟩
      | directory time => cases h
      | link target => cases h

/-- The directory above what is found is there, once directories were made for it. -/
theorem directory_of_made {fs fs' : FileSystem} {cwd : Position} {now : Int}
    (hplaced : p.IsPlaced cwd) {a : Location}
    (ha : Walks fs false linkLimit (p.start cwd) p.place a) (hk : fs.kind? a ≠ none)
    (h : fs.makeDirectories cwd p now = (.ok (), fs')) :
    fs' = fs ∧ p.IsSpelled ∧
      ∃ l, Walks fs true linkLimit (p.start cwd) p.place l ∧ fs.kind? l = some .directory := by
  have hmissing (position : Position) : fs.walk cwd false p ≠ .ok (position, none) := by
    intro hw
    obtain ⟨-, l, hl, -, hn⟩ := (walk_eq_ok_iff hplaced).1 hw
    -- a walk arrives at one place only
    have hsame := (walkFrom_of_walks hl).symm.trans (walkFrom_of_walks ha)
    cases hsame
    exact hk (kind?_eq_none_iff.2 hn.symm)
  have hfound : fs.walk cwd false p ≠ .error .notFound := by
    by_cases hs : p.IsSpelled
    · rw [(walk_eq_ok_iff hplaced).2 ⟨hs, a, ha, rfl, rfl⟩]
      exact fun h => by cases h
    · exact walk_ne_notFound hs
  obtain ⟨rfl, hdir⟩ := there_of_makeDirectories hmissing hfound h
  obtain ⟨position, time, hwalk⟩ := isDirectory_eq_true_iff.1 hdir
  obtain ⟨hs, l, hl, -, hn⟩ := (walk_eq_ok_iff hplaced).1 hwalk
  refine ⟨rfl, hs, l, hl, ?_⟩
  rw [kind?, ← hn]
  rfl

/-- A document that was put in its place, is found there and can be replaced, be it later, is
settled. -/
theorem settled_of_sites {w₁ : World} {content₀ content₁ : Bytes} {made' : FileSystem}
    {drafts' entry' : Location} (hsite : IsSite w p made drafts entry)
    (hsite' : IsSite w₁ p made' drafts' entry') (hread : w₁.read p = .ok content₁)
    (hfiles : w₁.files = withEntry made drafts entry content₀ w.now) (hcwd : w₁.cwd = w.cwd) :
    Settled w₁.files w₁.cwd p entry := by
  obtain ⟨hspelled, hwalks, hnot, hroot⟩ := hsite.walks_entry
  have hput : FileAt (made.put drafts (.directory w.now)) w₁.files entry := by
    rw [hfiles]
    exact fileAt_create _ hroot content₀ w.now w.now
  rw [← hcwd] at hwalks
  -- whatever walks arrive from now on arrive at the entry
  have arrives {follows : Bool} {l : Location}
      (h : Walks w₁.files follows linkLimit (p.start w₁.cwd) p.place l) : l = entry :=
    hwalks.arrives hnot hput (walkFrom_of_walks h)
  obtain ⟨position, time, hw⟩ := walk_of_read hread
  obtain ⟨-, l, hl, -, hnl⟩ := (walk_eq_ok_iff hsite'.isPlaced).1 hw
  obtain rfl := arrives hl
  obtain ⟨a, ha, hak⟩ := exists_above hl (by rw [hput.file]; exact fun h => by cases h)
  obtain ⟨hmade, hparent, b, hb, hbk⟩ :=
    directory_of_made (p := p.parent) hsite'.isPlaced ha hak hsite'.directories
  subst hmade
  obtain ⟨directory, habs, hdir, hc, hck⟩ := hsite'.walks_drafts
  obtain ⟨-, hl', -⟩ := hsite'.walks_entry
  have hkept := hl'.sameShape (sameShape_put hck).symm
  obtain rfl := arrives hkept
  refine ⟨hsite'.isPlaced, hspelled, ⟨hparent, a, ha, hak⟩, ⟨b, hb, hbk⟩,
    ⟨directory, drafts', habs, hdir, hc, hck⟩, fun follows => ?_, hput.file⟩
  cases follows with
  | true => exact hl
  | false => exact hkept

/-- **AFTER THE FIRST WRITE A DOCUMENT IS SETTLED**, and what was written is read. -/
theorem settled_of_keeps (h : Keeps w p) {gs : Groups} {content : Bytes}
    (he : encode p gs = .ok content) :
    ∃ files entry, writeDocument w p gs = (.ok (), { w with files }) ∧
      Settled files w.cwd p entry ∧ files.read w.cwd p = .ok content := by
  obtain ⟨w₁, w₂, content₁, hfirst, hread, hsecond⟩ := h
  obtain ⟨made, drafts, entry, content₀, hsite, -, rfl⟩ := site_of_writeDocument hfirst
  obtain ⟨made', drafts', entry', -, hsite', -, -⟩ := site_of_writeDocument hsecond
  have hsettled := settled_of_sites hsite hsite' hread rfl rfl
  have hroot := ne_root_of_file hsettled.file
  -- the same tree but for what is in the file
  have hshape : SameShape (withEntry made drafts entry content₀ w.now)
      (withEntry made drafts entry content w.now) :=
    (fileAt_create _ hroot content₀ w.now w.now).sameShape
      (fileAt_create _ hroot content w.now w.now) (.refl _)
  exact ⟨_, entry, writeDocument_of_site hsite he, hsettled.sameShape hshape,
    (hsettled.sameShape hshape).read_of_node? (node?_withEntry hroot content w.now)⟩

end

end Preferences

end Cascade
