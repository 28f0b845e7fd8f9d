/-
  Cascade.Proofs.RootedTrees
  ────────────────────────────────
  **TREES WITHOUT LOOSE ENDS.**

  In a tree everything is in a directory (`Rooted`).  A table from places to
  nodes could say otherwise, but no change makes it do so: an entry is made
  where a walk arrives, which is in a directory, it never takes the place of
  a directory, and what is removed is removed with all that is below it.  So
  the worlds that changes lead to are rooted, with their working directory
  in the tree.

      Walks.directory_above  — where a walk arrives there is a directory above
      RootedAt.apply         — changes leave no loose ends
      World.rootedAt_change  — nor do they lose the working directory
-/
import Cascade.Proofs.TimesApart

namespace Cascade

open Cascade.Text
open Cascade.Files

namespace FileSystem

variable {fs fs' : FileSystem} {follows : Bool} {links : Nat} {place found l : Location}
  {parts : List Text} {cwd : Position} {p : Path} {now : Int}

/-! ## §1. Trees that grow. -/

/-- A tree that has everything another one has, times apart, and perhaps more. -/
def Grown (fs fs' : FileSystem) : Prop := ∀ l, fs.sight l ≠ none → fs'.sight l = fs.sight l

/-- A tree has what it has. -/
theorem Grown.refl (fs : FileSystem) : Grown fs fs := fun _ _ => rfl

/-- A tree that is grown twice is grown. -/
theorem Grown.trans {fs'' : FileSystem} (h : Grown fs fs') (h' : Grown fs' fs'') :
    Grown fs fs'' := by
  intro l hl
  rw [h' l (by rwa [h l hl]), h l hl]

/-- A tree that is like another one is grown from it. -/
theorem Alike.grown (h : Alike fs fs') : Grown fs fs' := fun l _ => h l

/-- What is there stays of its kind. -/
theorem Grown.kind? (h : Grown fs fs') (hl : fs.node? l ≠ none) : fs'.kind? l = fs.kind? l := by
  rw [kind?_eq_sight, kind?_eq_sight, h l (mt sight_eq_none_iff.1 hl)]

/-- Directories stay. -/
theorem Grown.isDirectoryAt (h : Grown fs fs') (hl : fs.isDirectoryAt l = true) :
    fs'.isDirectoryAt l = true := by
  obtain ⟨node, hn⟩ := exists_node?_of_isDirectoryAt hl
  have hkind := h.kind? (l := l) (by rw [hn]; exact Option.some_ne_none node)
  exact isDirectoryAt_iff.2 (hkind.trans (isDirectoryAt_iff.1 hl))

/-! ## §2. Everything is in a directory. -/

/-- A tree in which everything is in a directory. -/
def Rooted (fs : FileSystem) : Prop :=
  ∀ l name, fs.node? (l ++ [name]) ≠ none → fs.isDirectoryAt l = true

/-- Above what is there is a directory; the root is above itself. -/
theorem Rooted.above (h : fs.Rooted) (hl : fs.node? l ≠ none) :
    fs.isDirectoryAt l.dropLast = true := by
  by_cases hroot : l = []
  · rw [hroot]
    rfl
  · apply h l.dropLast (l.getLast hroot)
    rwa [List.dropLast_append_getLast]

/-- Whether everything is in a directory is told by the places of a tree. -/
theorem rooted_iff : fs.Rooted ↔ ∀ l ∈ fs.nodes.keys, fs.isDirectoryAt l.dropLast = true := by
  have hthere (l : Location) (name : Text) :
      fs.node? (l ++ [name]) ≠ none ↔ l ++ [name] ∈ fs.nodes.keys := by
    rw [node?, if_neg (by simp), Ne, Table.get?_eq_none_iff, not_not]
  constructor
  · intro h l hl
    rcases List.eq_nil_or_concat' l with rfl | ⟨l, name, rfl⟩
    · rfl
    · rw [List.dropLast_concat]
      exact h l name ((hthere l name).2 hl)
  · intro h l name hn
    have hdir := h _ ((hthere l name).1 hn)
    rwa [List.dropLast_concat] at hdir

instance (fs : FileSystem) : Decidable fs.Rooted := decidable_of_iff _ rooted_iff.symm

/-- Below a place where nothing is there is nothing. -/
theorem Rooted.below (h : fs.Rooted) (missing : fs.node? l = none) {l' : Location}
    (hp : l <+: l') : fs.node? l' = none := by
  obtain ⟨rest, rfl⟩ := hp
  induction rest using List.reverseRecOn with
  | nil => rwa [List.append_nil]
  | append_singleton rest name ih =>
    by_contra hthere
    rw [← List.append_assoc] at hthere
    have hdir := h _ _ hthere
    unfold isDirectoryAt at hdir
    rw [ih] at hdir
    cases hdir

/-- Trees that are alike have loose ends or not. -/
theorem Rooted.alike (h : fs.Rooted) (halike : Alike fs fs') : fs'.Rooted := by
  intro l name hn
  rw [isDirectoryAt_of_sight (halike l)]
  apply h l name
  rw [Ne, ← sight_eq_none_iff] at hn ⊢
  rwa [← halike]

/-- A node that is put at a place leaves what is at every other one. -/
theorem isDirectoryAt_put_of_ne {l' : Location} (hne : l ≠ l') (node : Node) :
    (fs.put l node).isDirectoryAt l' = fs.isDirectoryAt l' := by
  apply isDirectoryAt_of_sight
  rw [sight_put, if_neg hne]
  split
  · next hroot => rw [hroot]; rfl
  · rfl

/-- A node that is put in a directory leaves no loose ends, if it is a directory or does not take
the place of one. -/
theorem Rooted.put (h : fs.Rooted) {node : Node} (above : fs.isDirectoryAt l.dropLast = true)
    (holds : node.untimed = .directory 0 ∨ fs.isDirectoryAt l = false) :
    (fs.put l node).Rooted := by
  intro l' name hn
  by_cases hself : l = l'
  · subst hself
    have hdir : fs.node? (l ++ [name]) ≠ none := by
      rwa [node?_put, if_neg (by simp), if_neg (by simp)] at hn
    have hl := h l name hdir
    have hnode : node.untimed = .directory 0 :=
      holds.resolve_right fun hnot => by rw [hnot] at hl; cases hl
    rw [isDirectoryAt_iff, kind?_eq_sight, sight_put, hnode]
    split
    · rfl
    · rw [if_pos rfl]
      rfl
  · rw [isDirectoryAt_put_of_ne hself]
    by_cases hnew : l = l' ++ [name]
    · rw [hnew, List.dropLast_concat] at above
      exact above
    · apply h l' name
      rwa [node?_put, if_neg (by simp), if_neg hnew] at hn

/-- Making an entry where there is no directory leaves no loose ends. -/
theorem Rooted.create (h : fs.Rooted) (above : fs.isDirectoryAt l.dropLast = true)
    (hno : fs.isDirectoryAt l = false) (node : Node) (now : Int) :
    (fs.create l node now).Rooted :=
  (h.put above (.inr hno)).alike (alike_touchAt _ _ now)

/-- Where a walk arrives there is a directory above. -/
theorem Walks.directory_above (h : Walks fs follows links place parts found) (rooted : fs.Rooted)
    (hplace : fs.node? place ≠ none) : fs.isDirectoryAt found.dropLast = true := by
  have hthere {l : Location} (hl : fs.isDirectoryAt l = true) : fs.node? l ≠ none := by
    obtain ⟨node, hn⟩ := exists_node?_of_isDirectoryAt hl
    rw [hn]
    exact Option.some_ne_none node
  induction h with
  | done => exact rooted.above hplace
  | stay directory stays _ ih => exact ih hplace
  | up directory _ ih => exact ih (hthere (rooted.above hplace))
  | missing looks there =>
    rw [List.dropLast_concat]
    exact looks.directory
  | keep looks there kept =>
    rw [List.dropLast_concat]
    exact looks.directory
  | follow looks there followed notEmpty _ ih =>
    apply ih
    split
    · exact hplace
    · exact Option.some_ne_none _
  | enter looks there noLink _ ih =>
    apply ih
    rw [there]
    exact Option.some_ne_none _

/-- Leaving removed directories ends at the same place. -/
theorem place_of_leave {at' position : Position} {rest : List Text}
    (h : leave at' parts = .ok (position, rest)) : position.place = at'.place := by
  induction parts generalizing at' with
  | nil => cases h; rfl
  | cons part parts ih =>
    rw [leave] at h
    split at h
    · cases h; rfl
    · split at h
      · have hplace := ih h
        exact hplace
      · cases h

/-- A walk starts at the working directory, or at the root. -/
theorem place_of_startOf {position : Position} {rest : List Text}
    (h : startOf cwd p = .ok (position, rest)) :
    position.place = cwd.place ∨ position.place = [] := by
  unfold startOf at h
  split at h
  · exact .inl (place_of_leave h)
  · cases h
    exact .inr rfl

/-- **WHERE A PATH LEADS**, unless it is to a directory that was removed: to the end of a walk
from the working directory or from the root. -/
theorem exists_walks {position : Position} {node? : Option Node}
    (hw : fs.walk cwd follows p = .ok (position, node?))
    (left : position.removed = 0 ∨ ∀ time, node? ≠ some (.directory time)) :
    ∃ place parts, (place = cwd.place ∨ place = []) ∧ position.removed = 0 ∧
      Walks fs follows linkLimit place parts position.place ∧
        node? = fs.node? position.place := by
  unfold walk at hw
  cases hbytes : systemBytes p.text with
  | error problem => rw [hbytes] at hw; cases hw
  | ok bytes =>
    rw [hbytes] at hw
    simp only at hw
    split at hw
    · cases hw
    · cases hstart : startOf cwd p with
      | error problem => rw [hstart] at hw; cases hw
      | ok r =>
        rw [hstart] at hw
        obtain ⟨⟨place, removed⟩, parts⟩ := r
        cases removed with
        | succ removed =>
          cases hw
          rcases left with h | hno
          · cases h
          · exact absurd rfl (hno 0)
        | zero =>
          simp only at hw
          cases hfrom : fs.walkFrom follows linkLimit place (parts.map Utf8.settledName) with
          | error problem => rw [hfrom] at hw; cases hw
          | ok arrived =>
            obtain ⟨l, found?⟩ := arrived
            rw [hfrom] at hw
            cases hw
            obtain ⟨hwalks, hn⟩ := walks_of_walkFrom hfrom
            exact ⟨place, _, place_of_startOf hstart, rfl, hwalks, hn⟩

/-- An entry that a path leads to is in a directory, and is none unless it is found as one. -/
theorem Rooted.walk (rooted : fs.Rooted) (hcwd : fs.isDirectoryAt cwd.place = true)
    {position : Position} {node? : Option Node}
    (hw : fs.walk cwd follows p = .ok (position, node?))
    (hno : ∀ time, node? ≠ some (.directory time)) :
    fs.isDirectoryAt position.place.dropLast = true ∧
      fs.isDirectoryAt position.place = false := by
  obtain ⟨place, parts, hplace, -, hwalks, hn⟩ := exists_walks hw (.inr hno)
  constructor
  · apply hwalks.directory_above rooted
    have hdir : fs.isDirectoryAt place = true := by
      rcases hplace with rfl | rfl
      · exact hcwd
      · rfl
    obtain ⟨node, there⟩ := exists_node?_of_isDirectoryAt hdir
    rw [there]
    exact Option.some_ne_none node
  · unfold isDirectoryAt
    rw [← hn]
    split
    · exact absurd rfl (hno _)
    · rfl

/-! ## §3. Changes. -/

/-- What is in the tree of some of the nodes. -/
theorem node?_filterKeys (fs : FileSystem) (keep : Location → Bool) (l : Location) :
    (FileSystem.mk (fs.nodes.filterKeys keep)).node? l =
      if l = [] then some (.directory 0) else if keep l = true then fs.node? l else none := by
  unfold node?
  by_cases hroot : l = []
  · rw [if_pos hroot, if_pos hroot]
  · rw [if_neg hroot, if_neg hroot, if_neg hroot]
    exact Entries.get?_filter_key

/-- What is seen of the tree of some of the nodes. -/
theorem sight_filterKeys (fs : FileSystem) (keep : Location → Bool) (l : Location) :
    (FileSystem.mk (fs.nodes.filterKeys keep)).sight l =
      if l = [] then some (.directory 0) else if keep l = true then fs.sight l else none := by
  rw [sight, node?_filterKeys]
  split
  · rfl
  · split
    · rfl
    · rfl

/-- Some of the nodes of a tree have no loose ends when what is above them is among them. -/
theorem Rooted.filterKeys (h : fs.Rooted) {keep : Location → Bool}
    (closed : ∀ l name, keep (l ++ [name]) = true → keep l = true) :
    (FileSystem.mk (fs.nodes.filterKeys keep)).Rooted := by
  intro l name hn
  rw [Ne, ← sight_eq_none_iff, sight_filterKeys, if_neg (by simp)] at hn
  by_cases hkeep : keep (l ++ [name]) = true
  · rw [if_pos hkeep, sight_eq_none_iff] at hn
    have hsight := sight_filterKeys fs keep l
    rw [if_pos (closed l name hkeep)] at hsight
    by_cases hroot : l = []
    · rw [hroot]
      rfl
    · rw [if_neg hroot] at hsight
      rw [isDirectoryAt_of_sight hsight]
      exact h l name hn
  · rw [if_neg hkeep] at hn
    exact absurd rfl hn

/-- What is not below a place is not so with its last name left out. -/
theorem isPrefixOf_of_concat {l' : Location} {name : Text}
    (h : l.isPrefixOf (l' ++ [name]) = false) : l.isPrefixOf l' = false := by
  rw [Bool.eq_false_iff, Ne, List.isPrefixOf_iff_prefix] at h ⊢
  exact fun hp => h (hp.trans (List.prefix_append l' [name]))

/-- Removing a place and what is below it leaves no loose ends. -/
theorem Rooted.prune (h : fs.Rooted) (l : Location) (now : Int) : (fs.prune l now).Rooted := by
  refine (h.filterKeys fun l' name hkeep => ?_).alike (alike_touchAt _ _ now)
  rw [Bool.not_eq_true'] at hkeep ⊢
  exact isPrefixOf_of_concat hkeep

/-- Removing what is below a place leaves no loose ends. -/
theorem Rooted.clear (h : fs.Rooted) (l : Location) (now : Int) : (fs.clear l now).Rooted := by
  unfold FileSystem.clear
  simp only
  split
  · exact h
  · refine (h.filterKeys fun l' name hkeep => ?_).alike (alike_touchAt _ _ now)
    rw [Bool.or_eq_true, decide_eq_true_eq, Bool.not_eq_true'] at hkeep ⊢
    right
    rcases hkeep with heq | hnot
    · -- a place is not below its own entries
      rw [Bool.eq_false_iff, Ne, List.isPrefixOf_iff_prefix, ← heq]
      intro hp
      have hlen := hp.length_le
      rw [List.length_append, List.length_singleton] at hlen
      omega
    · exact isPrefixOf_of_concat hnot

/-- A tree without loose ends that has the working directory. -/
structure RootedAt (fs : FileSystem) (cwd : Position) : Prop where
  rooted : fs.Rooted
  here : fs.isDirectoryAt cwd.place = true

/-- What is made where a path leads, unless that is a directory, leaves no loose ends. -/
theorem RootedAt.create (h : RootedAt fs cwd) {position : Position} {node? : Option Node}
    (hw : fs.walk cwd follows p = .ok (position, node?))
    (hno : ∀ time, node? ≠ some (.directory time)) (node : Node) (now : Int) :
    RootedAt (fs.create position.place node now) cwd := by
  obtain ⟨above, hnot⟩ := h.rooted.walk h.here hw hno
  refine ⟨h.rooted.create above hnot node now, ?_⟩
  have hne : position.place ≠ cwd.place := by
    intro heq
    rw [heq, h.here] at hnot
    cases hnot
  unfold FileSystem.create touchAbove
  rw [isDirectoryAt_of_sight (alike_touchAt _ _ now cwd.place), isDirectoryAt_put_of_ne hne, h.here]

/-- A directory is made where a path leads to nothing. -/
theorem makeDirectory_eq_ok {made : FileSystem} (h : fs.makeDirectory cwd p now = .ok made) :
    ∃ position, fs.walk cwd false p = .ok (position, none) ∧
      made = fs.create position.place (.directory now) now := by
  unfold makeDirectory at h
  split at h
  · rename_i position hw
    cases h
    exact ⟨position, hw, rfl⟩
  · cases h
  · cases h

/-- A directory that will do is there already, and the tree stays as it is. -/
theorem orExisting_snd (fs : FileSystem) (cwd : Position) (p : Path) (problem : Problem) :
    (fs.orExisting cwd p problem).2 = fs := by
  unfold orExisting
  split
  · rfl
  · split
    · rfl
    · rfl
    · rfl

/-- **WHAT MAKING ONE DIRECTORY KEEPS, MAKING SEVERAL KEEPS.** -/
theorem makeDirectoriesWithin_induction {P : FileSystem → Prop}
    (step : ∀ {fs made p}, P fs → fs.makeDirectory cwd p now = .ok made → P made)
    (above : Nat) (p : Path) (h : P fs) : P (makeDirectoriesWithin cwd now above p fs).2 := by
  induction above generalizing p with
  | zero =>
    rw [makeDirectoriesWithin]
    cases hmake : fs.makeDirectory cwd p now with
    | ok made => exact step h hmake
    | error problem => exact (orExisting_snd fs cwd p problem).symm ▸ h
  | succ above ih =>
    rw [makeDirectoriesWithin]
    cases hmake : fs.makeDirectory cwd p now with
    | ok made => exact step h hmake
    | error problem =>
      by_cases hmissing : problem = .notFound
      · subst hmissing
        have habove := ih p.parent
        simp only
        generalize makeDirectoriesWithin cwd now above p.parent fs = c at habove
        obtain ⟨answer, made⟩ := c
        cases answer with
        | error fault => exact habove
        | ok _ =>
          simp only
          cases hagain : made.makeDirectory cwd p now with
          | ok made' => exact step habove hagain
          | error problem => exact (orExisting_snd made cwd p problem).symm ▸ habove
      · have hexisting : P (fs.orExisting cwd p problem).2 :=
          (orExisting_snd fs cwd p problem).symm ▸ h
        cases problem <;> first | exact absurd rfl hmissing | exact hexisting

/-- Making directories leaves no loose ends. -/
theorem RootedAt.makeDirectories (h : RootedAt fs cwd) (p : Path) (now : Int) :
    RootedAt (fs.makeDirectories cwd p now).2 cwd := by
  refine makeDirectoriesWithin_induction (P := fun fs => RootedAt fs cwd) ?_ _ p h
  intro fs made p h hmake
  obtain ⟨position, hw, rfl⟩ := makeDirectory_eq_ok hmake
  exact h.create hw (fun time ht => by cases ht) _ now

/-- A file that is written over leaves no loose ends. -/
theorem RootedAt.putFile (h : RootedAt fs cwd) {position : Position} {content : Bytes}
    {time : Int} (hw : fs.walk cwd follows p = .ok (position, some (.file content time)))
    (content' : Bytes) (time' : Int) :
    (fs.put position.place (.file content' time')).Rooted := by
  obtain ⟨above, hnot⟩ := h.rooted.walk h.here hw fun time ht => by cases ht
  exact h.rooted.put above (.inr hnot)

/-- One more change, after a first one that may have failed, keeps what the two keep. -/
theorem rooted_andThen {c : Changed} {next : FileSystem → Except Fault FileSystem}
    (h : RootedAt c.2 cwd)
    (hnext : ∀ {fs fs'}, RootedAt fs cwd → next fs = .ok fs' → fs'.Rooted) :
    (c.andThen next).2.Rooted := by
  obtain ⟨answer, fs⟩ := c
  cases answer with
  | error fault => exact h.rooted
  | ok _ =>
    unfold Changed.andThen changed
    simp only
    cases hn : next fs with
    | error fault => exact h.rooted
    | ok fs' => exact hnext h hn

/-- Writing a file leaves no loose ends. -/
theorem RootedAt.write {content : Bytes} {time : Int} (h : RootedAt fs cwd)
    (hwrite : fs.write cwd p content time now = .ok fs') : fs'.Rooted := by
  unfold FileSystem.write at hwrite
  split at hwrite
  · cases hwrite
  · split at hwrite
    · rename_i position hw
      cases hwrite
      exact (h.create hw (fun time ht => by cases ht) _ now).rooted
    · rename_i position _ _ hw
      cases hwrite
      exact h.putFile hw content time
    · cases hwrite
    · cases hwrite

/-- Setting a time leaves no loose ends. -/
theorem RootedAt.touch {time : Int} (h : RootedAt fs cwd)
    (htouch : fs.touch cwd p time = .ok fs') : fs'.Rooted := by
  unfold FileSystem.touch at htouch
  split at htouch
  · rename_i position content _ hw
    cases htouch
    exact h.putFile hw content time
  · rename_i l time' hw
    cases htouch
    obtain ⟨-, -, -, -, -, hn⟩ := exists_walks hw (.inl rfl)
    have hdir : fs.isDirectoryAt l = true := by
      unfold isDirectoryAt
      rw [← hn]
    exact h.rooted.alike (alike_put hdir time)
  · cases htouch
    exact h.rooted
  · cases htouch
  · cases htouch

/-- Linking leaves no loose ends. -/
theorem RootedAt.link {target : Text} (h : RootedAt fs cwd)
    (hlink : fs.link cwd p target now = .ok fs') : fs'.Rooted := by
  unfold FileSystem.link at hlink
  split at hlink
  · rename_i place target' hsite
    cases hlink
    unfold linkSite at hsite
    obtain ⟨bytes, -, hsite⟩ := bind_eq_ok_iff.1 hsite
    obtain ⟨_, -, hsite⟩ := bind_eq_ok_iff.1 hsite
    split at hsite
    · cases hsite
    · split at hsite
      · cases hsite
      · obtain ⟨⟨position, node?⟩, hw, hsite⟩ := bind_eq_ok_iff.1 hsite
        cases node? with
        | some node => cases hsite
        | none =>
          cases hsite
          exact (h.create hw (fun time ht => by cases ht) _ now).rooted
  · cases hlink

/-- Removing an entry leaves no loose ends. -/
theorem Rooted.remove (h : fs.Rooted) (hremove : fs.remove cwd p now = .ok fs') :
    fs'.Rooted := by
  unfold FileSystem.remove at hremove
  split at hremove
  · cases hremove
  · cases hremove
    exact h.prune _ now
  · cases hremove
    exact h
  · cases hremove
    exact h
  · cases hremove

/-- Removing a directory leaves no loose ends. -/
theorem Rooted.removeDirectory (h : fs.Rooted)
    (hremove : fs.removeDirectory cwd p now = .ok fs') : fs'.Rooted := by
  unfold FileSystem.removeDirectory at hremove
  split at hremove
  · cases hremove
  · split at hremove
    · split at hremove <;> cases hremove
    · split at hremove
      · cases hremove
        exact h.prune _ now
      · cases hremove
      · cases hremove

/-- One change that may fail keeps what it keeps when it does not. -/
theorem rooted_changed {next : Except Fault FileSystem} (h : fs.Rooted)
    (hnext : ∀ {fs'}, next = .ok fs' → fs'.Rooted) : (fs.changed next).2.Rooted := by
  cases next with
  | error fault => exact h
  | ok fs' => exact hnext rfl

/-- Removing a directory and all that is in it leaves no loose ends. -/
theorem Rooted.removeTree (h : fs.Rooted) (cwd : Position) (p : Path) (now : Int) :
    (fs.removeTree cwd p now).2.Rooted := by
  unfold FileSystem.removeTree
  split
  · rename_i position _ _
    have hcleared : (if position.removed = 0 then fs.clear position.place now else fs).Rooted := by
      split
      · exact h.clear position.place now
      · exact h
    exact rooted_changed hcleared fun hremove => hcleared.removeDirectory hremove
  · exact h
  · split
    · exact h
    · exact h
  · exact h
  · exact h

/-- **CHANGES LEAVE NO LOOSE ENDS.** -/
theorem RootedAt.apply (h : RootedAt fs cwd) (now : Int) (c : Change) :
    (fs.apply cwd now c).2.Rooted := by
  cases c with
  | write p content time =>
    exact rooted_andThen (h.makeDirectories p.parent now) fun h hnext => h.write hnext
  | directory p time =>
    exact rooted_andThen (h.makeDirectories p now) fun h hnext => h.touch hnext
  | link p target =>
    exact rooted_andThen (h.makeDirectories p.parent now) fun h hnext => h.link hnext
  | remove p => exact rooted_changed h.rooted fun hremove => h.rooted.remove hremove
  | removeTree p => exact h.rooted.removeTree cwd p now
  | touch p time => exact rooted_changed h.rooted fun htouch => h.touch htouch

/-- A position that is settled has a place in the tree. -/
theorem isDirectoryAt_settleWithin (fs : FileSystem) {above : Nat} {position : Position}
    (h : position.place.length ≤ above) :
    fs.isDirectoryAt (fs.settleWithin above position).place = true := by
  induction above generalizing position with
  | zero =>
    have hroot : position.place = [] := List.eq_nil_of_length_eq_zero (by omega)
    rw [settleWithin, hroot]
    rfl
  | succ above ih =>
    rw [settleWithin]
    split
    · assumption
    · apply ih
      show position.place.dropLast.length ≤ above
      rw [List.length_dropLast]
      omega

end FileSystem

/-- **NOR DO CHANGES LOSE THE WORKING DIRECTORY.** -/
theorem World.rootedAt_change {w : World} (h : w.files.RootedAt w.cwd)
    (c : FileSystem.Change) : (w.change c).2.files.RootedAt (w.change c).2.cwd :=
  ⟨h.apply w.now c, FileSystem.isDirectoryAt_settleWithin _ (Nat.le_refl _)⟩

end Cascade
