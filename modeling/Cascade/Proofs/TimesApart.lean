/-
  Cascade.Proofs.TimesApart
  ────────────────────────────────
  **TREES THAT DIFFER IN TIMES ONLY.**

  A write that fails after its draft was made leaves a trace: the time of the
  directory.  Nothing that is asked of a store of preferences tells it.  Two
  trees are `Alike` when every place holds the same in both, times apart;
  then paths lead to the same places, or fail alike, and changes that are
  made to both keep them alike, those of a document among them.

      walk_sameShape            — trees of one shape have the same walks, also those that fail
      Alike.read                — what is read is the same
      Alike.list                — and what is in a directory
      Alike.makeDirectories     — so are the directories that are made
      World.Alike.writeDocument — a document is written to both, or to neither
-/
import Cascade.Proofs.StoredDocument

namespace Cascade

open Cascade.Text
open Cascade.Files

/-- A node without its time. -/
def Node.untimed : Node → Node
  | .file content _ => .file content 0
  | .directory _ => .directory 0
  | .link target => .link target

namespace FileSystem

variable {fs fs' : FileSystem} {follows : Bool} {place l : Location} {parts : List Text}
  {cwd : Position} {p : Path} {now : Int}

/-! ## §1. The walks of trees of one shape. -/

/-- Places of trees of one shape are directories in both or in neither. -/
theorem SameShape.isDirectoryAt (hs : SameShape fs fs') (l : Location) :
    fs'.isDirectoryAt l = fs.isDirectoryAt l := by
  rw [Bool.eq_iff_iff, isDirectoryAt_iff, isDirectoryAt_iff, hs l]

/-- A result of a walk, with what another tree has at the end. -/
def seenIn (fs' : FileSystem) (r : Location × Option Node) : Location × Option Node :=
  (r.1, fs'.node? r.1)

/-- Parts are followed alike in trees of one shape, when targets of links are. -/
theorem walkParts_sameShape (hs : SameShape fs fs')
    {follow follow' : Location → List Text → Except Problem (Location × Option Node)}
    (hfollow : ∀ place parts, follow' place parts = (follow place parts).map fs'.seenIn)
    (place : Location) (parts : List Text) :
    fs'.walkParts follows follow' place parts =
      (fs.walkParts follows follow place parts).map fs'.seenIn := by
  induction parts generalizing place with
  | nil => rfl
  | cons part rest ih =>
    have hsome : (fs'.node? place).isSome = (fs.node? place).isSome := by
      have h := congrArg Option.isSome (hs place)
      rwa [kind?, kind?, Option.isSome_map, Option.isSome_map] at h
    rw [walkParts, walkParts, hs.isDirectoryAt, hsome]
    -- the two go on alike up to what is there, which is of one kind in both
    split
    · rfl
    · split
      · exact ih place
      · split
        · exact ih place.dropLast
        · split
          · rfl
          · have hkind := hs (place ++ [part])
            cases hn : fs.node? (place ++ [part]) with
            | none =>
              rw [kind?_eq_none_iff.2 hn] at hkind
              have hn' := kind?_eq_none_iff.1 hkind
              simp only [hn', hn]
              split
              · show _ = Except.ok (place ++ [part], fs'.node? (place ++ [part]))
                rw [hn']
              · rfl
            | some node =>
              rw [kind?, kind?, hn] at hkind
              obtain ⟨node', hn', hk⟩ := Option.map_eq_some_iff.1 hkind
              cases node <;> cases node' <;> cases hk <;> simp only [hn', hn]
              · exact ih (place ++ [part])
              · exact ih (place ++ [part])
              · split
                · show _ = Except.ok (place ++ [part], fs'.node? (place ++ [part]))
                  rw [hn']
                · split
                  · rfl
                  · exact hfollow _ _

/-- So are whole walks from a place. -/
theorem walkFrom_sameShape (hs : SameShape fs fs') (links : Nat) (place : Location)
    (parts : List Text) :
    fs'.walkFrom follows links place parts =
      (fs.walkFrom follows links place parts).map fs'.seenIn := by
  induction links generalizing place parts with
  | zero =>
    rw [walkFrom, walkFrom]
    refine walkParts_sameShape hs ?_ place parts
    intro _ _
    rfl
  | succ links ih =>
    rw [walkFrom, walkFrom]
    exact walkParts_sameShape hs ih place parts

/-- **TREES OF ONE SHAPE HAVE THE SAME WALKS, ALSO THOSE THAT FAIL.** -/
theorem walk_sameShape (hs : SameShape fs fs') (cwd : Position) (follows : Bool) (p : Path) :
    (∃ problem, fs.walk cwd follows p = .error problem ∧
        fs'.walk cwd follows p = .error problem) ∨
      (∃ l, fs.walk cwd follows p = .ok (⟨l, 0⟩, fs.node? l) ∧
        fs'.walk cwd follows p = .ok (⟨l, 0⟩, fs'.node? l)) ∨
      ∃ position, fs.walk cwd follows p = .ok (position, some (.directory 0)) ∧
        fs'.walk cwd follows p = .ok (position, some (.directory 0)) := by
  unfold walk
  cases systemBytes p.text with
  | error problem => exact .inl ⟨problem, rfl, rfl⟩
  | ok bytes =>
    simp only
    split
    · exact .inl ⟨.nameTooLong, rfl, rfl⟩
    · cases startOf cwd p with
      | error problem => exact .inl ⟨problem, rfl, rfl⟩
      | ok r =>
        obtain ⟨⟨place, removed⟩, parts⟩ := r
        cases removed with
        | succ removed => exact .inr (.inr ⟨⟨place, removed + 1⟩, rfl, rfl⟩)
        | zero =>
          simp only [walkFrom_sameShape hs]
          cases hw : fs.walkFrom follows linkLimit place (parts.map Utf8.settledName) with
          | error problem => exact .inl ⟨problem, rfl, rfl⟩
          | ok found =>
            obtain ⟨l, node?⟩ := found
            obtain ⟨-, rfl⟩ := walks_of_walkFrom hw
            exact .inr (.inl ⟨l, rfl, rfl⟩)

/-! ## §2. Trees alike but for times. -/

/-- What a place holds, times apart. -/
def sight (fs : FileSystem) (l : Location) : Option Node := (fs.node? l).map Node.untimed

/-- Nothing is seen where nothing is. -/
theorem sight_eq_none_iff {fs : FileSystem} {l : Location} :
    fs.sight l = none ↔ fs.node? l = none := Option.map_eq_none_iff

/-- Two trees in which every place holds the same, times apart. -/
def Alike (fs fs' : FileSystem) : Prop := ∀ l, fs'.sight l = fs.sight l

/-- A tree is like itself. -/
theorem Alike.refl (fs : FileSystem) : Alike fs fs := fun _ => rfl

/-- Being alike goes both ways. -/
theorem Alike.symm (h : Alike fs fs') : Alike fs' fs := fun l => (h l).symm

/-- Trees that are like a third one are alike. -/
theorem Alike.trans {fs'' : FileSystem} (h : Alike fs fs') (h' : Alike fs' fs'') :
    Alike fs fs'' := fun l => (h' l).trans (h l)

/-- The kind of a node does not depend on its time. -/
theorem kind_untimed (node : Node) : node.untimed.kind = node.kind := by cases node <;> rfl

/-- What is seen of a place tells its kind. -/
theorem kind?_eq_sight (fs : FileSystem) (l : Location) :
    fs.kind? l = (fs.sight l).map Node.kind := by
  rw [kind?, sight, Option.map_map]
  congr 1
  funext node
  exact (kind_untimed node).symm

/-- A place that is seen alike is a directory in both trees or in neither. -/
theorem isDirectoryAt_of_sight (h : fs'.sight l = fs.sight l) :
    fs'.isDirectoryAt l = fs.isDirectoryAt l := by
  rw [Bool.eq_iff_iff, isDirectoryAt_iff, isDirectoryAt_iff, kind?_eq_sight, kind?_eq_sight, h]

/-- Trees that are alike have one shape. -/
theorem Alike.sameShape (h : Alike fs fs') : SameShape fs fs' := by
  intro l
  rw [kind?_eq_sight, kind?_eq_sight, h l]

/-- Paths lead to the same in trees that are alike, or fail alike. -/
theorem Alike.walk (h : Alike fs fs') (cwd : Position) (follows : Bool) (p : Path) :
    (∃ problem, fs.walk cwd follows p = .error problem ∧
        fs'.walk cwd follows p = .error problem) ∨
      ∃ position node? node?', fs.walk cwd follows p = .ok (position, node?) ∧
        fs'.walk cwd follows p = .ok (position, node?') ∧
        node?'.map Node.untimed = node?.map Node.untimed := by
  rcases walk_sameShape h.sameShape cwd follows p with hfail | ⟨l, hw, hw'⟩ | ⟨position, hw, hw'⟩
  · exact .inl hfail
  · exact .inr ⟨⟨l, 0⟩, _, _, hw, hw', h l⟩
  · exact .inr ⟨position, _, _, hw, hw', rfl⟩

/-- What is found at a path is the same, times apart. -/
theorem Alike.stat (h : Alike fs fs') (cwd : Position) (p : Path) :
    (∃ problem, fs.stat cwd p = .error problem ∧ fs'.stat cwd p = .error problem) ∨
      ∃ node node', fs.stat cwd p = .ok node ∧ fs'.stat cwd p = .ok node' ∧
        node'.untimed = node.untimed := by
  unfold FileSystem.stat
  rcases h.walk cwd true p with ⟨problem, hw, hw'⟩ | ⟨position, node?, node?', hw, hw', hn⟩
  · rw [hw, hw']
    exact .inl ⟨problem, rfl, rfl⟩
  · rw [hw, hw']
    cases node? with
    | none =>
      cases node?' with
      | none => exact .inl ⟨.notFound, rfl, rfl⟩
      | some node' => cases hn
    | some node =>
      cases node?' with
      | none => cases hn
      | some node' => exact .inr ⟨node, node', rfl, rfl, Option.some.inj hn⟩

/-- **WHAT IS READ DOES NOT DEPEND ON TIMES.** -/
theorem Alike.read (h : Alike fs fs') (cwd : Position) (p : Path) :
    fs'.read cwd p = fs.read cwd p := by
  unfold FileSystem.read
  rcases h.stat cwd p with ⟨problem, hs, hs'⟩ | ⟨node, node', hs, hs', hn⟩
  · rw [hs, hs']
  · rw [hs, hs']
    cases node <;> cases node' <;> cases hn <;> rfl

/-- Nor does what is a directory. -/
theorem Alike.isDirectory (h : Alike fs fs') (cwd : Position) (p : Path) :
    fs'.isDirectory cwd p = fs.isDirectory cwd p := by
  unfold FileSystem.isDirectory
  rcases h.stat cwd p with ⟨problem, hs, hs'⟩ | ⟨node, node', hs, hs', hn⟩
  · rw [hs, hs']
  · rw [hs, hs']
    cases node <;> cases node' <;> cases hn <;> rfl

/-- The names in a directory are those of its entries. -/
theorem mem_namesIn {name : Text} : name ∈ fs.namesIn l ↔ fs.node? (l ++ [name]) ≠ none := by
  have hne : l ++ [name] ≠ [] := by simp
  rw [namesIn, (sortBy_perm id _).mem_iff, List.mem_filterMap, node?, if_neg hne, Ne,
    Table.get?_eq_none_iff, not_not]
  constructor
  · rintro ⟨k, hk, hlast⟩
    split at hlast
    · next hl =>
      rw [← hl, List.dropLast_append_getLast? name hlast]
      exact hk
    · cases hlast
  · intro hk
    exact ⟨l ++ [name], hk, by rw [List.dropLast_concat, if_pos rfl, List.getLast?_concat]⟩

/-- Every name in a directory is there once. -/
theorem nodup_namesIn (fs : FileSystem) (l : Location) : (fs.namesIn l).Nodup := by
  refine (sortBy_perm id _).nodup_iff.2 (fs.nodes.nodup_keys.filterMap ?_)
  intro k k' name hk hk'
  rw [Option.mem_def] at hk hk'
  split at hk
  · next hl =>
    split at hk'
    · next hl' =>
      rw [← List.dropLast_append_getLast? name hk, ← List.dropLast_append_getLast? name hk', hl,
        hl']
    · cases hk'
  · cases hk

/-- Directories with the same entries list the same names. -/
theorem namesIn_eq (h : ∀ name, fs'.node? (l ++ [name]) = none ↔ fs.node? (l ++ [name]) = none) :
    fs'.namesIn l = fs.namesIn l := by
  have hperm : (fs'.namesIn l).Perm (fs.namesIn l) := by
    refine (List.perm_ext_iff_of_nodup (nodup_namesIn fs' l) (nodup_namesIn fs l)).2 fun name => ?_
    rw [mem_namesIn, mem_namesIn]
    exact not_congr (h name)
  -- both are in order, so they are in the same
  have hraw := (sortBy_perm id _).symm.trans (hperm.trans (sortBy_perm id _))
  refine sortBy_eq_of_perm hraw ?_
  rw [List.map_id]
  exact (sortBy_perm id _).nodup_iff.1 (nodup_namesIn fs' l)

/-- What is in a directory does not depend on times. -/
theorem Alike.list (h : Alike fs fs') (cwd : Position) (p : Path) :
    fs'.list cwd p = fs.list cwd p := by
  have hnames (l : Location) : fs'.namesIn l = fs.namesIn l := by
    refine namesIn_eq fun name => ?_
    rw [← sight_eq_none_iff, ← sight_eq_none_iff, h]
  unfold FileSystem.list
  rcases h.walk cwd true p with ⟨problem, hw, hw'⟩ | ⟨position, node?, node?', hw, hw', hn⟩
  · rw [hw, hw']
    rfl
  · rw [hw, hw']
    obtain ⟨place, removed⟩ := position
    cases node? with
    | none =>
      cases node?' with
      | none => cases removed <;> rfl
      | some node' => cases hn
    | some node =>
      cases node?' with
      | none => cases hn
      | some node' =>
        have hsame := Option.some.inj hn
        cases removed <;> cases node <;> cases node' <;> cases hsame <;> try rfl
        show Except.ok (fs'.namesIn place) = Except.ok (fs.namesIn place)
        rw [hnames]

/-! ## §3. Changes. -/

/-- What is seen after a node was put at a place. -/
theorem sight_put (fs : FileSystem) (l l' : Location) (node : Node) :
    (fs.put l node).sight l' =
      if l' = [] then some (.directory 0)
      else if l = l' then some node.untimed else fs.sight l' := by
  rw [sight, node?_put]
  split
  · rfl
  · split
    · rfl
    · rfl

/-- Trees stay alike when a node is put at a place of both. -/
theorem Alike.put (h : Alike fs fs') {node node' : Node} (hn : node'.untimed = node.untimed)
    (l : Location) : Alike (fs.put l node) (fs'.put l node') := by
  intro l'
  rw [sight_put, sight_put, hn, h l']

/-- A directory whose time is set is seen as before. -/
theorem alike_put (hl : fs.isDirectoryAt l = true) (now : Int) :
    Alike fs (fs.put l (.directory now)) := by
  intro l'
  rw [sight_put]
  split
  · next hroot => rw [hroot]; rfl
  · split
    · next heq =>
      subst heq
      unfold isDirectoryAt at hl
      rw [sight]
      split at hl
      · next hn => rw [hn]; rfl
      · cases hl
    · rfl

/-- Touching a place is not seen. -/
theorem alike_touchAt (fs : FileSystem) (l : Location) (now : Int) :
    Alike fs (fs.touchAt l now) := by
  unfold touchAt
  split
  · rename_i time hn
    apply alike_put
    unfold isDirectoryAt node?
    by_cases hroot : l = []
    · rw [if_pos hroot]
    · rw [if_neg hroot, hn]
  · exact .refl fs

/-- What is seen after an entry was made. -/
theorem sight_create (fs : FileSystem) (l l' : Location) (node : Node) (now : Int) :
    (fs.create l node now).sight l' =
      if l' = [] then some (.directory 0)
      else if l = l' then some node.untimed else fs.sight l' :=
  (alike_touchAt _ _ now l').trans (sight_put fs l l' node)

/-- Trees stay alike when an entry is made in both. -/
theorem Alike.create (h : Alike fs fs') (l : Location) (node : Node) (now : Int) :
    Alike (fs.create l node now) (fs'.create l node now) :=
  (alike_touchAt _ _ now).symm.trans ((h.put rfl l).trans (alike_touchAt _ _ now))

/-- Two outcomes of a change: it failed with the same fault, or left trees that are alike. -/
inductive AlikeOr {ε : Type} : Except ε FileSystem → Except ε FileSystem → Prop
  | failed (fault : ε) : AlikeOr (.error fault) (.error fault)
  | made {fs fs' : FileSystem} (alike : Alike fs fs') : AlikeOr (.ok fs) (.ok fs')

/-- Two outcomes of directories that are made: the same answer, and trees that are alike. -/
structure Changed.Alike (c c' : Changed) : Prop where
  answer : c'.1 = c.1
  files : FileSystem.Alike c.2 c'.2

/-- Making a directory keeps trees alike. -/
theorem Alike.makeDirectory (h : Alike fs fs') (cwd : Position) (p : Path) (now : Int) :
    AlikeOr (fs.makeDirectory cwd p now) (fs'.makeDirectory cwd p now) := by
  unfold FileSystem.makeDirectory
  rcases h.walk cwd false p with ⟨problem, hw, hw'⟩ | ⟨position, node?, node?', hw, hw', hn⟩
  · rw [hw, hw']
    exact .failed problem
  · rw [hw, hw']
    cases node? with
    | none =>
      cases node?' with
      | none => exact .made (h.create position.place (.directory now) now)
      | some node' => cases hn
    | some node =>
      cases node?' with
      | none => cases hn
      | some node' => exact .failed Problem.alreadyExists

/-- A directory that cannot be made will do in both trees, or in neither. -/
theorem Alike.orExisting (h : Alike fs fs') (cwd : Position) (p : Path) (problem : Problem) :
    (fs.orExisting cwd p problem).Alike (fs'.orExisting cwd p problem) := by
  unfold FileSystem.orExisting
  rw [h.isDirectory]
  split
  · exact ⟨rfl, h⟩
  · split
    · exact ⟨rfl, h⟩
    · exact ⟨rfl, h⟩
    · exact ⟨rfl, h⟩

/-- **MAKING DIRECTORIES KEEPS TREES ALIKE.** -/
theorem Alike.makeDirectoriesWithin (h : Alike fs fs') (cwd : Position) (now : Int)
    (above : Nat) (p : Path) :
    (FileSystem.makeDirectoriesWithin cwd now above p fs).Alike
      (FileSystem.makeDirectoriesWithin cwd now above p fs') := by
  induction above generalizing p with
  | zero =>
    rw [FileSystem.makeDirectoriesWithin, FileSystem.makeDirectoriesWithin]
    have hmake := h.makeDirectory cwd p now
    generalize fs.makeDirectory cwd p now = r, fs'.makeDirectory cwd p now = r' at hmake
    cases hmake with
    | made alike => exact ⟨rfl, alike⟩
    | failed problem => exact h.orExisting cwd p problem
  | succ above ih =>
    rw [FileSystem.makeDirectoriesWithin, FileSystem.makeDirectoriesWithin]
    have hmake := h.makeDirectory cwd p now
    generalize fs.makeDirectory cwd p now = r, fs'.makeDirectory cwd p now = r' at hmake
    cases hmake with
    | made alike => exact ⟨rfl, alike⟩
    | failed problem =>
      by_cases hmissing : problem = .notFound
      · subst hmissing
        -- what is above is made first, in both
        have habove := ih p.parent
        simp only
        generalize FileSystem.makeDirectoriesWithin cwd now above p.parent fs = c,
          FileSystem.makeDirectoriesWithin cwd now above p.parent fs' = c' at habove
        obtain ⟨answer, made⟩ := c
        obtain ⟨answer', made'⟩ := c'
        obtain ⟨rfl, halike⟩ := habove
        cases answer' with
        | error fault => exact ⟨rfl, halike⟩
        | ok _ =>
          have hagain := halike.makeDirectory cwd p now
          simp only at hagain ⊢
          generalize made.makeDirectory cwd p now = r, made'.makeDirectory cwd p now = r'
            at hagain
          cases hagain with
          | made alike => exact ⟨rfl, alike⟩
          | failed problem => exact halike.orExisting cwd p problem
      · have hexisting := h.orExisting cwd p problem
        cases problem <;> first | exact absurd rfl hmissing | exact hexisting

/-- Making a draft keeps trees alike. -/
theorem Alike.draft (h : Alike fs fs') (cwd : Position) (p : Path) (now : Int) :
    AlikeOr (fs.draft cwd p now) (fs'.draft cwd p now) := by
  unfold FileSystem.draft
  rcases h.walk cwd true p with ⟨problem, hw, hw'⟩ | ⟨position, node?, node?', hw, hw', hn⟩
  · rw [hw, hw']
    exact .failed _
  · rw [hw, hw']
    obtain ⟨place, removed⟩ := position
    cases node? with
    | none =>
      cases node?' with
      | none => cases removed <;> exact .failed _
      | some node' => cases hn
    | some node =>
      cases node?' with
      | none => cases hn
      | some node' =>
        have hsame := Option.some.inj hn
        cases node <;> cases node' <;> cases hsame
        · cases removed <;> exact .failed _
        · cases removed with
          | zero => exact .made (h.put rfl place)
          | succ removed => exact .failed _
        · cases removed <;> exact .failed _

/-- Replacing an entry keeps trees alike. -/
theorem Alike.replace (h : Alike fs fs') (cwd : Position) (p : Path) (content : Bytes)
    (now : Int) : AlikeOr (fs.replace cwd p content now) (fs'.replace cwd p content now) := by
  unfold FileSystem.replace
  rcases h.walk cwd false p with ⟨problem, hw, hw'⟩ | ⟨position, node?, node?', hw, hw', hn⟩
  · rw [hw, hw']
    exact .failed _
  · rw [hw, hw']
    have created := h.create position.place (.file content now) now
    cases node? with
    | none =>
      cases node?' with
      | none => exact .made created
      | some node' => cases hn
    | some node =>
      cases node?' with
      | none => cases hn
      | some node' =>
        have hsame := Option.some.inj hn
        cases node <;> cases node' <;> cases hsame
        · exact .made created
        · exact .failed _
        · exact .made created

end FileSystem

/-! ## §4. Documents. -/

/-- Two worlds that are the same but for the times in their trees. -/
structure World.Alike (w v : World) : Prop where
  files : FileSystem.Alike w.files v.files
  rest : v = { w with files := v.files }

namespace World

variable {w v : World}

/-- A world is like itself. -/
theorem Alike.refl (w : World) : Alike w w := ⟨.refl w.files, rfl⟩

/-- Worlds that are like a third one are alike. -/
theorem Alike.trans {u : World} (h : Alike w v) (h' : Alike v u) : Alike w u := by
  refine ⟨h.files.trans h'.files, ?_⟩
  rw [h'.rest, h.rest]

/-- A world with a tree that is like its own. -/
theorem alike_of_files {files : FileSystem} (h : FileSystem.Alike w.files files) :
    Alike w { w with files } := ⟨h, rfl⟩

end World

namespace Preferences

open FileSystem

variable {w v : World}

/-- Two outcomes of a change of the world: the same answer, and worlds that are alike. -/
structure WrittenAlike (r r' : Except Failure Unit × World) : Prop where
  answer : r'.1 = r.1
  world : World.Alike r.2 r'.2

/-- A change of the files that may fail keeps worlds alike. -/
theorem changed_alike {files files' : FileSystem}
    {r r' : Except Files.Fault FileSystem} (h : AlikeOr r r')
    (hfiles : FileSystem.Alike files files') :
    WrittenAlike (changed { w with files } r) (changed { w with files := files' } r') := by
  cases h with
  | failed fault => exact ⟨rfl, hfiles, rfl⟩
  | made alike => exact ⟨rfl, alike, rfl⟩

/-- **REPLACING A DOCUMENT DOES NOT DEPEND ON TIMES.** -/
theorem replaceDocument_alike (h : World.Alike w v) (p : Path) (gs : Groups) :
    WrittenAlike (replaceDocument w p gs) (replaceDocument v p gs) := by
  have hfiles := h.files
  rw [h.rest]
  generalize v.files = files' at hfiles
  unfold replaceDocument
  simp only
  cases absolute? w.cwd p.parent with
  | none => exact ⟨rfl, hfiles, rfl⟩
  | some directory =>
    have hdraft := hfiles.draft w.cwd directory w.now
    simp only
    generalize w.files.draft w.cwd directory w.now = r,
      files'.draft w.cwd directory w.now = r' at hdraft
    cases hdraft with
    | failed fault => exact ⟨rfl, hfiles, rfl⟩
    | made alike =>
      simp only [changed]
      cases encode p gs with
      | error failure => exact ⟨rfl, alike, rfl⟩
      | ok content => exact changed_alike (alike.replace w.cwd p content w.now) alike

/-- **NOR DOES WRITING ONE.** -/
theorem writeDocument_alike (h : World.Alike w v) (p : Path) (gs : Groups) :
    WrittenAlike (writeDocument w p gs) (writeDocument v p gs) := by
  have hmade := h.files.makeDirectoriesWithin w.cwd w.now p.parent.parts.length p.parent
  have hfiles := h.files
  rw [h.rest]
  generalize v.files = files' at hmade hfiles
  unfold writeDocument makeDirectories
  simp only
  generalize makeDirectoriesWithin w.cwd w.now p.parent.parts.length p.parent w.files = c,
    makeDirectoriesWithin w.cwd w.now p.parent.parts.length p.parent files' = c' at hmade
  obtain ⟨answer, made⟩ := c
  obtain ⟨answer', made'⟩ := c'
  obtain ⟨rfl, halike⟩ := hmade
  cases answer' with
  | error fault => exact ⟨rfl, halike, rfl⟩
  | ok _ => exact replaceDocument_alike (w := { w with files := made }) ⟨halike, rfl⟩ p gs

end Preferences

end Cascade
