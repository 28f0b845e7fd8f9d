/-
  Cascade.Proofs.MadeDirectories
  ────────────────────────────────
  **DIRECTORIES MADE ON THE WAY DOWN.**

  Making the directories above a document adds to a tree and takes nothing
  away (`Grown`), so what was found along a path is still found.  When what
  is missing of the path is names only, what is made is a chain of new
  directories down to the one the path leads to (`MadeDown`).  In a tree
  without loose ends, in which everything is in a directory (`Rooted`), the
  last of them is empty.  With `..` among the missing parts it is otherwise:
  making `a` for `a/..` opens a way that was closed.

      Walks.exists_onward          — past a directory a walk depends on what follows only
      makeDirectoriesWithin_eq_ok  — how directories are made
      Walks.grown                  — what is found stays found
      madeAlong_of_makeDirectories — what is made along names
-/
import Cascade.Proofs.RootedTrees

namespace Cascade

open Cascade.Text
open Cascade.Files

namespace FileSystem

variable {fs fs' made : FileSystem} {follows : Bool} {links : Nat} {place found l k : Location}
  {parts : List Text} {cwd : Position} {p : Path} {now : Int}

/-! ## §1. Going on from a directory. -/

/-- **PAST A DIRECTORY A WALK DEPENDS ON WHAT FOLLOWS ONLY**, and on the links that may still be
followed. -/
theorem Walks.exists_onward (h : Walks fs true links place parts found)
    (hdir : fs.isDirectoryAt found = true) :
    ∃ fewer, ∀ follows more, more ≠ [] →
      fs.walkFrom follows links place (parts ++ more) = fs.walkFrom follows fewer found more := by
  induction h with
  | @done links place => exact ⟨links, fun _ _ _ => rfl⟩
  | stay directory stays _ ih =>
    obtain ⟨fewer, honward⟩ := ih hdir
    refine ⟨fewer, fun follows more hmore => ?_⟩
    rw [List.cons_append, walkFrom_stay directory stays, honward follows more hmore]
  | up directory _ ih =>
    obtain ⟨fewer, honward⟩ := ih hdir
    refine ⟨fewer, fun follows more hmore => ?_⟩
    rw [List.cons_append, walkFrom_up directory, honward follows more hmore]
  | missing looks there =>
    unfold isDirectoryAt at hdir
    rw [there] at hdir
    cases hdir
  | keep looks there kept => cases kept
  | @follow _ _ _ _ _ rest looks there followed notEmpty _ ih =>
    obtain ⟨fewer, honward⟩ := ih hdir
    refine ⟨fewer, fun follows more hmore => ?_⟩
    have hlast : ¬ (rest ++ more = [] ∧ ¬ follows = true) :=
      fun h => hmore (List.append_eq_nil_iff.1 h.1).2
    rw [List.cons_append, walkFrom_link looks there, if_neg hlast, if_neg notEmpty,
      ← List.append_assoc]
    exact honward follows more hmore
  | enter looks there noLink _ ih =>
    obtain ⟨fewer, honward⟩ := ih hdir
    refine ⟨fewer, fun follows more hmore => ?_⟩
    rw [List.cons_append, walkFrom_enter looks there noLink, honward follows more hmore]

/-- What is found along a path to a directory when its last link is kept: something. -/
theorem exists_kept {position : Position} {time : Int}
    (h : fs.walk cwd true p = .ok (position, some (.directory time))) :
    ∃ position' node, fs.walk cwd false p = .ok (position', some node) := by
  unfold walk at h ⊢
  cases hbytes : systemBytes p.text with
  | error problem => rw [hbytes] at h; cases h
  | ok bytes =>
    rw [hbytes] at h
    simp only at h ⊢
    split at h
    · cases h
    · next hshort =>
      rw [if_neg hshort]
      cases hstart : startOf cwd p with
      | error problem => rw [hstart] at h; cases h
      | ok r =>
        rw [hstart] at h
        obtain ⟨⟨place, removed⟩, parts⟩ := r
        cases removed with
        | succ removed => exact ⟨_, _, rfl⟩
        | zero =>
          simp only at h ⊢
          generalize parts.map Utf8.settledName = names at h ⊢
          cases hw : fs.walkFrom true linkLimit place names with
          | error problem => rw [hw] at h; cases h
          | ok found =>
            obtain ⟨l, node?⟩ := found
            rw [hw] at h
            obtain ⟨hwalks, hn⟩ := walks_of_walkFrom hw
            have hnode : node? = some (.directory time) := (Prod.mk.inj (Except.ok.inj h)).2
            have hdir : fs.isDirectoryAt l = true := by
              unfold isDirectoryAt
              rw [← hn, hnode]
            -- with a dot after it, the walk goes through the end without looking at links
            obtain ⟨fewer, honward⟩ := hwalks.exists_onward hdir
            have hdot := honward false ["."] (List.cons_ne_nil _ _)
            rw [walkFrom_stay hdir (by decide), walkFrom_nil] at hdot
            obtain ⟨l', node, hkept, hn'⟩ :=
              (walks_of_walkFrom hdot).1.above (List.cons_ne_nil _ _)
            rw [walkFrom_of_walks hkept, hn']
            exact ⟨_, _, rfl⟩

/-- A directory that a path leads to is not made again. -/
theorem makeDirectories_of_isDirectory (h : fs.isDirectory cwd p = .ok true) :
    fs.makeDirectories cwd p now = (.ok (), fs) := by
  obtain ⟨position, time, hw⟩ := isDirectory_eq_true_iff.1 h
  obtain ⟨position', node, hkept⟩ := exists_kept hw
  exact makeDirectories_of_there hkept h

/-! ## §2. Trees that grow. -/

/-- Parts are looked up where they were. -/
theorem Grown.looksUp {part : Text} (h : Grown fs fs') (looks : fs.LooksUp place part) :
    fs'.LooksUp place part :=
  ⟨h.isDirectoryAt looks.directory, looks.noStay, looks.notUp, looks.short⟩

/-- Links stay. -/
theorem Grown.link {target : Text} (h : Grown fs fs') (there : fs.node? l = some (.link target)) :
    fs'.node? l = some (.link target) := by
  have hkind := h.kind? (l := l) (by rw [there]; exact Option.some_ne_none _)
  exact kind?_eq_link_iff.1 (hkind.trans (kind?_eq_link_iff.2 there))

/-- What is entered is entered still. -/
theorem Grown.enters {node : Node} (h : Grown fs fs') (there : fs.node? l = some node)
    (noLink : ∀ target, node ≠ .link target) :
    ∃ node', fs'.node? l = some node' ∧ ∀ target, node' ≠ .link target := by
  have hkind := h.kind? (l := l) (by rw [there]; exact Option.some_ne_none _)
  rw [FileSystem.kind?, FileSystem.kind?, there] at hkind
  obtain ⟨node', there', hk⟩ := Option.map_eq_some_iff.1 hkind
  refine ⟨node', there', ?_⟩
  rintro target rfl
  cases node with
  | link target' => exact noLink target' rfl
  | file content time => cases hk
  | directory time => cases hk

/-- **A WALK TO A PLACE ARRIVES THERE IN A GROWN TREE**, be it that something was there, or that a
directory came there. -/
theorem Walks.grown (h : Walks fs follows links place parts found) (hg : Grown fs fs')
    (hend : fs.node? found ≠ none ∨ fs'.isDirectoryAt found = true) :
    Walks fs' follows links place parts found := by
  induction h with
  | done => exact .done
  | stay directory stays _ ih => exact .stay (hg.isDirectoryAt directory) stays (ih hend)
  | up directory _ ih => exact .up (hg.isDirectoryAt directory) (ih hend)
  | missing looks there =>
    have hdir := hend.resolve_left fun hn => hn there
    obtain ⟨node, hn⟩ := exists_node?_of_isDirectoryAt hdir
    refine .enter (hg.looksUp looks) hn ?_ .done
    rintro target rfl
    unfold FileSystem.isDirectoryAt at hdir
    rw [hn] at hdir
    cases hdir
  | keep looks there kept => exact .keep (hg.looksUp looks) (hg.link there) kept
  | follow looks there followed notEmpty _ ih =>
    exact .follow (hg.looksUp looks) (hg.link there) followed notEmpty (ih hend)
  | enter looks there noLink _ ih =>
    obtain ⟨node', there', noLink'⟩ := hg.enters there noLink
    exact .enter (hg.looksUp looks) there' noLink' (ih hend)

/-- A walk that finds nothing at its end follows no link there. -/
theorem Walks.followed (h : Walks fs false links place parts found)
    (missing : fs.node? found = none) : Walks fs true links place parts found := by
  induction h with
  | done => exact .done
  | stay directory stays _ ih => exact .stay directory stays (ih missing)
  | up directory _ ih => exact .up directory (ih missing)
  | missing looks there => exact .missing looks there
  | keep looks there kept =>
    rw [there] at missing
    cases missing
  | follow looks there followed notEmpty _ ih =>
    exact .follow looks there (.inr rfl) notEmpty (ih missing)
  | enter looks there noLink _ ih => exact .enter looks there noLink (ih missing)

/-- What is not there is not the root. -/
theorem ne_root_of_missing (h : fs.node? l = none) : l ≠ [] := by
  rintro rfl
  cases h

/-- A directory that is made where nothing is takes nothing away. -/
theorem grown_create (missing : fs.node? l = none) (now : Int) :
    Grown fs (fs.create l (.directory now) now) := by
  intro l' hl'
  rw [sight_create]
  split
  · next h => rw [h]; rfl
  · split
    · next heq =>
      rw [← heq, Ne, sight_eq_none_iff] at hl'
      exact absurd missing hl'
    · rfl

/-- It is a directory. -/
theorem isDirectoryAt_create (missing : fs.node? l = none) (now : Int) :
    (fs.create l (.directory now) now).isDirectoryAt l = true := by
  rw [isDirectoryAt_iff, kind?_eq_sight, sight_create, if_neg (ne_root_of_missing missing),
    if_pos rfl]
  rfl

/-- And it is all that is new. -/
theorem there_of_create {l' : Location} (h : (fs.create l (.directory now) now).node? l' ≠ none) :
    fs.node? l' ≠ none ∨ l' = l := by
  rw [Ne, ← sight_eq_none_iff, sight_create] at h
  split at h
  · next hroot =>
    rw [hroot]
    exact .inl (Option.some_ne_none _)
  · split at h
    · next heq => exact .inr heq.symm
    · exact .inl (mt sight_eq_none_iff.2 h)

/-- A tree that has directories that another one has not, and nothing else. -/
structure Extended (fs made : FileSystem) : Prop where
  grown : Grown fs made
  added : ∀ l, made.node? l ≠ none → fs.node? l ≠ none ∨ made.isDirectoryAt l = true

/-- A tree has nothing that it has not. -/
theorem Extended.refl (fs : FileSystem) : Extended fs fs := ⟨.refl fs, fun _ hl => .inl hl⟩

/-- One more directory. -/
theorem Extended.create (h : Extended fs made) (missing : made.node? l = none) (now : Int) :
    Extended fs (made.create l (.directory now) now) := by
  have hgrown := grown_create missing now
  refine ⟨h.grown.trans hgrown, fun l' hl' => ?_⟩
  rcases there_of_create hl' with hold | rfl
  · exact (h.added l' hold).imp_right hgrown.isDirectoryAt
  · exact .inr (isDirectoryAt_create missing now)

/-- Trees that are like an extended one are extended. -/
theorem Extended.alike (h : Extended fs fs') (halike : Alike fs' made) : Extended fs made := by
  refine ⟨h.grown.trans halike.grown, fun l hl => ?_⟩
  rw [isDirectoryAt_of_sight (halike l)]
  rw [Ne, ← sight_eq_none_iff, halike l, sight_eq_none_iff] at hl
  exact h.added l hl

/-! ## §3. Directories made along names. -/

/-- One directory is made at a path, or one that is there will do. -/
inductive MadeOne (fs : FileSystem) (cwd : Position) (p : Path) (now : Int)
    (made : FileSystem) : Prop
  | new (make : fs.makeDirectory cwd p now = .ok made)
  | there {problem : Problem} (make : fs.makeDirectory cwd p now = .error problem)
      (will : fs.orExisting cwd p problem = (.ok (), made))

/-- **HOW DIRECTORIES ARE MADE**: the last one at once, or once those above it are made. -/
theorem makeDirectoriesWithin_eq_ok {above : Nat}
    (h : makeDirectoriesWithin cwd now above p fs = (.ok (), made)) :
    MadeOne fs cwd p now made ∨
      ∃ fewer mid, above = fewer + 1 ∧ fs.makeDirectory cwd p now = .error .notFound ∧
        makeDirectoriesWithin cwd now fewer p.parent fs = (.ok (), mid) ∧
          MadeOne mid cwd p now made := by
  cases above with
  | zero =>
    rw [makeDirectoriesWithin] at h
    cases hmake : fs.makeDirectory cwd p now with
    | ok made' =>
      simp only [hmake] at h
      cases h
      exact .inl (.new hmake)
    | error problem =>
      simp only [hmake] at h
      exact .inl (.there hmake h)
  | succ above =>
    rw [makeDirectoriesWithin] at h
    cases hmake : fs.makeDirectory cwd p now with
    | ok made' =>
      simp only [hmake] at h
      cases h
      exact .inl (.new hmake)
    | error problem =>
      rw [hmake] at h
      by_cases hmissing : problem = .notFound
      · subst hmissing
        simp only at h
        cases habove : makeDirectoriesWithin cwd now above p.parent fs with
        | mk answer mid =>
          rw [habove] at h
          cases answer with
          | error fault => cases h
          | ok _ =>
            refine .inr ⟨above, mid, rfl, rfl, habove, ?_⟩
            cases hagain : mid.makeDirectory cwd p now with
            | ok made' =>
              simp only [hagain] at h
              cases h
              exact .new hagain
            | error problem =>
              simp only [hagain] at h
              exact .there hagain h
      · have will : fs.orExisting cwd p problem = (.ok (), made) := by
          cases problem <;> first | exact absurd rfl hmissing | exact h
        exact .inl (.there hmake will)

/-- What was made down to a directory: nothing, or a chain of directories with a new one at its
end. -/
structure MadeDown (fs made : FileSystem) (k : Location) : Prop extends Extended fs made where
  directory : made.isDirectoryAt k = true
  fresh : made = fs ∨ fs.node? k = none
  chain : ∀ l, made.node? l ≠ none → fs.node? l ≠ none ∨ l <+: k

/-- A directory that is there leads down to itself. -/
theorem MadeDown.refl (h : fs.isDirectoryAt k = true) : MadeDown fs fs k :=
  ⟨.refl fs, h, .inl rfl, fun _ hl => .inl hl⟩

/-- One more directory at the end of a chain. -/
theorem MadeDown.create (h : MadeDown fs made k) (hkl : k <+: l) (missing : made.node? l = none)
    (now : Int) : MadeDown fs (made.create l (.directory now) now) l := by
  refine ⟨h.toExtended.create missing now, isDirectoryAt_create missing now, .inr ?_,
    fun l' hl' => ?_⟩
  · by_contra hthere
    rw [← Ne, Ne, ← sight_eq_none_iff] at hthere
    rw [← sight_eq_none_iff, h.grown l hthere] at missing
    exact hthere missing
  · rcases there_of_create hl' with hold | rfl
    · exact (h.chain l' hold).imp_right fun hbelow => hbelow.trans hkl
    · exact .inr (List.prefix_refl l')

/-- The end of a walk by which nothing is found is the name that was looked for. -/
theorem eq_of_walkFrom_name {name : Text} (hdir : fs.isDirectoryAt k = true)
    (hname : Path.isName name = true)
    (h : fs.walkFrom false links k [name] = .ok (l, none)) : l = k ++ [name] := by
  rw [Path.isName, Bool.and_eq_true, Bool.not_eq_true', bne_iff_ne] at hname
  by_cases hlong : partLimit < Utf8.nameSize name
  · rw [walkFrom_eq, walkParts, if_neg (by simp [hdir]), if_neg (by simp [hname.1]),
      if_neg hname.2, if_pos hlong] at h
    cases h
  · have looks : fs.LooksUp k name := ⟨hdir, hname.1, hname.2, Nat.le_of_not_lt hlong⟩
    cases hn : fs.node? (k ++ [name]) with
    | none =>
      rw [walkFrom_missing looks hn, if_pos rfl] at h
      exact (Prod.mk.inj (Except.ok.inj h)).1.symm
    | some node =>
      cases node with
      | link target =>
        rw [walkFrom_link looks hn, if_pos ⟨rfl, Bool.false_ne_true⟩] at h
        cases h
      | file content time =>
        rw [walkFrom_enter looks hn (fun _ ht => by cases ht), walkFrom_nil, hn] at h
        cases h
      | directory time =>
        rw [walkFrom_enter looks hn (fun _ ht => by cases ht), walkFrom_nil, hn] at h
        cases h

/-- A name with nothing there is found as nothing, unless it is too long. -/
theorem walkFrom_name_of_missing {name : Text} (hdir : fs.isDirectoryAt k = true)
    (hname : Path.isName name = true) (missing : fs.node? (k ++ [name]) = none) :
    fs.walkFrom follows links k [name] =
      if partLimit < Utf8.nameSize name then .error .nameTooLong else .ok (k ++ [name], none) := by
  rw [Path.isName, Bool.and_eq_true, Bool.not_eq_true', bne_iff_ne] at hname
  split
  · next hlong =>
    rw [walkFrom_eq, walkParts, if_neg (by simp [hdir]), if_neg (by simp [hname.1]),
      if_neg hname.2, if_pos hlong]
  · next hlong =>
    have looks : fs.LooksUp k name := ⟨hdir, hname.1, hname.2, Nat.le_of_not_lt hlong⟩
    rw [walkFrom_missing looks missing, if_pos rfl]

/-- The place of a path with one more part. -/
theorem place_concat (anchor : Anchor) (parts : List Text) (part : Text) :
    (Path.mk anchor (parts ++ [part])).place =
      (Path.mk anchor parts).place ++ [Utf8.settledName part] := by
  unfold Path.place
  rw [List.map_append]
  rfl

/-- The parent of a path with one more part. -/
theorem parent_concat (anchor : Anchor) (parts : List Text) (part : Text) :
    (Path.mk anchor (parts ++ [part])).parent = ⟨anchor, parts⟩ := by
  unfold Path.parent
  rw [List.dropLast_concat]

/-- What was made down to the directory that a path leads to from then on. -/
structure MadeAlong (fs made : FileSystem) (cwd : Position) (p : Path) (k : Location) : Prop
    extends MadeDown fs made k where
  spelled : p.IsSpelled
  arrives : Walks made true linkLimit (p.start cwd) p.place k

/-- A directory is made where a walk arrives at nothing. -/
theorem walks_of_makeDirectory (placed : p.IsPlaced cwd)
    (h : fs.makeDirectory cwd p now = .ok made) :
    ∃ k, p.IsSpelled ∧ Walks fs false linkLimit (p.start cwd) p.place k ∧ fs.node? k = none ∧
      made = fs.create k (.directory now) now := by
  obtain ⟨position, hw, rfl⟩ := makeDirectory_eq_ok h
  obtain ⟨spelled, k, hwalks, rfl, hn⟩ := (walk_eq_ok_iff placed).1 hw
  exact ⟨k, spelled, hwalks, hn.symm, rfl⟩

/-- One directory that is made is found along its path. -/
theorem madeAlong_of_makeDirectory (placed : p.IsPlaced cwd)
    (h : fs.makeDirectory cwd p now = .ok made) : ∃ k, MadeAlong fs made cwd p k := by
  obtain ⟨k, spelled, hwalks, missing, rfl⟩ := walks_of_makeDirectory placed h
  have hroot : MadeDown fs fs [] := .refl rfl
  have hmade := hroot.create List.nil_prefix missing now
  exact ⟨k, hmade, spelled, (hwalks.followed missing).grown hmade.grown (.inr hmade.directory)⟩

/-- A directory that will do is there already. -/
theorem madeAlong_of_orExisting (placed : p.IsPlaced cwd) {problem : Problem}
    (h : fs.orExisting cwd p problem = (.ok (), made)) :
    problem ≠ .notFound ∧ made = fs ∧ ∃ k, MadeAlong fs made cwd p k := by
  have hsame : made = fs := by
    have hsnd := orExisting_snd fs cwd p problem
    rw [h] at hsnd
    exact hsnd
  unfold orExisting at h
  split at h
  · cases h
  · next hne =>
    split at h
    · next hdirectory =>
      obtain ⟨position, time, hw⟩ := isDirectory_eq_true_iff.1 hdirectory
      obtain ⟨spelled, k, hwalks, -, hn⟩ := (walk_eq_ok_iff placed).1 hw
      have hdir : fs.isDirectoryAt k = true := by
        unfold isDirectoryAt
        rw [← hn]
      refine ⟨hne, hsame, k, ?_⟩
      rw [hsame]
      exact ⟨.refl hdir, spelled, hwalks⟩
    · cases h
    · cases h

/-- One directory is made, or will do, and is found along its path. -/
theorem MadeOne.exists_madeAlong (placed : p.IsPlaced cwd) (h : MadeOne fs cwd p now made) :
    ∃ k, MadeAlong fs made cwd p k := by
  cases h with
  | new hmake => exact madeAlong_of_makeDirectory placed hmake
  | there hmake will => exact (madeAlong_of_orExisting placed will).2.2

/-- The path of a directory that is made, or that will do, leads to it. -/
theorem MadeAlong.exists_walk (placed : p.IsPlaced cwd) (h : MadeAlong fs made cwd p k) :
    ∃ time, made.walk cwd true p = .ok (⟨k, 0⟩, some (.directory time)) := by
  obtain ⟨time, hthere⟩ := Preferences.exists_directory (isDirectoryAt_iff.1 h.directory)
  exact ⟨time, (walk_eq_ok_iff placed).2 ⟨h.spelled, k, h.arrives, rfl, hthere.symm⟩⟩

/-- So it is a directory from then on. -/
theorem MadeAlong.isDirectory (placed : p.IsPlaced cwd) (h : MadeAlong fs made cwd p k) :
    made.isDirectory cwd p = .ok true := by
  obtain ⟨time, hwalk⟩ := h.exists_walk placed
  exact isDirectory_eq_true_iff.2 ⟨_, time, hwalk⟩

/-- **DIRECTORIES THAT ARE MADE ARE THERE**, whatever the parts of their path. -/
theorem isDirectory_of_makeDirectoriesWithin (placed : p.IsPlaced cwd) {above : Nat}
    (h : makeDirectoriesWithin cwd now above p fs = (.ok (), made)) :
    made.isDirectory cwd p = .ok true := by
  obtain ⟨before, hone⟩ : ∃ before, MadeOne before cwd p now made := by
    rcases makeDirectoriesWithin_eq_ok h with hone | ⟨-, mid, -, -, -, hone⟩
    · exact ⟨fs, hone⟩
    · exact ⟨mid, hone⟩
  obtain ⟨k, hk⟩ := hone.exists_madeAlong placed
  exact hk.isDirectory placed

/-- Making directories takes nothing away, and makes nothing else. -/
theorem extended_makeDirectories (fs : FileSystem) (cwd : Position) (p : Path) (now : Int) :
    Extended fs (fs.makeDirectories cwd p now).2 := by
  refine makeDirectoriesWithin_induction (P := Extended fs) ?_ _ p (.refl fs)
  intro fs' made p h hmake
  obtain ⟨position, hw, rfl⟩ := makeDirectory_eq_ok hmake
  obtain ⟨-, -, -, -, -, hn⟩ := exists_walks hw (.inr fun time ht => by cases ht)
  exact h.create hn.symm now

/-- In a new directory there is nothing. -/
theorem MadeDown.empty (h : MadeDown fs made k) (rooted : fs.Rooted) (fresh : fs.node? k = none)
    (name : Text) : made.node? (k ++ [name]) = none := by
  by_contra hthere
  rcases h.chain _ hthere with hold | hbelow
  · have hdir := rooted k name hold
    unfold isDirectoryAt at hdir
    rw [fresh] at hdir
    cases hdir
  · have hlen := hbelow.length_le
    rw [List.length_append, List.length_singleton] at hlen
    omega

/-- **ONE NAME FURTHER DOWN.**  Once the directories above are made, the directory of a name is
made in the last of them. -/
theorem MadeAlong.concat (rooted : fs.Rooted) {anchor : Anchor} {parts : List Text} {part : Text}
    (placed : anchor = .relative → cwd.removed = 0) {mid : FileSystem}
    (h : MadeAlong fs mid cwd ⟨anchor, parts⟩ k)
    (hname : Path.isName (Utf8.settledName part) = true)
    (hmissing : fs.makeDirectory cwd ⟨anchor, parts ++ [part]⟩ now = .error .notFound)
    (hmade : MadeOne mid cwd ⟨anchor, parts ++ [part]⟩ now made) :
    ∃ l, MadeAlong fs made cwd ⟨anchor, parts ++ [part]⟩ l := by
  have hplaced : (Path.mk anchor (parts ++ [part])).IsPlaced cwd := placed
  obtain ⟨fewer, honward⟩ := h.arrives.exists_onward h.directory
  cases hmade with
  | new hmake =>
    obtain ⟨l, spelled, hwalks, missing, rfl⟩ := walks_of_makeDirectory hplaced hmake
    have hlast := walkFrom_of_walks hwalks
    rw [place_concat] at hlast
    have hstep : mid.walkFrom false fewer k [Utf8.settledName part] = .ok (l, none) := by
      rw [← honward false _ (List.cons_ne_nil _ _), ← missing]
      exact hlast
    have hl := eq_of_walkFrom_name h.directory hname hstep
    have hdown := h.toMadeDown.create (hl ▸ List.prefix_append k _) missing now
    have hgrown := grown_create missing now
    exact ⟨l, hdown, spelled, (hwalks.followed missing).grown hgrown (.inr hdown.directory)⟩
  | there hmake will =>
    obtain ⟨hne, hsame, l, hl⟩ := madeAlong_of_orExisting hplaced will
    rcases h.fresh with rfl | fresh
    · -- nothing was made above, so it fails as it did
      rw [hmissing] at hmake
      cases hmake
      exact absurd rfl hne
    · rw [hsame] at hl
      have hlast := walkFrom_of_walks hl.arrives
      rw [place_concat] at hlast
      have hempty := h.toMadeDown.empty rooted fresh (Utf8.settledName part)
      -- the last name is not found there
      have hstep : mid.walkFrom true fewer k [Utf8.settledName part] = .ok (l, mid.node? l) := by
        rw [← honward true _ (List.cons_ne_nil _ _)]
        exact hlast
      rw [walkFrom_name_of_missing h.directory hname hempty] at hstep
      split at hstep
      · cases hstep
      · obtain ⟨rfl, hn⟩ := Prod.mk.inj (Except.ok.inj hstep)
        obtain ⟨node, hthere⟩ := exists_node?_of_isDirectoryAt hl.directory
        rw [hthere] at hn
        cases hn

/-- **WHAT IS MADE ALONG NAMES**: down from a directory that is there, a chain of directories, the
last of which is where the path leads from then on. -/
theorem madeAlong_of_makeDirectories (rooted : fs.Rooted) {anchor : Anchor} {front : List Text}
    (placed : anchor = .relative → cwd.removed = 0)
    (hfront : fs.isDirectory cwd ⟨anchor, front⟩ = .ok true) {above : Nat} {back : List Text}
    (names : ∀ part ∈ back, Path.isName (Utf8.settledName part) = true)
    (h : makeDirectoriesWithin cwd now above ⟨anchor, front ++ back⟩ fs = (.ok (), made)) :
    ∃ k, MadeAlong fs made cwd ⟨anchor, front ++ back⟩ k := by
  have hplaced : (Path.mk anchor (front ++ back)).IsPlaced cwd := placed
  induction above generalizing back made with
  | zero =>
    rcases makeDirectoriesWithin_eq_ok h with hone | ⟨fewer, mid, habove, -⟩
    · exact hone.exists_madeAlong hplaced
    · cases habove
  | succ above ih =>
    rcases makeDirectoriesWithin_eq_ok h with hone | ⟨fewer, mid, habove, hmissing, hmid, hone⟩
    · exact hone.exists_madeAlong hplaced
    · obtain rfl := Nat.succ.inj habove
      rcases List.eq_nil_or_concat' back with rfl | ⟨back, part, rfl⟩
      · -- the directory in front is there
        rw [List.append_nil] at hmissing
        obtain ⟨position, time, hw⟩ := isDirectory_eq_true_iff.1 hfront
        obtain ⟨position', node, hkept⟩ := exists_kept hw
        rw [makeDirectory, hkept] at hmissing
        cases hmissing
      · rw [← List.append_assoc] at hmissing hmid hone ⊢
        rw [parent_concat] at hmid
        have hnames : ∀ part ∈ back, Path.isName (Utf8.settledName part) = true :=
          fun part hpart => names part (List.mem_append_left _ hpart)
        obtain ⟨k, hk⟩ := ih hnames hmid placed
        have hname := names part (List.mem_append_right _ (List.mem_singleton_self part))
        exact hk.concat rooted placed hname hmissing hone

/-- A document of a name that is not too long is not found in the new directory made for it. -/
theorem MadeAlong.read (rooted : fs.Rooted) {anchor : Anchor} {parts : List Text} {part : Text}
    (placed : anchor = .relative → cwd.removed = 0)
    (h : MadeAlong fs made cwd ⟨anchor, parts⟩ k) (fresh : fs.node? k = none)
    (spelled : (Path.mk anchor (parts ++ [part])).IsSpelled)
    (hname : Path.isName (Utf8.settledName part) = true)
    (short : Utf8.nameSize (Utf8.settledName part) ≤ partLimit) :
    made.read cwd ⟨anchor, parts ++ [part]⟩ = .error .notFound := by
  have hplaced : (Path.mk anchor (parts ++ [part])).IsPlaced cwd := placed
  obtain ⟨fewer, honward⟩ := h.arrives.exists_onward h.directory
  have hempty := h.toMadeDown.empty rooted fresh (Utf8.settledName part)
  have hstep : made.walkFrom true linkLimit (Path.start cwd ⟨anchor, parts ++ [part]⟩)
      (Path.mk anchor (parts ++ [part])).place = .ok (k ++ [Utf8.settledName part], none) := by
    rw [place_concat]
    refine (honward true _ (List.cons_ne_nil _ _)).trans ?_
    rw [walkFrom_name_of_missing h.directory hname hempty, if_neg (Nat.not_lt.2 short)]
  have hwalk : made.walk cwd true ⟨anchor, parts ++ [part]⟩ =
      .ok (⟨k ++ [Utf8.settledName part], 0⟩, none) :=
    (walk_eq_ok_iff hplaced).2 ⟨spelled, _, (walks_of_walkFrom hstep).1, rfl, hempty.symm⟩
  unfold FileSystem.read stat
  rw [hwalk]
  rfl

end FileSystem

end Cascade
