/-
  Cascade.Proofs.Walks
  ────────────────────────────────
  **WALKS STEP BY STEP.**

  A walk that arrives somewhere took one of a few kinds of steps at each
  part.  `Walks` lists them, so that what holds of walks is shown step by
  step, links included:

      walkFrom_eq_ok_iff   — the walks that arrive are these
      Walks.sameShape      — trees of one shape have the same walks
      Walks.arrives_or_stops — a walk to a place arrives there or is stopped
                             once a file is put there
      Walks.above          — on the way to something there are things
-/
import Cascade.Files.Change
import Cascade.Proofs.Walking

namespace Cascade

open Cascade.Text
open Cascade.Files

/-- What a walk sees of a node. -/
inductive Node.Kind
  | file
  | directory
  | link (target : Text)
  deriving DecidableEq

/-- The kind of a node. -/
def Node.kind : Node → Node.Kind
  | .file _ _ => .file
  | .directory _ => .directory
  | .link target => .link target

namespace Path

/-- A path that can be handed to the system: it has bytes, without a NUL, and not too many. -/
def IsSpelled (p : Path) : Prop :=
  ∃ bytes, systemBytes p.text = .ok bytes ∧ bytes.length < FileSystem.pathLimit

/-- A path that starts at a place: at the root, or at a working directory that has one. -/
def IsPlaced (cwd : Position) (p : Path) : Prop := p.anchor = .relative → cwd.removed = 0

/-- The place a path starts at. -/
def start (cwd : Position) (p : Path) : Location :=
  if p.anchor = .relative then cwd.place else []

end Path

namespace FileSystem

variable {fs fs' : FileSystem} {follows : Bool} {links : Nat} {place found : Location}
  {parts : List Text}

/-! ## §1. The steps of a walk. -/

/-- Whether a part is looked up at a place: the place is a directory, and the part is a name
that is not too long. -/
structure LooksUp (fs : FileSystem) (place : Location) (part : Text) : Prop where
  directory : fs.isDirectoryAt place = true
  noStay : Path.isStay part = false
  notUp : part ≠ Path.up
  short : Utf8.nameSize part ≤ partLimit

/-- The walks that arrive, step by step. -/
inductive Walks (fs : FileSystem) (follows : Bool) :
    (links : Nat) → Location → List Text → Location → Prop
  | done {links : Nat} {place : Location} : Walks fs follows links place [] place
  | stay {links : Nat} {place found : Location} {part : Text} {rest : List Text}
      (directory : fs.isDirectoryAt place = true) (stays : Path.isStay part = true)
      (more : Walks fs follows links place rest found) :
      Walks fs follows links place (part :: rest) found
  | up {links : Nat} {place found : Location} {rest : List Text}
      (directory : fs.isDirectoryAt place = true)
      (more : Walks fs follows links place.dropLast rest found) :
      Walks fs follows links place (Path.up :: rest) found
  | missing {links : Nat} {place : Location} {part : Text} (looks : fs.LooksUp place part)
      (there : fs.node? (place ++ [part]) = none) :
      Walks fs follows links place [part] (place ++ [part])
  | keep {links : Nat} {place : Location} {part target : Text} (looks : fs.LooksUp place part)
      (there : fs.node? (place ++ [part]) = some (.link target)) (kept : follows = false) :
      Walks fs follows links place [part] (place ++ [part])
  | follow {links : Nat} {place found : Location} {part target : Text} {rest : List Text}
      (looks : fs.LooksUp place part)
      (there : fs.node? (place ++ [part]) = some (.link target))
      (followed : rest ≠ [] ∨ follows = true) (notEmpty : target ≠ [])
      (more : Walks fs follows links (if Path.anchorOf target = .relative then place else [])
        (splitAt '/' target ++ rest) found) :
      Walks fs follows (links + 1) place (part :: rest) found
  | enter {links : Nat} {place found : Location} {part : Text} {rest : List Text} {node : Node}
      (looks : fs.LooksUp place part) (there : fs.node? (place ++ [part]) = some node)
      (noLink : ∀ target, node ≠ .link target)
      (more : Walks fs follows links (place ++ [part]) rest found) :
      Walks fs follows links place (part :: rest) found

/-- A walk of parts that arrives took these steps, when the walks of links did. -/
theorem walks_of_walkParts
    {follow : Location → List Text → Except Problem (Location × Option Node)}
    (hfollow : ∀ {place parts found node?}, follow place parts = .ok (found, node?) →
      ∃ fewer, links = fewer + 1 ∧ Walks fs follows fewer place parts found ∧
        node? = fs.node? found) {node? : Option Node}
    (h : fs.walkParts follows follow place parts = .ok (found, node?)) :
    Walks fs follows links place parts found ∧ node? = fs.node? found := by
  induction parts generalizing place with
  | nil =>
    cases h
    exact ⟨.done, rfl⟩
  | cons part rest ih =>
    rw [walkParts] at h
    split at h
    · cases h
    · rename_i hdir
      have hdir : fs.isDirectoryAt place = true := by simpa using hdir
      split at h
      · rename_i hstay
        obtain ⟨hmore, hnode⟩ := ih h
        exact ⟨.stay hdir hstay hmore, hnode⟩
      · rename_i hstay
        split at h
        · rename_i hup
          obtain ⟨hmore, hnode⟩ := ih h
          subst hup
          exact ⟨.up hdir hmore, hnode⟩
        · rename_i hup
          split at h
          · cases h
          · rename_i hsize
            have hlooks : fs.LooksUp place part :=
              ⟨hdir, by simpa using hstay, hup, Nat.le_of_not_lt hsize⟩
            simp only at h
            split at h
            · rename_i hn
              split at h
              · rename_i hrest
                cases h
                subst hrest
                exact ⟨.missing hlooks hn, hn.symm⟩
              · cases h
            · rename_i target hn
              split at h
              · rename_i hkeep
                cases h
                obtain ⟨hrest, hf⟩ := hkeep
                subst hrest
                exact ⟨.keep hlooks hn (by simpa using hf), hn.symm⟩
              · rename_i hkeep
                split at h
                · cases h
                · rename_i htarget
                  obtain ⟨fewer, rfl, hmore, hnode⟩ := hfollow h
                  have hfollowed : rest ≠ [] ∨ follows = true := by
                    rcases Decidable.em (rest = []) with hr | hr
                    · exact .inr (by simpa [hr] using hkeep)
                    · exact .inl hr
                  exact ⟨.follow hlooks hn hfollowed htarget hmore, hnode⟩
            · rename_i node hlink hn
              obtain ⟨hmore, hnode⟩ := ih h
              exact ⟨.enter hlooks hn (fun target ht => hlink target (ht ▸ rfl)) hmore, hnode⟩

/-- A walk that arrives took these steps. -/
theorem walks_of_walkFrom {node? : Option Node}
    (h : fs.walkFrom follows links place parts = .ok (found, node?)) :
    Walks fs follows links place parts found ∧ node? = fs.node? found := by
  induction links generalizing place parts found node? with
  | zero => exact walks_of_walkParts (fun h => by cases h) h
  | succ links ih => exact walks_of_walkParts (fun h => ⟨links, rfl, ih h⟩) h

/-- What a walk does with the target of a link, as long as links may be followed. -/
def onward (fs : FileSystem) (follows : Bool) :
    (links : Nat) → Location → List Text → Except Problem (Location × Option Node)
  | 0 => fun _ _ => .error .tooManyLinks
  | links + 1 => fs.walkFrom follows links

/-- A walk follows its parts, and goes onward at links. -/
theorem walkFrom_eq (fs : FileSystem) (follows : Bool) (links : Nat) :
    fs.walkFrom follows links = fs.walkParts follows (fs.onward follows links) := by
  cases links <;> rfl

/-- At its end a walk has arrived. -/
theorem walkFrom_nil (fs : FileSystem) (follows : Bool) (links : Nat) (place : Location) :
    fs.walkFrom follows links place [] = .ok (place, fs.node? place) := by
  rw [walkFrom_eq, walkParts]

section

variable {part : Text} {rest : List Text}

/-- Nothing is looked for in what is no directory. -/
theorem walkFrom_stop (hdir : fs.isDirectoryAt place = false) :
    ∃ problem, fs.walkFrom follows links place (part :: rest) = .error problem := by
  rw [walkFrom_eq, walkParts, if_pos (by simp [hdir])]
  exact ⟨_, rfl⟩

/-- A part that stays leads nowhere. -/
theorem walkFrom_stay (hdir : fs.isDirectoryAt place = true) (hstay : Path.isStay part = true) :
    fs.walkFrom follows links place (part :: rest) = fs.walkFrom follows links place rest := by
  rw [walkFrom_eq, walkParts, if_neg (by simp [hdir]), if_pos hstay]

/-- Two dots lead one level up. -/
theorem walkFrom_up (hdir : fs.isDirectoryAt place = true) :
    fs.walkFrom follows links place (Path.up :: rest) =
      fs.walkFrom follows links place.dropLast rest := by
  have hstay : ¬ Path.isStay Path.up = true := by decide
  rw [walkFrom_eq, walkParts, if_neg (by simp [hdir]), if_neg hstay, if_pos rfl]

/-- A name with nothing there may only be the last one. -/
theorem walkFrom_missing (looks : fs.LooksUp place part)
    (there : fs.node? (place ++ [part]) = none) :
    fs.walkFrom follows links place (part :: rest) =
      if rest = [] then .ok (place ++ [part], none) else .error .notFound := by
  rw [walkFrom_eq, walkParts, if_neg (by simp [looks.directory]), if_neg (by simp [looks.noStay]),
    if_neg looks.notUp, if_neg (Nat.not_lt.2 looks.short)]
  simp only [there]

/-- A link is kept at the end if links are not followed, and its target is taken otherwise. -/
theorem walkFrom_link {target : Text} (looks : fs.LooksUp place part)
    (there : fs.node? (place ++ [part]) = some (.link target)) :
    fs.walkFrom follows links place (part :: rest) =
      if rest = [] ∧ ¬ follows then .ok (place ++ [part], some (.link target))
      else if target = [] then .error .notFound
      else fs.onward follows links (if Path.anchorOf target = .relative then place else [])
        (splitAt '/' target ++ rest) := by
  rw [walkFrom_eq, walkParts, if_neg (by simp [looks.directory]), if_neg (by simp [looks.noStay]),
    if_neg looks.notUp, if_neg (Nat.not_lt.2 looks.short)]
  simp only [there]

/-- Anything else is entered. -/
theorem walkFrom_enter {node : Node} (looks : fs.LooksUp place part)
    (there : fs.node? (place ++ [part]) = some node) (noLink : ∀ target, node ≠ .link target) :
    fs.walkFrom follows links place (part :: rest) =
      fs.walkFrom follows links (place ++ [part]) rest := by
  rw [walkFrom_eq, walkParts, if_neg (by simp [looks.directory]), if_neg (by simp [looks.noStay]),
    if_neg looks.notUp, if_neg (Nat.not_lt.2 looks.short)]
  cases node with
  | link target => exact absurd rfl (noLink target)
  | file content time => simp only [there]
  | directory time => simp only [there]

end

/-- These steps arrive. -/
theorem walkFrom_of_walks (h : Walks fs follows links place parts found) :
    fs.walkFrom follows links place parts = .ok (found, fs.node? found) := by
  induction h with
  | done => exact walkFrom_nil ..
  | stay directory stays _ ih => rw [walkFrom_stay directory stays, ih]
  | up directory _ ih => rw [walkFrom_up directory, ih]
  | missing looks there => rw [walkFrom_missing looks there, if_pos rfl, there]
  | keep looks there kept =>
    rw [walkFrom_link looks there, if_pos ⟨rfl, by simp [kept]⟩, there]
  | follow looks there followed notEmpty _ ih =>
    have hfollow : ¬ (_ = [] ∧ ¬ follows = true) := fun h =>
      followed.elim (fun hr => hr h.1) fun hf => h.2 hf
    rw [walkFrom_link looks there, if_neg hfollow, if_neg notEmpty]
    exact ih
  | enter looks there noLink _ ih => rw [walkFrom_enter looks there noLink, ih]

/-- **THE WALKS THAT ARRIVE**, with the node that is there. -/
theorem walkFrom_eq_ok_iff {node? : Option Node} :
    fs.walkFrom follows links place parts = .ok (found, node?) ↔
      Walks fs follows links place parts found ∧ node? = fs.node? found := by
  constructor
  · exact walks_of_walkFrom
  · rintro ⟨h, rfl⟩
    exact walkFrom_of_walks h

/-! ## §2. The shape of a tree. -/

/-- The kind of what a place holds. -/
def kind? (fs : FileSystem) (l : Location) : Option Node.Kind := (fs.node? l).map Node.kind

/-- Two trees have one shape when every place holds the same kind of thing in both. -/
def SameShape (fs fs' : FileSystem) : Prop := ∀ l, fs'.kind? l = fs.kind? l

/-- A directory is seen as one. -/
theorem isDirectoryAt_iff {l : Location} :
    fs.isDirectoryAt l = true ↔ fs.kind? l = some .directory := by
  unfold isDirectoryAt kind?
  cases fs.node? l with
  | none => simp
  | some node => cases node <;> simp [Node.kind]

/-- A link is seen with its target. -/
theorem kind?_eq_link_iff {l : Location} {target : Text} :
    fs.kind? l = some (.link target) ↔ fs.node? l = some (.link target) := by
  unfold kind?
  cases fs.node? l with
  | none => simp
  | some node => cases node <;> simp [Node.kind]

/-- Nothing is seen as nothing. -/
theorem kind?_eq_none_iff {l : Location} : fs.kind? l = none ↔ fs.node? l = none :=
  Option.map_eq_none_iff

/-- A place that holds the same kind of thing is looked up alike. -/
theorem LooksUp.of_kind? {part : Text} (h : fs.LooksUp place part)
    (hk : fs'.kind? place = fs.kind? place) : fs'.LooksUp place part :=
  ⟨isDirectoryAt_iff.2 (hk.trans (isDirectoryAt_iff.1 h.directory)), h.noStay, h.notUp, h.short⟩

/-- **TREES OF ONE SHAPE HAVE THE SAME WALKS.** -/
theorem Walks.sameShape (h : Walks fs follows links place parts found)
    (hs : SameShape fs fs') : Walks fs' follows links place parts found := by
  have hdir {l : Location} (h : fs.isDirectoryAt l = true) : fs'.isDirectoryAt l = true :=
    isDirectoryAt_iff.2 ((hs l).trans (isDirectoryAt_iff.1 h))
  induction h with
  | done => exact .done
  | stay directory stays _ ih => exact .stay (hdir directory) stays ih
  | up directory _ ih => exact .up (hdir directory) ih
  | missing looks there =>
    refine .missing (looks.of_kind? (hs _)) ?_
    rwa [← kind?_eq_none_iff, hs, kind?_eq_none_iff]
  | @keep links place part target looks there kept =>
    have there' : fs'.node? (place ++ [part]) = some (.link target) := by
      rwa [← kind?_eq_link_iff, hs, kind?_eq_link_iff]
    exact .keep (looks.of_kind? (hs _)) there' kept
  | follow looks there followed notEmpty _ ih =>
    refine .follow (looks.of_kind? (hs _)) ?_ followed notEmpty ih
    rwa [← kind?_eq_link_iff, hs, kind?_eq_link_iff]
  | @enter links place found part rest node looks there noLink _ ih =>
    have hkind := hs (place ++ [part])
    cases hn : fs'.node? (place ++ [part]) with
    | none =>
      rw [kind?_eq_none_iff.2 hn] at hkind
      rw [kind?_eq_none_iff.1 hkind.symm] at there
      cases there
    | some node' =>
      refine .enter (looks.of_kind? (hs _)) hn (fun target ht => ?_) ih
      rw [ht] at hn
      have hlink := kind?_eq_link_iff.1 (hkind.symm.trans (kind?_eq_link_iff.2 hn))
      rw [there] at hlink
      exact noLink target (Option.some.inj hlink)

/-! ## §3. A file at the end of a walk. -/

/-- The tree after a file came to a place: every other place holds what it held. -/
structure FileAt (fs fs' : FileSystem) (l : Location) : Prop where
  others : ∀ l', l' ≠ l → fs'.kind? l' = fs.kind? l'
  file : fs'.kind? l = some .file

/-- What is a directory is another place than that of the file, and stays one. -/
theorem FileAt.kind?_of_directory {last l : Location} (h : FileAt fs fs' last)
    (hnot : fs.isDirectoryAt last = false) (hl : fs.isDirectoryAt l = true) :
    fs'.kind? l = fs.kind? l := by
  refine h.others l ?_
  rintro rfl
  rw [hnot] at hl
  cases hl

/-- Directories stay. -/
theorem FileAt.isDirectoryAt {last l : Location} (h : FileAt fs fs' last)
    (hnot : fs.isDirectoryAt last = false) (hl : fs.isDirectoryAt l = true) :
    fs'.isDirectoryAt l = true :=
  isDirectoryAt_iff.2 ((h.kind?_of_directory hnot hl).trans (isDirectoryAt_iff.1 hl))

/-- Parts are looked up where they were. -/
theorem FileAt.looksUp {last l : Location} {part : Text} (h : FileAt fs fs' last)
    (hnot : fs.isDirectoryAt last = false) (hl : fs.LooksUp l part) : fs'.LooksUp l part :=
  hl.of_kind? (h.kind?_of_directory hnot hl.directory)

/-- What is entered at another place is entered there. -/
theorem FileAt.exists_node? {last l : Location} {node : Node} (h : FileAt fs fs' last)
    (hne : l ≠ last) (there : fs.node? l = some node)
    (noLink : ∀ target, node ≠ .link target) :
    ∃ node', fs'.node? l = some node' ∧ ∀ target, node' ≠ .link target := by
  obtain ⟨node', there', hkind⟩ := Option.map_eq_some_iff.1
    ((h.others l hne).trans (show fs.kind? l = some node.kind by rw [kind?, there]; rfl))
  refine ⟨node', there', ?_⟩
  rintro target rfl
  cases node with
  | link target' => exact noLink target' rfl
  | file content time => cases hkind
  | directory time => cases hkind

/-- A link at another place stays. -/
theorem FileAt.link {last l : Location} {target : Text} (h : FileAt fs fs' last) (hne : l ≠ last)
    (there : fs.node? l = some (.link target)) : fs'.node? l = some (.link target) := by
  rw [← kind?_eq_link_iff, h.others l hne, kind?_eq_link_iff]
  exact there

/-- A walk goes no further than a file. -/
theorem walkFrom_of_file {rest : List Text} (hfile : fs.kind? place = some .file) :
    fs.walkFrom follows links place rest =
      if rest = [] then .ok (place, fs.node? place) else .error .notDirectory := by
  cases rest with
  | nil => rw [walkFrom_nil, if_pos rfl]
  | cons part rest =>
    obtain ⟨node, hn, -⟩ := Option.map_eq_some_iff.1 hfile
    have hdir : ¬ fs.isDirectoryAt place = true := by
      rw [isDirectoryAt_iff, hfile]
      exact fun h => by cases h
    rw [walkFrom_eq, walkParts, if_pos hdir, hn, if_neg (List.cons_ne_nil part rest)]
    rfl

variable (follows) in
/-- **A WALK TO A PLACE ARRIVES OR IS STOPPED ONCE A FILE IS PUT THERE**: either the walk does
not meet the place before its end, or the file is in its way. -/
theorem Walks.arrives_or_stops {last : Location} (h : Walks fs false links place parts last)
    (hnot : fs.isDirectoryAt last = false) (hf : FileAt fs fs' last) :
    fs'.walkFrom follows links place parts = .ok (last, fs'.node? last) ∨
      fs'.walkFrom follows links place parts = .error .notDirectory := by
  -- the file is entered, and that is the end
  have hfile {l : Location} {part : Text} {rest : List Text} {n : Nat}
      (hl : fs.LooksUp l part) (he : fs'.kind? (l ++ [part]) = some .file) :
      fs'.walkFrom follows n l (part :: rest) = .ok (l ++ [part], fs'.node? (l ++ [part])) ∨
        fs'.walkFrom follows n l (part :: rest) = .error .notDirectory := by
    obtain ⟨node, hn, hk⟩ := Option.map_eq_some_iff.1 he
    have hno : ∀ target, node ≠ .link target := by
      rintro target rfl
      cases hk
    rw [walkFrom_enter (hf.looksUp hnot hl) hn hno, walkFrom_of_file he]
    by_cases hrest : rest = []
    · exact .inl (if_pos hrest)
    · exact .inr (if_neg hrest)
  induction h with
  | done => exact .inl (walkFrom_nil ..)
  | stay directory stays _ ih =>
    rw [walkFrom_stay (hf.isDirectoryAt hnot directory) stays]
    exact ih hnot hf
  | up directory _ ih =>
    rw [walkFrom_up (hf.isDirectoryAt hnot directory)]
    exact ih hnot hf
  | missing looks there => exact hfile looks hf.file
  | keep looks there kept => exact hfile looks hf.file
  | @follow links place last part target rest looks there followed notEmpty _ ih =>
    by_cases he : place ++ [part] = last
    · rw [← he]
      exact hfile looks (he ▸ hf.file)
    · have hrest : ¬ (rest = [] ∧ ¬ follows = true) := fun h =>
        followed.elim (fun hr => hr h.1) fun hf => by cases hf
      rw [walkFrom_link (hf.looksUp hnot looks) (hf.link he there), if_neg hrest,
        if_neg notEmpty]
      exact ih hnot hf
  | @enter links place last part rest node looks there noLink _ ih =>
    by_cases he : place ++ [part] = last
    · rw [← he]
      exact hfile looks (he ▸ hf.file)
    · obtain ⟨node', there', noLink'⟩ := hf.exists_node? he there noLink
      rw [walkFrom_enter (hf.looksUp hnot looks) there' noLink']
      exact ih hnot hf

/-- **A WALK TO A PLACE GOES NOWHERE ELSE ONCE A FILE IS PUT THERE.** -/
theorem Walks.arrives {last : Location} (h : Walks fs false links place parts last)
    (hnot : fs.isDirectoryAt last = false) (hf : FileAt fs fs' last) {node? : Option Node}
    (h' : fs'.walkFrom follows links place parts = .ok (found, node?)) : found = last := by
  rcases h.arrives_or_stops follows hnot hf with harrives | hstops
  · rw [harrives] at h'
    cases h'
    rfl
  · rw [hstops] at h'
    cases h'

/-! ## §4. What is on the way. -/

/-- Where a directory is, something is. -/
theorem exists_node?_of_isDirectoryAt {l : Location} (h : fs.isDirectoryAt l = true) :
    ∃ node, fs.node? l = some node := by
  obtain ⟨node, hn, -⟩ := Option.map_eq_some_iff.1 (isDirectoryAt_iff.1 h)
  exact ⟨node, hn⟩

/-- **ON THE WAY TO SOMETHING THERE ARE THINGS**: where a walk goes on from, something is. -/
theorem Walks.above {more : List Text} (h : Walks fs follows links place (parts ++ more) found)
    (hmore : more ≠ []) :
    ∃ l node, Walks fs false links place parts l ∧ fs.node? l = some node := by
  -- before the first part the walk stands in a directory
  have hstart {n : Nat} {place : Location} (hdir : fs.isDirectoryAt place = true) :
      ∃ l node, Walks fs false n place [] l ∧ fs.node? l = some node := by
    obtain ⟨node, hn⟩ := exists_node?_of_isDirectoryAt hdir
    exact ⟨place, node, .done, hn⟩
  generalize hwhole : parts ++ more = whole at h
  induction h generalizing parts with
  | done => exact absurd (List.append_eq_nil_iff.1 hwhole).2 hmore
  | stay directory stays _ ih =>
    cases parts with
    | nil => exact hstart directory
    | cons part' parts =>
      obtain ⟨rfl, rfl⟩ := List.cons.inj hwhole
      obtain ⟨l, node, hw, hn⟩ := ih rfl
      exact ⟨l, node, .stay directory stays hw, hn⟩
  | up directory _ ih =>
    cases parts with
    | nil => exact hstart directory
    | cons part' parts =>
      obtain ⟨rfl, rfl⟩ := List.cons.inj hwhole
      obtain ⟨l, node, hw, hn⟩ := ih rfl
      exact ⟨l, node, .up directory hw, hn⟩
  | missing looks there =>
    cases parts with
    | nil => exact hstart looks.directory
    | cons part' parts =>
      exact absurd (List.append_eq_nil_iff.1 (List.cons.inj hwhole).2).2 hmore
  | keep looks there kept =>
    cases parts with
    | nil => exact hstart looks.directory
    | cons part' parts =>
      exact absurd (List.append_eq_nil_iff.1 (List.cons.inj hwhole).2).2 hmore
  | @follow links place found part target rest looks there followed notEmpty _ ih =>
    cases parts with
    | nil => exact hstart looks.directory
    | cons part' parts =>
      obtain ⟨rfl, rfl⟩ := List.cons.inj hwhole
      cases parts with
      | nil => exact ⟨_, _, .keep looks there rfl, there⟩
      | cons next parts =>
        have hparts : (splitAt '/' target ++ next :: parts) ++ more =
            splitAt '/' target ++ (next :: parts ++ more) := List.append_assoc _ _ _
        obtain ⟨l, node, hw, hn⟩ := ih hparts
        exact ⟨l, node, .follow looks there (.inl (by simp)) notEmpty hw, hn⟩
  | enter looks there noLink _ ih =>
    cases parts with
    | nil => exact hstart looks.directory
    | cons part' parts =>
      obtain ⟨rfl, rfl⟩ := List.cons.inj hwhole
      obtain ⟨l, node, hw, hn⟩ := ih rfl
      exact ⟨l, node, .enter looks there noLink hw, hn⟩

/-! ## §5. Walks along a path. -/

section

variable {cwd : Position} {p : Path}

/-- A path that starts at a place has all its parts left there. -/
theorem startOf_of_isPlaced (hp : p.IsPlaced cwd) :
    startOf cwd p = .ok (⟨p.start cwd, 0⟩, p.parts) := by
  unfold startOf Path.start
  by_cases ha : p.anchor = .relative
  · have hcwd : cwd = ⟨cwd.place, 0⟩ := by
      cases cwd
      exact congrArg _ (hp ha)
    rw [if_pos ha, if_pos ha, hcwd]
    cases p.parts <;> rfl
  · rw [if_neg ha, if_neg ha]

/-- A path that can be handed to the system is walked from the place it starts at. -/
theorem walk_of_isSpelled (hp : p.IsPlaced cwd) (hs : p.IsSpelled) :
    fs.walk cwd follows p = (fs.walkFrom follows linkLimit (p.start cwd) p.place).map
      fun r => (⟨r.1, 0⟩, r.2) := by
  obtain ⟨bytes, hb, hshort⟩ := hs
  unfold walk
  rw [hb, startOf_of_isPlaced hp]
  exact if_neg (Nat.not_le.2 hshort)

/-- A path on which a walk arrives can be handed to the system. -/
theorem isSpelled_of_walk {r : Position × Option Node} (h : fs.walk cwd follows p = .ok r) :
    p.IsSpelled := by
  unfold walk at h
  cases hb : systemBytes p.text with
  | error problem =>
    rw [hb] at h
    cases h
  | ok bytes =>
    rw [hb] at h
    refine ⟨bytes, hb, Nat.lt_of_not_le fun hlong => ?_⟩
    simp only [hlong, if_true] at h
    cases h

/-- **THE WALKS ALONG A PATH THAT ARRIVE.** -/
theorem walk_eq_ok_iff (hp : p.IsPlaced cwd) {position : Position} {node? : Option Node} :
    fs.walk cwd follows p = .ok (position, node?) ↔ p.IsSpelled ∧
      ∃ l, Walks fs follows linkLimit (p.start cwd) p.place l ∧ position = ⟨l, 0⟩ ∧
        node? = fs.node? l := by
  constructor
  · intro h
    have hs := isSpelled_of_walk h
    rw [walk_of_isSpelled hp hs] at h
    cases hw : fs.walkFrom follows linkLimit (p.start cwd) p.place with
    | error problem =>
      rw [hw] at h
      cases h
    | ok r =>
      obtain ⟨l, found?⟩ := r
      rw [hw] at h
      cases h
      obtain ⟨hwalks, hnode⟩ := walkFrom_eq_ok_iff.1 hw
      exact ⟨hs, l, hwalks, rfl, hnode⟩
  · rintro ⟨hs, l, hwalks, rfl, rfl⟩
    rw [walk_of_isSpelled hp hs, walkFrom_eq_ok_iff.2 ⟨hwalks, rfl⟩]
    rfl

end

end FileSystem

end Cascade
