/-
  Cascade.Proofs.ReplacedDocument
  ────────────────────────────────
  **A DOCUMENT THAT WAS READ IS FOUND AGAIN.**

  Replacing a document takes the place of the entry its path names, be it a
  file or a link to one.  Other entries stay, so the path leads to the new
  file, unless it passes through this entry on its way there.  It cannot: a
  link that leads to a file is no directory to go on from.

      Walks.front              — a walk that goes on is in a directory before
      Walks.target_of_kept     — where a link leads that a walk ends with
      Walks.replaced           — the walk to an entry arrives at the file put there
      read_or_stops_of_writeDocument — where a document was written nothing
                                 else is read
      read_of_writeDocument    — a document that was read and is replaced is read
-/
import Cascade.Proofs.StoreEquivalence

namespace Cascade

open Cascade.Text
open Cascade.Files

namespace FileSystem

variable {fs fs' : FileSystem} {follows : Bool} {links : Nat} {place found : Location}
  {parts : List Text}

/-! ## §1. Walks through a link. -/

/-- A walk that arrives does so when more links may be followed. -/
theorem Walks.mono (h : Walks fs follows links place parts found) {more : Nat}
    (hm : links ≤ more) : Walks fs follows more place parts found := by
  induction h generalizing more with
  | done => exact .done
  | stay directory stays _ ih => exact .stay directory stays (ih hm)
  | up directory _ ih => exact .up directory (ih hm)
  | missing looks there => exact .missing looks there
  | keep looks there kept => exact .keep looks there kept
  | follow looks there followed notEmpty _ ih =>
    obtain ⟨more, rfl⟩ : ∃ n, more = n + 1 := ⟨more - 1, by omega⟩
    exact .follow looks there followed notEmpty (ih (by omega))
  | enter looks there noLink _ ih => exact .enter looks there noLink (ih hm)

/-- Walks of the same parts arrive at one place, however many links they may follow. -/
theorem Walks.unique (h : Walks fs follows links place parts found) {links' : Nat}
    {found' : Location} (h' : Walks fs follows links' place parts found') : found = found' := by
  have hmax := walkFrom_of_walks (h.mono (Nat.le_max_left links links'))
  rw [walkFrom_of_walks (h'.mono (Nat.le_max_right links links'))] at hmax
  cases hmax
  rfl

/-- **A WALK THAT GOES ON IS IN A DIRECTORY BEFORE**, links being followed up to there. -/
theorem Walks.front {more : List Text} (h : Walks fs follows links place (parts ++ more) found)
    (hmore : more ≠ []) :
    ∃ l, Walks fs true links place parts l ∧ fs.isDirectoryAt l = true := by
  generalize hwhole : parts ++ more = whole at h
  induction h generalizing parts with
  | done => exact absurd (List.append_eq_nil_iff.1 hwhole).2 hmore
  | @stay _ place _ _ _ directory stays _ ih =>
    cases parts with
    | nil => exact ⟨place, .done, directory⟩
    | cons part' parts =>
      obtain ⟨rfl, rfl⟩ := List.cons.inj hwhole
      obtain ⟨l, hw, hl⟩ := ih rfl
      exact ⟨l, .stay directory stays hw, hl⟩
  | @up _ place _ _ directory _ ih =>
    cases parts with
    | nil => exact ⟨place, .done, directory⟩
    | cons part' parts =>
      obtain ⟨rfl, rfl⟩ := List.cons.inj hwhole
      obtain ⟨l, hw, hl⟩ := ih rfl
      exact ⟨l, .up directory hw, hl⟩
  | @missing _ place _ looks there =>
    cases parts with
    | nil => exact ⟨place, .done, looks.directory⟩
    | cons part' parts =>
      exact absurd (List.append_eq_nil_iff.1 (List.cons.inj hwhole).2).2 hmore
  | @keep _ place _ _ looks there kept =>
    cases parts with
    | nil => exact ⟨place, .done, looks.directory⟩
    | cons part' parts =>
      exact absurd (List.append_eq_nil_iff.1 (List.cons.inj hwhole).2).2 hmore
  | @follow _ place _ _ target _ looks there followed notEmpty _ ih =>
    cases parts with
    | nil => exact ⟨place, .done, looks.directory⟩
    | cons part' parts =>
      obtain ⟨rfl, rfl⟩ := List.cons.inj hwhole
      obtain ⟨l, hw, hl⟩ := ih (List.append_assoc (splitAt '/' target) parts more)
      exact ⟨l, .follow looks there (.inr rfl) notEmpty hw, hl⟩
  | @enter _ place _ _ _ _ looks there noLink _ ih =>
    cases parts with
    | nil => exact ⟨place, .done, looks.directory⟩
    | cons part' parts =>
      obtain ⟨rfl, rfl⟩ := List.cons.inj hwhole
      obtain ⟨l, hw, hl⟩ := ih rfl
      exact ⟨l, .enter looks there noLink hw, hl⟩

/-- **WHERE A LINK LEADS** that a walk ends with: to the file that the walk arrives at when links
are followed. -/
theorem Walks.target_of_kept {last : Location} (h : Walks fs false links place parts last)
    {target : Text} (hlink : fs.node? last = some (.link target)) {node? : Option Node}
    (hf : fs.walkFrom true links place parts = .ok (found, node?))
    (hfile : fs.kind? found = some .file) :
    ∃ n, Walks fs true n (if Path.anchorOf target = .relative then last.dropLast else [])
      (splitAt '/' target) found := by
  induction h with
  | done =>
    -- without parts both walks end where they begin
    rw [walkFrom_nil] at hf
    cases hf
    rw [kind?, hlink] at hfile
    cases hfile
  | stay directory stays _ ih =>
    rw [walkFrom_stay directory stays] at hf
    exact ih hlink hf
  | up directory _ ih =>
    rw [walkFrom_up directory] at hf
    exact ih hlink hf
  | missing looks there =>
    rw [there] at hlink
    cases hlink
  | @keep links place part target' looks there kept =>
    rw [there] at hlink
    cases hlink
    rw [walkFrom_link looks there, if_neg (by simp)] at hf
    split at hf
    · cases hf
    · cases links with
      | zero => cases hf
      | succ links =>
        rw [List.append_nil] at hf
        rw [List.dropLast_concat]
        exact ⟨links, (walks_of_walkFrom hf).1⟩
  | @follow links place found' part target' rest looks there followed notEmpty _ ih =>
    rw [walkFrom_link looks there, if_neg (by simp), if_neg notEmpty] at hf
    exact ih hlink hf
  | enter looks there noLink _ ih =>
    rw [walkFrom_enter looks there noLink] at hf
    exact ih hlink hf

/-- **THE WALK TO AN ENTRY ARRIVES AT THE FILE PUT THERE**, when it led to a file before. -/
theorem Walks.replaced {last : Location} (h : Walks fs false links place parts last)
    (hnot : fs.isDirectoryAt last = false) (hput : FileAt fs fs' last) {node? : Option Node}
    (hf : fs.walkFrom true links place parts = .ok (found, node?))
    (hfile : fs.kind? found = some .file) : Walks fs' true links place parts last := by
  -- the file is entered
  have henter {l : Location} {part : Text} {n : Nat} (hl : fs.LooksUp l part)
      (he : fs'.kind? (l ++ [part]) = some .file) :
      Walks fs' true n l [part] (l ++ [part]) := by
    obtain ⟨node, hn, hk⟩ := Option.map_eq_some_iff.1 he
    refine .enter (hput.looksUp hnot hl) hn ?_ .done
    rintro target rfl
    cases hk
  induction h with
  | done => exact .done
  | stay directory stays _ ih =>
    rw [walkFrom_stay directory stays] at hf
    exact .stay (hput.isDirectoryAt hnot directory) stays (ih hnot hput hf)
  | up directory _ ih =>
    rw [walkFrom_up directory] at hf
    exact .up (hput.isDirectoryAt hnot directory) (ih hnot hput hf)
  | missing looks there => exact henter looks hput.file
  | keep looks there kept => exact henter looks hput.file
  | @follow links place last part target rest looks there followed notEmpty more ih =>
    have hrest : rest ≠ [] := followed.resolve_right fun h => by cases h
    rw [walkFrom_link looks there, if_neg (by simp), if_neg notEmpty] at hf
    have hne : place ++ [part] ≠ last := by
      rintro rfl
      -- the link would lead to a file at the end, and to a directory here
      obtain ⟨n, htarget⟩ := more.target_of_kept there hf hfile
      obtain ⟨l, hfront, hl⟩ := more.front hrest
      rw [List.dropLast_concat] at htarget
      rw [hfront.unique htarget, isDirectoryAt_iff, hfile] at hl
      cases hl
    exact .follow (hput.looksUp hnot looks) (hput.link hne there) (.inr rfl) notEmpty
      (ih hnot hput hf)
  | @enter links place last part rest node looks there noLink more ih =>
    rw [walkFrom_enter looks there noLink] at hf
    by_cases he : place ++ [part] = last
    · -- an entry that is entered is the last one
      cases rest with
      | nil =>
        rw [← he] at hput ⊢
        exact henter looks hput.file
      | cons next rest =>
        obtain ⟨problem, hstop⟩ : ∃ problem, fs.walkFrom true links (place ++ [part])
            (next :: rest) = .error problem := walkFrom_stop (he ▸ hnot)
        rw [hstop] at hf
        cases hf
    · obtain ⟨node', there', noLink'⟩ := hput.exists_node? he there noLink
      exact .enter (hput.looksUp hnot looks) there' noLink' (ih hnot hput hf)

end FileSystem

namespace Preferences

open FileSystem

/-! ## §2. The document. -/

/-- **WHERE A DOCUMENT WAS WRITTEN NOTHING ELSE IS READ**: the path leads to it, unless it passes
through the document on its way. -/
theorem read_or_stops_of_writeDocument {w w' : World} {p : Path} {gs : Groups}
    (hw : writeDocument w p gs = (.ok (), w')) :
    ∃ content, encode p gs = .ok content ∧
      (w'.read p = .ok content ∨ w'.read p = .error .notDirectory) := by
  obtain ⟨made, drafts, entry, content, hsite, hencode, rfl⟩ := site_of_writeDocument hw
  refine ⟨content, hencode, ?_⟩
  obtain ⟨hspelled, hentry, hnot, hroot⟩ := hsite.walks_entry
  have hput := fileAt_create (made.put drafts (.directory w.now)) hroot content w.now w.now
  rcases hentry.arrives_or_stops true hnot hput with harrives | hstops
  · have hwalks := (walks_of_walkFrom harrives).1
    exact .inl (read_of_walks hsite.isPlaced hspelled hwalks (node?_withEntry hroot content w.now))
  · refine .inr ?_
    show (withEntry made drafts entry content w.now).read w.cwd p = _
    unfold FileSystem.read stat
    rw [walk_of_isSpelled hsite.isPlaced hspelled, withEntry, hstops]
    rfl

/-- **A DOCUMENT THAT WAS READ AND IS REPLACED IS READ**, with what was put there. -/
theorem read_of_writeDocument {w w' : World} {p : Path} {gs : Groups} {content : Bytes}
    (hr : w.read p = .ok content) (hw : writeDocument w p gs = (.ok (), w')) :
    ∃ content', encode p gs = .ok content' ∧ w'.read p = .ok content' := by
  obtain ⟨made, drafts, entry, content', hsite, hencode, rfl⟩ := site_of_writeDocument hw
  refine ⟨content', hencode, ?_⟩
  obtain ⟨position, time, hwalk⟩ := walk_of_read hr
  obtain ⟨-, l, hl, -, hn⟩ := (walk_eq_ok_iff hsite.isPlaced).1 hwalk
  have hfile : w.files.kind? l = some .file := by
    rw [kind?, ← hn]
    rfl
  -- there is a directory above what was read, so none is made
  obtain ⟨a, ha, hak⟩ := exists_above hl (by rw [hfile]; exact fun h => by cases h)
  obtain ⟨hmade, -, -⟩ := directory_of_made (p := p.parent) hsite.isPlaced ha hak hsite.directories
  subst hmade
  obtain ⟨-, -, -, -, hdrafts⟩ := hsite.walks_drafts
  obtain ⟨hspelled, hentry, hnot, hroot⟩ := hsite.walks_entry
  have hshape : SameShape w.files (w.files.put drafts (.directory w.now)) :=
    sameShape_put hdrafts
  have hput := fileAt_create (w.files.put drafts (.directory w.now)) hroot content' w.now w.now
  have hfound := hentry.replaced hnot hput (walkFrom_of_walks (hl.sameShape hshape))
    ((hshape l).trans hfile)
  exact read_of_walks hsite.isPlaced hspelled hfound (node?_withEntry hroot content' w.now)

end Preferences

end Cascade
