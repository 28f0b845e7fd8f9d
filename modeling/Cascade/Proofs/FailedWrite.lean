/-
  Cascade.Proofs.FailedWrite
  ────────────────────────────────
  **A WRITE THAT FAILS CHANGES NOTHING.**

  A change of preferences fails before anything is made when the document
  cannot be read.  When the groups cannot be written, directories and a
  draft were made before; the draft is taken away again, however much of it
  was there, and the directories stay.  They take nothing away, and a
  document is written as before (`Kept`); as long as its path leads to the
  same bytes, all later requests are answered as if the change had not been
  asked for.

  A directory that stays can change where the path leads: making `a` for
  `a/../p.json` opens the way to `p.json`.  It does not where the directory
  of the document was there, nor where what was missing of the path are
  names (`Descends`); then nothing is new in this directory either.

      node?_draft         — a draft that is taken away leaves no trace
      serve_document      — what a request reads and writes
      Matches.answers     — requests do not tell matching worlds apart
      kept_of_made        — a document is written as before in new directories
      undone_of_made      — new directories do not show
      failed_write_undone — so a failed write does not
-/
import Cascade.Proofs.MadeDirectories
import Cascade.Proofs.StoreEquivalence

namespace Cascade

open Cascade.Text
open Cascade.Files

/-! ## §1. Drafts. -/

namespace FileSystem

variable {fs : FileSystem} {l : Location} {name : Text}

/-- A directory that is touched has the time, unless it is the root. -/
theorem node?_touchAt (hdir : fs.isDirectoryAt l = true) (hroot : l ≠ []) (now : Int) :
    (fs.touchAt l now).node? l = some (.directory now) := by
  unfold isDirectoryAt node? at hdir
  rw [if_neg hroot] at hdir
  unfold touchAt
  split
  · rw [node?_put, if_neg hroot, if_pos rfl]
  · next hno =>
    split at hdir
    · next time hn => exact absurd hn (hno time)
    · cases hdir

/-- **A DRAFT THAT IS TAKEN AWAY LEAVES NO TRACE** but the time of its directory, under whatever
new name it was made and whatever bytes were written to it. -/
theorem node?_draft (rooted : fs.Rooted) (hdir : fs.isDirectoryAt l = true)
    (fresh : fs.node? (l ++ [name]) = none) (content : Bytes) (time now : Int) (l' : Location) :
    ((fs.create (l ++ [name]) (.file content time) now).prune (l ++ [name]) now).node? l' =
      (fs.put l (.directory now)).node? l' := by
  have hne : l ≠ l ++ [name] := by simp
  -- with the draft in it, and with the draft taken out, the directory is still one
  have hput : (fs.put (l ++ [name]) (.file content time)).isDirectoryAt l = true :=
    (isDirectoryAt_put_of_ne (Ne.symm hne) _).trans hdir
  unfold prune create touchAbove
  rw [List.dropLast_concat]
  by_cases hroot : l' = []
  · subst hroot
    rfl
  · by_cases hself : l' = l
    · subst hself
      rw [node?_touchAt _ hroot, node?_put, if_neg hroot, if_pos rfl]
      unfold isDirectoryAt
      have hnot : (l' ++ [name]).isPrefixOf l' = false := by
        rw [Bool.eq_false_iff, Ne, List.isPrefixOf_iff_prefix]
        intro hp
        have hlen := hp.length_le
        rw [List.length_append, List.length_singleton] at hlen
        omega
      rw [node?_filterKeys, if_neg hroot, if_pos (by rw [hnot]; rfl), node?_touchAt hput hroot]
    · rw [node?_touchAt_of_ne hself, node?_put, if_neg hroot, if_neg (Ne.symm hself),
        node?_filterKeys, if_neg hroot]
      by_cases hp : l ++ [name] <+: l'
      · have hbelow : (l ++ [name]).isPrefixOf l' = true := List.isPrefixOf_iff_prefix.2 hp
        rw [if_neg (by rw [hbelow]; decide), rooted.below fresh hp]
      · have hbelow : (l ++ [name]).isPrefixOf l' = false := by
          rw [Bool.eq_false_iff, Ne, List.isPrefixOf_iff_prefix]
          exact hp
        have hother : l ++ [name] ≠ l' := fun h => hp (h ▸ List.prefix_refl _)
        rw [if_pos (by rw [hbelow]; rfl), node?_touchAt_of_ne hself, node?_put, if_neg hroot,
          if_neg hother]

end FileSystem

namespace Preferences

open FileSystem

variable {w w' v : World} {p : Path} {path : Text} {gs : Groups} {failure : Failure}

/-! ## §2. How a document is not replaced. -/

/-- What is left of a document that is not replaced: the world as it was, unless a draft was made,
of which the time of its directory tells. -/
theorem replaceDocument_of_error (h : replaceDocument w p gs = (.error failure, w')) :
    (w' = w ∧ ∀ fault, failure ≠ .unwritable fault) ∨
      ∃ l, p.IsPlaced w.cwd ∧ w.files.isDirectoryAt l = true ∧
        w' = { w with files := w.files.put l (.directory w.now) } := by
  unfold replaceDocument at h
  split at h
  · cases h
    exact .inl ⟨rfl, fun _ hf => by cases hf⟩
  · next directory habs =>
    cases hdraft : w.files.draft w.cwd directory w.now with
    | error fault =>
      rw [hdraft] at h
      cases h
      exact .inl ⟨rfl, fun _ hf => by cases hf⟩
    | ok drafted =>
      rw [hdraft] at h
      obtain ⟨l, time, hwalk, rfl⟩ := draft_eq_ok hdraft
      obtain ⟨-, k, -, hk, hn⟩ := (walk_eq_ok_iff (isPlaced_absolute? habs)).1 hwalk
      obtain rfl := (Position.mk.inj hk).1
      have hdir : w.files.isDirectoryAt l = true := by
        unfold isDirectoryAt
        rw [← hn]
      refine .inr ⟨l, isPlaced_of_absolute? habs, hdir, ?_⟩
      simp only [changed] at h
      -- be it that the groups cannot be written, or that the draft cannot be put in its place
      cases hencode : encode p gs with
      | error failure' =>
        rw [hencode] at h
        cases h
        rfl
      | ok content =>
        rw [hencode] at h
        simp only at h
        split at h <;> cases h
        rfl

/-- Only times tell that a document was not replaced. -/
theorem alike_of_replaceDocument (h : replaceDocument w p gs = (.error failure, w')) :
    World.Alike w w' := by
  rcases replaceDocument_of_error h with ⟨rfl, -⟩ | ⟨l, -, hdir, rfl⟩
  · exact .refl w'
  · exact World.alike_of_files (alike_put hdir w.now)

/-- When the directories above a document are made, writing it is replacing it. -/
theorem writeDocument_of_made {made : FileSystem}
    (h : w.files.makeDirectories w.cwd p.parent w.now = (.ok (), made)) (gs : Groups) :
    writeDocument w p gs = replaceDocument { w with files := made } p gs := by
  unfold writeDocument
  rw [h]

/-- A document that cannot be written for its groups has its directories made. -/
theorem made_of_writeDocument {fault : Json.Unwritable}
    (h : writeDocument w p gs = (.error (.unwritable fault), w')) :
    ∃ made, w.files.makeDirectories w.cwd p.parent w.now = (.ok (), made) := by
  unfold writeDocument at h
  split at h
  · cases h
  · next made hmade => exact ⟨made, hmade⟩

/-- Writing a document changes the files of the world only. -/
theorem writeDocument_rest (w : World) (p : Path) (gs : Groups) :
    (writeDocument w p gs).2 = { w with files := (writeDocument w p gs).2.files } := by
  cases hwrite : writeDocument w p gs with
  | mk answer w' =>
    cases answer with
    | ok _ =>
      obtain ⟨_, _, _, _, -, -, rfl⟩ := site_of_writeDocument hwrite
      rfl
    | error failure =>
      unfold writeDocument at hwrite
      split at hwrite
      · cases hwrite
        rfl
      · have halike := (alike_of_replaceDocument hwrite).rest
        exact halike

/-! ## §3. Requests of a document. -/

/-- The groups a request writes, if it writes any. -/
def Request.edited? : Request → Groups → Option Groups
  | .set group key v, gs => some (gs.set group key v)
  | .remove group key, gs => gs.remove? group key
  | _, _ => none

/-- The reply to a request that does not fail, for the groups before it. -/
def Request.reply : Request → Groups → Reply
  | .get group key, gs => .found (gs.value? group key)
  | .set _ _ _, _ => .done
  | .remove group key, gs => .removed (gs.remove? group key).isSome
  | .has group key, gs => .known ((gs.value? group key).getD .null ≠ .null)
  | .groups, gs => .all gs
  | .reopen, _ => .done

/-- **A REQUEST OF A DOCUMENT** reads it, and writes it when there is something to write. -/
theorem serve_document {r : Request} (hr : r ≠ .reopen) :
    (document p).serve path w r =
      match readDocument w p with
      | .error failure => (.error failure, w, .document p)
      | .ok gs =>
        match r.edited? gs with
        | none => (.ok (r.reply gs), w, .document p)
        | some gs' =>
          ((writeDocument w p gs').1.map fun _ => r.reply gs, (writeDocument w p gs').2,
            .document p) := by
  have hgroups : (document p).groups w = readDocument w p := rfl
  cases hread : readDocument w p with
  | error failure =>
    rw [hread] at hgroups
    cases r with
    | reopen => exact absurd rfl hr
    | get group key => simp only [serve, get?, hgroups]; rfl
    | has group key => simp only [serve, has, get?, hgroups]; rfl
    | groups => simp only [serve, hgroups]; rfl
    | set group key value => simp only [serve, set, hgroups]; rfl
    | remove group key => simp only [serve, remove, hgroups]; rfl
  | ok gs =>
    rw [hread] at hgroups
    cases r with
    | reopen => exact absurd rfl hr
    | get group key => simp only [serve, get?, hgroups]; rfl
    | has group key => simp only [serve, has, get?, hgroups]; rfl
    | groups => simp only [serve, hgroups]; rfl
    | set group key value => simp only [serve, set, hgroups]; rfl
    | remove group key =>
      simp only [serve, remove, hgroups, Request.edited?, Request.reply]
      cases gs.remove? group key with
      | none => rfl
      | some gs' =>
        simp only [store]
        generalize writeDocument w p gs' = written
        obtain ⟨answer, v⟩ := written
        cases answer <;> rfl

/-- A request fails because the document cannot be read, and nothing changes, or because it cannot
be written. -/
theorem serve_of_error {s' : Preferences} {r : Request}
    (opened : documentAt w path = .ok (.document p))
    (failed : (document p).serve path w r = (.error failure, w', s')) :
    s' = .document p ∧ ((w' = w ∧ readDocument w p = .error failure) ∨
      ∃ gs gs', readDocument w p = .ok gs ∧ writeDocument w p gs' = (.error failure, w')) := by
  by_cases hr : r = .reopen
  · subst hr
    simp only [serve, opened] at failed
    cases failed
  · rw [serve_document hr] at failed
    cases hread : readDocument w p with
    | error failure' =>
      rw [hread] at failed
      cases failed
      exact ⟨rfl, .inl ⟨rfl, rfl⟩⟩
    | ok gs =>
      rw [hread] at failed
      cases hedit : r.edited? gs with
      | none =>
        simp only [hedit] at failed
        cases failed
      | some gs' =>
        simp only [hedit] at failed
        cases hwrite : writeDocument w p gs' with
        | mk answer v =>
          rw [hwrite] at failed
          cases answer with
          | ok _ => cases failed
          | error failure' =>
            cases failed
            exact ⟨rfl, .inr ⟨gs, gs', rfl, hwrite⟩⟩

/-! ## §4. Worlds that requests do not tell apart. -/

/-- A world that differs from another one in files only, and in which a document is read, and
written, as in the other one. -/
structure Matches (p : Path) (w v : World) : Prop where
  rest : v = { w with files := v.files }
  read : v.read p = w.read p
  writes : ∀ gs, WrittenAlike (writeDocument w p gs) (writeDocument v p gs)

/-- What is read in worlds that are alike is the same. -/
theorem read_of_alike (h : World.Alike w v) (p : Path) : v.read p = w.read p := by
  rw [World.read, World.read, h.files.read, h.rest]

/-- Worlds that are alike match. -/
theorem matches_of_alike (h : World.Alike w v) (p : Path) : Matches p w v :=
  ⟨h.rest, read_of_alike h p, writeDocument_alike h p⟩

/-- **ONE REQUEST IS ANSWERED THE SAME IN WORLDS THAT MATCH**, and they match after it. -/
theorem Matches.serve (h : Matches p w v) (opened : documentAt w path = .ok (.document p))
    (r : Request) :
    ∃ answer files files', (document p).serve path w r = (answer, { w with files }, .document p) ∧
      (document p).serve path v r = (answer, { v with files := files' }, .document p) ∧
        Matches p { w with files } { v with files := files' } := by
  by_cases hr : r = .reopen
  · subst hr
    have hopened : documentAt v path = .ok (.document p) := by
      rw [h.rest]
      exact opened
    refine ⟨.ok .done, w.files, v.files, ?_, ?_, h⟩
    · simp only [Preferences.serve, opened]
    · simp only [Preferences.serve, hopened]
  · have hread : readDocument v p = readDocument w p := by
      unfold readDocument
      rw [h.read]
    rw [serve_document hr, serve_document hr, hread]
    cases readDocument w p with
    | error failure => exact ⟨.error failure, w.files, v.files, rfl, rfl, h⟩
    | ok gs =>
      cases hedit : r.edited? gs with
      | none =>
        refine ⟨.ok (r.reply gs), w.files, v.files, ?_, ?_, h⟩
        · simp only [hedit]
        · simp only [hedit]
      | some gs' =>
        have hwritten := h.writes gs'
        refine ⟨(writeDocument w p gs').1.map fun _ => r.reply gs, (writeDocument w p gs').2.files,
          (writeDocument v p gs').2.files, ?_, ?_, ?_⟩
        · simp only [hedit, ← writeDocument_rest]
        · simp only [hedit, ← writeDocument_rest, hwritten.answer]
        · rw [← writeDocument_rest, ← writeDocument_rest]
          exact matches_of_alike hwritten.world p

/-- **AND SO ARE ALL REQUESTS**, one after the other. -/
theorem Matches.answers (h : Matches p w v) (opened : documentAt w path = .ok (.document p))
    (requests : List Request) :
    answers path v (.document p) requests = answers path w (.document p) requests := by
  induction requests generalizing w v with
  | nil => rfl
  | cons r requests ih =>
    obtain ⟨answer, files, files', hw, hv, hmatches⟩ := h.serve opened r
    rw [Preferences.answers, Preferences.answers, hw, hv]
    show answer :: _ = answer :: _
    rw [ih hmatches opened]

/-! ## §5. What stays. -/

/-- A world in which directories were made, and in which a document is written as before. -/
structure Kept (p : Path) (w w' : World) : Prop extends Extended w.files w'.files where
  rest : w' = { w with files := w'.files }
  writes : ∀ gs, WrittenAlike (writeDocument w p gs) (writeDocument w' p gs)

/-- When a document is still read as before, requests do not tell what was made. -/
theorem Kept.matches (h : Kept p w w') (read : w'.read p = w.read p) : Matches p w w' :=
  ⟨h.rest, read, h.writes⟩

/-- A world is kept when nothing is made. -/
theorem Kept.refl (p : Path) (w : World) : Kept p w w :=
  ⟨.refl w.files, rfl, writeDocument_alike (.refl w) p⟩

/-- Times that change are no more than what is made. -/
theorem Kept.alike (h : Kept p w v) (halike : World.Alike v w') : Kept p w w' := by
  refine ⟨h.toExtended.alike halike.files, ?_, fun gs => ?_⟩
  · rw [halike.rest, h.rest]
  · have hwritten := writeDocument_alike halike p gs
    exact ⟨hwritten.answer.trans (h.writes gs).answer, (h.writes gs).world.trans hwritten.world⟩

/-- Directories that are made for a document leave it to be written as before. -/
theorem kept_of_made {made : FileSystem} (placed : p.IsPlaced w.cwd)
    (h : w.files.makeDirectories w.cwd p.parent w.now = (.ok (), made)) :
    Kept p w { w with files := made } := by
  have hextended := extended_makeDirectories w.files w.cwd p.parent w.now
  rw [h] at hextended
  have hagain : made.makeDirectories w.cwd p.parent w.now = (.ok (), made) :=
    makeDirectories_of_isDirectory (isDirectory_of_makeDirectoriesWithin (p := p.parent) placed h)
  refine ⟨hextended, rfl, fun gs => ?_⟩
  -- in both worlds the document is replaced in the tree with the new directories
  have hsame : writeDocument { w with files := made } p gs = writeDocument w p gs :=
    (writeDocument_of_made (w := { w with files := made }) hagain gs).trans
      (writeDocument_of_made h gs).symm
  exact ⟨congrArg Prod.fst hsame, congrArg Prod.snd hsame ▸ .refl _⟩

/-- What a change that failed leaves of a document: the bytes at its path, and nothing new in its
directory, which may be new itself. -/
structure Undone (p : Path) (w w' : World) : Prop where
  read : w'.read p = w.read p
  listed : w'.files.list w.cwd p.parent = w.files.list w.cwd p.parent ∨
    (w.files.isDirectory w.cwd p.parent ≠ .ok true ∧ w'.files.list w.cwd p.parent = .ok [])

/-- Nothing is left when nothing was changed. -/
theorem Undone.refl (p : Path) (w : World) : Undone p w w := ⟨rfl, .inl rfl⟩

/-- Times do not tell what was changed. -/
theorem Undone.alike (h : Undone p w v) (halike : World.Alike v w') :
    Undone p w w' := by
  refine ⟨(read_of_alike halike p).trans h.read, ?_⟩
  rw [halike.files.list]
  exact h.listed

/-- A path of which all that is below a directory that is there are names, the last one not too
long: what is missing of it can be made without opening a way elsewhere. -/
def Descends (w : World) (p : Path) : Prop :=
  ∃ front back, p.parts = front ++ back ∧
    w.files.isDirectory w.cwd ⟨p.anchor, front⟩ = .ok true ∧
    (∀ part ∈ back, Path.isName (Utf8.settledName part) = true) ∧
    ∀ part ∈ back.getLast?, Utf8.nameSize (Utf8.settledName part) ≤ partLimit

/-- A path at which nothing is found can be handed to the system. -/
theorem isSpelled_of_read (placed : p.IsPlaced w.cwd) (h : w.read p = .error .notFound) :
    p.IsSpelled := by
  by_contra hs
  unfold World.read FileSystem.read stat at h
  cases hw : w.files.walk w.cwd true p with
  | error problem =>
    rw [hw] at h
    cases h
    exact walk_ne_notFound hs hw
  | ok r => exact hs ((walk_eq_ok_iff placed).1 hw).1

/-- What is read of a document with groups: nothing, or bytes. -/
theorem read_of_readDocument (h : readDocument w p = .ok gs) :
    w.read p = .error .notFound ∨ ∃ content, w.read p = .ok content := by
  unfold readDocument at h
  split at h
  · next hr => exact .inl hr
  · split at h <;> cases h
  · next content hr => exact .inr ⟨content, hr⟩

/-- A document is not read where a directory is. -/
theorem not_isDirectory_of_readDocument (h : readDocument w p = .ok gs) :
    w.files.isDirectory w.cwd p ≠ .ok true := by
  intro hd
  obtain ⟨position, time, hw⟩ := isDirectory_eq_true_iff.1 hd
  have hr : w.read p = .error .isDirectory := by
    unfold World.read FileSystem.read stat
    rw [hw]
    rfl
  rcases read_of_readDocument h with hr' | ⟨content, hr'⟩ <;>
    rw [hr] at hr' <;> cases hr'

/-- When the directories above a document that was read are made, they were there. -/
theorem made_eq_of_read {made : FileSystem} {content : Bytes} (placed : p.IsPlaced w.cwd)
    (hr : w.read p = .ok content)
    (h : w.files.makeDirectories w.cwd p.parent w.now = (.ok (), made)) : made = w.files := by
  obtain ⟨position, time, hwalk⟩ := walk_of_read hr
  obtain ⟨-, l, hl, -, hn⟩ := (walk_eq_ok_iff placed).1 hwalk
  have hthere : w.files.kind? l ≠ none := by
    rw [Ne, kind?_eq_none_iff, ← hn]
    exact Option.some_ne_none _
  obtain ⟨a, ha, hak⟩ := exists_above hl hthere
  exact (directory_of_made (p := p.parent) placed ha hak h).1

/-- A new directory that was made for a document that was not there does not show. -/
theorem undone_of_fresh {made : FileSystem} {anchor : Anchor} {parts : List Text} {part : Text}
    {k : Location} (rooted : w.files.Rooted) (placed : anchor = .relative → w.cwd.removed = 0)
    (h : w.files.makeDirectories w.cwd ⟨anchor, parts⟩ w.now = (.ok (), made))
    (hk : MadeAlong w.files made w.cwd ⟨anchor, parts⟩ k) (fresh : w.files.node? k = none)
    (missing : w.read ⟨anchor, parts ++ [part]⟩ = .error .notFound)
    (hname : Path.isName (Utf8.settledName part) = true)
    (short : Utf8.nameSize (Utf8.settledName part) ≤ partLimit) :
    Undone ⟨anchor, parts ++ [part]⟩ w { w with files := made } := by
  have hplaced : (Path.mk anchor parts).IsPlaced w.cwd := placed
  obtain ⟨time, hwalk⟩ := hk.exists_walk hplaced
  refine ⟨?_, .inr ⟨fun hd => ?_, ?_⟩⟩
  · exact (hk.read rooted placed fresh (isSpelled_of_read placed missing) hname short).trans
      missing.symm
  · -- a directory that had been there would not have been made
    rw [parent_concat] at hd
    rw [makeDirectories_of_isDirectory hd] at h
    obtain rfl : w.files = made := (Prod.mk.inj h).2
    have hdir := hk.directory
    unfold isDirectoryAt at hdir
    rw [fresh] at hdir
    cases hdir
  · have hnames : made.namesIn k = [] := by
      rw [List.eq_nil_iff_forall_not_mem]
      intro name hm
      exact mem_namesIn.1 hm (hk.toMadeDown.empty rooted fresh name)
    rw [parent_concat]
    unfold FileSystem.list
    rw [hwalk]
    show Except.ok (made.namesIn k) = _
    rw [hnames]

/-- **NEW DIRECTORIES DO NOT SHOW** when they are made for a document along names. -/
theorem undone_of_made {made : FileSystem} (rooted : w.files.RootedAt w.cwd)
    (placed : p.IsPlaced w.cwd) (hread : readDocument w p = .ok gs) (descends : Descends w p)
    (h : w.files.makeDirectories w.cwd p.parent w.now = (.ok (), made)) :
    Undone p w { w with files := made } := by
  obtain ⟨front, back, hparts, hfront, names, short⟩ := descends
  obtain ⟨anchor, parts⟩ := p
  obtain rfl : parts = front ++ back := hparts
  rcases List.eq_nil_or_concat' back with rfl | ⟨back, part, rfl⟩
  · rw [List.append_nil] at hread
    exact absurd hfront (not_isDirectory_of_readDocument hread)
  · rw [← List.append_assoc] at placed hread h ⊢
    have hname := names part (List.mem_append_right _ (List.mem_singleton_self part))
    have hmade := h
    rw [parent_concat] at hmade
    obtain ⟨k, hk⟩ := madeAlong_of_makeDirectories rooted.rooted placed hfront
      (fun part hpart => names part (List.mem_append_left _ hpart)) hmade
    rcases hk.fresh with rfl | fresh
    · exact .refl _ w
    · rcases read_of_readDocument hread with missing | ⟨content, hr⟩
      · exact undone_of_fresh rooted.rooted placed hmade hk fresh missing hname
          (short part List.getLast?_concat)
      · -- above what was read there is nothing new
        obtain rfl := made_eq_of_read placed hr h
        exact .refl _ w

/-! ## §6. Requests that fail. -/

/-- No document fails to be read for what cannot be written. -/
theorem readDocument_ne_unwritable (fault : Json.Unwritable) :
    readDocument w p ≠ .error (.unwritable fault) := by
  intro h
  unfold readDocument decode at h
  split at h
  · cases h
  · split at h <;> cases h
  · split at h
    · cases h
    · simp only at h
      split at h
      · cases h
      · split at h <;> cases h

/-- A tree that is what is left of a draft in the directory of a document, whatever its name and
however much of it had been written. -/
def LeftByDraft (p : Path) (w w' : World) : Prop :=
  ∃ made l, w.files.makeDirectories w.cwd p.parent w.now = (.ok (), made) ∧
    made.isDirectoryAt l = true ∧ ∀ name, made.node? (l ++ [name]) = none → ∀ content l',
      w'.files.node? l' = ((made.create (l ++ [name]) (.file content w.now) w.now).prune
        (l ++ [name]) w.now).node? l'

/-- **A FAILED WRITE IS UNDONE**, whether the document cannot be read, when nothing changes at
all, or its groups cannot be written.  Nothing is taken away, and nothing but directories above
the document is new; requests from then on are answered as if there had not been this one, as
long as the path leads to the same bytes.  It does, and there is nothing new in the directory of
the document, when this directory was there or what was missing of the path are names. -/
theorem failed_write_undone {s' : Preferences} {r : Request} (rooted : w.files.RootedAt w.cwd)
    (opened : documentAt w path = .ok (.document p))
    (failed : (document p).serve path w r = (.error failure, w', s'))
    (reason : readDocument w p = .error failure ∨ ∃ fault, failure = .unwritable fault) :
    s' = .document p ∧ Kept p w w' ∧ (readDocument w p = .error failure → w' = w) ∧
      (w'.read p = w.read p →
        ∀ requests, answers path w' s' requests = answers path w (.document p) requests) ∧
      (readDocument w p = .error failure ∨ w.files.isDirectory w.cwd p.parent = .ok true ∨
        Descends w p → Undone p w w') ∧
      ∀ fault, failure = .unwritable fault → LeftByDraft p w w' := by
  obtain ⟨rfl, ⟨rfl, hread⟩ | ⟨gs, gs', hread, hwrite⟩⟩ := serve_of_error opened failed
  · refine ⟨rfl, .refl p w', fun _ => rfl, fun _ _ => rfl, fun _ => .refl p w', ?_⟩
    rintro fault rfl
    exact absurd hread (readDocument_ne_unwritable fault)
  · -- the document was read, so it is its groups that cannot be written
    obtain ⟨fault, rfl⟩ := reason.resolve_left fun h => by rw [hread] at h; cases h
    obtain ⟨made, hmade⟩ := made_of_writeDocument hwrite
    rw [writeDocument_of_made hmade] at hwrite
    have halike := alike_of_replaceDocument hwrite
    obtain ⟨l, placed, hdir, rfl⟩ : ∃ l, p.IsPlaced w.cwd ∧ made.isDirectoryAt l = true ∧
        w' = { w with files := made.put l (.directory w.now) } :=
      (replaceDocument_of_error hwrite).resolve_left fun h => h.2 fault rfl
    have hkept := (kept_of_made placed hmade).alike halike
    refine ⟨rfl, hkept, fun hfail => ?_, fun hsame => (hkept.matches hsame).answers opened,
      fun found => ?_, ?_⟩
    · rw [hread] at hfail
      cases hfail
    · have hundone : Undone p w { w with files := made } := by
        rcases found with hfail | hthere | descends
        · rw [hread] at hfail
          cases hfail
        · rw [makeDirectories_of_isDirectory hthere] at hmade
          cases hmade
          exact .refl p w
        · exact undone_of_made rooted placed hread descends hmade
      exact hundone.alike halike
    · intro _ _
      have hrooted := (rooted.makeDirectories p.parent w.now).rooted
      rw [hmade] at hrooted
      exact ⟨made, l, hmade, hdir, fun name fresh content l' =>
        (node?_draft hrooted hdir fresh content w.now w.now l').symm⟩

/-- A world without files. -/
def bareWorld : World where
  files := ⟨.empty⟩
  cwd := ⟨[], 0⟩
  environ := .empty
  users := .none
  now := 100

/-- A value that cannot be set is answered with the failure. -/
theorem serve_set_of_error (path : Text) {s : Preferences} {group key : Text} {value : Value}
    (h : (s.set w group key value).1 = .error failure) :
    s.serve path w (.set group key value) =
      (.error failure, (s.set w group key value).2.1, (s.set w group key value).2.2) := by
  have hserve : s.serve path w (.set group key value) =
      ((s.set w group key value).1.map fun _ => .done, (s.set w group key value).2) := rfl
  rw [hserve, h]
  rfl

/-- Bytes inside of a list are not written to a document in a directory that is missing: the
directory stays, with nothing in it, and the document is still not there. -/
theorem failed_write_undone_bareWorld :
    ∃ w' s', (document ⟨.relative, ["new", "p.json"]⟩).serve "new/p.json" bareWorld
        (.set "g" "k" (.list [.int 1, .object [("x", .bytes [0])]])) =
        (.error (.unwritable .bytes), w', s') ∧
      w'.files.list bareWorld.cwd ⟨.relative, ["new"]⟩ = .ok [] ∧
      w'.read ⟨.relative, ["new", "p.json"]⟩ = .error .notFound ∧
      ∀ requests, answers "new/p.json" w' s' requests =
        answers "new/p.json" bareWorld (.document ⟨.relative, ["new", "p.json"]⟩) requests := by
  have hset : ((document ⟨.relative, ["new", "p.json"]⟩).set bareWorld "g" "k"
      (.list [.int 1, .object [("x", .bytes [0])]])).1 = .error (.unwritable .bytes) := by
    decide +kernel
  have failed := serve_set_of_error "new/p.json" hset
  have descends : Descends bareWorld ⟨.relative, ["new", "p.json"]⟩ :=
    ⟨[], ["new", "p.json"], rfl, by decide +kernel, by decide +kernel, by decide +kernel⟩
  obtain ⟨-, -, -, hanswers, hundone, -⟩ := failed_write_undone
    ⟨by decide +kernel, by decide +kernel⟩ (by rfl) failed (.inr ⟨.bytes, rfl⟩)
  have hread := (hundone (.inr (.inr descends))).read
  exact ⟨_, _, failed, by decide +kernel, hread.trans (by decide +kernel), hanswers hread⟩

/-- A document with one group. -/
def groupText : Text := "\x7b\"g\": \x7b\"k\": 1\x7d\x7d"

/-- The bytes of this document. -/
def groupBytes : Bytes := groupText.map fun c => UInt8.ofNat c.toNat

/-- The world this document is in. -/
def groupWorld : World where
  files := ⟨Table.ofList [(["p.json"], .file groupBytes 0)]⟩
  cwd := ⟨[], 0⟩
  environ := .empty
  users := .none
  now := 100

/-- The value that was found. -/
def foundIn? : Except Failure Reply → Option Value
  | .ok (.found v?) => v?
  | _ => none

/-- With a way back up among what is missing of the path, the directory that stays opens the way to
another document. -/
theorem not_undone_groupWorld :
    ¬ ∀ (w w' : World) (path : Text) (p : Path) (r : Request) (failure : Failure)
        (s' : Preferences), w.files.RootedAt w.cwd → documentAt w path = .ok (.document p) →
      (document p).serve path w r = (.error failure, w', s') →
      (readDocument w p = .error failure ∨ ∃ fault, failure = .unwritable fault) →
      ∀ requests, answers path w' s' requests = answers path w (.document p) requests := by
  intro h
  have hset : ((document ⟨.relative, ["a", "..", "p.json"]⟩).set groupWorld "g" "x"
      (.bytes [0])).1 = .error (.unwritable .bytes) := by decide +kernel
  have hsame := h groupWorld _ "a/../p.json" ⟨.relative, ["a", "..", "p.json"]⟩ _ _ _
    ⟨by decide +kernel, by decide +kernel⟩ (by rfl) (serve_set_of_error _ hset)
    (.inr ⟨.bytes, rfl⟩) [.get "g" "k"]
  -- the reply to the one request that follows
  exact absurd (congrArg (List.map foundIn?) hsame) (by decide +kernel)

end Preferences

end Cascade
