/-
  Cascade.Proofs.UnrelatedData
  ────────────────────────────────
  **WHAT AN UPDATE LEAVES OF A DOCUMENT.**

  Setting or removing a key reads the whole document, changes one group and
  writes the whole document anew.  The members that are no objects are no
  groups: they are not read, so they are not written.  The document is then
  what the update makes of its objects, and all other members of these are
  still there with their values.  It is what the update makes of the whole
  document just when there were no other members.

      Groups.members_ofMembers   — the groups of a document are its objects
      Update.made_iff            — an update is made when the changed groups are
                                   written
      Update.exists_written      — it writes the edited objects
      alike_edit_iff             — editing the objects is editing the document
                                   when there is nothing else
      update_document            — what is in the document afterwards
-/
import Cascade.Proofs.ReplacedDocument

namespace Cascade

open Cascade.Text
open Cascade.Json

/-- Whether a value is an object. -/
def Value.isObject : Value → Bool
  | .object _ => true
  | _ => false

/-- The members of an object that are objects. -/
def Entries.objects (members : List (Text × Value)) : List (Text × Value) :=
  members.filter fun m => m.2.isObject

namespace Entries

variable {κ α β : Type} [DecidableEq κ]

/-- Changing all values alike may be done before an entry is replaced or after. -/
theorem insert_map_snd (f : α → β) (k : κ) (v : α) (es : List (κ × α)) :
    insert k (f v) (es.map fun e => (e.1, f e.2)) =
      (insert k v es).map fun e => (e.1, f e.2) := by
  induction es with
  | nil => rfl
  | cons e es ih =>
    simp only [List.map_cons, insert, ih]
    split <;> rfl

/-- Changing all values alike may be done before an entry is taken away or after. -/
theorem erase_map_snd (f : α → β) (k : κ) (es : List (κ × α)) :
    erase k (es.map fun e => (e.1, f e.2)) = (erase k es).map fun e => (e.1, f e.2) := by
  unfold erase
  rw [List.filter_map]
  rfl

end Entries

namespace Groups

/-! ## §1. The groups of a document. -/

/-- The group a member of a document is, if it is an object. -/
def memberGroup? (m : Text × Value) : Option (Text × Mapping Value) :=
  match m with
  | (name, .object g) => some (name, Table.ofList g)
  | _ => none

/-- The objects among members are the groups among them, as values. -/
theorem map_memberGroup? {D : List (Text × Value)} (h : ∀ m ∈ D, m.2.Storable) :
    (D.filterMap memberGroup?).map (fun e => (e.1, groupValue e.2)) = Entries.objects D := by
  induction D with
  | nil => rfl
  | cons m D ih =>
    rw [List.forall_mem_cons] at h
    obtain ⟨name, v⟩ := m
    unfold Entries.objects at ih ⊢
    cases v with
    | object g =>
      cases h.1 with
      | object distinct _ _ =>
        rw [List.filterMap_cons_some (f := memberGroup?) rfl, List.filter_cons_of_pos rfl,
          List.map_cons, ih h.2, groupValue, Table.entries_ofList g distinct]
    | _ => exact ih h.2

/-- **THE GROUPS OF A DOCUMENT ARE ITS OBJECTS.** -/
theorem members_ofMembers {D : List (Text × Value)} (h : Value.Storable (.object D)) :
    (ofMembers D).members = Entries.objects D := by
  cases h with
  | object distinct names each =>
    have hmembers := map_memberGroup? each
    -- the names are those of members, so they are distinct as well
    have hkeys : ((D.filterMap memberGroup?).map Prod.fst).Nodup := by
      have hnodup : ((Entries.objects D).map Prod.fst).Nodup := Entries.nodup_keys_filter distinct
      rwa [← hmembers, List.map_map] at hnodup
    have hentries : (ofMembers D).entries = D.filterMap memberGroup? :=
      Table.entries_ofList _ hkeys
    rw [members, hentries, hmembers]

/-- A group that is put among others is a member among theirs. -/
theorem members_insert (gs : Groups) (group : Text) (g : Mapping Value) :
    members (gs.insert group g) = Entries.insert group (groupValue g) gs.members :=
  (Entries.insert_map_snd groupValue group g gs.entries).symm

/-- A group that is taken away is no member any more. -/
theorem members_erase (gs : Groups) (group : Text) :
    members (gs.erase group) = Entries.erase group gs.members :=
  (Entries.erase_map_snd groupValue group gs.entries).symm

end Groups

namespace Preferences

open Groups

/-! ## §2. Updates. -/

/-- A change of one key of a group. -/
inductive Update
  | set (group key : Text) (v : Value)
  | remove (group key : Text)

namespace Update

/-- The group of an update. -/
def group : Update → Text
  | .set group _ _ => group
  | .remove group _ => group

/-- An update that sets only what is read again as it is written, in a group that is new or an
object. -/
def Fits (D : List (Text × Value)) : Update → Prop
  | .set group key v => (Unpaired group ∧ Unpaired key ∧ v.Storable) ∧
    ∀ v ∈ Entries.get? group D, v.isObject = true
  | .remove _ _ => True

/-- The groups after an update; none when there is nothing to remove. -/
def edited? (gs : Groups) : Update → Option Groups
  | .set group key v => some (gs.set group key v)
  | .remove group key => gs.remove? group key

/-- An update that was made in the document at a path: the value was set, or the key was there
and was removed. -/
def Made (p : Path) (w w' : World) : Update → Prop
  | .set group key v => ∃ s, (Preferences.document p).set w group key v = (.ok (), w', s)
  | .remove group key => ∃ s, (Preferences.document p).remove w group key = (.ok true, w', s)

/-- The members of the group of a name, if there is an object of this name. -/
def groupMembers (group : Text) (D : List (Text × Value)) : List (Text × Value) :=
  match Entries.get? group D with
  | some (.object g) => g
  | _ => []

/-- The members of an object after an update: one member of the group is replaced or taken away,
and the group goes with its last one. -/
def edit (D : List (Text × Value)) : Update → List (Text × Value)
  | .set group key v =>
    Entries.insert group (.object (Entries.insert key v (groupMembers group D))) D
  | .remove group key =>
    let rest := Entries.erase key (groupMembers group D)
    if rest = [] then Entries.erase group D else Entries.insert group (.object rest) D

variable {u : Update} {D : List (Text × Value)}

/-- An update leaves every other member. -/
theorem get?_edit (u : Update) (D : List (Text × Value)) {name : Text} (h : name ≠ u.group) :
    Entries.get? name (u.edit D) = Entries.get? name D := by
  have herase (group : Text) (hg : name ≠ group) :
      Entries.get? name (Entries.erase group D) = Entries.get? name D := by
    have hfilter : Entries.get? name (D.filter fun e => decide (e.1 ≠ group)) =
        if decide (name ≠ group) then Entries.get? name D else none :=
      Entries.get?_filter_key (p := fun k => decide (k ≠ group))
    rw [Entries.erase, hfilter, if_pos (decide_eq_true hg)]
  cases u with
  | set group key v =>
    rw [edit, Entries.get?_insert]
    exact if_neg (Ne.symm h)
  | remove group key =>
    simp only [edit]
    split
    · exact herase group h
    · rw [Entries.get?_insert]
      exact if_neg (Ne.symm h)

/-- An update leaves names distinct. -/
theorem nodup_edit (u : Update) (h : (D.map Prod.fst).Nodup) :
    ((u.edit D).map Prod.fst).Nodup := by
  cases u with
  | set group key v => exact Entries.nodup_keys_insert h
  | remove group key =>
    simp only [edit]
    split
    · exact Entries.nodup_keys_filter h
    · exact Entries.nodup_keys_insert h

/-- The members of a group among groups. -/
theorem groupMembers_members (gs : Groups) (group : Text) :
    groupMembers group gs.members = ((gs.get? group).getD .empty).entries := by
  unfold groupMembers
  rw [get?_members]
  cases gs.get? group <;> rfl

/-- **SETTING A KEY EDITS THE GROUPS.** -/
theorem members_set (gs : Groups) (group key : Text) (v : Value) :
    members (gs.set group key v) = (Update.set group key v).edit gs.members := by
  rw [edit, groupMembers_members]
  exact members_insert gs group _

/-- **REMOVING A KEY EDITS THE GROUPS.** -/
theorem members_remove? {gs gs' : Groups} {group key : Text}
    (h : gs.remove? group key = some gs') :
    gs'.members = (Update.remove group key).edit gs.members := by
  rw [edit, groupMembers_members]
  unfold Groups.remove? at h
  cases hg : gs.get? group with
  | none =>
    rw [hg] at h
    cases h
  | some g =>
    rw [hg] at h
    simp only at h
    split at h
    · cases h
      have hempty : (g.erase key).size = 0 ↔ Entries.erase key g.entries = [] :=
        List.length_eq_zero_iff
      simp only [Option.getD_some]
      by_cases hs : (g.erase key).size = 0
      · rw [if_pos hs, if_pos (hempty.1 hs), members_erase]
      · rw [if_neg hs, if_neg (mt hempty.2 hs), members_insert]
        rfl
    · cases h

end Update

/-! ## §3. The document afterwards. -/

/-- The value in the document at a path. -/
def Contains (w : World) (p : Path) (v : Value) : Prop :=
  ∃ content text, w.read p = .ok content ∧ Utf8.decode content = .ok text ∧
    read (unifyLineEnds text) = .ok v

section

variable {w w' : World} {p : Path} {D : List (Text × Value)} {u : Update}

/-- The value in a document can be kept. -/
theorem Contains.storable {v : Value} (h : Contains w p v) : v.Storable := by
  obtain ⟨content, text, -, hdecode, hread⟩ := h
  exact storable_of_read hdecode hread

/-- The groups that are read are the objects of the document. -/
theorem Contains.readDocument (h : Contains w p (.object D)) :
    ∃ gs, Preferences.readDocument w p = .ok gs ∧ gs.members = Entries.objects D := by
  have hmembers := members_ofMembers h.storable
  obtain ⟨content, text, hbytes, hdecode, hread⟩ := h
  refine ⟨Groups.ofMembers D, ?_, hmembers⟩
  rw [readDocument_of_read hbytes]
  exact decode_of_object hdecode (exists_not_isBlank_of_read hread) hread

/-- **THE UPDATES THAT ARE MADE**: those that change the groups that are read, when the changed
groups are written. -/
theorem Update.made_iff {gs : Groups} (hr : Preferences.readDocument w p = .ok gs) :
    u.Made p w w' ↔ ∃ gs', u.edited? gs = some gs' ∧ writeDocument w p gs' = (.ok (), w') := by
  have hgroups : (Preferences.document p).groups w = .ok gs := hr
  cases u with
  | set group key v =>
    simp only [Made, Preferences.set, hgroups, store, edited?, Option.some.injEq, exists_eq_left']
    constructor
    · rintro ⟨s, hset⟩
      have hanswer := congrArg Prod.fst hset
      have hworld := congrArg (fun r => r.2.1) hset
      exact Prod.ext hanswer hworld
    · intro hw
      exact ⟨.document p, by rw [hw]⟩
  | remove group key =>
    simp only [Made, Preferences.remove, hgroups, edited?]
    cases gs.remove? group key with
    | none =>
      constructor
      · rintro ⟨s, hremove⟩
        cases hremove
      · rintro ⟨gs', hnone, -⟩
        cases hnone
    | some gs' =>
      simp only [store, Option.some.injEq, exists_eq_left']
      cases writeDocument w p gs' with
      | mk answer after =>
        constructor
        · rintro ⟨s, hremove⟩
          cases answer with
          | error failure => cases hremove
          | ok _ =>
            cases hremove
            rfl
        · rintro ⟨⟩
          exact ⟨.document p, rfl⟩

/-- An update that is made writes the edited objects. -/
theorem Update.exists_written (hD : Contains w p (.object D)) (hu : u.Fits D)
    (hm : u.Made p w w') :
    ∃ gs : Groups, gs.Storable ∧ writeDocument w p gs = (.ok (), w') ∧
      gs.members = u.edit (Entries.objects D) := by
  obtain ⟨gs, hread, hobjects⟩ := hD.readDocument
  have hstorable := storable_of_readDocument hread
  obtain ⟨gs', hgs', hwrite⟩ := (Update.made_iff hread).1 hm
  rw [← hobjects]
  refine ⟨gs', ?_, hwrite, ?_⟩
  · cases u with
    | set group key v =>
      obtain ⟨⟨hgroup, hkey, hv⟩, -⟩ := hu
      cases hgs'
      exact hstorable.set hgroup hkey hv
    | remove group key => exact hstorable.remove? hgs'
  · cases u with
    | set group key v =>
      cases hgs'
      exact Update.members_set gs group key v
    | remove group key => exact Update.members_remove? hgs'

/-- The group of an update that is made is new or an object. -/
theorem Update.isObject_of_made (hD : Contains w p (.object D)) (hu : u.Fits D)
    (hm : u.Made p w w') : ∀ v ∈ Entries.get? u.group D, v.isObject = true := by
  cases u with
  | set group key v => exact hu.2
  | remove group key =>
    obtain ⟨gs, hread, hobjects⟩ := hD.readDocument
    have hgroups : (Preferences.document p).groups w = .ok gs := hread
    obtain ⟨s, hremove⟩ := hm
    simp only [Preferences.remove, hgroups] at hremove
    -- what is removed was in a group, which is an object
    have hgroup : gs.get? group ≠ none := by
      intro hnone
      have hkey : gs.remove? group key = none := by
        rw [Groups.remove?_eq_none_iff, Groups.value?, hnone]
        rfl
      rw [hkey] at hremove
      cases hremove
    obtain ⟨g, hg⟩ := Option.ne_none_iff_exists'.1 hgroup
    have hmember : Entries.get? group (Entries.objects D) = some (groupValue g) := by
      rw [← hobjects, get?_members, hg]
      rfl
    intro v hv
    cases hD.storable with
    | object distinct _ _ =>
      have hin : (group, groupValue g) ∈ D := (List.mem_filter.1
        ((Entries.get?_eq_some_iff (Entries.nodup_keys_filter distinct)).1 hmember)).1
      have hthere : Entries.get? group D = some (groupValue g) :=
        (Entries.get?_eq_some_iff distinct).2 hin
      have hv : Entries.get? group D = some v := hv
      rw [hthere] at hv
      cases hv
      rfl

/-- **EDITING THE OBJECTS IS EDITING THE DOCUMENT** when there is nothing else in it. -/
theorem alike_edit_iff (hD : (D.map Prod.fst).Nodup)
    (hg : ∀ v ∈ Entries.get? u.group D, v.isObject = true) :
    Value.Alike (.object (u.edit (Entries.objects D))) (.object (u.edit D)) ↔
      ∀ m ∈ D, m.2.isObject = true := by
  have hobjects : ((Entries.objects D).map Prod.fst).Nodup := Entries.nodup_keys_filter hD
  constructor
  · intro h m hm
    by_contra hno
    have hthere : Entries.get? m.1 D = some m.2 := (Entries.get?_eq_some_iff hD).2 hm
    have hname : m.1 ≠ u.group := by
      intro he
      exact hno (hg m.2 (he ▸ hthere))
    -- the member is not among the objects, so it is gone
    have hgone : Entries.get? m.1 (Entries.objects D) = none := by
      refine Option.eq_none_iff_forall_ne_some.2 fun v hv => ?_
      obtain ⟨hin, hv⟩ := List.mem_filter.1 ((Entries.get?_eq_some_iff hobjects).1 hv)
      rw [(Entries.get?_eq_some_iff hD).2 hin] at hthere
      cases hthere
      exact hno hv
    have hlook := (Value.alike_object_iff (Update.nodup_edit u hobjects)
      (Update.nodup_edit u hD)).1 h m.1
    rw [Update.get?_edit u _ hname, Update.get?_edit u _ hname, hgone, hthere] at hlook
    cases hlook
  · intro h
    have hall : Entries.objects D = D := List.filter_eq_self.2 h
    rw [hall]
    rfl

/-- **WHAT AN UPDATE LEAVES OF A DOCUMENT.**  After every update that is made the document is
what the update makes of its objects: one member of one group is replaced or taken away, and
every other object is still there with its value.  It is what the update makes of the whole
document just when the document had no other members: these are gone. -/
theorem update_document (hD : Contains w p (.object D)) (hu : u.Fits D) (hm : u.Made p w w') :
    ∃ D', Contains w' p (.object D') ∧
      Value.Alike (.object D') (.object (u.edit (Entries.objects D))) ∧
      (Value.Alike (.object D') (.object (u.edit D)) ↔ ∀ m ∈ D, m.2.isObject = true) := by
  have hg := Update.isObject_of_made hD hu hm
  have hdistinct : (D.map Prod.fst).Nodup := by
    cases hD.storable with
    | object distinct _ _ => exact distinct
  obtain ⟨gs, hstorable, hwrite, hmembers⟩ := Update.exists_written hD hu hm
  obtain ⟨content, _, hbytes, _, _⟩ := hD
  obtain ⟨content', hencode, hbytes'⟩ := read_of_writeDocument hbytes hwrite
  obtain ⟨t, content'', ht, hcontent, hdecode, hunify, -, hread⟩ := exists_content hstorable
  have hsame : content'' = content' := by
    unfold encode at hencode
    rw [ht] at hencode
    simp only [hcontent] at hencode
    cases hencode
    rfl
  have halike : Value.Alike (inNameOrder gs.toValue) (.object (u.edit (Entries.objects D))) := by
    rw [← hmembers, ← toValue_eq]
    exact Value.Storable.alike hstorable
  rw [toValue_eq, inNameOrder_object] at hread halike
  refine ⟨_, ⟨content', t, hbytes', hsame ▸ hdecode, ?_⟩, halike, ?_⟩
  · rw [hunify, hread]
  · rw [← alike_edit_iff hdistinct hg]
    constructor
    · intro h
      exact halike.symm.trans h
    · intro h
      exact halike.trans h

end

/-- A document with a group and a member that is none. -/
def mixedText : Text := "\x7b\"theme\": \"dark\", \"env\": \x7b\"a\": 1\x7d\x7d"

/-- The bytes of this document. -/
def mixedBytes : Bytes := mixedText.map fun c => UInt8.ofNat c.toNat

/-- The world this document is in. -/
def mixedWorld : World where
  files := ⟨Table.ofList [(["p.json"], .file mixedBytes 0)]⟩
  cwd := ⟨[], 0⟩
  environ := .empty
  users := .none
  now := 100

/-- The members of this document. -/
def mixedMembers : List (Text × Value) :=
  [("theme", .str "dark"), ("env", .object [("a", .int 1)])]

/-- Setting a key of its group costs the document the other member. -/
theorem update_document_mixedWorld :
    ∃ w' D', (Update.set "env" "k" (.str "v")).Made ⟨.relative, ["p.json"]⟩ mixedWorld w' ∧
      Contains w' ⟨.relative, ["p.json"]⟩ (.object D') ∧
      Value.Alike (.object D') (.object [("env", .object [("a", .int 1), ("k", .str "v")])]) ∧
      ¬ Value.Alike (.object D') (.object [("theme", .str "dark"),
        ("env", .object [("a", .int 1), ("k", .str "v")])]) := by
  have hbytes : mixedWorld.read ⟨.relative, ["p.json"]⟩ = .ok mixedBytes := by decide +kernel
  have hdecode : Utf8.decode mixedBytes = .ok mixedText := by decide +kernel
  have hread : read (unifyLineEnds mixedText) = .ok (.object mixedMembers) := by
    decide +kernel
  have hdocument : Contains mixedWorld ⟨.relative, ["p.json"]⟩ (.object mixedMembers) :=
    ⟨_, _, hbytes, hdecode, hread⟩
  have hgroup : Entries.get? ("env" : Text) mixedMembers = some (.object [("a", .int 1)]) := by
    decide +kernel
  have hfits : (Update.set "env" "k" (.str "v")).Fits mixedMembers := by
    refine ⟨⟨by decide, by decide, .str (by decide)⟩, ?_⟩
    rw [hgroup]
    rintro v ⟨⟩
    rfl
  -- a change is told by its parts
  have parts {change : Except Failure Unit × World × Preferences} (h : change.1 = .ok ()) :
      change = (.ok (), change.2.1, change.2.2) := Prod.ext h rfl
  have hset : ((Preferences.document ⟨.relative, ["p.json"]⟩).set mixedWorld "env" "k"
      (.str "v")).1 = .ok () := by decide +kernel
  have hmade : (Update.set "env" "k" (.str "v")).Made ⟨.relative, ["p.json"]⟩ mixedWorld
      ((Preferences.document ⟨.relative, ["p.json"]⟩).set mixedWorld "env" "k" (.str "v")).2.1 :=
    ⟨_, parts hset⟩
  have hobjects : (Update.set "env" "k" (.str "v")).edit (Entries.objects mixedMembers) =
      ([("env", .object [("a", .int 1), ("k", .str "v")])] : List (Text × Value)) := by
    decide +kernel
  have hedit : (Update.set "env" "k" (.str "v")).edit mixedMembers =
      ([("theme", .str "dark"), ("env", .object [("a", .int 1), ("k", .str "v")])] :
        List (Text × Value)) := by decide +kernel
  obtain ⟨D', hcontains, halike, hwhole⟩ := update_document hdocument hfits hmade
  rw [hobjects] at halike
  rw [hedit] at hwhole
  refine ⟨_, D', hmade, hcontains, halike, ?_⟩
  intro h
  exact absurd (hwhole.1 h ("theme", .str "dark") List.mem_cons_self) (by decide)

end Preferences

end Cascade
