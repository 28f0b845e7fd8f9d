/-
  Cascade.Proofs.CanonicalDocument
  ────────────────────────────────
  **A DOCUMENT DOES NOT TELL ITS HISTORY.**

  Every call reads the whole document and writes the whole document, so what
  a history leaves is decided by its last call that wrote.  That call wrote
  groups in the order of their names, and the groups that are read from
  these bytes have these bytes again: the document is that of its groups.
  Groups that are the same up to order then have the same bytes, whatever
  was set and removed before.

  Names with the two halves of a pair side by side are left out: they are
  read as other names than were put in order, which shows in the bytes
  (`not_bytes_of_groups`).  What is read has no such names, so only those of
  the last call count.  Values are the same when they are written alike, so
  zeros of different signs are two values.

      encode_of_alike       — alike groups have the same bytes
      Update.Made.after     — after an update that was made the document is that
                              of its groups
      made_of_settled       — every update of a settled document is made
      bytes_of_groups       — the bytes of a document depend on its groups only
-/
import Cascade.Proofs.JoinedPairs
import Cascade.Proofs.UnrelatedData

namespace Cascade

open Cascade.Text
open Cascade.Json

namespace Groups

variable {gs : Groups} {group key : Text}

/-! ## §1. Groups after two changes. -/

/-- The groups after a value is set: one of them has another key. -/
theorem get?_set (gs : Groups) (group key group' : Text) (v : Value) :
    (gs.set group key v).get? group' =
      if group = group' then some (((gs.get? group).getD .empty).insert key v)
      else gs.get? group' := Table.get?_insert ..

/-- Two groups of keys have the same keys with the same values, in whatever order. -/
def SameKeys (g g' : Mapping Value) : Prop := ∀ key, g.get? key = g'.get? key

/-- A group that may be missing has its own keys. -/
theorem rel_sameKeys_refl (o : Option (Mapping Value)) : Option.Rel SameKeys o o := by
  cases o with
  | none => exact .none
  | some g => exact .some fun _ => rfl

/-- Groups are alike when each of them has the same keys with the same values. -/
theorem alike_of_get? {hs : Groups}
    (h : ∀ group, Option.Rel SameKeys (gs.get? group) (hs.get? group)) : gs.Alike hs := by
  refine alike_iff.2 fun group => ?_
  have hgroup := h group
  generalize gs.get? group = a at hgroup
  generalize hs.get? group = b at hgroup
  cases hgroup with
  | none => exact .none
  | some hkeys => exact .some (groupAlike_iff.2 fun key => by rw [hkeys key])

/-- **VALUES OF DIFFERENT KEYS MAY BE SET IN EITHER ORDER.** -/
theorem alike_set_set (gs : Groups) {group' key' : Text} {v v' : Value}
    (h : ¬ (group = group' ∧ key = key')) :
    ((gs.set group key v).set group' key' v').Alike
      ((gs.set group' key' v').set group key v) := by
  refine alike_of_get? fun name => ?_
  simp only [get?_set]
  by_cases hg : group = group'
  · subst hg
    have hkey : key ≠ key' := fun hk => h ⟨rfl, hk⟩
    simp only [if_true, Option.getD_some]
    by_cases hn : group = name
    · simp only [if_pos hn]
      refine .some fun k => ?_
      simp only [Table.get?_insert]
      by_cases hk : key = k
      · rw [if_neg fun hk' => hkey (hk.trans hk'.symm), if_pos hk, if_pos hk]
      · rw [if_neg hk, if_neg hk]
    · simp only [if_neg hn]
      exact rel_sameKeys_refl _
  · simp only [if_neg hg, if_neg (Ne.symm hg)]
    by_cases hn : group = name
    · have hn' : ¬ group' = name := fun he => hg (hn.trans he.symm)
      simp only [if_pos hn, if_neg hn']
      exact rel_sameKeys_refl _
    · simp only [if_neg hn]
      exact rel_sameKeys_refl _

/-- **A NEW KEY THAT IS REMOVED AGAIN LEAVES NO TRACE**, when its group is there and not empty. -/
theorem exists_remove?_set {g : Mapping Value} (hg : gs.get? group = some g) (hsize : g.size ≠ 0)
    (hkey : g.get? key = none) (v : Value) :
    ∃ gs', (gs.set group key v).remove? group key = some gs' ∧ gs'.Alike gs := by
  -- without the key the group has the keys it had
  have hkeys (k : Text) : ((g.insert key v).erase key).get? k = g.get? k := by
    rw [Table.get?_erase, Table.get?_insert]
    by_cases hk : key = k
    · rw [if_pos hk, ← hk, hkey]
    · rw [if_neg hk, if_neg hk]
  have hrest : ((g.insert key v).erase key).size ≠ 0 := by
    rw [Ne, Table.size_eq_zero_iff] at hsize ⊢
    simpa only [hkeys] using hsize
  have hset : (gs.set group key v).get? group = some (g.insert key v) := by
    rw [get?_set, if_pos rfl, hg, Option.getD_some]
  have hthere : (g.insert key v).contains key = true := by
    rw [Table.contains, Table.get?_insert, if_pos rfl, Option.isSome_some]
  refine ⟨(gs.set group key v).insert group ((g.insert key v).erase key), ?_, ?_⟩
  · unfold Groups.remove?
    rw [hset]
    simp only [hthere, if_true, if_neg hrest]
  · refine alike_of_get? fun name => ?_
    rw [Table.get?_insert, get?_set]
    by_cases hn : group = name
    · rw [if_pos hn, ← hn, hg]
      exact .some hkeys
    · rw [if_neg hn, if_neg hn]
      exact rel_sameKeys_refl _

end Groups

namespace Preferences

open Groups

section

variable {gs hs : Groups} {p q : Path} {group key : Text} {v : Value} {content : Bytes}

/-! ## §2. The bytes of groups. -/

/-- Groups with one document have the same bytes, wherever they are written. -/
theorem encode_of_document (hd : Json.document hs.toValue = Json.document gs.toValue)
    (h : encode p gs = .ok content) : encode q hs = .ok content := by
  unfold encode at h ⊢
  rw [hd]
  cases ht : Json.document gs.toValue with
  | error fault =>
    rw [ht] at h
    cases h
  | ok t =>
    rw [ht] at h
    simp only at h ⊢
    cases hb : Utf8.encode t with
    | error fault =>
      rw [hb] at h
      cases h
    | ok bytes =>
      rw [hb] at h
      exact h

/-- **ALIKE GROUPS HAVE THE SAME BYTES.** -/
theorem encode_of_alike (ha : gs.Alike hs) (h : encode p gs = .ok content) :
    encode q hs = .ok content := by
  refine encode_of_document ?_ h
  have horder : inNameOrder gs.toValue = inNameOrder hs.toValue := ha
  rw [Json.document, Json.document, horder]

/-- An object has the pairs in a new member joined, and those in the others. -/
theorem joinPairs_insert (name : Text) (v : Value) (members : List (Text × Value)) :
    (Value.object (Entries.insert name v members)).joinPairs =
      .object (Entries.insert name v.joinPairs (members.map Value.joinMember)) := by
  rw [Value.joinPairs_object]
  exact congrArg Value.object (Entries.insert_map_snd Value.joinPairs name v members).symm

/-- A value has the same document with its pairs joined, also among groups. -/
theorem document_set_joinPairs (gs : Groups) (group key : Text) (v : Value) :
    Json.document (gs.set group key v.joinPairs).toValue =
      Json.document (gs.set group key v).toValue := by
  rw [← Value.document_joinPairs, ← Value.document_joinPairs (gs.set group key v).toValue]
  simp only [toValue_eq, Update.members_set, Update.edit, joinPairs_insert,
    Value.joinPairs_joinPairs]

/-- A value among groups that are written is written. -/
theorem exists_documentAt_of_value? (h : encode p gs = .ok content)
    (hv : gs.value? group key = some v) :
    ∃ level t, Json.documentAt level (inNameOrder v) = .ok t := by
  obtain ⟨g, hg, hkey⟩ := Option.bind_eq_some_iff.1 hv
  have hgroup : (group, groupValue g) ∈ gs.members :=
    List.mem_map_of_mem ((Table.get?_eq_some_iff gs group g).1 hg)
  unfold encode Json.document at h
  cases ht : Json.documentAt 0 (inNameOrder gs.toValue) with
  | error fault =>
    rw [ht] at h
    cases h
  | ok t =>
    obtain ⟨t', ht'⟩ := Value.exists_documentAt_of_object ht _ hgroup
    exact ⟨2, Value.exists_documentAt_of_object ht' _ ((Table.get?_eq_some_iff g key v).1 hkey)⟩

/-- Groups are written alike when they have the same bytes. -/
theorem writeDocument_congr (h : encode p gs = encode p hs) (w : World) :
    writeDocument w p gs = writeDocument w p hs := by
  unfold writeDocument replaceDocument
  rw [h]

/-- Groups whose bytes are at a path are read there, alike. -/
theorem exists_readDocument_of_encode {w : World} (hgs : gs.Storable)
    (he : encode p gs = .ok content) (hr : w.read p = .ok content) :
    ∃ gs', readDocument w p = .ok gs' ∧ gs'.Alike gs := by
  obtain ⟨content', gs', he', hdecode, -, horder⟩ := decode_encode p hgs
  rw [he] at he'
  cases he'
  exact ⟨gs', (readDocument_of_read hr).trans hdecode, hgs.alike_of_inNameOrder horder⟩

end

/-! ## §3. After an update. -/

namespace Update

variable {w w' : World} {p : Path} {gs gs' : Groups} {u : Update} {content : Bytes}

/-- An update with names that have no two halves of a pair side by side. -/
def WellNamed : Update → Prop
  | .set group key v => Unpaired group ∧ Unpaired key ∧ v.WellNamed
  | .remove _ _ => True

/-- An update with the pairs in its value joined. -/
def joinPairs : Update → Update
  | .set group key v => .set group key v.joinPairs
  | .remove group key => .remove group key

/-- An update that is made reads groups first. -/
theorem Made.exists_read (hm : u.Made p w w') : ∃ gs, readDocument w p = .ok gs := by
  cases hr : readDocument w p with
  | ok gs => exact ⟨gs, rfl⟩
  | error failure =>
    have hgroups : (Preferences.document p).groups w = .error failure := hr
    cases u with
    | set group key v =>
      obtain ⟨s, hset⟩ := hm
      simp only [Preferences.set, hgroups] at hset
      cases hset
    | remove group key =>
      obtain ⟨s, hremove⟩ := hm
      simp only [Preferences.remove, hgroups] at hremove
      cases hremove

/-- An update that is made leaves one world. -/
theorem Made.unique {w'' : World} (hm : u.Made p w w') (hm' : u.Made p w w'') : w' = w'' := by
  cases u with
  | set group key v =>
    obtain ⟨s, hset⟩ := hm
    obtain ⟨s', hset'⟩ := hm'
    rw [hset] at hset'
    cases hset'
    rfl
  | remove group key =>
    obtain ⟨s, hremove⟩ := hm
    obtain ⟨s', hremove'⟩ := hm'
    rw [hremove] at hremove'
    cases hremove'
    rfl

/-- Updates are made with the pairs in their values joined. -/
theorem made_iff_joinPairs (hr : readDocument w p = .ok gs) : u.Made p w w' ↔
    ∃ gs', u.joinPairs.edited? gs = some gs' ∧ writeDocument w p gs' = (.ok (), w') := by
  rw [made_iff hr]
  cases u with
  | set group key v =>
    have hbytes : encode p (gs.set group key v.joinPairs) = encode p (gs.set group key v) := by
      unfold encode
      rw [document_set_joinPairs]
    simp only [joinPairs, edited?, Option.some.injEq, exists_eq_left', writeDocument_congr hbytes]
  | remove group key => rfl

/-- A value that is set can be kept, once its pairs are joined. -/
theorem Made.storable_value {group key : Text} {v : Value}
    (hm : (Update.set group key v).Made p w w') (hv : v.WellNamed) : v.joinPairs.Storable := by
  obtain ⟨gs, hr⟩ := hm.exists_read
  obtain ⟨_, ⟨⟩, hwrite⟩ := (made_iff hr).1 hm
  obtain ⟨-, -, -, content, -, hencode, -⟩ := site_of_writeDocument hwrite
  have hvalue : (gs.set group key v).value? group key = some v := by
    rw [value?_set, if_pos ⟨rfl, rfl⟩]
  obtain ⟨level, t, ht⟩ := exists_documentAt_of_value? hencode hvalue
  exact hv.storable_of_documentAt ht

/-- An update that is made writes groups that are read again: those that the update makes of
what was read, with the pairs in its value joined. -/
theorem Made.exists_storable (hm : u.Made p w w') (hu : u.WellNamed)
    (hr : readDocument w p = .ok gs) :
    ∃ gs', u.joinPairs.edited? gs = some gs' ∧ gs'.Storable ∧
      writeDocument w p gs' = (.ok (), w') := by
  have hgs := storable_of_readDocument hr
  obtain ⟨gs', hedited, hwrite⟩ := (made_iff_joinPairs hr).1 hm
  refine ⟨gs', hedited, ?_, hwrite⟩
  cases u with
  | set group key v =>
    cases hedited
    exact hgs.set hu.1 hu.2.1 (hm.storable_value hu.2.2)
  | remove group key => exact hgs.remove? hedited

/-- **AFTER AN UPDATE THAT WAS MADE THE DOCUMENT IS THAT OF ITS GROUPS**, which are what the update
made of the groups before. -/
theorem Made.after (hm : u.Made p w w') (hu : u.WellNamed) (hr : readDocument w p = .ok gs)
    (hr' : readDocument w' p = .ok gs') :
    ∃ edited content, u.joinPairs.edited? gs = some edited ∧ gs'.Alike edited ∧
      w'.read p = .ok content ∧ encode p gs' = .ok content := by
  obtain ⟨edited, hedited, hstorable, hwrite⟩ := hm.exists_storable hu hr
  obtain ⟨content, hencode, hread⟩ := read_or_stops_of_writeDocument hwrite
  -- where groups are read the path is not stopped
  have hbytes : w'.read p = .ok content := by
    refine hread.resolve_right fun hstops => ?_
    unfold readDocument at hr'
    rw [hstops] at hr'
    cases hr'
  obtain ⟨gs'', hread'', halike⟩ := exists_readDocument_of_encode hstorable hencode hbytes
  rw [hr'] at hread''
  cases hread''
  exact ⟨edited, content, hedited, halike, hbytes, encode_of_alike halike.symm hencode⟩

/-- Where there is a document, groups are read after an update that was made. -/
theorem Made.exists_read_after (hm : u.Made p w w') (hu : u.WellNamed)
    (hthere : w.read p = .ok content) : ∃ gs', readDocument w' p = .ok gs' := by
  obtain ⟨gs, hr⟩ := hm.exists_read
  obtain ⟨edited, -, hstorable, hwrite⟩ := hm.exists_storable hu hr
  obtain ⟨content', hencode, hbytes⟩ := read_of_writeDocument hthere hwrite
  obtain ⟨gs', hr', -⟩ := exists_readDocument_of_encode hstorable hencode hbytes
  exact ⟨gs', hr'⟩

/-- A document is settled when an update was made and another one is made after it. -/
theorem Made.exists_settled {u' : Update} {w'' : World} {time : Int} (hm : u.Made p w w')
    (hu : u.WellNamed) (hm' : u'.Made p { w' with now := time } w'') :
    ∃ made drafts entry content, IsSite w p made drafts entry ∧
      w' = { w with files := withEntry made drafts entry content w.now } ∧
        Settled w'.files w'.cwd p entry := by
  obtain ⟨gs, hr⟩ := hm.exists_read
  obtain ⟨gs', hr'⟩ := hm'.exists_read
  obtain ⟨-, _, -, -, hbytes, -⟩ := hm.after hu hr hr'
  obtain ⟨_, -, hwrite⟩ := (made_iff hr).1 hm
  obtain ⟨_, -, hwrite'⟩ := (made_iff hr').1 hm'
  obtain ⟨made, drafts, entry, content, hsite, -, hw⟩ := site_of_writeDocument hwrite
  obtain ⟨_, _, _, _, hsite', -, -⟩ := site_of_writeDocument hwrite'
  have hfiles : w'.files = withEntry made drafts entry content w.now := by rw [hw]
  have hcwd : w'.cwd = w.cwd := by rw [hw]
  have hsettled := settled_of_sites hsite hsite' hbytes hfiles hcwd
  exact ⟨made, drafts, entry, content, hsite, hw, hsettled⟩

/-- **EVERY UPDATE OF A SETTLED DOCUMENT IS MADE** when its groups can be kept; the document is
then settled and has their bytes. -/
theorem made_of_settled {entry : Location} (hs : Settled w.files w.cwd p entry)
    (hr : readDocument w p = .ok gs) (hedited : u.joinPairs.edited? gs = some gs')
    (hgs' : gs'.Storable) :
    ∃ w' content, u.Made p w w' ∧ Settled w'.files w'.cwd p entry ∧
      encode p gs' = .ok content ∧ w'.read p = .ok content := by
  obtain ⟨content, -, hencode, -⟩ := decode_encode p hgs'
  obtain ⟨files, hwrite, hsettled, hbytes⟩ := hs.write hencode
  exact ⟨_, content, (made_iff_joinPairs hr).2 ⟨gs', hedited, hwrite⟩, hsettled, hencode, hbytes⟩

end Update

/-! ## §4. Histories. -/

/-- The world after an update was asked for, be it made or not. -/
def Update.next (p : Path) (w : World) : Update → World
  | .set group key v => ((Preferences.document p).set w group key v).2.1
  | .remove group key => ((Preferences.document p).remove w group key).2.1

/-- The world after updates were asked for, each at its time. -/
def history (p : Path) (w : World) (calls : List (Int × Update)) : World :=
  calls.foldl (fun w c => c.2.next p { w with now := c.1 }) w

/-- The last update of a history is asked for in the world that the others left. -/
theorem history_concat (p : Path) (w : World) (before : List (Int × Update)) (time : Int)
    (u : Update) : history p w (before ++ [(time, u)]) =
      u.next p { history p w before with now := time } := by
  rw [history, List.foldl_append]
  rfl

/-- A history that ends with an update that was made, with no two halves of a pair side by side
in its names. -/
def EndsMade (p : Path) (w : World) (calls : List (Int × Update)) : Prop :=
  ∃ before time u, calls = before ++ [(time, u)] ∧ u.WellNamed ∧
    u.Made p { history p w before with now := time } (history p w calls)

section

variable {p q : Path} {v w w₁ : World} {calls : List (Int × Update)} {gs hs : Groups}
  {group key : Text} {value : Value}

/-- After a history that ends with an update that was made the document is that of its groups. -/
theorem EndsMade.exists_bytes (h : EndsMade p w calls)
    (hr : readDocument (history p w calls) p = .ok gs) :
    ∃ content, (history p w calls).read p = .ok content ∧ encode p gs = .ok content := by
  obtain ⟨before, time, u, -, hu, hm⟩ := h
  obtain ⟨gs₀, hr₀⟩ := hm.exists_read
  obtain ⟨-, content, -, -, hbytes, hencode⟩ := hm.after hu hr₀ hr
  exact ⟨content, hbytes, hencode⟩

section

variable {w₂ w₁₂ w₂₁ : World} {time₁ time₂ : Int} {group' key' : Text} {value' : Value}

/-- **WHAT IS SET LAST OF TWO DIFFERENT KEYS DOES NOT SHOW.** -/
theorem exists_bytes_of_two_sets {time₃ time₄ : Int} (hne : ¬ (group = group' ∧ key = key'))
    (hu : (Update.set group key value).WellNamed)
    (hu' : (Update.set group' key' value').WellNamed)
    (hm₁ : (Update.set group key value).Made p { w with now := time₁ } w₁)
    (hm₁₂ : (Update.set group' key' value').Made p { w₁ with now := time₂ } w₁₂)
    (hm₂ : (Update.set group' key' value').Made p { w with now := time₃ } w₂)
    (hm₂₁ : (Update.set group key value).Made p { w₂ with now := time₄ } w₂₁) :
    ∃ content, w₁₂.read p = .ok content ∧ w₂₁.read p = .ok content := by
  obtain ⟨gs, hr⟩ := hm₁.exists_read
  obtain ⟨gs₁, hr₁⟩ := hm₁₂.exists_read
  obtain ⟨gs₂, hr₂⟩ := hm₂₁.exists_read
  obtain ⟨-, _, ⟨⟩, halike₁, hbytes₁, -⟩ := hm₁.after hu hr hr₁
  obtain ⟨-, _, ⟨⟩, halike₂, hbytes₂, -⟩ := hm₂.after hu' hr hr₂
  obtain ⟨gs₁₂, hr₁₂⟩ := hm₁₂.exists_read_after hu' hbytes₁
  obtain ⟨gs₂₁, hr₂₁⟩ := hm₂₁.exists_read_after hu hbytes₂
  obtain ⟨-, content, ⟨⟩, halike₁₂, hbytes₁₂, hencode⟩ := hm₁₂.after hu' hr₁ hr₁₂
  obtain ⟨-, content', ⟨⟩, halike₂₁, hbytes₂₁, hencode'⟩ := hm₂₁.after hu hr₂ hr₂₁
  have halike : gs₁₂.Alike gs₂₁ := calc
    inNameOrder gs₁₂.toValue = _ := halike₁₂
    _ = _ := halike₁.set rfl
    _ = _ := alike_set_set gs hne
    _ = _ := (halike₂.set rfl).symm
    _ = inNameOrder gs₂₁.toValue := halike₂₁.symm
  rw [encode_of_alike halike hencode] at hencode'
  cases hencode'
  exact ⟨content, hbytes₁₂, hbytes₂₁⟩

/-- Two values that can be set one after the other can be set in the other order. -/
theorem exists_sets_turned (hu : (Update.set group key value).WellNamed)
    (hu' : (Update.set group' key' value').WellNamed)
    (hm₁ : (Update.set group key value).Made p { w with now := time₁ } w₁)
    (hm₁₂ : (Update.set group' key' value').Made p { w₁ with now := time₂ } w₁₂) :
    ∃ w₂ w₂₁, (Update.set group' key' value').Made p { w with now := time₁ } w₂ ∧
      (Update.set group key value).Made p { w₂ with now := time₂ } w₂₁ := by
  obtain ⟨gs, hr⟩ := hm₁.exists_read
  obtain ⟨made, drafts, entry, content₁, hsite, hw₁, hsettled₁⟩ := hm₁.exists_settled hu hm₁₂
  have hvalue := hm₁.storable_value hu.2.2
  have hgs₂ : (gs.set group' key' value'.joinPairs).Storable :=
    (storable_of_readDocument hr).set hu'.1 hu'.2.1 (hm₁₂.storable_value hu'.2.2)
  obtain ⟨content₂, -, hencode₂, -⟩ := decode_encode p hgs₂
  have hwrite₂ := writeDocument_of_site hsite hencode₂
  have hm₂ := (Update.made_iff_joinPairs (u := .set group' key' value') hr).2 ⟨_, rfl, hwrite₂⟩
  -- the same tree but for what is in the file
  obtain ⟨-, -, -, hroot⟩ := hsite.walks_entry
  have hshape : FileSystem.SameShape w₁.files (withEntry made drafts entry content₂ time₁) := by
    rw [hw₁]
    exact (FileSystem.fileAt_create _ hroot content₁ time₁ time₁).sameShape
      (FileSystem.fileAt_create _ hroot content₂ time₁ time₁) (.refl _)
  have hcwd : w₁.cwd = w.cwd := by rw [hw₁]
  have hsettled₂ := hsettled₁.sameShape hshape
  rw [hcwd] at hsettled₂
  have hbytes₂ : (withEntry made drafts entry content₂ time₁).read w.cwd p = .ok content₂ :=
    hsettled₂.read_of_node? (node?_withEntry hroot content₂ time₁)
  obtain ⟨gs₂, hr₂, -⟩ := exists_readDocument_of_encode (w := { w with
    files := withEntry made drafts entry content₂ time₁
    now := time₂ }) hgs₂ hencode₂ hbytes₂
  obtain ⟨w₂₁, -, hm₂₁, -⟩ := Update.made_of_settled (u := .set group key value) hsettled₂ hr₂ rfl
    ((storable_of_readDocument hr₂).set hu.1 hu.2.1 hvalue)
  exact ⟨_, w₂₁, hm₂, hm₂₁⟩

end

/-- **A NEW KEY THAT IS REMOVED AGAIN LEAVES THE BYTES** that a store had written, and it is
removed. -/
theorem exists_removed {u : Update} {g : Mapping Value} {time time' : Int} (hu : u.WellNamed)
    (hm : u.Made p v w) (hr : readDocument w p = .ok gs) (hg : gs.get? group = some g)
    (hsize : g.size ≠ 0) (hkey : g.get? key = none)
    (hset : (Update.set group key value).WellNamed)
    (hm₁ : (Update.set group key value).Made p { w with now := time } w₁) :
    ∃ w₂ content, (Update.remove group key).Made p { w₁ with now := time' } w₂ ∧
      w.read p = .ok content ∧ w₂.read p = .ok content := by
  obtain ⟨gs₀, hr₀⟩ := hm.exists_read
  obtain ⟨-, content, -, -, hbytes, hencode⟩ := hm.after hu hr₀ hr
  obtain ⟨-, -, entry, -, -, -, hsettled⟩ := hm.exists_settled hu hm₁
  obtain ⟨gs₁, hedited, hgs₁, -⟩ := hm₁.exists_storable hset hr
  obtain ⟨w₁', content₁, hmade, hsettled₁, hencode₁, hbytes₁⟩ :=
    Update.made_of_settled (w := { w with now := time }) hsettled hr hedited hgs₁
  obtain rfl := hm₁.unique hmade
  obtain ⟨gs₂, hr₂, halike₂⟩ := exists_readDocument_of_encode hgs₁ hencode₁ hbytes₁
  -- the groups without the key are those before
  cases hedited
  obtain ⟨gs', hremove, halike'⟩ := exists_remove?_set hg hsize hkey value.joinPairs
  have hrel := halike₂.remove? group key
  rw [hremove] at hrel
  generalize hgs₃ : gs₂.remove? group key = removed? at hrel
  cases hrel with
  | @some gs₃ _ halike₃ =>
    have hstorable₃ := (storable_of_readDocument hr₂).remove? hgs₃
    obtain ⟨w₂, content₃, hremoved, -, hencode₃, hbytes₃⟩ := Update.made_of_settled
      (w := { w₁ with now := time' }) (u := .remove group key) hsettled₁ hr₂ hgs₃ hstorable₃
    rw [encode_of_alike (halike₃.trans halike').symm hencode] at hencode₃
    cases hencode₃
    exact ⟨w₂, content, hremoved, hbytes, hbytes₃⟩

end

/-- **A DOCUMENT DOES NOT TELL ITS HISTORY.**  Two histories that end with an update that was
made, at whatever paths and in whatever worlds, leave the same bytes when they leave the same
groups up to order.  In particular two values of different keys that can be set one after the
other can be set in the other order, and it does not show in which they were.  And a new key of a
group that is there and not empty can be removed again, which leaves the bytes that were there
after a history. -/
theorem bytes_of_groups :
    (∀ {p q : Path} {w v : World} {calls calls' : List (Int × Update)} {gs hs : Groups},
      EndsMade p w calls → EndsMade q v calls' →
      (Preferences.document p).groups (history p w calls) = .ok gs →
      (Preferences.document q).groups (history q v calls') = .ok hs → gs.Alike hs →
      ∃ content, (history p w calls).read p = .ok content ∧
        (history q v calls').read q = .ok content) ∧
    (∀ {p : Path} {w w₁ w₁₂ : World} {time₁ time₂ : Int} {group key group' key' : Text}
      {value value' : Value}, ¬ (group = group' ∧ key = key') →
      (Update.set group key value).WellNamed → (Update.set group' key' value').WellNamed →
      (Update.set group key value).Made p { w with now := time₁ } w₁ →
      (Update.set group' key' value').Made p { w₁ with now := time₂ } w₁₂ →
      (∃ w₂ w₂₁, (Update.set group' key' value').Made p { w with now := time₁ } w₂ ∧
        (Update.set group key value).Made p { w₂ with now := time₂ } w₂₁) ∧
      ∀ {w₂ w₂₁ : World} {time₃ time₄ : Int},
        (Update.set group' key' value').Made p { w with now := time₃ } w₂ →
        (Update.set group key value).Made p { w₂ with now := time₄ } w₂₁ →
        ∃ content, w₁₂.read p = .ok content ∧ w₂₁.read p = .ok content) ∧
    ∀ {p : Path} {w w₁ : World} {calls : List (Int × Update)} {gs : Groups} {group key : Text}
      {g : Mapping Value} {value : Value} {time time' : Int}, EndsMade p w calls →
      (Preferences.document p).groups (history p w calls) = .ok gs →
      gs.get? group = some g → g.size ≠ 0 → g.get? key = none →
      (Update.set group key value).WellNamed →
      (Update.set group key value).Made p { history p w calls with now := time } w₁ →
      ∃ w₂ content, (Update.remove group key).Made p { w₁ with now := time' } w₂ ∧
        (history p w calls).read p = .ok content ∧ w₂.read p = .ok content := by
  refine ⟨?_, ?_, ?_⟩
  · intro p q w v calls calls' gs hs hends hends' hr hr' halike
    obtain ⟨content, hbytes, hencode⟩ := hends.exists_bytes hr
    obtain ⟨content', hbytes', hencode'⟩ := hends'.exists_bytes hr'
    rw [encode_of_alike halike hencode] at hencode'
    cases hencode'
    exact ⟨content, hbytes, hbytes'⟩
  · intro p w w₁ w₁₂ _ _ group key group' key' value value' hne hu hu' hm₁ hm₁₂
    refine ⟨exists_sets_turned hu hu' hm₁ hm₁₂, ?_⟩
    intro w₂ w₂₁ _ _ hm₂ hm₂₁
    exact exists_bytes_of_two_sets hne hu hu' hm₁ hm₁₂ hm₂ hm₂₁
  · intro p w w₁ calls gs group key g value _ _ hends hr hg hsize hkey hset hm
    obtain ⟨_, _, u, -, hu, hlast⟩ := hends
    exact exists_removed hu hlast hr hg hsize hkey hset hm

/-- A value that is set at the end of a history is made when it is answered so. -/
theorem made_set_last {p : Path} {w : World} {group key : Text} {value : Value}
    (before : List (Int × Update)) (time : Int)
    (h : ((Preferences.document p).set { history p w before with now := time } group key
      value).1 = .ok ()) :
    (Update.set group key value).Made p { history p w before with now := time }
      (history p w (before ++ [(time, .set group key value)])) := by
  rw [history_concat]
  exact ⟨_, Prod.ext h rfl⟩

/-- The path of the stored document. -/
def storedPath : Path := ⟨.relative, ["d", "p.json"]⟩

/-- The path of another document. -/
def otherPath : Path := ⟨.relative, ["d", "q.json"]⟩

/-- The stored value with its members the other way round. -/
def turnedValue : Value := .object [("x", .str "t"), ("y", .list [.bool true, .null])]

/-- A history of the stored document: a group goes away and a key with it. -/
def storedHistory : List (Int × Update) :=
  [(1, .set "old" "k" (.bool true)), (2, .remove "old" "k"), (3, .remove "env" "a")] ++
    [(4, .set "env" "c" storedValue)]

/-- A history of the other document, which is not there before. -/
def otherHistory : List (Int × Update) :=
  [(9, .set "env" "c" turnedValue)] ++ [(8, .set "env" "b" (.int 1))]

/-- The group that both histories leave. -/
def leftGroup : Mapping Value := Table.ofList [("b", .int 1), ("c", turnedValue)]

/-- One history leaves the bytes of the other; two keys are set in either order; a key that is new
is removed again. -/
theorem bytes_of_groups_storedWorld :
    (∃ content, (history storedPath storedWorld storedHistory).read storedPath = .ok content ∧
      (history otherPath storedWorld otherHistory).read otherPath = .ok content) ∧
    (∃ content,
      (history storedPath storedWorld [(5, .set "env" "k" .null), (6, .set "g" "k" (.int 7))]).read
        storedPath = .ok content ∧
      (history storedPath storedWorld [(7, .set "g" "k" (.int 7)), (8, .set "env" "k" .null)]).read
        storedPath = .ok content) ∧
    ∃ w content, (Update.remove "env" "n").Made storedPath
        { history storedPath storedWorld (storedHistory ++ [(5, .set "env" "n" .null)]) with
          now := 6 } w ∧
      (history storedPath storedWorld storedHistory).read storedPath = .ok content ∧
      w.read storedPath = .ok content := by
  have hvalue : storedValue.WellNamed := by
    refine .object (by decide) (by decide) ?_
    simp only [List.forall_mem_cons]
    exact ⟨.list (by simp [Value.WellNamed.null, Value.WellNamed.bool]), .str _, by simp⟩
  have hstored : EndsMade storedPath storedWorld storedHistory :=
    ⟨_, 4, _, rfl, ⟨by decide, by decide, hvalue⟩, made_set_last _ 4 (by decide +kernel)⟩
  have hother : EndsMade otherPath storedWorld otherHistory :=
    ⟨_, 8, _, rfl, ⟨by decide, by decide, .int 1⟩, made_set_last _ 8 (by decide +kernel)⟩
  have hgroups : (Preferences.document storedPath).groups
      (history storedPath storedWorld storedHistory) = .ok (Table.ofList [("env", leftGroup)]) := by
    decide +kernel
  have hgroups' : (Preferences.document otherPath).groups
      (history otherPath storedWorld otherHistory) = .ok (Table.ofList [("env", leftGroup)]) := by
    decide +kernel
  obtain ⟨hsame, hcommute, hremove⟩ := bytes_of_groups
  refine ⟨hsame hstored hother hgroups hgroups' rfl, ?_, ?_⟩
  · have hfirst : (Update.set "env" "k" .null).Made storedPath { storedWorld with now := 5 }
        (history storedPath storedWorld [(5, .set "env" "k" .null)]) :=
      made_set_last [] 5 (by decide +kernel)
    have hsecond : (Update.set "g" "k" (.int 7)).Made storedPath
        { history storedPath storedWorld [(5, .set "env" "k" .null)] with now := 6 }
        (history storedPath storedWorld [(5, .set "env" "k" .null), (6, .set "g" "k" (.int 7))]) :=
      made_set_last [(5, .set "env" "k" .null)] 6 (by decide +kernel)
    obtain ⟨-, hturned⟩ := hcommute (by decide) ⟨by decide, by decide, .null⟩
      ⟨by decide, by decide, .int 7⟩ hfirst hsecond
    exact hturned (made_set_last [] 7 (by decide +kernel)) (made_set_last _ 8 (by decide +kernel))
  · have hgroup : Table.get? (Table.ofList [(("env" : Text), leftGroup)]) "env" =
        some leftGroup := by decide +kernel
    exact hremove hstored hgroups hgroup (by decide +kernel) (by decide +kernel)
      ⟨by decide, by decide, .null⟩ (made_set_last _ 5 (by decide +kernel))

/-- A name that comes after some halves of pairs and before the characters that pairs stand
for. -/
def lateName : Text := [.ofNat 0xFFFF]

/-- The two halves of a pair. -/
def halvesName : Text := [.ofNat 0xD83D, .ofNat 0xDE00]

/-- The character that this pair stands for. -/
def joinedName : Text := [.ofNat 0x1F600]

/-- A history that sets a value for the late name. -/
def namedBefore : List (Int × Update) := [(1, .set "g" lateName (.int 2))]

/-- The world after this history and a value for another name. -/
def namedWorld (name : Text) : World :=
  history otherPath storedWorld (namedBefore ++ [(2, .set "g" name (.int 1))])

/-- The world after a zero is set. -/
def zeroWorld (negative : Bool) : World :=
  history otherPath storedWorld [(1, .set "g" "k" (.float (.zero negative)))]

/-- **HALVES OF PAIRS SHOW THE HISTORY.**  Two halves side by side are put in order as halves and
read as one character: set last, they leave the groups that the character leaves, and other bytes.
So do a zero and the zero of the other sign, which are equal as numbers. -/
theorem not_bytes_of_groups :
    (¬ ∀ {p q : Path} {w v : World} {before before' : List (Int × Update)} {time time' : Int}
      {u u' : Update} {gs hs : Groups},
      u.Made p { history p w before with now := time } (history p w (before ++ [(time, u)])) →
      u'.Made q { history q v before' with now := time' }
        (history q v (before' ++ [(time', u')])) →
      (Preferences.document p).groups (history p w (before ++ [(time, u)])) = .ok gs →
      (Preferences.document q).groups (history q v (before' ++ [(time', u')])) = .ok hs →
      gs.Alike hs →
      ∃ content, (history p w (before ++ [(time, u)])).read p = .ok content ∧
        (history q v (before' ++ [(time', u')])).read q = .ok content) ∧
    (∀ negative, (Preferences.document otherPath).groups (zeroWorld negative) =
      .ok (Table.ofList [("g", Table.ofList [("k", .float (.zero negative))])])) ∧
    (zeroWorld false).read otherPath ≠ (zeroWorld true).read otherPath := by
  refine ⟨fun h => ?_, by decide +kernel, by decide +kernel⟩
  have hgroups : (Preferences.document otherPath).groups (namedWorld halvesName) =
      .ok (Table.ofList [("g", Table.ofList [(joinedName, .int 1), (lateName, .int 2)])]) := by
    decide +kernel
  have hgroups' : (Preferences.document otherPath).groups (namedWorld joinedName) =
      .ok (Table.ofList [("g", Table.ofList [(lateName, .int 2), (joinedName, .int 1)])]) := by
    decide +kernel
  obtain ⟨content, hbytes, hbytes'⟩ := h (made_set_last namedBefore 2 (by decide +kernel))
    (made_set_last namedBefore 2 (by decide +kernel)) hgroups hgroups' rfl
  have hne : (namedWorld halvesName).read otherPath ≠ (namedWorld joinedName).read otherPath := by
    decide +kernel
  exact hne (hbytes.trans hbytes'.symm)

end Preferences

end Cascade
