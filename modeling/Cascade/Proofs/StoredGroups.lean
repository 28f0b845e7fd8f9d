/-
  Cascade.Proofs.StoredGroups
  ────────────────────────────────
  **GROUPS IN A DOCUMENT.**

  Groups are stored as one JSON document and read back from it.  They come
  back with groups and keys in the order of their names, and with the
  members of their values in this order too, so they are `Alike`: under
  every group and key there are values that are alike.  Whatever is asked of
  alike groups has alike answers, and alike groups stay so when the same is
  set or removed.

      alike_iff            — groups are alike when their look-ups are
      Alike.set            — setting alike values leaves groups alike
      Alike.remove?        — and so does removing a key, when it is there
      decode_encode        — what is written is read back, alike
-/
import Cascade.Proofs.NameOrder
import Cascade.Source.Preferences

namespace Cascade

open Cascade.Text
open Cascade.Json

/-- A table is empty when it has no value for any key. -/
theorem Table.size_eq_zero_iff {κ α : Type} [DecidableEq κ] {t : Table κ α} :
    t.size = 0 ↔ ∀ k, t.get? k = none := by
  rw [Table.size, List.length_eq_zero_iff]
  constructor
  · intro h k
    rw [Table.get?, h]
    rfl
  · intro h
    refine List.eq_nil_iff_forall_not_mem.2 fun e he => ?_
    have hk := h e.1
    rw [Table.get?_eq_none_iff] at hk
    exact hk (List.mem_map_of_mem he)

namespace Groups

/-! ## §1. Groups as a value. -/

/-- A group as a value. -/
def groupValue (g : Mapping Value) : Value := .object g.entries

/-- The members of groups as a value. -/
def members (gs : Groups) : List (Text × Value) := gs.entries.map fun e => (e.1, groupValue e.2)

/-- Groups as a value are their members. -/
theorem toValue_eq (gs : Groups) : gs.toValue = .object gs.members := rfl

/-- The names of groups are distinct. -/
theorem nodup_members (gs : Groups) : (gs.members.map Prod.fst).Nodup := by
  rw [members, List.map_map]
  exact gs.distinct

/-- The member of a group is the group. -/
theorem get?_members (gs : Groups) (group : Text) :
    Entries.get? group gs.members = (gs.get? group).map groupValue :=
  Entries.get?_map_snd (f := fun _ => groupValue)

/-- Groups are found again among their members. -/
theorem ofMembers_members (gs : Groups) : ofMembers gs.members = gs := by
  unfold ofMembers members
  rw [List.filterMap_map]
  refine (congrArg Table.ofList ?_).trans (Table.ofList_entries gs)
  refine (List.filterMap_congr fun e _ => ?_).trans List.filterMap_some
  show some (e.1, Table.ofList e.2.entries) = some e
  rw [Table.ofList_entries]

/-! ## §2. Groups after a change. -/

/-- A key that is set has its value, and the others keep theirs. -/
theorem value?_set (gs : Groups) (group key group' key' : Text) (v : Value) :
    (gs.set group key v).value? group' key' =
      if group = group' ∧ key = key' then some v else gs.value? group' key' := by
  unfold value? set
  rw [Table.get?_insert]
  by_cases hg : group = group'
  · subst hg
    rw [if_pos rfl, Option.bind_some, Table.get?_insert]
    -- a group that is new has no other keys
    cases gs.get? group <;> simp
  · rw [if_neg hg, if_neg fun h => hg h.1]

/-- A key that has no value is not removed. -/
theorem remove?_eq_none_iff {gs : Groups} {group key : Text} :
    gs.remove? group key = none ↔ gs.value? group key = none := by
  unfold remove? value?
  cases gs.get? group with
  | none => simp
  | some g =>
    show (if g.contains key then _ else none) = none ↔ g.get? key = none
    rw [Table.contains]
    cases g.get? key <;> simp

/-- A key that is removed has no value, and the others keep theirs. -/
theorem value?_of_remove? {gs gs' : Groups} {group key : Text}
    (h : gs.remove? group key = some gs') (group' key' : Text) : gs'.value? group' key' =
      if group = group' ∧ key = key' then none else gs.value? group' key' := by
  unfold remove? at h
  cases hg : gs.get? group with
  | none =>
    rw [hg] at h
    cases h
  | some g =>
    rw [hg] at h
    simp only at h
    split at h
    · cases h
      -- in either case the group answers as it does without the key
      have hgroup : ((if (g.erase key).size = 0 then gs.erase group
          else gs.insert group (g.erase key)).get? group').bind (Table.get? · key') =
            if group = group' then (g.erase key).get? key' else gs.value? group' key' := by
        unfold value?
        split
        · rename_i hsize
          rw [Table.get?_erase]
          split
          · rw [Table.size_eq_zero_iff.1 hsize]
            rfl
          · rfl
        · rw [Table.get?_insert]
          split <;> rfl
      rw [value?, hgroup, Table.get?_erase]
      by_cases hname : group = group'
      · subst hname
        simp only [if_true, true_and, value?, hg, Option.bind_some]
      · rw [if_neg hname, if_neg fun h => hname h.1]
    · cases h

/-! ## §3. Alike groups. -/

/-- Two groups of keys are alike when they are as values. -/
def GroupAlike (g h : Mapping Value) : Prop := Value.Alike (groupValue g) (groupValue h)

/-- Groups are alike when they are as values. -/
def Alike (gs hs : Groups) : Prop := Value.Alike gs.toValue hs.toValue

/-- Groups of keys are alike when their look-ups are. -/
theorem groupAlike_iff {g h : Mapping Value} :
    GroupAlike g h ↔ ∀ key, (g.get? key).map inNameOrder = (h.get? key).map inNameOrder :=
  Value.alike_object_iff g.distinct h.distinct

/-- **GROUPS ARE ALIKE WHEN THEIR LOOK-UPS ARE**: there are the same ones, and they are alike. -/
theorem alike_iff {gs hs : Groups} :
    Alike gs hs ↔ ∀ group, Option.Rel GroupAlike (gs.get? group) (hs.get? group) := by
  rw [Alike, toValue_eq, toValue_eq, Value.alike_object_iff gs.nodup_members hs.nodup_members]
  refine forall_congr' fun group => ?_
  rw [get?_members, get?_members]
  cases gs.get? group with
  | none => cases hs.get? group <;> simp
  | some g =>
    cases hs.get? group with
    | none => simp
    | some h => simp [GroupAlike, Value.Alike]

section

variable {g g' : Mapping Value} {key : Text}

/-- Alike groups of keys have the same keys. -/
theorem GroupAlike.contains (h : GroupAlike g g') (key : Text) :
    g.contains key = g'.contains key := by
  have hkey := congrArg Option.isSome (groupAlike_iff.1 h key)
  rwa [Option.isSome_map, Option.isSome_map] at hkey

/-- Alike groups of keys are both empty or both not. -/
theorem GroupAlike.size_eq_zero (h : GroupAlike g g') : g.size = 0 ↔ g'.size = 0 := by
  rw [Table.size_eq_zero_iff, Table.size_eq_zero_iff]
  refine forall_congr' fun key => ?_
  rw [← Option.map_eq_none_iff (f := inNameOrder), groupAlike_iff.1 h key,
    Option.map_eq_none_iff]

/-- Alike groups of keys stay so when alike values are set. -/
theorem GroupAlike.insert (h : GroupAlike g g') {v v' : Value} (hv : Value.Alike v v') :
    GroupAlike (g.insert key v) (g'.insert key v') := by
  refine groupAlike_iff.2 fun key' => ?_
  rw [Table.get?_insert, Table.get?_insert]
  by_cases hk : key = key'
  · rw [if_pos hk, if_pos hk]
    exact congrArg some hv
  · rw [if_neg hk, if_neg hk]
    exact groupAlike_iff.1 h key'

/-- Alike groups of keys stay so when the same key is removed. -/
theorem GroupAlike.erase (h : GroupAlike g g') : GroupAlike (g.erase key) (g'.erase key) := by
  refine groupAlike_iff.2 fun key' => ?_
  rw [Table.get?_erase, Table.get?_erase]
  by_cases hk : key = key'
  · rw [if_pos hk, if_pos hk]
  · rw [if_neg hk, if_neg hk]
    exact groupAlike_iff.1 h key'

end

section

variable {gs hs : Groups} {group key : Text}

/-- Alike groups have alike values. -/
theorem Alike.value? (h : Alike gs hs) (group key : Text) :
    (gs.value? group key).map inNameOrder = (hs.value? group key).map inNameOrder := by
  have hgroup := alike_iff.1 h group
  unfold Groups.value?
  generalize gs.get? group = a at hgroup
  generalize hs.get? group = b at hgroup
  cases hgroup with
  | none => rfl
  | some hg => exact groupAlike_iff.1 hg key

/-- A group put in place of another one leaves the others as they are. -/
theorem Alike.insert (h : Alike gs hs) {g g' : Mapping Value} (hg : GroupAlike g g') :
    Alike (gs.insert group g) (hs.insert group g') := by
  refine alike_iff.2 fun group' => ?_
  rw [Table.get?_insert, Table.get?_insert]
  by_cases hk : group = group'
  · rw [if_pos hk, if_pos hk]
    exact .some hg
  · rw [if_neg hk, if_neg hk]
    exact alike_iff.1 h group'

/-- So does a group that is taken away. -/
theorem Alike.erase (h : Alike gs hs) : Alike (gs.erase group) (hs.erase group) := by
  refine alike_iff.2 fun group' => ?_
  rw [Table.get?_erase, Table.get?_erase]
  by_cases hk : group = group'
  · rw [if_pos hk, if_pos hk]
    exact .none
  · rw [if_neg hk, if_neg hk]
    exact alike_iff.1 h group'

/-- **ALIKE GROUPS STAY SO WHEN ALIKE VALUES ARE SET.** -/
theorem Alike.set (h : Alike gs hs) {v v' : Value} (hv : Value.Alike v v') :
    Alike (gs.set group key v) (hs.set group key v') := by
  have hgroup := alike_iff.1 h group
  unfold Groups.set
  refine h.insert (.insert ?_ hv)
  generalize gs.get? group = a at hgroup
  generalize hs.get? group = b at hgroup
  cases hgroup with
  | none => exact groupAlike_iff.2 fun _ => rfl
  | some hg => exact hg

/-- **ALIKE GROUPS STAY SO WHEN A KEY IS REMOVED**, and it is there in both or in neither. -/
theorem Alike.remove? (h : Alike gs hs) (group key : Text) :
    Option.Rel Alike (gs.remove? group key) (hs.remove? group key) := by
  have hgroup := alike_iff.1 h group
  unfold Groups.remove?
  generalize gs.get? group = a at hgroup
  generalize hs.get? group = b at hgroup
  cases hgroup with
  | none => exact .none
  | @some g g' hg =>
    have hkeys := hg.contains key
    have hempty : (g.erase key).size = 0 ↔ (g'.erase key).size = 0 := hg.erase.size_eq_zero
    simp only [hkeys]
    by_cases hc : g'.contains key = true
    · rw [if_pos hc, if_pos hc]
      -- the group goes away with its last key, in both
      by_cases hs : (g'.erase key).size = 0
      · rw [if_pos hs, if_pos (hempty.2 hs)]
        exact .some h.erase
      · rw [if_neg hs, if_neg fun hz => hs (hempty.1 hz)]
        exact .some (h.insert hg.erase)
    · rw [if_neg hc, if_neg hc]
      exact .none

end

/-! ## §4. Groups that can be kept. -/

/-- Groups that can be written and read: their names and values can. -/
def Storable (gs : Groups) : Prop := gs.toValue.Storable

/-- A group of keys that can be written and read. -/
def GroupStorable (g : Mapping Value) : Prop := (groupValue g).Storable

section

variable {gs : Groups} {group key : Text}

/-- A group of keys can be kept when its keys and values can. -/
theorem groupStorable_iff {g : Mapping Value} :
    GroupStorable g ↔ ∀ key v, g.get? key = some v → Unpaired key ∧ v.Storable := by
  simp only [Table.get?_eq_some_iff]
  constructor
  · intro h key v hv
    cases h with
    | object _ names each => exact ⟨names _ hv, each _ hv⟩
  · intro h
    exact .object g.distinct (fun m hm => (h m.1 m.2 hm).1) fun m hm => (h m.1 m.2 hm).2

/-- Groups can be kept when their names can, and each of them. -/
theorem storable_iff :
    gs.Storable ↔ ∀ group g, gs.get? group = some g → Unpaired group ∧ GroupStorable g := by
  simp only [Table.get?_eq_some_iff]
  constructor
  · intro h group g hg
    have hm : (group, groupValue g) ∈ gs.members := List.mem_map_of_mem hg
    rw [Storable, toValue_eq] at h
    cases h with
    | object _ names each => exact ⟨names _ hm, each _ hm⟩
  · intro h
    refine .object gs.nodup_members (fun m hm => ?_) fun m hm => ?_
    · obtain ⟨e, he, rfl⟩ := List.mem_map.1 hm
      exact (h e.1 e.2 he).1
    · obtain ⟨e, he, rfl⟩ := List.mem_map.1 hm
      exact (h e.1 e.2 he).2

/-- A group of keys that can be kept may be put in place of another one. -/
theorem Storable.insert (h : gs.Storable) {g : Mapping Value} (hgroup : Unpaired group)
    (hg : GroupStorable g) : Storable (gs.insert group g) := by
  refine storable_iff.2 fun group' g' hg' => ?_
  rw [Table.get?_insert] at hg'
  by_cases hk : group = group'
  · rw [if_pos hk] at hg'
    cases hg'
    exact hk ▸ ⟨hgroup, hg⟩
  · rw [if_neg hk] at hg'
    exact storable_iff.1 h group' g' hg'

/-- A value that can be kept may be set. -/
theorem Storable.set (h : gs.Storable) {v : Value} (hgroup : Unpaired group)
    (hkey : Unpaired key) (hv : v.Storable) : Storable (gs.set group key v) := by
  refine h.insert hgroup (groupStorable_iff.2 fun key' v' hv' => ?_)
  rw [Table.get?_insert] at hv'
  by_cases hk : key = key'
  · rw [if_pos hk] at hv'
    cases hv'
    exact hk ▸ ⟨hkey, hv⟩
  · rw [if_neg hk] at hv'
    cases hg : gs.get? group with
    | none =>
      rw [hg] at hv'
      cases hv'
    | some g =>
      rw [hg] at hv'
      exact groupStorable_iff.1 (storable_iff.1 h group g hg).2 key' v' hv'

/-- What is left after a key was removed can be kept. -/
theorem Storable.remove? (h : gs.Storable) {gs' : Groups}
    (hr : gs.remove? group key = some gs') : gs'.Storable := by
  unfold Groups.remove? at hr
  split at hr
  · cases hr
  · rename_i g hg
    obtain ⟨hgroup, hkeys⟩ := storable_iff.1 h group g hg
    by_cases hc : g.contains key = true
    · rw [if_pos hc] at hr
      cases hr
      by_cases hs : (g.erase key).size = 0
      · simp only [hs, if_true]
        refine storable_iff.2 fun group' g' hg' => ?_
        rw [Table.get?_erase] at hg'
        by_cases hk : group = group'
        · rw [if_pos hk] at hg'
          cases hg'
        · rw [if_neg hk] at hg'
          exact storable_iff.1 h group' g' hg'
      · simp only [hs, if_false]
        refine h.insert hgroup (groupStorable_iff.2 fun key' v' hv' => ?_)
        rw [Table.get?_erase] at hv'
        by_cases hk : key = key'
        · rw [if_pos hk] at hv'
          cases hv'
        · rw [if_neg hk] at hv'
          exact groupStorable_iff.1 hkeys key' v' hv'
    · rw [if_neg hc] at hr
      cases hr

end

/-! ## §5. Groups in a document. -/

/-- Members that are groups of keys are the members of groups. -/
theorem exists_members {ms : List (Text × Value)} (hd : (ms.map Prod.fst).Nodup)
    (hg : ∀ m ∈ ms, ∃ g, m.2 = groupValue g) : ∃ gs : Groups, ms = gs.members := by
  have hentries : ∃ es : List (Text × Mapping Value),
      ms = es.map fun e => (e.1, groupValue e.2) := by
    clear hd
    induction ms with
    | nil => exact ⟨[], rfl⟩
    | cons m ms ih =>
      obtain ⟨g, hm⟩ := hg m (by simp)
      obtain ⟨es, rfl⟩ := ih fun m' hm' => hg m' (by simp [hm'])
      exact ⟨(m.1, g) :: es, by rw [List.map_cons, ← hm]⟩
  obtain ⟨es, rfl⟩ := hentries
  rw [List.map_map] at hd
  exact ⟨⟨es, hd⟩, rfl⟩

/-- A value that can be kept and is alike to a group of keys is one. -/
theorem exists_groupValue_of_alike {v : Value} {g : Mapping Value} (hv : v.Storable)
    (h : v.Alike (groupValue g)) : ∃ g₀, v = groupValue g₀ := by
  obtain ⟨ms, rfl⟩ := Value.exists_object (h.trans (inNameOrder_object g.entries))
  cases hv with
  | object distinct _ _ => exact ⟨⟨ms, distinct⟩, rfl⟩

/-- Groups with all names in order are alike to the groups. -/
theorem Storable.alike_of_inNameOrder {gs gs' : Groups} (h : gs.Storable)
    (ho : gs'.toValue = inNameOrder gs.toValue) : gs'.Alike gs := by
  rw [Alike, ho]
  exact Value.Storable.alike h

/-- In groups with all names in order a key has its value in order. -/
theorem value?_of_inNameOrder {gs gs' : Groups} (h : gs'.toValue = inNameOrder gs.toValue)
    (group key : Text) : gs'.value? group key = (gs.value? group key).map inNameOrder := by
  -- an object in order has the members of the object, each in order
  have member {ms ms' : List (Text × Value)} (hd : (ms.map Prod.fst).Nodup)
      (hv : Value.object ms' = inNameOrder (.object ms)) (k : Text) :
      Entries.get? k ms' = (Entries.get? k ms).map inNameOrder := by
    rw [inNameOrder_object, Value.object.injEq] at hv
    rw [hv, Value.get?_inNameOrder hd]
  have hgroup : Entries.get? group gs'.members =
      (Entries.get? group gs.members).map inNameOrder := member gs.nodup_members h group
  rw [get?_members, get?_members] at hgroup
  unfold value?
  cases hg : gs.get? group with
  | none =>
    rw [hg] at hgroup
    rw [Option.map_eq_none_iff.1 hgroup]
    rfl
  | some g =>
    rw [hg] at hgroup
    obtain ⟨g', hg', hv⟩ := Option.map_eq_some_iff.1 hgroup
    rw [hg']
    exact member g.distinct hv key

/-- A value that can be kept and is alike to groups is one of groups. -/
theorem exists_toValue_of_alike {v : Value} {gs : Groups} (hv : v.Storable)
    (h : v.Alike gs.toValue) : ∃ gs₀ : Groups, v = gs₀.toValue := by
  obtain ⟨ms, rfl⟩ := Value.exists_object (h.trans (inNameOrder_object gs.members))
  cases hv with
  | object distinct _ each =>
    have hget := (Value.alike_object_iff distinct gs.nodup_members).1 h
    obtain ⟨gs₀, rfl⟩ := exists_members distinct fun m hm => by
      -- there is a group of the same name, which the member is alike to
      have hm' := hget m.1
      rw [(Entries.get?_eq_some_iff distinct).2 hm, get?_members, Option.map_map] at hm'
      obtain ⟨g, -, hg⟩ := Option.map_eq_some_iff.1 hm'.symm
      exact exists_groupValue_of_alike (each m hm) hg.symm
    exact ⟨gs₀, rfl⟩

end Groups

namespace Preferences

open Groups

/-- The groups in a document are those among the members of its value, unless it is blank. -/
theorem decode_of_object {p : Path} {content : Bytes} {text : Text} {ms : List (Text × Value)}
    (hd : Utf8.decode content = .ok text) (hb : ∃ c ∈ unifyLineEnds text, isBlank c = false)
    (hr : read (unifyLineEnds text) = .ok (.object ms)) :
    decode p content = .ok (ofMembers ms) := by
  have hne : trim (unifyLineEnds text) ≠ [] := by
    intro h
    obtain ⟨c, hc, hblank⟩ := hb
    rw [isBlank_of_trim_eq_nil h c hc] at hblank
    cases hblank
  unfold decode
  rw [hd]
  simp only [if_neg hne, hr]

/-- The groups in the document of groups are these. -/
theorem decode_of_read {p : Path} {content : Bytes} {text : Text} {gs : Groups}
    (hd : Utf8.decode content = .ok text) (hb : ∃ c ∈ unifyLineEnds text, isBlank c = false)
    (hr : read (unifyLineEnds text) = .ok gs.toValue) : decode p content = .ok gs := by
  rw [toValue_eq] at hr
  rw [decode_of_object hd hb hr, ofMembers_members]

/-- **WHAT IS WRITTEN IS READ BACK**: groups that can be kept have a document, and the groups in
it are those with all names in order, and can be kept again. -/
theorem decode_encode (p : Path) {gs : Groups} (h : gs.Storable) :
    ∃ content gs', encode p gs = .ok content ∧ decode p content = .ok gs' ∧
      gs'.Storable ∧ gs'.toValue = inNameOrder gs.toValue := by
  obtain ⟨t, content, ht, hcontent, hdecode, hunify, hblank, hread⟩ := exists_content h
  have hstorable := (storable_inNameOrder h).1
  obtain ⟨gs', hgs'⟩ := exists_toValue_of_alike hstorable h.alike
  refine ⟨content, gs', ?_, ?_, ?_, hgs'.symm⟩
  · unfold encode
    rw [ht]
    simp only [hcontent]
    rfl
  · refine decode_of_read hdecode ?_ ?_
    · rw [hunify]
      exact hblank
    · rw [hunify, hread, hgs']
  · rwa [Storable, ← hgs']

end Preferences

end Cascade
