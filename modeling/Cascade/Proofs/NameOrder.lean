/-
  Cascade.Proofs.NameOrder
  ────────────────────────────────
  **VALUES UP TO THE ORDER OF NAMES.**

  A document has the members of its objects in the order of their names, so
  a value comes back with its members in this order.  Two values are `Alike`
  when they are the same in this order; then they hold the same members
  under the same names, at every depth.

      storable_inNameOrder   — putting a value in order changes it only once
      read_document          — a document is read as its value in order
      alike_object_iff       — objects are alike when their look-ups are
-/
import Mathlib.Data.List.Nodup
import Cascade.Proofs.WrittenJson

namespace Cascade

open Cascade.Text

namespace Json

/-! ## §1. The order of names. -/

/-- Items are put in order one by one. -/
theorem itemsInNameOrder_eq_map (items : List Value) :
    itemsInNameOrder items = items.map inNameOrder := by
  induction items with
  | nil => rfl
  | cons item items ih => rw [itemsInNameOrder, ih, List.map_cons]

/-- A member with its value in order. -/
def memberInNameOrder (m : Text × Value) : Text × Value := (m.1, inNameOrder m.2)

/-- Members are put in order one by one. -/
theorem membersInNameOrder_eq_map (members : List (Text × Value)) :
    membersInNameOrder members = members.map memberInNameOrder := by
  induction members with
  | nil => rfl
  | cons m members ih => rw [membersInNameOrder, ih, List.map_cons, memberInNameOrder]

/-- An object in order has its members sorted and each of them in order. -/
theorem inNameOrder_object (members : List (Text × Value)) :
    inNameOrder (.object members) =
      .object ((sortBy Prod.fst members).map memberInNameOrder) := by
  have hname (m : Text × Value) : (memberInNameOrder m).1 = m.1 := rfl
  rw [inNameOrder, membersInNameOrder_eq_map, sortBy_map hname]

/-- The members of an object in order are in order. -/
theorem sortBy_inNameOrder (members : List (Text × Value)) :
    sortBy Prod.fst ((sortBy Prod.fst members).map memberInNameOrder) =
      (sortBy Prod.fst members).map memberInNameOrder := by
  have hname (m : Text × Value) : (memberInNameOrder m).1 = m.1 := rfl
  rw [sortBy_map hname, sortBy_of_pairwise (pairwise_sortBy Prod.fst members)]

/-- The names of an object in order are as distinct as those of the object. -/
theorem nodup_inNameOrder {members : List (Text × Value)} (h : (members.map Prod.fst).Nodup) :
    (((sortBy Prod.fst members).map memberInNameOrder).map Prod.fst).Nodup := by
  rw [List.map_map]
  exact ((sortBy_perm Prod.fst members).map Prod.fst).nodup_iff.2 h

/-- A storable value in order is storable, and in order. -/
theorem storable_inNameOrder {v : Value} (h : v.Storable) :
    (inNameOrder v).Storable ∧ inNameOrder (inNameOrder v) = inNameOrder v := by
  induction h with
  | null => exact ⟨.null, rfl⟩
  | bool b => exact ⟨.bool b, rfl⟩
  | int short => exact ⟨.int short, rfl⟩
  | float canonical => exact ⟨.float canonical, rfl⟩
  | str unpaired => exact ⟨.str unpaired, rfl⟩
  | @list items _ ih =>
    rw [inNameOrder, itemsInNameOrder_eq_map]
    constructor
    · refine .list fun item hm => ?_
      obtain ⟨item', hm', rfl⟩ := List.mem_map.1 hm
      exact (ih item' hm').1
    · rw [inNameOrder, itemsInNameOrder_eq_map, List.map_map]
      exact congrArg Value.list (List.map_congr_left fun item hm => (ih item hm).2)
  | @object members distinct names _ ih =>
    have hperm := sortBy_perm Prod.fst members
    rw [inNameOrder_object]
    constructor
    · refine .object (nodup_inNameOrder distinct) (fun m hm => ?_) fun m hm => ?_
      · obtain ⟨m', hm', rfl⟩ := List.mem_map.1 hm
        exact names m' (hperm.mem_iff.1 hm')
      · obtain ⟨m', hm', rfl⟩ := List.mem_map.1 hm
        exact (ih m' (hperm.mem_iff.1 hm')).1
    · rw [inNameOrder_object, sortBy_inNameOrder, List.map_map]
      refine congrArg Value.object (List.map_congr_left fun m hm => ?_)
      exact congrArg (Prod.mk m.1) (ih m (hperm.mem_iff.1 hm)).2

/-! ## §2. Documents. -/

/-- A written value begins with a character that is no blank. -/
theorem ReadsBack.exists_not_isBlank {v : Value} {t : Text} (h : ReadsBack v t) :
    ∃ c rest, t = c :: rest ∧ isBlank c = false ∧ c ≠ '\ufeff' := by
  obtain ⟨c, rest, rfl, hspace, -⟩ := h.lead
  have hchar : c ≠ '\n' ∧ c ≠ ' ' := by
    constructor <;> rintro rfl <;> cases hspace
  have hprintable := (h.plain c (by simp)).resolve_left hchar.1
  have hne : c.toNat ≠ 32 := fun hn => hchar.2 (CodePoint.toNat_inj.1 hn)
  refine ⟨c, rest, rfl, ?_, ?_⟩
  · simp only [isBlank, blankRanges, List.any_eq_false, List.forall_mem_cons, Bool.and_eq_true,
      decide_eq_true_eq]
    refine ⟨?_, ?_, ?_, ?_, ?_, ?_, ?_, ?_, ?_, ?_, fun r hr => absurd hr List.not_mem_nil⟩ <;>
      omega
  · rintro rfl
    exact absurd hprintable (by decide)

/-- **A DOCUMENT IS READ AS ITS VALUE**, with the members in the order of their names. -/
theorem read_document {v : Value} (h : v.Storable) :
    ∃ t, document v = .ok t ∧ IsPlain t ∧ (∃ c ∈ t, isBlank c = false) ∧
      read t = .ok (inNameOrder v) := by
  obtain ⟨t, ht, hback⟩ := exists_readsBack (storable_inNameOrder h).1 0
  obtain ⟨c, more, hlead, hblank, hmark⟩ := hback.exists_not_isBlank
  refine ⟨t ++ [.char '\n'], ?_, ?_, ⟨c, by simp [hlead], hblank⟩, ?_⟩
  · rw [document, ht]
    rfl
  · intro d hd
    rcases List.mem_append.1 hd with hd | hd
    · exact hback.plain d hd
    · exact .inl (List.mem_singleton.1 hd)
  · have hend : EndsNumber [.char '\n'] := fun d hd => by
      cases hd
      decide
    have hhead : (t ++ [CodePoint.char '\n']).head? ≠ some (.char '\ufeff') := by
      rw [hlead]
      exact fun h => hmark (Option.some.inj h)
    have hvalue : valueAt (2 * (t ++ [CodePoint.char '\n']).length + 2) (t ++ [.char '\n']) =
        .ok (inNameOrder v, [.char '\n']) := by
      refine hback.reads ?_ hend
      rw [List.length_append]
      omega
    unfold read
    refine (if_neg hhead).trans ?_
    rw [skipSpace_of_startsPlain (hback.startsPlain _), hvalue]
    rfl

/-- A document has bytes, and reading these gives the document again. -/
theorem exists_content {v : Value} (h : v.Storable) :
    ∃ t content, document v = .ok t ∧ Utf8.encode t = .ok content ∧
      Utf8.decode content = .ok t ∧ unifyLineEnds t = t ∧ (∃ c ∈ t, isBlank c = false) ∧
        read t = .ok (inNameOrder v) := by
  obtain ⟨t, ht, hplain, hblank, hread⟩ := read_document h
  have hhalf : ∀ c ∈ t, c.isHalf = false := by
    intro c hc
    cases c with
    | char c => rfl
    | half n =>
      -- halves are not printable
      rcases hplain _ hc with h | h
      · cases h
      · simp only [CodePoint.toNat] at h
        omega
  have hreturn : CodePoint.char '\r' ∉ t := fun hc => absurd (hplain _ hc) (by decide)
  obtain ⟨content, hcontent⟩ := Utf8.exists_encode hhalf
  exact ⟨t, content, ht, hcontent, Utf8.decode_of_encode hcontent,
    unifyLineEnds_of_not_mem hreturn, hblank, hread⟩

end Json

/-! ## §3. Entries in another order. -/

namespace Entries

variable {κ α : Type} [DecidableEq κ] {es fs : List (κ × α)}

/-- With distinct keys it does not matter where an entry stands. -/
theorem get?_eq_of_perm (h : es.Perm fs) (hd : (es.map Prod.fst).Nodup) (k : κ) :
    get? k es = get? k fs := by
  have hd' : (fs.map Prod.fst).Nodup := (h.map Prod.fst).nodup_iff.1 hd
  refine Option.ext fun v => ?_
  rw [get?_eq_some_iff hd, get?_eq_some_iff hd', h.mem_iff]

/-- Entries with distinct keys and the same values are the same up to their order. -/
theorem perm_of_get?_eq (hes : (es.map Prod.fst).Nodup) (hfs : (fs.map Prod.fst).Nodup)
    (h : ∀ k, get? k es = get? k fs) : es.Perm fs := by
  refine (List.perm_ext_iff_of_nodup hes.of_map hfs.of_map).2 fun e => ?_
  rw [← get?_eq_some_iff hes, ← get?_eq_some_iff hfs, h]

end Entries

/-- Elements with distinct keys have one order, wherever they stood before. -/
theorem Text.sortBy_eq_of_perm {α : Type} {key : α → Text} {as bs : List α} (h : as.Perm bs)
    (hd : (as.map key).Nodup) : sortBy key as = sortBy key bs := by
  have hperm : (sortBy key as).Perm (sortBy key bs) :=
    (sortBy_perm key as).trans (h.trans (sortBy_perm key bs).symm)
  refine hperm.eq_of_pairwise (fun a b ha hb hab hba => ?_) (pairwise_sortBy key as)
    (pairwise_sortBy key bs)
  -- neither key comes later, so they are the same, and only one element has it
  have ha' : a ∈ as := (sortBy_perm key as).mem_iff.1 ha
  have hb' : b ∈ as := h.mem_iff.2 ((sortBy_perm key bs).mem_iff.1 hb)
  exact List.inj_on_of_nodup_map hd ha' hb' (Text.le_antisymm hab hba)

/-! ## §4. Alike values. -/

namespace Value

open Json

/-- Two values are alike when they are the same up to the order of members. -/
def Alike (a b : Value) : Prop := inNameOrder a = inNameOrder b

instance : DecidableRel Alike := fun a b =>
  inferInstanceAs (Decidable (inNameOrder a = inNameOrder b))

/-- **INDUCTION ON A VALUE**: what holds of a list when it holds of its items, of an object when
it holds of the values of its members, and of all other values, holds of every value. -/
@[elab_as_elim]
theorem memberInduction {motive : Value → Prop} (null : motive .null)
    (bool : ∀ b, motive (.bool b)) (int : ∀ n, motive (.int n)) (float : ∀ x, motive (.float x))
    (str : ∀ t, motive (.str t)) (bytes : ∀ content, motive (.bytes content))
    (list : ∀ items, (∀ item ∈ items, motive item) → motive (.list items))
    (object : ∀ members, (∀ m ∈ members, motive m.2) → motive (.object members)) (v : Value) :
    motive v := by
  -- of lists it holds of every item, and of members of the value of each
  refine @Value.rec motive (fun items => ∀ item ∈ items, motive item)
    (fun members => ∀ m ∈ members, motive m.2) (fun m => motive m.2)
    null bool int float str list object bytes ?_ ?_ ?_ ?_ ?_ v
  · exact fun _ hm => absurd hm List.not_mem_nil
  · intro item items hitem hitems
    exact List.forall_mem_cons.2 ⟨hitem, hitems⟩
  · exact fun _ hm => absurd hm List.not_mem_nil
  · intro m members hmember hmembers
    exact List.forall_mem_cons.2 ⟨hmember, hmembers⟩
  · exact fun name v hvalue => hvalue

/-- A value can be kept when it can in order. -/
theorem storable_of_inNameOrder (v : Value) (h : (inNameOrder v).Storable) : v.Storable := by
  induction v using memberInduction with
  | list items ih =>
    rw [inNameOrder, itemsInNameOrder_eq_map] at h
    cases h with
    | list each => exact .list fun item hm => ih item hm (each _ (List.mem_map_of_mem hm))
  | object members ih =>
    rw [inNameOrder_object] at h
    have hperm := sortBy_perm Prod.fst members
    cases h with
    | object distinct names each =>
      have hmem {m : Text × Value} (hm : m ∈ members) :
          memberInNameOrder m ∈ (sortBy Prod.fst members).map memberInNameOrder :=
        List.mem_map_of_mem (hperm.mem_iff.2 hm)
      rw [List.map_map] at distinct
      exact .object ((hperm.map Prod.fst).nodup_iff.1 distinct)
        (fun m hm => names (memberInNameOrder m) (hmem hm)) fun m hm => ih m hm (each _ (hmem hm))
  | _ => exact h

/-- A value that is alike to one that can be kept can be kept. -/
theorem Alike.storable {a b : Value} (h : Alike a b) (ha : a.Storable) : b.Storable := by
  have horder := (storable_inNameOrder ha).1
  rw [show inNameOrder a = inNameOrder b from h] at horder
  exact storable_of_inNameOrder b horder

/-- A value is alike to itself in order. -/
theorem Storable.alike {v : Value} (h : v.Storable) : Alike (inNameOrder v) v :=
  (storable_inNameOrder h).2

/-- What is in order an object is one. -/
theorem exists_object {v : Value} {members : List (Text × Value)}
    (h : inNameOrder v = .object members) : ∃ members', v = .object members' := by
  cases v with
  | object members' => exact ⟨members', rfl⟩
  | _ => cases h

/-- Nothing is in order itself only. -/
theorem inNameOrder_eq_null_iff {v : Value} : inNameOrder v = .null ↔ v = .null := by
  cases v <;> simp [inNameOrder]

/-- Values that may be missing are alike when they are the same in order. -/
theorem rel_alike_iff {a b : Option Value} :
    Option.Rel Alike a b ↔ a.map inNameOrder = b.map inNameOrder := by
  cases a <;> cases b <;> simp [Alike]

/-- Lists are alike when their items are, one by one. -/
theorem alike_list_iff {as bs : List Value} :
    Alike (.list as) (.list bs) ↔ List.Forall₂ Alike as bs := by
  have hmap : as.map inNameOrder = bs.map inNameOrder ↔ List.Forall₂ Alike as bs := by
    rw [← List.forall₂_eq_eq_eq, List.forall₂_map_left_iff, List.forall₂_map_right_iff]
    rfl
  rw [← hmap, Alike, inNameOrder, inNameOrder, itemsInNameOrder_eq_map, itemsInNameOrder_eq_map,
    Value.list.injEq]

/-- The members of an object in order are those of the object. -/
theorem get?_inNameOrder {members : List (Text × Value)} (h : (members.map Prod.fst).Nodup)
    (k : Text) :
    Entries.get? k ((sortBy Prod.fst members).map memberInNameOrder) =
      (Entries.get? k members).map inNameOrder := by
  have hget : Entries.get? k (members.map memberInNameOrder) =
      (Entries.get? k members).map inNameOrder :=
    Entries.get?_map_snd (f := fun _ => inNameOrder)
  have hperm := (sortBy_perm Prod.fst members).map memberInNameOrder
  rw [Entries.get?_eq_of_perm hperm (nodup_inNameOrder h), hget]

/-- **OBJECTS ARE ALIKE WHEN THEIR LOOK-UPS ARE**: they have the same names, and under each of
them values that are alike. -/
theorem alike_object_iff {as bs : List (Text × Value)} (ha : (as.map Prod.fst).Nodup)
    (hb : (bs.map Prod.fst).Nodup) :
    Alike (.object as) (.object bs) ↔
      ∀ k, (Entries.get? k as).map inNameOrder = (Entries.get? k bs).map inNameOrder := by
  rw [Alike, inNameOrder_object, inNameOrder_object, Value.object.injEq]
  constructor
  · intro h k
    rw [← get?_inNameOrder ha, ← get?_inNameOrder hb, h]
  · intro h
    have hperm := Entries.perm_of_get?_eq (nodup_inNameOrder ha) (nodup_inNameOrder hb) fun k => by
      rw [get?_inNameOrder ha, get?_inNameOrder hb, h]
    -- both sides are in order already, so sorting them again changes nothing
    rw [← sortBy_inNameOrder as, ← sortBy_inNameOrder bs,
      sortBy_eq_of_perm hperm (nodup_inNameOrder ha)]

end Value

end Cascade
