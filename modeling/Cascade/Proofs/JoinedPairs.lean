/-
  Cascade.Proofs.JoinedPairs
  ────────────────────────────────
  **PAIRS WRITTEN AS ONE CHARACTER.**

  A character beyond U+FFFF is written as the two halves of its pair, so a
  text that holds these halves side by side has the same document as the one
  that holds the character.  The latter is what is read.  Whatever texts a
  value has, then, the value with its pairs joined has the same document,
  and if there is one it is read back as that value.

  Only the names of members must not hold such halves: they are written in
  the order of the names, which joining a pair may change, and two names may
  become one.  A value is `WellNamed` when its names are distinct and have
  no such halves.

      unpaired_joinPairs      — joined pairs leave no pair
      document_joinPairs      — joining pairs leaves the document
      storable_of_documentAt  — a well named value that is written can be kept,
                                once its pairs are joined
-/
import Cascade.Proofs.NameOrder

namespace Cascade

open Cascade.Text

namespace Json

/-! ## §1. Texts. -/

/-- A text with the character of each pair in the place of its halves. -/
def joinPairs : Text → Text
  | c :: d :: t =>
    if isHighHalf c.toNat = true ∧ isLowHalf d.toNat = true then
      ofPair c.toNat d.toNat :: joinPairs t
    else c :: joinPairs (d :: t)
  | t => t

/-- The numbers of halves. -/
theorem isHighHalf_iff {n : Nat} : isHighHalf n = true ↔ 0xD800 ≤ n ∧ n ≤ 0xDBFF := by
  simp [isHighHalf]

/-- The numbers of second halves. -/
theorem isLowHalf_iff {n : Nat} : isLowHalf n = true ↔ 0xDC00 ≤ n ∧ n ≤ 0xDFFF := by
  simp [isLowHalf]

/-- The number of the character of a pair. -/
theorem toNat_ofPair {high low : Nat} (hh : isHighHalf high = true) (hl : isLowHalf low = true) :
    (ofPair high low).toNat = 0x10000 + (high - 0xD800) * 0x400 + (low - 0xDC00) := by
  rw [isHighHalf_iff] at hh
  rw [isLowHalf_iff] at hl
  exact CodePoint.toNat_ofNat (by omega)

/-- Beyond ASCII a character is written as one or two units. -/
theorem writtenChar_of_le {c : CodePoint} (h : 127 ≤ c.toNat) :
    writtenChar c = if c.toNat < 0x10000 then escapedUnit c.toNat
      else escapedUnit (0xD800 + (c.toNat - 0x10000) / 0x400) ++
        escapedUnit (0xDC00 + (c.toNat - 0x10000) % 0x400) := by
  have hne {d : Char} (hd : d.toNat < 127) : c ≠ .char d := by
    rintro rfl
    exact absurd h (Nat.not_le.2 hd)
  have hspecial : ¬ (c = .char '"' ∨ c = .char '\\') :=
    not_or.2 ⟨hne (by decide), hne (by decide)⟩
  rw [writtenChar, if_neg hspecial, if_neg (hne (by decide)), if_neg (hne (by decide)),
    if_neg (hne (by decide)), if_neg (hne (by decide)), if_neg (hne (by decide)),
    if_neg (by omega)]

/-- A half is written as its unit. -/
theorem writtenChar_of_half {c : CodePoint} (h : 0xD800 ≤ c.toNat) (h' : c.toNat ≤ 0xDFFF) :
    writtenChar c = escapedUnit c.toNat := by
  rw [writtenChar_of_le (by omega), if_pos (by omega)]

/-- **THE CHARACTER OF A PAIR IS WRITTEN AS ITS HALVES.** -/
theorem writtenChar_ofPair {high low : Nat} (hh : isHighHalf high = true)
    (hl : isLowHalf low = true) :
    writtenChar (ofPair high low) = escapedUnit high ++ escapedUnit low := by
  have hn := toNat_ofPair hh hl
  rw [isHighHalf_iff] at hh
  rw [isLowHalf_iff] at hl
  have hhigh : 0xD800 + ((ofPair high low).toNat - 0x10000) / 0x400 = high := by omega
  have hlow : 0xDC00 + ((ofPair high low).toNat - 0x10000) % 0x400 = low := by omega
  rw [writtenChar_of_le (by omega), if_neg (by omega), hhigh, hlow]

/-- Joining pairs leaves what is written. -/
theorem writtenString_joinPairs (t : Text) : writtenString (joinPairs t) = writtenString t := by
  have hchars : (joinPairs t).flatMap writtenChar = t.flatMap writtenChar := by
    fun_induction joinPairs t with
    | case1 c d t hpair ih =>
      have hc := isHighHalf_iff.1 hpair.1
      have hd := isLowHalf_iff.1 hpair.2
      rw [List.flatMap_cons, ih, writtenChar_ofPair hpair.1 hpair.2, List.flatMap_cons,
        List.flatMap_cons, writtenChar_of_half hc.1 (by omega),
        writtenChar_of_half (by omega) hd.2, List.append_assoc]
    | case2 c d t hpair ih =>
      rw [List.flatMap_cons, ih]
      exact List.flatMap_cons.symm
    | case3 t => rfl
  rw [writtenString, writtenString, hchars]

/-- A text begins with a second half once its pairs are joined only if it did before. -/
theorem head?_joinPairs {t : Text} {d : CodePoint} (h : d ∈ (joinPairs t).head?)
    (hd : isLowHalf d.toNat = true) : d ∈ t.head? := by
  match t with
  | [] => exact h
  | [c] => exact h
  | c :: e :: t =>
    rw [joinPairs] at h
    split at h
    · -- the character of a pair is no half
      rename_i hpair
      have hc : ofPair c.toNat e.toNat = d := Option.some.inj h
      rw [← hc, isLowHalf_iff, toNat_ofPair hpair.1 hpair.2] at hd
      omega
    · exact h

/-- **JOINED PAIRS LEAVE NO PAIR.** -/
theorem unpaired_joinPairs (t : Text) : Unpaired (joinPairs t) := by
  unfold Unpaired
  fun_induction joinPairs t with
  | case1 c d t hpair ih =>
    refine List.isChain_cons.2 ⟨fun e _ h => ?_, ih⟩
    have hhigh := isHighHalf_iff.1 h.1
    rw [toNat_ofPair hpair.1 hpair.2] at hhigh
    omega
  | case2 c d t hpair ih =>
    refine List.isChain_cons.2 ⟨fun e he h => hpair ⟨h.1, ?_⟩, ih⟩
    cases head?_joinPairs he h.2
    exact h.2
  | case3 t hshort =>
    match t, hshort with
    | [], _ => exact .nil
    | [c], _ => exact .singleton c
    | c :: d :: t, hshort => exact absurd rfl (hshort c d t)

/-- A text without a pair stays as it is. -/
theorem joinPairs_of_unpaired {t : Text} (h : Unpaired t) : joinPairs t = t := by
  fun_induction joinPairs t with
  | case1 c d t hpair ih => exact absurd hpair (List.isChain_cons_cons.1 h).1
  | case2 c d t hpair ih => rw [ih (List.IsChain.tail h)]
  | case3 t => rfl

end Json

/-! ## §2. Values. -/

namespace Value

open Json

mutual

/-- A value with the pairs in all its texts joined; the names of members stay. -/
def joinPairs : Value → Value
  | .str t => .str (Json.joinPairs t)
  | .list items => .list (joinItems items)
  | .object members => .object (joinMembers members)
  | v => v

/-- `joinPairs` on every item. -/
def joinItems : List Value → List Value
  | [] => []
  | item :: items => joinPairs item :: joinItems items

/-- `joinPairs` on the value of every member. -/
def joinMembers : List (Text × Value) → List (Text × Value)
  | [] => []
  | (name, v) :: members => (name, joinPairs v) :: joinMembers members

end

/-- A member with the pairs in its value joined. -/
def joinMember (m : Text × Value) : Text × Value := (m.1, joinPairs m.2)

/-- A list has the pairs in its items joined. -/
theorem joinPairs_list (items : List Value) :
    joinPairs (.list items) = .list (items.map joinPairs) := by
  have hitems (items : List Value) : joinItems items = items.map joinPairs := by
    induction items with
    | nil => rfl
    | cons item items ih => rw [joinItems, ih, List.map_cons]
  rw [joinPairs, hitems]

/-- An object has the pairs in the values of its members joined. -/
theorem joinPairs_object (members : List (Text × Value)) :
    joinPairs (.object members) = .object (members.map joinMember) := by
  have hmembers (members : List (Text × Value)) :
      joinMembers members = members.map joinMember := by
    induction members with
    | nil => rfl
    | cons m members ih => rw [joinMembers, ih, List.map_cons, joinMember]
  rw [joinPairs, hmembers]

/-- Joined pairs are joined. -/
theorem joinPairs_joinPairs (v : Value) : v.joinPairs.joinPairs = v.joinPairs := by
  induction v using memberInduction with
  | str t =>
    rw [joinPairs, joinPairs, joinPairs_of_unpaired (unpaired_joinPairs t)]
  | list items ih =>
    rw [joinPairs_list, joinPairs_list, List.map_map]
    exact congrArg Value.list (List.map_congr_left ih)
  | object members ih =>
    rw [joinPairs_object, joinPairs_object, List.map_map]
    exact congrArg Value.object (List.map_congr_left fun m hm => congrArg (Prod.mk m.1) (ih m hm))
  | _ => rfl

/-- Pairs may be joined before members are put in order or after. -/
theorem inNameOrder_joinPairs (v : Value) :
    inNameOrder v.joinPairs = (inNameOrder v).joinPairs := by
  have hname (m : Text × Value) : (joinMember m).1 = m.1 := rfl
  induction v using memberInduction with
  | list items ih =>
    rw [joinPairs_list, inNameOrder, inNameOrder, joinPairs_list, itemsInNameOrder_eq_map,
      itemsInNameOrder_eq_map, List.map_map, List.map_map]
    exact congrArg Value.list (List.map_congr_left ih)
  | object members ih =>
    rw [joinPairs_object, inNameOrder_object, inNameOrder_object, joinPairs_object,
      sortBy_map hname, List.map_map, List.map_map]
    refine congrArg Value.object (List.map_congr_left fun m hm => ?_)
    exact congrArg (Prod.mk m.1) (ih m ((sortBy_perm Prod.fst members).mem_iff.1 hm))
  | _ => rfl

/-! ## §3. Documents. -/

/-- Items are written alike when each of them is. -/
theorem documentItems_map {f : Value → Value} {level : Nat} {items : List Value}
    (h : ∀ item ∈ items, documentAt level (f item) = documentAt level item) :
    documentItems level (items.map f) = documentItems level items := by
  induction items with
  | nil => rfl
  | cons item items ih =>
    rw [List.forall_mem_cons] at h
    rw [List.map_cons, documentItems, documentItems, h.1, ih h.2]

/-- Members are written alike when their values are. -/
theorem documentMembers_map {f : Value → Value} {level : Nat} {members : List (Text × Value)}
    (h : ∀ m ∈ members, documentAt level (f m.2) = documentAt level m.2) :
    documentMembers level (members.map fun m => (m.1, f m.2)) =
      documentMembers level members := by
  induction members with
  | nil => rfl
  | cons m members ih =>
    obtain ⟨name, v⟩ := m
    rw [List.forall_mem_cons] at h
    rw [List.map_cons, documentMembers, documentMembers, h.1, ih h.2]

/-- A value is written as it is with its pairs joined. -/
theorem documentAt_joinPairs (v : Value) (level : Nat) :
    documentAt level v.joinPairs = documentAt level v := by
  induction v using memberInduction generalizing level with
  | str t => rw [joinPairs, documentAt, documentAt, writtenString_joinPairs]
  | list items ih =>
    rw [joinPairs_list, documentAt, documentAt, documentItems_map fun item hm => ih item hm _]
  | object members ih =>
    have hmembers : documentMembers (level + 1) (members.map joinMember) =
        documentMembers (level + 1) members := documentMembers_map fun m hm => ih m hm _
    rw [joinPairs_object, documentAt, documentAt, hmembers]
  | _ => rfl

/-- **JOINING PAIRS LEAVES THE DOCUMENT.** -/
theorem document_joinPairs (v : Value) : document v.joinPairs = document v := by
  rw [document, inNameOrder_joinPairs, documentAt_joinPairs, document]

/-! ## §4. Values with a document. -/

/-- A value whose objects have distinct names, none of them with the two halves of a pair side by
side. -/
inductive WellNamed : Value → Prop
  | null : WellNamed .null
  | bool (b : Bool) : WellNamed (.bool b)
  | int (n : Int) : WellNamed (.int n)
  | float {x : Binary64} (canonical : x.Canonical) : WellNamed (.float x)
  | str (t : Text) : WellNamed (.str t)
  | bytes (content : Bytes) : WellNamed (.bytes content)
  | list {items : List Value} (each : ∀ item ∈ items, WellNamed item) : WellNamed (.list items)
  | object {members : List (Text × Value)} (distinct : (members.map Prod.fst).Nodup)
      (names : ∀ m ∈ members, Unpaired m.1) (each : ∀ m ∈ members, WellNamed m.2) :
      WellNamed (.object members)

/-- An integer that is written has few digits. -/
theorem short_of_writtenInt {n : Int} {t : Text} (h : writtenInt n = .ok t) :
    n.natAbs < 10 ^ digitLimit := by
  unfold writtenInt intText? at h
  -- the limit becomes a variable, so that no power is computed
  generalize digitLimit = limit at h ⊢
  by_contra hlong
  rw [if_neg (show ¬ n.natAbs < Nat.pow 10 limit from hlong)] at h
  cases h

/-- Each item of a list that is written is written. -/
theorem exists_documentAt_of_items {level : Nat} {items : List Value} {parts : List Text}
    (h : documentItems level items = .ok parts) :
    ∀ item ∈ items, ∃ t, documentAt level item = .ok t := by
  induction items generalizing parts with
  | nil => exact fun _ hm => absurd hm List.not_mem_nil
  | cons item items ih =>
    rw [documentItems] at h
    obtain ⟨part, hpart, h⟩ := bind_eq_ok_iff.1 h
    obtain ⟨parts, hparts, -⟩ := bind_eq_ok_iff.1 h
    exact List.forall_mem_cons.2 ⟨⟨part, hpart⟩, ih hparts⟩

/-- The value of each member of an object that is written is written. -/
theorem exists_documentAt_of_members {level : Nat} {members : List (Text × Value)}
    {parts : List Text} (h : documentMembers level members = .ok parts) :
    ∀ m ∈ members, ∃ t, documentAt level m.2 = .ok t := by
  induction members generalizing parts with
  | nil => exact fun _ hm => absurd hm List.not_mem_nil
  | cons m members ih =>
    obtain ⟨name, v⟩ := m
    rw [documentMembers] at h
    obtain ⟨part, hpart, h⟩ := bind_eq_ok_iff.1 h
    obtain ⟨parts, hparts, -⟩ := bind_eq_ok_iff.1 h
    exact List.forall_mem_cons.2 ⟨⟨part, hpart⟩, ih hparts⟩

/-- The value of each member is written where an object is written in order. -/
theorem exists_documentAt_of_object {level : Nat} {members : List (Text × Value)} {t : Text}
    (h : documentAt level (inNameOrder (.object members)) = .ok t) :
    ∀ m ∈ members, ∃ t, documentAt (level + 1) (inNameOrder m.2) = .ok t := by
  intro m hm
  rw [inNameOrder_object, documentAt] at h
  obtain ⟨parts, hparts, -⟩ := bind_eq_ok_iff.1 h
  have hsorted : m ∈ sortBy Prod.fst members := (sortBy_perm Prod.fst members).mem_iff.2 hm
  exact exists_documentAt_of_members hparts (memberInNameOrder m) (List.mem_map_of_mem hsorted)

/-- **A WELL NAMED VALUE THAT IS WRITTEN CAN BE KEPT**, at whatever level, once its pairs are
joined. -/
theorem WellNamed.storable_of_documentAt {v : Value} (h : v.WellNamed) {level : Nat} {t : Text}
    (ht : documentAt level (inNameOrder v) = .ok t) : v.joinPairs.Storable := by
  induction h generalizing level t with
  | null => exact .null
  | bool b => exact .bool b
  | int n => exact .int (short_of_writtenInt ht)
  | float canonical => exact .float canonical
  | str => exact .str (unpaired_joinPairs _)
  | bytes content => cases ht
  | @list items _ ih =>
    rw [inNameOrder, itemsInNameOrder_eq_map, documentAt] at ht
    obtain ⟨parts, hparts, -⟩ := bind_eq_ok_iff.1 ht
    have heach := exists_documentAt_of_items hparts
    rw [joinPairs_list]
    refine .list fun item hm => ?_
    obtain ⟨item', hm', rfl⟩ := List.mem_map.1 hm
    obtain ⟨part, hpart⟩ := heach _ (List.mem_map_of_mem hm')
    exact ih item' hm' hpart
  | @object members distinct names _ ih =>
    have heach := exists_documentAt_of_object ht
    rw [joinPairs_object]
    refine .object ?_ (fun m hm => ?_) fun m hm => ?_
    · rw [List.map_map]
      exact distinct
    · obtain ⟨m', hm', rfl⟩ := List.mem_map.1 hm
      exact names m' hm'
    · obtain ⟨m', hm', rfl⟩ := List.mem_map.1 hm
      obtain ⟨part, hpart⟩ := heach m' hm'
      exact ih m' hm' hpart

end Value

end Cascade
