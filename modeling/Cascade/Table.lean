/-
  Cascade.Table
  ────────────────────────────────
  **FINITE MAPS IN INSERTION ORDER.**

  A table is a list of entries with distinct keys.  `insert` keeps the place
  of a key that is already there and puts a new one at the end; `erase`
  forgets the place.  Every operation is described by its effect on `get?`,
  and the distinctness of keys is part of the type.

      get?_insert, get?_erase                — the look-up view
      mem_keys_insert                        — the key view
      get?_eq_some_iff, get?_insertAll       — entries and look-up
      get?_insertAll_reverse, get?_ofList    — the last entry of a key counts
-/
import Cascade.Text.Basic

namespace Cascade

/-- A finite map whose entries are kept in the order of their first insertion. -/
structure Table (κ α : Type) where
  entries : List (κ × α)
  distinct : (entries.map Prod.fst).Nodup

/-- A table keyed by texts. -/
abbrev Mapping (α : Type) := Table Text α

/-! ## §1. Lists of entries. -/

namespace Entries

variable {κ α β : Type} [DecidableEq κ]

/-- The value of the first entry with this key. -/
def get? (k : κ) : List (κ × α) → Option α
  | [] => none
  | (k', v) :: rest => if k' = k then some v else get? k rest

/-- The entries with the value of `k` replaced, or with `(k, v)` at the end. -/
def insert (k : κ) (v : α) : List (κ × α) → List (κ × α)
  | [] => [(k, v)]
  | (k', v') :: rest => if k' = k then (k, v) :: rest else (k', v') :: insert k v rest

/-- The entries whose key is not `k`. -/
def erase (k : κ) (entries : List (κ × α)) : List (κ × α) :=
  entries.filter fun e => e.1 ≠ k

omit [DecidableEq κ] in
/-- Keys of which only the first ones are kept are distinct. -/
theorem nodup_eraseDups [BEq κ] [LawfulBEq κ] (keys : List κ) : keys.eraseDups.Nodup := by
  -- on the length: what is left after a key was taken out is not a tail
  induction hl : keys.length using Nat.strongRecOn generalizing keys with
  | ind length ih =>
    cases keys with
    | nil => simp
    | cons k keys =>
      have hlt : (keys.filter fun k' => !k' == k).length < length := by
        have := List.length_filter_le (fun k' => !k' == k) keys
        rw [← hl, List.length_cons]
        omega
      rw [List.eraseDups_cons, List.nodup_cons]
      exact ⟨by simp, ih _ hlt _ rfl⟩

theorem mem_keys_insert {k k' : κ} {v : α} {es : List (κ × α)} :
    k' ∈ (insert k v es).map Prod.fst ↔ k' = k ∨ k' ∈ es.map Prod.fst := by
  induction es with
  | nil => simp [insert]
  | cons e es ih =>
    obtain ⟨a, b⟩ := e
    by_cases h : a = k
    · subst h; simp [insert]
    · simp only [insert, h, if_false, List.map_cons, List.mem_cons, ih]
      constructor
      · rintro (h | h | h) <;> simp [h]
      · rintro (h | h | h) <;> simp [h]

theorem nodup_keys_insert {k : κ} {v : α} {es : List (κ × α)}
    (h : (es.map Prod.fst).Nodup) : ((insert k v es).map Prod.fst).Nodup := by
  induction es with
  | nil => simp [insert]
  | cons e es ih =>
    obtain ⟨a, b⟩ := e
    simp only [List.map_cons, List.nodup_cons] at h
    by_cases hk : a = k
    · subst hk; simpa [insert] using h
    · simp only [insert, hk, if_false, List.map_cons, List.nodup_cons]
      refine ⟨fun hm => ?_, ih h.2⟩
      rcases mem_keys_insert.1 hm with h' | h'
      · exact hk h'
      · exact h.1 h'

omit [DecidableEq κ] in
theorem nodup_keys_filter {p : κ × α → Bool} {es : List (κ × α)}
    (h : (es.map Prod.fst).Nodup) : ((es.filter p).map Prod.fst).Nodup :=
  h.sublist (List.filter_sublist.map _)

theorem get?_insert {k k' : κ} {v : α} {es : List (κ × α)} :
    get? k' (insert k v es) = if k = k' then some v else get? k' es := by
  induction es with
  | nil => simp [insert, get?]
  | cons e es ih =>
    obtain ⟨a, b⟩ := e
    by_cases h : a = k
    · subst h; by_cases h' : a = k' <;> simp [insert, get?, h']
    · by_cases h' : a = k'
      · subst h'; simp [insert, get?, h, Ne.symm h]
      · simp [insert, get?, h, h', ih]

theorem get?_filter_key {p : κ → Bool} {k : κ} {es : List (κ × α)} :
    get? k (es.filter fun e => p e.1) = if p k then get? k es else none := by
  induction es with
  | nil => simp [get?]
  | cons e es ih =>
    obtain ⟨a, b⟩ := e
    cases hp : p a <;> by_cases h' : a = k
    · subst h'; simp [hp, ih]
    · simp [hp, ih, get?, h']
    · subst h'; simp [hp, get?]
    · simp [hp, ih, get?, h']

theorem get?_map_snd {f : κ → α → β} {k : κ} {es : List (κ × α)} :
    get? k (es.map fun e => (e.1, f e.1 e.2)) = (get? k es).map (f k) := by
  induction es with
  | nil => simp [get?]
  | cons e es ih =>
    obtain ⟨a, b⟩ := e
    by_cases h' : a = k
    · subst h'; simp [get?]
    · simp [get?, h', ih]

theorem get?_eq_none_iff {k : κ} {es : List (κ × α)} :
    get? k es = none ↔ k ∉ es.map Prod.fst := by
  induction es with
  | nil => simp [get?]
  | cons e es ih =>
    obtain ⟨a, b⟩ := e
    by_cases h : a = k
    · subst h; simp [get?]
    · simp [get?, h, ih, Ne.symm h]

/-- With distinct keys every entry is the first one of its key. -/
theorem get?_eq_some_iff {k : κ} {v : α} {es : List (κ × α)} (h : (es.map Prod.fst).Nodup) :
    get? k es = some v ↔ (k, v) ∈ es := by
  induction es with
  | nil => simp [get?]
  | cons e es ih =>
    obtain ⟨a, b⟩ := e
    simp only [List.map_cons, List.nodup_cons] at h
    by_cases hk : a = k
    · subst hk
      have hn : (a, v) ∉ es := fun hm => h.1 (List.mem_map_of_mem hm)
      simp [get?, hn, eq_comm]
    · simp [get?, hk, ih h.2, Ne.symm hk]

/-- The first entry of a key is in the front part if one is. -/
theorem get?_append {k : κ} {es fs : List (κ × α)} :
    get? k (es ++ fs) = (get? k es).or (get? k fs) := by
  induction es with
  | nil => simp [get?]
  | cons e es ih =>
    obtain ⟨a, b⟩ := e
    by_cases h : a = k
    · simp [get?, h]
    · simp [get?, h, ih]

/-- An entry of a new key goes to the end. -/
theorem insert_of_not_mem {k : κ} {v : α} {es : List (κ × α)} (h : k ∉ es.map Prod.fst) :
    insert k v es = es ++ [(k, v)] := by
  induction es with
  | nil => rfl
  | cons e es ih =>
    obtain ⟨a, b⟩ := e
    simp only [List.map_cons, List.mem_cons, not_or] at h
    simp [insert, Ne.symm h.1, ih h.2]

end Entries

/-! ## §2. Operations on tables. -/

namespace Table

variable {κ α β : Type}

instance [DecidableEq κ] [DecidableEq α] : DecidableEq (Table κ α) := fun a b =>
  match decEq a.entries b.entries with
  | isTrue h => isTrue (by cases a; cases b; simp_all)
  | isFalse h => isFalse fun h' => h (by rw [h'])

instance [Repr κ] [Repr α] : Repr (Table κ α) := ⟨fun t n => reprPrec t.entries n⟩

/-- The table without entries. -/
def empty : Table κ α := ⟨[], List.nodup_nil⟩

instance : Inhabited (Table κ α) := ⟨empty⟩

/-- The keys in order. -/
def keys (t : Table κ α) : List κ := t.entries.map Prod.fst

/-- The values in order. -/
def values (t : Table κ α) : List α := t.entries.map Prod.snd

/-- The number of entries. -/
def size (t : Table κ α) : Nat := t.entries.length

variable [DecidableEq κ]

/-- The value of a key. -/
def get? (t : Table κ α) (k : κ) : Option α := Entries.get? k t.entries

/-- Whether a key has a value. -/
def contains (t : Table κ α) (k : κ) : Bool := (t.get? k).isSome

/-- The table with `v` as the value of `k`. -/
def insert (t : Table κ α) (k : κ) (v : α) : Table κ α :=
  ⟨Entries.insert k v t.entries, Entries.nodup_keys_insert t.distinct⟩

/-- The table without `k`. -/
def erase (t : Table κ α) (k : κ) : Table κ α :=
  ⟨Entries.erase k t.entries, Entries.nodup_keys_filter t.distinct⟩

/-- The table with the entries of a list added one after the other. -/
def insertAll (t : Table κ α) (entries : List (κ × α)) : Table κ α :=
  entries.foldl (fun t e => t.insert e.1 e.2) t

/-- The table of a list of entries, where the last value of a key counts. -/
def ofList (entries : List (κ × α)) : Table κ α := empty.insertAll entries

/-- The table with the values of another one taking precedence. -/
def update (t other : Table κ α) : Table κ α := t.insertAll other.entries

/-- The entries whose key satisfies `p`. -/
def filterKeys (p : κ → Bool) (t : Table κ α) : Table κ α :=
  ⟨t.entries.filter fun e => p e.1, Entries.nodup_keys_filter t.distinct⟩

@[simp] theorem get?_empty (k : κ) : (empty : Table κ α).get? k = none := rfl

theorem get?_insert (t : Table κ α) (k k' : κ) (v : α) :
    (t.insert k v).get? k' = if k = k' then some v else t.get? k' :=
  Entries.get?_insert

theorem get?_erase (t : Table κ α) (k k' : κ) :
    (t.erase k).get? k' = if k = k' then none else t.get? k' := by
  have h : Entries.get? k' (t.entries.filter fun e => decide (e.1 ≠ k)) =
      if decide (k' ≠ k) then Entries.get? k' t.entries else none :=
    Entries.get?_filter_key (p := fun x => decide (x ≠ k))
  simp only [get?, erase, Entries.erase, h]
  by_cases hk : k = k'
  · simp [hk]
  · simp [hk, Ne.symm hk]

theorem mem_keys_insert (t : Table κ α) (k k' : κ) (v : α) :
    k' ∈ (t.insert k v).keys ↔ k' = k ∨ k' ∈ t.keys :=
  Entries.mem_keys_insert

theorem get?_eq_none_iff (t : Table κ α) (k : κ) : t.get? k = none ↔ k ∉ t.keys :=
  Entries.get?_eq_none_iff

theorem get?_eq_some_iff (t : Table κ α) (k : κ) (v : α) :
    t.get? k = some v ↔ (k, v) ∈ t.entries :=
  Entries.get?_eq_some_iff t.distinct

theorem contains_iff (t : Table κ α) (k : κ) : t.contains k = true ↔ k ∈ t.keys := by
  rw [contains, Option.isSome_iff_ne_none, Ne, get?_eq_none_iff, Decidable.not_not]

omit [DecidableEq κ] in
theorem nodup_keys (t : Table κ α) : t.keys.Nodup := t.distinct

/-- The value of a key after entries were added: that of the last of them with this key. -/
theorem get?_insertAll (t : Table κ α) (es : List (κ × α)) (h : (es.map Prod.fst).Nodup)
    (k : κ) : (t.insertAll es).get? k = (Entries.get? k es).or (t.get? k) := by
  induction es generalizing t with
  | nil => rfl
  | cons e es ih =>
    obtain ⟨a, b⟩ := e
    simp only [List.map_cons, List.nodup_cons] at h
    have hs : (t.insertAll ((a, b) :: es)) = (t.insert a b).insertAll es := rfl
    rw [hs, ih _ h.2, get?_insert]
    -- the keys are distinct, so no later entry replaces this one
    by_cases hk : a = k
    · subst hk
      rw [Entries.get?_eq_none_iff.2 h.1]
      simp [Entries.get?]
    · simp [Entries.get?, hk]

/-- The value of a key after any entries were added, of which several may have one key: that of
the last entry of the key.  What was there before counts only for keys without an entry. -/
theorem get?_insertAll_reverse (t : Table κ α) (es : List (κ × α)) (k : κ) :
    (t.insertAll es).get? k = (Entries.get? k es.reverse).or (t.get? k) := by
  induction es generalizing t with
  | nil => rfl
  | cons e es ih =>
    have hs : t.insertAll (e :: es) = (t.insert e.1 e.2).insertAll es := rfl
    rw [hs, ih, get?_insert, List.reverse_cons, Entries.get?_append, Option.or_assoc]
    congr 1
    by_cases hk : e.1 = k
    · simp [Entries.get?, hk]
    · simp [Entries.get?, hk]

/-- A table built from entries has the value of the last entry of a key. -/
theorem get?_ofList (es : List (κ × α)) (k : κ) :
    (ofList es).get? k = Entries.get? k es.reverse := by
  rw [ofList, get?_insertAll_reverse, get?_empty, Option.or_none]

/-- The entries of a table built from entries with distinct keys are these. -/
theorem entries_ofList (es : List (κ × α)) (h : (es.map Prod.fst).Nodup) :
    (ofList es).entries = es := by
  -- in general: the entries go to the end of any table without their keys
  suffices ∀ (t : Table κ α), ((t.entries ++ es).map Prod.fst).Nodup →
      (t.insertAll es).entries = t.entries ++ es by
    simpa [ofList, empty] using this empty (by simpa [empty] using h)
  induction es with
  | nil => intro t _; simp [insertAll]
  | cons e es ih =>
    intro t ht
    obtain ⟨a, b⟩ := e
    have hs : (t.insertAll ((a, b) :: es)) = (t.insert a b).insertAll es := rfl
    have ha : a ∉ t.entries.map Prod.fst := by
      intro hm
      rw [List.map_append, List.nodup_append] at ht
      exact ht.2.2 a hm a (by simp) rfl
    have he : (t.insert a b).entries = t.entries ++ [(a, b)] :=
      Entries.insert_of_not_mem ha
    simp only [List.map_cons, List.nodup_cons] at h
    rw [hs, ih h.2 _ (by rw [he]; simpa using ht), he, List.append_assoc]
    rfl

/-- A value in a table built from entries is that of one of them. -/
theorem mem_of_get?_ofList {es : List (κ × α)} {k : κ} {v : α}
    (h : (ofList es).get? k = some v) : (k, v) ∈ es := by
  -- in general: the value is that of an entry, or it was there before
  suffices ∀ t : Table κ α, (t.insertAll es).get? k = some v →
      (k, v) ∈ es ∨ t.get? k = some v by
    rcases this empty h with hm | he
    · exact hm
    · cases he
  clear h
  induction es with
  | nil => exact fun t h => .inr h
  | cons e es ih =>
    intro t h
    rcases ih (t.insert e.1 e.2) h with hm | hi
    · exact .inl (List.mem_cons_of_mem e hm)
    · rw [get?_insert] at hi
      split at hi
      · rename_i hk
        cases hi
        subst hk
        exact .inl List.mem_cons_self
      · exact .inr hi

/-- A table is the one built from its entries. -/
theorem ofList_entries (t : Table κ α) : ofList t.entries = t := by
  have h := entries_ofList t.entries t.distinct
  generalize ofList t.entries = t' at h
  cases t
  cases t'
  cases h
  rfl

end Table

end Cascade
