/-
  Cascade.Proofs.StoreEquivalence
  ────────────────────────────────
  **TWO STORES, ONE BEHAVIOUR.**

  A store in memory and a store in a document are asked the same requests,
  one after the other.  The document is read anew for each of them, and the
  store may be opened again at its path at any time.  The groups in the
  document stay alike to those in memory, so whatever is asked is answered
  alike: the document `Mirrors` the groups, and every request keeps it so.

      Begins.mirrors        — a document mirrors what it begins with
      Mirrors.write         — one that is replaced mirrors what is put there
      Mirrors.servesAlike   — one request is answered alike
      answers_alike         — and so are all of them
-/
import Cascade.Proofs.ReadStorable
import Cascade.Proofs.StoredDocument

namespace Cascade

open Cascade.Text
open Cascade.Json

namespace Json

/-! ## §1. A document that is not blank. -/

/-- A number is no object. -/
theorem numberAt_ne_object {t rest : Text} {members : List (Text × Value)} :
    numberAt t ≠ .ok (.object members, rest) := by
  intro h
  unfold numberAt at h
  simp only at h
  repeat' split at h
  all_goals cases h

/-- A word is no object. -/
theorem wordAt?_ne_object {t rest : Text} {members : List (Text × Value)} :
    wordAt? t ≠ some (.object members, rest) := by
  intro h
  obtain ⟨⟨word, v⟩, hm, hv⟩ := List.exists_of_findSome?_eq_some h
  obtain ⟨_, -, he⟩ := Option.map_eq_some_iff.1 hv
  cases he
  simp [words] at hm

/-- An object begins with a brace. -/
theorem brace_of_valueAt {steps : Nat} {t rest : Text} {members : List (Text × Value)}
    (h : valueAt steps t = .ok (.object members, rest)) : .char '\x7b' ∈ t := by
  cases steps with
  | zero => cases h
  | succ steps =>
    simp only [valueAt] at h
    split at h
    · obtain ⟨_, -, hr⟩ := bind_eq_ok_iff.1 h
      cases hr
    · simp
    · split at h
      · cases h
      · obtain ⟨_, -, hr⟩ := bind_eq_ok_iff.1 h
        cases hr
    · split at h
      · rename_i hword
        cases h
        exact absurd hword wordAt?_ne_object
      · exact absurd h numberAt_ne_object

/-- A text that has the value of an object is not blank. -/
theorem exists_not_isBlank_of_read {t : Text} {members : List (Text × Value)}
    (h : read t = .ok (.object members)) : ∃ c ∈ t, isBlank c = false := by
  unfold read at h
  split at h
  · cases h
  · obtain ⟨⟨v, rest⟩, hv, hr⟩ := bind_eq_ok_iff.1 h
    simp only at hr
    split at hr
    · cases hr
      exact ⟨.char '\x7b', (List.dropWhile_suffix isSpace).mem (brace_of_valueAt hv), by decide⟩
    · cases hr

end Json

namespace Groups

/-- Groups among the members of a value that can be kept can be kept. -/
theorem storable_ofMembers {members : List (Text × Value)}
    (h : Value.Storable (.object members)) : (ofMembers members).Storable := by
  cases h with
  | object distinct names each =>
    refine storable_iff.2 fun group g hg => ?_
    obtain ⟨⟨name, m⟩, hm, he⟩ := List.mem_filterMap.1 (Table.mem_of_get?_ofList hg)
    have hstorable := each _ hm
    -- only an object is a group, and its members are the keys
    cases m with
    | object inner =>
      cases he
      cases hstorable with
      | object _ names' each' =>
        refine ⟨names _ hm, groupStorable_iff.2 fun key v hv => ?_⟩
        have hkey := Table.mem_of_get?_ofList hv
        exact ⟨names' _ hkey, each' _ hkey⟩
    | _ => cases he

end Groups

namespace Preferences

open Groups

/-! ## §2. Requests and answers. -/

/-- What is asked of a store, or that it is opened again. -/
inductive Request
  | get (group key : Text)
  | set (group key : Text) (v : Value)
  | remove (group key : Text)
  | has (group key : Text)
  | groups
  | reopen

/-- A request that sets only what is read again as it is written; one that sets nothing may name
anything. -/
def Request.Storable : Request → Prop
  | .set group key v => Unpaired group ∧ Unpaired key ∧ v.Storable
  | _ => True

/-- What a request is answered with. -/
inductive Reply
  | found (v? : Option Value)
  | done
  | removed (there : Bool)
  | known (there : Bool)
  | all (gs : Groups)

/-- Replies are alike when they are the same up to the order of members. -/
inductive Reply.Alike : Reply → Reply → Prop
  | found {v? v'? : Option Value} (alike : Option.Rel Value.Alike v? v'?) :
      Alike (.found v?) (.found v'?)
  | done : Alike .done .done
  | removed (there : Bool) : Alike (.removed there) (.removed there)
  | known (there : Bool) : Alike (.known there) (.known there)
  | all {gs hs : Groups} (alike : gs.Alike hs) : Alike (.all gs) (.all hs)

/-- The answer of a store that was opened at a written path, the world after it, and the store
from then on.  To open a store in memory again is to go on with it. -/
def serve (path : Text) (w : World) (s : Preferences) :
    Request → Except Failure Reply × World × Preferences
  | .get group key => ((s.get? w group key).map .found, w, s)
  | .set group key v =>
    let (answer, w, s) := s.set w group key v
    (answer.map fun _ => .done, w, s)
  | .remove group key =>
    let (answer, w, s) := s.remove w group key
    (answer.map .removed, w, s)
  | .has group key => ((s.has w group key).map .known, w, s)
  | .groups => ((s.groups w).map .all, w, s)
  | .reopen =>
    match s with
    | .memory gs => (.ok .done, w, .memory gs)
    | .document p =>
      match documentAt w path with
      | .error failure => (.error failure, w, .document p)
      | .ok s => (.ok .done, w, s)

/-- The answers to requests, one after the other. -/
def answers (path : Text) : World → Preferences → List Request → List (Except Failure Reply)
  | _, _, [] => []
  | w, s, r :: requests =>
    let (answer, w, s) := s.serve path w r
    answer :: answers path w s requests

/-- Two answers that are replies, and alike. -/
def Agree (a b : Except Failure Reply) : Prop :=
  ∃ reply reply', a = .ok reply ∧ b = .ok reply' ∧ reply.Alike reply'

/-! ## §3. A document that mirrors groups. -/

/-- A document that holds groups alike to those given, in a place where it can be written. -/
structure Mirrors (w : World) (p : Path) (hs : Groups) : Prop where
  kept : Keeps w p ∨ ∃ entry, Settled w.files w.cwd p entry
  held : ∃ gs, readDocument w p = .ok gs ∧ gs.Storable ∧ gs.Alike hs

section

variable {w : World} {p : Path} {path : Text} {gs hs : Groups}

/-- A document is read from the bytes at its path. -/
theorem readDocument_of_read {content : Bytes} (h : w.read p = .ok content) :
    readDocument w p = decode p content := by
  unfold readDocument
  rw [h]

/-- No groups can be kept. -/
theorem storable_empty : Groups.Storable .empty :=
  Groups.storable_iff.2 fun group g hg => by cases hg

/-- The groups of a document can be kept. -/
theorem storable_of_readDocument (h : readDocument w p = .ok gs) : gs.Storable := by
  unfold readDocument at h
  split at h
  · cases h
    exact storable_empty
  · split at h <;> cases h
  · rename_i content _
    unfold decode at h
    split at h
    · cases h
    · rename_i text hd
      simp only at h
      split at h
      · cases h
        exact storable_empty
      · split at h
        · cases h
        · cases h
        · rename_i members hr
          cases h
          exact Groups.storable_ofMembers (storable_of_read hd hr)
        · cases h

/-- **WHAT IS WRITTEN IS READ BACK FROM ITS PLACE**: the first document is put there, a later one
where the one before is settled. -/
theorem exists_rewritten (hk : Keeps w p ∨ ∃ entry, Settled w.files w.cwd p entry)
    (hg : gs.Storable) :
    ∃ files entry gs', writeDocument w p gs = (.ok (), { w with files }) ∧
      Settled files w.cwd p entry ∧ readDocument { w with files } p = .ok gs' ∧ gs'.Storable ∧
        gs'.toValue = inNameOrder gs.toValue := by
  obtain ⟨content, gs', hencode, hdecode, hstorable, horder⟩ := decode_encode p hg
  obtain ⟨files, entry, hwrite, hsettled, hread⟩ : ∃ files entry,
      writeDocument w p gs = (.ok (), { w with files }) ∧ Settled files w.cwd p entry ∧
        files.read w.cwd p = .ok content := by
    rcases hk with hkeeps | ⟨entry, hsettled⟩
    · exact settled_of_keeps hkeeps hencode
    · obtain ⟨files, hwrite, hsettled', hread⟩ := hsettled.write hencode
      exact ⟨files, entry, hwrite, hsettled', hread⟩
  refine ⟨files, entry, gs', hwrite, hsettled, ?_, hstorable, horder⟩
  rw [readDocument_of_read (w := { w with files }) hread, hdecode]

/-- **A DOCUMENT THAT IS REPLACED MIRRORS WHAT IS PUT THERE.** -/
theorem Mirrors.write (h : Mirrors w p hs) {hs' : Groups} (hg : gs.Storable)
    (ha : gs.Alike hs') :
    ∃ files, writeDocument w p gs = (.ok (), { w with files }) ∧ Mirrors { w with files } p hs' := by
  obtain ⟨files, entry, gs', hwrite, hsettled, hread, hstorable, horder⟩ :=
    exists_rewritten h.kept hg
  have halike : gs'.Alike gs := hg.alike_of_inNameOrder horder
  exact ⟨files, hwrite, .inr ⟨entry, hsettled⟩, gs', hread, hstorable, halike.trans ha⟩

/-- What a document begins with: nothing when it is not there, and else its value. -/
inductive Begins (w : World) (p : Path) : Groups → Prop
  | absent (missing : w.read p = .error .notFound) : Begins w p .empty
  | present {content : Bytes} {text : Text} {value : Value} {hs : Groups}
      (bytes : w.read p = .ok content) (decoded : Utf8.decode content = .ok text)
      (valid : read (unifyLineEnds text) = .ok value) (alike : value.Alike hs.toValue) :
      Begins w p hs

/-- A document mirrors what it begins with. -/
theorem Begins.mirrors (h : Begins w p hs) (hk : Keeps w p) : Mirrors w p hs := by
  refine ⟨.inl hk, ?_⟩
  cases h with
  | absent missing =>
    refine ⟨.empty, ?_, storable_empty, rfl⟩
    unfold readDocument
    rw [missing]
  | present bytes decoded valid alike =>
    have hstorable := storable_of_read decoded valid
    obtain ⟨gs, rfl⟩ := exists_toValue_of_alike hstorable alike
    refine ⟨gs, ?_, hstorable, alike⟩
    rw [readDocument_of_read bytes]
    exact decode_of_read decoded (exists_not_isBlank_of_read valid) valid

/-! ## §4. One request. -/

/-- Alike groups answer alike what a key has. -/
theorem rel_value? (h : gs.Alike hs) (group key : Text) :
    Option.Rel Value.Alike (gs.value? group key) (hs.value? group key) :=
  Value.rel_alike_iff.2 (h.value? group key)

/-- Alike groups answer alike whether a key has a value other than null. -/
theorem has_iff (h : gs.Alike hs) (group key : Text) :
    (gs.value? group key).getD .null = .null ↔ (hs.value? group key).getD .null = .null := by
  have hvalue := rel_value? h group key
  generalize gs.value? group key = a at hvalue
  generalize hs.value? group key = b at hvalue
  cases hvalue with
  | none => rfl
  | @some v v' hv =>
    have hnull : inNameOrder v = .null ↔ inNameOrder v' = .null := by rw [show _ = _ from hv]
    rwa [Value.inNameOrder_eq_null_iff, Value.inNameOrder_eq_null_iff] at hnull

/-- A request that both stores answer alike, and after which the document mirrors what is in
memory then. -/
def ServesAlike (path : Text) (w v : World) (p : Path) (hs : Groups) (r : Request) : Prop :=
  ∃ a a' files hs', (Preferences.document p).serve path w r = (a, { w with files }, .document p) ∧
    (Preferences.memory hs).serve path v r = (a', v, .memory hs') ∧ Agree a a' ∧
      Mirrors { w with files } p hs'

/-- What is told of alike groups, and leaves them, is told alike. -/
theorem Mirrors.servesAlike_told (h : Mirrors w p hs) (v : World) {r : Request}
    {told : Groups → Reply} (htold : ∀ w s, serve path w s r = ((s.groups w).map told, w, s))
    (halike : ∀ gs, gs.Alike hs → (told gs).Alike (told hs)) : ServesAlike path w v p hs r := by
  obtain ⟨gs, hread, -, hgs⟩ := h.held
  have hgroups : (Preferences.document p).groups w = .ok gs := hread
  refine ⟨.ok (told gs), .ok (told hs), w.files, hs, ?_, ?_, ⟨_, _, rfl, rfl, halike gs hgs⟩, h⟩
  · rw [htold, hgroups]
    rfl
  · rw [htold]
    rfl

/-- A value that is set is set in both. -/
theorem Mirrors.servesAlike_set (h : Mirrors w p hs) (v : World) {group key : Text} {value : Value}
    (hr : (Request.set group key value).Storable) :
    ServesAlike path w v p hs (.set group key value) := by
  obtain ⟨hgroup, hkey, hvalue⟩ := hr
  obtain ⟨gs, hread, hstorable, halike⟩ := h.held
  have hgroups : (Preferences.document p).groups w = .ok gs := hread
  have halike' : (gs.set group key value).Alike (hs.set group key value) := halike.set rfl
  obtain ⟨files, hwrite, hmirrors⟩ := h.write (hstorable.set hgroup hkey hvalue) halike'
  refine ⟨.ok .done, .ok .done, files, hs.set group key value, ?_, rfl,
    ⟨_, _, rfl, rfl, .done⟩, hmirrors⟩
  simp only [serve, set, hgroups, store, hwrite]
  rfl

/-- A key is removed from both, or is in neither. -/
theorem Mirrors.servesAlike_remove (h : Mirrors w p hs) (v : World) (group key : Text) :
    ServesAlike path w v p hs (.remove group key) := by
  obtain ⟨gs, hread, hstorable, halike⟩ := h.held
  have hgroups : (Preferences.document p).groups w = .ok gs := hread
  have hremoved := halike.remove? group key
  generalize hgs : gs.remove? group key = a at hremoved
  generalize hhs : hs.remove? group key = b at hremoved
  cases hremoved with
  | none =>
    refine ⟨.ok (.removed false), .ok (.removed false), w.files, hs, ?_, ?_,
      ⟨_, _, rfl, rfl, .removed false⟩, h⟩
    · simp only [serve, remove, hgroups, hgs]
      rfl
    · simp only [serve, remove, groups, hhs]
      rfl
  | @some gs' hs' halike' =>
    obtain ⟨files, hwrite, hmirrors⟩ := h.write (hstorable.remove? hgs) halike'
    refine ⟨.ok (.removed true), .ok (.removed true), files, hs', ?_, ?_,
      ⟨_, _, rfl, rfl, .removed true⟩, hmirrors⟩
    · simp only [serve, remove, hgroups, hgs, store, hwrite]
      rfl
    · simp only [serve, remove, groups, hhs, store]
      rfl

/-- A store that is opened again is at the same path. -/
theorem Mirrors.servesAlike_reopen (h : Mirrors w p hs)
    (ho : documentAt w path = .ok (.document p)) (v : World) :
    ServesAlike path w v p hs .reopen := by
  refine ⟨.ok .done, .ok .done, w.files, hs, ?_, rfl, ⟨_, _, rfl, rfl, .done⟩, h⟩
  simp only [serve, ho]

/-- **ONE REQUEST IS ANSWERED ALIKE**, and the document mirrors what is in memory then. -/
theorem Mirrors.servesAlike (h : Mirrors w p hs) (ho : documentAt w path = .ok (.document p))
    (v : World) {r : Request} (hr : r.Storable) : ServesAlike path w v p hs r := by
  cases r with
  | get group key =>
    have htold (w : World) (s : Preferences) : serve path w s (.get group key) =
        ((s.groups w).map fun gs => .found (gs.value? group key), w, s) := by
      show ((s.get? w group key).map _, _, _) = _
      rw [get?]
      cases s.groups w <;> rfl
    exact h.servesAlike_told v htold fun gs halike => .found (rel_value? halike group key)
  | set group key value => exact h.servesAlike_set v hr
  | remove group key => exact h.servesAlike_remove v group key
  | has group key =>
    have htold (w : World) (s : Preferences) : serve path w s (.has group key) =
        ((s.groups w).map fun gs => .known ((gs.value? group key).getD .null ≠ .null), w, s) := by
      show ((s.has w group key).map _, _, _) = _
      rw [has, get?]
      cases s.groups w <;> rfl
    refine h.servesAlike_told v htold fun gs halike => ?_
    rw [decide_eq_decide.2 (not_congr (has_iff halike group key))]
    exact .known _
  | groups => exact h.servesAlike_told v (fun _ _ => rfl) fun gs halike => .all halike
  | reopen => exact h.servesAlike_reopen ho v

/-! ## §5. Any requests. -/

/-- **BOTH STORES ANSWER ALIKE**, whatever they are asked. -/
theorem Mirrors.answers (h : Mirrors w p hs) (ho : documentAt w path = .ok (.document p))
    (v : World) {requests : List Request} (hr : ∀ r ∈ requests, r.Storable) :
    List.Forall₂ Agree (answers path w (.document p) requests)
      (answers path v (.memory hs) requests) := by
  induction requests generalizing w hs with
  | nil => exact .nil
  | cons r requests ih =>
    rw [List.forall_mem_cons] at hr
    obtain ⟨a, a', files, hs', hdocument, hmemory, hagree, hmirrors⟩ :=
      h.servesAlike ho v hr.1
    have hlater := ih hmirrors ho hr.2
    simp only [Preferences.answers, hdocument, hmemory]
    exact .cons hagree hlater

/-- **A DOCUMENT AND MEMORY ANSWER ALIKE**: over the groups a document begins with, a store in
memory and one in the document, opened again whenever this is asked, answer every request, and
alike. -/
theorem answers_alike (ho : documentAt w path = .ok (.document p)) (hk : Keeps w p)
    (hb : Begins w p hs) (v : World) {requests : List Request}
    (hr : ∀ r ∈ requests, r.Storable) :
    List.Forall₂ Agree (answers path w (.document p) requests)
      (answers path v (.memory hs) requests) :=
  (hb.mirrors hk).answers ho v hr

end

/-- A document with a group of two keys and one of none. -/
def storedText : Text := "\x7b\"env\": \x7b\"b\": 1, \"a\": null\x7d, \"old\": \x7b\x7d\x7d"

/-- The bytes of this document. -/
def storedBytes : Bytes := storedText.map fun c => UInt8.ofNat c.toNat

/-- The world this document is in. -/
def storedWorld : World where
  files := ⟨Table.ofList [(["d"], .directory 0), (["d", "p.json"], .file storedBytes 0)]⟩
  cwd := ⟨[], 0⟩
  environ := .empty
  users := .none
  now := 100

/-- Its groups, in another order. -/
def storedGroups : Groups :=
  Table.ofList [("old", .empty), ("env", Table.ofList [("a", .null), ("b", .int 1)])]

/-- A value that is set in it. -/
def storedValue : Value := .object [("y", .list [.bool true, .null]), ("x", .str "t")]

/-- Null is there and can be removed, once; the store is opened again after the first change. -/
theorem answers_alike_storedWorld :
    List.Forall₂ Agree
      (answers "d/p.json" storedWorld (.document ⟨.relative, ["d", "p.json"]⟩)
        [.set "env" "c" storedValue, .reopen, .get "env" "c", .has "env" "a",
          .remove "env" "a", .remove "env" "a", .groups])
      [.ok .done, .ok .done, .ok (.found (some storedValue)), .ok (.known false),
        .ok (.removed true), .ok (.removed false),
        .ok (.all (Table.ofList [("old", .empty),
          ("env", Table.ofList [("b", .int 1), ("c", storedValue)])]))] := by
  have hkeeps : Keeps storedWorld ⟨.relative, ["d", "p.json"]⟩ := ⟨_, _, _, rfl, rfl, rfl⟩
  have hread : storedWorld.read ⟨.relative, ["d", "p.json"]⟩ = .ok storedBytes := by
    decide +kernel
  have hdecode : Utf8.decode storedBytes = .ok storedText := by decide +kernel
  have hvalid : read (unifyLineEnds storedText) =
      .ok (.object [("env", .object [("b", .int 1), ("a", .null)]), ("old", .object [])]) := by
    decide +kernel
  have hbegins : Begins storedWorld ⟨.relative, ["d", "p.json"]⟩ storedGroups :=
    .present hread hdecode hvalid (by decide +kernel)
  have hvalue : storedValue.Storable := by
    refine .object (by decide) (by decide) ?_
    simp only [List.forall_mem_cons]
    exact ⟨.list (by simp [Value.Storable.null, Value.Storable.bool]), .str (by decide), by simp⟩
  refine answers_alike rfl hkeeps hbegins storedWorld ?_
  simp only [List.forall_mem_cons]
  exact ⟨⟨by decide, by decide, hvalue⟩, trivial, trivial, trivial, trivial, trivial, trivial,
    by simp⟩

end Preferences

end Cascade
