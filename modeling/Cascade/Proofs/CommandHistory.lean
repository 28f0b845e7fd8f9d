/-
  Cascade.Proofs.CommandHistory
  ────────────────────────────────
  **THE COMMANDS FOR PREFERENCES ARE A MAP.**

  Every command is a run of the program of its own: it takes its line apart,
  chooses the store, reads the document anew and may replace it.  All that
  is left from one run to the next is the file.  What the file holds is told
  by the history of commands alone: for every group and key the raw value
  that was set last, unless it was removed since.

      Command.parse_line   — the line of a command is taken apart as it was put together
      latest_eq_some_iff   — what is held is what was set last and not removed since
      Verb.Answers.unique  — what is held tells the answer
      Holds.serves         — one command answers from what is held, and changes it
      Stage.run            — so does the run of its line
      answers_of_history   — the answers to any row of commands
-/
import Cascade.CommandLine.Run
import Cascade.Proofs.SettingEquivalence

namespace Cascade

open Cascade.Text
open Cascade.Json

namespace CommandLine.Pref

open Dotenv

/-! ## §1. Commands and their lines. -/

/-- What a command does. -/
inductive Verb
  | get (key : Text)
  | set (key raw : Text)
  | remove (key : Text)
  | list
  deriving DecidableEq

/-- The word a command begins with. -/
def Verb.word : Verb → Text
  | .get _ => "get"
  | .set _ _ => "set"
  | .remove _ => "rm"
  | .list => "list"

/-- The texts that belong to it. -/
def Verb.plain : Verb → List Text
  | .get key => [key]
  | .set key raw => [key, raw]
  | .remove key => [key]
  | .list => []

/-- A command: what it does, the group it names, if it does, after how many of its texts it
names it, and the time and the time of day it is run at. -/
structure Command where
  verb : Verb
  group : Option Text
  place : Nat
  now : Int
  time : Text
  deriving DecidableEq

namespace Command

/-- The flag of the group and the group. -/
def flag (c : Command) : List Text :=
  match c.group with
  | none => []
  | some group => ["--group", group]

/-- The line of a command. -/
def line (c : Command) : List Text :=
  c.verb.word :: (c.verb.plain.take c.place ++ (c.flag ++ c.verb.plain.drop c.place))

/-- The group a command is about. -/
def groupIn (default : Text) (c : Command) : Text := c.group.getD default

/-- A command none of whose texts looks like a flag, that names no empty group, and sets only
what is read again as it is written. -/
structure Proper (c : Command) : Prop where
  noFlag : ∀ t ∈ c.verb.plain, t ≠ "--group" ∧ t ≠ "--prefs"
  named : ∀ group ∈ c.group, group ≠ []
  storable : ∀ key raw, c.verb = .set key raw →
    (∀ group ∈ c.group, Unpaired group) ∧ Unpaired key ∧ (valueOf raw).Storable

end Command

/-- A raw text is blank and set to the empty text, or it is set to the value it has in a line. -/
theorem cases_valueOf (raw : Text) :
    trim raw = [] ∧ valueOf raw = .str [] ∨
      trim raw ≠ [] ∧ Dotenv.value? (trim raw) = some (valueOf raw) := by
  by_cases h : trim raw = []
  · refine .inl ⟨h, ?_⟩
    rw [valueOf, h]
    rfl
  · obtain ⟨v, hv⟩ := exists_value? h
    refine .inr ⟨h, ?_⟩
    simp only [valueOf, hv, Option.getD_some]

/-- A raw value without first halves, as all arguments of a process are, can be set. -/
theorem storable_valueOf {raw : Text} (h : ∀ c ∈ raw, isHighHalf c.toNat = false) :
    (valueOf raw).Storable := by
  rcases cases_valueOf raw with ⟨-, hv⟩ | ⟨-, hv⟩
  · rw [hv]
    exact .str .nil
  · exact (flat_of_value? (fun c hc => h c (mem_of_mem_trim hc)) hv).storable

namespace Arguments

/-- A text that is no flag is positional. -/
theorem addAll_cons (a : Arguments) {t : Text} (h : t ≠ "--group" ∧ t ≠ "--prefs")
    (rest : List Text) : addAll a (t :: rest) = addAll { a with plain := a.plain ++ [t] } rest := by
  cases rest with
  | nil => rfl
  | cons next rest => rw [addAll, if_neg h.1, if_neg h.2]

/-- Texts that are no flags are positional. -/
theorem addAll_append (a : Arguments) {texts : List Text}
    (h : ∀ t ∈ texts, t ≠ "--group" ∧ t ≠ "--prefs") (rest : List Text) :
    addAll a (texts ++ rest) = addAll { a with plain := a.plain ++ texts } rest := by
  induction texts generalizing a with
  | nil => rw [List.nil_append, List.append_nil]
  | cons t texts ih =>
    rw [List.forall_mem_cons] at h
    rw [List.cons_append, addAll_cons a h.1, ih _ h.2, List.append_assoc]
    rfl

end Arguments

/-- **THE LINE OF A COMMAND** is taken apart as it was put together. -/
theorem Command.parse_line {c : Command} (hc : c.Proper) :
    Arguments.parse c.line = .ok ⟨c.verb.word, c.group, none, c.verb.plain⟩ := by
  have hbefore : ∀ t ∈ c.verb.plain.take c.place, t ≠ "--group" ∧ t ≠ "--prefs" :=
    fun t ht => hc.noFlag t (List.mem_of_mem_take ht)
  have hafter : ∀ t ∈ c.verb.plain.drop c.place, t ≠ "--group" ∧ t ≠ "--prefs" :=
    fun t ht => hc.noFlag t (List.mem_of_mem_drop ht)
  have hflag (a : Arguments) (rest : List Text) (ha : a.group = none) :
      Arguments.addAll a (c.flag ++ rest) = Arguments.addAll { a with group := c.group } rest := by
    unfold Command.flag
    cases c.group with
    | none =>
      cases a
      cases ha
      rfl
    | some group => rw [List.cons_append, List.cons_append, Arguments.addAll, if_pos rfl]; rfl
  show Except.ok (Arguments.addAll _ (_ ++ (c.flag ++ _))) = _
  rw [Arguments.addAll_append _ hbefore, hflag _ _ rfl,
    ← List.append_nil (c.verb.plain.drop c.place), Arguments.addAll_append _ hafter]
  simp only [Arguments.addAll, List.nil_append, List.take_append_drop]

/-! ## §2. What is to be answered. -/

/-- The raw values that keys of groups are set to. -/
abbrev Held := Text → Text → Option Text

/-- The raw values after a command on a group. -/
def Verb.change (v : Verb) (group : Text) (held : Held) : Held := fun group' key =>
  match v with
  | .set k raw => if group = group' ∧ k = key then some raw else held group' key
  | .remove k => if group = group' ∧ k = key then none else held group' key
  | .get _ | .list => held group' key

/-- The raw values after one more command. -/
def Command.change (default : Text) (held : Held) (c : Command) : Held :=
  c.verb.change (c.groupIn default) held

/-- The raw values after a history of commands, where none were before. -/
def latest (default : Text) (history : List Command) : Held :=
  history.foldl (Command.change default) fun _ _ => none

/-- What is printed of a raw value: its value as a line has it, nothing if it is blank. -/
def shown? (raw : Text) : Option Text :=
  let text := trim raw
  if text = [] then some [] else (Dotenv.value? text).bind Value.display?

/-- A listing of keys and what is printed of their values. -/
def listed (lines : List (Text × Text)) : Text := lines.flatMap fun l => l.1 ++ "=" ++ l.2 ++ "\n"

/-- What a command answers in a group whose keys are set to raw values. -/
inductive Verb.Answers (held : Text → Option Text) : Verb → Finished → Prop
  | found {key raw text : Text} (set : held key = some raw) (shown : shown? raw = some text) :
      Answers held (.get key) ⟨0, text ++ "\n", []⟩
  | unknown {key : Text} (unset : held key = none) : Answers held (.get key) ⟨1, [], []⟩
  | done {key raw : Text} : Answers held (.set key raw) ⟨0, [], []⟩
  | removed {key raw : Text} (set : held key = some raw) : Answers held (.remove key) ⟨0, [], []⟩
  | absent {key : Text} (unset : held key = none) : Answers held (.remove key) ⟨1, [], []⟩
  | listing {lines : List (Text × Text)}
      (ordered : lines.Pairwise fun l l' => l.1 ≠ l'.1 ∧ le l.1 l'.1 = true)
      (each : ∀ key text, (key, text) ∈ lines ↔
        ∃ raw, held key = some raw ∧ shown? raw = some text) :
      Answers held .list ⟨0, listed lines, []⟩

/-- The answers to commands, each run anew in the world the one before has left. -/
def answers : World → List Command → List (Except Failure Finished)
  | _, [] => []
  | w, c :: commands =>
    let (answer, after) := CommandLine.run { w with now := c.now } c.time ("pref" :: c.line)
    answer :: answers after commands

/-! ## §3. Facts of the specification. -/

/-- A history with one more command. -/
theorem latest_append (default : Text) (history : List Command) (c : Command) :
    latest default (history ++ [c]) = c.change default (latest default history) :=
  List.foldl_append

/-- A command that sets a key of a group or removes it. -/
def Command.Touches (default group key : Text) (c : Command) : Prop :=
  c.groupIn default = group ∧ ((∃ raw, c.verb = .set key raw) ∨ c.verb = .remove key)

/-- A command that does not touch a key leaves what is held of it. -/
theorem Command.change_of_not_touches {default group key : Text} {c : Command}
    (h : ¬ c.Touches default group key) (held : Held) :
    c.change default held group key = held group key := by
  unfold Command.change Verb.change
  split
  · rename_i k raw hv
    refine if_neg ?_
    rintro ⟨hgroup, rfl⟩
    exact h ⟨hgroup, .inl ⟨raw, hv⟩⟩
  · rename_i k hv
    refine if_neg ?_
    rintro ⟨hgroup, rfl⟩
    exact h ⟨hgroup, .inr hv⟩
  · rfl
  · rfl

/-- A command in a history with one more is this one, or it was there before. -/
theorem Command.eq_or_of_split {history before after : List Command} {c c' : Command}
    (h : history ++ [c] = before ++ c' :: after) :
    after = [] ∧ c' = c ∨ ∃ after', after = after' ++ [c] ∧ history = before ++ c' :: after' := by
  rcases List.eq_nil_or_concat' after with rfl | ⟨after', last, rfl⟩
  · exact .inl ⟨rfl, (List.singleton_inj.1 (List.append_inj' h rfl).2).symm⟩
  · rw [← List.cons_append, ← List.append_assoc] at h
    obtain ⟨hbefore, hlast⟩ := List.append_inj' h rfl
    exact .inr ⟨after', by rw [List.singleton_inj.1 hlast], hbefore⟩

/-- **WHAT WAS SET LAST AND NOT REMOVED SINCE** is what is held. -/
theorem latest_eq_some_iff {default group key raw : Text} {history : List Command} :
    latest default history group key = some raw ↔ ∃ before c after,
      history = before ++ c :: after ∧ c.groupIn default = group ∧ c.verb = .set key raw ∧
        ∀ c' ∈ after, ¬ c'.Touches default group key := by
  -- from the last command backwards
  induction history using List.reverseRecOn with
  | nil =>
    constructor
    · intro h
      cases h
    · rintro ⟨before, c, after, h, -⟩
      exact absurd h.symm (by simp)
  | append_singleton history c ih =>
    rw [latest_append]
    constructor
    · intro h
      by_cases ht : c.Touches default group key
      · obtain ⟨hgroup, ⟨raw', hv⟩ | hv⟩ := ht
        · have hraw : some raw' = some raw := by
            simpa [Command.change, Verb.change, hv, hgroup] using h
          cases hraw
          exact ⟨history, c, [], rfl, hgroup, hv, fun c' hc' => by cases hc'⟩
        · simp [Command.change, Verb.change, hv, hgroup] at h
      · rw [Command.change_of_not_touches ht, ih] at h
        obtain ⟨before, c', after, rfl, hgroup, hv, hafter⟩ := h
        refine ⟨before, c', after ++ [c], by simp, hgroup, hv, ?_⟩
        rw [List.forall_mem_append]
        exact ⟨hafter, by simpa using ht⟩
    · rintro ⟨before, c', after, hsplit, hgroup, hv, hafter⟩
      rcases Command.eq_or_of_split hsplit with ⟨rfl, rfl⟩ | ⟨after, rfl, rfl⟩
      · simp [Command.change, Verb.change, hv, hgroup]
      · rw [List.forall_mem_append] at hafter
        rw [Command.change_of_not_touches (hafter.2 c (by simp)), ih]
        exact ⟨before, c', after, rfl, hgroup, hv, hafter.1⟩

/-- A command leaves what is held in other groups. -/
theorem Command.change_of_ne {default group : Text} {c : Command} (h : c.groupIn default ≠ group)
    (held : Held) : c.change default held group = held group := by
  funext key
  unfold Command.change Verb.change
  split
  · rw [if_neg fun hk => h hk.1]
  · rw [if_neg fun hk => h hk.1]
  · rfl
  · rfl

/-- What a command makes of a group depends on what was held in that group only. -/
theorem Command.change_congr {default group : Text} {held held' : Held}
    (h : held group = held' group) (c : Command) :
    c.change default held group = c.change default held' group := by
  funext key
  unfold Command.change Verb.change
  rw [h]

/-- The value a raw text is set to is printed as it is to be. -/
theorem display_valueOf (raw : Text) : (valueOf raw).display? = shown? raw := by
  unfold shown?
  rcases cases_valueOf raw with ⟨hblank, hv⟩ | ⟨hblank, hv⟩
  · rw [if_pos hblank, hv]
    rfl
  · rw [if_neg hblank, hv]
    rfl

/-- The value a raw text is set to is one that a line can assign. -/
theorem assignable_valueOf (raw : Text) : Assignable (valueOf raw) := by
  rcases cases_valueOf raw with ⟨-, hv⟩ | ⟨-, hv⟩
  · rw [hv]
    exact .text []
  · exact assignable_of_value? hv

/-- The value a raw text is set to has no names that could be put in order. -/
theorem inNameOrder_valueOf (raw : Text) : inNameOrder (valueOf raw) = valueOf raw := by
  rcases cases_valueOf raw with ⟨-, hv⟩ | ⟨-, hv⟩
  · rw [hv]
    rfl
  · exact inNameOrder_of_value? hv

/-- Every raw text has a printed form. -/
theorem exists_shown (raw : Text) : ∃ text, shown? raw = some text := by
  rw [← display_valueOf]
  exact (assignable_valueOf raw).writable.display

/-- Lines in the order of distinct keys are told by what they are. -/
theorem eq_of_ordered {lines lines' : List (Text × Text)}
    (h : lines.Pairwise fun l l' => l.1 ≠ l'.1 ∧ le l.1 l'.1 = true)
    (h' : lines'.Pairwise fun l l' => l.1 ≠ l'.1 ∧ le l.1 l'.1 = true)
    (he : ∀ l, l ∈ lines ↔ l ∈ lines') : lines = lines' := by
  have nodup {lines : List (Text × Text)}
      (h : lines.Pairwise fun l l' => l.1 ≠ l'.1 ∧ le l.1 l'.1 = true) : lines.Nodup :=
    h.imp fun hl he => hl.1 (congrArg Prod.fst he)
  refine ((List.perm_ext_iff_of_nodup (nodup h) (nodup h')).2 he).eq_of_pairwise ?_ h h'
  -- two different lines would each come before the other
  intro l l' _ _ hl hl'
  exact absurd (Text.le_antisymm hl.2 hl'.2) hl.1

/-- **THERE IS ONE ANSWER**: what is held tells it. -/
theorem Verb.Answers.unique {held : Text → Option Text} {v : Verb} {f f' : Finished}
    (h : v.Answers held f) (h' : v.Answers held f') : f = f' := by
  cases h with
  | found set shown =>
    cases h' with
    | found set' shown' =>
      cases set.symm.trans set'
      cases shown.symm.trans shown'
      rfl
    | unknown unset => cases set.symm.trans unset
  | unknown unset =>
    cases h' with
    | found set shown => cases set.symm.trans unset
    | unknown => rfl
  | done =>
    cases h'
    rfl
  | removed set =>
    cases h' with
    | removed => rfl
    | absent unset => cases set.symm.trans unset
  | absent unset =>
    cases h' with
    | removed set => cases set.symm.trans unset
    | absent => rfl
  | listing ordered each =>
    cases h' with
    | listing ordered' each' =>
      rw [eq_of_ordered ordered ordered' fun l => (each l.1 l.2).trans (each' l.1 l.2).symm]

/-! ## §4. One command. -/

/-- A document that holds what keys of groups are set to, in a place where it can be written. -/
structure Holds (w : World) (p : Path) (held : Held) : Prop where
  kept : (∀ now, Preferences.Keeps { w with now } p) ∨
    ∃ entry, Preferences.Settled w.files w.cwd p entry
  read : ∃ gs, Preferences.readDocument w p = .ok gs ∧
    ∀ group key, gs.value? group key = (held group key).map valueOf

section

variable {w : World} {p : Path} {held : Held} {group key raw : Text}

/-- A document holds the same at any time. -/
theorem Holds.later (h : Holds w p held) (now : Int) : Holds { w with now } p held :=
  ⟨h.kept, h.read⟩

/-- A document that is replaced holds what was put there. -/
theorem Holds.write (h : Holds w p held) (held' : Held) {gs : Groups} (hg : gs.Storable)
    (hv : ∀ group key, gs.value? group key = (held' group key).map valueOf) :
    ∃ files, Preferences.writeDocument w p gs = (.ok (), { w with files }) ∧
      Holds { w with files } p held' := by
  have hkept : Preferences.Keeps w p ∨ ∃ entry, Preferences.Settled w.files w.cwd p entry :=
    h.kept.imp (fun hk => hk w.now) id
  obtain ⟨files, entry, gs', hwrite, hsettled, hread, -, horder⟩ :=
    Preferences.exists_rewritten hkept hg
  refine ⟨files, hwrite, .inr ⟨entry, hsettled⟩, gs', hread, fun group key => ?_⟩
  rw [Groups.value?_of_inNameOrder horder, hv, Option.map_map]
  -- what is set has no names that could be put in order
  exact congrArg (Option.map · _) (funext inNameOrder_valueOf)

/-- A verb in a group that sets only what is read again as it is written. -/
def Verb.Storable (group : Text) : Verb → Prop
  | .set key raw => Unpaired group ∧ Unpaired key ∧ (valueOf raw).Storable
  | _ => True

/-- What one command on a group comes to: the answer from what is held, and what is held after
it. -/
def Serves (w : World) (p : Path) (held : Held) (group : Text) (v : Verb) : Prop :=
  ∃ effect f files, dispatch w (.document p) group v.word v.plain = effect ∧
    finish effect.outcome = .ok f ∧ effect.world = { w with files } ∧ v.Answers (held group) f ∧
      Holds { w with files } p (v.change group held)

/-- The value of a key is printed. -/
theorem Holds.serves_get (h : Holds w p held) (group key : Text) :
    Serves w p held group (.get key) := by
  obtain ⟨gs, hread, hvalue⟩ := h.read
  have hget : (Preferences.document p).get? w group key = .ok ((held group key).map valueOf) := by
    have hgroups : (Preferences.document p).groups w = .ok gs := hread
    rw [Preferences.get?, hgroups, ← hvalue]
    rfl
  cases hheld : held group key with
  | none =>
    refine ⟨_, _, w.files, rfl, ?_, rfl, .unknown hheld, h⟩
    show finish (runGet w _ group key) = _
    rw [runGet, hget, hheld]
    rfl
  | some raw =>
    obtain ⟨text, htext⟩ := exists_shown raw
    refine ⟨_, _, w.files, rfl, ?_, rfl, .found hheld htext, h⟩
    show finish (runGet w _ group key) = _
    have hdisplayed : Resolver.displayed (valueOf raw) = .ok text := by
      rw [Resolver.displayed, display_valueOf, htext]
    simp only [runGet, hget, hheld, Option.map_some, Option.getD_some,
      if_neg (assignable_valueOf raw).ne_null, hdisplayed]
    rfl

/-- Setting a key leads to what the store makes of it. -/
theorem dispatch_set (w : World) (s : Preferences) (group key raw : Text) :
    dispatch w s group "set" [key, raw] =
      ⟨⟨[], (s.set w group key (valueOf raw)).1.map fun _ => 0⟩,
        (s.set w group key (valueOf raw)).2.1, (s.set w group key (valueOf raw)).2.2⟩ := rfl

/-- So does removing one. -/
theorem dispatch_remove (w : World) (s : Preferences) (group key : Text) :
    dispatch w s group "rm" [key] =
      ⟨⟨[], (s.remove w group key).1.map fun removed => if removed then 0 else 1⟩,
        (s.remove w group key).2.1, (s.remove w group key).2.2⟩ := rfl

/-- A key is set. -/
theorem Holds.serves_set (h : Holds w p held) (hv : (Verb.set key raw).Storable group) :
    Serves w p held group (.set key raw) := by
  obtain ⟨hgroup, hkey, hraw⟩ := hv
  obtain ⟨gs, hread, hvalue⟩ := h.read
  have hgroups : (Preferences.document p).groups w = .ok gs := hread
  have hstorable := (Preferences.storable_of_readDocument hread).set hgroup hkey hraw
  obtain ⟨files, hwrite, hholds⟩ := h.write ((Verb.set key raw).change group held)
    hstorable fun group' key' => by
      rw [Groups.value?_set, hvalue, Verb.change]
      split <;> rfl
  have hset : (Preferences.document p).set w group key (valueOf raw) =
      (.ok (), { w with files }, .document p) := by
    simp only [Preferences.set, hgroups, Preferences.store, hwrite]
  refine ⟨⟨⟨[], .ok 0⟩, { w with files }, .document p⟩, _, files, ?_, rfl, rfl, .done, hholds⟩
  show dispatch w (.document p) group "set" [key, raw] = _
  rw [dispatch_set, hset]
  rfl

/-- A key is removed, or was not set. -/
theorem Holds.serves_remove (h : Holds w p held) (group key : Text) :
    Serves w p held group (.remove key) := by
  obtain ⟨gs, hread, hvalue⟩ := h.read
  have hgroups : (Preferences.document p).groups w = .ok gs := hread
  cases hheld : held group key with
  | none =>
    have hnone : gs.remove? group key = none := by
      rw [Groups.remove?_eq_none_iff, hvalue, hheld]
      rfl
    have hsame : (Verb.remove key).change group held = held := by
      funext group' key'
      show (if group = group' ∧ key = key' then none else held group' key') = held group' key'
      split
      · rename_i he
        rw [← he.1, ← he.2, hheld]
      · rfl
    refine ⟨⟨⟨[], .ok 1⟩, w, .document p⟩, _, w.files, ?_, rfl, rfl, .absent hheld,
      by rw [hsame]; exact h⟩
    show dispatch w (.document p) group "rm" [key] = _
    rw [dispatch_remove]
    simp only [Preferences.remove, hgroups, hnone]
    rfl
  | some raw =>
    obtain ⟨gs', hgs'⟩ : ∃ gs', gs.remove? group key = some gs' := by
      refine Option.ne_none_iff_exists'.1 fun hnone => ?_
      rw [Groups.remove?_eq_none_iff, hvalue, hheld] at hnone
      cases hnone
    have hstorable := (Preferences.storable_of_readDocument hread).remove? hgs'
    obtain ⟨files, hwrite, hholds⟩ := h.write ((Verb.remove key).change group held)
      hstorable fun group' key' => by
        rw [Groups.value?_of_remove? hgs', hvalue, Verb.change]
        split <;> rfl
    refine ⟨⟨⟨[], .ok 0⟩, { w with files }, .document p⟩, _, files, ?_, rfl, rfl,
      .removed hheld, hholds⟩
    show dispatch w (.document p) group "rm" [key] = _
    rw [dispatch_remove]
    simp only [Preferences.remove, hgroups, hgs', Preferences.store, hwrite]
    rfl

/-- Entries that can be printed are listed. -/
theorem listing_eq {entries : List (Text × Value)}
    (h : ∀ e ∈ entries, ∃ raw, e.2 = valueOf raw) :
    Resolver.listing entries =
      ⟨listed (entries.map fun e => (e.1, e.2.display?.getD [])), .ok ()⟩ := by
  induction entries with
  | nil => rfl
  | cons e entries ih =>
    obtain ⟨key, v⟩ := e
    rw [List.forall_mem_cons] at h
    obtain ⟨⟨raw, hraw⟩, hentries⟩ := h
    obtain ⟨text, htext⟩ := exists_shown raw
    have hdisplay : v.display? = some text := by
      rw [show v = valueOf raw from hraw, display_valueOf, htext]
    have hdisplayed : Resolver.displayed v = .ok text := by rw [Resolver.displayed, hdisplay]
    rw [Resolver.listing, hdisplayed, ih hentries]
    simp only [listed, List.map_cons, List.flatMap_cons, hdisplay, Option.getD_some]

/-- The entries of a table in the order of their keys. -/
theorem ordered_sortBy (g : Mapping Value) (f : Text × Value → Text) :
    ((sortBy Prod.fst g.entries).map fun e => (e.1, f e)).Pairwise
      fun l l' => l.1 ≠ l'.1 ∧ le l.1 l'.1 = true := by
  have hdistinct : ((sortBy Prod.fst g.entries).map Prod.fst).Nodup :=
    ((sortBy_perm Prod.fst g.entries).map Prod.fst).nodup_iff.2 g.distinct
  rw [List.pairwise_map]
  exact (List.pairwise_map.1 hdistinct).and (pairwise_sortBy Prod.fst g.entries)

/-- The keys of a group are listed. -/
theorem Holds.serves_list (h : Holds w p held) (group : Text) : Serves w p held group .list := by
  obtain ⟨gs, hread, hvalue⟩ := h.read
  have hgroups : (Preferences.document p).groups w = .ok gs := hread
  have hget (key : Text) : ((gs.get? group).getD .empty).get? key =
      (held group key).map valueOf := by
    rw [← hvalue, Groups.value?]
    cases gs.get? group <;> rfl
  generalize hg : (gs.get? group).getD .empty = g at hget
  have hentry (key : Text) (v : Value) :
      (key, v) ∈ g.entries ↔ ∃ raw, held group key = some raw ∧ v = valueOf raw := by
    rw [← Table.get?_eq_some_iff, hget, Option.map_eq_some_iff]
    exact exists_congr fun raw => and_congr_right fun _ => eq_comm
  have hraw : ∀ e ∈ sortBy Prod.fst g.entries, ∃ raw, e.2 = valueOf raw := by
    intro e he
    obtain ⟨raw, -, hv⟩ := (hentry e.1 e.2).1 ((sortBy_perm _ _).mem_iff.1 he)
    exact ⟨raw, hv⟩
  refine ⟨_, _, w.files, rfl, ?_, rfl, .listing (ordered_sortBy g fun e => e.2.display?.getD [])
    fun key text => ?_, h⟩
  · show finish (runList w (.document p) group) = _
    rw [runList, hgroups]
    simp only [hg, Outcome.ofPrinted, listing_eq hraw]
    rfl
  · -- a line is that of an entry, and an entry is what is held for its key
    constructor
    · intro hl
      obtain ⟨⟨key', v⟩, he, hline⟩ := List.mem_map.1 hl
      obtain ⟨raw, hheld, rfl⟩ := (hentry key' v).1 ((sortBy_perm _ _).mem_iff.1 he)
      obtain ⟨text', htext⟩ := exists_shown raw
      rw [display_valueOf, htext] at hline
      cases hline
      exact ⟨raw, hheld, htext⟩
    · rintro ⟨raw, hheld, htext⟩
      refine List.mem_map.2 ⟨(key, valueOf raw), (sortBy_perm _ _).mem_iff.2 ?_, ?_⟩
      · exact (hentry key _).2 ⟨raw, hheld, rfl⟩
      · rw [display_valueOf, htext]
        rfl

/-- **ONE COMMAND ON A GROUP** answers from what is held, and changes it as it says. -/
theorem Holds.serves (h : Holds w p held) {v : Verb} (hv : v.Storable group) :
    Serves w p held group v := by
  cases v with
  | get key => exact h.serves_get group key
  | set key raw => exact h.serves_set hv
  | remove key => exact h.serves_remove group key
  | list => exact h.serves_list group

end

/-! ## §5. Rows of commands. -/

/-- The store that is set in the environment. -/
def defaultStore (w : World) : Except Failure Preferences :=
  Preferences.make w .ofProcess (Secrets.ofProcess.getD w.environ "ENVCHAIN_PREFS" "json")

/-- The group that is set in the environment. -/
def defaultGroup (w : World) : Text :=
  Secrets.ofProcess.getD w.environ "ENVCHAIN_PREF_GROUP" "env"

/-- A world whose document holds what keys of groups are set to, and in which commands are about
this document and, unless they name another one, a group. -/
structure Stage (w : World) (p : Path) (default : Text) (held : Held) : Prop where
  store : defaultStore w = .ok (.document p)
  group : defaultGroup w = default
  holds : Holds w p held

section

variable {w w' : World} {p p' : Path} {default : Text} {held held' : Held} {c : Command}

/-- **THE RUN OF A COMMAND** answers from what is held, and the world after it holds what the
command makes of this. -/
theorem Stage.run (h : Stage w p default held) (hc : c.Proper) :
    ∃ f w', CommandLine.run { w with now := c.now } c.time ("pref" :: c.line) = (.ok f, w') ∧
      c.verb.Answers (held (c.groupIn default)) f ∧ Stage w' p default (c.change default held) := by
  have hgroup : groupOf { w with now := c.now } ⟨c.verb.word, c.group, none, c.verb.plain⟩ =
      c.groupIn default := by
    rw [← h.group]
    unfold groupOf Command.groupIn
    cases hg : c.group with
    | none => rfl
    | some group =>
      cases group with
      | nil => exact absurd rfl (hc.named [] hg)
      | cons first rest => rfl
  have hstore : storeOf { w with now := c.now } ⟨c.verb.word, c.group, none, c.verb.plain⟩ =
      .ok (.document p) := h.store
  have hstorable : c.verb.Storable (c.groupIn default) := by
    cases hv : c.verb with
    | set key raw =>
      obtain ⟨hnamed, hkey, hraw⟩ := hc.storable key raw hv
      refine ⟨?_, hkey, hraw⟩
      unfold Command.groupIn
      cases hg : c.group with
      | none => exact h.group ▸ unpaired_defaultGroup w
      | some group => exact hnamed group hg
    | _ => trivial
  obtain ⟨effect, f, files, hdispatch, hfinish, hworld, hanswers, hholds⟩ :=
    (h.holds.later c.now).serves hstorable
  refine ⟨f, { w with files, now := c.now }, ?_, hanswers, h.store, h.group, hholds⟩
  show Pref.run { w with now := c.now } c.line = _
  unfold Pref.run
  rw [Command.parse_line hc]
  simp only [hstore, hgroup, hdispatch, hfinish, hworld]

/-- **EVERY COMMAND OF A ROW ANSWERS FROM WHAT THE ONES BEFORE IT HAVE LEFT.** -/
theorem Stage.answered (h : Stage w p default held) {commands : List Command}
    (hc : ∀ c ∈ commands, c.Proper) (i : Nat) (hi : i < commands.length) :
    ∃ f, (answers w commands)[i]? = some (.ok f) ∧ commands[i].verb.Answers
      ((commands.take i).foldl (Command.change default) held (commands[i].groupIn default)) f := by
  induction commands generalizing w held i with
  | nil => cases hi
  | cons c commands ih =>
    rw [List.forall_mem_cons] at hc
    obtain ⟨f, w', hrun, hanswers, hstage⟩ := h.run hc.1
    simp only [Pref.answers, hrun]
    cases i with
    | zero => exact ⟨f, rfl, hanswers⟩
    | succ i => exact ih hstage hc.2 i (Nat.lt_of_succ_lt_succ hi)

/-- The answers to the commands on a group. -/
def answersIn (default group : Text) (w : World) (commands : List Command) :
    List (Except Failure Finished) :=
  ((commands.zip (answers w commands)).filter fun e => e.1.groupIn default = group).map Prod.snd

/-- **COMMANDS ON OTHER GROUPS ARE NOT SEEN**: the answers to the commands on a group are those to
these commands alone. -/
theorem Stage.answersIn_eq (h : Stage w p default held) (h' : Stage w' p' default held')
    {group : Text} (hg : held group = held' group) {commands : List Command}
    (hc : ∀ c ∈ commands, c.Proper) :
    answersIn default group w commands =
      answers w' (commands.filter fun c => c.groupIn default = group) := by
  induction commands generalizing w w' held held' with
  | nil => rfl
  | cons c commands ih =>
    rw [List.forall_mem_cons] at hc
    obtain ⟨f, v, hrun, hanswers, hstage⟩ := h.run hc.1
    unfold answersIn
    simp only [Pref.answers, hrun, List.zip_cons_cons, List.filter_cons]
    by_cases hname : c.groupIn default = group
    · obtain ⟨f', v', hrun', hanswers', hstage'⟩ := h'.run hc.1
      have hsame : f = f' := by
        rw [hname, hg] at hanswers
        rw [hname] at hanswers'
        exact hanswers.unique hanswers'
      have hlater := ih hstage hstage' (Command.change_congr hg c) hc.2
      simp only [hname, decide_true, if_true, List.map_cons, Pref.answers, hrun', hsame]
      exact congrArg _ hlater
    · simp only [hname, decide_false, Bool.false_eq_true, if_false]
      exact ih hstage h' ((Command.change_of_ne hname held).trans hg) hc.2

end

/-! ## §6. Any row of commands. -/

/-- **THE COMMANDS FOR PREFERENCES ARE A MAP.**  Over a document that is not there at first, at a
path where documents can be kept, every command of any row, each a run of its own, answers from
what the commands before it have set in its group and not removed: a key that is set is printed
as the value of its raw text and can be removed, one that is not is told by the status, and the
keys that are set are listed in order.  Commands on one group answer as if there were no others. -/
theorem answers_of_history {w : World} {p : Path} (hstore : defaultStore w = .ok (.document p))
    (hkeeps : ∀ now, Preferences.Keeps { w with now } p)
    (habsent : w.read p = .error .notFound) {commands : List Command}
    (hc : ∀ c ∈ commands, c.Proper) :
    (∀ (i : Nat) (hi : i < commands.length), ∃ f, (answers w commands)[i]? = some (.ok f) ∧
      commands[i].verb.Answers
        (latest (defaultGroup w) (commands.take i) (commands[i].groupIn (defaultGroup w))) f) ∧
    ∀ group, answersIn (defaultGroup w) group w commands =
      answers w (commands.filter fun c => c.groupIn (defaultGroup w) = group) := by
  have hread : Preferences.readDocument w p = .ok .empty := by
    unfold Preferences.readDocument
    rw [habsent]
  have hstage : Stage w p (defaultGroup w) fun _ _ => none :=
    ⟨hstore, rfl, .inl hkeeps, .empty, hread, fun _ _ => rfl⟩
  exact ⟨hstage.answered hc, fun group => hstage.answersIn_eq hstage rfl hc⟩

/-- A world without files and variables. -/
def bareWorld : World where
  files := ⟨.empty⟩
  cwd := ⟨[], 0⟩
  environ := .empty
  users := ⟨some "/root", .empty⟩
  now := 0

/-- Commands on two groups: a list without items is set in one, a blank text in the other. -/
def twoGroups : List Command :=
  [⟨.set "k" "\x7b\x7d", none, 0, 1, "09:00:00"⟩, ⟨.set "k" " ", some "g", 1, 2, "09:00:01"⟩,
    ⟨.remove "k", none, 0, 3, "09:00:02"⟩, ⟨.get "k", some "g", 0, 4, "09:00:03"⟩]

/-- The blank text is still there as the empty one, after the list was removed. -/
theorem answers_of_history_twoGroups :
    (answers bareWorld twoGroups)[3]? = some (.ok ⟨0, "\n", []⟩) ∧
      answersIn "env" "g" bareWorld twoGroups =
        answers bareWorld [⟨.set "k" " ", some "g", 1, 2, "09:00:01"⟩,
          ⟨.get "k", some "g", 0, 4, "09:00:03"⟩] := by
  have hkeeps (now : Int) : Preferences.Keeps { bareWorld with now }
      ⟨.root, ["root", ".envchain", "preferences.json"]⟩ := ⟨_, _, _, rfl, rfl, rfl⟩
  have habsent : bareWorld.read ⟨.root, ["root", ".envchain", "preferences.json"]⟩ =
      .error .notFound := by decide +kernel
  have hproper : ∀ c ∈ twoGroups, c.Proper := by
    have plain {v : Verb} {group : Option Text} {place : Nat} {now : Int} {time : Text}
        (hv : ∀ t ∈ v.plain, t ≠ "--group" ∧ t ≠ "--prefs") (hg : ∀ g ∈ group, g = "g")
        (hk : ∀ key raw, v = .set key raw → key = "k" ∧ ∀ c ∈ raw, isHighHalf c.toNat = false) :
        Command.Proper ⟨v, group, place, now, time⟩ := by
      refine ⟨hv, fun g hm => ?_, fun key raw hset => ⟨fun g hm => ?_, ?_, ?_⟩⟩
      · rw [hg g hm]
        decide
      · rw [hg g hm]
        decide
      · rw [(hk key raw hset).1]
        decide
      · exact storable_valueOf (hk key raw hset).2
    simp only [twoGroups, List.forall_mem_cons]
    refine ⟨plain (by decide) (by simp) ?_, plain (by decide) (by simp) ?_,
      plain (by decide) (by simp) ?_, plain (by decide) (by simp) ?_, by simp⟩
    · rintro key raw ⟨⟩
      decide
    · rintro key raw ⟨⟩
      decide
    · rintro key raw ⟨⟩
    · rintro key raw ⟨⟩
  obtain ⟨hanswers, halone⟩ := answers_of_history rfl hkeeps habsent hproper
  obtain ⟨f, hf, hanswer⟩ := hanswers 3 (by decide)
  have hset : latest "env" (twoGroups.take 3) "g" "k" = some " " := by decide +kernel
  have hshown : shown? " " = some [] := by decide +kernel
  have hgroup : defaultGroup bareWorld = "env" := by decide +kernel
  have hfilter : (twoGroups.filter fun c => c.groupIn "env" = ("g" : Text)) =
      [⟨.set "k" " ", some "g", 1, 2, "09:00:01"⟩, ⟨.get "k", some "g", 0, 4, "09:00:03"⟩] := by
    decide +kernel
  rw [hgroup] at hanswer halone
  constructor
  · rw [hf, hanswer.unique (.found hset hshown)]
    rfl
  · rw [halone, hfilter]

end CommandLine.Pref

end Cascade
