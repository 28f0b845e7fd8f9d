/-
  Cascade.Proofs.FlagMasking
  ────────────────────────────────
  **A FLAG MASKS THE VARIABLE OF ITS SETTING.**

  The value that a flag is given replaces what its variable says, and where
  the variable is set to this value the flag is not needed.

  But when the flags are looked at, the variables were checked.  A cache
  policy without meaning, or a pinned file in a home that is not known,
  fails although a flag would have replaced it.

      parse_without   — arguments without the occurrences of a flag
      Masks           — what a flag leaves of the variable of its setting
      build_of_given  — a flag that is given masks the variable, which is
                        checked nevertheless
-/
import Cascade.Proofs.OneVariable

namespace Cascade

open Cascade.Text
open Settings

/-! ## §1. Arguments without a flag. -/

namespace Entries

variable {κ α : Type} [DecidableEq κ]

/-- Entries with distinct keys, cut at one of them. -/
theorem exists_cut {k : κ} {v : α} {es : List (κ × α)} (hd : (es.map Prod.fst).Nodup)
    (h : (k, v) ∈ es) :
    ∃ before after, es = before ++ (k, v) :: after ∧ erase k es = before ++ after ∧
      k ∉ before.map Prod.fst ∧ k ∉ after.map Prod.fst := by
  obtain ⟨before, after, rfl⟩ := List.append_of_mem h
  rw [List.map_append, List.map_cons, List.nodup_middle, List.nodup_cons, List.mem_append,
    not_or] at hd
  have hkeep (es : List (κ × α)) (hk : k ∉ es.map Prod.fst) : erase k es = es :=
    List.filter_eq_self.2 fun e he =>
      decide_eq_true fun hek : e.1 = k => hk (hek ▸ List.mem_map_of_mem he)
  refine ⟨before, after, rfl, ?_, hd.1.1, hd.1.2⟩
  show (before ++ (k, v) :: after).filter _ = _
  rw [List.filter_append, List.filter_cons_of_neg (by simp)]
  exact congrArg₂ (· ++ ·) (hkeep before hd.1.1) (hkeep after hd.1.2)

/-- An entry that is taken out may as well not be put in. -/
theorem erase_insert_self (k : κ) (v : α) (es : List (κ × α)) :
    erase k (insert k v es) = erase k es := by
  induction es with
  | nil => exact List.filter_cons_of_neg (by simp)
  | cons e es ih =>
    obtain ⟨k', v'⟩ := e
    by_cases hk : k' = k
    · subst hk
      rw [insert, if_pos rfl]
      show List.filter _ _ = List.filter _ _
      rw [List.filter_cons_of_neg (by simp), List.filter_cons_of_neg (by simp)]
    · rw [insert, if_neg hk]
      show List.filter _ _ = List.filter _ _
      rw [List.filter_cons_of_pos (by simp [hk]), List.filter_cons_of_pos (by simp [hk])]
      exact congrArg _ ih

/-- Another entry is put in alike. -/
theorem erase_insert_of_ne {k k' : κ} (h : k' ≠ k) (v : α) (es : List (κ × α)) :
    erase k (insert k' v es) = insert k' v (erase k es) := by
  have hin (v : α) (es : List (κ × α)) : erase k ((k', v) :: es) = (k', v) :: erase k es :=
    List.filter_cons_of_pos (by simp [h])
  induction es with
  | nil => exact hin v []
  | cons e es ih =>
    obtain ⟨l, u⟩ := e
    by_cases hl : l = k'
    · subst hl
      rw [insert, if_pos rfl, hin, hin, insert, if_pos rfl]
    · rw [insert, if_neg hl]
      by_cases hk : l = k
      · subst hk
        have hout (es : List (κ × α)) : erase l ((l, u) :: es) = erase l es :=
          List.filter_cons_of_neg (by simp)
        rw [hout, hout, ih]
      · have hkeep (es : List (κ × α)) : erase k ((l, u) :: es) = (l, u) :: erase k es :=
          List.filter_cons_of_pos (by simp [hk])
        rw [hkeep, hkeep, insert, if_neg hl, ih]

end Entries

namespace Table

variable {κ α : Type} [DecidableEq κ]

theorem erase_insert_self (t : Table κ α) (k : κ) (v : α) :
    (t.insert k v).erase k = t.erase k := by
  unfold erase insert
  simp only [Entries.erase_insert_self]

theorem erase_insert_of_ne (t : Table κ α) {k k' : κ} (h : k' ≠ k) (v : α) :
    (t.insert k' v).erase k = (t.erase k).insert k' v := by
  unfold erase insert
  simp only [Entries.erase_insert_of_ne h]

end Table

namespace CommandLine.Arguments

variable {f : Setting} {a b : Arguments} {argv : List Text}

/-- The arguments without a setting. -/
def unset (f : Setting) (a : Arguments) : Arguments := { a with flags := a.flags.erase f.flag }

/-- The values that a command line gives a setting, in order. -/
def given (f : Setting) : List Text → List Text
  | [] => []
  | [_] => []
  | argument :: value :: rest =>
    match valueFlag? argument with
    | some flag =>
      if flag = .setting f.flag then value :: given f rest else given f rest
    | none => given f (value :: rest)

/-- A command line without the occurrences of the flag of a setting and their values. -/
def without (f : Setting) : List Text → List Text
  | [] => []
  | [argument] => [argument]
  | argument :: value :: rest =>
    match valueFlag? argument with
    | some flag =>
      if flag = .setting f.flag then without f rest else argument :: value :: without f rest
    | none => argument :: without f (value :: rest)

/-- The flag of another setting is added alike. -/
theorem addFlag_unset (a : Arguments) (value : Text) {flag : ValueFlag}
    (h : flag ≠ .setting f.flag) :
    (unset f a).addFlag value flag = (a.addFlag value flag).map (unset f) := by
  cases flag with
  | setting name =>
    have hname : name ≠ f.flag := fun hn => h (congrArg ValueFlag.setting hn)
    show Except.ok { a with flags := (a.flags.erase f.flag).insert name value } =
      Except.ok { a with flags := (a.flags.insert name value).erase f.flag }
    rw [a.flags.erase_insert_of_ne hname]
  | startDir => rfl
  | overrides =>
    unfold addFlag
    dsimp only
    cases readOverrides value <;> rfl

theorem addOther_unset (a : Arguments) (argument : Text) :
    (unset f a).addOther argument = (a.addOther argument).map (unset f) := by
  unfold addOther
  split_ifs <;> rfl

theorem addAll_flag (a : Arguments) {argument : Text} (value : Text) (rest : List Text)
    {flag : ValueFlag} (hv : valueFlag? argument = some flag) :
    addAll a (argument :: value :: rest) = a.addFlag value flag >>= fun a => addAll a rest := by
  rw [addAll, hv]

theorem addAll_other (a : Arguments) {argument : Text} (rest : List Text)
    (hv : valueFlag? argument = none) :
    addAll a (argument :: rest) = a.addOther argument >>= fun a => addAll a rest := by
  cases rest with
  | nil =>
    rw [addAll, hv]
    show a.addOther argument = a.addOther argument >>= fun a => .ok a
    cases a.addOther argument <;> rfl
  | cons value rest => rw [addAll, hv]

/-- Without the occurrences of a flag the arguments are the same, but for its setting. -/
theorem addAll_without (h : addAll a argv = .ok b) :
    addAll (unset f a) (without f argv) = .ok (unset f b) := by
  induction argv using without.induct f generalizing a with
  | case1 => cases h; rfl
  | case2 argument =>
    rw [without]
    cases hv : valueFlag? argument with
    | some flag => rw [addAll, hv] at h; cases h
    | none =>
      rw [addAll_other a [] hv] at h
      rw [addAll_other _ [] hv, addOther_unset]
      cases ha : a.addOther argument with
      | error failure => rw [ha] at h; cases h
      | ok a' => rw [ha] at h; cases h; rfl
  | case3 argument value rest hv ih =>
    -- an occurrence: what it sets is taken out again
    rw [addAll_flag a value rest hv] at h
    have hset : addAll { a with flags := a.flags.insert f.flag value } rest = .ok b := h
    have hunset : unset f { a with flags := a.flags.insert f.flag value } = unset f a :=
      congrArg (fun flags => { a with flags }) (a.flags.erase_insert_self f.flag value)
    have hout := ih hset
    rw [hunset] at hout
    rw [without, hv]
    show addAll (unset f a) (if _ then _ else _) = _
    rw [if_pos rfl]
    exact hout
  | case4 argument value rest flag hv hne ih =>
    rw [addAll_flag a value rest hv] at h
    rw [without, hv]
    show addAll (unset f a) (if _ then _ else _) = _
    rw [if_neg hne, addAll_flag _ value _ hv, addFlag_unset a value hne]
    cases ha : a.addFlag value flag with
    | error failure => rw [ha] at h; cases h
    | ok a' => rw [ha] at h; exact ih h
  | case5 argument value rest hv ih =>
    rw [addAll_other a _ hv] at h
    rw [without, hv]
    show addAll (unset f a) (argument :: without f (value :: rest)) = _
    rw [addAll_other _ _ hv, addOther_unset]
    cases ha : a.addOther argument with
    | error failure => rw [ha] at h; cases h
    | ok a' => rw [ha] at h; exact ih h

theorem flags_of_addOther {argument : Text} (h : a.addOther argument = .ok b) :
    b.flags = a.flags := by
  unfold addOther at h
  split_ifs at h <;> cases h <;> rfl

/-- The flag of another setting leaves a setting as it is. -/
theorem get?_flags_of_addFlag {value : Text} {flag : ValueFlag} (hne : flag ≠ .setting f.flag)
    (h : a.addFlag value flag = .ok b) : b.flags.get? f.flag = a.flags.get? f.flag := by
  cases flag with
  | setting name =>
    cases h
    show (a.flags.insert name value).get? f.flag = _
    rw [Table.get?_insert, if_neg fun hn => hne (congrArg ValueFlag.setting hn)]
  | startDir => cases h; rfl
  | overrides =>
    unfold addFlag at h
    dsimp only at h
    cases ho : readOverrides value with
    | error failure => rw [ho] at h; cases h
    | ok texts => rw [ho] at h; cases h; rfl

/-- The last value given to a setting is the one it has. -/
theorem get?_flags_of_addAll (h : addAll a argv = .ok b) :
    b.flags.get? f.flag = (given f argv).getLast?.or (a.flags.get? f.flag) := by
  induction argv using given.induct f generalizing a with
  | case1 => cases h; rfl
  | case2 argument =>
    cases hv : valueFlag? argument with
    | some flag => rw [addAll, hv] at h; cases h
    | none =>
      rw [addAll, hv] at h
      exact congrArg (fun flags => flags.get? f.flag) (flags_of_addOther h)
  | case3 argument value rest hv ih =>
    rw [addAll_flag a value rest hv] at h
    have hset : addAll { a with flags := a.flags.insert f.flag value } rest = .ok b := h
    rw [ih hset, given, hv]
    show _ = (if _ then _ else _ : List Text).getLast?.or _
    rw [if_pos rfl, List.getLast?_cons, Table.get?_insert, if_pos rfl]
    cases (given f rest).getLast? <;> rfl
  | case4 argument value rest flag hv hne ih =>
    rw [addAll_flag a value rest hv] at h
    rw [given, hv]
    show _ = (if _ then _ else _ : List Text).getLast?.or _
    rw [if_neg hne]
    cases ha : a.addFlag value flag with
    | error failure => rw [ha] at h; cases h
    | ok a' =>
      rw [ha] at h
      rw [ih h, get?_flags_of_addFlag hne ha]
  | case5 argument value rest hv ih =>
    rw [addAll_other a _ hv] at h
    rw [given, hv]
    cases ha : a.addOther argument with
    | error failure => rw [ha] at h; cases h
    | ok a' =>
      rw [ha] at h
      rw [ih h, flags_of_addOther ha]

/-- Arguments are those that all items add to none, one or two of them plain. -/
theorem addAll_of_parse (h : parse argv = .ok a) :
    addAll empty argv = .ok a ∧ (a.plain.length = 1 ∨ a.plain.length = 2) := by
  unfold parse at h
  cases hadd : addAll empty argv with
  | error failure => rw [hadd] at h; cases h
  | ok a' =>
    rw [hadd] at h
    simp only [bind, Except.bind] at h
    split_ifs at h with hp
    cases h
    exact ⟨rfl, hp⟩

/-- A command line is taken without the occurrences of a flag as well. -/
theorem parse_without (f : Setting) (h : parse argv = .ok a) :
    parse (without f argv) = .ok (unset f a) := by
  obtain ⟨hadd, hp⟩ := addAll_of_parse h
  have hout : addAll empty (without f argv) = .ok (unset f a) := addAll_without hadd
  unfold parse
  rw [hout]
  exact if_pos hp

/-- The last value given to a setting is the one it has. -/
theorem get?_flags_of_parse (h : parse argv = .ok a) :
    a.flags.get? f.flag = (given f argv).getLast? := by
  rw [get?_flags_of_addAll (addAll_of_parse h).1]
  exact Option.or_none

end CommandLine.Arguments

/-! ## §2. Masking. -/

namespace CommandLine.Setting

variable {w w' : World} {s : Secrets} {f : Setting}

/-- A variable that passes its check is taken as a flag. -/
theorem exists_read_of_check (h : f.check w s = .ok ()) :
    ∀ t, (f.flag, t) ∈ asFlags w s → ∃ C, f.read w t = .ok C := by
  intro t ht
  unfold check at h
  rw [mem_asFlags.1 ht] at h
  cases hr : f.read w t with
  | error failure => simp only [hr] at h; cases h
  | ok C => exact ⟨C, rfl⟩

/-- A variable that does not pass its check is no flag that converts. -/
theorem read_of_check_error {t : Text} {failure : Failure}
    (hv : s.get? w.environ f.varName = some t) (h : f.check w s = .error failure) :
    f.read w t = .error failure := by
  unfold check at h
  rw [hv] at h
  cases hr : f.read w t with
  | error other => simp only [hr] at h; cases h; rfl
  | ok C => simp only [hr] at h; cases h

/-- Where one check fails, checking all of them fails. -/
theorem exists_error_of_check {failure : Failure} (h : f.check w s = .error failure) :
    ∃ first, checkAll w s = .error first := by
  suffices ∀ l : List Setting, f ∈ l →
      ∃ first, (l.forM fun f => f.check w s) = .error first from this all (mem_all f)
  intro l hl
  induction l with
  | nil => exact absurd hl List.not_mem_nil
  | cons g l ih =>
    show ∃ first, (g.check w s >>= fun _ => l.forM fun f => f.check w s) = .error first
    cases hg : g.check w s with
    | error first => exact ⟨first, rfl⟩
    | ok _ =>
      rcases List.mem_cons.1 hl with rfl | hl
      · rw [h] at hg; cases hg
      · exact ih hl

/-- The checks of all variables depend on a variable through its own check. -/
theorem checkAll_congr (h : w.AgreesBut f.varName w') (hf : f.check w s = f.check w' s) :
    checkAll w s = checkAll w' s := by
  have hcheck : (fun g : Setting => g.check w s) = fun g => g.check w' s := by
    funext g
    by_cases hg : g = f
    · rw [hg, hf]
    · exact h.check s hg
  unfold checkAll
  rw [hcheck]

/-- The settings in an environment fail as the checks of its variables do. -/
theorem settle_eq_checkAll (w : World) (s : Secrets) :
    (Arguments.settle w standard (asFlags w s)).map (fun _ => ()) = checkAll w s := by
  rw [asFlags, settle_filterMap]
  exact foldlM_take_eq_forM_check standard all

end CommandLine.Setting

namespace CommandLine.Arguments

variable {w w' : World} {f : Setting} {a : Arguments} {argv : List Text} {x : Text}

/-- The variables that the arguments give, before those of the process. -/
def secrets (a : Arguments) : Secrets := ⟨a.overrides, none⟩

/-- The settings that the arguments ask for. -/
def settings (a : Arguments) (w : World) : Except Failure Settings :=
  settle w standard (Setting.asFlags w a.secrets ++ a.flags.entries)

/-- The resolver of the arguments is built from their settings. -/
theorem build_eq_settings (a : Arguments) (w : World) :
    a.build w = a.settings w >>= fun S => do
      let built ← Resolver.build w a.secrets S none none
      return { built with resolver := { built.resolver with start := a.startDir } } := by
  unfold build settings
  rw [settle_append, ← Setting.ofSecrets_eq_settle, bind_assoc]
  rfl

/-- The same settings are built alike where only the variable of one differs. -/
theorem build_congr (h : w.AgreesBut f.varName w') {a' : Arguments}
    (hs : a.settings w = a'.settings w') (ho : a.overrides = a'.overrides)
    (hd : a.startDir = a'.startDir) : a.build w = a'.build w' := by
  rw [build_eq_settings, build_eq_settings, hs, secrets, secrets, ho, hd]
  simp only [h.build]

/-- Variables are checked before a flag is looked at. -/
theorem settings_of_checkAll {failure : Failure}
    (h : Setting.checkAll w a.secrets = .error failure) : a.settings w = .error failure := by
  rw [← Setting.settle_eq_checkAll] at h
  unfold settings
  rw [settle_append]
  cases hs : settle w standard (Setting.asFlags w a.secrets) with
  | error first => rw [hs] at h; cases h; rfl
  | ok S => rw [hs] at h; cases h

/-- The variable of a setting that is given counts for its check only. -/
theorem settings_masked (hx : a.flags.get? f.flag = some x) (h : w.AgreesBut f.varName w')
    (hc : f.check w a.secrets = f.check w' a.secrets) : a.settings w = a.settings w' := by
  have hmem : f.flag ∈ a.flags.entries.map Prod.fst :=
    List.mem_map_of_mem ((a.flags.get?_eq_some_iff _ _).1 hx)
  cases hf : f.check w a.secrets with
  | error failure =>
    obtain ⟨first, hall⟩ := Setting.exists_error_of_check hf
    rw [settings_of_checkAll hall, settings_of_checkAll (Setting.checkAll_congr h hc ▸ hall)]
  | ok _ =>
    have hf' : f.check w' a.secrets = .ok () := hc ▸ hf
    unfold settings
    rw [settle_append_of_flag (Setting.exists_read_of_check hf) hmem,
      settle_append_of_flag (Setting.exists_read_of_check hf') hmem, h.settle,
      h.erase_asFlags]

/-- The value in the row of all flags: given among the others, or as a variable before them. -/
theorem exists_rows (hx : a.flags.get? f.flag = some x) (h : w.AgreesBut f.varName w')
    (hv : a.secrets.get? w'.environ f.varName = some x) :
    ∃ before after before' after' : List (Text × Text),
      Entries.erase f.flag (Setting.asFlags w a.secrets) = before' ++ after' ∧
      f.flag ∉ (after' ++ (before ++ after)).map Prod.fst ∧
      a.settings w = settle w standard
        (Setting.asFlags w a.secrets ++ (before ++ (f.flag, x) :: after)) ∧
      (unset f a).settings w = settle w standard
        (Setting.asFlags w a.secrets ++ (before ++ after)) ∧
      (unset f a).settings w' = settle w standard
        (before' ++ (f.flag, x) :: (after' ++ (before ++ after))) := by
  obtain ⟨before, after, hflags, herase, hb, ha⟩ :=
    Entries.exists_cut a.flags.distinct ((a.flags.get?_eq_some_iff _ _).1 hx)
  obtain ⟨before', after', hvars, herase', -, ha'⟩ :=
    Entries.exists_cut (Setting.nodup_asFlags w' a.secrets) (Setting.mem_asFlags.2 hv)
  refine ⟨before, after, before', after', (h.erase_asFlags _).trans herase', ?_, ?_, ?_, ?_⟩
  · simp only [List.map_append, List.mem_append, not_or]
    exact ⟨ha', hb, ha⟩
  · rw [← hflags]
    rfl
  · rw [← herase]
    rfl
  · show settle w' standard (Setting.asFlags w' a.secrets ++
      Entries.erase f.flag a.flags.entries) = _
    rw [hvars, herase, List.append_assoc, List.cons_append, h.settle]

/-- A flag that passes its check does what the variable would do. -/
theorem settings_unset (hx : a.flags.get? f.flag = some x) (h : w.AgreesBut f.varName w')
    (hv : a.secrets.get? w'.environ f.varName = some x) (hc : f.check w a.secrets = .ok ())
    (hc' : f.check w' a.secrets = .ok ()) : a.settings w = (unset f a).settings w' := by
  obtain ⟨before, after, before', after', herase, hrest, hrow, -, hrow'⟩ := exists_rows hx h hv
  obtain ⟨C, hC⟩ : ∃ C, f.read w x = .ok C := by
    rw [h.read]
    exact Setting.exists_read_of_check hc' x (Setting.mem_asFlags.2 hv)
  have hmem : f.flag ∈ (before ++ (f.flag, x) :: after).map Prod.fst :=
    List.mem_map_of_mem (List.mem_append_right before List.mem_cons_self)
  have hafter : f.flag ∉ after.map Prod.fst := fun hm => hrest <| by
    simp only [List.map_append, List.mem_append]
    exact .inr (.inr hm)
  -- both ways the setting may be taken last, over the same other flags
  calc a.settings w
      = settle w standard (before' ++ after' ++ before ++ (f.flag, x) :: after) := by
        rw [hrow, settle_append_of_flag (Setting.exists_read_of_check hc) hmem, herase,
          List.append_assoc _ before]
    _ = (settle w standard (before' ++ (after' ++ (before ++ after)))).map (patch f C) := by
        rw [settle_split standard hC hafter]
        simp only [List.append_assoc]
    _ = (unset f a).settings w' := by rw [hrow', settle_split standard hC hrest]

/-- Where a flag does not pass its check, nor would the variable. -/
theorem settings_refused (hx : a.flags.get? f.flag = some x) (h : w.AgreesBut f.varName w')
    (hv : a.secrets.get? w'.environ f.varName = some x) (hc : f.check w a.secrets = .ok ())
    {failure : Failure} (hc' : f.check w' a.secrets = .error failure) :
    (∃ first, a.settings w = .error first) ∧ (∃ first, (unset f a).settings w' = .error first) ∧
      ∀ S, (unset f a).settings w = .ok S →
        a.settings w = .error failure ∧ (unset f a).settings w' = .error failure := by
  obtain ⟨before, after, before', after', herase, -, hrow, hothers, hrow'⟩ := exists_rows hx h hv
  have hread : f.read w x = .error failure := by
    rw [h.read]
    exact Setting.read_of_check_error hv hc'
  rw [← List.append_assoc, settle_refused standard _ _ hread] at hrow
  rw [settle_refused standard _ _ hread] at hrow'
  have hfails (r : Except Failure Settings) :
      ∃ first, (r >>= fun _ => .error failure : Except Failure Settings) = .error first := by
    cases r with
    | error first => exact ⟨first, rfl⟩
    | ok S => exact ⟨failure, rfl⟩
  refine ⟨hrow ▸ hfails _, hrow' ▸ hfails _, fun S hS => ?_⟩
  -- nothing before it fails, with the flag or with the variable
  rw [hothers] at hS
  obtain ⟨S₁, hS₁⟩ := exists_settle_of_append (List.append_assoc _ _ _ ▸ hS)
  obtain ⟨S₂, hS₂⟩ := exists_settle_of_append hS
  have hvars := settle_erase standard (Setting.exists_read_of_check hc)
  rw [hS₂, patch_standard, herase] at hvars
  obtain ⟨S₃, hS₃⟩ := exists_settle_of_append hvars.symm
  rw [hrow, hrow', hS₁, hS₃]
  exact ⟨rfl, rfl⟩

/-- What becomes of the variable of a setting whose flag is given the value `x`.  The arguments
are `a`, and `a'` without the occurrences of the flag. -/
structure Masks (f : Setting) (x : Text) (a a' : Arguments) (w : World) : Prop where
  /-- The variable has to pass its check: the first check that fails is the failure. -/
  checked : ∀ failure, f.check w a.secrets = .error failure →
    ∃ first, Setting.checkAll w a.secrets = .error first ∧ a.build w = .error first
  /-- Only a cache policy and a pinned file can fail theirs. -/
  unchecked : f ≠ .cache ∧ f ≠ .pinned → ∀ w', f.check w' a.secrets = .ok ()
  /-- The variable counts for nothing else. -/
  masked : ∀ w', w.AgreesBut f.varName w' → f.check w a.secrets = f.check w' a.secrets →
    a.build w = a.build w'
  /-- The flag does what the variable would do. -/
  taken : ∀ w', w.AgreesBut f.varName w' → a.overrides.get? f.varName = none → x ≠ [] →
    w'.environ.get? f.varName = some x → f.check w a.secrets = .ok () →
    f.check w' a.secrets = .ok () → a.build w = a'.build w'
  /-- It fails where the variable would not pass its check, and alike if nothing else is wrong
  with the settings. -/
  refused : ∀ w', w.AgreesBut f.varName w' → a.overrides.get? f.varName = none → x ≠ [] →
    w'.environ.get? f.varName = some x → f.check w a.secrets = .ok () →
    ∀ failure, f.check w' a.secrets = .error failure →
      (∃ first, a.build w = .error first) ∧ (∃ first, a'.build w' = .error first) ∧
      ((∃ S, a'.settings w = .ok S) →
        a.build w = .error failure ∧ a'.build w' = .error failure)

/-- Settings that fail are not built. -/
theorem build_of_settings_error {failure : Failure} (h : a.settings w = .error failure) :
    a.build w = .error failure := by
  rw [build_eq_settings, h]
  rfl

/-- A variable is what the secrets of the arguments have, if these do not go before it. -/
theorem get?_secrets (ho : a.overrides.get? f.varName = none) (hx : x ≠ [])
    (hv : w.environ.get? f.varName = some x) :
    a.secrets.get? w.environ f.varName = some x := by
  unfold Secrets.get? secrets
  simp only [ho, hv]
  exact Option.filter_eq_some_iff.2 ⟨rfl, by simpa using hx⟩

/-- **A flag masks the variable of its setting, which is checked nevertheless.** -/
theorem build_of_given (hparse : parse argv = .ok a) (hx : (given f argv).getLast? = some x)
    (w : World) : ∃ a', parse (without f argv) = .ok a' ∧ Masks f x a a' w := by
  have hflag : a.flags.get? f.flag = some x := (get?_flags_of_parse hparse).trans hx
  refine ⟨unset f a, parse_without f hparse, ?_⟩
  constructor
  case checked =>
    intro failure hc
    obtain ⟨first, hall⟩ := Setting.exists_error_of_check hc
    exact ⟨first, hall, build_of_settings_error (settings_of_checkAll hall)⟩
  case unchecked => exact fun h w' => Setting.check_eq_ok h
  case masked =>
    intro w' h hc
    exact build_congr h (settings_masked hflag h hc) rfl rfl
  case taken =>
    intro w' h ho hne hv hc hc'
    exact build_congr h (settings_unset hflag h (get?_secrets ho hne hv) hc hc') rfl rfl
  case refused =>
    intro w' h ho hne hv hc failure hc'
    obtain ⟨⟨first, ha⟩, ⟨first', ha'⟩, halike⟩ :=
      settings_refused hflag h (get?_secrets ho hne hv) hc hc'
    refine ⟨⟨first, build_of_settings_error ha⟩, ⟨first', build_of_settings_error ha'⟩, ?_⟩
    rintro ⟨S, hS⟩
    exact ⟨build_of_settings_error (halike S hS).1, build_of_settings_error (halike S hS).2⟩

/-- A world without files and variables. -/
def bareWorld : World := ⟨⟨.empty⟩, ⟨[], 0⟩, .empty, ⟨some "/home", .empty⟩, 0⟩

/-- A policy without meaning fails although the flag would replace it.  Otherwise the flag does
what the variable would do. -/
theorem build_of_given_unknownPolicy :
    ∃ (a a' : Arguments) (bad named : World),
      parse ["K", "--cache", "mtime"] = .ok a ∧ parse ["K"] = .ok a' ∧
      bareWorld.setVariable "ENVCHAIN_CACHE_POLICY" "bogus" = .ok bad ∧
      bareWorld.setVariable "ENVCHAIN_CACHE_POLICY" "mtime" = .ok named ∧
      a.build bad = .error (.unknownPolicy "bogus") ∧
      a.build bareWorld = a'.build named ∧
      (a.build bareWorld).map Resolver.Built.policy = .ok .mtime := by
  have hparse : parse ["K", "--cache", "mtime"] =
      .ok ⟨.ofList [(("cache" : Text), ("mtime" : Text))], .empty, none, true, ["K"]⟩ := by
    decide +kernel
  have hgiven : (given .cache ["K", "--cache", "mtime"]).getLast? = some ("mtime" : Text) := by
    decide +kernel
  have made (result : Except Failure World) (h : result.toOption.isSome = true) :
      ∃ w, result = .ok w := by
    cases result with
    | error failure => cases h
    | ok w => exact ⟨w, rfl⟩
  obtain ⟨bad, hbad⟩ := made (bareWorld.setVariable "ENVCHAIN_CACHE_POLICY" "bogus")
    (by decide +kernel)
  obtain ⟨named, hnamed⟩ := made (bareWorld.setVariable "ENVCHAIN_CACHE_POLICY" "mtime")
    (by decide +kernel)
  have hbadValue : bad.environ.get? "ENVCHAIN_CACHE_POLICY" = some ("bogus" : Text) :=
    (World.get?_of_setVariable hbad).trans (by decide +kernel)
  have hnamedValue : named.environ.get? "ENVCHAIN_CACHE_POLICY" = some ("mtime" : Text) :=
    (World.get?_of_setVariable hnamed).trans (by decide +kernel)
  have hcheck {w : World} {value : Text} (hne : value ≠ [])
      (hv : w.environ.get? "ENVCHAIN_CACHE_POLICY" = some value) :
      Setting.cache.check w ⟨.empty, none⟩ = (Setting.cache.read w value).map fun _ => () := by
    have hs := get?_secrets (f := .cache) (a := empty) rfl hne hv
    unfold Setting.check
    rw [show Secrets.get? ⟨.empty, none⟩ w.environ Setting.cache.varName = some value from hs]
  obtain ⟨a', hparse', masks⟩ := build_of_given hparse hgiven bareWorld
  refine ⟨_, a', bad, named, hparse, hparse', hbad, hnamed, ?_, ?_, by decide +kernel⟩
  · obtain ⟨_, -, badMasks⟩ := build_of_given hparse hgiven bad
    have hc : Setting.cache.check bad ⟨.empty, none⟩ = .error (.unknownPolicy "bogus") :=
      hcheck (by decide) hbadValue
    obtain ⟨first, hall, hbuild⟩ := badMasks.checked _ hc
    have hfirst : Setting.checkAll bad ⟨.empty, none⟩ = .error (.unknownPolicy "bogus") := by
      show (Setting.cache.check bad ⟨.empty, none⟩ >>= _) = _
      rw [hc]
      rfl
    rw [← Except.error.inj (hall.symm.trans hfirst)]
    exact hbuild
  · exact masks.taken named (World.agreesBut_of_setVariable hnamed) rfl (by decide) hnamedValue
      rfl (hcheck (by decide) hnamedValue)

end CommandLine.Arguments

end Cascade
