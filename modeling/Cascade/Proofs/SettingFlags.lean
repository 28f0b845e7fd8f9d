/-
  Cascade.Proofs.SettingFlags
  ────────────────────────────────
  **VARIABLES ARE FLAGS THAT COME FIRST.**

  Each setting has a flag and a variable.  The variables are read first, all
  of them, as if they were flags; the flags of the command line are taken
  over what they give.  A flag changes its own setting and no other one, so
  flags of different settings may trade places, and of two flags of one
  setting the first is for nothing.

  Each of them is checked where it stands: the first that does not convert
  is the failure, also when a later one would have replaced it.

      ofSecrets_eq_settle    — the settings in an environment are those of its
                               variables as flags
      settle_split           — a flag may be taken last of all
      settle_append_of_flag  — what a later flag replaces may be left out, if
                               it passes its check
      settle_refused         — what does not pass ends it
-/
import Mathlib.Data.List.Nodup
import Cascade.CommandLine.Arguments

namespace Cascade

open Cascade.Text

namespace CommandLine

/-! ## §1. Settings, one by one. -/

/-- What has a flag and a variable, in the order in which the variables are checked. -/
inductive Setting
  | cache
  | pinned
  | preferences
  | group
  | filename
  | logger
  deriving DecidableEq, Repr

namespace Setting

/-- The settings in order. -/
def all : List Setting := [.cache, .pinned, .preferences, .group, .filename, .logger]

/-- The name of the flag. -/
def flag : Setting → Text
  | .cache => "cache"
  | .pinned => "env-file"
  | .preferences => "prefs"
  | .group => "group"
  | .filename => "filename"
  | .logger => "log"

/-- The name of the variable. -/
def varName : Setting → Text
  | .cache => "ENVCHAIN_CACHE_POLICY"
  | .pinned => "ENVCHAIN_ENV_FILE"
  | .preferences => "ENVCHAIN_PREFS"
  | .group => "ENVCHAIN_PREF_GROUP"
  | .filename => "ENVCHAIN_FILENAME"
  | .logger => "LOG_IMPL"

theorem mem_all (f : Setting) : f ∈ all := by cases f <;> decide

theorem flag_inj {f g : Setting} : f.flag = g.flag ↔ f = g := by
  have hnodup : (all.map flag).Nodup := by decide +kernel
  exact ⟨List.inj_on_of_nodup_map hnodup (mem_all f) (mem_all g), congrArg flag⟩

theorem varName_inj {f g : Setting} : f.varName = g.varName ↔ f = g := by
  have hnodup : (all.map varName).Nodup := by decide +kernel
  exact ⟨List.inj_on_of_nodup_map hnodup (mem_all f) (mem_all g), congrArg varName⟩

/-- The variables have ASCII names. -/
theorem exists_bytesOf_varName (f : Setting) :
    ∃ bytes, Environment.bytesOf f.varName = .ok bytes ∧ ∀ byte ∈ bytes, byte.toNat < 0x80 := by
  cases f <;> exact ⟨_, rfl, by decide +kernel⟩

end Setting

end CommandLine

open CommandLine

namespace Settings

/-- The settings when nothing is said. -/
def standard : Settings := ⟨.once, "json", "env", EnvFile.defaultName, none, "pretty"⟩

/-- The settings with one of them as it is in `source`. -/
def patch (f : Setting) (source S : Settings) : Settings :=
  match f with
  | .cache => { S with policy := source.policy }
  | .pinned => { S with pinned := source.pinned }
  | .preferences => { S with preferencesKind := source.preferencesKind }
  | .group => { S with group := source.group }
  | .filename => { S with filename := source.filename }
  | .logger => { S with loggerKind := source.loggerKind }

/-- Of two patches of one setting the last one counts. -/
theorem patch_patch (f : Setting) (C D S : Settings) : patch f C (patch f D S) = patch f C S := by
  cases f <;> rfl

/-- Patches of different settings do not meet. -/
theorem patch_comm {f g : Setting} (h : f ≠ g) (C D S : Settings) :
    patch f C (patch g D S) = patch g D (patch f C S) := by
  cases f <;> cases g <;> first | rfl | exact absurd rfl h

theorem patch_standard (f : Setting) : patch f standard standard = standard := by
  cases f <;> rfl

end Settings

open Settings

/-- What a text gives a setting: the standard settings with this one said. -/
def CommandLine.Setting.read (f : Setting) (w : World) (t : Text) : Except Failure Settings :=
  Arguments.override w standard (f.flag, t)

namespace CommandLine.Arguments

variable {w w' : World} {f : Setting}

/-- A flag changes its own setting, whatever the others are. -/
theorem override_flag (w : World) (S : Settings) (f : Setting) (t : Text) :
    override w S (f.flag, t) = (f.read w t).map fun C => patch f C S := by
  cases f with
  | cache =>
    show (do return { S with policy := ← Policy.ofName t }) = Except.map _ (do
      return { standard with policy := ← Policy.ofName t } : Except Failure Settings)
    cases Policy.ofName t <;> rfl
  | pinned =>
    show (do return { S with pinned := some (← w.expandHome (Path.ofText t)) }) = Except.map _ (do
      return { standard with pinned := some (← w.expandHome (Path.ofText t)) } :
        Except Failure Settings)
    cases w.expandHome (Path.ofText t) <;> rfl
  | _ => rfl

/-- A flag of another name changes nothing. -/
theorem override_other (w : World) (S : Settings) {e : Text × Text}
    (h : ∀ g : Setting, e.1 ≠ g.flag) : override w S e = .ok S := by
  obtain ⟨name, t⟩ := e
  have h : ∀ g : Setting, ¬ name = g.flag := h
  exact (if_neg (h .logger)).trans <| (if_neg (h .preferences)).trans <|
    (if_neg (h .group)).trans <| (if_neg (h .cache)).trans <|
    (if_neg (h .pinned)).trans <| if_neg (h .filename)

/-- Any other flag leaves a setting as it is, and does not look at it. -/
theorem override_patch (w : World) (C S : Settings) {e : Text × Text} (he : e.1 ≠ f.flag) :
    override w (patch f C S) e = (override w S e).map (patch f C) := by
  by_cases hg : ∃ g : Setting, e.1 = g.flag
  · obtain ⟨g, hg⟩ := hg
    have hne : f ≠ g := fun h => he (h ▸ hg)
    obtain ⟨name, t⟩ := e
    subst hg
    rw [override_flag, override_flag]
    cases g.read w t with
    | error failure => rfl
    | ok D => exact congrArg Except.ok (patch_comm hne.symm D C S)
  · have h : ∀ g : Setting, e.1 ≠ g.flag := fun g h => hg ⟨g, h⟩
    rw [override_other w _ h, override_other w S h]
    rfl

/-! ## §2. Flags one after the other. -/

/-- The settings with flags taken over them. -/
def settle (w : World) (S : Settings) (items : List (Text × Text)) : Except Failure Settings :=
  items.foldlM (override w) S

theorem settle_append (w : World) (S : Settings) (items items' : List (Text × Text)) :
    settle w S (items ++ items') = settle w S items >>= fun S => settle w S items' :=
  List.foldlM_append

/-- Flags that can all be taken can be up to any of them. -/
theorem exists_settle_of_append {S S' : Settings} {items items' : List (Text × Text)}
    (h : settle w S (items ++ items') = .ok S') : ∃ S'', settle w S items = .ok S'' := by
  rw [settle_append] at h
  cases hs : settle w S items with
  | error failure => rw [hs] at h; cases h
  | ok S'' => exact ⟨S'', rfl⟩

/-- Other flags leave a setting as it is. -/
theorem settle_patch (w : World) (C S : Settings) {items : List (Text × Text)}
    (h : f.flag ∉ items.map Prod.fst) :
    settle w (patch f C S) items = (settle w S items).map (patch f C) := by
  induction items generalizing S with
  | nil => rfl
  | cons e items ih =>
    rw [List.map_cons, List.mem_cons, not_or] at h
    show override w (patch f C S) e >>= _ = _
    rw [override_patch w C S (Ne.symm h.1)]
    show _ = (override w S e >>= fun S => settle w S items).map (patch f C)
    cases override w S e with
    | error failure => rfl
    | ok S' => exact ih S' h.2

/-- A flag that passes its check, and is not given again, may be taken last of all. -/
theorem settle_split (S : Settings) {C : Settings} {t : Text} {before after : List (Text × Text)}
    (hC : f.read w t = .ok C) (h : f.flag ∉ after.map Prod.fst) :
    settle w S (before ++ (f.flag, t) :: after) =
      (settle w S (before ++ after)).map (patch f C) := by
  rw [settle_append, settle_append]
  cases settle w S before with
  | error failure => rfl
  | ok S' =>
    show override w S' (f.flag, t) >>= _ = (settle w S' after).map (patch f C)
    rw [override_flag, hC, ← settle_patch w C S' h]
    rfl

/-- A flag that does not pass its check ends it, if nothing before does. -/
theorem settle_refused (S : Settings) {t : Text} {failure : Failure}
    (before after : List (Text × Text)) (hr : f.read w t = .error failure) :
    settle w S (before ++ (f.flag, t) :: after) =
      settle w S before >>= fun _ => .error failure := by
  rw [settle_append]
  cases settle w S before with
  | error other => rfl
  | ok S' =>
    show override w S' (f.flag, t) >>= _ = _
    rw [override_flag, hr]
    rfl

/-- What a setting was does not count where its flag is given. -/
theorem settle_of_flag (C S : Settings) {items : List (Text × Text)}
    (h : f.flag ∈ items.map Prod.fst) :
    settle w (patch f C S) items = settle w S items := by
  induction items generalizing S with
  | nil => exact absurd h List.not_mem_nil
  | cons e items ih =>
    show override w (patch f C S) e >>= _ = override w S e >>= _
    by_cases he : e.1 = f.flag
    · -- here the flag is given: it takes the place of what was there
      obtain ⟨name, t⟩ := e
      subst he
      rw [override_flag, override_flag]
      cases f.read w t with
      | error failure => rfl
      | ok D =>
        show settle w (patch f D (patch f C S)) items = _
        rw [patch_patch]
        rfl
    · have hrest : f.flag ∈ items.map Prod.fst := by
        rcases List.mem_cons.1 h with h | h
        · exact absurd h.symm he
        · exact h
      rw [override_patch w C S he]
      cases override w S e with
      | error failure => rfl
      | ok S' => exact ih S' hrest

/-- Flags without those of a setting that all pass their checks: the others come out alike,
and fail alike. -/
theorem settle_erase (S : Settings) {items : List (Text × Text)}
    (hf : ∀ t, (f.flag, t) ∈ items → ∃ C, f.read w t = .ok C) :
    (settle w S items).map (patch f standard) =
      settle w (patch f standard S) (Entries.erase f.flag items) := by
  induction items generalizing S with
  | nil => rfl
  | cons e items ih =>
    have hrest : ∀ t, (f.flag, t) ∈ items → ∃ C, f.read w t = .ok C :=
      fun t hm => hf t (List.mem_cons_of_mem _ hm)
    show (override w S e >>= fun S => settle w S items).map _ = _
    by_cases he : e.1 = f.flag
    · obtain ⟨name, t⟩ := e
      subst he
      obtain ⟨C, hC⟩ := hf t List.mem_cons_self
      have herase : Entries.erase f.flag ((f.flag, t) :: items) = Entries.erase f.flag items :=
        List.filter_cons_of_neg (by simp)
      rw [override_flag, hC, herase]
      show (settle w (patch f C S) items).map _ = _
      rw [ih _ hrest, patch_patch]
    · have herase : Entries.erase f.flag (e :: items) = e :: Entries.erase f.flag items :=
        List.filter_cons_of_pos (by simp [he])
      rw [herase]
      show _ = override w (patch f standard S) e >>= _
      rw [override_patch w standard S he]
      cases override w S e with
      | error failure => rfl
      | ok S' => exact ih S' hrest

/-- What a later flag replaces may be left out, if it passes its check. -/
theorem settle_append_of_flag {items items' : List (Text × Text)}
    (hf : ∀ t, (f.flag, t) ∈ items → ∃ C, f.read w t = .ok C)
    (h : f.flag ∈ items'.map Prod.fst) :
    settle w standard (items ++ items') =
      settle w standard (Entries.erase f.flag items ++ items') := by
  have herase := settle_erase standard hf
  rw [patch_standard] at herase
  rw [settle_append, settle_append, ← herase]
  cases settle w standard items with
  | error failure => rfl
  | ok S => exact (settle_of_flag standard S h).symm

end CommandLine.Arguments

/-! ## §3. Variables as flags. -/

namespace CommandLine.Setting

variable {w w' : World} {s : Secrets} {f : Setting}

/-- The check of the variable of a setting, which an empty one passes. -/
def check (f : Setting) (w : World) (s : Secrets) : Except Failure Unit :=
  match s.get? w.environ f.varName with
  | none => .ok ()
  | some t => (f.read w t).map fun _ => ()

/-- The checks of all variables, in order. -/
def checkAll (w : World) (s : Secrets) : Except Failure Unit :=
  all.forM fun f => f.check w s

/-- The variables that are set, as flags. -/
def asFlags (w : World) (s : Secrets) : List (Text × Text) :=
  all.filterMap fun f => (s.get? w.environ f.varName).map fun t => (f.flag, t)

/-- Only a cache policy and a pinned file can fail the check. -/
theorem check_eq_ok (h : f ≠ .cache ∧ f ≠ .pinned) : f.check w s = .ok () := by
  unfold check
  cases s.get? w.environ f.varName with
  | none => rfl
  | some t =>
    cases f with
    | cache => exact absurd rfl h.1
    | pinned => exact absurd rfl h.2
    | _ => rfl

theorem mem_asFlags {t : Text} :
    (f.flag, t) ∈ asFlags w s ↔ s.get? w.environ f.varName = some t := by
  unfold asFlags
  rw [List.mem_filterMap]
  constructor
  · rintro ⟨g, -, hg⟩
    obtain ⟨t', ht', he⟩ := Option.map_eq_some_iff.1 hg
    rw [Prod.mk.injEq, flag_inj] at he
    rw [← he.1, ← he.2]
    exact ht'
  · intro h
    exact ⟨f, mem_all f, by rw [h]; rfl⟩

/-- Every variable is there once. -/
theorem nodup_asFlags (w : World) (s : Secrets) :
    ((asFlags w s).map Prod.fst).Nodup := by
  rw [List.Nodup, List.pairwise_map, asFlags, List.pairwise_filterMap]
  have hall : all.Pairwise fun f g => f ≠ g := by decide
  refine hall.imp fun {f g} hne e he e' he' => ?_
  obtain ⟨t, -, rfl⟩ := Option.map_eq_some_iff.1 he
  obtain ⟨t', -, rfl⟩ := Option.map_eq_some_iff.1 he'
  exact fun h => hne (flag_inj.1 h)

/-- A variable is taken over settings if it is set. -/
def take (f : Setting) (w : World) (s : Secrets) (S : Settings) : Except Failure Settings :=
  match s.get? w.environ f.varName with
  | none => .ok S
  | some t => Arguments.override w S (f.flag, t)

/-- The variables are taken one after the other. -/
theorem settle_filterMap (w : World) (s : Secrets) (S : Settings) (settings : List Setting) :
    (Arguments.settle w S (settings.filterMap fun f =>
      (s.get? w.environ f.varName).map fun t => (f.flag, t))) =
    settings.foldlM (fun S f => f.take w s S) S := by
  induction settings generalizing S with
  | nil => rfl
  | cons f settings ih =>
    show _ = f.take w s S >>= _
    unfold take
    cases hf : s.get? w.environ f.varName with
    | none =>
      rw [List.filterMap_cons_none (by rw [hf]; rfl)]
      exact ih S
    | some t =>
      rw [List.filterMap_cons_some (by rw [hf]; rfl)]
      show Arguments.override w S (f.flag, t) >>= _ = _
      exact bind_congr ih

/-- A setting whose flag always converts is its variable, or stays as it is. -/
theorem take_of_override (w : World) (s : Secrets) (f : Setting) {S : Settings}
    (put : Text → Settings) {now : Text}
    (ho : ∀ t, Arguments.override w S (f.flag, t) = .ok (put t)) (hn : put now = S) :
    f.take w s S = .ok (put (s.getD w.environ f.varName now)) := by
  unfold take Secrets.getD
  cases s.get? w.environ f.varName with
  | none => exact congrArg Except.ok hn.symm
  | some t => exact ho t

/-- The cache policy is that of its variable, by its name. -/
theorem take_cache (w : World) (s : Secrets) :
    cache.take w s standard = (do
      return { standard with
        policy := ← Policy.ofName (s.getD w.environ "ENVCHAIN_CACHE_POLICY" "once") }) := by
  unfold take Secrets.getD
  show (match s.get? w.environ "ENVCHAIN_CACHE_POLICY" with | none => _ | some t => _) = _
  cases s.get? w.environ "ENVCHAIN_CACHE_POLICY" <;> rfl

/-- The other settings are those of their variables. -/
theorem foldlM_take_rest (w : World) (s : Secrets) (S : Settings) :
    [preferences, group, filename, logger].foldlM (fun S f => f.take w s S) S = .ok { S with
      preferencesKind := s.getD w.environ "ENVCHAIN_PREFS" S.preferencesKind
      group := s.getD w.environ "ENVCHAIN_PREF_GROUP" S.group
      filename := s.getD w.environ "ENVCHAIN_FILENAME" S.filename
      loggerKind := s.getD w.environ "LOG_IMPL" S.loggerKind } := by
  have hp (S : Settings) := take_of_override w s preferences
    (fun t => { S with preferencesKind := t }) (fun _ => rfl) rfl
  have hg (S : Settings) := take_of_override w s group
    (fun t => { S with group := t }) (fun _ => rfl) rfl
  have hn (S : Settings) := take_of_override w s filename
    (fun t => { S with filename := t }) (fun _ => rfl) rfl
  have hl (S : Settings) := take_of_override w s logger
    (fun t => { S with loggerKind := t }) (fun _ => rfl) rfl
  simp only [List.foldlM_cons, List.foldlM_nil, hp, hg, hn, hl, bind, Except.bind]
  rfl

/-- The settings in an environment are those of its variables as flags. -/
theorem ofSecrets_eq_settle (w : World) (s : Secrets) :
    Settings.ofSecrets w s = Arguments.settle w standard (asFlags w s) := by
  rw [asFlags, settle_filterMap]
  show _ = cache.take w s standard >>= fun S => pinned.take w s S >>= fun S =>
    [preferences, group, filename, logger].foldlM (fun S f => f.take w s S) S
  simp only [take_cache, foldlM_take_rest]
  unfold Settings.ofSecrets
  dsimp only
  cases Policy.ofName (s.getD w.environ "ENVCHAIN_CACHE_POLICY" "once") with
  | error failure => rfl
  | ok policy =>
    show (match s.get? w.environ "ENVCHAIN_ENV_FILE" with | none => _ | some t => _) =
      (match s.get? w.environ "ENVCHAIN_ENV_FILE" with | none => _ | some t => _) >>= _
    cases s.get? w.environ "ENVCHAIN_ENV_FILE" with
    | none => rfl
    | some t =>
      show (some <$> w.expandHome (Path.ofText t)) >>= _ =
        (do return { standard with policy, pinned := some (← w.expandHome (Path.ofText t)) }) >>= _
      cases w.expandHome (Path.ofText t) <;> rfl

/-- Taking the variables over any settings fails as their checks do. -/
theorem take_eq_check (f : Setting) (w : World) (s : Secrets) (S : Settings) :
    (f.take w s S).map (fun _ => ()) = f.check w s := by
  unfold take check
  cases s.get? w.environ f.varName with
  | none => rfl
  | some t =>
    show (Arguments.override w S (f.flag, t)).map _ = (f.read w t).map _
    rw [Arguments.override_flag]
    cases f.read w t <;> rfl

theorem foldlM_take_eq_forM_check (S : Settings) (settings : List Setting) :
    (settings.foldlM (fun S (f : Setting) => f.take w s S) S).map (fun _ => ()) =
      settings.forM fun f => f.check w s := by
  induction settings generalizing S with
  | nil => rfl
  | cons f settings ih =>
    show (f.take w s S >>= _).map _ = f.check w s >>= _
    rw [← take_eq_check f w s S]
    cases f.take w s S with
    | error failure => rfl
    | ok S' => exact ih S'

end CommandLine.Setting

end Cascade
