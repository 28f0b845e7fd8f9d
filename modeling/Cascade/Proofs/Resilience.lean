/-
  Cascade.Proofs.Resilience
  ────────────────────────────────
  **SOURCES THAT CANNOT BE READ.**

  An env file whose bytes are no text is unavailable, and so is a preference
  document that is no JSON: the resolver passes over them, and answers as if
  they held nothing.  A preference document fails in two more ways, which no
  one passes over (`Breaks`):

      its bytes are not UTF-8
      it holds an integer of more than 4300 digits

  Such a document ends every resolution that asks the store, and no other
  (`env_escapes_iff`).
-/
import Cascade.Proofs.FailsWith
import Cascade.Proofs.WholeFile

namespace Cascade

open Reference

/-! ## §1. An env file is unavailable at worst. -/

/-- A file that can be looked at is unavailable when it cannot be loaded. -/
theorem EnvFile.unavailable_of_load {w : World} {p : Path} {m : Int} {failure : Failure}
    (hm : w.modified p = .ok m) (h : load w p = .error failure) :
    ∃ reason, failure = .unavailable p.text reason := by
  have hf : ∃ b, w.isFile p = .ok b := by
    unfold World.modified FileSystem.modified at hm
    unfold World.isFile FileSystem.isFile
    cases hs : w.files.stat w.cwd p with
    | error problem => rw [hs] at hm; cases hm
    | ok node => cases node <;> exact ⟨_, rfl⟩
  -- so only reading and decoding are left to fail
  obtain ⟨b, hb⟩ := hf
  unfold load at h
  rw [hb] at h
  cases b with
  | false => cases h
  | true =>
    simp only at h
    split at h
    · cases h
    · cases h; exact ⟨_, rfl⟩
    · split at h
      · cases h
      · cases h; exact ⟨_, rfl⟩

/-- A path that stands for a place, which itself can be resolved. -/
def World.Placed (w : World) (p : Path) : Prop :=
  ∃ place, w.physical p = .ok place ∧ ∃ again, w.physical place = .ok again

/-- A cache that fails for a place fails because its file is unavailable. -/
theorem Cache.unavailable_of_getAt {c : Cache} {w : World} {place again : Path}
    {failure : Failure} (ha : w.physical place = .ok again)
    (h : (c.getAt w place).answer = .error failure) :
    ∃ source reason, failure = .unavailable source reason := by
  have hs := served_getAt c w place
  generalize c.getAt w place = f at hs h
  cases hs with
  | held entry stands => cases h
  | nothing absent unheld => cases h
  | gone absent dated entry stands => cases h
  | lost absent entry fails => rw [ha] at fails; cases fails
  | failed fault other open_ => cases h; exact ⟨_, _, rfl⟩
  | reloaded time newer =>
    unfold reload at h
    split at h
    · rename_i hl
      cases h
      exact ⟨_, EnvFile.unavailable_of_load time hl⟩
    · cases h

namespace Resolver

/-- The path of the env file, pinned or nearest, stands for a place, if there is such a
file. -/
def FileInReach (r : Resolver) (w : World) : Prop :=
  match r.pinned with
  | some p => w.Placed p
  | none => ∃ start found, r.searchDir w = .ok start ∧
      EnvFile.locate w start (Path.ofText r.filename) = .ok found ∧
        ∀ p, found = some p → w.Placed p

/-- An env file in reach has a mapping or is unavailable. -/
theorem unavailable_of_fileValues {r : Resolver} {w : World} {t : Trace} {failure : Failure}
    (hr : r.FileInReach w) (h : (r.fileValues.exec w t).1 = .error failure) :
    ∃ source reason, failure = .unavailable source reason := by
  have hf : (r.fetched w t.cache).answer = .error failure := by
    rw [← h]
    exact r.sees_fileValues w t
  have at_ {p : Path} (hp : w.Placed p) (h : (t.cache.get w p).answer = .error failure) :
      ∃ source reason, failure = .unavailable source reason := by
    obtain ⟨place, hp, again, ha⟩ := hp
    rw [Cache.get, hp] at h
    exact Cache.unavailable_of_getAt ha h
  unfold FileInReach at hr
  unfold fetched at hf
  split at hr
  · rename_i p hpin
    rw [hpin] at hf
    exact at_ hr hf
  · rename_i hpin
    obtain ⟨start, found, hs, hl, hp⟩ := hr
    rw [hpin] at hf
    simp only [hs, Cache.find, hl] at hf
    cases found with
    | none => cases hf
    | some p => exact at_ (hp p rfl) hf

end Resolver

/-! ## §2. Documents that break a store. -/

namespace Preferences

/-- The bytes of a document that make a store fail without being unavailable. -/
inductive Breaks (content : Text.Bytes) : Failure → Prop
  | encoding {fault : Text.Utf8.Fault} (bytes : Text.Utf8.decode content = .error fault) :
    Breaks content (.encoding fault)
  | digits {text : Text} {count : Nat} (bytes : Text.Utf8.decode content = .ok text)
    (written : Text.trim (Text.unifyLineEnds text) ≠ [])
    (long : Json.read (Text.unifyLineEnds text) = .error (.tooManyDigits count)) :
    Breaks content (.json (Text.unifyLineEnds text) (.tooManyDigits count))

/-- A failure to break is neither a source that is unavailable nor a key that is missing. -/
theorem Breaks.other {content : Text.Bytes} {failure : Failure} (h : Breaks content failure) :
    (∀ source reason, failure ≠ .unavailable source reason) ∧
      ∀ key, failure ≠ .missing key := by
  cases h <;> exact ⟨fun _ _ he => (nomatch he), fun _ he => (nomatch he)⟩

/-- What breaks a store is what decoding fails with. -/
theorem Breaks.decode {content : Text.Bytes} {failure : Failure} (h : Breaks content failure)
    (p : Path) : decode p content = .error failure := by
  cases h with
  | encoding bytes => rw [Preferences.decode, bytes]
  | digits bytes written long =>
    rw [Preferences.decode, bytes]
    simp only
    rw [if_neg written, long]

/-- What the bytes of a document come to: groups, a source that is unavailable, or a store that
breaks. -/
theorem decode_cases (p : Path) (content : Text.Bytes) :
    (∃ gs, decode p content = .ok gs) ∨
      (∃ reason, decode p content = .error (.unavailable p.text reason)) ∨
        ∃ failure, decode p content = .error failure ∧ Breaks content failure := by
  unfold decode
  cases hd : Text.Utf8.decode content with
  | error fault => exact .inr (.inr ⟨_, rfl, .encoding hd⟩)
  | ok text =>
    simp only
    by_cases hb : Text.trim (Text.unifyLineEnds text) = []
    · rw [if_pos hb]
      exact .inl ⟨.empty, rfl⟩
    · rw [if_neg hb]
      cases hj : Json.read (Text.unifyLineEnds text) with
      | error fault =>
        cases fault with
        | malformed problem input => exact .inr (.inl ⟨_, rfl⟩)
        | tooManyDigits count => exact .inr (.inr ⟨_, rfl, .digits hd hb hj⟩)
      | ok v =>
        cases v with
        | object members => exact .inl ⟨_, rfl⟩
        | _ => exact .inr (.inl ⟨_, rfl⟩)

/-- What a document comes to whose path can be used. -/
theorem readDocument_cases {w : World} {p : Path}
    (hu : ∀ problem, w.read p = .error problem → problem.isUnusable = false) :
    (∃ gs, readDocument w p = .ok gs) ∨
      (∃ reason, readDocument w p = .error (.unavailable p.text reason)) ∨
        ∃ content failure, w.read p = .ok content ∧ readDocument w p = .error failure ∧
          Breaks content failure := by
  unfold readDocument
  cases hr : w.read p with
  | error problem =>
    have hp := hu problem hr
    by_cases hn : problem = .notFound
    · -- a document that is not there holds nothing
      subst hn
      exact .inl ⟨.empty, rfl⟩
    · refine .inr (.inl ⟨problem.message [p.text], ?_⟩)
      cases problem <;> simp_all
  | ok content =>
    rcases decode_cases p content with h | h | ⟨failure, hd, hb⟩
    · exact .inl h
    · exact .inr (.inl h)
    · exact .inr (.inr ⟨content, failure, rfl, hd, hb⟩)

end Preferences

/-! ## §3. Keys that are left to the store. -/

namespace Holdings

variable {h h' : Holdings} {failure : Failure} {bad : Prop}

/-- What comes before the store: the system environment and the env file. -/
def early (h : Holdings) (key : Text) : Except Failure (Option Value) :=
  h.first key [.environment, .envFile]

/-- The first of all sources is an early one, or that of the store. -/
theorem first_all (h : Holdings) (key : Text) :
    h.first key Source.all =
      h.early key >>= fun v? => match v? with
        | some v => return some v
        | none => h.first key [.preferences] := by
  -- both sides take the early sources in turn, and ask the store for the rest
  simp only [Source.all, early, first, bind_assoc]
  congr 1
  funext v
  by_cases hv : (v.getD .null).isEmpty = true
  · simp only [if_pos hv, bind_assoc]
    congr 1
    funext v'
    by_cases hv' : (v'.getD .null).isEmpty = true
    · simp only [if_pos hv', pure_bind]
    · simp only [if_neg hv', pure_bind]
  · simp only [if_neg hv, pure_bind]

/-- What a key comes to before defaults. -/
def winner (h : Holdings) (key : Text) (interpolate : Bool) :
    Except Failure (Option Value) := do
  match ← h.first key Source.all with
  | none => return none
  | some v =>
    return some (← expandValueIf interpolate
      (fun name => do return some (← written (← h.outside name).inserted?)) v)

/-- The value of a key is what it comes to, or its default. -/
theorem value_eq (h : Holdings) (key : Text) (default : Option Value) (interpolate : Bool) :
    h.value key default interpolate =
      h.winner key interpolate >>= fun v? => match v? with
        | some v => return v
        | none => orMissing key default := by
  simp only [value, winner, bind_assoc]
  congr 1
  funext v?
  cases v? with
  | none => simp only [pure_bind]
  | some v => simp only [bind_assoc, pure_bind, bind_pure]

/-- The store is asked: for a key, or for a name that its value refers to. -/
def AsksStore (h : Holdings) (key : Text) (interpolate : Bool) : Prop :=
  h.early key = .ok none ∨
    ∃ v, h.early key = .ok (some v) ∧ interpolate = true ∧
      ∃ n ∈ namesOf v, h.early n = .ok none

/-- Sources all of whose values are writable, with an early answer for every name, where the
store fails exactly when something is bad. -/
structure Sturdy (h : Holdings) (failure : Failure) (bad : Prop) : Prop where
  writable : ∀ source key v, h source key = .ok (some v) → v.Writable
  early : ∀ n, IsName n → ∃ v?, h.early n = .ok v?
  store : ∀ key, FailsWith failure bad (orNothing (h .preferences key))

namespace Sturdy

/-- The first value of a key fails just when the store is asked and bad. -/
theorem failsWith_first (hs : h.Sturdy failure bad) {key : Text} {v? : Option Value}
    (he : h.early key = .ok v?) :
    FailsWith failure (bad ∧ v? = none) (h.first key Source.all) := by
  rw [first_all, he]
  cases v? with
  | some v => exact (FailsWith.ok _).congr (by simp)
  | none =>
    -- nothing was found early, so the store is the only source left
    show FailsWith failure _ (h.first key [.preferences])
    rw [first]
    refine ((hs.store key).andOk fun v _ => ?_).congr (by simp)
    by_cases hv : (v.getD .null).isEmpty = true
    · exact ⟨none, by simp only [if_pos hv]; rfl⟩
    · exact ⟨_, by simp only [if_neg hv]; rfl⟩

/-- The value of a name used inside another one, as a text. -/
theorem failsWith_outside (hs : h.Sturdy failure bad) {n : Text} (hn : IsName n) :
    FailsWith failure (bad ∧ h.early n = .ok none)
      (do return some (← written (← h.outside n).inserted?)) := by
  obtain ⟨v?, he⟩ := hs.early n hn
  have houtside : FailsWith failure (bad ∧ v? = none) (h.outside n) := by
    refine (hs.failsWith_first he).andOk fun v _ => ?_
    cases v <;> exact ⟨_, rfl⟩
  refine (houtside.andOk fun v hv => ?_).congr ?_
  · obtain ⟨t, ht⟩ := (writable_outside hs.writable hv).inserted
    exact ⟨some t, by rw [ht]; rfl⟩
  · rw [he]
    simp

/-- A value whose names are answered fails just when the store is asked for one and bad. -/
theorem failsWith_expansion (hs : h.Sturdy failure bad) (interpolate : Bool) (v : Value) :
    FailsWith failure (interpolate = true ∧ ∃ n ∈ namesOf v, bad ∧ h.early n = .ok none)
      (expandValueIf interpolate
        (fun name => do return some (← written (← h.outside name).inserted?)) v) := by
  cases interpolate with
  | false => exact (FailsWith.ok v).congr (by simp)
  | true =>
    have hnames : ∀ n ∈ namesOf v, FailsWith failure (bad ∧ h.early n = .ok none)
        (do return some (← written (← h.outside n).inserted?)) := fun n hn =>
      hs.failsWith_outside (isName_of_mem_namesOf hn)
    exact (failsWith_expandValue hnames).congr (by simp)

/-- What a key comes to fails just when the store is asked and bad. -/
theorem failsWith_winner (hs : h.Sturdy failure bad) {key : Text} {v? : Option Value}
    (he : h.early key = .ok v?) (interpolate : Bool) :
    FailsWith failure (bad ∧ h.AsksStore key interpolate) (h.winner key interpolate) := by
  have hexpand := hs.failsWith_expansion interpolate
  cases v? with
  | none =>
    by_cases hbad : bad
    · -- the store is asked for the key itself
      refine .inl ⟨⟨hbad, .inl he⟩, ?_⟩
      rw [winner, (hs.failsWith_first he).eq_error ⟨hbad, rfl⟩]
      rfl
    · refine .inr ⟨fun h => hbad h.1, ?_⟩
      obtain ⟨v?, hf⟩ := (hs.failsWith_first he).exists_ok fun h => hbad h.1
      rw [winner, hf]
      cases v? with
      | none => exact ⟨none, rfl⟩
      | some v =>
        obtain ⟨v', hv⟩ := (hexpand v).exists_ok fun ⟨_, _, _, hb, _⟩ => hbad hb
        exact ⟨some v', bind_eq_ok_iff.2 ⟨some v, rfl, bind_eq_ok_iff.2 ⟨v', hv, rfl⟩⟩⟩
  | some v =>
    -- the key is found early; the names in its value decide
    have hf : h.first key Source.all = .ok (some v) := by rw [first_all, he]; rfl
    rw [winner, hf]
    refine ((hexpand v).map some).congr ?_
    rw [AsksStore, he]
    simp only [Except.ok.injEq, reduceCtorEq, Option.some.injEq, false_or, exists_eq_left']
    constructor
    · rintro ⟨hi, n, hn, hb, ho⟩
      exact ⟨hb, hi, n, hn, ho⟩
    · rintro ⟨hb, hi, n, hn, ho⟩
      exact ⟨hi, n, hn, hb, ho⟩

/-- What a key comes to is writable. -/
theorem writable_winner (hs : h.Sturdy failure bad) {key : Text} {interpolate : Bool}
    {v : Value} (hw : h.winner key interpolate = .ok (some v)) : v.Writable := by
  obtain ⟨v?, hf, hw⟩ := bind_eq_ok_iff.1 hw
  cases v? with
  | none => cases hw
  | some v' =>
    obtain ⟨v'', hx, he⟩ := bind_eq_ok_iff.1 hw
    cases he
    exact writable_expandValueIf (writable_first hs.writable hf) hx

end Sturdy

section Winner

variable {key : Text} {interpolate : Bool}

/-- Where sources come to the same, so do values. -/
theorem value_congr (hw : h.winner key interpolate = h'.winner key interpolate)
    (default : Option Value) :
    h.value key default interpolate = h'.value key default interpolate := by
  rw [value_eq, value_eq, hw]

/-- Where sources come to the same, the same is printed. -/
theorem shown_congr (hw : h.winner key interpolate = h'.winner key interpolate)
    (default : Option Value) :
    h.shown key default interpolate = h'.shown key default interpolate := by
  rw [shown, shown, value_congr hw]

/-- Where sources come to something, that is the value, or else the default. -/
theorem value_of_winner {v? : Option Value} (hw : h.winner key interpolate = .ok v?)
    {default : Option Value} :
    h.value key default interpolate = v?.elim (orMissing key default) .ok := by
  rw [value_eq, hw]
  cases v? <;> rfl

/-- Where sources fail, the value does. -/
theorem value_of_error (hw : h.winner key interpolate = .error failure)
    (default : Option Value) : h.value key default interpolate = .error failure := by
  rw [value_eq, hw]
  rfl

/-- Where sources fail, nothing is printed, unless a key is missing. -/
theorem shown_of_error (hw : h.winner key interpolate = .error failure)
    (default : Option Value) (hne : ∀ k, failure ≠ .missing k) :
    h.shown key default interpolate = .error failure := by
  rw [shown, value_of_error hw]
  cases failure with
  | missing k => exact absurd rfl (hne k)
  | _ => rfl

/-- Where sources come to a writable value or to none, something is printed, or nothing. -/
theorem shown_of_winner {v? : Option Value} (hw : h.winner key interpolate = .ok v?)
    (hv : ∀ v, v? = some v → v.Writable) : ∃ text, h.shown key none interpolate = .ok ⟨text, .ok ()⟩ := by
  rw [shown, value_of_winner hw]
  cases v? with
  | none => exact ⟨[], rfl⟩
  | some v =>
    obtain ⟨t, ht⟩ := (hv v rfl).display
    rw [Option.elim_some]
    refine ⟨t ++ "\n", ?_⟩
    simp only [bind, Except.bind, ht, Resolver.displayed, pure, Except.pure]
    rfl

end Winner

/-- Sources that hold the same, or nothing instead of failing, have the same first value. -/
theorem first_congr {key : Text} {sources : List Source}
    (hs : ∀ source ∈ sources, orNothing (h source key) = orNothing (h' source key)) :
    h.first key sources = h'.first key sources := by
  induction sources with
  | nil => rfl
  | cons source rest ih =>
    rw [first, first, hs source (by simp), ih fun s hm => hs s (by simp [hm])]

/-- What a key comes to depends on the first values of the names in its own. -/
theorem winner_congr {key : Text} {interpolate : Bool} {v? : Option Value}
    (hf : h.first key Source.all = .ok v?) (hf' : h'.first key Source.all = .ok v?)
    (hn : ∀ v, v? = some v → interpolate = true → ∀ n ∈ namesOf v,
      h.first n Source.all = h'.first n Source.all) :
    h.winner key interpolate = h'.winner key interpolate := by
  rw [winner, winner, hf, hf']
  cases v? with
  | none => rfl
  | some v =>
    cases interpolate with
    | false => rfl
    | true =>
      refine congrArg (fun x : Except Failure Value => do return some (← x)) ?_
      refine expandValue_congr fun n hm => ?_
      rw [outside, outside, raw, raw, hn v rfl rfl n hm]

/-- Where the store is not asked, or not bad, failing sources are worth the same as sources
that hold nothing. -/
theorem Sturdy.winner_eq (hs : h.Sturdy failure bad) {key : Text} {v? : Option Value}
    (he : h.early key = .ok v?) {interpolate : Bool}
    (hb : ¬ (bad ∧ h.AsksStore key interpolate))
    (hearly : ∀ n, h.early n = h'.early n)
    (hstore : ¬ bad → ∀ n, orNothing (h .preferences n) = orNothing (h' .preferences n)) :
    h.winner key interpolate = h'.winner key interpolate := by
  -- a name that is found early is found alike, whatever the store does
  have found {n : Text} {v : Value} (hv : h.early n = .ok (some v)) :
      h.first n Source.all = .ok (some v) ∧ h'.first n Source.all = .ok (some v) := by
    constructor
    · rw [first_all, hv]
      rfl
    · rw [first_all, ← hearly n, hv]
      rfl
  by_cases hbad : bad
  · -- the store is not asked: the key and all names in its value are found early
    cases v? with
    | none => exact absurd ⟨hbad, .inl he⟩ hb
    | some v =>
      refine winner_congr (found he).1 (found he).2 fun v' hv' hi n hn => ?_
      cases hv'
      obtain ⟨x?, hx⟩ := hs.early n (isName_of_mem_namesOf hn)
      cases x? with
      | none => exact absurd ⟨hbad, .inr ⟨v, he, hi, n, hn, hx⟩⟩ hb
      | some x => rw [(found hx).1, (found hx).2]
  · -- the store is not bad, and worth the same for every name
    have same (n : Text) : h.first n Source.all = h'.first n Source.all := by
      rw [first_all, first_all, hearly n, first_congr fun source hm => ?_]
      rw [List.mem_singleton.1 hm]
      exact hstore hbad n
    obtain ⟨w?, hw⟩ := (hs.failsWith_first he).exists_ok fun h => hbad h.1
    exact winner_congr hw ((same key).symm.trans hw) fun v _ _ n _ => same n

end Holdings

/-! ## §4. Resolvers with sources of any bytes. -/

namespace Resolver

/-- Neither the system environment nor the env file has a value for a key. -/
def LeftToStore (r : Resolver) (w : World) (t : Trace) (key : Text) : Prop :=
  ((r.firstSet key [.environment, .envFile]).exec w t).1 = .ok none

/-- The store is asked: for a key, or for a name that its value refers to. -/
def AsksStore (r : Resolver) (w : World) (t : Trace) (key : Text) (interpolate : Bool) :
    Prop :=
  r.LeftToStore w t key ∨
    ∃ v, ((r.firstSet key [.environment, .envFile]).exec w t).1 = .ok (some v) ∧
      interpolate = true ∧ ∃ n ∈ namesOf v, r.LeftToStore w t n

/-- The document of a resolver breaks its store. -/
def StoreBreaks (r : Resolver) (w : World) : Prop :=
  ∃ path content failure, r.preferences = .document path ∧ w.read path = .ok content ∧
    Preferences.Breaks content failure

/-- A key whose resolution ends with another failure than that it is missing: one that the
process cannot be asked for, or one for which a broken store is asked. -/
def Escapes (r : Resolver) (w : World) (t : Trace) (key : Text) (interpolate : Bool) : Prop :=
  (∃ fault, r.secrets.ask w.environ key = .error fault) ∨
    (r.StoreBreaks w ∧ r.AsksStore w t key interpolate)

/-- A resolver whose sources hold what those of another one do, and nothing where these
cannot be read. -/
structure Mutes (r : Resolver) (w : World) (t : Trace) (r' : Resolver) (w' : World)
    (t' : Trace) : Prop where
  secrets : r'.secrets = r.secrets
  environ : w'.environ = w.environ
  group : r'.group = r.group
  file : (r'.fileValues.exec w' t').1 = .ok ((r.fileValues.exec w t).1.toOption.getD .empty)
  store : r'.preferences.groups w' = .ok ((r.preferences.groups w).toOption.getD .empty)

section

variable {r : Resolver} {w : World} {t : Trace} {file : Except Failure (Mapping Value)}

/-- Every resolver can be muted. -/
theorem exists_mutes (r : Resolver) (w : World) (t : Trace) :
    ∃ r' w' t', r.Mutes w t r' w' t' := by
  let place : Path := ⟨.root, [".env"]⟩
  let values := (r.fileValues.exec w t).1.toOption.getD .empty
  -- in an empty tree the place has no file, but its mapping is kept already
  refine ⟨{ r with
      pinned := some place
      preferences := .memory ((r.preferences.groups w).toOption.getD .empty) },
    { w with files := ⟨.empty⟩, cwd := ⟨[], 0⟩ },
    ⟨⟨.once, Table.ofList [(place, ⟨place, 0, values⟩)]⟩, []⟩, rfl, rfl, rfl, ?_, rfl⟩
  rw [(fileValues_gives _ _ (.ok values)).answer]
  have hp : ({ w with files := ⟨.empty⟩, cwd := ⟨[], 0⟩ } : World).physical place = .ok place := by
    rw [World.physical,
      show FileSystem.physical ⟨.empty⟩ ⟨[], 0⟩ place = .ok place by decide +kernel]
    rfl
  simp only [Sees, fetched, Cache.get, hp]
  rfl

/-- A mapping that a line-by-line reader can give, or a source that is unavailable. -/
def FileHolds (file : Except Failure (Mapping Value)) : Prop :=
  (∃ values, file = .ok values ∧ Cache.IsDecoded values) ∨
    ∃ source reason, file = .error (.unavailable source reason)

/-- A mapping that is held was decoded. -/
theorem FileHolds.isDecoded (h : FileHolds file) {values : Mapping Value}
    (hv : file = .ok values) : Cache.IsDecoded values := by
  rcases h with ⟨values', rfl, hdec⟩ | ⟨source, reason, rfl⟩
  · exact Except.ok.inj hv ▸ hdec
  · cases hv

/-- What an env file in reach holds. -/
theorem fileHolds_of_fileInReach (hc : t.cache.Reached) (hr : r.FileInReach w) :
    FileHolds (r.fileValues.exec w t).1 := by
  cases hf : (r.fileValues.exec w t).1 with
  | ok values => exact .inl ⟨values, rfl, isDecoded_of_fileValues hc hf⟩
  | error failure =>
    obtain ⟨source, reason, rfl⟩ := unavailable_of_fileValues hr hf
    exact .inr ⟨source, reason, rfl⟩

/-- A key that can be asked for has an early answer. -/
theorem early_of_ask (hfile : FileHolds file) {key : Text} {value? : Option Text}
    (ha : r.secrets.ask w.environ key = .ok value?) :
    ∃ v?, (r.holdings w file).early key = .ok v? := by
  have there : ∀ source ∈ [Source.environment, .envFile],
      ∃ v, orNothing (r.holdings w file source key) = .ok v := fun source hm => by
    cases source with
    | environment => exact ⟨value?.map .str, by rw [holdings, ha]; rfl⟩
    | envFile =>
      rcases hfile with ⟨values, rfl, -⟩ | ⟨source, reason, rfl⟩
      · exact ⟨_, rfl⟩
      · exact ⟨none, rfl⟩
    | preferences => simp at hm
  exact (Holdings.exists_first there).imp fun v? h => h.1

/-- What the store of a document comes to: it answers or is unavailable, unless its document
breaks it. -/
theorem groups_cases {path : Path} (hd : r.preferences = .document path)
    (hu : ∀ problem, w.read path = .error problem → problem.isUnusable = false) :
    ((∃ gs, r.preferences.groups w = .ok gs) ∨
        ∃ source reason, r.preferences.groups w = .error (.unavailable source reason)) ∧
        ¬ r.StoreBreaks w ∨
      ∃ content failure, w.read path = .ok content ∧ Preferences.Breaks content failure ∧
        r.preferences.groups w = .error failure := by
  have hg : r.preferences.groups w = Preferences.readDocument w path := by rw [hd]; rfl
  -- a document that breaks the store has no other outcome
  have broken (hb : r.StoreBreaks w) :
      ∃ content failure, w.read path = .ok content ∧ Preferences.Breaks content failure ∧
        r.preferences.groups w = .error failure := by
    obtain ⟨path', content, failure, hp, hread, hb⟩ := hb
    rw [hd] at hp
    cases hp
    refine ⟨content, failure, hread, hb, ?_⟩
    rw [hg, Preferences.readDocument, hread]
    exact hb.decode path
  by_cases hb : r.StoreBreaks w
  · exact .inr (broken hb)
  · rw [hg]
    rcases Preferences.readDocument_cases hu with h | ⟨reason, h⟩ | ⟨content, failure, hr, h, hf⟩
    · exact .inl ⟨.inl h, hb⟩
    · exact .inl ⟨.inr ⟨_, _, h⟩, hb⟩
    · exact absurd ⟨path, content, failure, hd, hr, hf⟩ hb

/-- The sources of a resolver with a document, whatever the bytes are. -/
theorem exists_sturdy (hfile : FileHolds file) {path : Path}
    (hd : r.preferences = .document path)
    (hu : ∀ problem, w.read path = .error problem → problem.isUnusable = false) :
    ∃ failure, (r.holdings w file).Sturdy failure (r.StoreBreaks w) ∧
      ∀ key, failure ≠ .missing key := by
  have early : ∀ n, IsName n → ∃ v?, (r.holdings w file).early n = .ok v? := fun n hn =>
    early_of_ask hfile (hn.ask r.secrets w.environ)
  have writable : ∀ source key v, r.holdings w file source key = .ok (some v) → v.Writable :=
    writable_holdings (fun _ => hfile.isDecoded) (by rw [hd]; exact Preferences.writable_document path)
  -- a store that is not bad may name any failure
  rcases groups_cases hd hu with ⟨⟨gs, hg⟩ | ⟨source, reason, hg⟩, hb⟩ |
    ⟨content, failure, hread, hbreaks, hg⟩
  · refine ⟨.adrift, ⟨writable, early, fun key => .inr ⟨hb, ?_⟩⟩, fun key h => by cases h⟩
    exact ⟨_, by rw [holdings, Preferences.get?, hg]; rfl⟩
  · refine ⟨.adrift, ⟨writable, early, fun key => .inr ⟨hb, ?_⟩⟩, fun key h => by cases h⟩
    exact ⟨none, by rw [holdings, Preferences.get?, hg]; rfl⟩
  · refine ⟨failure, ⟨writable, early, fun key => .inl ⟨?_, ?_⟩⟩, hbreaks.other.2⟩
    · exact ⟨path, content, failure, hd, hread, hbreaks⟩
    · rw [holdings, Preferences.get?, hg]
      cases hbreaks <;> rfl

/-- The early sources of a muted resolver are worth the same. -/
theorem Mutes.early {r' : Resolver} {w' : World} {t' : Trace} (hm : r.Mutes w t r' w' t')
    (hfile : FileHolds (r.fileValues.exec w t).1) (n : Text) :
    (r.holdings w (r.fileValues.exec w t).1).early n =
      (r'.holdings w' (r'.fileValues.exec w' t').1).early n := by
  refine Holdings.first_congr fun source hs => ?_
  cases source with
  | environment => rw [holdings, holdings, hm.secrets, hm.environ]
  | envFile =>
    rw [hm.file]
    rcases hfile with ⟨values, hv, -⟩ | ⟨source, reason, hv⟩
    · rw [hv]
      rfl
    · rw [hv]
      rfl
  | preferences => simp at hs

/-- The store of a muted resolver is worth the same, unless it was broken. -/
theorem Mutes.store_eq {r' : Resolver} {w' : World} {t' : Trace} (hm : r.Mutes w t r' w' t')
    {path : Path} (hd : r.preferences = .document path)
    (hu : ∀ problem, w.read path = .error problem → problem.isUnusable = false)
    (hb : ¬ r.StoreBreaks w) {file' : Except Failure (Mapping Value)} (n : Text) :
    orNothing (r.holdings w file .preferences n) =
      orNothing (r'.holdings w' file' .preferences n) := by
  rw [holdings, holdings, Preferences.get?, Preferences.get?, hm.store, hm.group]
  rcases groups_cases hd hu with ⟨⟨gs, hg⟩ | ⟨source, reason, hg⟩, -⟩ |
    ⟨content, failure, hread, hbreaks, hg⟩
  · rw [hg]
    rfl
  · rw [hg]
    rfl
  · exact absurd ⟨path, content, failure, hd, hread, hbreaks⟩ hb

/-- The value of a key is what its sources come to. -/
theorem answer_env {key : Text} (hk : key ≠ wildcard) (default : Option Value)
    (interpolate : Bool) :
    ((r.env key default interpolate).exec w t).1 =
      (r.holdings w (r.fileValues.exec w t).1).value key default interpolate := by
  rw [env, if_neg hk]
  exact (r.value_gives w _ key default interpolate).answer (r.sees_fileValues w t)

/-- What is printed for a key is what its sources come to. -/
theorem answer_shown {key : Text} (hk : key ≠ wildcard) (default : Option Value)
    (interpolate : Bool) :
    ((r.shown key default interpolate).exec w t).1 =
      (r.holdings w (r.fileValues.exec w t).1).shown key default interpolate :=
  (r.shown_gives w _ hk default interpolate).answer (r.sees_fileValues w t)

/-- The store is asked just when the sources leave it something. -/
theorem asksStore_iff {key : Text} {interpolate : Bool} :
    r.AsksStore w t key interpolate ↔
      (r.holdings w (r.fileValues.exec w t).1).AsksStore key interpolate := by
  have hs := r.sees_fileValues w t
  have early (n : Text) : ((r.firstSet n [.environment, .envFile]).exec w t).1 =
      (r.holdings w (r.fileValues.exec w t).1).early n :=
    (r.firstSet_gives w _ n [.environment, .envFile]).answer hs
  simp only [AsksStore, Holdings.AsksStore, LeftToStore, early]

/-- A key that the process cannot be asked for ends its resolution. -/
theorem first_of_not_asked {key : Text} {fault : Environment.Fault}
    (ha : r.secrets.ask w.environ key = .error fault) :
    (r.holdings w file).first key Source.all = .error (.variable fault) := by
  rw [Source.all, Holdings.first, holdings, ha]
  rfl

/-- **SOURCES OF ANY BYTES.**  Resolution ends with another failure than that the key is
missing exactly when the key cannot be asked for, or when a document that breaks its store is
asked.  In all other cases there is a value, or none and no default; something is printed or
nothing; and a source that cannot be read is worth one that holds nothing. -/
theorem env_escapes_iff {key : Text} {path : Path} (hc : t.cache.Reached)
    (hk : key ≠ wildcard) (hd : r.preferences = .document path)
    (hu : ∀ problem, w.read path = .error problem → problem.isUnusable = false)
    (hr : r.FileInReach w) (interpolate : Bool) :
    (∀ default, (∃ failure, ((r.env key default interpolate).exec w t).1 = .error failure ∧
        failure ≠ .missing key) ↔ r.Escapes w t key interpolate) ∧
    (r.Escapes w t key interpolate →
      ∃ failure, ((r.shown key none interpolate).exec w t).1 = .error failure) ∧
    (¬ r.Escapes w t key interpolate →
      (∀ d, ∃ v, ((r.env key (some d) interpolate).exec w t).1 = .ok v) ∧
      ((∃ v, ((r.env key none interpolate).exec w t).1 = .ok v) ∨
        ((r.env key none interpolate).exec w t).1 = .error (.missing key)) ∧
      (∃ text, ((r.shown key none interpolate).exec w t).1 = .ok ⟨text, .ok ()⟩) ∧
      ∀ r' w' t', r.Mutes w t r' w' t' → ∀ default,
        ((r.env key default interpolate).exec w t).1 =
          ((r'.env key default interpolate).exec w' t').1 ∧
        ((r.shown key default interpolate).exec w t).1 =
          ((r'.shown key default interpolate).exec w' t').1) := by
  have hfile := fileHolds_of_fileInReach hc hr
  simp only [answer_env hk, answer_shown hk]
  cases ha : r.secrets.ask w.environ key with
  | error fault =>
    -- a key that cannot be asked for ends everything
    have he : r.Escapes w t key interpolate := .inl ⟨fault, ha⟩
    have hw : (r.holdings w (r.fileValues.exec w t).1).winner key interpolate =
        .error (.variable fault) := by
      rw [Holdings.winner, first_of_not_asked ha]
      rfl
    have hne : ∀ k, Failure.variable fault ≠ .missing k := fun k h => nomatch h
    refine ⟨fun default => ⟨fun _ => he, fun _ => ?_⟩, fun _ => ?_, fun hn => absurd he hn⟩
    · exact ⟨_, Holdings.value_of_error hw default, hne key⟩
    · exact ⟨_, Holdings.shown_of_error hw none hne⟩
  | ok value? =>
    -- otherwise the store is the only source that can fail
    obtain ⟨failure, hs, hne⟩ := exists_sturdy (r := r) hfile hd hu
    obtain ⟨v?, hearly⟩ := early_of_ask (r := r) hfile ha
    have hw := hs.failsWith_winner hearly interpolate
    have hesc : r.Escapes w t key interpolate ↔ r.StoreBreaks w ∧
        (r.holdings w (r.fileValues.exec w t).1).AsksStore key interpolate := by
      rw [Escapes, asksStore_iff]
      exact or_iff_right fun ⟨fault, hf⟩ => by rw [ha] at hf; cases hf
    rw [hesc]
    refine ⟨fun default => ⟨fun ⟨failure', hv, hm⟩ => ?_, fun hb => ?_⟩, fun hb => ?_,
      fun hb => ?_⟩
    · by_contra hb
      obtain ⟨v?, hok⟩ := hw.exists_ok hb
      rw [Holdings.value_of_winner hok] at hv
      cases v? with
      | some v => cases hv
      | none => cases default <;> cases hv; exact hm rfl
    · exact ⟨failure, Holdings.value_of_error (hw.eq_error hb) default, hne key⟩
    · exact ⟨failure, Holdings.shown_of_error (hw.eq_error hb) none hne⟩
    · obtain ⟨v?, hok⟩ := hw.exists_ok hb
      refine ⟨fun d => ?_, ?_, ?_, fun r' w' t' hm default => ?_⟩
      · rw [Holdings.value_of_winner hok]
        cases v? <;> exact ⟨_, rfl⟩
      · rw [Holdings.value_of_winner hok]
        cases v? with
        | some v => exact .inl ⟨v, rfl⟩
        | none => exact .inr rfl
      · refine Holdings.shown_of_winner hok fun v hv => ?_
        subst hv
        exact hs.writable_winner hok
      · have same := hs.winner_eq hearly hb (hm.early hfile)
          fun hn n => hm.store_eq hd hu hn n
        exact ⟨Holdings.value_congr same default, Holdings.shown_congr same default⟩

end

/-- A resolver with a document of one byte that begins no character, and no env file. -/
def brokenStore : Resolver where
  secrets := ⟨.empty, some .empty⟩
  preferences := .document ⟨.root, ["p"]⟩
  start := none
  pinned := some ⟨.root, [".env"]⟩
  filename := ".env"
  group := "env"

/-- The world of this document. -/
def brokenStoreWorld : World where
  files := ⟨Table.ofList [(["p"], .file [0xFF] 0)]⟩
  cwd := ⟨[], 0⟩
  environ := .empty
  users := .none
  now := 0

/-- Even a key with a default has no value with this document. -/
theorem env_escapes_brokenStore :
    ∃ failure, ((brokenStore.env "K" (some (.str "d")) true).exec brokenStoreWorld
      ⟨.new .once, []⟩).1 = .error failure ∧ failure ≠ .missing "K" := by
  have hread : brokenStoreWorld.read ⟨.root, ["p"]⟩ = .ok [0xFF] := by decide +kernel
  have hdecode : Text.Utf8.decode [0xFF] = .error ⟨.invalidStart, 0, 1, 0xFF⟩ := by
    decide +kernel
  have hreach : brokenStore.FileInReach brokenStoreWorld :=
    ⟨⟨.root, [".env"]⟩, by decide +kernel, ⟨.root, [".env"]⟩, by decide +kernel⟩
  have hasks : brokenStore.LeftToStore brokenStoreWorld ⟨.new .once, []⟩ "K" := by
    unfold LeftToStore
    decide +kernel
  have hk : ("K" : Text) ≠ wildcard := by decide
  exact ((env_escapes_iff (.new .once) hk rfl
    (fun problem h => by rw [hread] at h; cases h) hreach true).1 (some (.str "d"))).2
    (.inr ⟨⟨_, _, _, rfl, hread, .encoding hdecode⟩, .inl hasks⟩)

end Resolver

end Cascade
