/-
  Cascade.Proofs.SettingEquivalence
  ────────────────────────────────
  **A SETTING MEANS THE SAME IN THE STORE AS IN THE ENV FILE.**

  The command that sets a preference reads its raw value as the right side
  of a line, writes the document anew and leaves it to be read by the next
  look-up.  The line itself is read from the env file.  Both ways a key
  comes to the same value, whatever it is, and so do the references in it,
  those to the key itself included.

      exists_set          — after the command the document holds the setting,
                            and what it held for the other keys, in order
      Counterparts        — two resolvers, one with a setting in its store and
                            one with it in its env file
      Counterparts.first  — every key has the same first value for both
      set_eq_line         — so the setting resolves alike

  A document comes back with the members of its objects in the order of
  their names.  The store beside the env file holds for the other keys what
  the document holds once it was written.
-/
import Cascade.Proofs.Resilience
import Cascade.Proofs.SettingValue
import Cascade.Proofs.StoreEquivalence

namespace Cascade

open Cascade.Text
open Cascade.Json
open Cascade.CommandLine
open Cascade.Dotenv
open Cascade.Reference

/-! ## §1. The command. -/

/-- A byte that belongs to no character stands for no first half. -/
theorem Text.Utf8.isHighHalf_strayHalf (byte : UInt8) :
    isHighHalf (strayHalf byte).toNat = false := by
  have hn : (strayHalf byte).toNat = 0xD800 + (byte.toNat + 0x400) := rfl
  rw [hn, isHighHalf, Bool.and_eq_false_iff, decide_eq_false_iff_not]
  simp only [decide_eq_false_iff_not]
  omega

/-- A name is read without first halves. -/
theorem Text.Utf8.isHighHalf_of_mem_decodeNameFrom {bytes : Bytes} {position : Nat}
    {state : Option Begun} {begun : Bytes} :
    ∀ c ∈ decodeNameFrom position state begun bytes, isHighHalf c.toNat = false := by
  have stray (begun : Bytes) : ∀ c ∈ begun.map strayHalf, isHighHalf c.toNat = false := by
    intro c hc
    obtain ⟨byte, -, rfl⟩ := List.mem_map.1 hc
    exact isHighHalf_strayHalf byte
  have whole {c : Char} {t : Text} (h : ∀ d ∈ t, isHighHalf d.toNat = false) :
      ∀ d ∈ .char c :: t, isHighHalf d.toNat = false :=
    List.forall_mem_cons.2 ⟨(Text.not_half (c := .char c) rfl).1, h⟩
  induction bytes generalizing position state begun with
  | nil => exact stray begun
  | cons byte rest ih =>
    rw [decodeNameFrom]
    split
    · exact whole ih
    · exact ih
    · -- what was begun is stray, and the byte begins something new or is stray as well
      refine List.forall_mem_append.2 ⟨stray begun, ?_⟩
      split
      · exact whole ih
      · exact ih
      · exact List.forall_mem_cons.2 ⟨isHighHalf_strayHalf byte, ih⟩

namespace CommandLine.Pref

/-- The arguments of the command that sets a key. -/
def setArguments (key raw : Text) : Arguments := ⟨"set", none, none, [key, raw]⟩

/-- The group that is set in the environment is named without a pair of halves. -/
theorem unpaired_defaultGroup (w : World) :
    Unpaired (Secrets.ofProcess.getD w.environ "ENVCHAIN_PREF_GROUP" "env") := by
  show Unpaired ((Secrets.ofProcess.get? w.environ "ENVCHAIN_PREF_GROUP").getD "env")
  cases hg : Secrets.ofProcess.get? w.environ "ENVCHAIN_PREF_GROUP" with
  | none => exact (by decide : Unpaired "env")
  | some group =>
    have hv : w.environ.get? "ENVCHAIN_PREF_GROUP" = some group :=
      (Option.filter_eq_some_iff.1 hg).1
    unfold Environment.get? at hv
    split at hv
    · cases hv
    · obtain ⟨bytes, -, rfl⟩ := Option.map_eq_some_iff.1 hv
      exact unpaired_of_no_high Utf8.isHighHalf_of_mem_decodeNameFrom

/-- A key that is no flag is set to the value of the raw text. -/
theorem runOn_set (w : World) (s : Preferences) {key : Text} (raw : Text)
    (hg : key ≠ "--group") (hk : key ≠ "--prefs") :
    runOn w s ["set", key, raw] =
      match s.set w (groupOf w (setArguments key raw)) key (valueOf raw) with
      | (answer, w, s) => (finish ⟨[], answer.map fun _ => 0⟩, w, s) := by
  have hparse : Arguments.parse ["set", key, raw] = .ok (setArguments key raw) := by
    rw [Arguments.parse, Arguments.addAll, if_neg hg, if_neg hk]
    rfl
  unfold runOn
  rw [hparse]
  rfl

end CommandLine.Pref

/-! ## §2. The document afterwards. -/

namespace Preferences

variable {w : World} {p : Path} {gs : Groups}

/-- **WHAT IS SET IS IN THE DOCUMENT**, and with it what was there before, all names in order. -/
theorem exists_set {group key : Text} {v : Value} (hk : Keeps w p)
    (hr : readDocument w p = .ok gs) (hgroup : Unpaired group) (hkey : Unpaired key)
    (hv : Flat v) :
    ∃ files gs', (Preferences.document p).set w group key v =
        (.ok (), { w with files }, .document p) ∧
      readDocument { w with files } p = .ok gs' ∧ gs'.value? group key = some v ∧
        ∀ n, n ≠ key → gs'.value? group n = (gs.value? group n).map inNameOrder := by
  have hstorable : (gs.set group key v).Storable :=
    (storable_of_readDocument hr).set hgroup hkey hv.storable
  obtain ⟨files, -, gs', hwrite, -, hread, -, horder⟩ := exists_rewritten (.inl hk) hstorable
  refine ⟨files, gs', ?_, hread, ?_, fun n hn => ?_⟩
  · have hgroups : (Preferences.document p).groups w = .ok gs := hr
    simp only [set, hgroups, store, hwrite]
  · rw [Groups.value?_of_inNameOrder horder, Groups.value?_set, if_pos ⟨rfl, rfl⟩,
      Option.map_some, hv.inNameOrder_eq]
  · rw [Groups.value?_of_inNameOrder horder, Groups.value?_set, if_neg fun h => hn h.2.symm]

end Preferences

/-! ## §3. The env file. -/

/-- A cache without entries has nothing for a place where nothing is. -/
theorem Cache.answer_new_of_absent {w : World} {place : Path} (policy : Policy)
    (h : w.modified place = .error .notFound) :
    ((Cache.new policy).getAt w place).answer = .ok .empty := by
  have hheld : (Cache.new policy).loaded.get? place = none := rfl
  simp only [getAt, hheld, h, vanished, unchanged]

/-- What is read is in a file, which is seen. -/
theorem World.stat_of_read {w : World} {place : Path} {content : Bytes}
    (h : w.read place = .ok content) :
    w.isFile place = .ok true ∧ ∃ time, w.modified place = .ok time := by
  unfold World.read FileSystem.read at h
  unfold World.isFile FileSystem.isFile World.modified FileSystem.modified
  cases hs : w.files.stat w.cwd place with
  | error problem =>
    rw [hs] at h
    cases h
  | ok node =>
    rw [hs] at h
    cases node with
    | file content time => exact ⟨rfl, time, rfl⟩
    | directory time => cases h
    | link target => cases h

/-- A cache without entries loads the file at a place. -/
theorem Cache.answer_new_of_read {w : World} {place : Path} (policy : Policy)
    {content : Bytes} {values : Mapping Value} (hr : w.read place = .ok content)
    (hd : Dotenv.decode content = .ok values) :
    ((Cache.new policy).getAt w place).answer = .ok values := by
  obtain ⟨hfile, time, htime⟩ := World.stat_of_read hr
  have hheld : (Cache.new policy).loaded.get? place = none := rfl
  have hload : EnvFile.load w place = .ok values := by
    simp only [EnvFile.load, hfile, hr, hd]
  simp only [getAt, hheld, htime, reload, hload]

namespace Resolver

/-- The path of the env file: the pinned one, or the nearest one if there is one. -/
def envPath (r : Resolver) (w : World) : Except Failure (Option Path) :=
  match r.pinned with
  | some p => .ok (some p)
  | none =>
    match r.searchDir w with
    | .error failure => .error failure
    | .ok start => EnvFile.locate w start (Path.ofText r.filename)

/-- What there is of an env file: nothing, or the bytes of a file. -/
inductive HasFile (r : Resolver) (w : World) : Option Bytes → Prop
  | unfound (nowhere : r.envPath w = .ok none) : HasFile r w none
  | missing {p place : Path} (path : r.envPath w = .ok (some p))
    (resolved : w.physical p = .ok place) (absent : w.modified place = .error .notFound) :
    HasFile r w none
  | there {p place : Path} {content : Bytes} (path : r.envPath w = .ok (some p))
    (resolved : w.physical p = .ok place) (bytes : w.read place = .ok content) :
    HasFile r w (some content)

variable {r : Resolver} {w : World}

/-- The request is for the path of the env file, if there is one. -/
theorem fetched_eq (r : Resolver) (w : World) (c : Cache) :
    r.fetched w c = match r.envPath w with
      | .error failure => c.unchanged (.error failure)
      | .ok none => c.unchanged (.ok .empty)
      | .ok (some p) => c.get w p := by
  cases hpin : r.pinned with
  | some p => simp only [fetched, envPath, hpin]
  | none =>
    cases hs : r.searchDir w with
    | error failure => simp only [fetched, envPath, hpin, hs]
    | ok start =>
      simp only [fetched, envPath, hpin, hs]
      rfl

/-- A path that is found is asked for. -/
theorem fetched_of_envPath {p place : Path} (h : r.envPath w = .ok (some p))
    (hp : w.physical p = .ok place) (c : Cache) : r.fetched w c = c.getAt w place := by
  rw [fetched_eq, h]
  show c.get w p = c.getAt w place
  rw [Cache.get, hp]

/-- Without a file nothing is seen. -/
theorem HasFile.sees_empty (h : r.HasFile w none) (policy : Policy) :
    r.Sees w (.ok .empty) (Cache.new policy) := by
  cases h with
  | missing path resolved absent =>
    rw [Sees, fetched_of_envPath path resolved]
    exact Cache.answer_new_of_absent policy absent
  | unfound nowhere =>
    rw [Sees, fetched_eq, nowhere]
    rfl

/-- The mapping of a file is seen. -/
theorem HasFile.sees_decoded {content : Bytes} (h : r.HasFile w (some content))
    {values : Mapping Value} (hd : Dotenv.decode content = .ok values) (policy : Policy) :
    r.Sees w (.ok values) (Cache.new policy) := by
  cases h with
  | there path resolved bytes =>
    rw [Sees, fetched_of_envPath path resolved]
    exact Cache.answer_new_of_read policy bytes hd

/-! ## §4. The setting in either place. -/

/-- Two resolvers, of which one may have a setting in its store and has no env file, and the
other has an env file and a store that holds the same for the other keys; neither environment
defines the key. -/
structure Counterparts (stored : Resolver) (after : World) (filed : Resolver) (v : World)
    (key : Text) (content : Bytes) : Prop where
  secrets : filed.secrets = stored.secrets
  environ : v.environ = after.environ
  unset : stored.secrets.ask after.environ key = .ok none
  group : filed.group = stored.group
  noFile : stored.HasFile after none
  file : filed.HasFile v (some content)
  others : ∃ gs gs', stored.preferences.groups after = .ok gs ∧
    filed.preferences.groups v = .ok gs' ∧ gs'.value? stored.group key = none ∧
      ∀ n, n ≠ key → gs'.value? stored.group n = gs.value? stored.group n

section

variable {stored filed : Resolver} {after v : World} {key : Text} {content : Bytes}
  {value : Value}

/-- **ONE SETTING, TWO PLACES.**  Every name, and the key, has the same first value for both
resolvers. -/
theorem Counterparts.first (h : Counterparts stored after filed v key content)
    (hvalue : ∀ gs, stored.preferences.groups after = .ok gs →
      gs.value? stored.group key = some value) (n : Text) :
    (stored.holdings after (.ok .empty)).first n Source.all =
      (filed.holdings v (.ok (Table.ofList [(key, value)]))).first n Source.all := by
  obtain ⟨gs, gs', hgs, hgs', hnone, hothers⟩ := h.others
  have environment : stored.holdings after (.ok .empty) .environment n =
      filed.holdings v (.ok (Table.ofList [(key, value)])) .environment n := by
    rw [holdings, holdings, h.secrets, h.environ]
  have store : stored.holdings after (.ok .empty) .preferences n =
      .ok (gs.value? stored.group n) := by
    rw [holdings, Preferences.get?, hgs]
    rfl
  have store' : filed.holdings v (.ok (Table.ofList [(key, value)])) .preferences n =
      .ok (gs'.value? stored.group n) := by
    rw [holdings, Preferences.get?, hgs', h.group]
    rfl
  have file' : filed.holdings v (.ok (Table.ofList [(key, value)])) .envFile n =
      .ok (if key = n then some value else none) := by
    show Except.ok ((Table.ofList [(key, value)]).get? n) = _
    rw [Table.get?_ofList]
    rfl
  have file : stored.holdings after (.ok .empty) .envFile n = .ok none := rfl
  by_cases hn : n = key
  · -- the key is in the store here and in the file there, and nowhere else
    subst hn
    rw [hvalue gs hgs] at store
    rw [hnone] at store'
    rw [if_pos rfl] at file'
    have unset : stored.holdings after (.ok .empty) .environment n = .ok none := by
      rw [holdings, h.unset]
      rfl
    rw [Source.all, Holdings.first_of_nothing unset, Holdings.first_of_nothing file,
      Holdings.first_of_ok store, Holdings.first_of_nothing (environment.symm.trans unset),
      Holdings.first_of_ok file', Holdings.first_of_nothing store']
    rfl
  · rw [hothers n hn] at store'
    rw [if_neg (Ne.symm hn)] at file'
    refine Holdings.first_congr fun source hs => congrArg orNothing ?_
    cases source with
    | environment => exact environment
    | envFile => exact file.trans file'.symm
    | preferences => exact store.trans store'.symm

/-- A value depends on first values only. -/
theorem value_of_first {h h' : Holdings}
    (hf : ∀ n, h.first n Source.all = h'.first n Source.all) (key : Text)
    (default : Option Value) (interpolate : Bool) :
    h.value key default interpolate = h'.value key default interpolate := by
  have outside (n : Text) : h.outside n = h'.outside n := by
    rw [Holdings.outside, Holdings.outside, Holdings.raw, Holdings.raw, hf]
  simp only [Holdings.value, hf, outside]

/-- **A SETTING MEANS THE SAME IN THE STORE AS IN THE ENV FILE.**  The command that sets a key
succeeds, where documents can be kept and are readable.  It leaves the other keys what they
were, with the members of objects in the order of their names.  From then on, without an env
file, the key has the value, the default or the failure that it has where an env file holds the
line of the setting and nothing else, beside a store without the key that is otherwise the
same. -/
theorem set_eq_line {w : World} {p : Path} {gs : Groups} {key raw ending : Text}
    {content : Bytes} (hset : IsSetting key raw) (hg : key ≠ "--group") (hk : key ≠ "--prefs")
    (hw : key ≠ wildcard) (hkeeps : Preferences.Keeps w p)
    (hread : Preferences.readDocument w p = .ok gs) (hend : ending = [] ∨ ending = "\n")
    (hcontent : Utf8.encode (settingLine key raw ++ ending) = .ok content) :
    ∃ files gs', Pref.runOn w (.document p) ["set", key, raw] =
        (.ok ⟨0, [], []⟩, { w with files }, .document p) ∧
      Preferences.readDocument { w with files } p = .ok gs' ∧
      (∀ n, n ≠ key → gs'.value? (Pref.groupOf w (Pref.setArguments key raw)) n =
        (gs.value? (Pref.groupOf w (Pref.setArguments key raw)) n).map inNameOrder) ∧
      ∀ (stored filed : Resolver) (v : World), stored.preferences = .document p →
        stored.group = Pref.groupOf w (Pref.setArguments key raw) →
        Counterparts stored { w with files } filed v key content →
        ∀ (policy policy' : Policy) (log log' : List Entry) (default : Option Value)
          (interpolate : Bool),
          ((stored.env key default interpolate).exec { w with files }
              ⟨.new policy, log⟩).1 =
            ((filed.env key default interpolate).exec v ⟨.new policy', log'⟩).1 := by
  have hwhole : (settingLine key raw ++ ending).IsHalfless := isHalfless_of_encode hcontent
  have hkey : Unpaired key := (hwhole.of_subset fun c hc => by simp [settingLine, hc]).unpaired
  have hflat : Flat (Pref.valueOf raw) :=
    hset.flat (hwhole.of_subset fun c hc => by simp [settingLine, hc])
  have hgroup : Unpaired (Pref.groupOf w (Pref.setArguments key raw)) :=
    Pref.unpaired_defaultGroup w
  obtain ⟨files, gs', hdone, hread', hvalue, hothers⟩ :=
    Preferences.exists_set hkeeps hread hgroup hkey hflat
  refine ⟨files, gs', ?_, hread', hothers, ?_⟩
  · rw [Pref.runOn_set w _ raw hg hk, hdone]
    rfl
  · intro stored filed v hstore hgroup hpair policy policy' log log' default interpolate
    -- what the document holds for the key is what the line sets it to
    have held : ∀ gs, stored.preferences.groups { w with files } = .ok gs →
        gs.value? stored.group key = some (Pref.valueOf raw) := by
      intro gs hgs
      have hgroups : (Preferences.document p).groups { w with files } = .ok gs' := hread'
      rw [hstore, hgroups] at hgs
      cases hgs
      rw [hgroup, hvalue]
    have hsees := hpair.noFile.sees_empty policy
    have hsees' := hpair.file.sees_decoded (decode_setting hset hend hcontent) policy'
    rw [env, env, if_neg hw, if_neg hw]
    calc ((stored.value key default interpolate).exec { w with files } ⟨.new policy, log⟩).1
        = (stored.holdings { w with files } (.ok .empty)).value key default interpolate :=
          (stored.value_gives _ _ key default interpolate).answer hsees
      _ = (filed.holdings v (.ok (Table.ofList [(key, Pref.valueOf raw)]))).value key default
            interpolate := value_of_first (hpair.first held) key default interpolate
      _ = ((filed.value key default interpolate).exec v ⟨.new policy', log'⟩).1 :=
          ((filed.value_gives v _ key default interpolate).answer hsees').symm

end

/-- The groups in a document with a group of two keys and one of none. -/
def groupsBeforeSetting : Groups :=
  Table.ofList [("env", Table.ofList [("b", .int 1), ("a", .null)]), ("old", .empty)]

/-- A resolver over this document, without an env file. -/
def storedSetting : Resolver where
  secrets := ⟨.empty, some .empty⟩
  preferences := .document ⟨.relative, ["d", "p.json"]⟩
  start := none
  pinned := some ⟨.root, [".env"]⟩
  filename := ".env"
  group := "env"

/-- A resolver over the same groups in memory, with an env file. -/
def filedSetting : Resolver :=
  { storedSetting with preferences := .memory groupsBeforeSetting }

/-- The bytes of this env file. -/
def filedSettingBytes : Bytes := [107, 61, 36, 98, 32, 97, 110, 100, 32, 36, 107, 10]

/-- The world of this env file. -/
def filedSettingWorld : World where
  files := ⟨Table.ofList [([".env"], .file filedSettingBytes 0)]⟩
  cwd := ⟨[], 0⟩
  environ := .empty
  users := .none
  now := 0

/-- A setting that refers to another key and to itself: the other key is put in, and the
setting is as it was written. -/
theorem set_eq_line_ownReference :
    ∃ files, Pref.runOn Preferences.storedWorld (.document ⟨.relative, ["d", "p.json"]⟩)
        ["set", "k", "$b and $k"] =
          (.ok ⟨0, [], []⟩, { Preferences.storedWorld with files },
            .document ⟨.relative, ["d", "p.json"]⟩) ∧
      ((storedSetting.env "k" none true).exec { Preferences.storedWorld with files }
        ⟨.new .once, []⟩).1 = .ok (.str "1 and $b and $k") ∧
      ((filedSetting.env "k" none true).exec filedSettingWorld ⟨.new .mtime, []⟩).1 =
        .ok (.str "1 and $b and $k") := by
  have hset : IsSetting "k" "$b and $k" :=
    ⟨by decide, by decide, by decide, by decide, by decide⟩
  have hkeeps : Preferences.Keeps Preferences.storedWorld ⟨.relative, ["d", "p.json"]⟩ :=
    ⟨_, _, _, rfl, rfl, rfl⟩
  have hread : Preferences.readDocument Preferences.storedWorld ⟨.relative, ["d", "p.json"]⟩ =
      .ok groupsBeforeSetting := by decide +kernel
  have hbytes : Utf8.encode (settingLine "k" "$b and $k" ++ "\n") = .ok filedSettingBytes := by
    decide +kernel
  obtain ⟨files, gs, hrun, hread', hothers, hagree⟩ :=
    set_eq_line hset (by decide) (by decide) (by decide) hkeeps hread (.inr rfl) hbytes
  have hfiles : files = (Pref.runOn Preferences.storedWorld
      (.document ⟨.relative, ["d", "p.json"]⟩) ["set", "k", "$b and $k"]).2.1.files := by
    rw [hrun]
  have hnoFile : storedSetting.HasFile { Preferences.storedWorld with files } none := by
    have absent : ({ Preferences.storedWorld with files } : World).modified ⟨.root, [".env"]⟩ =
        .error .notFound := by
      rw [hfiles]
      decide +kernel
    refine .missing rfl ?_ absent
    rw [hfiles]
    decide +kernel
  have there : filedSettingWorld.read ⟨.root, [".env"]⟩ = .ok filedSettingBytes := by
    decide +kernel
  have hfile : filedSetting.HasFile filedSettingWorld (some filedSettingBytes) :=
    .there rfl (by decide +kernel) there
  -- numbers and null have no names to put in order
  have hplain (n : Text) : (groupsBeforeSetting.value? "env" n).map inNameOrder =
      groupsBeforeSetting.value? "env" n := by
    show (Entries.get? n [("b", .int 1), ("a", .null)]).map inNameOrder =
      Entries.get? n [("b", .int 1), ("a", .null)]
    simp only [Entries.get?]
    split
    · rfl
    · split <;> rfl
  have hpair : Counterparts storedSetting { Preferences.storedWorld with files } filedSetting
      filedSettingWorld "k" filedSettingBytes := by
    refine ⟨rfl, rfl, rfl, rfl, hnoFile, hfile, gs, groupsBeforeSetting, hread', rfl, by decide,
      fun n hn => ?_⟩
    exact ((hothers n hn).trans (hplain n)).symm
  have hvalue : ((filedSetting.env "k" none true).exec filedSettingWorld
      ⟨.new .mtime, []⟩).1 = .ok (.str "1 and $b and $k") := by decide +kernel
  have heq := hagree storedSetting filedSetting filedSettingWorld rfl rfl hpair .once .mtime []
    [] none true
  exact ⟨files, hrun, heq.trans hvalue, hvalue⟩

end Resolver

end Cascade
