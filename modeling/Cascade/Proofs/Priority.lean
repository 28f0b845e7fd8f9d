/-
  Cascade.Proofs.Priority
  ────────────────────────────────
  **WHICH SOURCE WINS.**

  A key without interpolation is resolved by ONE pass over the sources in
  order.  A source is passed over when it is unavailable or has nothing set
  for the key; the first one that is not passed over ends the pass.

      passed      — the entries logged for a source that is passed over
      traceAfter  — the trace once some sources have been asked
      env_eq_first
                  — the value of a key is that of the first source with a
                    value that is set, and the trace is that of the sources
                    UP TO this one, with one entry more; without such a
                    source it is the default, and the key is missing just
                    when there is none

  Sources that come later are in none of it.
-/
import Cascade.Proofs.Answers

namespace Cascade

/-! ## §1. What counts as set. -/

/-- Nothing, the empty text or the empty list. -/
def Value.IsUnset (v : Value) : Prop := v = .null ∨ v = .str [] ∨ v = .list []

instance : DecidablePred Value.IsUnset := fun v =>
  inferInstanceAs (Decidable (v = .null ∨ v = .str [] ∨ v = .list []))

/-- What is empty in a source is what is not set. -/
theorem Value.isEmpty_iff (v : Value) : v.isEmpty = true ↔ v.IsUnset := by
  unfold IsUnset
  cases v with
  | str t => cases t <;> simp [isEmpty]
  | list items => cases items <;> simp [isEmpty]
  | _ => simp [isEmpty]

example : ¬ (Value.int 0).IsUnset ∧ ¬ (Value.bool false).IsUnset ∧ ¬ (Value.object []).IsUnset := by
  simp [Value.IsUnset]

namespace Resolver

variable {r : Resolver} {w : World} {t : Trace} {key : Text}

/-! ## §2. Asking one source. -/

/-- What a source says when it is asked for a key. -/
def said (r : Resolver) (w : World) (t : Trace) (key : Text) (s : Source) :
    Except Failure (Option Value) := ((r.consult key s).exec w t).1

/-- A source that answers, or is unavailable. -/
def Answers (r : Resolver) (w : World) (t : Trace) (key : Text) (s : Source) : Prop :=
  (∃ v?, r.said w t key s = .ok v?) ∨
    ∃ path reason, r.said w t key s = .error (.unavailable path reason)

/-- What a source holds for a key; null when it has nothing or cannot tell. -/
def heldBy (r : Resolver) (w : World) (t : Trace) (key : Text) (s : Source) : Value :=
  match r.said w t key s with
  | .ok v? => v?.getD .null
  | .error _ => .null

/-- The entry for a source, if it is unavailable. -/
def skipped (r : Resolver) (w : World) (t : Trace) (key : Text) (s : Source) : List Entry :=
  match r.said w t key s with
  | .error (.unavailable path reason) => [skippedEntry s key (Path.ofText path).text reason]
  | _ => []

/-- The entries that asking a source adds: only the env file is loaded through a cache that
logs. -/
def passed (r : Resolver) (w : World) (t : Trace) (key : Text) (s : Source) : List Entry :=
  (if s = .envFile then (r.fetched w t.cache).log else []) ++ r.skipped w t key s

/-- The cache once some sources have been asked: only the env file is kept in it. -/
def cacheAfter (r : Resolver) (w : World) (t : Trace) (sources : List Source) : Cache :=
  if .envFile ∈ sources then (r.fetched w t.cache).cache else t.cache

/-- The trace once some sources have been asked for a key. -/
def traceAfter (r : Resolver) (w : World) (t : Trace) (key : Text) (sources : List Source) :
    Trace :=
  ⟨r.cacheAfter w t sources, t.log ++ sources.flatMap (r.passed w t key)⟩

/-- What a source says is what it holds. -/
theorem said_eq (r : Resolver) (w : World) (t : Trace) (key : Text) (s : Source) :
    r.said w t key s = r.holdings w (r.fetched w t.cache).answer s key :=
  (r.consult_gives w (r.fetched w t.cache).answer key s).answer rfl

/-- What a source says depends on the trace only as far as the env file's cache goes. -/
theorem said_congr {t' : Trace} {s : Source} (h : s = .envFile → t'.cache = t.cache) :
    r.said w t' key s = r.said w t key s := by
  rw [said_eq, said_eq]
  cases s with
  | environment => rfl
  | preferences => rfl
  | envFile => rw [h rfl]

/-- The trace of asking a source, whatever it says. -/
theorem consult_exec (r : Resolver) (w : World) (t : Trace) (key : Text) (s : Source) :
    (r.consult key s).exec w t = (r.said w t key s, ⟨r.cacheAfter w t [s],
      t.log ++ if s = .envFile then (r.fetched w t.cache).log else []⟩) := by
  refine Prod.ext rfl ?_
  cases s with
  | environment =>
    have hread : (read : Reading World).exec w t = (.ok w, t) := rfl
    unfold consult
    rw [Reading.exec_bind, hread]
    cases ha : r.secrets.ask w.environ key <;> simp only [ha] <;> simp [cacheAfter] <;> rfl
  | preferences =>
    show ((Reading.ofExcept (r.preferences.get? w r.group key)).exec w t).2 = _
    cases r.preferences.get? w r.group key <;> simp [cacheAfter] <;> rfl
  | envFile =>
    show ((r.fileValues >>= fun values => pure (values.get? key)).exec w t).2 = _
    have hf : r.fileValues.exec w t = (Reading.ofExcept (r.fetched w t.cache).answer).exec w
      ⟨(r.fetched w t.cache).cache, t.log ++ (r.fetched w t.cache).log⟩ := rfl
    rw [Reading.exec_bind, hf]
    cases (r.fetched w t.cache).answer <;> simp [cacheAfter] <;> rfl

/-- The trace of asking a source that answers or is unavailable: what it holds, and an entry
when it is passed over for that. -/
theorem consultOrSkip_exec {s : Source} (h : r.Answers w t key s) :
    ∃ v?, (r.consultOrSkip key s).exec w t = (.ok v?, r.traceAfter w t key [s]) ∧
      v?.getD .null = r.heldBy w t key s := by
  have htrace (entries : List Entry) (he : r.skipped w t key s = entries) :
      r.traceAfter w t key [s] = ⟨r.cacheAfter w t [s],
        t.log ++ (if s = .envFile then (r.fetched w t.cache).log else []) ++ entries⟩ := by
    simp [traceAfter, passed, he]
  unfold consultOrSkip Reading.orUnavailable
  rw [Reading.exec_tryCatch, consult_exec]
  unfold heldBy
  rcases h with ⟨v?, hv⟩ | ⟨path, reason, hv⟩
  · have hs : r.skipped w t key s = [] := by unfold skipped; rw [hv]
    rw [htrace [] hs, hv]
    exact ⟨v?, by simp, rfl⟩
  · have hs : r.skipped w t key s =
        [skippedEntry s key (Path.ofText path).text reason] := by unfold skipped; rw [hv]
    rw [htrace _ hs, hv]
    exact ⟨none, rfl, rfl⟩

/-! ## §3. Asking sources in order. -/

/-- A source that is passed over: it is unavailable, or has nothing set. -/
def PassedOver (r : Resolver) (w : World) (t : Trace) (key : Text) (s : Source) : Prop :=
  r.Answers w t key s ∧ (r.heldBy w t key s).IsUnset

/-- A source that was not asked yet says the same once others were asked. -/
theorem passed_congr {t' : Trace} {s : Source} (h : s = .envFile → t'.cache = t.cache) :
    r.passed w t' key s = r.passed w t key s := by
  unfold passed skipped
  rw [said_congr h]
  by_cases hs : s = .envFile
  · rw [h hs]
  · rw [if_neg hs, if_neg hs]

/-- The cache is as it was when the env file was not asked. -/
theorem cache_traceAfter {sources : List Source} (h : .envFile ∉ sources) :
    (r.traceAfter w t key sources).cache = t.cache := by
  show r.cacheAfter w t sources = t.cache
  rw [cacheAfter, if_neg h]

/-- Some sources are asked, and then others. -/
theorem traceAfter_append {first rest : List Source} (hn : (first ++ rest).Nodup) :
    r.traceAfter w (r.traceAfter w t key first) key rest =
      r.traceAfter w t key (first ++ rest) := by
  have hdisj (s : Source) (hs : s ∈ rest) : s ∉ first := fun hf =>
    (List.nodup_append.1 hn).2.2 s hf s hs rfl
  have hpassed : rest.flatMap (r.passed w (r.traceAfter w t key first) key) =
      rest.flatMap (r.passed w t key) := by
    rw [List.flatMap_def, List.flatMap_def]
    refine congrArg List.flatten (List.map_congr_left fun s hs => ?_)
    exact passed_congr fun he => cache_traceAfter (by rw [← he]; exact hdisj s hs)
  have hcache : r.cacheAfter w (r.traceAfter w t key first) rest =
      r.cacheAfter w t (first ++ rest) := by
    unfold cacheAfter
    by_cases hrest : .envFile ∈ rest
    · have hfirst : .envFile ∉ first := hdisj _ hrest
      rw [if_pos hrest, if_pos (List.mem_append_right first hrest), cache_traceAfter hfirst]
    · rw [if_neg hrest]
      show r.cacheAfter w t first = _
      simp [cacheAfter, hrest]
  unfold traceAfter at hpassed hcache ⊢
  rw [hcache, hpassed, List.flatMap_append, List.append_assoc]

/-- A source that is passed over leaves the key to the next ones. -/
theorem firstSet_exec_cons {s : Source} {rest : List Source} (h : r.PassedOver w t key s) :
    (r.firstSet key (s :: rest)).exec w t =
      (r.firstSet key rest).exec w (r.traceAfter w t key [s]) := by
  obtain ⟨v?, hexec, hv⟩ := consultOrSkip_exec h.1
  have hempty : (v?.getD .null).isEmpty = true := by
    rw [hv, Value.isEmpty_iff]
    exact h.2
  rw [firstSet, Reading.exec_bind, hexec]
  simp only [if_pos hempty]

/-- Sources that are passed over are asked one after another. -/
theorem firstSet_exec_append {before rest : List Source}
    (hn : (before ++ rest).Nodup) (h : ∀ s ∈ before, r.PassedOver w t key s) :
    (r.firstSet key (before ++ rest)).exec w t =
      (r.firstSet key rest).exec w (r.traceAfter w t key before) := by
  -- the sources still to come say the same after each that is passed over
  induction before generalizing t with
  | nil =>
    show (r.firstSet key rest).exec w t = _
    have ht : r.traceAfter w t key [] = t := by simp [traceAfter, cacheAfter]
    rw [ht]
  | cons s before ih =>
    have hnext : (before ++ rest).Nodup := (List.nodup_cons.1 hn).2
    have hlater : ∀ s' ∈ before, r.PassedOver w (r.traceAfter w t key [s]) key s' := by
      intro s' hs'
      have hne : s' ≠ s := fun he =>
        (List.nodup_cons.1 hn).1 (List.mem_append_left rest (he ▸ hs'))
      have hsaid : r.said w (r.traceAfter w t key [s]) key s' = r.said w t key s' :=
        said_congr fun he => cache_traceAfter (by simp [← he, hne])
      have hp := h s' (List.mem_cons_of_mem s hs')
      unfold PassedOver Answers heldBy at hp ⊢
      rw [hsaid]
      exact hp
    rw [List.cons_append, firstSet_exec_cons (h s List.mem_cons_self), ih hnext hlater,
      traceAfter_append]
    · rfl
    · exact (List.nodup_append.1 hn).1

/-- A source that has the key set ends the pass. -/
theorem firstSet_exec_set {s : Source} {rest : List Source} {v : Value}
    (h : r.said w t key s = .ok (some v)) (hv : ¬ v.IsUnset) :
    (r.firstSet key (s :: rest)).exec w t = (.ok (some v),
      ⟨r.cacheAfter w t [s], (r.traceAfter w t key [s]).log ++ [resolvedEntry s key]⟩) := by
  obtain ⟨v?, hexec, hheld⟩ := consultOrSkip_exec (.inl ⟨some v, h⟩)
  have hval : v?.getD .null = v := by
    rw [hheld, heldBy, h]
    rfl
  have hset : ¬ (v?.getD .null).isEmpty = true := by
    rw [hval, Value.isEmpty_iff]
    exact hv
  rw [firstSet, Reading.exec_bind, hexec]
  simp only [if_neg hset]
  rw [hval]
  rfl

/-! ## §4. The value of a key. -/

/-- Without interpolation the value of a key is what comes of the pass. -/
theorem env_exec (hk : key ≠ wildcard) (default : Option Value) :
    (r.env key default false).exec w t =
      match (r.firstSet key Source.all).exec w t with
      | (.ok (some v), t') => (.ok v, t')
      | (.ok none, t') => (orDefault key default).exec w t'
      | (.error failure, t') => (.error failure, t') := by
  rw [env, if_neg hk, value, Reading.exec_bind]
  rcases (r.firstSet key Source.all).exec w t with ⟨failure | v?, t'⟩
  · rfl
  · cases v? <;> rfl

/-- A source with something set says so. -/
theorem said_of_set {s : Source} (hv : ¬ (r.heldBy w t key s).IsUnset) :
    r.said w t key s = .ok (some (r.heldBy w t key s)) := by
  unfold heldBy at hv ⊢
  cases hs : r.said w t key s with
  | error failure =>
    rw [hs] at hv
    exact absurd (.inl rfl) hv
  | ok v? =>
    rw [hs] at hv
    cases v? with
    | none => exact absurd (.inl rfl) hv
    | some v => rfl

/-- The pass when a source wins: the ones before it are passed over, the ones after it are not
asked. -/
theorem firstSet_exec_of_set {before after : List Source} {source : Source}
    (hall : Source.all = before ++ source :: after)
    (hb : ∀ s ∈ before, r.PassedOver w t key s) (hv : ¬ (r.heldBy w t key source).IsUnset) :
    (r.firstSet key Source.all).exec w t = (.ok (some (r.heldBy w t key source)),
      ⟨r.cacheAfter w t (before ++ [source]),
        (r.traceAfter w t key (before ++ [source])).log ++ [resolvedEntry source key]⟩) := by
  have hn : (before ++ source :: after).Nodup := by
    rw [← hall]
    decide
  have hsplit : before ++ source :: after = (before ++ [source]) ++ after := by simp
  have hone : (before ++ [source]).Nodup := by
    rw [hsplit] at hn
    exact (List.nodup_append.1 hn).1
  have hfile : source = .envFile → (r.traceAfter w t key before).cache = t.cache := by
    intro he
    refine cache_traceAfter fun hm => ?_
    exact (List.nodup_append.1 hone).2.2 _ hm source (by simp) he.symm
  have hsaid : r.said w (r.traceAfter w t key before) key source =
      .ok (some (r.heldBy w t key source)) := by
    rw [said_congr hfile, said_of_set hv]
  have hlast : r.traceAfter w (r.traceAfter w t key before) key [source] =
      r.traceAfter w t key (before ++ [source]) := traceAfter_append hone
  have hcache : r.cacheAfter w (r.traceAfter w t key before) [source] =
      r.cacheAfter w t (before ++ [source]) := congrArg Trace.cache hlast
  rw [hall, firstSet_exec_append hn hb, firstSet_exec_set hsaid hv, hlast, hcache]

/-- The pass when every source is passed over. -/
theorem firstSet_exec_of_unset (h : ∀ s, r.PassedOver w t key s) :
    (r.firstSet key Source.all).exec w t = (.ok none, r.traceAfter w t key Source.all) := by
  have happend : (r.firstSet key (Source.all ++ [])).exec w t =
      (r.firstSet key []).exec w (r.traceAfter w t key Source.all) :=
    firstSet_exec_append (by decide) fun s _ => h s
  rw [List.append_nil] at happend
  exact happend

/-- The trace when a source wins. -/
theorem env_exec_of_set (hk : key ≠ wildcard) (default : Option Value)
    {before after : List Source} {source : Source}
    (hall : Source.all = before ++ source :: after)
    (hb : ∀ s ∈ before, r.PassedOver w t key s) (hv : ¬ (r.heldBy w t key source).IsUnset) :
    (r.env key default false).exec w t = (.ok (r.heldBy w t key source),
      ⟨r.cacheAfter w t (before ++ [source]),
        (r.traceAfter w t key (before ++ [source])).log ++ [resolvedEntry source key]⟩) := by
  rw [env_exec hk, firstSet_exec_of_set hall hb hv]

/-- The trace when every source is passed over: there is the default, if there is one. -/
theorem env_exec_of_unset (hk : key ≠ wildcard) (default : Option Value)
    (h : ∀ s, r.PassedOver w t key s) :
    (r.env key default false).exec w t =
      match default with
      | some d => (.ok d, ⟨r.cacheAfter w t Source.all,
          (r.traceAfter w t key Source.all).log ++ [defaultEntry key]⟩)
      | none => (.error (.missing key), r.traceAfter w t key Source.all) := by
  rw [env_exec hk, firstSet_exec_of_unset h]
  cases default <;> rfl

/-- **THE FIRST SOURCE WITH A VALUE WINS.**  The sources before it are asked in order and
passed over, those after it are not asked: neither the answer nor the trace has to do with
them.  Without a winner there is the default, and the key is missing just when there is
none. -/
theorem env_eq_first (hk : key ≠ wildcard) (default : Option Value) :
    ((∀ s, r.Answers w t key s) →
      ((r.env key default false).exec w t).1 =
        match (Source.all.map (r.heldBy w t key)).find? fun v => ¬ v.IsUnset, default with
        | some v, _ => .ok v
        | none, some d => .ok d
        | none, none => .error (.missing key)) ∧
    (∀ before source after, Source.all = before ++ source :: after →
      (∀ s ∈ before, r.PassedOver w t key s) → ¬ (r.heldBy w t key source).IsUnset →
      (r.env key default false).exec w t = (.ok (r.heldBy w t key source),
        ⟨r.cacheAfter w t (before ++ [source]),
          (r.traceAfter w t key (before ++ [source])).log ++ [resolvedEntry source key]⟩)) ∧
    ((∀ s, r.PassedOver w t key s) →
      (r.env key default false).exec w t =
        match default with
        | some d => (.ok d, ⟨r.cacheAfter w t Source.all,
            (r.traceAfter w t key Source.all).log ++ [defaultEntry key]⟩)
        | none => (.error (.missing key), r.traceAfter w t key Source.all)) := by
  refine ⟨fun hall => ?_, fun before source after hsplit hb hv => ?_, fun h => ?_⟩
  · rw [List.find?_map]
    cases hf : Source.all.find? ((fun v => decide ¬ v.IsUnset) ∘ r.heldBy w t key) with
    | none =>
      have hunset (s : Source) : r.PassedOver w t key s := by
        have hs : s ∈ Source.all := by cases s <;> decide
        have hnot := List.find?_eq_none.1 hf s hs
        exact ⟨hall s, by simpa using hnot⟩
      rw [env_exec_of_unset hk default hunset]
      cases default <;> rfl
    | some source =>
      obtain ⟨hv, before, after, hsplit, hb⟩ := List.find?_eq_some_iff_append.1 hf
      have hpassed : ∀ s ∈ before, r.PassedOver w t key s := fun s hs =>
        ⟨hall s, by simpa using hb s hs⟩
      rw [env_exec_of_set hk default hsplit hpassed (by simpa using hv)]
      rfl
  · exact env_exec_of_set hk default hsplit hb hv
  · exact env_exec_of_unset hk default h

/-- A resolver whose first source has the empty text, whose second is a file that cannot be
decoded, and whose third has zero. -/
def zeroPreferred : Resolver where
  secrets := ⟨.empty, some (Table.ofList [("K", "")])⟩
  preferences := .memory (Table.ofList [("env", Table.ofList [("K", .int 0)])])
  start := none
  pinned := some ⟨.root, [".env"]⟩
  filename := ".env"
  group := "env"

/-- The world of this file. -/
def zeroPreferredWorld : World where
  files := ⟨Table.ofList [([".env"], .file [0xFF] 0)]⟩
  cwd := ⟨[], 0⟩
  environ := .empty
  users := .none
  now := 0

/-- Zero wins: the empty text is passed over silently, the file with an entry. -/
theorem env_eq_first_zeroPreferred :
    let outcome := (zeroPreferred.env "K" (some (.str "d")) false).exec zeroPreferredWorld
      ⟨.new .once, []⟩
    outcome.1 = .ok (.int 0) ∧ outcome.2.log = [skippedEntry .envFile "K" "/.env"
      "'utf-8' codec can't decode byte 0xff in position 0: invalid start byte",
      resolvedEntry .preferences "K"] := by
  have hk : ("K" : Text) ≠ wildcard := by decide
  let t : Trace := ⟨.new .once, []⟩
  have hpassed : ∀ s ∈ [Source.environment, .envFile],
      zeroPreferred.PassedOver zeroPreferredWorld t "K" s := by
    intro s hs
    simp only [List.mem_cons, List.not_mem_nil, or_false] at hs
    rcases hs with rfl | rfl
    · exact ⟨.inl ⟨none, rfl⟩, by decide +kernel⟩
    · exact ⟨.inr ⟨_, _, rfl⟩, by decide +kernel⟩
  have hwins := (env_eq_first hk (some (.str "d"))).2.1 [.environment, .envFile] .preferences []
    rfl hpassed (by decide +kernel)
  have hvalue : zeroPreferred.heldBy zeroPreferredWorld t "K" .preferences = .int 0 := by
    decide +kernel
  rw [hvalue] at hwins
  intro outcome
  have houtcome : outcome = _ := hwins
  rw [houtcome]
  exact ⟨rfl, by decide +kernel⟩

end Resolver

end Cascade
