/-
  Cascade.Proofs.Answers
  ────────────────────────────────
  **RESOLUTION WITHOUT A TRACE.**

  A resolver reads through a cache and writes a log.  Neither shows in its
  answers: while the world stays as it is they are a FUNCTION of what each
  source holds for each key.

      Holdings          — what each source holds for each key
      Holdings.first    — the first value that is not empty
      Holdings.value    — the value of a key
      Holdings.all      — the whole file
      value_gives, all_gives, shown_gives
                        — a resolver gives just these answers

  The file is read anew for every look-up, and the look-ups of one
  resolution may change the cache; the answer for the file stays the same
  throughout, which is the invariant of all that follows.
-/
import Cascade.Proofs.CacheAnswers
import Cascade.Proofs.Transfer
import Cascade.Resolver

namespace Cascade

/-! ## §1. Readings that give an answer. -/

namespace Reading

variable {α β : Type} {inv : Cache → Prop} {w : World}

/-- One reading after another: a failure ends both, a value goes on into the second. -/
theorem exec_bind (x : Reading α) (f : α → Reading β) (w : World) (t : Trace) :
    (x >>= f).exec w t = match x.exec w t with
      | (.ok r, t') => (f r).exec w t'
      | (.error failure, t') => (.error failure, t') := by
  show (match x.exec w t with
    | (r, t') => ExceptT.bindCont (fun r => f r w) r t') = _
  rcases x.exec w t with ⟨failure | r, t'⟩ <;> rfl

/-- A reading whose failures are handled: only a failure is, with the trace it left. -/
theorem exec_tryCatch (x : Reading α) (handle : Failure → Reading α) (w : World) (t : Trace) :
    (tryCatch x handle : Reading α).exec w t = match x.exec w t with
      | (.ok r, t') => (.ok r, t')
      | (.error failure, t') => (handle failure).exec w t' := by
  show ExceptT.tryCatch (x w) (fun failure => handle failure w) t = _
  rw [ExceptT.tryCatch, ExceptT.mk]
  show StateT.bind _ _ t = _
  rw [StateT.bind]
  simp only [exec]
  rcases x w t with ⟨failure | r, t'⟩ <;> rfl

/-- Whatever the log, and from every cache with a property, a reading has the given answer
and leaves a cache with this property. -/
def Gives (inv : Cache → Prop) (w : World) (x : Reading α) (a : Except Failure α) : Prop :=
  ∀ t, inv t.cache → (x.exec w t).1 = a ∧ inv (x.exec w t).2.cache

/-- What a reading gives is its answer. -/
theorem Gives.answer {x : Reading α} {a : Except Failure α} (h : Gives inv w x a) {t : Trace}
    (ht : inv t.cache) : (x.exec w t).1 = a := (h t ht).1

/-- A known value. -/
theorem gives_pure (a : α) : Gives inv w (pure a) (.ok a) := fun _ ht => ⟨rfl, ht⟩

/-- A failure. -/
theorem gives_throw (failure : Failure) :
    Gives inv w (throw failure : Reading α) (.error failure) := fun _ ht => ⟨rfl, ht⟩

/-- A log entry. -/
theorem gives_log (e : Entry) : Gives inv w (log e) (.ok ()) := fun _ ht => ⟨rfl, ht⟩

/-- The world. -/
theorem gives_read : Gives inv w (read : Reading World) (.ok w) := fun _ ht => ⟨rfl, ht⟩

/-- An answer that is already known. -/
theorem gives_ofExcept (a : Except Failure α) : Gives inv w (ofExcept a) a := by
  cases a with
  | ok a => exact gives_pure a
  | error failure => exact gives_throw failure

/-- One reading after another. -/
theorem Gives.bind {x : Reading α} {f : α → Reading β} {a : Except Failure α}
    {g : α → Except Failure β} (hx : Gives inv w x a)
    (hf : ∀ r, a = .ok r → Gives inv w (f r) (g r)) : Gives inv w (x >>= f) (a >>= g) := by
  intro t ht
  obtain ⟨hr, ht'⟩ := hx t ht
  rw [exec_bind]
  rcases hx' : x.exec w t with ⟨failure | r, t'⟩
  · rw [hx'] at hr ht'
    subst hr
    exact ⟨rfl, ht'⟩
  · rw [hx'] at hr ht'
    subst hr
    exact hf r rfl t' ht'

/-- A reading whose value is turned into another one. -/
theorem Gives.map {x : Reading α} {a : Except Failure α} (hx : Gives inv w x a) (f : α → β) :
    Gives inv w (f <$> x) (f <$> a) := by
  rw [map_eq_pure_bind, map_eq_pure_bind]
  exact hx.bind fun r _ => gives_pure (f r)

/-- A reading whose failures are handled. -/
theorem Gives.handled {x : Reading α} {a : Except Failure α} {handle : Failure → Reading α}
    {handle' : Failure → Except Failure α} (hx : Gives inv w x a)
    (hh : ∀ failure, a = .error failure → Gives inv w (handle failure) (handle' failure)) :
    Gives inv w (tryCatch x handle) (tryCatch a handle') := by
  intro t ht
  obtain ⟨hr, ht'⟩ := hx t ht
  rw [exec_tryCatch]
  rcases hx' : x.exec w t with ⟨failure | r, t'⟩
  · rw [hx'] at hr ht'
    subst hr
    exact hh failure rfl t' ht'
  · rw [hx'] at hr ht'
    subst hr
    exact ⟨rfl, ht'⟩

/-- Readings give their answers step by step. -/
theorem transfers_gives (inv : Cache → Prop) (w : World) :
    Reference.Transfers fun α _ (x : Reading α) (a : Except Failure α) => Gives inv w x a where
  pure a := gives_pure a
  bind hx hf := hx.bind fun r _ => hf r

end Reading

/-! ## §2. What the sources hold. -/

/-- What each source holds for each key, or how it fails. -/
abbrev Holdings := Source → Text → Except Failure (Option Value)

/-- An answer where an unavailable source counts as one that holds nothing. -/
def orNothing {α : Type} : Except Failure (Option α) → Except Failure (Option α)
  | .error (.unavailable _ _) => .ok none
  | a => a

/-- What comes of a failure where an unavailable source holds nothing. -/
def passedOver {α : Type} : Failure → Except Failure (Option α)
  | .unavailable _ _ => .ok none
  | failure => .error failure

namespace Holdings

/-- The first value for a key that is not empty, in sources taken in order. -/
def first (h : Holdings) (key : Text) : List Source → Except Failure (Option Value)
  | [] => return none
  | source :: rest => do
    let v := (← orNothing (h source key)).getD .null
    if v.isEmpty then h.first key rest else return some v

/-- A source that answers has the first value unless this is empty. -/
theorem first_of_ok {h : Holdings} {key : Text} {source : Source} {v? : Option Value}
    (hs : h source key = .ok v?) (rest : List Source) :
    h.first key (source :: rest) =
      if (v?.getD .null).isEmpty then h.first key rest else .ok (some (v?.getD .null)) := by
  rw [first, hs]
  rfl

/-- A source that holds nothing is passed over. -/
theorem first_of_nothing {h : Holdings} {key : Text} {source : Source}
    (hs : h source key = .ok none) (rest : List Source) :
    h.first key (source :: rest) = h.first key rest := first_of_ok hs rest

/-- A default, which is missed when there is none. -/
def orMissing (key : Text) : Option Value → Except Failure Value
  | some v => return v
  | none => throw (.missing key)

/-- The value of a key as the sources hold it. -/
def raw (h : Holdings) (key : Text) (default : Option Value) : Except Failure Value := do
  match ← h.first key Source.all with
  | some v => return v
  | none => orMissing key default

/-- The value of a name referenced inside another value. -/
def outside (h : Holdings) (name : Text) : Except Failure Value :=
  h.raw name (some Resolver.undefinedValue)

/-- The text of a value that is put in or printed. -/
def written : Option Text → Except Failure Text
  | some t => return t
  | none => throw (.unwritable .tooManyDigits)

/-- The value of a key. -/
def value (h : Holdings) (key : Text) (default : Option Value) (interpolate : Bool) :
    Except Failure Value := do
  match ← h.first key Source.all with
  | none => orMissing key default
  | some v =>
    Reference.expandValueIf interpolate
      (fun name => do return some (← written (← h.outside name).inserted?)) v

/-- The names and values for a list of names. -/
def values (h : Holdings) : List Text → Except Failure (List (Text × Value))
  | [] => return []
  | name :: rest => do
    let v ← h.outside name
    return (name, v) :: (← h.values rest)

/-- The whole file, given what it holds. -/
def all (h : Holdings) (file : Except Failure (Mapping Value)) (interpolate : Bool) :
    Except Failure (Mapping Value) := do
  match ← orNothing (some <$> file) with
  | none => return .empty
  | some values =>
    if interpolate then
      let outside ← h.values (Resolver.outsideNames values)
      match Reference.expandMapping values fun n => Entries.get? n outside with
      | some expanded => return expanded.insertAll outside
      | none => throw (.unwritable .tooManyDigits)
    else return values

/-- What is printed for a key that is not the wildcard. -/
def shown (h : Holdings) (key : Text) (default : Option Value) (interpolate : Bool) :
    Except Failure Resolver.Printed :=
  tryCatch
    (do
      let text ← Resolver.displayed (← h.value key default interpolate)
      return ⟨text ++ "\n", .ok ()⟩)
    fun
    | .missing _ => return ⟨[], .ok ()⟩
    | failure => throw failure

end Holdings

namespace Resolver

open Reading

/-- The request for the env file. -/
def fetched (r : Resolver) (w : World) (c : Cache) : Cache.Fetched :=
  match r.pinned with
  | some p => c.get w p
  | none =>
    match r.searchDir w with
    | .error failure => c.unchanged (.error failure)
    | .ok start => c.find w start (Path.ofText r.filename)

/-- A cache through which the env file has the given mapping. -/
def Sees (r : Resolver) (w : World) (file : Except Failure (Mapping Value)) (c : Cache) :
    Prop := (r.fetched w c).answer = file

/-- The request for the env file made again has the same answer. -/
theorem sees_fetched (r : Resolver) (w : World) {c : Cache}
    {file : Except Failure (Mapping Value)} (h : r.Sees w file c) :
    r.Sees w file (r.fetched w c).cache := by
  -- pinned or searched for, it is the same request made again
  unfold Sees fetched at *
  split
  · rename_i p hp
    rw [hp] at h
    rw [← h, Cache.answer_get_get]
  · rename_i hp
    rw [hp] at h
    simp only at h ⊢
    split
    · rename_i failure hs
      rw [hs] at h
      exact h
    · rename_i start hs
      rw [hs] at h
      rw [← h, Cache.answer_find_find]

/-- What the sources of a resolver hold when its env file has the given mapping. -/
def holdings (r : Resolver) (w : World) (file : Except Failure (Mapping Value)) : Holdings
  | .environment, key =>
    match r.secrets.ask w.environ key with
    | .error fault => .error (.variable fault)
    | .ok value? => .ok (value?.map .str)
  | .envFile, key => (fun values => values.get? key) <$> file
  | .preferences, key => r.preferences.get? w r.group key

/-- The env file gives its mapping, time and again. -/
theorem fileValues_gives (r : Resolver) (w : World) (file : Except Failure (Mapping Value)) :
    Gives (r.Sees w file) w r.fileValues file := by
  intro t ht
  have hr : (r.fileValues.exec w t) = (ofExcept (r.fetched w t.cache).answer).exec w
      ⟨(r.fetched w t.cache).cache, t.log ++ (r.fetched w t.cache).log⟩ := rfl
  rw [hr, show (r.fetched w t.cache).answer = file from ht]
  exact gives_ofExcept file _ (r.sees_fetched w ht)

/-- A cache sees the env file as it answers for it. -/
theorem sees_fileValues (r : Resolver) (w : World) (t : Trace) :
    r.Sees w (r.fileValues.exec w t).1 t.cache := ((r.fileValues_gives w _).answer rfl).symm

section Answers

variable (r : Resolver) (w : World) (file : Except Failure (Mapping Value))

/-- A source gives what it holds. -/
theorem consult_gives (key : Text) (source : Source) :
    Gives (r.Sees w file) w (r.consult key source) (r.holdings w file source key) := by
  cases source with
  | environment =>
    -- the world that is read is the one that was given
    refine gives_read.bind (g := fun _ => r.holdings w file .environment key) fun w' hw => ?_
    cases hw
    simp only [holdings]
    cases r.secrets.ask w.environ key with
    | error fault => exact gives_throw _
    | ok value? => exact gives_pure _
  | envFile => exact (r.fileValues_gives w file).map fun values => values.get? key
  | preferences =>
    refine gives_read.bind (g := fun _ => r.holdings w file .preferences key) fun w' hw => ?_
    cases hw
    exact gives_ofExcept _

/-- A reading that passes over an unavailable source. -/
theorem orUnavailable_gives {α : Type} {inv : Cache → Prop} {w : World}
    {x : Reading (Option α)} {a : Except Failure (Option α)}
    (hx : Gives inv w x a) (entry : Text → Text → Entry) :
    Gives inv w
      (x.orUnavailable fun path reason => do
        Reading.log (entry path reason)
        return none) (orNothing a) := by
  have hc : orNothing a = tryCatch a passedOver := by
    rcases a with failure | v
    · cases failure <;> rfl
    · rfl
  rw [hc]
  refine hx.handled fun failure _ => ?_
  cases failure with
  | unavailable path reason => exact (gives_log _).bind fun _ _ => gives_pure none
  | _ => exact gives_throw _

/-- The first value that is not empty. -/
theorem firstSet_gives (key : Text) (sources : List Source) :
    Gives (r.Sees w file) w (r.firstSet key sources)
      ((r.holdings w file).first key sources) := by
  induction sources with
  | nil => exact gives_pure none
  | cons source rest ih =>
    have hskip : Gives (r.Sees w file) w (r.consultOrSkip key source)
        (orNothing (r.holdings w file source key)) :=
      orUnavailable_gives (r.consult_gives w file key source) _
    refine hskip.bind fun v _ => ?_
    -- an empty value is passed over like one that is not there
    by_cases he : (v.getD .null).isEmpty = true
    · rw [if_pos he, if_pos he]
      exact ih
    · rw [if_neg he, if_neg he]
      exact (gives_log _).bind fun _ _ => gives_pure _

/-- A default. -/
theorem orDefault_gives (key : Text) (default : Option Value) :
    Gives (r.Sees w file) w (orDefault key default) (Holdings.orMissing key default) := by
  cases default with
  | none => exact gives_throw _
  | some v => exact (gives_log _).bind fun _ _ => gives_pure v

/-- The value of a key as the sources hold it. -/
theorem rawValue_gives (key : Text) (default : Option Value) :
    Gives (r.Sees w file) w (r.rawValue key default)
      ((r.holdings w file).raw key default) := by
  refine (r.firstSet_gives w file key Source.all).bind fun v _ => ?_
  cases v with
  | none => exact orDefault_gives r w file key default
  | some v => exact gives_pure v

/-- The value of a name referenced inside another value. -/
theorem outsideValue_gives (name : Text) :
    Gives (r.Sees w file) w (r.outsideValue name) ((r.holdings w file).outside name) :=
  r.rawValue_gives w file name _

/-- The text of a value that is put in. -/
theorem textOf_gives (v : Value) :
    Gives (r.Sees w file) w (textOf v) (Holdings.written v.inserted?) := by
  unfold textOf Holdings.written
  cases v.inserted? with
  | none => exact gives_throw _
  | some t => exact gives_pure t

/-- Expansion of a value, where every name gives its answer. -/
theorem expandValueIf_gives {inv : Cache → Prop} {answer : Text → Reading (Option Text)}
    {answer' : Text → Except Failure (Option Text)}
    (h : ∀ name, Gives inv w (answer name) (answer' name)) (interpolate : Bool) (v : Value) :
    Gives inv w (Reference.expandValueIf interpolate answer v)
      (Reference.expandValueIf interpolate answer' v) := by
  cases interpolate with
  | false => exact gives_pure v
  | true => exact (transfers_gives inv w).expandValue fun name _ => h name

/-- The value of a key. -/
theorem value_gives (key : Text) (default : Option Value) (interpolate : Bool) :
    Gives (r.Sees w file) w (r.value key default interpolate)
      ((r.holdings w file).value key default interpolate) := by
  refine (r.firstSet_gives w file key Source.all).bind fun v _ => ?_
  -- a default is answered as it is, only a value has its references replaced
  cases v with
  | none => exact orDefault_gives r w file key default
  | some v =>
    refine expandValueIf_gives w (fun name => ?_) interpolate v
    refine (r.outsideValue_gives w file name).bind fun v _ => ?_
    exact (textOf_gives r w file v).bind fun t _ => gives_pure (some t)

/-- The values of a list of names. -/
theorem valuesOf_gives (names : List Text) :
    Gives (r.Sees w file) w (r.valuesOf names) ((r.holdings w file).values names) := by
  induction names with
  | nil => exact gives_pure []
  | cons name rest ih =>
    refine (r.outsideValue_gives w file name).bind fun v _ => ?_
    exact ih.bind fun values _ => gives_pure _

/-- The whole file. -/
theorem all_gives (interpolate : Bool) :
    Gives (r.Sees w file) w (r.all interpolate)
      ((r.holdings w file).all file interpolate) := by
  have hfile : Gives (r.Sees w file) w r.availableFile (orNothing (some <$> file)) :=
    orUnavailable_gives ((r.fileValues_gives w file).map some) _
  refine hfile.bind fun values _ => ?_
  cases values with
  | none => exact gives_pure _
  | some values =>
    cases interpolate with
    | false => exact gives_pure values
    | true =>
      -- the names left open are looked up first, then the mapping is expanded
      refine (r.valuesOf_gives w file (outsideNames values)).bind fun outside _ => ?_
      cases Reference.expandMapping values fun n => Entries.get? n outside with
      | none => exact gives_throw _
      | some expanded => exact gives_pure _

/-- What is printed for a key. -/
theorem shown_gives {key : Text} (hk : key ≠ wildcard) (default : Option Value)
    (interpolate : Bool) :
    Gives (r.Sees w file) w (r.shown key default interpolate)
      ((r.holdings w file).shown key default interpolate) := by
  unfold shown
  rw [if_neg hk]
  refine Gives.handled ?_ fun failure _ => ?_
  · refine (r.value_gives w file key default interpolate).bind fun v _ => ?_
    exact (gives_ofExcept (displayed v)).bind fun t _ => gives_pure _
  · cases failure with
    | missing _ => exact (gives_log _).bind fun _ _ => gives_pure _
    | _ => exact gives_throw _

end Answers

end Resolver

end Cascade
