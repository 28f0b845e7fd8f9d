/-
  Cascade.Proofs.StableReads
  ────────────────────────────────
  **READS DO NOT DISTURB READS.**

  A read may load a file, load it again, or drop the entry of one that is
  gone.  What it never changes is what the env file IS for this resolver:
  whatever its cache held at first, stale entries included, each read is
  made through a cache that sees the same file (`Resolver.Sees`), and what
  a read answers is a function of that file and of what the other sources
  hold (`Holdings.read`).

      read_gives    — one read: its answer, and the file still seen
      replies_eq    — a series of reads: each as if it were the first

  The reads are made one after another, each at its own time: while the
  surroundings stay as they are the clock goes on, and no answer shows it.
-/
import Cascade.Proofs.Answers

namespace Cascade

/-! ## §1. Reads. -/

namespace Resolver

/-- What a resolver can be asked without a change of its surroundings. -/
inductive Lookup
  | env (key : Text) (default : Option Value) (interpolate : Bool)
  | all (interpolate : Bool)
  | shown (key : Text) (default : Option Value) (interpolate : Bool)
  | file
  deriving DecidableEq, Repr

/-- What is found. -/
inductive Found
  | value (v : Value)
  | mapping (values : Mapping Value)
  | printed (p : Printed)

/-- Makes a read. -/
def read (r : Resolver) : Lookup → Reading Found
  | .env key default interpolate => Found.value <$> r.env key default interpolate
  | .all interpolate => Found.mapping <$> r.all interpolate
  | .shown key default interpolate => Found.printed <$> r.shown key default interpolate
  | .file => Found.mapping <$> r.fileValues

/-- The replies to a series of reads, each made at a time of its own and with the trace that
the reads before it left. -/
def replies (r : Resolver) (w : World) : Trace → List (Int × Lookup) →
    List (Except Failure Found)
  | _, [] => []
  | t, (now, lookup) :: rest =>
    let (reply, t') := (r.read lookup).exec { w with now } t
    reply :: r.replies w t' rest

end Resolver

/-! ## §2. Their answers. -/

namespace Holdings

/-- The answer to a read, given what the env file and the other sources hold. -/
def read (h : Holdings) (file : Except Failure (Mapping Value)) :
    Resolver.Lookup → Except Failure Resolver.Found
  | .env key default interpolate =>
    .value <$>
      if key = Resolver.wildcard then do
        return .object (← h.all file interpolate).entries
      else h.value key default interpolate
  | .all interpolate => .mapping <$> h.all file interpolate
  | .shown key default interpolate =>
    .printed <$>
      if key = Resolver.wildcard then do
        return Resolver.listing (Text.sortBy Prod.fst (← h.all file interpolate).entries)
      else h.shown key default interpolate
  | .file => .mapping <$> file

end Holdings

namespace Resolver

open Reading

variable (r : Resolver) (w : World) (file : Except Failure (Mapping Value))

/-- **ONE READ.**  Its answer is a function of what the sources hold, and it leaves a cache
that sees the same env file. -/
theorem read_gives (lookup : Lookup) :
    Gives (r.Sees w file) w (r.read lookup) ((r.holdings w file).read file lookup) := by
  cases lookup with
  | env key default interpolate =>
    refine Gives.map ?_ Found.value
    by_cases hk : key = wildcard
    · rw [env, if_pos hk, if_pos hk]
      exact (r.all_gives w file interpolate).bind fun values _ => gives_pure _
    · rw [env, if_neg hk, if_neg hk]
      exact r.value_gives w file key default interpolate
  | all interpolate => exact (r.all_gives w file interpolate).map Found.mapping
  | shown key default interpolate =>
    refine Gives.map ?_ Found.printed
    by_cases hk : key = wildcard
    · rw [shown, if_pos hk, if_pos hk]
      exact (r.all_gives w file interpolate).bind fun values _ => gives_pure _
    · rw [if_neg hk]
      exact r.shown_gives w file hk default interpolate
  | file => exact (r.fileValues_gives w file).map Found.mapping

/-! ## §3. The clock. -/

/-- The search for a file does not look at the clock. -/
theorem firstFile_at (now : Int) (ps : List Path) :
    EnvFile.firstFile { w with now } ps = EnvFile.firstFile w ps := by
  induction ps with
  | nil => rfl
  | cons p rest ih =>
    rw [EnvFile.firstFile, EnvFile.firstFile, ih]
    rfl

/-- The request for the env file does not look at the clock. -/
theorem fetched_at (now : Int) (c : Cache) : r.fetched { w with now } c = r.fetched w c := by
  have find (start name : Path) : c.find { w with now } start name = c.find w start name := by
    have locate : EnvFile.locate { w with now } start name = EnvFile.locate w start name := by
      show (EnvFile.searchDirs w start >>= fun ds =>
        EnvFile.firstFile { w with now } (ds.map fun d => d.append name)) = _
      simp only [firstFile_at]
      rfl
    unfold Cache.find
    rw [locate]
    rfl
  unfold fetched
  cases r.pinned with
  | some p => rfl
  | none =>
    have start : r.searchDir { w with now } = r.searchDir w := rfl
    rw [start]
    cases r.searchDir w with
    | error failure => rfl
    | ok start => exact find start (Path.ofText r.filename)

/-- A read at another time has the same answer. -/
theorem read_at {t : Trace} (hs : r.Sees w file t.cache) (now : Int) (lookup : Lookup) :
    ((r.read lookup).exec { w with now } t).1 = (r.holdings w file).read file lookup ∧
      r.Sees w file ((r.read lookup).exec { w with now } t).2.cache := by
  have sees (c : Cache) : r.Sees { w with now } file c ↔ r.Sees w file c := by
    rw [Sees, Sees, fetched_at]
  -- no source holds anything else at another time
  have holdings : r.holdings { w with now } file = r.holdings w file := by
    funext source
    cases source <;> rfl
  obtain ⟨answer, kept⟩ := r.read_gives { w with now } file lookup t ((sees _).2 hs)
  rw [holdings] at answer
  exact ⟨answer, (sees _).1 kept⟩

/-! ## §4. A series of reads. -/

/-- Through a cache that sees an env file, each read of a series has the answer for it. -/
theorem replies_of_sees {t : Trace} (hs : r.Sees w file t.cache)
    (reads : List (Int × Lookup)) :
    r.replies w t reads = reads.map fun e => (r.holdings w file).read file e.2 := by
  -- on the reads, for every trace through which this file is seen
  induction reads generalizing t with
  | nil => rfl
  | cons e rest ih =>
    obtain ⟨now, lookup⟩ := e
    obtain ⟨answer, kept⟩ := r.read_at w file hs now lookup
    show ((r.read lookup).exec { w with now } t).1 ::
      r.replies w ((r.read lookup).exec { w with now } t).2 rest = _
    rw [answer, ih kept]
    rfl

/-- **READS DO NOT DISTURB READS.**  Whatever the cache holds to begin with, the reply to
each read of a series, a failure included, is the one it has as the only read, made first:
neither the reads before it nor their order nor their number shows in it. -/
theorem replies_eq (t : Trace) (reads : List (Int × Lookup)) :
    r.replies w t reads = reads.map fun e => ((r.read e.2).exec w t).1 := by
  have hs : r.Sees w (r.fileValues.exec w t).1 t.cache := r.sees_fileValues w t
  rw [r.replies_of_sees w _ hs]
  apply List.map_congr_left
  intro e he
  exact (r.read_at w _ hs w.now e.2).1.symm

end Resolver

end Cascade
