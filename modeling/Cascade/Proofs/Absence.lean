/-
  Cascade.Proofs.Absence
  ────────────────────────────────
  **WHERE THERE IS NO FILE.**

  Whether there is a file is judged twice: a request asks for the time of its
  place, and loading asks for a regular file.  The two agree where nothing is
  and differ where a directory is (`Cache.getAt_of_noFile`):

      nothing    — the answer is empty, and nothing is kept of it
      directory  — the answer is empty too, and KEPT, with the time of the
                   directory

  So a file that is made where nothing was is read by the next request.  One
  that takes the place of a directory is read once the entry is dropped or the
  file is newer than the directory was, and under `once` never by itself
  (`Run.get_where_no_file`).
-/
import Cascade.Proofs.CacheHistory
import Cascade.Proofs.FailedLoad

namespace Cascade

/-! ## §1. One request. -/

/-- Where there is no regular file, what has a modification time is a directory. -/
theorem World.stat_of_noFile {w : World} {place : Path} (noFile : w.isFile place ≠ .ok true)
    {m : Int} (time : w.modified place = .ok m) :
    w.files.stat w.cwd place = .ok (.directory m) := by
  obtain ⟨node, hs, ht⟩ := FileSystem.stat_of_modified time
  cases node with
  | link target => cases ht
  | directory time' => cases ht; exact hs
  | file content time' =>
    refine absurd ?_ noFile
    unfold World.isFile FileSystem.isFile
    rw [hs]

/-- A directory is loaded as a file without assignments. -/
theorem EnvFile.load_of_directory {w : World} {place : Path} {m : Int}
    (h : w.files.stat w.cwd place = .ok (.directory m)) : load w place = .ok .empty := by
  unfold load World.isFile FileSystem.isFile
  rw [h]

namespace Cache

variable {c : Cache} {w : World} {place : Path} {values : Mapping Value}

/-- **WHERE THERE IS NO FILE** and no entry, a request that answers keeps nothing if nothing
is there, and what it loads of a directory otherwise. -/
theorem getAt_of_noFile (unheld : c.loaded.get? place = none)
    (noFile : w.isFile place ≠ .ok true) (answered : (c.getAt w place).answer = .ok values) :
    (w.modified place = .error .notFound ∧ c.getAt w place = c.unchanged (.ok .empty)) ∨
      ∃ m, w.files.stat w.cwd place = .ok (.directory m) ∧
        c.getAt w place =
          ⟨.ok .empty, { c with loaded := c.loaded.insert place ⟨place, m, .empty⟩ },
            [loadEntry c.policy false place .empty], some place⟩ := by
  have hs := served_getAt c w place
  generalize c.getAt w place = f at hs answered ⊢
  cases hs with
  | nothing absent _ => exact .inl ⟨absent, rfl⟩
  | failed fault other open_ => cases answered
  -- these three have an entry
  | held entry stands => rw [unheld] at entry; cases entry
  | gone absent dated entry stands => rw [unheld] at entry; cases entry
  | lost absent entry fails => rw [unheld] at entry; cases entry
  | @reloaded m time newer =>
    have hdir : w.files.stat w.cwd place = .ok (.directory m) := World.stat_of_noFile noFile time
    refine .inr ⟨m, hdir, ?_⟩
    unfold reload
    rw [EnvFile.load_of_directory hdir, unheld]
    rfl

end Cache

/-! ## §2. Runs. -/

namespace Run

variable {r : Run} {p q place : Path} {l : Cache.Loaded} {i j : Nat} {time : Int}
  {content : Mapping Value}

/-- A moment at which a place is asked for and what is there can be loaded. -/
def FindsAt (r : Run) (place : Path) (k : Nat) : Prop :=
  r.AsksAt place k ∧ ∃ m values, (r.world k).modified place = .ok m ∧
    EnvFile.load (r.world k) place = .ok values

/-- A path of a place that is asked for at a later moment, and the first such request to find
something: a file of this time and content. -/
structure FindsNext (r : Run) (place : Path) (i j : Nat) (q : Path) (time : Int)
    (content : Mapping Value) : Prop where
  later : i < j
  first : ∀ k, i < k → k < j → ¬ r.FindsAt place k
  asked : (r.world j).physical q = .ok place
  modified : (r.world j).modified place = .ok time
  readable : EnvFile.load (r.world j) place = .ok content

/-- As long as no request finds anything, an entry was there all the time. -/
theorem entry_of_first (hij : i < j) (first : ∀ k, i < k → k < j → ¬ r.FindsAt place k)
    (entry : (r.moment j).cache.loaded.get? place = some l) :
    (r.moment (i + 1)).cache.loaded.get? place = some l := by
  rcases entry_since (show i + 1 ≤ j by omega) entry with old | ⟨k, x, hik, hkj, hx, loads⟩
  · exact old
  · obtain ⟨p, rfl, hp⟩ := loads.asked
    have hasks : r.AsksAt place k := ⟨.get p, hx, hp⟩
    exact absurd ⟨hasks, l.modified, l.values, loads.modified, loads.values⟩
      (first k (by omega) hkj)

/-- A file for whose place there was no entry is read. -/
theorem FindsNext.answer_of_unheld (next : r.FindsNext place i j q time content)
    (unheld : (r.moment (i + 1)).cache.loaded.get? place = none) :
    ((r.moment j).cache.get (r.world j) q).answer = .ok content := by
  have outdated : (r.moment j).cache.Outdated place time := by
    intro l entry
    have old := entry_of_first next.later next.first entry
    rw [unheld] at old
    cases old
  rw [Cache.get, next.asked, ← next.readable]
  exact Cache.answer_of_outdated next.modified outdated

/-- A file is read when the entry of its place was removed before. -/
theorem FindsNext.answer_of_removed (next : r.FindsNext place i j q time content) {k : Nat}
    (hik : i < k) (hkj : k < j) (removed : r.RemovesAt place k) :
    ((r.moment j).cache.get (r.world j) q).answer = .ok content := by
  have since : r.FindsNext place k j q time content :=
    ⟨hkj, fun n hn hnj => next.first n (by omega) hnj, next.asked, next.modified, next.readable⟩
  exact since.answer_of_unheld removed.2

/-- A file does not show as long as an entry stands against it. -/
theorem FindsNext.answer_of_kept (next : r.FindsNext place i j q time content)
    (entry : (r.moment (i + 1)).cache.loaded.get? place = some l)
    (kept : ∀ k, i < k → k < j → ¬ r.RemovesAt place k) :
    ((r.moment j).cache.get (r.world j) q).answer =
      .ok (if r.policy = .once ∨ time ≤ l.modified then l.values else content) := by
  have hlater := next.later
  obtain ⟨l', entry', -⟩ := exists_later_entry (show i + 1 ≤ j by omega) entry
    fun k hik hkj => kept k (by omega) hkj
  -- nothing was loaded since, so this is the entry of then
  have hsame := entry_of_first next.later next.first entry'
  rw [entry] at hsame
  cases hsame
  have hpolicy := policy_moment r j
  rw [Cache.get, next.asked]
  show ((r.moment j).cache.getAt (r.world j) place).answer = _
  split
  · rename_i stands
    apply Cache.answer_of_standing next.modified entry'
    rintro ⟨dated, older⟩
    rw [hpolicy] at dated
    rcases stands with once | hle
    · rw [dated] at once
      cases once
    · omega
  · rename_i older
    rw [← next.readable]
    apply Cache.answer_of_outdated next.modified
    intro l' hl'
    rw [entry'] at hl'
    cases hl'
    rw [hpolicy]
    constructor
    · cases hp : r.policy with
      | mtime => rfl
      | once => exact absurd (.inl hp) older
    · by_contra hlt
      exact older (.inr (by omega))

/-- **ABSENCE IS NOT KEPT, BUT A DIRECTORY IS.**  A request for a place without a regular file
and without an entry answers with the empty mapping, if it answers.  Where nothing is, it
leaves the whole session as it was, and the next request to find something answers with the
file it finds.  Where a directory is, an entry is made and logged; a file that comes in its
place is the answer when the entry was removed before, and else when entries are dated and the
file is newer than the directory. -/
theorem get_where_no_file {values : Mapping Value} (asked : r.steps[i]? = some (.get p))
    (hplace : (r.world i).physical p = .ok place)
    (unheld : (r.moment i).cache.loaded.get? place = none)
    (noFile : (r.world i).isFile place ≠ .ok true)
    (answered : ((r.moment i).cache.get (r.world i) p).answer = .ok values) :
    values = .empty ∧
    (((r.world i).modified place = .error .notFound ∧ r.moment (i + 1) = r.moment i ∧
        ∀ j q time content, r.FindsNext place i j q time content →
          ((r.moment j).cache.get (r.world j) q).answer = .ok content) ∨
      ∃ m, (r.world i).files.stat (r.world i).cwd place = .ok (.directory m) ∧
        (r.moment (i + 1)).cache.loaded =
          (r.moment i).cache.loaded.insert place ⟨place, m, .empty⟩ ∧
        (r.moment (i + 1)).log =
          (r.moment i).log ++ [Cache.loadEntry r.policy false place .empty] ∧
        ∀ j q time content, r.FindsNext place i j q time content →
          ((∃ k, i < k ∧ k < j ∧ r.RemovesAt place k) →
            ((r.moment j).cache.get (r.world j) q).answer = .ok content) ∧
          ((∀ k, i < k → k < j → ¬ r.RemovesAt place k) →
            ((r.moment j).cache.get (r.world j) q).answer =
              .ok (if r.policy = .once ∨ time ≤ m then .empty else content))) := by
  have hget : (r.moment i).cache.get (r.world i) p =
      (r.moment i).cache.getAt (r.world i) place := by rw [Cache.get, hplace]
  have hnext : r.moment (i + 1) = ⟨r.world i, ((r.moment i).cache.getAt (r.world i) place).cache,
      (r.moment i).log ++ ((r.moment i).cache.getAt (r.world i) place).log⟩ := by
    rw [moment_succ, asked, ← hget]
    rfl
  rw [hget] at answered
  rcases Cache.getAt_of_noFile unheld noFile answered with ⟨absent, h⟩ | ⟨m, hdir, h⟩
  · rw [h] at answered hnext
    cases answered
    have hsame : r.moment (i + 1) = r.moment i := by
      rw [hnext]
      show (⟨r.world i, (r.moment i).cache, (r.moment i).log ++ []⟩ : Session) = r.moment i
      rw [List.append_nil]
      rfl
    refine ⟨rfl, .inl ⟨absent, hsame, fun j q time content next => ?_⟩⟩
    apply next.answer_of_unheld
    rw [hsame]
    exact unheld
  · rw [h] at answered hnext
    cases answered
    have hloaded : (r.moment (i + 1)).cache.loaded =
        (r.moment i).cache.loaded.insert place ⟨place, m, .empty⟩ := by rw [hnext]
    have entry : (r.moment (i + 1)).cache.loaded.get? place = some ⟨place, m, .empty⟩ := by
      rw [hloaded, Table.get?_insert, if_pos rfl]
    refine ⟨rfl, .inr ⟨m, hdir, hloaded, ?_, fun j q time content next => ⟨?_, ?_⟩⟩⟩
    · rw [hnext, policy_moment]
    · rintro ⟨k, hik, hkj, removed⟩
      exact next.answer_of_removed hik hkj removed
    · intro kept
      exact next.answer_of_kept entry kept

/-- A directory that is asked for, and then gives way to a file. -/
def displacedDirectory : Run where
  start := ⟨⟨Table.ofList [(onePlace, .directory 100)]⟩, ⟨[], 0⟩, .empty, .none, 0⟩
  policy := .once
  steps := [.get onePath, .change (.removeTree onePath), .change (.write onePath newBytes 200)]

/-- The file does not show, although it can be read and nothing else was asked for. -/
theorem get_where_no_file_displacedDirectory :
    ((displacedDirectory.moment 3).cache.get (displacedDirectory.world 3) onePath).answer =
        .ok .empty ∧
      EnvFile.load (displacedDirectory.world 3) onePath = .ok (Table.ofList [("A", .int 2)]) := by
  have hload : EnvFile.load (displacedDirectory.world 3) onePath =
      .ok (Table.ofList [("A", .int 2)]) := by decide +kernel
  refine ⟨?_, hload⟩
  have hplace : (displacedDirectory.world 0).physical onePath = .ok onePath := by decide +kernel
  have noFile : (displacedDirectory.world 0).isFile onePath ≠ .ok true := by decide +kernel
  have answered : ((displacedDirectory.moment 0).cache.get (displacedDirectory.world 0)
      onePath).answer = .ok .empty := by decide +kernel
  obtain ⟨-, ⟨absent, -⟩ | ⟨m, -, -, -, later⟩⟩ :=
    get_where_no_file (r := displacedDirectory) rfl hplace rfl noFile answered
  · have htime : (displacedDirectory.world 0).modified onePath = .ok 100 := by decide +kernel
    rw [htime] at absent
    cases absent
  · -- between the two requests nothing is asked for, and nothing is dropped
    have next : displacedDirectory.FindsNext onePath 0 3 onePath 200
        (Table.ofList [("A", .int 2)]) := by
      refine ⟨by omega, fun k h0 h3 => ?_, by decide +kernel, by decide +kernel, hload⟩
      rintro ⟨⟨x, hx, hasks⟩, -⟩
      obtain rfl | rfl : k = 1 ∨ k = 2 := by omega
      · cases hx; exact hasks
      · cases hx; exact hasks
    have kept := (later 3 onePath 200 _ next).2 fun k h0 h3 removed => by
      obtain rfl | rfl : k = 1 ∨ k = 2 := by omega
      · exact absurd removed.2 (by decide +kernel)
      · exact absurd removed.2 (by decide +kernel)
    exact kept

end Run

end Cascade
