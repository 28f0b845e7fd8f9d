/-
  Cascade.Proofs.PhysicalPlaces
  ────────────────────────────────
  **PLACES THAT STAND FOR THEMSELVES.**

  Resolving a path goes on along its parts and stops to replace links.  A
  path that only directories lead to, name by name, has none to replace, so
  it is resolved to itself (`physical_of_passes`).

  The parts on the way have to be looked at for that, and they can be, since
  the system takes every text made of the characters of one it takes
  (`IsTaken.of_subset`).
-/
import Cascade.Proofs.Walking

namespace Cascade

open Cascade.Text
open Cascade.Files

/-! ## §1. Texts the system takes. -/

/-- Bytes are made character by character, wherever these stand. -/
theorem Text.Utf8.encodeFrom_clean_iff (byte? : Fin 0x800 → Option UInt8) (position : Nat)
    (t : Text) :
    (∃ bytes, encodeFrom byte? position t = .ok bytes ∧ (0 : UInt8) ∉ bytes) ↔
      ∀ c ∈ t, ∃ bytes, encodeFrom byte? 0 [c] = .ok bytes ∧ (0 : UInt8) ∉ bytes := by
  induction t generalizing position with
  | nil => simp [encodeFrom]
  | cons c t ih =>
    rw [List.forall_mem_cons, ← ih (position + 1)]
    cases c with
    | char c =>
      cases h : encodeFrom byte? (position + 1) t with
      | error fault => simp [encodeFrom, h, Except.map]
      | ok rest => simp [encodeFrom, h, Except.map, not_or]
    | half n =>
      cases hb : byte? n with
      | none => simp [encodeFrom, hb]
      | some byte =>
        cases h : encodeFrom byte? (position + 1) t with
        | error fault => simp [encodeFrom, hb, h, Except.map]
        | ok rest => simp [encodeFrom, hb, h, Except.map, not_or]

/-- A text is taken just when its characters are. -/
theorem Files.isTaken_iff (t : Text) :
    IsTaken t ↔ ∀ c ∈ t, ∃ bytes, Utf8.encodeFrom Utf8.strayByte? 0 [c] = .ok bytes ∧
      (0 : UInt8) ∉ bytes := by
  rw [← Utf8.encodeFrom_clean_iff Utf8.strayByte? 0 t, IsTaken]
  unfold systemBytes Utf8.encodeName
  cases Utf8.encodeFrom Utf8.strayByte? 0 t with
  | error fault => simp
  | ok bytes => by_cases h0 : (0 : UInt8) ∈ bytes <;> simp [h0]

/-- Fewer characters are taken, in any order. -/
theorem Files.IsTaken.of_subset {t u : Text} (h : IsTaken t) (hs : ∀ c ∈ u, c ∈ t) :
    IsTaken u := by
  rw [isTaken_iff] at h ⊢
  intro c hc
  exact h c (hs c hc)

/-- The characters of a piece are among those of the joined ones. -/
theorem Text.mem_join_of_mem {separator piece : Text} {pieces : List Text} {c : CodePoint}
    (hp : piece ∈ pieces) (hc : c ∈ piece) : c ∈ join separator pieces := by
  induction pieces with
  | nil => exact absurd hp List.not_mem_nil
  | cons first pieces ih =>
    cases pieces with
    | nil =>
      rw [List.mem_singleton.1 hp] at hc
      exact hc
    | cons next pieces =>
      show c ∈ first ++ separator ++ join separator (next :: pieces)
      rw [List.mem_append, List.mem_append]
      rcases List.mem_cons.1 hp with rfl | hp
      · exact .inl (.inl hc)
      · exact .inr (ih hp)

/-- A path from the root with some parts of a path is taken when that one is. -/
theorem Path.isTaken_of_parts {p : Path} (taken : IsTaken p.text) (ha : p.anchor ≠ .relative)
    {parts : List Text} (hs : ∀ part ∈ parts, part ∈ p.parts) :
    IsTaken (Path.mk .root parts).text := by
  have htext : p.text = p.anchor.text ++ join "/" p.parts := by
    rw [Path.text, if_neg fun h => ha h.1]
  have hslash : CodePoint.char '/' ∈ p.text := by
    rw [htext, List.mem_append]
    cases h : p.anchor with
    | relative => exact absurd h ha
    | root => exact .inl (by decide)
    | doubleRoot => exact .inl (by decide)
  refine taken.of_subset fun c hc => ?_
  rcases List.mem_append.1 hc with hc | hc
  · rw [List.mem_singleton.1 hc]
    exact hslash
  · rcases mem_of_mem_join hc with hc | ⟨part, hp, hc⟩
    · rw [List.mem_singleton.1 hc]
      exact hslash
    · rw [htext, List.mem_append]
      exact .inr (mem_join_of_mem (hs part hp) hc)

/-! ## §2. Taking the parts of a path. -/

/-- A part that is a name as it is read back is one as it is spelled. -/
theorem Path.isName_of_settledName {part : Text}
    (h : Path.isName (Utf8.settledName part) = true) : Path.isName part = true := by
  cases hn : Path.isName part with
  | true => rfl
  | false =>
    have hstay : (part = [] ∨ part = ".") ∨ part = Path.up := by
      simpa [Path.isName, Path.isStay, Decidable.or_iff_not_imp_left] using hn
    -- these three are read back as they are spelled
    rcases hstay with (rfl | rfl) | rfl <;> exact absurd h (by decide)

namespace FileSystem

variable {fs : FileSystem} {cwd : Position}

/-- Names pass through directories when the first ones do and then the others. -/
theorem passes_append (place : Location) (first rest : List Text) :
    fs.passes place (first ++ rest) =
      (fs.passes place first && fs.passes (place ++ first) rest) := by
  induction first generalizing place with
  | nil => simp [passes]
  | cons name first ih =>
    rw [List.cons_append, passes, passes, ih, Bool.and_assoc, Bool.and_assoc,
      List.append_assoc, Bool.and_assoc]
    rfl

/-- A place that directories alone lead to, and that is no link, is none for resolving. -/
theorem linkAt?_of_passes {p : Path} (taken : IsTaken p.text) (ha : p.anchor ≠ .relative)
    (hp : fs.passes [] p.place = true)
    (hl : ∀ target, fs.node? p.place ≠ some (.link target)) :
    fs.linkAt? cwd p = .ok none := by
  unfold linkAt?
  rcases walk_of_taken cwd false taken ha hp hl with h | h
  · rw [h]
    cases hn : fs.node? p.place with
    | none => rfl
    | some node =>
      cases node with
      | link target => exact absurd hn (hl target)
      | file content time => rfl
      | directory time => rfl
  · rw [h]
    rfl

/-- Parts that lead through directories are taken as they are. -/
theorem chaseParts_of_passes {p : Path} (taken : IsTaken p.text) (ha : p.anchor ≠ .relative)
    (hp : fs.passes [] p.place = true)
    (hl : ∀ target, fs.node? p.place ≠ some (.link target))
    (enter : Path → Text → Links → Except Problem (Path × Bool × Links)) (links : Links)
    {first rest : List Text} (hparts : p.parts = first ++ rest) :
    fs.chaseParts cwd enter ⟨.root, first⟩ rest links = .ok (⟨.root, p.parts⟩, true, links) := by
  -- on the parts that are left; those taken are directories, and the last one is no link
  induction rest generalizing first with
  | nil => rw [chaseParts, hparts, List.append_nil]
  | cons part rest ih =>
    have hsplit : p.parts = (first ++ [part]) ++ rest := by
      rw [hparts, List.append_assoc, List.singleton_append]
    have hplace : p.place = (first ++ [part]).map Utf8.settledName ++ rest.map Utf8.settledName := by
      rw [Path.place, hsplit, List.map_append]
    have hpass : fs.passes [] ((first ++ [part]).map Utf8.settledName) = true ∧
        fs.passes ((first ++ [part]).map Utf8.settledName) (rest.map Utf8.settledName) = true := by
      rw [hplace, passes_append, Bool.and_eq_true, List.nil_append] at hp
      exact hp
    have hname : Path.isName part = true := by
      have h := hpass.1
      rw [List.map_append, passes_append, Bool.and_eq_true] at h
      simp only [List.map_cons, List.map_nil, passes, Bool.and_eq_true] at h
      exact Path.isName_of_settledName h.2.1.2
    have hlink : fs.linkAt? cwd ⟨.root, first ++ [part]⟩ = .ok none := by
      have hroot : (Path.mk .root (first ++ [part])).anchor ≠ .relative := by
        intro h
        cases h
      refine linkAt?_of_passes (Path.isTaken_of_parts taken ha fun part' h => ?_) hroot hpass.1
        fun target hn => ?_
      · rw [hsplit]
        exact List.mem_append_left rest h
      · cases rest with
        | nil =>
          rw [List.map_nil, List.append_nil] at hplace
          rw [hplace] at hl
          exact hl target hn
        | cons next rest =>
          have hd := hpass.2
          rw [List.map_cons, passes, Bool.and_eq_true, Bool.and_eq_true, isDirectoryAt] at hd
          change fs.node? ((first ++ [part]).map Utf8.settledName) = _ at hn
          rw [hn] at hd
          exact absurd hd.1.1 Bool.false_ne_true
    rw [Path.isName, Bool.and_eq_true, Bool.not_eq_true', bne_iff_ne] at hname
    simp only [chaseParts, hname.1, hname.2, Bool.false_eq_true, if_false, hlink]
    exact ih hsplit

/-- Parts without `..` are gone into one after another. -/
theorem foldl_stepInto {parts : List Text} (h : ∀ part ∈ parts, part ≠ Path.up) (l : Location) :
    parts.foldl stepInto l = l ++ parts := by
  induction parts generalizing l with
  | nil => rw [List.foldl_nil, List.append_nil]
  | cons part parts ih =>
    rw [List.foldl_cons, stepInto, if_neg (h part List.mem_cons_self),
      ih (fun part' hp => h part' (List.mem_cons_of_mem part hp)), List.append_assoc]
    rfl

/-- The names that lead through directories are no `..`. -/
theorem ne_up_of_passes {place : Location} {parts : List Text}
    (h : fs.passes place (parts.map Utf8.settledName) = true) :
    ∀ part ∈ parts, part ≠ Path.up := by
  intro part hp
  obtain ⟨before, after, rfl⟩ := List.append_of_mem hp
  rw [List.map_append, passes_append, Bool.and_eq_true, List.map_cons, passes] at h
  simp only [Bool.and_eq_true] at h
  have hname := Path.isName_of_settledName h.2.1.2
  rw [Path.isName, Bool.and_eq_true, bne_iff_ne] at hname
  exact hname.2

/-- **A PLACE WITHOUT DETOURS STANDS FOR ITSELF**, taken from the root. -/
theorem physical_of_passes {p : Path} (taken : IsTaken p.text) (ha : p.anchor ≠ .relative)
    (hp : fs.passes [] p.place = true)
    (hl : ∀ target, fs.node? p.place ≠ some (.link target)) :
    fs.physical cwd p = .ok ⟨.root, p.parts⟩ := by
  have hchase : fs.chasePath cwd p = .ok (⟨.root, p.parts⟩, true, []) := by
    rw [chasePath, if_neg ha]
    exact chaseParts_of_passes taken ha hp hl _ [] rfl
  have habsolute : absolute? cwd ⟨.root, p.parts⟩ = some ⟨.root, p.parts⟩ := by
    show some (Path.mk .root (p.parts.foldl stepInto [])) = _
    rw [foldl_stepInto (ne_up_of_passes hp), List.nil_append]
  have htaken : IsTaken (Path.mk .root p.parts).text :=
    Path.isTaken_of_parts taken ha fun part h => h
  unfold physical
  rw [hchase]
  simp only [habsolute]
  -- what is left is to look there, which takes no link
  cases hs : fs.stat cwd ⟨.root, p.parts⟩ with
  | ok node => rfl
  | error problem =>
    unfold stat at hs
    have hroot : (Path.mk .root p.parts).anchor ≠ .relative := by
      intro h
      cases h
    rcases walk_of_taken cwd true htaken hroot hp hl with h | h
    · rw [h] at hs
      cases hn : fs.node? (Path.mk .root p.parts).place with
      | some node => rw [hn] at hs; cases hs
      | none => rw [hn] at hs; cases hs; rfl
    · rw [h] at hs
      cases hs
      rfl

end FileSystem

namespace World

variable {w : World} {p : Path}

/-- A path that can be handed to the system is taken. -/
theorem isTaken_of_usable
    (usable : ∀ problem, w.files.stat w.cwd p = .error problem → problem.isUnusable = false) :
    IsTaken p.text := by
  cases hb : systemBytes p.text with
  | ok bytes => exact ⟨bytes, hb⟩
  | error problem =>
    have hstat : w.files.stat w.cwd p = .error problem := by
      rw [FileSystem.stat, FileSystem.walk, hb]
      rfl
    have hu := FileSystem.isUnusable_of_systemBytes hb
    rw [usable problem hstat] at hu
    cases hu

/-- A place without detours that can be handed to the system stands for itself. -/
theorem IsDirect.physical (direct : w.IsDirect p)
    (usable : ∀ problem, w.files.stat w.cwd p = .error problem → problem.isUnusable = false) :
    w.physical p = .ok ⟨.root, p.parts⟩ := by
  rw [World.physical, FileSystem.physical_of_passes (isTaken_of_usable usable) direct.absolute
    direct.passes direct.unlinked]
  rfl

end World

end Cascade
