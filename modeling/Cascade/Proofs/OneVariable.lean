/-
  Cascade.Proofs.OneVariable
  ────────────────────────────────
  **WORLDS THAT DIFFER IN ONE VARIABLE.**

  Two worlds agree but for one name when every other variable, the files and
  the rest are the same.  Setting the variable of a setting, or removing it,
  makes such a world: the name is ASCII, so no other spelling stands for it.

  What is built from given settings reads none of the variables of the
  settings themselves, so the worlds build the same.

      agreesBut_of_setVariable, agreesBut_of_eraseVariable
                     — where such worlds come from
      erase_asFlags  — the other variables are the same flags
      check          — and pass or fail the same checks
      build          — the same settings are built alike
-/
import Cascade.Proofs.SettingFlags

namespace Cascade

open Cascade.Text
open CommandLine

/-! ## §1. Names with one spelling. -/

/-- A name of ASCII bytes has no halves. -/
theorem Text.Utf8.encodeFrom_of_ascii {byte? : Fin 0x800 → Option UInt8} {t : Text}
    {position : Nat} {bytes : Bytes} (h : encodeFrom strayByte? position t = .ok bytes)
    (hb : ∀ byte ∈ bytes, byte.toNat < 0x80) : encodeFrom byte? position t = .ok bytes := by
  induction t generalizing position bytes with
  | nil => exact h
  | cons c t ih =>
    cases c with
    | char c =>
      rw [encodeFrom] at h ⊢
      cases hr : encodeFrom strayByte? (position + 1) t with
      | error fault => rw [hr] at h; cases h
      | ok rest =>
        rw [hr] at h
        cases h
        rw [ih hr fun byte hm => hb byte (List.mem_append_right _ hm)]
        rfl
    | half n =>
      rw [encodeFrom] at h
      cases hs : strayByte? n with
      | none => rw [hs] at h; cases h
      | some byte =>
        -- the byte of a half lies beyond ASCII
        have hbyte : 0x80 ≤ byte.toNat := by
          unfold strayByte? at hs
          split at hs
          · rename_i hn
            obtain ⟨hlow, hhigh⟩ := hn
            rw [← Option.some.inj hs, UInt8.toNat_ofNat_of_lt' (show n.val - 0x400 < 256 by omega)]
            omega
          · cases hs
        have hmem : byte ∈ bytes := by
          simp only [hs] at h
          cases hr : encodeFrom strayByte? (position + 1) t with
          | error fault => rw [hr] at h; cases h
          | ok rest => rw [hr] at h; cases h; exact List.mem_cons_self
        have := hb byte hmem
        omega

/-- A name of ASCII bytes has one spelling. -/
theorem Text.Utf8.eq_of_encodeName_ascii {t t' : Text} {bytes : Bytes}
    (h : encodeName t = .ok bytes) (h' : encodeName t' = .ok bytes)
    (hb : ∀ byte ∈ bytes, byte.toNat < 0x80) : t = t' := by
  have ht : decode bytes = .ok t := decode_of_encode (encodeFrom_of_ascii h hb)
  have ht' : decode bytes = .ok t' := decode_of_encode (encodeFrom_of_ascii h' hb)
  exact Except.ok.inj (ht.symm.trans ht')

namespace Environment

variable {e e' : Environment} {name other value : Text}

/-- The bytes of another name than an ASCII one are other bytes. -/
theorem bytesOf_ne {bytes bytes' : Bytes} (h : bytesOf name = .ok bytes)
    (hb : ∀ byte ∈ bytes, byte.toNat < 0x80) (hne : other ≠ name)
    (h' : bytesOf other = .ok bytes') : bytes ≠ bytes' := by
  have encoded {t : Text} {bytes : Bytes} (h : bytesOf t = .ok bytes) :
      Utf8.encodeName t = .ok bytes := by
    unfold bytesOf at h
    cases hr : Utf8.encodeName t with
    | error fault => rw [hr] at h; cases h
    | ok _ => rw [hr] at h; exact congrArg Except.ok (Except.ok.inj h)
  rintro rfl
  exact hne (Utf8.eq_of_encodeName_ascii (encoded h') (encoded h) hb)

/-- A variable with an ASCII name is set without a change of the others. -/
theorem get?_set_of_ne {bytes : Bytes} (hname : bytesOf name = .ok bytes)
    (hb : ∀ byte ∈ bytes, byte.toNat < 0x80) (hne : other ≠ name)
    (h : e.set name value = .ok e') : e'.get? other = e.get? other := by
  unfold set at h
  rw [hname] at h
  cases hv : bytesOf value with
  | error fault => rw [hv] at h; cases h
  | ok bytes' =>
    simp only [hv, bind, Except.bind] at h
    split_ifs at h
    cases h
    unfold get?
    cases ho : bytesOf other with
    | error fault => rfl
    | ok o =>
      simp only [Table.get?_insert, if_neg (bytesOf_ne hname hb hne ho)]

/-- A variable with an ASCII name goes away without a change of the others. -/
theorem get?_erase_of_ne {bytes : Bytes} (hname : bytesOf name = .ok bytes)
    (hb : ∀ byte ∈ bytes, byte.toNat < 0x80) (hne : other ≠ name)
    (h : e.erase name = .ok e') : e'.get? other = e.get? other := by
  unfold erase at h
  rw [hname] at h
  cases h
  unfold get?
  cases ho : bytesOf other with
  | error fault => rfl
  | ok o =>
    simp only [Table.get?_erase, if_neg (bytesOf_ne hname hb hne ho)]

end Environment

/-! ## §2. Agreement but for one name. -/

/-- The same worlds, but for the value of one variable. -/
structure World.AgreesBut (w : World) (name : Text) (w' : World) : Prop where
  files : w.files = w'.files
  cwd : w.cwd = w'.cwd
  users : w.users = w'.users
  now : w.now = w'.now
  get? : ∀ other, other ≠ name → w.environ.get? other = w'.environ.get? other

namespace World

variable {w w' : World} {f : Setting}

/-- What is set is answered, as it is read back. -/
theorem get?_of_setVariable {name value : Text} (h : w.setVariable name value = .ok w') :
    w'.environ.get? name = some (Utf8.settledName value) := by
  unfold setVariable at h
  cases he : w.environ.set name value with
  | error fault => rw [he] at h; cases h
  | ok environ =>
    rw [he] at h
    cases h
    exact Environment.get?_of_set he

/-- A world with the variable of a setting set differs in this variable. -/
theorem agreesBut_of_setVariable {value : Text} (h : w.setVariable f.varName value = .ok w') :
    w.AgreesBut f.varName w' := by
  obtain ⟨bytes, hname, hb⟩ := f.exists_bytesOf_varName
  unfold setVariable at h
  cases he : w.environ.set f.varName value with
  | error fault => rw [he] at h; cases h
  | ok environ =>
    rw [he] at h
    cases h
    exact ⟨rfl, rfl, rfl, rfl, fun other hne => (Environment.get?_set_of_ne hname hb hne he).symm⟩

/-- A world without the variable of a setting differs in this variable. -/
theorem agreesBut_of_eraseVariable (h : w.eraseVariable f.varName = .ok w') :
    w.AgreesBut f.varName w' := by
  obtain ⟨bytes, hname, hb⟩ := f.exists_bytesOf_varName
  unfold eraseVariable at h
  cases he : w.environ.erase f.varName with
  | error fault => rw [he] at h; cases h
  | ok environ =>
    rw [he] at h
    cases h
    exact ⟨rfl, rfl, rfl, rfl, fun other hne => (Environment.get?_erase_of_ne hname hb hne he).symm⟩

end World

/-! ## §3. What building reads. -/

theorem Secrets.get?_congr {s : Secrets} {process process' : Environment} {key : Text}
    (h : process.get? key = process'.get? key) : s.get? process key = s.get? process' key := by
  unfold Secrets.get?
  rw [h]

namespace World.AgreesBut

variable {w w' : World} {f g : Setting} {s : Secrets}

/-- Another variable is the same, also where secrets go before it. -/
theorem secret (h : w.AgreesBut f.varName w') {key : Text} (hk : key ≠ f.varName) :
    s.get? w.environ key = s.get? w'.environ key :=
  Secrets.get?_congr (h.get? key hk)

theorem secretD (h : w.AgreesBut f.varName w') (s : Secrets) (key : Text) (hk : key ≠ f.varName)
    (fallback : Text) : s.getD w.environ key fallback = s.getD w'.environ key fallback := by
  unfold Secrets.getD
  rw [h.secret hk]

/-- The home directory is the same. -/
theorem expandHome (h : w.AgreesBut f.varName w') (p : Path) :
    w.expandHome p = w'.expandHome p := by
  unfold World.expandHome World.home
  rw [h.get? "HOME" (by cases f <;> decide), h.users]

/-- Flags mean the same. -/
theorem override (h : w.AgreesBut f.varName w') : Arguments.override w = Arguments.override w' := by
  funext S e
  unfold Arguments.override
  rw [funext h.expandHome]

theorem settle (h : w.AgreesBut f.varName w') : Arguments.settle w = Arguments.settle w' := by
  unfold Arguments.settle
  rw [h.override]

theorem read (h : w.AgreesBut f.varName w') (g : Setting) : g.read w = g.read w' := by
  unfold Setting.read
  rw [h.override]

/-- The other checks are the same. -/
theorem check (h : w.AgreesBut f.varName w') (s : Secrets) (hg : g ≠ f) :
    g.check w s = g.check w' s := by
  unfold Setting.check
  rw [h.secret (Setting.varName_inj.not.2 hg), h.read g]

/-- The variables are the same flags, but for that one. -/
theorem erase_asFlags (h : w.AgreesBut f.varName w') (s : Secrets) :
    Entries.erase f.flag (Setting.asFlags w s) = Entries.erase f.flag (Setting.asFlags w' s) := by
  unfold Entries.erase Setting.asFlags
  rw [List.filter_filterMap, List.filter_filterMap]
  refine List.filterMap_congr fun g _ => ?_
  by_cases hg : g = f
  · -- both are left out
    subst hg
    have hout (o : Option Text) :
        (o.map fun t => (g.flag, t)).filter (fun e => decide (e.1 ≠ g.flag)) = none := by
      cases o <;> simp
    rw [hout, hout]
  · rw [h.secret (Setting.varName_inj.not.2 hg)]

/-- A logger of the same kind has the same settings. -/
theorem makeLogger (h : w.AgreesBut f.varName w') (secrets : Option Secrets) (kind : Text) :
    Logger.make w.environ secrets kind = Logger.make w'.environ secrets kind := by
  unfold Logger.make Logger.prettyFrom Logger.prettyAt Logger.lokiFrom
  have hlevel := h.get? "LOG_LEVEL" (by cases f <;> decide)
  have hsecret (s : Secrets) (fallback : Text) :
      ∀ key ∈ (["LOG_LEVEL", "LOKI_URL", "LOKI_SERVICE", "LOKI_ENVIRONMENT", "LOKI_LEVEL"] :
          List Text),
        s.getD w.environ key fallback = s.getD w'.environ key fallback :=
    fun key hk => h.secretD s key (by revert key; cases f <;> decide) fallback
  simp only [List.forall_mem_cons] at hsecret
  simp only [hlevel, hsecret]

/-- A store of the same kind is at the same place. -/
theorem makePreferences (h : w.AgreesBut f.varName w') (s : Secrets) (kind : Text) :
    Preferences.make w s kind = Preferences.make w' s kind := by
  have hi (i : Implementation) : i.makePreferences w s = i.makePreferences w' s := by
    unfold Implementation.makePreferences Preferences.documentAt
    rw [h.secretD s "ENVCHAIN_PREFS_PATH" (by cases f <;> decide), funext h.expandHome]
  unfold Preferences.make
  rw [funext hi]

/-- The same settings make the same resolver. -/
theorem build (h : w.AgreesBut f.varName w') (s : Secrets) (S : Settings) :
    Resolver.build w s S none none = Resolver.build w' s S none none := by
  have hc (factory : LoggerFactory) :
      factory.create w.environ none = factory.create w'.environ none := by
    unfold LoggerFactory.create
    simp only [h.makeLogger]
  unfold Resolver.build
  simp only [h.makePreferences, hc]

end World.AgreesBut

end Cascade
