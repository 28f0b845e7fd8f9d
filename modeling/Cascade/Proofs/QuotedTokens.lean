/-
  Cascade.Proofs.QuotedTokens
  ────────────────────────────────
  **QUOTED TEXTS ARE READ TOKEN BY TOKEN.**

  What follows an opening quote is read from left to right into tokens:

      pair     — a backslash and the quote or a backslash after it, which
                 stand for the second of them
      single   — any other character that is not the quote, which stands for
                 itself; so does a backslash that escapes nothing

  up to the first quote that belongs to no token, or to the end.  There is
  one way to do so (`exists_splits`, `Splits.unique`), and the value is what
  the tokens stand for (`Splits.unquote_eq`).  Nothing behind the closing
  quote matters (`Splits.closed_before`), and every text is the value of its
  escaped form (`splits_escaped`).
-/
import Cascade.Proofs.WrittenEnv

namespace Cascade.Dotenv

open Cascade.Text

/-! ## §1. Tokens. -/

/-- What can stand between quotes. -/
inductive Token
  /-- An escaped character. -/
  | pair (c : CodePoint)
  /-- A character by itself. -/
  | single (c : CodePoint)
  deriving DecidableEq, Repr

namespace Token

/-- How a token is written. -/
def text : Token → Text
  | pair c => [.char '\\', c]
  | single c => [c]

/-- The character a token stands for. -/
def meaning : Token → CodePoint
  | pair c => c
  | single c => c

end Token

/-- The characters that a backslash escapes between such quotes. -/
def IsEscapable (quote c : CodePoint) : Prop := c = quote ∨ c = '\\'

instance (quote c : CodePoint) : Decidable (IsEscapable quote c) :=
  inferInstanceAs (Decidable (c = quote ∨ c = '\\'))

/-- A text after an opening quote, cut from left to right into tokens and what is left: the
closing quote with what follows it, or nothing.  A backslash is by itself only where it escapes
nothing. -/
inductive Splits (quote : CodePoint) : Text → List Token → Text → Prop
  | unclosed : Splits quote [] [] []
  | closed (after : Text) : Splits quote (quote :: after) [] (quote :: after)
  | pair {c : CodePoint} {rest left : Text} {tokens : List Token}
      (escapable : IsEscapable quote c) (more : Splits quote rest tokens left) :
      Splits quote (.char '\\' :: c :: rest) (.pair c :: tokens) left
  | single {c : CodePoint} {rest left : Text} {tokens : List Token} (other : c ≠ quote)
      (alone : c = '\\' → ∀ d ∈ rest.head?, ¬ IsEscapable quote d)
      (more : Splits quote rest tokens left) :
      Splits quote (c :: rest) (.single c :: tokens) left

variable {quote : CodePoint} {t left : Text} {tokens : List Token}

/-! ## §2. One way to split. -/

/-- Every text splits. -/
theorem exists_splits (quote : CodePoint) (t : Text) : ∃ tokens left, Splits quote t tokens left := by
  -- the cases of the reader: the end, one character, an escape, the closing quote, any other
  induction t using unquote.induct quote with
  | case1 => exact ⟨[], [], .unclosed⟩
  | case2 => exact ⟨[], _, .closed []⟩
  | case3 c hc => exact ⟨_, _, .single hc (fun _ d hd => nomatch hd) .unclosed⟩
  | case4 c d rest hesc ih =>
    obtain ⟨rfl, escapable⟩ := hesc
    obtain ⟨tokens, left, more⟩ := ih
    exact ⟨_, _, .pair escapable more⟩
  | case5 d rest _ => exact ⟨[], _, .closed (d :: rest)⟩
  | case6 c d rest hesc hc ih =>
    obtain ⟨tokens, left, more⟩ := ih
    refine ⟨_, _, .single hc ?_ more⟩
    intro hb e he escapable
    cases he
    exact hesc ⟨hb, escapable⟩

/-- There is no second way. -/
theorem Splits.unique (hq : quote ≠ '\\') {tokens' : List Token} {left' : Text}
    (h : Splits quote t tokens left) (h' : Splits quote t tokens' left') :
    tokens' = tokens ∧ left' = left := by
  induction h generalizing tokens' left' with
  | unclosed =>
    cases h'
    exact ⟨rfl, rfl⟩
  | closed after =>
    cases h' with
    | closed => exact ⟨rfl, rfl⟩
    | pair _ _ => exact absurd rfl hq
    | single other _ _ => exact absurd rfl other
  | pair escapable _ ih =>
    cases h' with
    | closed => exact absurd rfl hq
    | pair _ more' =>
      obtain ⟨rfl, rfl⟩ := ih more'
      exact ⟨rfl, rfl⟩
    | single _ alone _ => exact absurd escapable (alone rfl _ rfl)
  | single other alone _ ih =>
    cases h' with
    | closed => exact absurd rfl other
    | pair escapable _ => exact absurd escapable (alone rfl _ rfl)
    | single _ _ more' =>
      obtain ⟨rfl, rfl⟩ := ih more'
      exact ⟨rfl, rfl⟩

/-- The tokens and what is left make up the text. -/
theorem Splits.text_eq (h : Splits quote t tokens left) :
    t = tokens.flatMap Token.text ++ left := by
  induction h with
  | unclosed => rfl
  | closed after => rfl
  | @pair c rest left tokens _ _ ih => exact congrArg (.char '\\' :: c :: ·) ih
  | @single c rest left tokens _ _ _ ih => exact congrArg (c :: ·) ih

/-- Nothing is left, or the closing quote with what follows it. -/
theorem Splits.left_cases (h : Splits quote t tokens left) :
    left = [] ∨ ∃ after, left = quote :: after := by
  induction h with
  | unclosed => exact .inl rfl
  | closed after => exact .inr ⟨after, rfl⟩
  | pair _ _ ih => exact ih
  | single _ _ _ ih => exact ih

/-- A character that is neither the quote nor a backslash is always by itself. -/
theorem Splits.single_of_mem (h : Splits quote t tokens left) {c : CodePoint} (hc : c ≠ quote)
    (hb : c ≠ '\\') : ∀ token ∈ tokens, c ∈ token.text → token = .single c := by
  induction h with
  | unclosed =>
    intro token hm
    cases hm
  | closed after =>
    intro token hm
    cases hm
  | pair escapable _ ih =>
    intro token hm hin
    rcases List.mem_cons.1 hm with rfl | hm
    · -- both characters of a pair are the quote or a backslash
      simp only [Token.text, List.mem_cons, List.not_mem_nil, or_false] at hin
      rcases hin with rfl | rfl
      · exact absurd rfl hb
      · exact absurd escapable (not_or.2 ⟨hc, hb⟩)
    · exact ih token hm hin
  | single _ _ _ ih =>
    intro token hm hin
    rcases List.mem_cons.1 hm with rfl | hm
    · rw [List.mem_singleton.1 hin]
    · exact ih token hm hin

/-! ## §3. What is read. -/

/-- **THE VALUE IS WHAT THE TOKENS STAND FOR.** -/
theorem Splits.unquote_eq (hq : quote ≠ '\\') (h : Splits quote t tokens left) :
    unquote quote t = tokens.map Token.meaning := by
  induction h with
  | unclosed => rfl
  | closed after =>
    cases after with
    | nil => rw [unquote, if_pos rfl]; rfl
    | cons d after => rw [unquote, if_neg fun h => hq h.1, if_pos rfl]; rfl
  | @pair c rest left tokens escapable _ ih =>
    rw [unquote, if_pos ⟨rfl, escapable⟩, ih]
    rfl
  | @single c rest left tokens other alone _ ih =>
    cases rest with
    | nil =>
      have hnone : tokens.map Token.meaning = [] := ih.symm
      rw [unquote, if_neg other, List.map_cons, hnone]
      rfl
    | cons d rest =>
      rw [unquote, if_neg fun h => alone h.1 d rfl h.2, if_neg other, ih]
      rfl

/-- A text before a quote goes on alike, whatever follows the quote. -/
theorem head?_append_cons (front : Text) (quote : CodePoint) (after after' : Text) :
    (front ++ quote :: after).head? = (front ++ quote :: after').head? := by
  cases front <;> rfl

/-- Tokens before a closing quote are found before it again, whatever follows it. -/
theorem Splits.closed_before {after : Text} (h : Splits quote t tokens (quote :: after))
    (after' : Text) :
    Splits quote (tokens.flatMap Token.text ++ quote :: after') tokens (quote :: after') := by
  generalize hl : quote :: after = left at h
  induction h with
  | unclosed => cases hl
  | closed _ => exact .closed after'
  | pair escapable _ ih => exact .pair escapable (ih hl)
  | @single c rest left tokens other alone more ih =>
    refine .single other ?_ (ih hl)
    -- the next character is one of the tokens, or the quote itself
    rw [more.text_eq, ← hl, head?_append_cons _ _ after after'] at alone
    exact alone

/-- The token that is written for a character. -/
def tokenOf (quote c : CodePoint) : Token :=
  if IsEscapable quote c then .pair c else .single c

/-- It stands for the character. -/
theorem meaning_tokenOf (quote c : CodePoint) : (tokenOf quote c).meaning = c := by
  unfold tokenOf
  split <;> rfl

/-- An escaped text splits into the tokens of its characters. -/
theorem splits_escaped (quote : CodePoint) (s after : Text) :
    Splits quote (escaped quote s ++ quote :: after) (s.map (tokenOf quote)) (quote :: after) := by
  induction s with
  | nil => exact .closed after
  | cons c s ih =>
    rw [List.map_cons, tokenOf, escaped, List.flatMap_cons, List.append_assoc]
    by_cases hc : c = quote ∨ c = '\\'
    · rw [if_pos hc, if_pos (show IsEscapable quote c from hc)]
      exact .pair hc ih
    · rw [if_neg hc, if_neg (show ¬ IsEscapable quote c from hc)]
      rw [not_or] at hc
      exact .single hc.1 (fun hb => absurd hb hc.2) ih

/-- A text that begins with a quote has what is between the quotes as its value. -/
theorem value?_quoted (isQuote : quote = '"' ∨ quote = '\'') (t : Text) :
    value? (quote :: t) = some (.str (unquote quote t)) := by
  rw [value?, if_pos isQuote]

/-- **QUOTED TEXTS ARE READ BY THE GRAMMAR OF TOKENS.**  After a quote a text splits into tokens
in exactly one way.  Its value is what they stand for; without a closing quote they are all of the
text, and what follows a closing quote makes no difference.  Characters other than this quote and
the backslash, the other kind of quote among them, are tokens by themselves.  A text that is
escaped between quotes is read back, whatever follows. -/
theorem value?_eq_tokens (isQuote : quote = '"' ∨ quote = '\'') (t : Text) :
    (∃! split : List Token × Text, Splits quote t split.1 split.2) ∧
    (∀ tokens left, Splits quote t tokens left →
      value? (quote :: t) = some (.str (tokens.map Token.meaning)) ∧
      t = tokens.flatMap Token.text ++ left ∧
      (∀ c, c ≠ quote → c ≠ '\\' → ∀ token ∈ tokens, c ∈ token.text → token = .single c) ∧
      (left = [] ∨ ∃ after, left = quote :: after ∧
        ∀ after', value? (quote :: (tokens.flatMap Token.text ++ quote :: after')) =
          value? (quote :: t))) ∧
    ∀ s after, value? (quote :: (escaped quote s ++ quote :: after)) = some (.str s) := by
  have hq : quote ≠ '\\' := by rcases isQuote with rfl | rfl <;> decide
  have hread {u left : Text} {tokens : List Token} (h : Splits quote u tokens left) :
      value? (quote :: u) = some (.str (tokens.map Token.meaning)) := by
    rw [value?_quoted isQuote, h.unquote_eq hq]
  refine ⟨?_, fun tokens left h => ⟨hread h, h.text_eq, fun c hc hb => h.single_of_mem hc hb, ?_⟩,
    fun s after => ?_⟩
  · obtain ⟨tokens, left, h⟩ := exists_splits quote t
    refine ⟨(tokens, left), h, ?_⟩
    intro split h'
    obtain ⟨htokens, hleft⟩ := h.unique hq h'
    exact Prod.ext htokens hleft
  · rcases h.left_cases with hnil | ⟨after, rfl⟩
    · exact .inl hnil
    · refine .inr ⟨after, rfl, ?_⟩
      intro after'
      rw [hread h, hread (h.closed_before after')]
  · have hback : (s.map (tokenOf quote)).map Token.meaning = s := by
      rw [List.map_map]
      exact (List.map_congr_left fun c _ => meaning_tokenOf quote c).trans (List.map_id' s)
    rw [hread (splits_escaped quote s after), hback]

/-- An escaped quote, a backslash that escapes nothing, the other quote, the closing quote and a
remark after it. -/
def mixedQuoted : Text := "\\\"\\n'\" #"

/-- The five characters stand for four, and the remark may be any other. -/
theorem value?_eq_tokens_mixed :
    Splits '"' mixedQuoted [.pair '"', .single '\\', .single 'n', .single '\''] "\" #" ∧
      value? ('"' :: mixedQuoted) = some (.str "\"\\n'") ∧
      value? "\"\\\"\\n'\" other" = some (.str "\"\\n'") ∧
      value? "\"say \\\"a\\\\b\\\"\"c" = some (.str "say \"a\\b\"") := by
  have split : Splits '"' mixedQuoted [.pair '"', .single '\\', .single 'n', .single '\'']
      "\" #" := by
    refine .pair (.inl rfl) (.single (by decide) ?_ (.single (by decide) (by decide)
      (.single (by decide) (by decide) (.closed _))))
    intro _ d hd
    cases hd
    decide
  obtain ⟨-, read, back⟩ := value?_eq_tokens (.inl rfl) mixedQuoted
  obtain ⟨value, -, -, unread⟩ := read _ _ split
  rcases unread with hnil | ⟨after, -, same⟩
  · cases hnil
  · exact ⟨split, value, (same " other").trans value, back "say \"a\\b\"" "c"⟩

end Cascade.Dotenv
