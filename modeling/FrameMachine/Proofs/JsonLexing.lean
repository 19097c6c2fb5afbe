import FrameMachine.Proofs.JsonNumerals
import Mathlib.Data.List.Chain

/-!
# The lexer gives the tokens that a text spells

Whatever mode the lexer is in, what it has read is the start of a token (`Mode.Reached`), so a text
that does not go wrong spells the tokens it gives (`spelled_lex`). And a text that spells tokens
gives them, if what follows a number ends it, as in the tokens of a value it does
(`lex_eq_tokens_iff`).
-/

namespace FrameMachine.Json

variable {mode : Mode} {out : List Token × Mode} {t : Token} {ts : List Token} {c : Char}
  {p text : List Char} {parts : List StringPart}

/-! ## What was read -/

theorem PartsSpelledBy.concat {part : StringPart} {w : List Char} (h : PartsSpelledBy parts p)
    (hw : part.SpelledBy w) : PartsSpelledBy (parts ++ [part]) (p ++ w) := by
  induction h with
  | nil => simpa using PartsSpelledBy.cons hw .nil
  | cons first _ ih => simpa using PartsSpelledBy.cons first ih

theorem hexCode?_concat (digits : List Char) (c : Char) :
    hexCode? (digits ++ [c]) =
      (hexCode? digits).bind fun code => (hexDigit? c).map (16 * code + ·) := by
  simp [hexCode?, List.foldlM_append]

/-- What was read since the lexer was between tokens. -/
inductive Mode.Reached : Mode → List Char → Prop
  | idle : Reached .idle []
  | word {rest p : List Char} {t : Token} (h : t.SpelledBy (p ++ rest)) : Reached (.word rest t) p
  | number {phase : NumeralPhase} {n : Numeral} {p : List Char} (h : phase.Reached n p) :
      Reached (.number phase n) p
  | string {parts : List StringPart} {p : List Char} (h : PartsSpelledBy parts.reverse p) :
      Reached (.string parts) ('"' :: p)
  | escape {parts : List StringPart} {p : List Char} (h : PartsSpelledBy parts.reverse p) :
      Reached (.escape parts) ('"' :: p ++ ['\\'])
  | unit {parts : List StringPart} {p digits : List Char} {left code : Nat}
      (h : PartsSpelledBy parts.reverse p) (hcode : hexCode? digits = some code)
      (four : digits.length + left = 4) (more : 0 < left) :
      Reached (.unit parts left code) ('"' :: p ++ '\\' :: 'u' :: digits)

/-- The character `c` after `p` gives tokens and leaves a mode that are right: if what follows
spells the tokens it gives, so does all of the text. -/
def Sound (p : List Char) (c : Char) (out : List Token × Mode) : Prop :=
  .malformed ∉ out.1 → ∀ ts text, (∀ p', out.2.Reached p' → Spelled ts (p' ++ text)) →
    Spelled (out.1 ++ ts) (p ++ c :: text)

theorem sound_of_reached {mode' : Mode} (h : mode'.Reached (p ++ [c])) : Sound p c ([], mode') := by
  intro _ ts text hrest
  simpa using hrest _ h

theorem sound_of_token (h : t.SpelledBy (p ++ [c])) : Sound p c ([t], .idle) := by
  intro _ ts text hrest
  simpa using Spelled.token h (hrest [] .idle)

theorem sound_broken : Sound p c broken := fun h => absurd (List.mem_singleton.2 rfl) h

theorem sound_begin (c : Char) : Sound [] c (begin c) := by
  unfold begin
  split
  · rename_i hblank
    intro _ ts text hrest
    exact .blank hblank (hrest [] .idle)
  · split
    · exact sound_of_token .openBrace
    · exact sound_of_token .closeBrace
    · exact sound_of_token .openBracket
    · exact sound_of_token .closeBracket
    · exact sound_of_token .colon
    · exact sound_of_token .comma
    · exact sound_of_reached (.string .nil)
    · exact sound_of_reached (.word .null)
    · exact sound_of_reached (.word .true)
    · exact sound_of_reached (.word .false)
    · exact sound_of_reached (.number (.minus true))
    · split
      · rename_i he
        exact sound_of_reached (.number (NumeralPhase.Reached.extend (.minus false) he))
      · exact sound_broken

theorem sound_feedNumber {phase : NumeralPhase} {n : Numeral} (h : phase.Reached n p) (c : Char) :
    Sound p c (feedNumber phase n c) := by
  unfold feedNumber
  split
  · rename_i he
    exact sound_of_reached (.number (h.extend he))
  · split
    · rename_i hend
      intro hm ts text hrest
      rw [List.mem_cons, not_or] at hm
      have hafter := sound_begin c hm.2 ts text hrest
      exact .token (.number (h.spelledBy hend.1)) hafter
    · exact sound_broken

theorem sound_feedString (h : PartsSpelledBy parts.reverse p) (c : Char) :
    Sound ('"' :: p) c (feedString parts c) := by
  unfold feedString
  split_ifs with hquote hbackslash hcontrol
  · subst hquote
    exact sound_of_token (.string h)
  · subst hbackslash
    exact sound_of_reached (.escape h)
  · exact sound_broken
  · refine sound_of_reached (.string ?_)
    simpa using h.concat (.plain hcontrol hquote hbackslash)

theorem sound_feedEscape (h : PartsSpelledBy parts.reverse p) (c : Char) :
    Sound ('"' :: p ++ ['\\']) c (feedEscape parts c) := by
  unfold feedEscape
  split_ifs with hu
  · subst hu
    refine sound_of_reached ?_
    simpa using Mode.Reached.unit h rfl rfl (by decide : 0 < 4)
  · split
    · rename_i e he
      have htext : '"' :: p ++ ['\\'] ++ [c] = '"' :: (p ++ ['\\', c]) := by simp
      refine sound_of_reached ?_
      rw [htext]
      exact .string (by simpa using h.concat (.letter he))
    · exact sound_broken

theorem sound_feedUnit {digits : List Char} {left code : Nat} (h : PartsSpelledBy parts.reverse p)
    (hcode : hexCode? digits = some code) (four : digits.length + left = 4) (more : 0 < left)
    (c : Char) :
    Sound ('"' :: p ++ '\\' :: 'u' :: digits) c (feedUnit parts left code c) := by
  unfold feedUnit
  split
  · rename_i d hd
    have hcode' : hexCode? (digits ++ [c]) = some (16 * code + d) := by
      rw [hexCode?_concat, hcode, hd]
      rfl
    have htext : '"' :: p ++ '\\' :: 'u' :: digits ++ [c] =
        '"' :: (p ++ '\\' :: 'u' :: (digits ++ [c])) := by simp
    split_ifs with hlast <;> refine sound_of_reached ?_ <;> rw [htext]
    · have hfour : (digits ++ [c]).length = 4 := by
        rw [List.length_append, List.length_singleton]
        omega
      exact .string (by simpa using h.concat (.code hfour hcode'))
    · refine .unit h hcode' ?_ (by omega)
      rw [List.length_append, List.length_singleton]
      omega
  · exact sound_broken

theorem sound_feedWord {rest : List Char} (h : t.SpelledBy (p ++ rest)) (c : Char) :
    Sound p c (feedWord rest t c) := by
  unfold feedWord
  split
  · exact sound_broken
  · split_ifs with hc
    · subst hc
      exact sound_of_token h
    · exact sound_broken
  · split_ifs with hc
    · subst hc
      exact sound_of_reached (.word (by simpa using h))
    · exact sound_broken

/-- Each character keeps to what was read before it. -/
theorem sound_feed (h : mode.Reached p) (c : Char) : Sound p c (mode.feed c) := by
  cases h with
  | idle => exact sound_begin c
  | word h => exact sound_feedWord h c
  | number h => exact sound_feedNumber h c
  | string h => exact sound_feedString h c
  | escape h => exact sound_feedEscape h c
  | unit h hcode four more => exact sound_feedUnit h hcode four more c

theorem lexFrom_cons (mode : Mode) (c : Char) (text : List Char) :
    lexFrom mode (c :: text) = (mode.feed c).1 ++ lexFrom (mode.feed c).2 text := by
  simp [lexFrom, Mode.run]

theorem spelled_lexFrom (h : mode.Reached p) (hm : .malformed ∉ lexFrom mode text) :
    Spelled (lexFrom mode text) (p ++ text) := by
  induction text generalizing mode p with
  | nil =>
    change .malformed ∉ mode.finish at hm
    change Spelled mode.finish (p ++ [])
    cases h with
    | idle => exact .nil
    | @number phase n p h =>
      simp only [Mode.finish] at hm ⊢
      split_ifs at hm ⊢ with hcomplete
      · exact .token (.number (h.spelledBy hcomplete)) .nil
      · exact absurd (List.mem_singleton.2 rfl) hm
    | _ => exact absurd (List.mem_singleton.2 rfl) hm
  | cons c text ih =>
    rw [lexFrom_cons] at hm ⊢
    rw [List.mem_append, not_or] at hm
    exact sound_feed h c hm.1 _ text fun p' hp' => ih hp' hm.2

/-- A text that does not go wrong spells the tokens it gives. -/
theorem spelled_lex (hm : .malformed ∉ lex text) : Spelled (lex text) text :=
  spelled_lexFrom .idle hm

/-! ## What is spelled is given -/

theorem lexFrom_of_run {w : List Char} (h : mode.run w = ([t], .idle)) (text : List Char) :
    lexFrom mode (w ++ text) = t :: lex text := by
  rw [lexFrom_append, h]
  rfl

/-- The digits that are still to come complete a code. -/
theorem Mode.reads_code {digits : List Char} {left code code' : Nat} (hl : digits.length = left)
    (more : 0 < left)
    (h : digits.foldlM (fun code c => (hexDigit? c).map (16 * code + ·)) code = some code')
    (parts : List StringPart) :
    (unit parts left code).Reads digits (string (.unit code' :: parts)) := by
  induction digits generalizing left code with
  | nil => simp only [List.length_nil] at hl; omega
  | cons c digits ih =>
    rw [List.length_cons] at hl
    simp only [List.foldlM_cons, Option.bind_eq_bind, Option.bind_eq_some_iff,
      Option.map_eq_some_iff] at h
    obtain ⟨_, ⟨d, hd, rfl⟩, hrest⟩ := h
    by_cases hlast : left ≤ 1
    · obtain rfl : digits = [] := List.length_eq_zero_iff.1 (by omega)
      cases hrest
      simp [Reads, run, feed, feedUnit, hd, hlast]
    · refine Reads.cons ?_ (ih (by omega : digits.length = left - 1) (by omega) hrest)
      simp [feed, feedUnit, hd, hlast]

theorem Mode.reads_part {part : StringPart} {w : List Char} (h : part.SpelledBy w)
    (parts : List StringPart) : (string parts).Reads w (string (part :: parts)) := by
  cases h with
  | plain printable noQuote noBackslash =>
    simp [Reads, run, feed, feedString, printable, noQuote, noBackslash]
  | @letter c e he =>
    have hu : c ≠ 'u' := by
      rintro rfl
      cases he
    simp [Reads, run, feed, feedString, feedEscape, hu, he]
  | code four hcode =>
    have hopen : (string parts).Reads ['\\', 'u'] (unit parts 4 0) := rfl
    exact hopen.append (reads_code four (by decide) hcode parts)

theorem Mode.reads_parts (h : PartsSpelledBy parts p) (before : List StringPart) :
    (string before).Reads p (string (parts.reverse ++ before)) := by
  induction h generalizing before with
  | nil => rfl
  | @cons part parts w text first _ ih =>
    have hrest := (Mode.reads_part first before).append (ih (part :: before))
    simpa using hrest

theorem run_string (h : PartsSpelledBy parts p) :
    Mode.idle.run ('"' :: p ++ ['"']) = ([.string parts], .idle) := by
  have hopen : Mode.idle.Reads ['"'] (.string []) := rfl
  have hread := hopen.append (Mode.reads_parts h [])
  unfold Mode.Reads at hread
  rw [List.append_nil] at hread
  rw [show '"' :: p = ['"'] ++ p from rfl, Mode.run_append, hread]
  simp [Mode.run, Mode.feed, feedString]

/-- What follows may end a number. -/
def EndsNumber (text : List Char) : Prop :=
  ∀ c ∈ text.head?, isBlank c = true ∨ c = ',' ∨ c = ']' ∨ c = '\x7d'

theorem lexFrom_number {phase : NumeralPhase} {n : Numeral} (hc : phase.complete = true)
    (hend : EndsNumber text) : lexFrom (.number phase n) text = .number n :: lex text := by
  cases text with
  | nil => simp [lexFrom, Mode.run, Mode.finish, hc, lex]
  | cons c text =>
    have hstop : extendNumeral phase n c = none ∧ digit? c = none := by
      have hc' := hend c rfl
      simp only [isBlank, decide_eq_true_eq] at hc'
      rcases hc' with (rfl | rfl | rfl | rfl) | rfl | rfl | rfl <;>
        cases phase <;> first | cases hc; done | exact ⟨rfl, rfl⟩
    rw [lex, lexFrom_cons, lexFrom_cons]
    simp [Mode.feed, feedNumber, hstop, hc]

/-- A token that may come right after a number. -/
def Token.FollowsNumber : Token → Prop
  | comma | closeBrace | closeBracket => True
  | _ => False

/-- Each number is followed by a token that ends it. -/
def Separated (ts : List Token) : Prop :=
  ts.IsChain fun t u => (∃ n, t = .number n) → u.FollowsNumber

theorem endsNumber_of_spelled (h : Spelled ts text) (hfirst : ∀ t ∈ ts.head?, t.FollowsNumber) :
    EndsNumber text := by
  cases h with
  | nil => nofun
  | blank hblank _ =>
    rintro c ⟨⟩
    exact .inl hblank
  | @token t ts w text hw _ =>
    have ht := hfirst t rfl
    cases hw <;> first | exact ht.elim | (rintro c ⟨⟩; simp)

/-- A text gives the tokens that it spells. -/
theorem lex_of_spelled (h : Spelled ts text) (hs : Separated ts) : lex text = ts := by
  induction h with
  | nil => rfl
  | @blank c ts text hblank _ ih =>
    rw [lex, lexFrom_cons]
    simp only [Mode.feed, begin, hblank, if_true]
    exact ih hs
  | @token t ts w text hw hrest ih =>
    obtain ⟨hnext, htail⟩ := List.isChain_cons.1 hs
    have htokens := ih htail
    cases hw with
    | @number n w hn =>
      obtain ⟨phase, hcomplete, hreads⟩ := reads_numeral hn
      have hend := endsNumber_of_spelled hrest fun u hu => hnext u hu ⟨n, rfl⟩
      rw [lex, lexFrom_append, hreads, lexFrom_number hcomplete hend, htokens]
      rfl
    | string hparts => rw [lex, lexFrom_of_run (run_string hparts), htokens]
    | _ => rw [lex, lexFrom_of_run rfl, htokens]

/-! ## The tokens of a value -/

/-- Tokens that may come right after a value. -/
def Ending (ts : List Token) : Prop := Separated ts ∧ ∀ t ∈ ts.head?, t.FollowsNumber

theorem Separated.cons (h : Separated ts) (ht : ∀ n, t ≠ .number n) : Separated (t :: ts) :=
  List.isChain_cons.2 ⟨fun _ _ ⟨n, hn⟩ => absurd hn (ht n), h⟩

theorem Separated.ending (h : Separated ts) (ht : t.FollowsNumber) : Ending (t :: ts) := by
  refine ⟨h.cons ?_, ?_⟩
  · rintro n rfl
    exact ht
  · rintro u ⟨⟩
    exact ht

theorem separated_commaSeparated {lists : List (List Token)}
    (h : ∀ l ∈ lists, ∀ ts, Ending ts → Separated (l ++ ts)) (hts : Ending ts) :
    Separated (commaSeparated lists ++ ts) := by
  cases lists with
  | nil => exact hts.1
  | cons first rest =>
    have htail : Ending (rest.flatMap (.comma :: ·) ++ ts) := by
      have hrest : ∀ l ∈ rest, ∀ ts, Ending ts → Separated (l ++ ts) :=
        fun l hl => h l (List.mem_cons_of_mem first hl)
      clear h
      induction rest with
      | nil => exact hts
      | cons l rest ih =>
        have hl := hrest l (List.mem_cons_self ..) _
          (ih fun k hk => hrest k (List.mem_cons_of_mem l hk))
        simpa using hl.ending (t := .comma) trivial
    rw [commaSeparated, List.append_assoc]
    exact h first (List.mem_cons_self ..) _ htail

theorem Tree.separated_tokens (v : Tree) : ∀ {ts}, Ending ts → Separated (v.tokens ++ ts) := by
  induction v using Tree.tokens.induct with
  | case1 | case2 | case4 =>
    intro ts hts
    rw [Tree.tokens]
    exact hts.1.cons (by simp)
  | case3 n =>
    intro ts hts
    rw [Tree.tokens]
    exact List.isChain_cons.2 ⟨fun u hu _ => hts.2 u hu, hts.1⟩
  | case5 elements ih =>
    intro ts hts
    have hclose : Ending (.closeBracket :: ts) := hts.1.ending trivial
    have helements : ∀ l ∈ elements.map fun v => v.tokens, ∀ ts, Ending ts →
        Separated (l ++ ts) := by
      intro l hl ts hts
      obtain ⟨v, hv, rfl⟩ := List.mem_map.1 hl
      exact ih v hv hts
    rw [Tree.tokens, List.append_assoc, List.cons_append]
    exact (separated_commaSeparated helements hclose).cons (by simp)
  | case6 members ih =>
    intro ts hts
    have hclose : Ending (.closeBrace :: ts) := hts.1.ending trivial
    have hmembers : ∀ l ∈ members.map fun m => .string m.1 :: .colon :: m.2.tokens, ∀ ts,
        Ending ts → Separated (l ++ ts) := by
      intro l hl ts hts
      obtain ⟨m, hm, rfl⟩ := List.mem_map.1 hl
      exact Separated.cons (Separated.cons (ih m hm hts) (by simp)) (by simp)
    rw [Tree.tokens, List.append_assoc, List.cons_append]
    exact (separated_commaSeparated hmembers hclose).cons (by simp)

theorem mem_commaSeparated {lists : List (List Token)} (h : t ∈ commaSeparated lists) :
    t = .comma ∨ ∃ l ∈ lists, t ∈ l := by
  cases lists with
  | nil => cases h
  | cons first rest =>
    simp only [commaSeparated, List.mem_append, List.mem_flatMap, List.mem_cons] at h
    rcases h with h | ⟨l, hl, rfl | h⟩
    · exact .inr ⟨first, List.mem_cons_self .., h⟩
    · exact .inl rfl
    · exact .inr ⟨l, List.mem_cons_of_mem first hl, h⟩

theorem Tree.malformed_notMem_tokens (v : Tree) : .malformed ∉ v.tokens := by
  induction v using Tree.tokens.induct with
  | case1 | case2 | case3 | case4 => simp [Tree.tokens]
  | case5 elements ih =>
    intro hm
    simp only [Tree.tokens, List.cons_append, List.mem_cons, List.mem_append] at hm
    rcases hm with hm | hm | hm
    · cases hm
    · obtain hm | ⟨l, hl, hm⟩ := mem_commaSeparated hm
      · cases hm
      · obtain ⟨v, hv, rfl⟩ := List.mem_map.1 hl
        exact ih v hv hm
    · simp at hm
  | case6 members ih =>
    intro hm
    simp only [Tree.tokens, List.cons_append, List.mem_cons, List.mem_append] at hm
    rcases hm with hm | hm | hm
    · cases hm
    · obtain hm | ⟨l, hl, hm⟩ := mem_commaSeparated hm
      · cases hm
      · obtain ⟨m, hmem, rfl⟩ := List.mem_map.1 hl
        simp only [List.mem_cons, reduceCtorEq, false_or] at hm
        exact ih m hmem hm
    · simp at hm

/-- The tokens of a text are those of the value if the text spells them, and only then. -/
theorem lex_eq_tokens_iff {v : Tree} : lex text = v.tokens ↔ Spelled v.tokens text := by
  constructor
  · intro h
    have hm := v.malformed_notMem_tokens
    rw [← h] at hm ⊢
    exact spelled_lex hm
  · intro h
    have hend : Ending [] := ⟨.nil, nofun⟩
    have hs := v.separated_tokens hend
    rw [List.append_nil] at hs
    exact lex_of_spelled h hs

end FrameMachine.Json
