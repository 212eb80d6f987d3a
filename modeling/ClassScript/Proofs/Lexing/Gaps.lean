import ClassScript.Source.Lexer

/-!
# Between Tokens

What may stand between two tokens, as a grammar: blanks, line comments and block comments, which
nest. Whether a character opens or closes a comment depends on the one behind it, so the text that
follows is part of the rules.
-/

namespace ClassScript

open List

namespace Lexer

variable {c : Char} {cs body : List Char} {after more : List Char}

inductive Inside : (after : List Char) → List Char → Prop
  | nil (after : List Char) : Inside after []
  | char (after : List Char) (c : Char) (cs : List Char)
      (hopen : ¬ ['/', '*'] <+: c :: (cs ++ after)) (hclose : ¬ ['*', '/'] <+: c :: (cs ++ after))
      (hcs : Inside after cs) : Inside after (c :: cs)
  | comment (after body cs : List Char) (hbody : Inside ('*' :: '/' :: (cs ++ after)) body)
      (hcs : Inside after cs) : Inside after ('/' :: '*' :: (body ++ '*' :: '/' :: cs))

inductive Unclosed : List Char → Prop
  | inside (cs : List Char) (hcs : Inside [] cs) : Unclosed cs
  | nested (before cs : List Char) (hbefore : Inside ('/' :: '*' :: cs) before)
      (hcs : Unclosed cs) : Unclosed (before ++ '/' :: '*' :: cs)

/-- Blanks and comments. At the end of a text, comments need not be closed. -/
inductive Trivia (final : Bool) : List Char → Prop
  | nil : Trivia final []
  | blank (c : Char) (cs : List Char) (hc : Text.isBlank c = true) (hcs : Trivia final cs) :
      Trivia final (c :: cs)
  | line (body cs : List Char) (hbody : '\n' ∉ body)
      (hend : (∃ more, cs = '\n' :: more) ∨ final = true ∧ cs = []) (hcs : Trivia final cs) :
      Trivia final ('/' :: '/' :: (body ++ cs))
  | block (body cs : List Char) (hbody : Inside ['*', '/'] body) (hcs : Trivia final cs) :
      Trivia final ('/' :: '*' :: (body ++ '*' :: '/' :: cs))
  | unclosed (body : List Char) (hfinal : final = true) (hbody : Unclosed body) :
      Trivia final ('/' :: '*' :: body)

theorem pair_begins {a b : Char} : [a, b] <+: c :: cs ↔ c = a ∧ cs.head? = some b := by
  cases cs with
  | nil => simp
  | cons d ds => simp [eq_comm]

theorem Inside.congr {after' : List Char} (hcs : Inside after cs)
    (hhead : after'.head? = after.head?) : Inside after' cs := by
  have hsame (cs : List Char) {after after' : List Char} (hhead : after'.head? = after.head?) :
      (cs ++ after').head? = (cs ++ after).head? := by
    cases cs with
    | nil => exact hhead
    | cons d ds => rfl
  induction hcs generalizing after' with
  | nil => exact .nil after'
  | char after c cs hopen hclose _ ih =>
    rw [pair_begins] at hopen hclose
    refine .char after' c cs ?_ ?_ (ih hhead)
    all_goals rwa [pair_begins, hsame cs hhead]
  | comment after body cs _ _ ihbody ihcs => exact .comment after' body cs (ihbody rfl) (ihcs hhead)

theorem Unclosed.char (hopen : ¬ ['/', '*'] <+: c :: cs)
    (hclose : ¬ ['*', '/'] <+: c :: cs) (hcs : Unclosed cs) : Unclosed (c :: cs) := by
  cases hcs with
  | inside _ hcs =>
    refine .inside _ (.char [] c cs ?_ ?_ hcs)
    all_goals rwa [append_nil]
  | nested before cs hbefore hcs =>
    exact .nested (c :: before) cs (.char _ c before hopen hclose hbefore) hcs

theorem Unclosed.comment (hbody : Inside ('*' :: '/' :: cs) body)
    (hcs : Unclosed cs) : Unclosed ('/' :: '*' :: (body ++ '*' :: '/' :: cs)) := by
  cases hcs with
  | inside _ hcs => exact .inside _ (.comment [] body cs (hbody.congr rfl) hcs)
  | nested before cs hbefore hcs =>
    have hall := Unclosed.nested _ cs (.comment _ body before hbody hbefore) hcs
    simpa using hall

theorem closed_or_unclosed (cs : List Char) :
    (∃ body rest, cs = body ++ '*' :: '/' :: rest ∧ Inside ('*' :: '/' :: rest) body) ∨
      Unclosed cs := by
  induction hlength : cs.length using Nat.strongRecOn generalizing cs with
  | _ n ih =>
    cases cs with
    | nil => exact .inr (.inside [] (.nil []))
    | cons c cs =>
      have hrest := ih cs.length (by simp [← hlength]) cs rfl
      by_cases hclose : ['*', '/'] <+: c :: cs
      · obtain ⟨rest, hrest⟩ := hclose
        exact .inl ⟨[], rest, hrest.symm, .nil _⟩
      by_cases hopen : ['/', '*'] <+: c :: cs
      · -- Another comment begins. If it is closed, the first one goes on behind it.
        obtain ⟨inner, hinner⟩ := hopen
        obtain ⟨rfl, rfl⟩ : '/' = c ∧ '*' :: inner = cs := by simpa using hinner
        have hinner : inner.length < n := by grind
        rcases ih inner.length hinner inner rfl with ⟨body, more, rfl, hbody⟩ | hunclosed
        · have hmore : more.length < n := by
            simp only [length_append, length_cons] at hinner
            omega
          rcases ih more.length hmore more rfl with ⟨body', rest, rfl, hbody'⟩ | hunclosed
          · refine .inl ⟨'/' :: '*' :: (body ++ '*' :: '/' :: body'), rest, by simp, ?_⟩
            exact .comment _ body body' hbody hbody'
          · exact .inr (.comment hbody hunclosed)
        · exact .inr (.nested [] inner (.nil _) hunclosed)
      · rcases hrest with ⟨body, rest, rfl, hbody⟩ | hunclosed
        · exact .inl ⟨c :: body, rest, rfl, .char _ c body hopen hclose hbody⟩
        · exact .inr (.char hopen hclose hunclosed)

@[simp]
theorem taking_nil (r : List Char × List Char) : taking [] r = r := rfl

@[simp]
theorem taking_taking (a b : List Char) (r : List Char × List Char) :
    taking a (taking b r) = taking (a ++ b) r := by
  simp [taking]

/-! What the reader does with the first characters. -/

@[simp]
theorem trivia_nil (gap : Gap) : trivia gap [] = ([], []) := by cases gap <;> rfl

theorem trivia_line_opens (cs : List Char) :
    trivia .blank ('/' :: '/' :: cs) = taking ['/', '/'] (trivia .line cs) :=
  rfl

theorem trivia_block_opens (cs : List Char) :
    trivia .blank ('/' :: '*' :: cs) = taking ['/', '*'] (trivia (.block 0) cs) :=
  rfl

theorem trivia_line_cons (c : Char) (cs : List Char) :
    trivia .line (c :: cs) = taking [c] (trivia (if c = '\n' then .blank else .line) cs) :=
  rfl

theorem trivia_inner_opens (d : Nat) (cs : List Char) :
    trivia (.block d) ('/' :: '*' :: cs) = taking ['/', '*'] (trivia (.block (d + 1)) cs) := by
  cases d <;> rfl

theorem trivia_inner_closes (d : Nat) (cs : List Char) :
    trivia (.block (d + 1)) ('*' :: '/' :: cs) = taking ['*', '/'] (trivia (.block d) cs) :=
  rfl

theorem trivia_block_closes (cs : List Char) :
    trivia (.block 0) ('*' :: '/' :: cs) = taking ['*', '/'] (trivia .blank cs) :=
  rfl

theorem trivia_blank_char (hline : ¬ ['/', '/'] <+: c :: cs)
    (hblock : ¬ ['/', '*'] <+: c :: cs) : trivia .blank (c :: cs) =
      if Text.isBlank c then taking [c] (trivia .blank cs) else ([], c :: cs) := by
  rw [trivia]
  all_goals grind

theorem trivia_block_char {d : Nat} (hopen : ¬ ['/', '*'] <+: c :: cs)
    (hclose : ¬ ['*', '/'] <+: c :: cs) :
    trivia (.block d) (c :: cs) = taking [c] (trivia (.block d) cs) := by
  rw [trivia]
  all_goals grind

theorem Inside.passed (hcs : Inside after cs) (d : Nat) :
    trivia (.block d) (cs ++ after) = taking cs (trivia (.block d) after) := by
  induction hcs generalizing d with
  | nil => rfl
  | char after c cs hopen hclose _ ih =>
    rw [cons_append, trivia_block_char hopen hclose, ih]
    rfl
  | comment after body cs _ _ ihbody ihcs =>
    have hbody := ihbody (d + 1)
    rw [trivia_inner_closes] at hbody
    simp [trivia_inner_opens, hbody, ihcs]

theorem Unclosed.passed (hcs : Unclosed cs) (d : Nat) : trivia (.block d) cs = (cs, []) := by
  induction hcs generalizing d with
  | inside cs hcs =>
    have hall := hcs.passed d
    simpa [taking] using hall
  | nested before cs hbefore _ ih =>
    rw [hbefore.passed, trivia_inner_opens, ih]
    simp [taking]

theorem trivia_line (hbody : '\n' ∉ body) (rest : List Char) :
    trivia .line (body ++ rest) = taking body (trivia .line rest) := by
  induction body with
  | nil => rfl
  | cons c body ih =>
    obtain ⟨hc, hbody⟩ := not_or.mp fun h => hbody (mem_cons.mpr h)
    rw [cons_append, trivia_line_cons, if_neg (Ne.symm hc), ih hbody]
    rfl

theorem exists_line (cs : List Char) : ∃ body rest, cs = body ++ rest ∧ '\n' ∉ body ∧
    (rest = [] ∨ ∃ more, rest = '\n' :: more) := by
  induction cs with
  | nil => exact ⟨[], [], rfl, by simp, .inl rfl⟩
  | cons c cs ih =>
    by_cases hc : c = '\n'
    · exact ⟨[], c :: cs, rfl, by simp, .inr ⟨cs, by rw [hc]⟩⟩
    · grind

def Splits (cs : List Char) : Prop :=
  ∃ gap rest, trivia .blank cs = (gap, rest) ∧ cs = gap ++ rest ∧ Trivia rest.isEmpty gap

theorem Splits.blank (hline : ¬ ['/', '/'] <+: c :: cs)
    (hblock : ¬ ['/', '*'] <+: c :: cs) (hcs : Splits cs) : Splits (c :: cs) := by
  have hstep := trivia_blank_char hline hblock
  by_cases hc : Text.isBlank c = true
  · obtain ⟨gap, rest, hread, rfl, hgap⟩ := hcs
    refine ⟨c :: gap, rest, ?_, rfl, .blank c gap hc hgap⟩
    rw [hstep, if_pos hc, hread]
    rfl
  · refine ⟨[], c :: cs, ?_, rfl, .nil⟩
    rw [hstep, if_neg hc]

theorem Splits.line (hbody : '\n' ∉ body) (hmore : Splits more) :
    Splits ('/' :: '/' :: (body ++ '\n' :: more)) := by
  obtain ⟨gap, rest, hread, rfl, hgap⟩ := hmore
  refine ⟨'/' :: '/' :: (body ++ '\n' :: gap), rest, ?_, by simp, ?_⟩
  · rw [trivia_line_opens, trivia_line hbody, trivia_line_cons, if_pos rfl, hread]
    simp [taking]
  · exact .line body _ hbody (.inl ⟨gap, rfl⟩) (.blank '\n' gap (by decide) hgap)

theorem Splits.line_end (hbody : '\n' ∉ body) : Splits ('/' :: '/' :: (body ++ [])) := by
  refine ⟨'/' :: '/' :: (body ++ []), [], ?_, by simp, ?_⟩
  · rw [trivia_line_opens, trivia_line hbody]
    simp [taking]
  · exact .line body [] hbody (.inr ⟨rfl, rfl⟩) .nil

theorem Splits.block (hbody : Inside ('*' :: '/' :: more) body)
    (hmore : Splits more) : Splits ('/' :: '*' :: (body ++ '*' :: '/' :: more)) := by
  obtain ⟨gap, rest, hread, rfl, hgap⟩ := hmore
  refine ⟨'/' :: '*' :: (body ++ '*' :: '/' :: gap), rest, ?_, by simp, ?_⟩
  · rw [trivia_block_opens, hbody.passed, trivia_block_closes, hread]
    simp [taking]
  · exact .block body gap (hbody.congr rfl) hgap

theorem Splits.unclosed (hbody : Unclosed body) : Splits ('/' :: '*' :: body) := by
  refine ⟨'/' :: '*' :: body, [], ?_, by simp, .unclosed body rfl hbody⟩
  rw [trivia_block_opens, hbody.passed]
  rfl

theorem trivia_splits (cs : List Char) : Splits cs := by
  induction hlength : cs.length using Nat.strongRecOn generalizing cs with
  | _ n ih =>
    cases cs with
    | nil => exact ⟨[], [], rfl, rfl, .nil⟩
    | cons c cs =>
      -- Which rule applies is seen in the first two characters.
      by_cases hline : ['/', '/'] <+: c :: cs
      · obtain ⟨text, htext⟩ := hline
        rw [← htext] at hlength ⊢
        obtain ⟨body, rest, rfl, hbody, rfl | ⟨more, rfl⟩⟩ := exists_line text
        · exact .line_end hbody
        · have hmore : more.length < n := by
            simp only [← hlength, length_append, length_cons]
            omega
          exact .line hbody (ih more.length hmore more rfl)
      by_cases hblock : ['/', '*'] <+: c :: cs
      · obtain ⟨text, htext⟩ := hblock
        rw [← htext] at hlength ⊢
        rcases closed_or_unclosed text with ⟨body, more, rfl, hbody⟩ | hunclosed
        · have hmore : more.length < n := by
            simp only [← hlength, length_append, length_cons]
            omega
          exact .block hbody (ih more.length hmore more rfl)
        · exact .unclosed hunclosed
      · exact .blank hline hblock (ih cs.length (by simp [← hlength]) cs rfl)

end Lexer

end ClassScript
