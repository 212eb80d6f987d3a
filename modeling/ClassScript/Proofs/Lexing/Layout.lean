import ClassScript.Proofs.Lexing.Accounting
import Mathlib

/-!
# Token Lists That Differ in Places

The grammar looks at lines in one case: an opening bracket is compared with the token in front of
it. So lists that it cannot tell apart agree in the words and in which brackets are on the line of
the token in front.
-/

namespace ClassScript

open List

variable {t t' : Token} {ts us : List Token} {α β : Type} {R : α → β → Prop}
variable {x : Except SyntaxError α} {y : Except SyntaxError β}

def Token.word (t : Token) : TokenKind × String :=
  (t.kind, t.text)

theorem Token.kind_eq (h : t.word = t'.word) : t.kind = t'.kind :=
  congrArg Prod.fst h

theorem Token.text_eq (h : t.word = t'.word) : t.text = t'.text :=
  congrArg Prod.snd h

/-- An opening bracket is in two lists on the line of the token in front of it, or in none. -/
def Token.Joins (before here : Token × Token) : Prop :=
  here.1.kind = .lParen ∨ here.1.kind = .lBracket →
    (here.1.span.line = before.1.span.line ↔ here.2.span.line = before.2.span.line)

/-- Token lists that differ in places only, and with the same brackets on the line of the
    token in front. -/
structure SameWords (ts us : List Token) : Prop where
  words : ts.map Token.word = us.map Token.word
  brackets : (ts.zip us).IsChain Token.Joins

instance (before here : Token × Token) : Decidable (Token.Joins before here) :=
  inferInstanceAs (Decidable (_ → _))

instance (ts us : List Token) : Decidable (SameWords ts us) :=
  decidable_of_iff (ts.map Token.word = us.map Token.word ∧ (ts.zip us).IsChain Token.Joins)
    ⟨fun h => ⟨h.1, h.2⟩, fun h => ⟨h.words, h.brackets⟩⟩

namespace SameWords

variable {t u : Token} {ts us : List Token}

theorem head (h : SameWords (t :: ts) (u :: us)) : t.word = u.word :=
  head_eq_of_cons_eq h.words

theorem tail (h : SameWords (t :: ts) (u :: us)) : SameWords ts us :=
  ⟨tail_eq_of_cons_eq h.words, h.brackets.tail⟩

theorem length_eq (h : SameWords ts us) : ts.length = us.length := by
  simpa using congrArg List.length h.words

theorem double (h : SameWords (t :: ts) (u :: us)) : SameWords (t :: t :: ts) (u :: u :: us) := by
  refine ⟨?_, isChain_cons_cons.mpr ⟨fun _ => iff_of_true rfl rfl, h.brackets⟩⟩
  exact congrArg₂ List.cons h.head h.words

end SameWords

def Token.weight (t : Token) : Nat :=
  if t.kind = .eof then 0 else if t.kind = .interpolatedString then t.text.length + 3 else 1

theorem Token.weight_pos (h : t.kind ≠ .eof) : 0 < t.weight := by
  rw [Token.weight, if_neg h]
  split <;> omega

theorem SameWords.weight_eq (h : SameWords ts us) :
    (ts.map Token.weight).sum = (us.map Token.weight).sum := by
  have hweights (ts : List Token) : ts.map Token.weight = (ts.map Token.word).map fun w =>
      Token.weight ⟨w.1, w.2, default⟩ := by
    rw [map_map]
    rfl
  rw [hweights ts, hweights us, h.words]

inductive SameOutcome {α β : Type} (R : α → β → Prop) :
    Except SyntaxError α → Except SyntaxError β → Prop
  | ok {a : α} {b : β} (h : R a b) : SameOutcome R (.ok a) (.ok b)
  | error {e e' : SyntaxError} (h : e.problem = e'.problem) : SameOutcome R (.error e) (.error e')

theorem SameOutcome.cases (h : SameOutcome R x y) :
    (∃ a b, x = .ok a ∧ y = .ok b ∧ R a b) ∨
      ∃ e e', x = .error e ∧ y = .error e' ∧ e.problem = e'.problem := by
  cases h with
  | ok h => exact .inl ⟨_, _, rfl, rfl, h⟩
  | error h => exact .inr ⟨_, _, rfl, rfl, h⟩

theorem SameOutcome.mono {S : α → β → Prop} (h : SameOutcome R x y) (hRS : ∀ a b, R a b → S a b) :
    SameOutcome S x y := by
  cases h with
  | ok h => exact .ok (hRS _ _ h)
  | error h => exact .error h

namespace Lexer

theorem Covers.weight_le {m : Mark} {cs : List Char} (hc : Covers m cs ts) :
    (ts.map Token.weight).sum ≤ cs.length := by
  induction hc with
  | done m gap _ => simp [Token.weight]
  | token m gap s ts _ hs _ ih =>
    have htaken : Token.weight ⟨s.kind, String.ofList s.text, (m.past gap).upTo
        ((m.past gap).past s.taken)⟩ ≤ s.taken.length := by
      rw [Token.weight, if_neg hs.kind]
      by_cases hkind : s.kind = .interpolatedString
      · simp [hkind, hs.body hkind]
      · rw [if_neg hkind]
        exact length_pos_iff.mpr hs.nonempty
    grind

theorem tokensFrom_shift (n : Nat) (m m' : Mark) (cs : List Char) :
    SameOutcome (List.Forall₂ fun t u =>
      t.word = u.word ∧ t.span.line + m'.line = u.span.line + m.line)
      (tokensFrom n m cs) (tokensFrom n m' cs) := by
  have hpast (m m' : Mark) (cs : List Char) :
      (m.past cs).line + m'.line = (m'.past cs).line + m.line := by
    rw [Mark.past_eq, Mark.past_eq]
    dsimp only
    omega
  induction n generalizing m m' cs with
  | zero => exact .error rfl
  | succ n ih =>
    obtain ⟨gap, rest, hgap, rfl, _⟩ := trivia_splits cs
    cases rest with
    | nil =>
      simp only [tokensFrom, hgap]
      exact .ok (.cons ⟨rfl, hpast m m' gap⟩ .nil)
    | cons c cs =>
      cases hs : scan c cs with
      | error problem =>
        simp only [tokensFrom, hgap, hs]
        exact .error rfl
      | ok s =>
        have hmore := ih ((m.past gap).past s.taken) ((m'.past gap).past s.taken) s.rest
        rcases hmore.cases with ⟨ts, us, hts, hus, hall⟩ | ⟨e, e', he, he', hproblem⟩
        · simp only [tokensFrom, hgap, hs, hts, hus]
          refine .ok (.cons ⟨rfl, hpast m m' gap⟩ (hall.imp fun t u htu => ⟨htu.1, ?_⟩))
          have hlines := hpast m m' (gap ++ s.taken)
          rw [Mark.past_append, Mark.past_append] at hlines
          omega
        · simp only [tokensFrom, hgap, hs, he, he']
          exact .error hproblem

end Lexer

theorem SameWords.of_shift {a b : Nat} (h : List.Forall₂ (fun t u =>
    t.word = u.word ∧ t.span.line + a = u.span.line + b) ts us) : SameWords ts us := by
  refine ⟨?_, ?_⟩
  · induction h with
    | nil => rfl
    | cons htu _ ih => simp_all
  · refine List.Pairwise.isChain (pairwise_of_forall_mem_list fun p hp q hq _ => ?_)
    have hlines (p : Token × Token) (hp : p ∈ ts.zip us) :
        p.1.span.line + a = p.2.span.line + b := (forall₂_iff_zip.mp h).2 hp |>.2
    grind

theorem tokenizeChars_sameWords (source : List Char) (line line' : Nat) :
    SameOutcome SameWords (tokenizeChars source line) (tokenizeChars source line') :=
  (Lexer.tokensFrom_shift _ _ _ _).mono fun _ _ => SameWords.of_shift

end ClassScript
