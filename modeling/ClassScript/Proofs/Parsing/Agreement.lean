import ClassScript.Proofs.Lexing.Layout
import ClassScript.Proofs.Parsing.Readers

/-!
# Readers Side by Side

A reader is described together with a second one, which reads tokens that differ in places only.
They agree if both succeed, with results that look the same, or both fail, with the same problem.

Loops and grammars give up at bounds. This does not happen as long as every round and every second
entry takes a token, so giving up is excluded up to a bound on the weight of the tokens to come.
-/

namespace ClassScript

open List Token

variable {k : TokenKind}

/-! ### Braces -/

def TokenKind.isWord : TokenKind → Bool
  | .lBrace | .rBrace | .unknown | .eof => false
  | _ => true

theorem TokenKind.isWord_of_eq_some {β : Type} {f : TokenKind → Option β}
    (hf : f .lBrace = none ∧ f .rBrace = none ∧ f .unknown = none ∧ f .eof = none)
    {b : β} (h : f k = some b) : k.isWord = true := by
  cases k <;> simp_all [isWord]

inductive Nests : Nat → List Token → Nat → Prop
  | nil (d : Nat) : Nests d [] d
  | word {d d' : Nat} {t : Token} {ts : List Token} (ht : t.kind.isWord = true)
      (hts : Nests d ts d') : Nests d (t :: ts) d'
  | opening {d d' : Nat} {t : Token} {ts : List Token} (ht : t.kind = .lBrace)
      (hts : Nests (d + 1) ts d') : Nests d (t :: ts) d'
  | closing {d d' : Nat} {t : Token} {ts : List Token} (ht : t.kind = .rBrace)
      (hts : Nests d ts d') : Nests (d + 1) (t :: ts) d'

namespace Nests

variable {d d' d'' : Nat} {ts us : List Token}

theorem append (hts : Nests d ts d') (hus : Nests d' us d'') : Nests d (ts ++ us) d'' := by
  induction hts with
  | nil d => exact hus
  | word ht _ ih => exact .word ht (ih hus)
  | opening ht _ ih => exact .opening ht (ih hus)
  | closing ht _ ih => exact .closing ht (ih hus)

theorem cons_inv {t : Token} (h : Nests d (t :: ts) d') : ∃ e, Nests d [t] e ∧ Nests e ts d' := by
  cases h with
  | word ht hts => exact ⟨d, .word ht (.nil d), hts⟩
  | opening ht hts => exact ⟨d + 1, .opening ht (.nil _), hts⟩
  | closing ht hts => exact ⟨_, .closing ht (.nil _), hts⟩

theorem ne_eof (hts : Nests d ts d') : ∀ t ∈ ts, t.kind ≠ .eof := by
  induction hts with
  | nil => simp
  | word ht _ ih =>
    refine forall_mem_cons.mpr ⟨fun heof => ?_, ih⟩
    rw [heof] at ht
    cases ht
  | opening | closing => grind

end Nests

/-! ### Cursors -/

def Cursor.weight (c : Cursor) : Nat :=
  (c.rest.map Token.weight).sum

def Cursor.Ends (c : Cursor) : Prop :=
  ∃ t ∈ c.rest, t.kind = .eof

structure Cursor.Took (c : Cursor) (ts : List Token) (c' : Cursor) : Prop where
  rest : c.rest = ts ++ c'.rest
  last : c'.last = ts.getLastD c.last
  words : ∀ t ∈ ts, t.kind ≠ .eof

/-- What is between two cursors: tokens that lead from one number of open braces to another, at
    least one if the reader has to move. -/
def Cursor.Gets (c c' : Cursor) (d d' : Nat) (moves : Prop) : Prop :=
  ∃ taken, c.Took taken c' ∧ Nests d taken d' ∧ (moves → taken ≠ [])

namespace Cursor

variable {c c' c'' : Cursor} {ts us : List Token} {d d' d'' : Nat} {moves moves' : Prop}

theorem Ends.start {m : Mark} {cs : List Char} {tokens : List Token}
    (hc : Lexer.Covers m cs tokens) : (Cursor.start tokens).Ends := by
  obtain ⟨words, last, htokens, heof, _⟩ := hc.ends
  exact ⟨last, by simp [Cursor.start, htokens], heof⟩

theorem Took.refl (c : Cursor) : c.Took [] c := ⟨rfl, rfl, nofun⟩

theorem Took.trans (h : c.Took ts c') (h' : c'.Took us c'') : c.Took (ts ++ us) c'' where
  rest := by rw [h.rest, h'.rest, append_assoc]
  last := by
    rw [h'.last, h.last]
    cases us using reverseRecOn <;> simp
  words := forall_mem_append.mpr ⟨h.words, h'.words⟩

theorem Took.ends (h : c.Took ts c') (hc : c.Ends) : c'.Ends := by
  obtain ⟨t, ht, heof⟩ := hc
  rw [h.rest] at ht
  rcases mem_append.mp ht with htaken | ht
  · exact absurd heof (h.words t htaken)
  · exact ⟨t, ht, heof⟩

theorem Gets.refl (c : Cursor) (d : Nat) : c.Gets c d d False := ⟨[], .refl c, .nil d, False.elim⟩

section

variable (h : c.Gets c' d d' moves)
include h

theorem Gets.mono (hm : moves' → moves) : c.Gets c' d d' moves' := by
  obtain ⟨taken, htook, hnests, hmoves⟩ := h
  exact ⟨taken, htook, hnests, hmoves ∘ hm⟩

theorem Gets.trans (h' : c'.Gets c'' d' d'' moves') : c.Gets c'' d d'' (moves ∨ moves') := by
  obtain ⟨taken, htook, hnests, hmoves⟩ := h
  obtain ⟨taken', htook', hnests', hmoves'⟩ := h'
  refine ⟨taken ++ taken', htook.trans htook', hnests.append hnests', ?_⟩
  rintro (hm | hm) hnil
  all_goals simp_all

theorem Gets.ends (hc : c.Ends) : c'.Ends := by
  obtain ⟨_, htook, _⟩ := h
  exact htook.ends hc

theorem Gets.weight_le : c'.weight ≤ c.weight := by
  obtain ⟨taken, htook, _, _⟩ := h
  simp [weight, htook.rest]

theorem Gets.weight_lt (hm : moves) : c'.weight < c.weight := by
  obtain ⟨taken, htook, _, hmoves⟩ := h
  cases taken with
  | nil => exact absurd rfl (hmoves hm)
  | cons t taken =>
    have hpos := weight_pos (htook.words t mem_cons_self)
    simp only [weight, htook.rest, map_cons, map_append, sum_cons, sum_append]
    omega

theorem Gets.length_le : c'.rest.length ≤ c.rest.length := by
  obtain ⟨taken, htook, _, _⟩ := h
  rw [htook.rest, length_append]
  omega

theorem Gets.length_lt (hm : moves) : c'.rest.length < c.rest.length := by
  obtain ⟨taken, htook, _, hmoves⟩ := h
  have hpos := length_pos_iff.mpr (hmoves hm)
  rw [htook.rest, length_append]
  omega

end

theorem step_of_eof (h : c.next.kind = .eof) : c.step = c := by
  obtain ⟨last, rest⟩ := c
  cases rest with
  | nil => rfl
  | cons t more => exact if_pos h

theorem Ends.step (hc : c.Ends) (hnext : c.next.kind ≠ .eof) :
    c.step.last = c.next ∧ c.rest = [c.next] ++ c.step.rest := by
  obtain ⟨last, rest⟩ := c
  cases rest with
  | nil =>
    obtain ⟨t, ht, _⟩ := hc
    cases ht
  | cons t more =>
    have hstep : Cursor.step ⟨last, t :: more⟩ = ⟨t, more⟩ := if_neg hnext
    rw [hstep]
    exact ⟨rfl, rfl⟩

theorem Ends.took (hc : c.Ends) (hnext : c.next.kind ≠ .eof) : c.Took [c.next] c.step where
  rest := (hc.step hnext).2
  last := (hc.step hnext).1
  words := forall_mem_singleton.mpr hnext

theorem Ends.gets (hc : c.Ends) (ht : Nests d [c.next] d') : c.Gets c.step d d' True :=
  ⟨[c.next], hc.took (ht.ne_eof _ mem_cons_self), ht, fun _ => cons_ne_nil _ _⟩

end Cursor

/-! ### Results side by side -/

/-- Results that look the same, the first of which is fine. Where places count they are the
    same. -/
structure Alike {α γ : Type} (E : Prop) (P : α → Prop) (v : α → γ) (a b : α) : Prop where
  fine : P a
  view : v a = v b
  same : E → a = b

abbrev Same {α γ : Type} (E : Prop) (v : α → γ) (a b : α) : Prop :=
  Alike E (fun _ => True) v a b

abbrev SameToken (E : Prop) (t t' : Token) : Prop :=
  Same E Token.word t t'

/-- Both succeed, with results in a relation, or both fail with the same problem, and neither gives
    up. -/
inductive Parallel {α β : Type} (E : Prop) (R : α → β → Prop) :
    Except SyntaxError α → Except SyntaxError β → Prop
  | ok {a : α} {b : β} (h : R a b) : Parallel E R (.ok a) (.ok b)
  | error {e e' : SyntaxError} (hproblem : e.problem = e'.problem) (hsame : E → e = e')
      (hends : e.problem ≠ .exhausted) : Parallel E R (.error e) (.error e')

section Results

variable {α β γ : Type} {E : Prop} {P : α → Prop} {v : α → γ} {t t' : Token} {a b : α}
variable {I : List α → Prop} {as bs : List α} {R : α → β → Prop} {x : Except SyntaxError α}
variable {y : Except SyntaxError β}

theorem Alike.refl (h : P a) : Alike E P v a a := ⟨h, rfl, fun _ => rfl⟩

theorem Alike.of_eq (h : a = b) (hP : P a) : Alike E P v a b := h ▸ .refl hP

theorem Alike.any (h : Alike E P v a b) : Same E v a b := ⟨trivial, h.view, h.same⟩

theorem Alike.kind (h : SameToken E t t') : t.kind = t'.kind := kind_eq h.view

theorem Alike.text (h : SameToken E t t') : t.text = t'.text := text_eq h.view

theorem Alike.option {a b : Option α}
    (h : Alike E (fun r => ∀ a, r = some a → P a) (Option.map v) a b) :
    (a = none ∧ b = none) ∨ ∃ l l', a = some l ∧ b = some l' ∧ Alike E P v l l' := by
  obtain ⟨hfine, hview, hsame⟩ := h
  cases a with
  | none => simp_all
  | some l =>
    obtain ⟨l', rfl, hl⟩ := Option.map_eq_some_iff.mp hview.symm
    exact .inr ⟨l, l', rfl, rfl, hfine l rfl, hl.symm, fun e => Option.some.inj (hsame e)⟩

theorem Alike.cons {J : List α → Prop}
    (h : Alike E (fun a => I (a :: as)) v a b) (hs : Alike E J (List.map v) as bs) :
    Alike E I (List.map v) (a :: as) (b :: bs) :=
  ⟨h.fine, by rw [map_cons, map_cons, h.view, hs.view],
    fun e => by rw [h.same e, hs.same e]⟩

theorem Alike.reverse (h : Alike E I (List.map v) as bs) :
    Alike E (fun xs => I xs.reverse) (List.map v) as.reverse bs.reverse :=
  ⟨by rw [reverse_reverse]; exact h.fine, by rw [map_reverse, map_reverse, h.view],
    fun e => by rw [h.same e]⟩

theorem Parallel.cases
    (h : Parallel E R x y) : (∃ a b, x = .ok a ∧ y = .ok b ∧ R a b) ∨
      ∃ e e', x = .error e ∧ y = .error e' ∧ e.problem = e'.problem ∧ (E → e = e') ∧
        e.problem ≠ .exhausted := by
  cases h with
  | ok h => exact .inl ⟨_, _, rfl, rfl, h⟩
  | error => grind

theorem Parallel.mono {S : α → β → Prop}
    (h : Parallel E R x y) (hRS : ∀ a b, R a b → S a b) : Parallel E S x y := by
  cases h with
  | ok h => exact .ok (hRS _ _ h)
  | error hproblem hsame hends => exact .error hproblem hsame hends

theorem Parallel.map {α' β' : Type} {S : α' → β' → Prop} {f : α → α'}
    {g : β → β'} (h : Parallel E R x y)
    (hRS : ∀ a b, R a b → S (f a) (g b)) : Parallel E S (x.map f) (y.map g) := by
  cases h with
  | ok h => exact .ok (hRS _ _ h)
  | error hproblem hsame hends => exact .error hproblem hsame hends

theorem Parallel.outcome (h : Parallel E R x y) : SameOutcome R x y := by
  cases h with
  | ok h => exact .ok h
  | error hproblem _ _ => exact .error hproblem

theorem Parallel.eq {y : Except SyntaxError α} (h : Parallel True (fun a b => a = b) x y) :
    x = y ∧ ∀ e, x = .error e → e.problem ≠ .exhausted := by
  cases h with
  | ok h => exact ⟨congrArg _ h, nofun⟩
  | error => simp_all

end Results

/-! ### Cursors side by side -/

/-- Cursors in front of token lists that differ in places only, or not at all. The end is
    still to come. -/
structure Cursor.Twin (E : Prop) (c c' : Cursor) : Prop where
  words : SameWords (c.last :: c.rest) (c'.last :: c'.rest)
  ends : c.Ends
  same : E → c = c'

namespace Cursor.Twin

variable {E : Prop} {c c' : Cursor}

section

variable (h : c.Twin E c')
include h

theorem split : ∃ more more', c.rest = c.next :: more ∧
    c'.rest = c'.next :: more' ∧
      SameWords (c.last :: c.next :: more) (c'.last :: c'.next :: more') := by
  obtain ⟨last, rest⟩ := c
  obtain ⟨last', rest'⟩ := c'
  obtain ⟨words, ⟨t, ht, _⟩, _⟩ := h
  cases rest with
  | nil => cases ht
  | cons t more =>
    cases rest' with
    | nil => exact absurd words.length_eq (by simp)
    | cons t' more' => exact ⟨more, more', rfl, rfl, words⟩

theorem next : SameToken E c.next c'.next := by
  obtain ⟨_, _, _, _, words⟩ := h.split
  exact ⟨trivial, words.tail.head, fun e => by rw [h.same e]⟩

theorem last : SameToken E c.last c'.last :=
  ⟨trivial, h.words.head, fun e => by rw [h.same e]⟩

theorem right : c'.Ends := by
  obtain ⟨t, ht, heof⟩ := h.ends
  have hword := mem_map_of_mem (f := Token.word) ht
  rw [h.words.tail.words] at hword
  obtain ⟨t', ht', hsame⟩ := mem_map.mp hword
  exact ⟨t', ht', (kind_eq hsame).trans heof⟩

theorem at? (k : TokenKind) : c.at? k = c'.at? k := by
  rw [Cursor.at?, Cursor.at?, h.next.kind]

theorem length : c.rest.length = c'.rest.length := h.words.tail.length_eq

theorem joins (hk : k = .lParen ∨ k = .lBracket) :
    (c.next.span.line == c.last.span.line && c.at? k) =
      (c'.next.span.line == c'.last.span.line && c'.at? k) := by
  obtain ⟨_, _, _, _, words⟩ := h.split
  rw [← h.at? k]
  by_cases hat : c.at? k = true
  · have hlines := (isChain_cons_cons.mp words.brackets).1
      (by rwa [show c.next.kind = k from beq_iff_eq.mp hat])
    simpa [hat] using hlines
  · simp [hat]

theorem second (k : TokenKind) : ((c.rest.drop 1).head?.any (·.kind == k)) =
    ((c'.rest.drop 1).head?.any (·.kind == k)) := by
  obtain ⟨more, more', hrest, hrest', words⟩ := h.split
  rw [hrest, hrest', drop_one, drop_one, tail_cons, tail_cons]
  cases more with
  | nil =>
    have hnone : more'.length = 0 := by simpa using words.length_eq.symm
    rw [eq_nil_of_length_eq_zero hnone]
  | cons u us =>
    cases more' with
    | nil => exact absurd words.length_eq (by simp)
    | cons u' us' =>
      have hkind := kind_eq words.tail.tail.head
      simp [hkind]

theorem step : c.step.Twin E c'.step := by
  have hsame : E → c.step = c'.step := fun e => by rw [h.same e]
  by_cases hnext : c.next.kind = .eof
  · rwa [step_of_eof hnext, step_of_eof (by rwa [← h.next.kind])]
  obtain ⟨more, more', hrest, hrest', words⟩ := h.split
  obtain ⟨u, hu, heof⟩ := h.ends
  have hnext' : c'.next.kind ≠ .eof := by rwa [← h.next.kind]
  have hstep : c.step = ⟨c.next, more⟩ := by
    rw [Cursor.step, hrest]
    exact if_neg hnext
  have hstep' : c'.step = ⟨c'.next, more'⟩ := by
    rw [Cursor.step, hrest']
    exact if_neg hnext'
  refine ⟨?_, ?_, hsame⟩
  · rw [hstep, hstep']
    exact words.tail
  · rw [hrest] at hu
    rw [hstep]
    rcases mem_cons.mp hu with rfl | hu
    · exact absurd heof hnext
    · exact ⟨u, hu, heof⟩

end

theorem start {m : Mark} {cs : List Char} {ts us : List Token} (hts : Lexer.Covers m cs ts)
    (h : SameWords ts us) (hsame : E → ts = us) : (Cursor.start ts).Twin E (Cursor.start us) := by
  have hends := Ends.start hts
  refine ⟨?_, hends, fun e => by rw [hsame e]⟩
  cases ts with
  | nil =>
    obtain ⟨t, ht, _⟩ := hends
    cases ht
  | cons t ts =>
    cases us with
    | nil => exact absurd h.length_eq (by simp)
    | cons u us => exact h.double

end Cursor.Twin

namespace Parse

variable {α β γ δ : Type}

theorem peek_bind_apply (f : Token → Parse α) (c : Cursor) : (peek >>= f) c = f c.next c := rfl

theorem last_bind_apply (f : Token → Parse α) (c : Cursor) : (last >>= f) c = f c.last c := rfl

theorem check_bind_apply (k : TokenKind) (f : Bool → Parse α) (c : Cursor) :
    (check k >>= f) c = f (c.at? k) c :=
  rfl

/-! ### Readers -/

/-- A reader that succeeds leads from one number of open braces to another with a result that is
    fine. Up to a weight, a second reader does the same, and neither of them gives up. -/
structure AgreeFrom (E : Prop) (p q : Cursor → Prop) (n d d' : Nat) (moves P : α → Prop)
    (v : α → γ) (x y : Parse α) : Prop where
  gets : ∀ c a c₁, c.Ends → p c → x c = .ok (a, c₁) → c.Gets c₁ d d' (moves a) ∧ P a
  runs : ∀ c c', c.Twin E c' → p c → q c' → c.weight < n →
    Parallel E (fun r r' => Alike E P v r.1 r'.1 ∧ r.2.Twin E r'.2) (x c) (y c')

abbrev AgreeTo (E : Prop) (n d d' : Nat) (moves P : α → Prop) (v : α → γ) (x y : Parse α) : Prop :=
  AgreeFrom E (fun _ => True) (fun _ => True) n d d' moves P v x y

abbrev Agree (E : Prop) (n d : Nat) (P : α → Prop) (v : α → γ) (x y : Parse α) : Prop :=
  AgreeTo E n d d (fun _ => False) P v x y

abbrev Advances (E : Prop) (n d : Nat) (P : α → Prop) (v : α → γ) (x y : Parse α) : Prop :=
  AgreeTo E n d d (fun _ => True) P v x y

abbrev Extends (E : Prop) (n d : Nat) (P : α → Prop) (v : α → γ) (x y : Parse (Option α)) : Prop :=
  AgreeTo E n d d (fun r => r.isSome = true) (fun r => ∀ a, r = some a → P a) (Option.map v) x y

namespace AgreeFrom

variable {E : Prop} {p q p' q' : Cursor → Prop} {n m d d' d'' : Nat} {moves moves' P : α → Prop}
  {M Q : β → Prop} {v : α → γ} {w : β → δ} {x y : Parse α} {f f' : α → Parse β}

variable {a b : α} {problem : SyntaxProblem} {span span' : Span} {z : Parse α}

theorem mono (h : AgreeFrom E p q n d d' moves P v x y) (hm : m ≤ n) :
    AgreeFrom E p q m d d' moves P v x y :=
  ⟨h.gets, fun c c' hc hp hq hlt => h.runs c c' hc hp hq (Nat.lt_of_lt_of_le hlt hm)⟩

theorem weaken (h : AgreeFrom E p q n d d' moves P v x y) (hm : ∀ a, moves' a → moves a) :
    AgreeFrom E p q n d d' moves' P v x y :=
  ⟨fun c a c₁ hc hp hx => ⟨(h.gets c a c₁ hc hp hx).1.mono (hm a), (h.gets c a c₁ hc hp hx).2⟩,
    h.runs⟩

theorem from_ (h : AgreeFrom E p q n d d' moves P v x y) (hp : ∀ c, p' c → p c)
    (hq : ∀ c, q' c → q c) : AgreeFrom E p' q' n d d' moves P v x y :=
  ⟨fun c a c₁ hc hpc => h.gets c a c₁ hc (hp c hpc),
    fun c c' hc hpc hqc => h.runs c c' hc (hp c hpc) (hq c' hqc)⟩

theorem here (h : AgreeTo E n d d' moves P v x y) : AgreeFrom E p q n d d' moves P v x y :=
  h.from_ (fun _ _ => trivial) fun _ _ => trivial

theorem coarsen {P' : α → Prop} (h : AgreeFrom E p q n d d' moves P v x y)
    (hP : ∀ a, P a → P' a) : AgreeFrom E p q n d d' moves P' v x y :=
  ⟨fun c a c₁ hc hp hx => ⟨(h.gets c a c₁ hc hp hx).1, hP a (h.gets c a c₁ hc hp hx).2⟩,
    fun c c' hc hp hq hn => (h.runs c c' hc hp hq hn).mono fun _ _ hr =>
      ⟨⟨hP _ hr.1.fine, hr.1.view, hr.1.same⟩, hr.2⟩⟩

theorem zero (h : AgreeFrom E p q n d d' moves P v x y) (z : Parse α) :
    AgreeFrom E p q 0 d d' moves P v x z :=
  ⟨h.gets, fun _ _ _ _ _ hlt => absurd hlt (Nat.not_lt_zero _)⟩

theorem pure (ha : ¬ moves a) (h : Alike E P v a b) :
    AgreeFrom E p q n d d moves P v (Pure.pure a) (Pure.pure b) := by
  refine ⟨?_, fun c c' hc _ _ _ => .ok ⟨h, hc⟩⟩
  rintro c _ _ _ _ ⟨⟩
  exact ⟨(Cursor.Gets.refl c d).mono ha, h.fine⟩

theorem fail (h : problem ≠ .exhausted) (hspan : E → span = span') :
    AgreeFrom E p q n d d' moves P v (Parse.fail problem span) (Parse.fail problem span') := by
  refine ⟨?_, fun _ _ _ _ _ _ => .error rfl (fun e => by rw [hspan e]) h⟩
  rintro c _ _ _ _ ⟨⟩

theorem fail_bind (h : problem ≠ .exhausted)
    (hspan : E → span = span') : AgreeFrom E p q n d d' M Q w
      (Parse.fail problem span >>= f) (Parse.fail problem span' >>= f') :=
  (fail h hspan : AgreeFrom E p q n d d' M Q w (Parse.fail problem span) _)

theorem ite {c : Prop} [Decidable c] {w : Parse α} (hx : c → AgreeFrom E p q n d d' moves P v x y)
    (hz : ¬ c → AgreeFrom E p q n d d' moves P v z w) :
    AgreeFrom E p q n d d' moves P v (if c then x else z) (if c then y else w) := by
  by_cases h : c
  · rw [if_pos h, if_pos h]
    exact hx h
  · rw [if_neg h, if_neg h]
    exact hz h

/-- One reader behind another. What is known of the second may depend on what the first one took. -/
theorem bind_from {s : α → Cursor → Prop} (hx : AgreeFrom E p q n d d' moves P v x y)
    (hs : ∀ c a c₁, p c → c.Gets c₁ d d' (moves a) → s a c₁ ∧ (c.weight < n → c₁.weight < m))
    {N : α → β → Prop} (hf : ∀ a b, Alike E P v a b →
      AgreeFrom E (s a) (fun _ => True) m d' d'' (N a) Q w (f a) (f' b))
    (hM : ∀ a b, M b → moves a ∨ N a b) :
    AgreeFrom E p q n d d'' M Q w (x >>= f) (y >>= f') where
  gets c b c₂ hc hp hb := by
    rw [bind_apply] at hb
    cases hr : x c with
    | error e => rw [hr] at hb; cases hb
    | ok r =>
      rw [hr] at hb
      obtain ⟨hfirst, hfine⟩ := hx.gets c r.1 r.2 hc hp hr
      obtain ⟨hsecond, hQ⟩ := (hf r.1 r.1 (.refl hfine)).gets r.2 b c₂ (hfirst.ends hc)
        (hs c _ _ hp hfirst).1 hb
      exact ⟨(hfirst.trans hsecond).mono (hM r.1 b), hQ⟩
  runs c c' hc hp hq hn := by
    rw [bind_apply, bind_apply]
    rcases (hx.runs c c' hc hp hq hn).cases with
      ⟨r, r', hr, hr', halike, htwin⟩ | ⟨e, e', he, he', hproblem, hsame, hends⟩
    · obtain ⟨hsafe, hweight⟩ := hs c _ _ hp (hx.gets c r.1 r.2 hc.ends hp hr).1
      rw [hr, hr']
      exact (hf _ _ halike).runs r.2 r'.2 htwin hsafe trivial (hweight hn)
    · rw [he, he']
      exact .error hproblem hsame hends

theorem bind (hx : AgreeFrom E p q n d d' moves P v x y)
    (hf : ∀ a b, Alike E P v a b → AgreeTo E n d' d'' M Q w (f a) (f' b)) :
    AgreeFrom E p q n d d'' M Q w (x >>= f) (y >>= f') :=
  hx.bind_from (fun _ _ _ _ hget => ⟨trivial, Nat.lt_of_le_of_lt hget.weight_le⟩) hf
    fun _ _ => .inr

theorem bind_same (hx : AgreeFrom E p q n d d' moves P id x y)
    (hf : ∀ a, AgreeTo E n d' d'' M Q w (f a) (f' a)) :
    AgreeFrom E p q n d d'' M Q w (x >>= f) (y >>= f') :=
  hx.bind fun a _ h =>
    Eq.subst (motive := fun b => AgreeTo E n d' d'' M Q w (f a) (f' b)) h.view (hf a)

theorem bind_less (hx : AgreeFrom E p q (n + 1) d d' (fun _ => True) P v x y)
    (hf : ∀ a b, Alike E P v a b → AgreeTo E n d' d'' (fun _ => False) Q w (f a) (f' b)) :
    AgreeFrom E p q (n + 1) d d'' M Q w (x >>= f) (y >>= f') := by
  refine hx.bind_from (fun c a c₁ _ hget => ⟨trivial, fun hn => ?_⟩) hf fun _ _ _ => .inl trivial
  have hlt := hget.weight_lt trivial
  omega

theorem bind_moved (hx : AgreeFrom E p q n d d' (fun _ => True) P v x y)
    (hf : ∀ a b, Alike E P v a b → AgreeTo E n d' d'' (fun _ => False) Q w (f a) (f' b)) :
    AgreeFrom E p q n d d'' M Q w (x >>= f) (y >>= f') :=
  hx.bind_from (fun _ _ _ _ hget => ⟨trivial, Nat.lt_of_le_of_lt hget.weight_le⟩) hf
    fun _ _ _ => .inl trivial

theorem bind_option {x y : Parse (Option α)} {f f' : Option α → Parse β}
    (hx : Extends E n d P v x y) (hnone : Advances E n d Q w (f none) (f' none))
    (hsome : ∀ a b, Alike E P v a b → Agree E n d Q w (f (some a)) (f' (some b))) :
    Advances E n d Q w (x >>= f) (y >>= f') := by
  refine hx.bind_from (m := n) (s := fun _ _ => True) (N := fun r _ => r.isSome = false) ?_ ?_ ?_
  · exact fun _ _ _ _ hget => ⟨trivial, Nat.lt_of_le_of_lt hget.weight_le⟩
  · intro r r' hr
    rcases hr.option with ⟨rfl, rfl⟩ | ⟨a, b, rfl, rfl, hab⟩
    · exact hnone.weaken fun _ _ => trivial
    · simp_all
  · grind

/-! ### Single tokens -/

section Tokens

variable {k : TokenKind} {f f' : Token → Parse α}
variable {t t' : Token}

theorem look_bind {x : Parse β} {look : Cursor → β} {f f' : β → Parse α}
    (hx : ∀ c, x c = .ok (look c, c))
    (hlook : ∀ c c', c.Twin E c' → Alike E (fun _ => True) w (look c) (look c'))
    (h : ∀ a b, Alike E (fun _ => True) w a b → AgreeFrom E (fun c => look c = a ∧ p c)
      (fun c => look c = b ∧ q c) n d d' moves P v (f a) (f' b)) :
    AgreeFrom E p q n d d' moves P v (x >>= f) (x >>= f') := by
  refine ⟨fun c a c₁ hc hp ha => ?_, fun c c' hc hp hq hn => ?_⟩
  · rw [bind_of_ok (hx c)] at ha
    exact (h _ _ (.refl trivial)).gets c a c₁ hc ⟨rfl, hp⟩ ha
  · rw [bind_of_ok (hx c), bind_of_ok (hx c')]
    exact (h _ _ (hlook c c' hc)).runs c c' hc ⟨rfl, hp⟩ ⟨rfl, hq⟩ hn

theorem peek_bind (h : ∀ t t', SameToken E t t' → AgreeFrom E (fun c => c.next = t ∧ p c)
      (fun c => c.next = t' ∧ q c) n d d' moves P v (f t) (f' t')) :
    AgreeFrom E p q n d d' moves P v (Parse.peek >>= f) (Parse.peek >>= f') :=
  .look_bind (fun _ => rfl) (fun _ _ hc => hc.next) h

theorem last_bind (h : ∀ t t', SameToken E t t' → AgreeFrom E (fun c => c.last = t ∧ p c)
      (fun c => c.last = t' ∧ q c) n d d' moves P v (f t) (f' t')) :
    AgreeFrom E p q n d d' moves P v (Parse.last >>= f) (Parse.last >>= f') :=
  .look_bind (fun _ => rfl) (fun _ _ hc => hc.last) h

theorem check_bind {f f' : Bool → Parse α}
    (h : ∀ b, AgreeFrom E (fun c => c.at? k = b ∧ p c) q n d d' moves P v (f b) (f' b)) :
    AgreeFrom E p q n d d' moves P v (Parse.check k >>= f) (Parse.check k >>= f') := by
  refine .look_bind (fun _ => rfl) (fun _ _ hc => .of_eq (v := id) (hc.at? k) trivial) ?_
  rintro a b ⟨-, rfl, -⟩
  exact (h a).from_ (fun _ => id) fun _ hq => hq.2

theorem checkSecond_bind {f f' : Bool → Parse α}
    (h : ∀ b, AgreeFrom E p q n d d' moves P v (f b) (f' b)) :
    AgreeFrom E p q n d d' moves P v (Parse.checkSecond k >>= f) (Parse.checkSecond k >>= f') := by
  refine .look_bind (fun _ => rfl) (fun _ _ hc => .of_eq (v := id) (hc.second k) trivial) ?_
  rintro a b ⟨-, rfl, -⟩
  exact (h a).from_ (fun _ hp => hp.2) fun _ hq => hq.2

theorem branch {s t : Cursor → Bool} {r r' w : Parse α}
    (hr : ∀ c, r c = (if s c then x else z) c) (hr' : ∀ c, r' c = (if t c then y else w) c)
    (htest : ∀ c c', c.Twin E c' → p c → q c' → s c = t c')
    (hx : ∀ c c', SameToken E c.next c'.next → s c = true →
      AgreeFrom E (· = c) (· = c') n d d' moves P v x y)
    (hz : AgreeFrom E p q n d d' moves P v z w) : AgreeFrom E p q n d d' moves P v r r' := by
  refine ⟨fun c a c₁ hc hp ha => ?_, fun c c' hc hp hq hn => ?_⟩
  · rw [hr] at ha
    split at ha
    · next hgo => exact (hx c c (.refl trivial) hgo).gets c a c₁ hc rfl ha
    · exact hz.gets c a c₁ hc hp ha
  · rw [hr, hr', ← htest c c' hc hp hq]
    by_cases hgo : s c = true
    · rw [if_pos hgo, if_pos hgo]
      exact (hx c c' hc.next hgo).runs c c' hc rfl rfl hn
    · rw [if_neg hgo, if_neg hgo]
      exact hz.runs c c' hc hp hq hn

theorem bracket_ite {b b' : Bool} {w : Parse α} (hk : k = .lParen ∨ k = .lBracket)
    (hb : ∀ c, p c → b = (c.next.span.line == c.last.span.line))
    (hb' : ∀ c, q c → b' = (c.next.span.line == c.last.span.line))
    (hx : ∀ t t', SameToken E t t' → t.kind = k →
      AgreeFrom E (fun c => c.next = t) (fun c => c.next = t') n d d' moves P v x y)
    (hz : AgreeFrom E p q n d d' moves P v z w) :
    AgreeFrom E p q n d d' moves P v (do if b && (← Parse.check k) then x else z)
      (do if b' && (← Parse.check k) then y else w) := by
  refine .branch (s := fun c => b && c.at? k) (t := fun c => b' && c.at? k) (fun _ => rfl)
    (fun _ => rfl) (fun c c' hc hp hq => ?_) (fun c c' hnext hgo => ?_) hz
  · rw [hb c hp, hb' c' hq]
    exact hc.joins hk
  · have hkind := beq_iff_eq.mp (Bool.and_eq_true_iff.mp hgo).2
    exact (hx _ _ hnext hkind).from_ (fun _ => congrArg _) fun _ => congrArg _

theorem check_ite {w : Parse α} (hx : ∀ t t', SameToken E t t' → t.kind = k →
      AgreeFrom E (fun c => c.next = t) (fun c => c.next = t') n d d' moves P v x y)
    (hz : AgreeFrom E p q n d d' moves P v z w) :
    AgreeFrom E p q n d d' moves P v (do if ← Parse.check k then x else z)
      (do if ← Parse.check k then y else w) :=
  .branch (fun _ => rfl) (fun _ => rfl) (fun _ _ hc _ _ => hc.at? k)
    (fun _ _ hnext hgo => (hx _ _ hnext (beq_iff_eq.mp hgo)).from_ (fun _ => congrArg _)
      fun _ => congrArg _) hz

theorem peek : AgreeFrom E p q n d d (fun _ => False) (fun _ => True) Token.word Parse.peek
    Parse.peek :=
  bind_pure Parse.peek ▸ peek_bind fun _ _ ht => .pure id ht

theorem last : AgreeFrom E p q n d d (fun _ => False) (fun _ => True) Token.word Parse.last
    Parse.last :=
  bind_pure Parse.last ▸ last_bind fun _ _ ht => .pure id ht

theorem check (k : TokenKind) : AgreeFrom E p q n d d (fun _ => False) (fun _ => True) id
    (Parse.check k) (Parse.check k) :=
  bind_pure (Parse.check k) ▸ check_bind fun _ => .pure id (.refl trivial)

theorem advance_apply {c : Cursor} (hc : c.Ends) (hnext : c.next.kind ≠ .eof)
    (f : Token → Parse α) : (Parse.advance >>= f) c = f c.next c.step := by
  rw [bind_apply, Parse.advance, (hc.step hnext).1]

section

variable (hp : ∀ c, p c → c.next = t) (hq : ∀ c, q c → c.next = t') (ht : Nests d [t] d')
include hp hq ht

theorem advance_heavy
    (h : ∀ m ≤ n, (0 < m → t.weight ≤ n) → AgreeTo E m d' d'' (fun _ => False) P v (f t) (f' t')) :
    AgreeFrom E p q (n + 1) d d'' moves P v (Parse.advance >>= f) (Parse.advance >>= f') := by
  have hnext := ht.ne_eof _ mem_cons_self
  refine ⟨fun c a c₁ hc hpc ha => ?_, fun c c' hc hpc hqc hn => ?_⟩
  · obtain rfl := hp c hpc
    have hget := hc.gets ht
    rw [advance_apply hc hnext] at ha
    obtain ⟨hmore, hfine⟩ := (h 0 (Nat.zero_le n) fun h => absurd h (Nat.lt_irrefl 0)).gets c.step a
      c₁ (hget.ends hc) trivial ha
    exact ⟨(hget.trans hmore).mono fun _ => .inl trivial, hfine⟩
  · obtain rfl := hp c hpc
    obtain rfl := hq c' hqc
    have hnext' : c'.next.kind ≠ .eof := by rwa [← hc.next.kind]
    rw [advance_apply hc.ends hnext, advance_apply hc.right hnext']
    have hweight : c.step.weight + c.next.weight = c.weight := by
      simp [Cursor.weight, (hc.ends.step hnext).2, Nat.add_comm]
    have hpos := weight_pos hnext
    exact (h n (Nat.le_refl n) fun _ => by omega).runs c.step c'.step hc.step trivial trivial
      (by omega)

theorem advance (h : AgreeTo E n d' d'' (fun _ => False) P v (f t) (f' t')) :
    AgreeFrom E p q (n + 1) d d'' moves P v (Parse.advance >>= f) (Parse.advance >>= f') :=
  advance_heavy hp hq ht fun _ hm _ => h.mono hm

theorem advance_same (h : AgreeTo E n d' d'' (fun _ => False) P v (f t) (f' t')) :
    AgreeFrom E p q n d d'' moves P v (Parse.advance >>= f) (Parse.advance >>= f') :=
  (advance hp hq ht h).mono (Nat.le_succ n)

end

theorem advance_any (problem : SyntaxProblem) (hproblem : problem ≠ .exhausted)
    (hfail : ∀ t, t.kind.isWord = false → f t = Parse.fail problem t.span)
    (hf : ∀ t t', SameToken E t t' → Agree E n d P v (f t) (f t')) :
    Agree E n d P v (Parse.advance >>= f) (Parse.advance >>= f) := by
  have hstay {c : Cursor} (heof : c.next.kind = .eof) :
      (Parse.advance >>= f) c = f c.last c := by
    rw [bind_apply, Parse.advance, Cursor.step_of_eof heof]
  refine ⟨fun c a c₁ hc _ ha => ?_, fun c c' hc _ _ hn => ?_⟩
  · by_cases heof : c.next.kind = .eof
    · rw [hstay heof] at ha
      exact (hf _ _ (.refl trivial)).gets c a c₁ hc trivial ha
    rw [advance_apply hc heof] at ha
    cases hword : c.next.kind.isWord with
    | true =>
      have hget := hc.gets (d := d) (.word hword (.nil d))
      obtain ⟨hmore, hfine⟩ := (hf _ _ (.refl trivial)).gets c.step a c₁ (hget.ends hc) trivial ha
      exact ⟨(hget.trans hmore).mono fun h => h.elim, hfine⟩
    | false =>
      rw [hfail _ hword] at ha
      cases ha
  · have hkind := hc.next.kind
    by_cases heof : c.next.kind = .eof
    · rw [hstay heof, hstay (hkind ▸ heof)]
      exact (hf _ _ hc.last).runs c c' hc trivial trivial hn
    rw [advance_apply hc.ends heof, advance_apply hc.right (hkind ▸ heof)]
    cases hword : c.next.kind.isWord with
    | true =>
      have hget := hc.ends.gets (d := d) (.word hword (.nil d))
      exact (hf _ _ hc.next).runs c.step c'.step hc.step trivial trivial
        (Nat.lt_of_le_of_lt hget.weight_le hn)
    | false =>
      rw [hfail _ hword, hfail _ (hkind ▸ hword)]
      exact .error rfl (fun e => by rw [hc.next.same e]) hproblem

theorem two {k' : TokenKind} (hk : k.isWord = true) (hk' : k'.isWord = true)
    (hf : ∀ t t', SameToken E t t' → AgreeTo E n d d' (fun _ => False) P v (f t) (f' t'))
    {w : Parse α} (hz : AgreeTo E n d d' moves P v z w) :
    AgreeTo E n d d' moves P v
      (do if (← Parse.check k) && (← Parse.checkSecond k') then
            let t ← Parse.advance
            let _ ← Parse.advance
            f t
          else z)
      (do if (← Parse.check k) && (← Parse.checkSecond k') then
            let t ← Parse.advance
            let _ ← Parse.advance
            f' t
          else w) := by
  let second (c : Cursor) : Bool := (c.rest.drop 1).head?.any (·.kind == k')
  have htwo {c : Cursor} (hc : c.Ends) (hgo : (c.at? k && second c) = true) :
      (∀ f : Token → Parse α, (Parse.advance >>= fun t => Parse.advance >>= fun _ => f t) c =
        f c.next c.step.step) ∧ c.Gets c.step.step d d True := by
    obtain ⟨hfirst, hsecond⟩ := Bool.and_eq_true_iff.mp hgo
    have hword : c.next.kind.isWord = true := by
      rwa [show c.next.kind = k from beq_iff_eq.mp hfirst]
    have hget := hc.gets (d := d) (.word hword (.nil d))
    have hnext : c.next.kind ≠ .eof := fun heof => by rw [heof] at hword; cases hword
    simp only [second, (hc.step hnext).2, singleton_append, drop_one, tail_cons]
      at hsecond
    obtain ⟨u, hu, hkind⟩ := (Option.any_eq_true _ _).mp hsecond
    have hword' : c.step.next.kind.isWord = true := by
      rw [Cursor.next, headD_eq_head?_getD, hu]
      exact (beq_iff_eq.mp hkind).symm ▸ hk'
    have hget' := (hget.ends hc).gets (d := d) (.word hword' (.nil d))
    refine ⟨fun f => ?_, (hget.trans hget').mono fun _ => .inl trivial⟩
    rw [advance_apply hc hnext, advance_apply (hget.ends hc)]
    exact fun heof => by rw [heof] at hword'; cases hword'
  have hsame {c c' : Cursor} (hc : c.Twin E c') :
      (c.at? k && second c) = (c'.at? k && second c') := by
    rw [hc.at? k, show second c = second c' from hc.second k']
  refine .branch (fun _ => rfl) (fun _ => rfl) (fun _ _ hc _ _ => hsame hc)
    (fun c c' hnext hgo => ?_) hz
  refine ⟨?_, ?_⟩
  · rintro _ a c₁ hc rfl ha
    obtain ⟨hstep, hget⟩ := htwo hc hgo
    obtain ⟨hmore, hfine⟩ := (hf _ _ (.refl trivial)).gets _ a c₁ (hget.ends hc) trivial ha
    exact ⟨(hget.trans hmore).mono fun _ => .inl trivial, hfine⟩
  · rintro _ _ hc rfl rfl hn
    obtain ⟨hstep, hget⟩ := htwo hc.ends hgo
    rw [hstep, (htwo hc.right (hsame hc ▸ hgo)).1]
    exact (hf _ _ hnext).runs _ _ hc.step.step trivial trivial
      (Nat.lt_of_le_of_lt hget.weight_le hn)

theorem accept_bind {f f' : Bool → Parse α} (hk : ∀ t, t.kind = k → Nests d [t] d')
    (htrue : AgreeTo E n d' d'' (fun _ => False) P v (f true) (f' true))
    (hfalse : AgreeFrom E p q n d d'' moves P v (f false) (f' false)) :
    AgreeFrom E p q n d d'' moves P v (Parse.accept k >>= f) (Parse.accept k >>= f') := by
  have hgo (f : Bool → Parse α) (c : Cursor) : (Parse.accept k >>= f) c =
      (if c.at? k then Parse.advance >>= fun _ => f true else f false) c := by
    rw [bind_apply, Parse.accept]
    cases c.at? k <;> rfl
  refine .branch (hgo f) (hgo f') (fun _ _ hc _ _ => hc.at? k) (fun c c' _ hat => ?_) hfalse
  exact .advance_same (fun _ => congrArg _) (fun _ => congrArg _) (hk _ (beq_iff_eq.mp hat)) htrue

theorem accept (hk : k.isWord = true) : AgreeFrom E p q n d d (fun _ => False) (fun _ => True) id
    (Parse.accept k) (Parse.accept k) := by
  have hbind : AgreeFrom E p q n d d (fun _ => False) (fun _ => True) id
      (Parse.accept k >>= Pure.pure) (Parse.accept k >>= Pure.pure) :=
    .accept_bind (fun t ht => .word (ht ▸ hk) (.nil d)) (.pure id (.refl trivial))
      (.pure id (.refl trivial))
  rwa [bind_pure] at hbind

theorem endStatement : AgreeFrom E p q n d d (fun _ => False) (fun _ => True) id
    Parse.endStatement Parse.endStatement :=
  (accept rfl).bind_same fun _ => .pure id (.refl trivial)

theorem expect (hk : ∀ t, t.kind = k → Nests d [t] d') (what : String) :
    AgreeFrom E p q n d d' (fun _ => True) (fun _ => True) Token.word (Parse.expect k what)
      (Parse.expect k what) := by
  have hgo (c : Cursor) : Parse.expect k what c = (if c.at? k then Parse.advance >>= Pure.pure else
      Parse.peek >>= fun t => Parse.fail (.expected what) t.span) c := by
    rw [Parse.expect, check_bind_apply]
    cases c.at? k <;> rfl
  refine .branch hgo hgo (fun _ _ hc _ _ => hc.at? k) (fun c c' hnext hat => ?_) ?_
  · exact .advance_same (fun _ => congrArg _) (fun _ => congrArg _) (hk _ (beq_iff_eq.mp hat))
      (.pure id hnext)
  · exact peek_bind fun t t' ht => .fail (by simp) fun e => by rw [ht.same e]

theorem expect_word (hk : k.isWord = true) (what : String) :
    AgreeFrom E p q n d d (fun _ => True) (fun _ => True) Token.word (Parse.expect k what)
      (Parse.expect k what) :=
  .expect (fun _ ht => .word (ht ▸ hk) (.nil d)) what

theorem expect_opening (what : String) :
    AgreeFrom E p q n d (d + 1) (fun _ => True) (fun _ => True) Token.word
      (Parse.expect .lBrace what) (Parse.expect .lBrace what) :=
  .expect (fun _ ht => .opening ht (.nil _)) what

theorem expect_closing (what : String) :
    AgreeFrom E p q n (d + 1) d (fun _ => True) (fun _ => True) Token.word
      (Parse.expect .rBrace what) (Parse.expect .rBrace what) :=
  .expect (fun _ ht => .closing ht (.nil _)) what

end Tokens

/-! ### Loops -/

section Loops

variable {close : TokenKind} {I : List α → Prop} {N : List α → Prop} {item item' : List α → Parse α}

theorem rounds_bind {f f' : Nat → Parse α}
    (h : ∀ k, AgreeFrom E (fun c => c.rest.length < k) (fun _ => True) n d d moves P v
      (f k) (f' k)) :
    AgreeTo E n d d moves P v (rounds >>= f) (rounds >>= f') := by
  refine ⟨fun c a c₁ hc _ ha => (h _).gets c a c₁ hc (Nat.lt_succ_self _) ha,
    fun c c' hc _ _ hn => ?_⟩
  have hrounds : (rounds >>= f') c' = f' (c.rest.length + 1) c' := by
    rw [hc.length]
    rfl
  rw [hrounds]
  exact (h _).runs c c' hc (Nat.lt_succ_self _) trivial hn

theorem no_rounds : AgreeFrom E (fun c => c.rest.length < 0) q n d d' moves P v x y :=
  ⟨fun _ _ _ _ hlt => absurd hlt (Nat.not_lt_zero _),
    fun _ _ _ hlt => absurd hlt (Nat.not_lt_zero _)⟩

theorem round {k : Nat} {N : β → Prop} (hx : AgreeTo E n d d moves P v x y)
    (hmore : ∀ a b, Alike E P v a b → moves a →
      AgreeFrom E (fun c => c.rest.length < k) (fun _ => True) n d d N Q w (f a) (f' b))
    (hstop : ∀ a b, Alike E P v a b → ¬ moves a → AgreeTo E n d d N Q w (f a) (f' b))
    (hM : ∀ a b, M b → moves a ∨ N b) :
    AgreeFrom E (fun c => c.rest.length < k + 1) (fun _ => True) n d d M Q w
      (x >>= f) (y >>= f') := by
  refine bind_from (m := n) (s := fun a c => moves a → c.rest.length < k) hx.here ?_
    (fun a b hab => ?_) hM
  · intro c a c₁ hlength hget
    refine ⟨fun hm => ?_, Nat.lt_of_le_of_lt hget.weight_le⟩
    have hlt := hget.length_lt hm
    omega
  · by_cases hm : moves a
    · exact (hmore a b hab hm).from_ (fun _ hs => hs hm) fun _ => id
    · exact (hstop a b hab hm).here

theorem comma {k : Nat}
    (h : AgreeFrom E (fun c => c.rest.length < k) (fun _ => True) n d d (fun _ => False) P v x y)
    (hab : Alike E P v a b) :
    AgreeFrom E (fun c => c.rest.length < k) (fun _ => True) n d d (fun _ => False) P v
      (do if ← Parse.accept .comma then x else Pure.pure a)
      (do if ← Parse.accept .comma then y else Pure.pure b) := by
  refine (AgreeFrom.accept rfl).bind_from (m := n) (s := fun _ c => c.rest.length < k) ?_ ?_
    fun _ _ => .inr
  · exact fun c a c₁ hlt hget =>
      ⟨Nat.lt_of_le_of_lt hget.length_le hlt, Nat.lt_of_le_of_lt hget.weight_le⟩
  · rintro a b ⟨-, rfl, -⟩
    exact .ite (fun _ => h) fun _ => .pure id hab

theorem collecting {loop loop' : Nat → List α → Parse (List α)} (h0 : I [])
    (h : ∀ k, (∀ done done', Alike E I (List.map v) done done' →
        AgreeFrom E (fun c => c.rest.length < k) (fun _ => True) n d d N (fun xs => I xs.reverse)
          (List.map v) (loop k done) (loop' k done')) →
      ∀ done done', Alike E I (List.map v) done done' →
        AgreeFrom E (fun c => c.rest.length < k + 1) (fun _ => True) n d d N
          (fun xs => I xs.reverse) (List.map v) (loop (k + 1) done) (loop' (k + 1) done')) :
    AgreeTo E n d d N (fun xs => I xs.reverse) (List.map v) (rounds >>= fun k => loop k [])
      (rounds >>= fun k => loop' k []) := by
  refine .rounds_bind fun k => ?_
  suffices hloop : ∀ done done', Alike E I (List.map v) done done' →
      AgreeFrom E (fun c => c.rest.length < k) (fun _ => True) n d d N (fun xs => I xs.reverse)
        (List.map v) (loop k done) (loop' k done') from hloop [] [] (.refl h0)
  induction k with
  | zero => exact fun _ _ _ => .no_rounds
  | succ k ih => exact h k ih

theorem all {x y : Parse (List α)}
    (h : AgreeTo E n d d N (fun xs => ∀ a ∈ xs.reverse, P a) (List.map v) x y) :
    AgreeTo E n d d N (fun xs => ∀ a ∈ xs, P a) (List.map v) x y :=
  h.coarsen fun _ hxs a ha => hxs a (mem_reverse.mpr ha)

theorem itemsUntil {item item' : Parse α} (h : Advances E n d P v item item') :
    Agree E n d (fun xs => ∀ a ∈ xs, P a) (List.map v) (Parse.itemsUntil close item)
      (Parse.itemsUntil close item') := by
  refine all (collecting (I := fun xs => ∀ a ∈ xs, P a) (by simp) fun k ih done done' hdone => ?_)
  refine check_bind fun _ => check_bind fun _ => .ite (fun _ => .pure id hdone.reverse) fun _ => ?_
  refine (h.round (fun a b hab _ => ih _ _ ?_) (fun _ _ _ hstop => absurd trivial hstop)
    fun _ _ => .inr).from_ (fun _ hp => hp.2.2) fun _ => id
  exact .cons ⟨forall_mem_cons.mpr ⟨hab.fine, hdone.fine⟩, hab.view, hab.same⟩ hdone

theorem trailing {item item' : Parse α} (h : Advances E n d P v item item') :
    Agree E n d (fun xs => ∀ a ∈ xs, P a) (List.map v) (Parse.trailing close item)
      (Parse.trailing close item') := by
  refine all (collecting (I := fun xs => ∀ a ∈ xs, P a) (by simp) fun k ih done done' hdone => ?_)
  refine check_bind fun _ => check_bind fun _ => .ite (fun _ => .pure id hdone.reverse) fun _ => ?_
  refine (h.round (fun a b hab _ => ?_) (fun _ _ _ hstop => absurd trivial hstop)
    fun _ _ => .inr).from_ (fun _ hp => hp.2.2) fun _ => id
  have hmore := Alike.cons (I := fun xs => ∀ a ∈ xs, P a)
    ⟨forall_mem_cons.mpr ⟨hab.fine, hdone.fine⟩, hab.view, hab.same⟩ hdone
  exact (ih _ _ hmore).comma hmore.reverse

theorem separated (h0 : I [])
    (h : ∀ done done', Same E (List.map v) done done' →
      Advances E n d (fun a => I done → I (a :: done)) v (item done) (item' done')) :
    Advances E n d (fun xs => I xs.reverse) (List.map v) (Parse.separated item)
      (Parse.separated item') := by
  refine collecting h0 fun k ih done done' hdone => ?_
  have hitem := (h done done' hdone.any).coarsen fun _ ha => ha hdone.fine
  refine hitem.round (N := fun _ => False) (fun a b hab _ => ?_)
    (fun _ _ _ hstop => absurd trivial hstop) fun _ _ _ => .inl trivial
  have hmore := Alike.cons hab hdone
  exact ((ih _ _ hmore).weaken fun _ => False.elim).comma hmore.reverse

theorem separated_all (h : ∀ done done', Advances E n d P v (item done) (item' done')) :
    Advances E n d (fun xs => ∀ a ∈ xs, P a) (List.map v) (Parse.separated item)
      (Parse.separated item') :=
  all (separated (I := fun xs => ∀ a ∈ xs, P a) (by simp) fun done done' _ =>
    (h done done').coarsen fun _ ha hdone => forall_mem_cons.mpr ⟨ha, hdone⟩)

theorem extending {value value' : α} {extend extend' : α → Parse (Option α)}
    (h0 : Alike E P v value value')
    (h : ∀ a b, Same E v a b → Extends E n d (fun e => P a → P e) v (extend a) (extend' b)) :
    Agree E n d P v (Parse.extending value extend) (Parse.extending value' extend') := by
  have hround {a b : α} (hab : Alike E P v a b) : Extends E n d P v (extend a) (extend' b) :=
    (h a b hab.any).coarsen fun _ hr e he => hr e he hab.fine
  have loop : ∀ k a b, Alike E P v a b → AgreeFrom E (fun c => c.rest.length < k) (fun _ => True)
      n d d (fun _ => False) P v (extendLoop extend k a) (extendLoop extend' k b) := by
    intro k
    induction k with
    | zero => exact fun _ _ _ => .no_rounds
    | succ k ih =>
      intro a b hab
      refine (hround hab).round (fun r r' hr hsome => ?_) (fun r r' hr hnone => ?_) fun _ _ => .inr
      · rcases hr.option with ⟨rfl, rfl⟩ | ⟨l, l', rfl, rfl, hl⟩
        · cases hsome
        · exact ih l l' hl
      · rcases hr.option with ⟨rfl, rfl⟩ | ⟨l, l', rfl, rfl, hl⟩
        · exact .pure id hab
        · exact absurd rfl hnone
  refine (hround h0).bind fun r r' hr => ?_
  rcases hr.option with ⟨rfl, rfl⟩ | ⟨l, l', rfl, rfl, hl⟩
  · exact .pure id h0
  · exact .rounds_bind fun k => loop k l l' hl

end Loops

end AgreeFrom

end Parse

end ClassScript
