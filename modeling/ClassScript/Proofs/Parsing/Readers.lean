import ClassScript.Proofs.Parsing.Phrase

/-!
# Readers on Known Words

What a reader makes of some words depends on the word after them, so `Reads` quantifies over
everything that follows and only restricts the kind of the next token. `Loops` forgets how many
rounds a loop has left: a result is what the loop gives from some value on, with enough rounds.
-/

namespace ClassScript

open List

namespace Parse

variable {α β : Type} {c : Cursor} {line : Nat} {words : List Lexeme}

@[simp]
theorem pure_apply (a : α) (c : Cursor) : (pure a : Parse α) c = .ok (a, c) := rfl

@[simp]
theorem bind_apply (x : Parse α) (f : α → Parse β) (c : Cursor) :
    (x >>= f) c = match x c with
      | .ok r => f r.1 r.2
      | .error e => .error e := by
  change (x c >>= fun r => f r.1 r.2) = _
  cases x c <;> rfl

@[simp]
theorem map_apply (f : α → β) (x : Parse α) (c : Cursor) :
    (f <$> x) c = match x c with
      | .ok r => .ok (f r.1, r.2)
      | .error e => .error e := by
  change (x c >>= fun r => pure (f r.1, r.2)) = _
  cases x c <;> rfl

theorem bind_of_ok {x : Parse α} {f : α → Parse β} {d : Cursor} {a : α}
    (hx : x c = .ok (a, d)) : (x >>= f) c = f a d := by
  rw [bind_apply, hx]

section Tokens

variable {before t : Token} {rest : List Token} {k : TokenKind}

@[simp]
theorem peek_cons : peek ⟨before, t :: rest⟩ = .ok (t, ⟨before, t :: rest⟩) := rfl

@[simp]
theorem last_cons : last ⟨before, t :: rest⟩ = .ok (before, ⟨before, t :: rest⟩) := rfl

@[simp]
theorem check_cons : check k ⟨before, t :: rest⟩ = .ok (t.kind == k, ⟨before, t :: rest⟩) := rfl

@[simp]
theorem advance_cons (ht : t.kind ≠ .eof) : advance ⟨before, t :: rest⟩ = .ok (t, ⟨t, rest⟩) := by
  unfold advance Cursor.step
  simp only [if_neg ht]

@[simp]
theorem accept_of_eq (ht : t.kind = k) (hk : k ≠ .eof) :
    accept k ⟨before, t :: rest⟩ = .ok (true, ⟨t, rest⟩) := by
  have hat : Cursor.at? ⟨before, t :: rest⟩ k = true := beq_iff_eq.mpr ht
  unfold accept Cursor.step
  simp_all

@[simp]
theorem accept_of_ne (ht : t.kind ≠ k) :
    accept k ⟨before, t :: rest⟩ = .ok (false, ⟨before, t :: rest⟩) := by
  have hat : ¬ Cursor.at? ⟨before, t :: rest⟩ k = true := fun h => ht (beq_iff_eq.mp h)
  unfold accept
  rw [if_neg hat]

@[simp]
theorem expect_of_eq (what : String) (ht : t.kind = k) (hk : k ≠ .eof) :
    expect k what ⟨before, t :: rest⟩ = .ok (t, ⟨t, rest⟩) := by
  unfold expect
  rw [bind_of_ok check_cons, if_pos (beq_iff_eq.mpr ht)]
  exact advance_cons (ht ▸ hk)

end Tokens

/-- A result is what extending a value gives from some place on, with enough rounds left. -/
inductive Loops (extend : α → Parse (Option α)) (value : α) (c : Cursor) :
    Except SyntaxError (α × Cursor) → Prop
  | start : Loops extend value c (extending value extend c)
  | round {n : Nat} (hn : c.rest.length < n) : Loops extend value c (extendLoop extend n value c)

namespace Loops

variable {extend : α → Parse (Option α)} {value longer : α} {c c' : Cursor}
  {r : Except SyntaxError (α × Cursor)}

theorem next (h : Loops extend value c r) (hx : extend value c = .ok (some longer, c'))
    (hlt : c'.rest.length < c.rest.length) : Loops extend longer c' r := by
  cases h with
  | start =>
    -- Rounds are counted after the first extension, one for each token left.
    have hgo : extending value extend c = extendLoop extend (c'.rest.length + 1) longer c' := by
      unfold extending
      rw [bind_of_ok hx]
      rfl
    rw [hgo]
    exact .round (Nat.lt_succ_self _)
  | @round n hn =>
    obtain ⟨k, rfl⟩ : ∃ k, n = k + 1 := ⟨n - 1, by omega⟩
    have hgo : extendLoop extend (k + 1) value c = extendLoop extend k longer c' := by
      rw [extendLoop, bind_of_ok hx]
    rw [hgo]
    exact .round (by omega)

theorem stop (h : Loops extend value c r) (hx : extend value c = .ok (none, c')) :
    r = .ok (value, c') := by
  cases h with
  | start =>
    unfold extending
    rw [bind_of_ok hx]
    rfl
  | @round n hn =>
    obtain ⟨k, rfl⟩ : ∃ k, n = k + 1 := ⟨n - 1, by omega⟩
    rw [extendLoop, bind_of_ok hx]
    rfl

end Loops

/-- A reader takes tokens that spell some words and gives something that means them, whatever comes
    after a next token of the right kind. -/
def Reads (line : Nat) (reader : Parse α) (words : List Lexeme) (stops : TokenKind → Prop)
    (Means : α → Prop) : Prop :=
  ∀ (tokens : List Token) (before next : Token) (rest : List Token),
    Spells line tokens words → before.span.line = line → stops next.kind →
      ∃ a last, Means a ∧ last.span.line = line ∧
        reader ⟨before, tokens ++ next :: rest⟩ = .ok (a, ⟨last, next :: rest⟩)

theorem Reads.mono {reader : Parse α} {stops stops' : TokenKind → Prop} {Means : α → Prop}
    (h : Reads line reader words stops Means) (hs : ∀ k, stops' k → stops k) :
    Reads line reader words stops' Means :=
  fun tokens before next rest hspells hbefore hnext =>
    h tokens before next rest hspells hbefore (hs _ hnext)

theorem begins_next {tokens : List Token}
    (hspells : Spells line tokens words) (h : Begins words) (before : Token)
    (more : List Token) : (Cursor.next ⟨before, tokens ++ more⟩).kind.begins = true := by
  obtain ⟨l, rest, rfl, hl⟩ := h
  obtain ⟨t, ts, rfl, rfl, -, -⟩ := hspells.cons_inv
  rw [Token.lexeme_kind] at hl
  exact hl

section CommaLoop

variable {line : Nat} {close : TokenKind} {words : β → List Lexeme} {Means : β → α → Prop}
  {xs : List β}

variable {item : Parse α}

/-- The items before are known to each, so the induction is on the segments still to be read, for
    every way to cut the list. -/
theorem commaLoop_reads (loop : Nat → List α → Parse (List α)) (item : List α → Parse α)
    (hclose : close ≠ .comma)
    (hround : ∀ n done c, c.next.kind.begins = true → loop (n + 1) done c = (do
      let done := (← item done) :: done
      if ← accept .comma then loop n done else return done.reverse : Parse (List α)) c)
    (hitem : ∀ pre x post, xs = pre ++ x :: post → ∀ done, List.Forall₂ Means pre done.reverse →
      Reads line (item done) (words x) (fun k => k = .comma ∨ k = close) (Means x))
    (hbegins : ∀ x ∈ xs, Begins (words x)) (post : List β) :
    ∀ pre x, xs = pre ++ x :: post → ∀ n done, List.Forall₂ Means pre done.reverse →
      ∀ tokens before next rest, Spells line tokens (commaSeparated ((x :: post).map words)) →
        before.span.line = line → next.kind = close → (tokens ++ next :: rest).length < n →
        ∃ as last, List.Forall₂ Means xs as ∧ last.span.line = line ∧
          loop n done ⟨before, tokens ++ next :: rest⟩ = .ok (as, ⟨last, next :: rest⟩) := by
  induction post with
  | nil =>
    intro pre x hxs n done hdone tokens before next rest hspells hbefore hnext hn
    obtain ⟨k, rfl⟩ : ∃ k, n = k + 1 := ⟨n - 1, by omega⟩
    rw [map_cons, map_nil, commaSeparated, flatMap_nil, append_nil] at hspells
    obtain ⟨a, last, ha, hlast, hread⟩ := hitem pre x [] hxs done hdone tokens before next rest
      hspells hbefore (.inr hnext)
    refine ⟨(a :: done).reverse, last, ?_, hlast, ?_⟩
    · rw [hxs, reverse_cons]
      exact rel_append hdone (.cons ha .nil)
    · have hb := begins_next hspells (hbegins x (by simp [hxs])) before (next :: rest)
      rw [hround k done _ hb, bind_of_ok hread]
      rw [bind_of_ok (accept_of_ne (hnext ▸ hclose))]
      rfl
  | cons y post ih =>
    intro pre x hxs n done hdone tokens before next rest hspells hbefore hnext hn
    obtain ⟨k, rfl⟩ : ∃ k, n = k + 1 := ⟨n - 1, by omega⟩
    obtain ⟨ts, us, rfl, hts, hus⟩ := hspells.append_inv
    obtain ⟨comma, vs, rfl, hcomma, hline, hvs⟩ := hus.cons_inv
    have hkind : comma.kind = .comma := by rw [← comma.lexeme_kind, hcomma, Lexeme.mark]
    have hcut : ts ++ comma :: vs ++ next :: rest = ts ++ comma :: (vs ++ next :: rest) := by simp
    rw [hcut] at hn ⊢
    obtain ⟨a, last, ha, -, hread⟩ := hitem pre x (y :: post) hxs done hdone ts before comma
      (vs ++ next :: rest) hts hbefore (.inl hkind)
    have hxs' : xs = (pre ++ [x]) ++ y :: post := by grind
    have hdone' : List.Forall₂ Means (pre ++ [x]) (a :: done).reverse := by
      rw [reverse_cons]
      exact rel_append hdone (.cons ha .nil)
    -- The comma alone makes up for the round.
    have hk : (vs ++ next :: rest).length < k := by
      rw [length_append, length_cons] at hn
      omega
    obtain ⟨as, last', has, hlast', hloop⟩ := ih (pre ++ [x]) y hxs' k (a :: done) hdone' vs comma
      next rest hvs hline hnext hk
    refine ⟨as, last', has, hlast', ?_⟩
    have hb := begins_next hts (hbegins x (by simp [hxs])) before (comma :: (vs ++ next :: rest))
    rw [hround k done _ hb, bind_of_ok hread]
    rw [bind_of_ok (accept_of_eq hkind (by decide))]
    exact hloop

theorem trailingLoop_of_close {before next : Token} {rest : List Token}
    (h : next.kind = close) (n : Nat) (done : List α) :
    trailingLoop close item (n + 1) done ⟨before, next :: rest⟩ =
      .ok (done.reverse, ⟨before, next :: rest⟩) := by
  rw [trailingLoop, bind_of_ok check_cons, beq_iff_eq.mpr h]
  rfl

theorem trailingLoop_of_begins (hopen : close.begins = false) (n : Nat)
    (done : List α) (hc : c.next.kind.begins = true) :
    trailingLoop close item (n + 1) done c = (do
      let done := (← item) :: done
      if ← accept .comma then trailingLoop close item n done else return done.reverse :
        Parse (List α)) c := by
  have hne : (c.next.kind == close) = false := beq_false_of_ne (TokenKind.ne_of_begins hc hopen)
  have heof : (c.next.kind == .eof) = false := beq_false_of_ne (TokenKind.ne_of_begins hc rfl)
  have h₁ : check close c = .ok (false, c) := by rw [check, Cursor.at?, hne]
  have h₂ : check .eof c = .ok (false, c) := by rw [check, Cursor.at?, heof]
  rw [trailingLoop, bind_of_ok h₁, bind_of_ok h₂]
  rfl

theorem reads_trailing (hclose : close ≠ .comma) (hopen : close.begins = false)
    (hitem : ∀ x ∈ xs, Reads line item (words x) (fun k => k = .comma ∨ k = close) (Means x))
    (hbegins : ∀ x ∈ xs, Begins (words x)) :
    Reads line (trailing close item) (commaSeparated (xs.map words)) (· = close)
      (List.Forall₂ Means xs) := by
  intro tokens before next rest hspells hbefore hnext
  cases xs with
  | nil =>
    rw [hspells.nil_inv]
    exact ⟨[], before, .nil, hbefore, trailingLoop_of_close hnext _ []⟩
  | cons x post =>
    refine commaLoop_reads (trailingLoop close item) (fun _ => item) hclose
      (fun n done c hc => trailingLoop_of_begins hopen n done hc) ?_ hbegins post [] x rfl _ []
      .nil tokens before next rest hspells hbefore hnext (Nat.lt_succ_self _)
    grind

theorem reads_separated {item : List α → Parse α} (hclose : close ≠ .comma) (hne : xs ≠ [])
    (hitem : ∀ pre x post, xs = pre ++ x :: post → ∀ done, List.Forall₂ Means pre done.reverse →
      Reads line (item done) (words x) (fun k => k = .comma ∨ k = close) (Means x))
    (hbegins : ∀ x ∈ xs, Begins (words x)) :
    Reads line (separated item) (commaSeparated (xs.map words)) (· = close)
      (List.Forall₂ Means xs) := by
  intro tokens before next rest hspells hbefore hnext
  cases xs with
  | nil => exact absurd rfl hne
  | cons x post =>
    exact commaLoop_reads (separatedLoop item) item hclose (fun _ _ _ _ => rfl) hitem hbegins
      post [] x rfl _ [] .nil tokens before next rest hspells hbefore hnext (Nat.lt_succ_self _)

end CommaLoop

end Parse

end ClassScript
