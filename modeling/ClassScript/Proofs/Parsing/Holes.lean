import ClassScript.Proofs.Lexing.Spelling
import ClassScript.Proofs.Parsing.Termination

/-!
# An Expression in a Hole

What finds the end of the literal counts braces and steps over nested texts; what finds the end of
a hole counts braces too, but every quote begins or ends a text for it. Both have as many braces
open behind an expression as in front, the second one as long as no text in it has a quote.
-/

namespace ClassScript

open List Grammar Interpolation

variable {value : Expr} {e : String} {line : Nat}

namespace Lexer

variable {S : Nat → List Char → Option (List Char × List Char)} {d d' d'' : Nat}
  {cs ds : List Char}

variable {value taken rest : List Char}

def Passes (S : Nat → List Char → Option (List Char × List Char)) (d : Nat) (cs : List Char)
    (d' : Nat) : Prop :=
  ∀ rest, S d (cs ++ rest) = (S d' rest).map (taking cs)

theorem Passes.nil : Passes S d [] d := by
  intro rest
  have hnone : taking [] = id := rfl
  rw [hnone, Option.map_id]
  rfl

theorem Passes.append (h : Passes S d cs d') (h' : Passes S d' ds d'') :
    Passes S d (cs ++ ds) d'' := by
  intro rest
  rw [append_assoc, h, h', map_taking_taking]

structure CountsBraces (S : Nat → List Char → Option (List Char × List Char)) : Prop where
  plain : ∀ {c}, isPlain c = true → ∀ d, Passes S d [c] d
  opening : ∀ d, Passes S d ['\x7b'] (d + 1)
  closing : ∀ d, Passes S (d + 1) ['\x7d'] d

namespace CountsBraces

theorem plains (hS : CountsBraces S) (hcs : ∀ c ∈ cs, isPlain c = true) (d : Nat) :
    Passes S d cs d := by
  induction cs with
  | nil => exact .nil
  | cons c cs ih =>
    obtain ⟨hc, hcs⟩ := forall_mem_cons.mp hcs
    exact (hS.plain hc d).append (ih hcs)

section

variable (hS : CountsBraces S) {P : List Char → Prop}
  (hstring : ∀ {value taken rest}, stringBody (taken ++ rest) = some (value, taken, rest) →
    P value → ∀ d, Passes S d ('"' :: taken) d)
include hS hstring

theorem token {s : Scanned} (hs : s.Spelled) (hinterpolated : s.kind ≠ .interpolatedString)
    (htext : s.kind = .string → P s.text) {t : Token} (ht : t.kind = s.kind)
    (hnests : Nests d [t] d') : Passes S d s.taken d' := by
  cases hs with
  | plain hkind htaken =>
    cases hnests with
    | word _ hnil => cases hnil; exact hS.plains htaken d
    | opening hopen _ => exact absurd (ht.symm.trans hopen) hkind.1
    | closing hshut _ => exact absurd (ht.symm.trans hshut) hkind.2
  | opening hkind htaken =>
    rw [htaken]
    cases hnests with
    | word hword _ => rw [ht, hkind] at hword; cases hword
    | opening _ hnil => cases hnil; exact hS.opening d
    | closing hshut _ => rw [ht, hkind] at hshut; cases hshut
  | closing hkind htaken =>
    rw [htaken]
    cases hnests with
    | word hword _ => rw [ht, hkind] at hword; cases hword
    | opening hopen _ => rw [ht, hkind] at hopen; cases hopen
    | closing _ hnil => cases hnil; exact hS.closing _
  | string hkind taken htaken hbody =>
    rw [htaken]
    cases hnests with
    | word _ hnil => cases hnil; exact hstring hbody (htext hkind) d
    | opening hopen _ => rw [ht, hkind] at hopen; cases hopen
    | closing hshut _ => rw [ht, hkind] at hshut; cases hshut
  | interpolated hkind => exact absurd hkind hinterpolated
  | unknown hkind =>
    cases hnests with
    | word hword _ => rw [ht, hkind] at hword; cases hword
    | opening hopen _ => rw [ht, hkind] at hopen; cases hopen
    | closing hshut _ => rw [ht, hkind] at hshut; cases hshut

theorem tokens {n : Nat} {m : Mark} {words : List Token} {last : Token}
    (hts : tokensFrom n m cs = .ok (words ++ [last]))
    (hgaps : ∀ gap ∈ gapsFrom n cs, ∀ c ∈ gap, Text.isBlank c = true)
    (hinterpolated : ∀ t ∈ words, t.kind ≠ .interpolatedString)
    (htexts : ∀ t ∈ words, t.kind = .string → P t.text.toList) (hnests : Nests d words d') :
    Passes S d cs d' := by
  induction n generalizing m cs words d with
  | zero => cases hts
  | succ n ih =>
    obtain ⟨gap, rest, hgap, rfl, _⟩ := trivia_splits cs
    simp only [tokensFrom, gapsFrom, hgap] at hts hgaps
    cases rest with
    | nil =>
      obtain ⟨rfl, _⟩ : words = [] ∧ _ := by simpa [singleton_eq_append_iff] using hts
      cases hnests
      rw [append_nil]
      exact hS.plains (fun c hc => isPlain_of_isBlank (hgaps gap mem_cons_self c hc)) _
    | cons c cs =>
      cases hs : scan c cs with
      | error problem => simp [hs] at hts
      | ok s =>
        cases hmore : tokensFrom n ((m.past gap).past s.taken) s.rest with
        | error e => simp [hs, hmore] at hts
        | ok us =>
          simp only [hs, hmore, Except.ok.injEq] at hts hgaps
          obtain ⟨hblank, hgaps⟩ := forall_mem_cons.mp hgaps
          have hgap : Passes S d gap d := hS.plains (fun c hc => isPlain_of_isBlank (hblank c hc)) d
          cases words with
          | nil =>
            obtain ⟨words, eof, hus, _⟩ := (tokensFrom_covers hmore).ends
            simp [hus] at hts
          | cons t words =>
            obtain ⟨rfl, rfl⟩ := List.cons.inj hts
            obtain ⟨hkind, hinterpolated⟩ := forall_mem_cons.mp hinterpolated
            obtain ⟨htext, htexts⟩ := forall_mem_cons.mp htexts
            obtain ⟨e, hfirst, hnests⟩ := hnests.cons_inv
            rw [← (scan_reads hs).split]
            refine hgap.append (.append ?_ (ih hmore hgaps hinterpolated htexts hnests))
            exact hS.token hstring (scan_spelled hs) hkind (by simpa using htext) rfl hfirst

end

end CountsBraces

theorem countsBraces_interpolatedBody : CountsBraces fun d => interpolatedBody (d + 1) false where
  plain hc d rest := by
    obtain ⟨hquote, hescape, hopen, hshut⟩ := isPlain_iff.mp hc
    dsimp only
    rw [singleton_append, interpolatedBody_plain hquote hescape, if_neg hopen, if_neg hshut]
  opening d rest := interpolatedBody_plain (by decide) (by decide) (d + 1) rest
  closing d rest := interpolatedBody_plain (by decide) (by decide) (d + 2) rest

theorem interpolatedBody_string
    (h : stringBody cs = some (value, taken, rest)) (d : Nat) (more : List Char) :
    interpolatedBody d true (taken ++ more) =
      (interpolatedBody d false more).map (taking taken) := by
  fun_induction stringBody cs generalizing value taken rest with
  | case1 => cases h
  | case2 =>
    cases h
    exact interpolatedBody_close d more
  | case3 e cs ih =>
    obtain ⟨⟨value, taken, rest⟩, hbody, ⟨⟩⟩ := Option.map_eq_some_iff.mp h
    rw [cons_append, cons_append, interpolatedBody_escape, ih hbody, map_taking_taking]
    rfl
  | case4 c cs hquote hescape ih =>
    obtain ⟨⟨value, taken, rest⟩, hbody, ⟨⟩⟩ := Option.map_eq_some_iff.mp h
    -- A backslash has something behind it, since the text has an end.
    have hback : c ≠ '\\' := by
      rintro rfl
      cases cs with
      | nil => cases hbody
      | cons e cs => exact hescape e cs rfl rfl
    rw [cons_append, interpolatedBody_quoted hquote hback, ih hbody, map_taking_taking]
    rfl

theorem passes_string (h : stringBody (taken ++ rest) = some (value, taken, rest)) (d : Nat) :
    Passes (fun d => interpolatedBody (d + 1) false) d ('"' :: taken) d := by
  intro more
  dsimp only
  rw [cons_append, interpolatedBody_open, interpolatedBody_string h, map_taking_taking]
  rfl

end Lexer

namespace Interpolation

variable {d : Nat} {q : Bool} {c : Char} {cs : List Char}

open Lexer

variable {value taken rest : List Char}

theorem holeSource_cons (h : c ≠ '\x7d' ∨ q = true ∨ d ≠ 0)
    (cs : List Char) : holeSource d q (c :: cs) =
      (holeSource (if q then d else if c = '\x7b' then d + 1 else if c = '\x7d' then d - 1 else d)
        (if c = '"' then !q else q) cs).map (taking [c]) := by
  rw [holeSource]
  grind

theorem holeSource_quoted (hc : c ≠ '"') (d : Nat) (cs : List Char) :
    holeSource d true (c :: cs) = (holeSource d true cs).map (taking [c]) := by
  rw [holeSource_cons (.inr (.inl rfl)), if_neg hc]
  rfl

theorem countsBraces_holeSource : CountsBraces fun d => holeSource d false where
  plain hc d rest := by
    obtain ⟨hquote, hescape, hopen, hshut⟩ := isPlain_iff.mp hc
    dsimp only
    rw [singleton_append, holeSource_cons (.inl hshut)]
    simp [hquote, hopen, hshut]
  opening d rest := holeSource_cons (.inl (by decide)) rest
  closing d rest := holeSource_cons (.inr (.inr (Nat.succ_ne_zero d))) rest

theorem holeSource_string
    (h : stringBody cs = some (value, taken, rest)) (hvalue : '"' ∉ value) (d : Nat)
    (more : List Char) :
    holeSource d true (taken ++ more) = (holeSource d false more).map (taking taken) := by
  fun_induction stringBody cs generalizing value taken rest with
  | case1 => cases h
  | case2 =>
    cases h
    exact holeSource_cons (.inr (.inl rfl)) more
  | case3 e cs ih =>
    obtain ⟨⟨value, taken, rest⟩, hbody, ⟨⟩⟩ := Option.map_eq_some_iff.mp h
    rw [mem_cons, not_or] at hvalue
    have he : e ≠ '"' := by
      rintro rfl
      exact hvalue.1 rfl
    rw [cons_append, cons_append, holeSource_quoted (by decide), holeSource_quoted he,
      ih hbody hvalue.2, map_taking_taking, map_taking_taking]
    rfl
  | case4 c cs hquote hescape ih =>
    obtain ⟨⟨value, taken, rest⟩, hbody, ⟨⟩⟩ := Option.map_eq_some_iff.mp h
    rw [mem_cons, not_or] at hvalue
    rw [cons_append, holeSource_quoted hquote, ih hbody hvalue.2, map_taking_taking]
    rfl

theorem passes_string
    (h : stringBody (taken ++ rest) = some (value, taken, rest)) (hvalue : '"' ∉ value) (d : Nat) :
    Passes (fun d => holeSource d false) d ('"' :: taken) d := by
  intro more
  have hopen : holeSource d false ('"' :: (taken ++ more)) =
      (holeSource d true (taken ++ more)).map (taking ['"']) := holeSource_cons (.inl (by decide)) _
  dsimp only
  rw [cons_append, hopen, holeSource_string h hvalue, map_taking_taking]
  rfl

def unquoted : (quoted : Bool) → List Char → List Char
  | _, [] => []
  | q, c :: cs =>
    if c = '"' then unquoted (!q) cs else if q then unquoted q cs else c :: unquoted q cs

/-- All braces are closed behind a text, and none that is not open. Every quote begins or ends a
    text. -/
def Closes (depth : Nat) (quoted : Bool) (cs : List Char) : Prop :=
  (cs.count '"' + quoted.toNat) % 2 = 0 ∧
    (∀ p, p <+: unquoted quoted cs → p.count '\x7d' ≤ depth + p.count '\x7b') ∧
    (unquoted quoted cs).count '\x7d' = depth + (unquoted quoted cs).count '\x7b'

theorem closes_nil : Closes d q [] ↔ q = false ∧ d = 0 := by
  cases q <;> simp [Closes, unquoted, eq_comm]

theorem closes_cons : Closes d q (c :: cs) ↔ ¬ (c = '\x7d' ∧ !q ∧ d = 0) ∧
      Closes (if q then d else if c = '\x7b' then d + 1 else if c = '\x7d' then d - 1 else d)
        (if c = '"' then !q else q) cs := by
  by_cases hquote : c = '"'
  · subst hquote
    have hparity : (cs.count '"' + 1 + q.toNat) % 2 = (cs.count '"' + (!q).toNat) % 2 := by
      cases q with
      | false => rfl
      | true => grind
    simp [Closes, hparity, unquoted]
  cases q with
  | true => simp [Closes, unquoted, hquote]
  | false =>
    have hprefix (u : List Char) (F : List Char → Prop) :
        (∀ p, p <+: c :: u → F p) ↔ F [] ∧ ∀ p, p <+: u → F (c :: p) := by
      simp only [prefix_cons_iff]
      exact ⟨fun h => ⟨h _ (.inl rfl), fun p hp => h _ (.inr ⟨p, rfl, hp⟩)⟩, fun h p hp => by
        rcases hp with rfl | ⟨t, rfl, ht⟩
        · exact h.1
        · exact h.2 t ht⟩
    simp only [Closes, unquoted, hquote, if_false, Bool.false_eq_true, hprefix]
    have hempty := nil_prefix (l := unquoted false cs)
    grind

theorem holeSource_eq_iff (rest : List Char) :
    holeSource d q (cs ++ '\x7d' :: rest) = some (cs, rest) ↔ Closes d q cs := by
  have hlater {c : Char} {cs : List Char} {r : Option (List Char × List Char)} :
      r.map (taking [c]) = some (c :: cs, rest) ↔ r = some (cs, rest) := by
    cases r <;> simp [taking, Prod.ext_iff]
  induction cs generalizing d q with
  | nil =>
    rw [closes_nil, nil_append, holeSource]
    have hempty (r : Option (List Char × List Char)) (c : Char) :
        r.map (taking [c]) ≠ some ([], rest) := by
      cases r <;> simp [taking]
    cases q <;> cases d <;> simp [hempty]
  | cons c cs ih =>
    rw [closes_cons, cons_append, holeSource]
    grind

end Interpolation

theorem Grammar.wholeExpression_ends {g : Grammar} {c c' : Cursor}
    (h : g.wholeExpression c = .ok (value, c')) :
    g.expression c = .ok (value, c') ∧ c'.next.kind = .eof := by
  rw [Grammar.wholeExpression, Parse.bind_apply] at h
  cases hread : g.expression c with
  | error e => rw [hread] at h; cases h
  | ok r =>
    rw [hread] at h
    dsimp only at h
    rw [Parse.check_bind_apply] at h
    split at h
    · next hend =>
      cases h
      exact ⟨rfl, beq_iff_eq.mp hend⟩
    · cases h

theorem parseExpression_nests (h : parseExpression e line = .ok value) :
    ∃ words last, tokenize e line = .ok (words ++ [last]) ∧ Nests 0 words 0 := by
  rw [parseExpression, Grammar.expressionText] at h
  rw [tokenize]
  cases htokens : tokenizeChars e.toList line with
  | error error => rw [htokens] at h; cases h
  | ok tokens =>
    have hc := Lexer.tokensFrom_covers htokens
    have hstart := Cursor.Ends.start hc
    rw [htokens] at h
    dsimp only at h
    cases hr : (Grammar.nested (Grammar.depthFor e.toList)).wholeExpression
        (Cursor.start tokens) with
    | error error => rw [hr] at h; cases h
    | ok r =>
      obtain ⟨hread, heof⟩ := wholeExpression_ends hr
      have hget := (((nested_steady True _).expression 0).gets _ _ _ hstart trivial hread).1
      obtain ⟨u, hu, _⟩ := hget.ends hstart
      obtain ⟨t, more, hrest⟩ := exists_cons_of_ne_nil (ne_nil_of_mem hu)
      obtain ⟨taken, htook, hnests, _⟩ := hget
      have htaken := htook.rest
      obtain ⟨words, last, rfl, hlast, _, _, hwords⟩ := hc.ends
      refine ⟨words, last, rfl, ?_⟩
      have ht : t.kind = .eof := by rwa [Cursor.next, hrest] at heof
      -- Both are what is in front of the end.
      have hfront {ws : List Token} {t : Token} (more : List Token)
          (hws : ∀ w ∈ ws, w.kind ≠ .eof) (ht : t.kind = .eof) :
          (ws ++ t :: more).takeWhile (·.kind != .eof) = ws := by
        rw [takeWhile_append_of_pos (by simpa using hws)]
        simp [ht]
      have hsame : words = taken := by
        rw [← hfront [] hwords hlast, ← hfront more hnests.ne_eof ht, ← hrest]
        exact congrArg _ htaken
      rwa [hsame]

def holeBody (e : String) : String :=
  "\x7b" ++ e ++ "\x7d"

theorem toList_holeBody (e : String) : (holeBody e).toList = '\x7b' :: (e.toList ++ ['\x7d']) := by
  simp [holeBody]

section Hole

variable {e : String} {line : Nat} {words : List Token} {last : Token}
  (htokens : tokenize e line = .ok (words ++ [last]))
  (hgaps : ∀ gap ∈ gaps e, ∀ c ∈ gap, Text.isBlank c = true)
  (hinterpolated : ∀ t ∈ words, t.kind ≠ .interpolatedString) (hnests : Nests 0 words 0)
include htokens hgaps hinterpolated hnests

theorem interpolatedBody_holeBody : Lexer.interpolatedBody 0 false ((holeBody e).toList ++ ['"']) =
    some ((holeBody e).toList, []) := by
  have hpass := Lexer.countsBraces_interpolatedBody.tokens (P := fun _ => True)
    (fun h _ => Lexer.passes_string h) htokens hgaps hinterpolated (fun _ _ _ => trivial) hnests
    ['\x7d', '"']
  rw [toList_holeBody, cons_append, append_assoc, singleton_append,
    Lexer.interpolatedBody_plain (by decide) (by decide), if_pos rfl, hpass]
  rfl

theorem closes_of_tokens (htexts : ∀ t ∈ words, t.kind = .string → '"' ∉ t.text.toList) :
    Interpolation.Closes 0 false e.toList := by
  have hpass := Interpolation.countsBraces_holeSource.tokens (P := fun value => '"' ∉ value)
    Interpolation.passes_string htokens hgaps hinterpolated htexts hnests ['\x7d']
  rw [← holeSource_eq_iff [], hpass]
  simp [Interpolation.holeSource, Lexer.taking]

end Hole

namespace Interpolation

variable {n : Nat} {cs : List Char} {readHole : List Char → Except SyntaxError Expr} {span : Span}
variable {cuts : List Cut}

theorem join_eq_nil {run : List Char} (h : join readHole span run cuts = .ok []) :
    run = [] ∧ cuts = [] := by
  induction cuts generalizing run with
  | nil =>
    refine ⟨?_, rfl⟩
    by_contra hrun
    simp [join, textPart, hrun] at h
  | cons cut cuts ih =>
    cases cut with
    | char c => exact absurd (ih h).1 (cons_ne_nil c run)
    | unterminated => cases h
    | hole source =>
      rw [join] at h
      cases hvalue : readHole source with
      | error e => simp [hvalue] at h
      | ok value =>
        cases hparts : join readHole span [] cuts with
        | error | ok => simp [hvalue, hparts] at h

theorem join_eq_hole {source : List Char}
    (h : join readHole span [] (.hole source :: cuts) = .ok [.hole value]) : cuts = [] := by
  rw [join] at h
  cases hvalue : readHole source with
  | error e => simp only [hvalue, reduceCtorEq] at h
  | ok inner =>
    cases hparts : join readHole span [] cuts with
    | error e => simp_all
    | ok parts =>
      simp only [hvalue, hparts, textPart, isEmpty_nil, if_true, nil_append,
        Except.ok.injEq, List.cons.injEq] at h
      rw [h.2] at hparts
      exact (join_eq_nil hparts).2

theorem split_eq_nil (hn : cs.length < n) (h : split n cs = []) : cs = [] ∨ cs = ['\\'] := by
  fun_induction split n cs with
  | case1 => exact absurd hn (Nat.not_lt_zero _)
  | case2 => exact .inl rfl
  | case4 => exact .inr rfl
  | _ => cases h

theorem split_hole (hcs : cs.head? ≠ some '\x7b') :
    split (n + 1) ('\x7b' :: cs) = ((holeSource 0 false cs).elim [.unterminated]
      fun r => .hole r.1 :: split n r.2) := by
  rw [split]
  · cases holeSource 0 false cs <;> rfl
  · rintro cs rfl
    exact hcs rfl

end Interpolation

theorem literalParts_holeBody
    (hfirst : e.toList.head? ≠ some '\x7b') (hvalue : parseExpression e line = .ok value) :
    literalParts (holeBody e) line = .ok [.hole value] ↔ Interpolation.Closes 0 false e.toList := by
  have hhead : (e.toList ++ ['\x7d']).head? ≠ some '\x7b' := by
    cases he : e.toList with
    | nil => simp
    | cons c cs => simpa [he] using hfirst
  rw [← holeSource_eq_iff [], literalParts, Interpolation.parts,
    toList_holeBody, split_hole hhead]
  cases hsource : Interpolation.holeSource 0 false (e.toList ++ ['\x7d']) with
  | none => simp [Interpolation.join]
  | some r =>
    obtain ⟨source, rest⟩ := r
    constructor
    · intro h
      have hlength := length_holeSource hsource
      have hrest := split_eq_nil (Nat.lt_succ_of_lt (Nat.lt_of_le_of_lt
        (Nat.le_add_left _ _) hlength)) (join_eq_hole h)
      -- The brace behind the expression is the last character, so nothing is behind it.
      have hsplit := holeSource_split hsource
      rcases hrest with rfl | rfl
      · rw [append_cancel_right hsplit]
      · have hlast := congrArg getLast? hsplit
        simp at hlast
    · rintro ⟨⟩
      simp [Interpolation.join, Interpolation.split, hvalue, Interpolation.textPart]

/-- An expression in a hole, without comments and interpolated literals. The literal has the
    expression as its only part exactly if the text closes what it opens when every quote is taken
    for the begin or the end of a text. -/
theorem hole_read {e : String} {line : Nat} {tokens : List Token} {value : Expr}
    (htokens : tokenize e line = .ok tokens)
    (hgaps : ∀ gap ∈ gaps e, ∀ c ∈ gap, Text.isBlank c = true)
    (hinterpolated : ∀ t ∈ tokens, t.kind ≠ .interpolatedString)
    (hfirst : e.toList.head? ≠ some '\x7b') (hvalue : parseExpression e line = .ok value) :
    tokenize (literal (holeBody e)) line =
      .ok [literalToken (holeBody e) line, literalEnd (holeBody e) line] ∧
    (parseExpression (literal (holeBody e)) line =
        .ok (.interpolated (literalSpan (holeBody e) line) [.hole value]) ↔
      Interpolation.Closes 0 false e.toList) ∧
    (line = 1 → (parseProgram (literal (holeBody e)) =
        .ok [.expr (.interpolated (literalSpan (holeBody e) 1) [.hole value])] ↔
      Interpolation.Closes 0 false e.toList)) ∧
    ((∀ t ∈ tokens, t.kind = .string → '"' ∉ t.text.toList) →
      Interpolation.Closes 0 false e.toList) := by
  obtain ⟨words, last, hwords, hnests⟩ := parseExpression_nests hvalue
  obtain rfl : tokens = words ++ [last] := Except.ok.inj (htokens.symm.trans hwords)
  have hinside : ∀ t ∈ words, t.kind ≠ .interpolatedString :=
    fun t ht => hinterpolated t (mem_append_left _ ht)
  have hends := interpolatedBody_holeBody hwords hgaps hinside hnests
  have hparts := literalParts_holeBody hfirst hvalue
  refine ⟨tokenize_literal hends line, ?_, ?_, fun htexts => ?_⟩
  · rw [parseExpression_literal hends, ← hparts]
    cases literalParts (holeBody e) line <;> simp [Except.map]
  · rintro rfl
    rw [parseProgram_literal hends, ← hparts]
    cases literalParts (holeBody e) 1 <;> simp [Except.map]
  · exact closes_of_tokens hwords hgaps hinside hnests
      fun t ht => htexts t (mem_append_left _ ht)

theorem hole_read_sample : ∃ value, parseExpression "f(\"\x7d\", \x7b\"k\": 1\x7d)" 3 = .ok value ∧
    parseExpression "$\"\x7bf(\"\x7d\", \x7b\"k\": 1\x7d)\x7d\"" 3 =
      .ok (.interpolated ⟨0, 21, 3⟩ [.hole value]) := by
  have htokens : tokenize "f(\"\x7d\", \x7b\"k\": 1\x7d)" 3 =
      .ok [⟨.identifier, "f", ⟨0, 1, 3⟩⟩, ⟨.lParen, "(", ⟨1, 2, 3⟩⟩, ⟨.string, "\x7d", ⟨2, 5, 3⟩⟩,
        ⟨.comma, ",", ⟨5, 6, 3⟩⟩, ⟨.lBrace, "\x7b", ⟨7, 8, 3⟩⟩, ⟨.string, "k", ⟨8, 11, 3⟩⟩,
        ⟨.colon, ":", ⟨11, 12, 3⟩⟩, ⟨.number, "1", ⟨13, 14, 3⟩⟩, ⟨.rBrace, "\x7d", ⟨14, 15, 3⟩⟩,
        ⟨.rParen, ")", ⟨15, 16, 3⟩⟩, ⟨.eof, "", ⟨16, 16, 3⟩⟩] := by
    decide +kernel
  have hok : (parseExpression "f(\"\x7d\", \x7b\"k\": 1\x7d)" 3).toOption.isSome = true := by
    decide +kernel
  cases hvalue : parseExpression "f(\"\x7d\", \x7b\"k\": 1\x7d)" 3 with
  | error error => rw [hvalue] at hok; cases hok
  | ok value =>
    have hgaps : gaps "f(\"\x7d\", \x7b\"k\": 1\x7d)" =
        [[], [], [], [], [' '], [], [], [' '], [], [], []] := by
      decide +kernel
    have hblank : ∀ gap ∈ gaps "f(\"\x7d\", \x7b\"k\": 1\x7d)",
        ∀ c ∈ gap, Text.isBlank c = true := by
      simp [hgaps, show Text.isBlank ' ' = true by decide]
    obtain ⟨_, hread, _, hcloses⟩ := hole_read htokens hblank (by decide) (by decide) hvalue
    have hsource : literal (holeBody "f(\"\x7d\", \x7b\"k\": 1\x7d)") =
        "$\"\x7bf(\"\x7d\", \x7b\"k\": 1\x7d)\x7d\"" := by
      decide
    have hspan : literalSpan (holeBody "f(\"\x7d\", \x7b\"k\": 1\x7d)") 3 = ⟨0, 21, 3⟩ := by
      decide
    rw [hsource, hspan] at hread
    exact ⟨value, rfl, hread.mpr (hcloses (by decide))⟩

theorem hole_with_quote_not_read :
    parseExpression "\"a\\\"b\"" 1 = .ok (.literal ⟨0, 6, 1⟩ (.str "a\"b")) ∧
      parseExpression "$\"\x7b\"a\\\"b\"\x7d\"" 1 = .error ⟨.unterminatedHole, ⟨0, 11, 1⟩⟩ :=
  ⟨rfl, rfl⟩

end ClassScript
