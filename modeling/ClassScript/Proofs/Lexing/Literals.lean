import ClassScript.Proofs.Lexing.Accounting

/-!
# Interpolated Literals as Tokens

An interpolated literal is one token, whose text is the body between the quotes. Where the
body ends is found by counting braces and quotes, and that is all there is to a text that is
one literal: it is this token and the end, or there is no closing quote.
-/

namespace ClassScript

variable {body : String}

def literal (body : String) : String :=
  "$\"" ++ body ++ "\""

def literalSpan (body : String) (line : Nat) : Span :=
  ⟨0, (literal body).utf8ByteSize, line⟩

def literalToken (body : String) (line : Nat) : Token :=
  ⟨.interpolatedString, body, literalSpan body line⟩

def literalEnd (body : String) (line : Nat) : Token :=
  ⟨.eof, "", ⟨(literal body).utf8ByteSize, (literal body).utf8ByteSize,
    line + body.toList.count '\n'⟩⟩

theorem toList_literal (body : String) :
    (literal body).toList = '$' :: '"' :: (body.toList ++ ['"']) := by
  simp [literal]

namespace Lexer

variable {c : Char} {cs : List Char}

theorem map_taking_taking (a b : List Char) (r : Option (List Char × List Char)) :
    (r.map (taking b)).map (taking a) = r.map (taking (a ++ b)) := by
  rw [Option.map_map]
  exact congrArg (Option.map · r) (funext (taking_taking a b))

theorem interpolatedBody_escape (d : Nat) (q : Bool) (e : Char) (cs : List Char) :
    interpolatedBody d q ('\\' :: e :: cs) = (interpolatedBody d q cs).map (taking ['\\', e]) := by
  rw [interpolatedBody]

theorem interpolatedBody_end (cs : List Char) :
    interpolatedBody 0 false ('"' :: cs) = some ([], cs) := by
  simp [interpolatedBody]

theorem interpolatedBody_open (d : Nat) (cs : List Char) :
    interpolatedBody (d + 1) false ('"' :: cs) =
      (interpolatedBody (d + 1) true cs).map (taking ['"']) := by
  simp [interpolatedBody]

theorem interpolatedBody_close (d : Nat) (cs : List Char) :
    interpolatedBody d true ('"' :: cs) = (interpolatedBody d false cs).map (taking ['"']) := by
  simp [interpolatedBody]

theorem interpolatedBody_quoted (hquote : c ≠ '"') (hescape : c ≠ '\\') (d : Nat) (cs : List Char) :
    interpolatedBody d true (c :: cs) = (interpolatedBody d true cs).map (taking [c]) := by
  rw [interpolatedBody]
  · rfl
  · exact fun e cs h _ => hescape h
  · exact hquote

theorem interpolatedBody_plain (hquote : c ≠ '"') (hescape : c ≠ '\\') (d : Nat)
    (cs : List Char) : interpolatedBody d false (c :: cs) =
      (interpolatedBody (if c = '\x7b' then d + 1 else if c = '\x7d' then d - 1 else d) false
        cs).map (taking [c]) := by
  rw [interpolatedBody]
  · rfl
  · exact fun e cs h _ => hescape h
  · exact hquote

theorem symbol_ne_interpolated (c : Char) (cs : List Char) :
    (symbol c cs).kind ≠ .interpolatedString := by
  unfold symbol
  split
  · next spelling kind hfound => exact (symbols_plain _ (List.mem_of_find?_eq_some hfound)).2.2
  · simp [plain]

theorem scan_interpolated {s : Scanned} (hs : scan c cs = .ok s)
    (hkind : s.kind = .interpolatedString) : s.taken = '$' :: '"' :: (s.text ++ ['"']) := by
  unfold scan at hs
  split at hs
  · cases hs
    unfold word at hkind
    dsimp only at hkind
    split at hkind <;> cases hkind
  split at hs
  · cases hs
    cases hkind
  split at hs
  · grind
  · grind
  · cases hs
    exact absurd hkind (symbol_ne_interpolated _ _)

theorem tokensFrom_interpolated {n first : Nat} {ts : List Token} (before : List Char)
    (hts : tokensFrom n ((⟨0, first⟩ : Mark).past before) cs = .ok ts) :
    ∀ t ∈ ts, t.kind = .interpolatedString →
      ∃ b a, t.StandsAt (String.ofList (before ++ cs)) first b (literal t.text) a := by
  induction n generalizing before cs ts with
  | zero => cases hts
  | succ n ih =>
    obtain ⟨gap, rest, hgap, rfl, _⟩ := trivia_splits cs
    simp only [tokensFrom, hgap, ← Mark.past_append] at hts
    cases rest with
    | nil => grind
    | cons c cs =>
      cases hs : scan c cs with
      | error problem => simp [hs] at hts
      | ok s =>
        cases hmore : tokensFrom n ((⟨0, first⟩ : Mark).past (before ++ gap ++ s.taken)) s.rest with
        | error e => simp only [hs, hmore, reduceCtorEq] at hts
        | ok us =>
          simp only [hs, hmore, Except.ok.injEq] at hts
          have hsplit := (scan_reads hs).split
          subst hts
          rintro t (_ | ⟨_, ht⟩) hkind
          · have htaken := scan_interpolated hs hkind
            have hliteral : (literal (String.ofList s.text)) = String.ofList s.taken := by
              rw [htaken, ← String.toList_inj, toList_literal]
              simp
            rw [← hsplit, Mark.past_first, Mark.past_first, hliteral]
            exact ⟨String.ofList (before ++ gap), String.ofList s.rest,
              by simp [String.append_assoc], rfl, by simp [Mark.upTo, Nat.add_assoc],
              by simp [Mark.upTo],
              fun _ => by simp [htaken], fun _ h => absurd hkind h⟩
          · have hlater := ih _ hmore t ht hkind
            simpa [← hsplit] using hlater

end Lexer

theorem Mark.past_literal (body : String) (line : Nat) :
    (⟨0, line⟩ : Mark).past ('$' :: '"' :: (body.toList ++ ['"'])) =
      ⟨(literal body).utf8ByteSize, line + body.toList.count '\n'⟩ := by
  rw [← toList_literal, Mark.past_first, String.ofList_toList, toList_literal]
  simp

theorem Lexer.trivia_dollar (cs : List Char) : trivia .blank ('$' :: cs) = ([], '$' :: cs) := by
  simp [trivia, show Text.isBlank '$' = false by decide]

theorem tokenize_literal
    (hbody : Lexer.interpolatedBody 0 false (body.toList ++ ['"']) = some (body.toList, []))
    (line : Nat) :
    tokenize (literal body) line = .ok [literalToken body line, literalEnd body line] := by
  have hscan : Lexer.scan '$' ('"' :: (body.toList ++ ['"'])) =
      .ok ⟨.interpolatedString, body.toList, '$' :: '"' :: (body.toList ++ ['"']), []⟩ := by
    simp [Lexer.scan, Lexer.isNameStart, hbody]
  have hstart : (⟨0, line⟩ : Mark).past [] = ⟨0, line⟩ := rfl
  rw [tokenize, tokenizeChars, toList_literal]
  simp only [Lexer.tokensFrom, Lexer.trivia_dollar, hscan, hstart, Mark.past_literal,
    String.ofList_toList]
  rfl

theorem tokenize_literal_open
    (hbody : Lexer.interpolatedBody 0 false (body.toList ++ ['"']) = none) (line : Nat) :
    tokenize (literal body) line =
      .error ⟨.unterminatedInterpolation, literalSpan body line⟩ := by
  have hscan : Lexer.scan '$' ('"' :: (body.toList ++ ['"'])) =
      .error .unterminatedInterpolation := by
    simp [Lexer.scan, Lexer.isNameStart, hbody]
  have hstart : (⟨0, line⟩ : Mark).past [] = ⟨0, line⟩ := rfl
  rw [tokenize, tokenizeChars, toList_literal]
  simp only [Lexer.tokensFrom, Lexer.trivia_dollar, hscan, hstart, Mark.past_literal]
  rfl

end ClassScript
