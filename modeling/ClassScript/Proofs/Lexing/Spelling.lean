import ClassScript.Proofs.Lexing.Accounting

/-!
# The Characters of Tokens

Of all tokens only literals have quotes or backslashes, and only braces are braces, unless a
character is no token at all. So between tokens a scanner of literals finds something only in
comments.
-/

namespace ClassScript

open List

namespace Lexer

variable {c : Char}

def isPlain (c : Char) : Bool :=
  c != '"' && c != '\\' && c != '\x7b' && c != '\x7d'

theorem isPlain_iff : isPlain c = true ↔ c ≠ '"' ∧ c ≠ '\\' ∧ c ≠ '\x7b' ∧ c ≠ '\x7d' := by
  simp [isPlain, and_assoc]

theorem isPlain_of {p : Char → Bool}
    (hp : p '"' = false ∧ p '\\' = false ∧ p '\x7b' = false ∧ p '\x7d' = false)
    (hc : p c = true) : isPlain c = true := by
  refine isPlain_iff.mpr ⟨?_, ?_, ?_, ?_⟩
  all_goals
    rintro rfl
    simp_all

theorem isPlain_of_isNamePart (hc : isNamePart c = true) : isPlain c = true :=
  isPlain_of (by decide) hc

theorem isPlain_of_isDigit (hc : c.isDigit = true) : isPlain c = true := isPlain_of (by decide) hc

theorem isPlain_of_isBlank (hc : Text.isBlank c = true) : isPlain c = true :=
  isPlain_of (by decide) hc

inductive Scanned.Spelled (s : Scanned) : Prop
  | plain (hkind : s.kind ≠ .lBrace ∧ s.kind ≠ .rBrace) (htaken : ∀ c ∈ s.taken, isPlain c = true)
  | opening (hkind : s.kind = .lBrace) (htaken : s.taken = ['\x7b'])
  | closing (hkind : s.kind = .rBrace) (htaken : s.taken = ['\x7d'])
  | string (hkind : s.kind = .string) (taken : List Char) (htaken : s.taken = '"' :: taken)
      (hbody : stringBody (taken ++ s.rest) = some (s.text, taken, s.rest))
  | interpolated (hkind : s.kind = .interpolatedString)
  | unknown (hkind : s.kind = .unknown)

theorem isPlain_of_exponent (hc : (c == 'e' || c == 'E') = true) : isPlain c = true :=
  isPlain_of (p := fun c => c == 'e' || c == 'E') (by decide) hc

theorem numberTail_plain (dotted : Bool) (cs : List Char) :
    ∀ c ∈ (numberTail dotted cs).1, isPlain c = true := by
  fun_induction numberTail dotted cs with
  | case1 => simp
  | case2 dotted c cs hc ih =>
    have hplain : isPlain c = true :=
      isPlain_of (p := fun c => c.isDigit || c == '_') (by decide) hc
    simpa [taking, hplain] using ih
  | case3 dotted c cs _ hc ih =>
    have hdot : c = '.' := by simp_all
    subst hdot
    simpa [taking, isPlain] using ih
  | case4 dotted c _ hc s rest hs _ ih =>
    have hsign : isPlain s = true := isPlain_of (p := fun s => s == '+' || s == '-') (by decide) hs
    simpa [taking, isPlain_of_exponent hc, hsign] using ih
  | case5 dotted c _ hc s rest _ _ ih => simpa [taking, isPlain_of_exponent hc] using ih
  | case6 dotted c _ hc => simpa using isPlain_of_exponent hc
  | case7 => simp

theorem numberSuffix_plain (cs : List Char) : ∀ c ∈ (numberSuffix cs).1, isPlain c = true := by
  fun_cases numberSuffix cs with
  | case1 c cs hc =>
    have hkind := (Bool.and_eq_true_iff.mp hc).1
    have hplain : isPlain c = true :=
      isPlain_of (p := fun c => c == 'd' || c == 'D' || c == 'f' || c == 'F') (by decide) hkind
    simpa using hplain
  | case2 | case3 => simp

theorem number_spelled (hc : c.isDigit = true) (cs : List Char) : (number c cs).Spelled := by
  refine .plain (by simp [number, plain]) ?_
  refine forall_mem_cons.mpr ⟨isPlain_of_isDigit hc, ?_⟩
  exact forall_mem_append.mpr ⟨numberTail_plain _ _, numberSuffix_plain _⟩

theorem word_spelled (hc : isNameStart c = true) (cs : List Char) : (word c cs).Spelled := by
  have hfirst : isPlain c = true := isPlain_of (by decide) hc
  have htaken : ∀ x ∈ c :: (cs.span isNamePart).1, isPlain x = true := by
    refine forall_mem_cons.mpr ⟨hfirst, fun x hx => isPlain_of_isNamePart ?_⟩
    rw [span_eq_takeWhile_dropWhile] at hx
    exact all_eq_true.mp (all_takeWhile) x hx
  unfold word
  dsimp only
  split
  all_goals exact .plain (by simp [plain]) htaken

theorem symbols_spelled : ∀ e ∈ symbols, e.2 = .lBrace ∧ e.1 = ['\x7b'] ∨
    e.2 = .rBrace ∧ e.1 = ['\x7d'] ∨ (e.2 ≠ .lBrace ∧ e.2 ≠ .rBrace) ∧ e.1.all isPlain = true := by
  decide

theorem symbol_spelled (c : Char) (cs : List Char) : (symbol c cs).Spelled := by
  unfold symbol
  split
  · next spelling kind hfound =>
    rcases symbols_spelled _ (mem_of_find?_eq_some hfound) with
      ⟨hkind, htaken⟩ | ⟨hkind, htaken⟩ | ⟨hkind, htaken⟩
    · exact .opening hkind htaken
    · exact .closing hkind htaken
    · exact .plain hkind (all_eq_true.mp htaken)
  · exact .unknown rfl

theorem scan_spelled {cs : List Char} {s : Scanned} (hs : scan c cs = .ok s) : s.Spelled := by
  unfold scan at hs
  split at hs
  · next hc =>
    cases hs
    exact word_spelled hc cs
  split at hs
  · next hc =>
    cases hs
    exact number_spelled hc cs
  split at hs
  · split at hs
    · next value taken rest hbody =>
      cases hs
      refine .string rfl taken rfl ?_
      rwa [stringBody_split hbody]
    · cases hs
  · split at hs
    · cases hs
      exact .interpolated rfl
    · cases hs
  · cases hs
    exact symbol_spelled _ _

def gapsFrom : (steps : Nat) → List Char → List (List Char)
  | 0, _ => []
  | n + 1, cs =>
    let (gap, rest) := trivia .blank cs
    match rest with
    | [] => [gap]
    | c :: cs =>
      match scan c cs with
      | .error _ => [gap]
      | .ok s => gap :: gapsFrom n s.rest

end Lexer

def gaps (source : String) : List (List Char) :=
  Lexer.gapsFrom (source.length + 1) source.toList

end ClassScript
