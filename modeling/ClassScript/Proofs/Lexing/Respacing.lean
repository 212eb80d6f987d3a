import ClassScript.Proofs.Lexing.Layout
import ClassScript.Proofs.Lexing.Literals
import ClassScript.Store.Display

/-!
# One Blank Between Tokens

Where a token ends is decided by looking at what is behind it. A token is found again with a blank
behind it: nothing that a scanner stops at was needed to stop there, and no scanner but those of
literals goes on over a blank.
-/

namespace ClassScript

open List

def Span.slice (span : Span) (source : String) : String :=
  String.Pos.Raw.extract source ⟨span.start⟩ ⟨span.stop⟩

def slices (source : String) (tokens : List Token) : List String :=
  (tokens.filter (·.kind != .eof)).map (·.span.slice source)

/-- The source texts of all tokens but the end, with one blank between any two of them. -/
def respaced (source : String) (tokens : List Token) : String :=
  joinWith " " (slices source tokens)

namespace Lexer

variable {after lead gap : List Char} {s : Scanned} {k : Nat} {ts : List Token}

inductive Parted : List Char → Prop
  | done : Parted []
  | blank (more : List Char) : Parted (' ' :: more)

namespace Parted

variable {rest : List Char}
variable {p : Char → Bool}

theorem starts_eq_false (hrest : Parted rest) (hp : p ' ' = false) : starts p rest = false := by
  cases hrest with
  | done => rfl
  | blank more => exact hp

theorem takeWhile_eq_nil (hrest : Parted rest) (hp : p ' ' = false) : rest.takeWhile p = [] := by
  cases hrest with
  | done => rfl
  | blank more => simp [hp]

theorem dropWhile_eq_self (hrest : Parted rest) (hp : p ' ' = false) : rest.dropWhile p = rest := by
  cases hrest with
  | done => rfl
  | blank more => simp [hp]

theorem prefix_of_prefix (hrest : Parted rest) {spelling taken : List Char}
    (hblank : ' ' ∉ spelling) (h : spelling <+: taken ++ rest) : spelling <+: taken := by
  rcases prefix_or_prefix_of_prefix h (prefix_append taken rest) with hshort | ⟨more, rfl⟩
  · exact hshort
  · have hmore : more <+: rest := (prefix_append_right_inj taken).mp h
    cases hrest with
    | done => simp [prefix_nil.mp hmore]
    | blank rest =>
      cases more with
      | nil => simp
      | cons c more => simp_all

end Parted

def Scanned.before (s : Scanned) (rest : List Char) : Scanned :=
  { s with rest := rest }

section Token

variable {rest : List Char} {c : Char} {cs : List Char}

theorem word_parted (c : Char) (cs : List Char) (hrest : Parted rest) :
    ∃ tail, (word c cs).taken = c :: tail ∧
      word c (tail ++ rest) = (word c cs).before rest := by
  have hpart : isNamePart ' ' = false := by decide
  have hspan : (cs.takeWhile isNamePart ++ rest).span isNamePart =
      (cs.takeWhile isNamePart, rest) := by
    have hall : ∀ x ∈ cs.takeWhile isNamePart, isNamePart x = true :=
      all_eq_true.mp all_takeWhile
    rw [span_eq_takeWhile_dropWhile, takeWhile_append_of_pos hall,
      dropWhile_append_of_pos hall, hrest.takeWhile_eq_nil hpart,
      hrest.dropWhile_eq_self hpart, append_nil]
  refine ⟨cs.takeWhile isNamePart, ?_, ?_⟩
  · rw [word, span_eq_takeWhile_dropWhile]
    dsimp only
    split <;> rfl
  · rw [word, word, hspan, span_eq_takeWhile_dropWhile]
    dsimp only
    split <;> rfl

def isNumberPart (c : Char) : Bool :=
  c.isDigit || c == '_' || c == '.' || c == 'e' || c == 'E' || c == '+' || c == '-'

theorem numberTail_digit (hc : (c.isDigit || c == '_') = true) (dotted : Bool)
    (cs : List Char) : numberTail dotted (c :: cs) = taking [c] (numberTail dotted cs) := by
  rw [numberTail.eq_def]
  exact if_pos hc

theorem numberTail_point (hcs : starts Char.isDigit cs = true) :
    numberTail false ('.' :: cs) = taking ['.'] (numberTail true cs) := by
  rw [numberTail.eq_def]
  simp [hcs]

section Exponent

variable {c : Char} (hc : c = 'e' ∨ c = 'E')

include hc

theorem numberTail_signed {sign : Char} (hsign : sign = '+' ∨ sign = '-') (dotted : Bool)
    (cs : List Char) :
    numberTail dotted (c :: sign :: cs) = taking [c, sign] (numberTail dotted cs) := by
  rw [numberTail]
  rcases hc with rfl | rfl <;> simp [hsign]

theorem numberTail_exponent (hcs : starts (fun s => s == '+' || s == '-') cs = false)
    (dotted : Bool) : numberTail dotted (c :: cs) = taking [c] (numberTail dotted cs) := by
  have hodd : (c.isDigit || c == '_') = false ∧ (c == '.') = false ∧
      (c == 'e' || c == 'E') = true := by
    rcases hc with rfl | rfl <;> decide
  rw [numberTail.eq_def]
  simp only [hodd, Bool.false_and, if_true, if_false, Bool.false_eq_true]
  cases cs with
  | nil => rfl
  | cons s rest => exact if_neg (by simpa [starts] using hcs)

end Exponent

theorem starts_numberTail (p : Char → Bool) {dotted : Bool}
    (h : (numberTail dotted cs).1 ≠ []) (more : List Char) :
    starts p ((numberTail dotted cs).1 ++ more) = starts p cs := by
  have hsplit := numberTail_split dotted cs
  cases htail : (numberTail dotted cs).1 with
  | nil => exact absurd htail h
  | cons c tail =>
    rw [htail] at hsplit
    rw [← hsplit]
    rfl

theorem numberTail_stable (dotted : Bool) (cs : List Char) {more : List Char}
    (hmore : starts isNumberPart more = false) :
    numberTail dotted ((numberTail dotted cs).1 ++ more) = ((numberTail dotted cs).1, more) := by
  have hstop (dotted : Bool) : numberTail dotted more = ([], more) := by
    cases more with
    | nil => rfl
    | cons c more =>
      simp only [starts, isNumberPart, Bool.or_eq_false_iff] at hmore
      rw [numberTail.eq_def]
      simp [hmore]
  have hsign : starts (fun s => s == '+' || s == '-') more = false := by
    cases more with
    | nil => rfl
    | cons c more =>
      simp only [starts, isNumberPart, Bool.or_eq_false_iff] at hmore ⊢
      exact ⟨hmore.1.2, hmore.2⟩
  fun_induction numberTail dotted cs with
  | case1 dotted => exact hstop dotted
  | case2 dotted c cs hc ih =>
    rw [taking, append_assoc, singleton_append, numberTail_digit hc, ih]
    rfl
  | case3 dotted c cs _ hc ih =>
    obtain ⟨⟨rfl, rfl⟩, hdigit⟩ : (c = '.' ∧ dotted = false) ∧ starts Char.isDigit cs = true := by
      simpa using hc
    have hnext : starts Char.isDigit ((numberTail true cs).1 ++ more) = true := by
      cases cs with
      | nil => cases hdigit
      | cons d cs =>
        have hd : (d.isDigit || d == '_') = true := Bool.or_eq_true_iff.mpr (.inl hdigit)
        rw [numberTail_digit hd]
        exact hdigit
    rw [taking, append_assoc, singleton_append, numberTail_point hnext, ih]
    rfl
  | case4 dotted c _ hc s rest hs _ ih =>
    have hc : c = 'e' ∨ c = 'E' := by simpa using hc
    have hs : s = '+' ∨ s = '-' := by simpa using hs
    rw [taking, append_assoc, cons_append, singleton_append,
      numberTail_signed hc hs, ih]
    rfl
  | case5 dotted c _ hc s rest hs _ ih =>
    have hc : c = 'e' ∨ c = 'E' := by simpa using hc
    have hnext : starts (fun s => s == '+' || s == '-')
        ((numberTail dotted (s :: rest)).1 ++ more) = false := by
      by_cases hnil : (numberTail dotted (s :: rest)).1 = []
      · rwa [hnil]
      · rw [starts_numberTail _ hnil]
        exact Bool.eq_false_iff.mpr hs
    rw [taking, append_assoc, singleton_append, numberTail_exponent hc hnext, ih]
    rfl
  | case6 dotted c _ hc _ =>
    have hc : c = 'e' ∨ c = 'E' := by simpa using hc
    rw [singleton_append, numberTail_exponent hc hsign, hstop]
    rfl
  | case7 dotted c cs _ _ _ => exact hstop dotted

theorem numberSuffix_stable (cs : List Char) (hrest : Parted rest) :
    numberSuffix ((numberSuffix cs).1 ++ rest) = ((numberSuffix cs).1, rest) := by
  have hpart := hrest.starts_eq_false (p := isNamePart) (by decide)
  have hnone : numberSuffix rest = ([], rest) := by
    cases hrest with
    | done | blank => rfl
  fun_cases numberSuffix cs with
  | case1 c cs hc =>
    have hkind := (Bool.and_eq_true_iff.mp hc).1
    rw [singleton_append, numberSuffix]
    rw [hkind, hpart]
    rfl
  | case2 | case3 => exact hnone

theorem number_parted (c : Char) (cs : List Char) (hrest : Parted rest) :
    ∃ tail, (number c cs).taken = c :: tail ∧
      number c (tail ++ rest) = (number c cs).before rest := by
  have hmore : starts isNumberPart ((numberSuffix (numberTail false cs).2).1 ++ rest) = false := by
    fun_cases numberSuffix (numberTail false cs).2 with
    | case1 c cs hc =>
      have hkind := (Bool.and_eq_true_iff.mp hc).1
      simp only [Bool.or_eq_true, beq_iff_eq] at hkind
      rcases hkind with ((rfl | rfl) | rfl) | rfl <;> rfl
    | case2 | case3 => exact hrest.starts_eq_false (by decide)
  refine ⟨(numberTail false cs).1 ++ (numberSuffix (numberTail false cs).2).1, rfl, ?_⟩
  simp only [number]
  rw [append_assoc, numberTail_stable false cs hmore, numberSuffix_stable _ hrest]
  rfl

theorem stringBody_stable {value taken : List Char}
    (h : stringBody cs = some (value, taken, after)) (rest : List Char) :
    stringBody (taken ++ rest) = some (value, taken, rest) := by
  fun_induction stringBody cs generalizing value taken after with
  | case1 => cases h
  | case2 cs =>
    cases h
    rfl
  | case3 e cs ih =>
    obtain ⟨⟨value, taken, after⟩, hbody, ⟨⟩⟩ := Option.map_eq_some_iff.mp h
    rw [cons_append, cons_append, stringBody, ih hbody]
    rfl
  | case4 c cs hquote hescape ih =>
    obtain ⟨⟨value, taken, after⟩, hbody, ⟨⟩⟩ := Option.map_eq_some_iff.mp h
    rw [cons_append, stringBody, ih hbody]
    · rfl
    · exact hquote
    · rintro e more rfl _
      cases cs with
      | nil => cases hbody
      | cons e cs => exact hescape e cs rfl rfl

theorem interpolatedBody_stable {d : Nat} {q : Bool} {body : List Char}
    (h : interpolatedBody d q cs = some (body, after)) (rest : List Char) :
    interpolatedBody d q (body ++ '"' :: rest) = some (body, rest) := by
  -- A round that takes the same does not depend on what is behind.
  have hround {d d' : Nat} {q q' : Bool} {a cs body after : List Char}
      (hstep : ∀ more, interpolatedBody d q (a ++ more) =
        (interpolatedBody d' q' more).map (taking a))
      (ih : ∀ {body after}, interpolatedBody d' q' cs = some (body, after) →
        interpolatedBody d' q' (body ++ '"' :: rest) = some (body, rest))
      (h : (interpolatedBody d' q' cs).map (taking a) = some (body, after)) :
      interpolatedBody d q (body ++ '"' :: rest) = some (body, rest) := by
    obtain ⟨⟨body, after⟩, hbody, ⟨⟩⟩ := Option.map_eq_some_iff.mp h
    rw [append_assoc, hstep, ih hbody]
    rfl
  fun_induction interpolatedBody d q cs generalizing body after with
  | case1 => cases h
  | case2 d q e cs ih => exact hround (interpolatedBody_escape d q e) ih h
  | case3 d cs ih => exact hround (interpolatedBody_close d) ih h
  | case4 q cs hq =>
    cases h
    rw [Bool.eq_false_iff.mpr hq]
    exact interpolatedBody_end rest
  | case5 d q cs hq hd ih =>
    obtain ⟨d, rfl⟩ := Nat.exists_eq_succ_of_ne_zero hd
    rw [Bool.eq_false_iff.mpr hq]
    exact hround (interpolatedBody_open d) ih h
  | case6 d q c cs hescape hquote =>
    rename_i ih
    have hback : c ≠ '\\' := by
      rintro rfl
      cases cs with
      | nil => simp [interpolatedBody] at h
      | cons e cs => exact hescape e cs rfl rfl
    refine hround (fun more => ?_) ih h
    cases q with
    | false => exact interpolatedBody_plain hquote hback d more
    | true => exact interpolatedBody_quoted hquote hback d more

theorem symbols_unblank : ∀ e ∈ symbols, ' ' ∉ e.1 := by decide

theorem symbol_parted (c : Char) (cs : List Char) (hrest : Parted rest) :
    ∃ tail, (symbol c cs).taken = c :: tail ∧
      symbol c (tail ++ rest) = (symbol c cs).before rest := by
  -- A symbol in front of a blank is in front of what the token took, and so of the text.
  have hback {t : List Char} (htaken : t <+: c :: cs) {e : List Char × TokenKind}
      (he : e ∈ symbols) (hbegin : e.1 <+: t ++ rest) : e.1 <+: c :: cs :=
    (hrest.prefix_of_prefix (symbols_unblank e he) hbegin).trans htaken
  cases hfound : symbols.find? fun s => s.1.isPrefixOf (c :: cs) with
  | none =>
    have hnone : symbols.find? (fun s => s.1.isPrefixOf (c :: rest)) = none := by
      rw [find?_eq_none] at hfound ⊢
      intro e he hbegin
      refine hfound e he (List.isPrefixOf_iff_prefix.mpr ?_)
      exact hback (t := [c]) (by simp) he (List.isPrefixOf_iff_prefix.mp hbegin)
    refine ⟨[], ?_, ?_⟩
    · rw [symbol, hfound]
      rfl
    · rw [symbol, symbol, hfound, nil_append, hnone]
      rfl
  | some e =>
    obtain ⟨spelling, kind⟩ := e
    obtain ⟨hbegin, before, after, hsymbols, hbefore⟩ := find?_eq_some_iff_append.mp hfound
    obtain ⟨tail, rfl⟩ : ∃ tail, spelling = c :: tail := by
      have hne := (symbols_plain _ (mem_of_find?_eq_some hfound)).1
      cases spelling with
      | nil => exact absurd rfl hne
      | cons d tail => grind
    have hagain : symbols.find? (fun s => s.1.isPrefixOf (c :: (tail ++ rest))) =
        some (c :: tail, kind) := by
      refine find?_eq_some_iff_append.mpr ⟨?_, before, after, hsymbols, fun e he => ?_⟩
      · simp
      · grind
    refine ⟨tail, ?_, ?_⟩
    · rw [symbol, hfound]
      rfl
    · rw [symbol, symbol, hfound, hagain]
      simp [plain, Scanned.before]

theorem scan_parted (hs : scan c cs = .ok s) (hrest : Parted rest) :
    ∃ tail, s.taken = c :: tail ∧ scan c (tail ++ rest) = .ok (s.before rest) := by
  unfold scan at hs ⊢
  split at hs
  · next hname =>
    obtain ⟨tail, htaken, hword⟩ := word_parted c cs hrest
    simp_all
  split at hs
  · next hname hdigit =>
    obtain ⟨tail, htaken, hnumber⟩ := number_parted c cs hrest
    simp_all
  next hname hdigit =>
  simp only [if_neg hname, if_neg hdigit]
  split at hs
  · split at hs
    · next value taken after hbody =>
      cases hs
      refine ⟨taken, rfl, ?_⟩
      rw [stringBody_stable hbody]
      rfl
    · cases hs
  · split at hs
    · next cs body after hbody =>
      cases hs
      refine ⟨'"' :: (body ++ ['"']), rfl, ?_⟩
      have hagain := interpolatedBody_stable hbody rest
      simp only [cons_append, append_assoc, nil_append, hagain]
      rfl
    · cases hs
  · next _ _ hquote hdollar =>
    cases hs
    obtain ⟨tail, htaken, hsymbol⟩ := symbol_parted c cs hrest
    refine ⟨tail, htaken, ?_⟩
    split
    · exact absurd rfl hquote
    · next more hmore =>
      -- A quote behind the sign would have been there before.
      have hsplit := (symbol_reads '$' cs).split
      cases tail with
      | nil =>
        subst hmore
        cases hrest
      | cons d tail => grind
    · rw [hsymbol]

end Token

variable {c : Char} {cs : List Char} {m : Mark}

def Stops (cs : List Char) : Prop :=
  trivia .blank cs = ([], cs)

theorem stops_iff : Stops (c :: cs) ↔
    ¬ ['/', '/'] <+: c :: cs ∧ ¬ ['/', '*'] <+: c :: cs ∧ Text.isBlank c = false := by
  unfold Stops
  by_cases hline : ['/', '/'] <+: c :: cs
  · obtain ⟨more, hmore⟩ := hline
    refine iff_of_false (fun hstops => ?_) fun h => h.1 ⟨more, hmore⟩
    rw [← hmore] at hstops
    simp [trivia_line_opens, taking] at hstops
  by_cases hblock : ['/', '*'] <+: c :: cs
  · obtain ⟨more, hmore⟩ := hblock
    refine iff_of_false (fun hstops => ?_) fun h => h.2.1 ⟨more, hmore⟩
    rw [← hmore] at hstops
    simp [trivia_block_opens, taking] at hstops
  rw [trivia_blank_char hline hblock]
  by_cases hc : Text.isBlank c = true
  · simp [hc, taking]
  · simp [hc, hline, hblock]

theorem stops_trivia (gap : Gap) (cs : List Char) : Stops (trivia gap cs).2 := by
  fun_induction trivia gap cs with
  | case4 c cs hline hblock hc =>
    refine stops_iff.mpr ⟨?_, ?_, Bool.eq_false_iff.mpr hc⟩
    · rintro ⟨more, hmore⟩
      obtain ⟨rfl, rfl⟩ := List.cons.inj hmore
      exact hline more rfl rfl
    · rintro ⟨more, hmore⟩
      obtain ⟨rfl, rfl⟩ := List.cons.inj hmore
      exact hblock more rfl rfl
  | case10 => exact trivia_nil .blank
  | _ => assumption

theorem Stops.parted {tail rest : List Char} (h : Stops (c :: (tail ++ after)))
    (hrest : Parted rest) : Stops (c :: (tail ++ rest)) := by
  rw [stops_iff, pair_begins, pair_begins] at h ⊢
  cases tail with
  | nil =>
    cases hrest with
    | done | blank => simp [h]
  | cons d tail => exact h

theorem Stops.blank (h : Stops cs) : trivia .blank (' ' :: cs) = ([' '], cs) := by
  rw [trivia_blank_char (by simp) (by simp), h]
  rfl

theorem slice_upTo (first : Nat) (before taken after : List Char) :
    (((⟨0, first⟩ : Mark).past before).upTo ((⟨0, first⟩ : Mark).past (before ++ taken))).slice
      (String.ofList (before ++ taken ++ after)) = String.ofList taken := by
  have hextract := String.extract_of_valid before taken after
  simp only [← String.utf8ByteSize_ofList, ← String.utf8ByteSize_append,
    ← String.ofList_append] at hextract
  rw [Mark.past_first, Mark.past_first]
  exact hextract

theorem respaced_cons {t : Token} (ht : t.kind ≠ .eof) (source : String) (ts : List Token) :
    ∃ lead, (lead = [] ∨ lead = [' ']) ∧ Parted (lead ++ (respaced source ts).toList) ∧
      (respaced source (t :: ts)).toList =
        (t.span.slice source).toList ++ (lead ++ (respaced source ts).toList) := by
  have hslices : slices source (t :: ts) = t.span.slice source :: slices source ts := by
    simp [slices, ht]
  unfold respaced joinWith
  rw [hslices]
  cases slices source ts with
  | nil => exact ⟨[], .inl rfl, .done, by simp⟩
  | cons s more => exact ⟨[' '], .inr rfl, .blank _, by simp⟩

theorem Stops.skip (h : Stops cs) (hlead : lead = [] ∨ lead = [' ']) :
    trivia .blank (lead ++ cs) = (lead, cs) := by
  obtain rfl | rfl := hlead
  · exact h
  · exact h.blank

theorem tokensFrom_end (hgap : trivia .blank cs = (gap, []))
    (k : Nat) : ∃ span, tokensFrom (k + 1) m cs = .ok [⟨.eof, "", span⟩] := by
  simp [tokensFrom, hgap]

theorem tokensFrom_token {text : List Char}
    (hgap : trivia .blank text = (gap, c :: cs)) (hs : scan c cs = .ok s)
    (hts : tokensFrom k ((m.past gap).past s.taken) s.rest = .ok ts) :
    ∃ span, tokensFrom (k + 1) m text = .ok (⟨s.kind, String.ofList s.text, span⟩ :: ts) := by
  simp [tokensFrom, hgap, hs, hts]

theorem tokensFrom_respaced {n first : Nat}
    (before : List Char) (hts : tokensFrom n ((⟨0, first⟩ : Mark).past before) cs = .ok ts)
    (hlead : lead = [] ∨ lead = [' '])
    (hk : (lead ++ (respaced (String.ofList (before ++ cs)) ts).toList).length < k) :
    ∃ us, tokensFrom k m (lead ++ (respaced (String.ofList (before ++ cs)) ts).toList) = .ok us ∧
      us.map Token.word = ts.map Token.word := by
  induction n generalizing before cs ts k m lead with
  | zero => cases hts
  | succ n ih =>
    obtain ⟨j, rfl⟩ : ∃ j, k = j + 1 := ⟨k - 1, by omega⟩
    obtain ⟨gap, rest, hgap, rfl, _⟩ := trivia_splits cs
    have hstops : Stops rest := by
      have h := stops_trivia .blank (gap ++ rest)
      rwa [hgap] at h
    simp only [tokensFrom, hgap, ← Mark.past_append] at hts
    cases rest with
    | nil =>
      cases hts
      obtain ⟨span, hend⟩ := tokensFrom_end (m := m) (hstops.skip hlead) j
      exact ⟨_, hend, rfl⟩
    | cons c cs =>
      cases hs : scan c cs with
      | error problem => simp [hs] at hts
      | ok s =>
        cases hmore : tokensFrom n
            ((⟨0, first⟩ : Mark).past (before ++ gap ++ s.taken)) s.rest with
        | error e => simp only [hs, hmore, reduceCtorEq] at hts
        | ok more =>
          simp only [hs, hmore, Except.ok.injEq] at hts
          subst hts
          have hsource : before ++ (gap ++ c :: cs) = before ++ gap ++ s.taken ++ s.rest := by
            simp [← (scan_reads hs).split]
          rw [hsource] at hk ⊢
          obtain ⟨blank, hblank, hparted, hcons⟩ := respaced_cons
            (t := ⟨s.kind, String.ofList s.text, ((⟨0, first⟩ : Mark).past (before ++ gap)).upTo
              ((⟨0, first⟩ : Mark).past (before ++ gap ++ s.taken))⟩) (scan_reads hs).kind
            (String.ofList (before ++ gap ++ s.taken ++ s.rest)) more
          obtain ⟨tail, htaken, hscan⟩ := scan_parted hs hparted
          have hfront (rest : List Char) : s.taken ++ rest = c :: (tail ++ rest) := by
            rw [htaken, cons_append]
          rw [hcons, slice_upTo, String.toList_ofList, hfront] at hk ⊢
          have hfound : Stops (c :: (tail ++ s.rest)) := by
            rwa [← (scan_reads hs).split, hfront] at hstops
          have hskip := (hfound.parted hparted).skip hlead
          obtain ⟨us, hus, hwords⟩ := ih (before ++ gap ++ s.taken) hmore
            (m := (m.past lead).past s.taken) (k := j) hblank (by
              simp only [length_append, length_cons] at hk ⊢
              omega)
          obtain ⟨span, htoken⟩ := tokensFrom_token hskip hscan hus
          exact ⟨_, htoken, congrArg (_ :: ·) hwords⟩

end Lexer

/-- The source texts of tokens, with one blank between any two, are split into tokens of the same
    kinds and texts. -/
theorem tokenize_respaced {source : String} {first : Nat} {tokens : List Token}
    (htokens : tokenize source first = .ok tokens) (line : Nat) :
    ∃ tokens', tokenize (respaced source tokens) line = .ok tokens' ∧
      tokens'.map Token.word = tokens.map Token.word := by
  have hts : Lexer.tokensFrom (source.toList.length + 1) ((⟨0, first⟩ : Mark).past [])
      source.toList = .ok tokens := htokens
  have hlead : ([] : List Char) = [] ∨ [] = [' '] := .inl rfl
  have hrun := Lexer.tokensFrom_respaced (m := ⟨0, line⟩) [] hts hlead (Nat.lt_succ_self _)
  simpa [tokenize, tokenizeChars] using hrun

-- What is behind a token matters in all of these: points and suffixes of numbers, comments
-- without a blank, the quotes in a hole, an equals sign in front of a longer symbol.
theorem tokenize_respaced_dense :
    let source := "1..5/*\n*/2d//\n1.5e+3.x$\"\x7b\"\x7d\"\x7d\"=\"é\\\"\"==!="
    let tokens := [⟨.number, "1", 0, 1, 1⟩, ⟨.dotDot, "..", 1, 3, 1⟩, ⟨.number, "5", 3, 4, 1⟩,
      ⟨.number, "2d", 9, 11, 2⟩, ⟨.number, "1.5e+3", 14, 20, 3⟩, ⟨.dot, ".", 20, 21, 3⟩,
      ⟨.identifier, "x", 21, 22, 3⟩, ⟨.interpolatedString, "\x7b\"\x7d\"\x7d", 22, 30, 3⟩,
      ⟨.assign, "=", 30, 31, 3⟩, ⟨.string, "é\"", 31, 37, 3⟩, ⟨.equalEqual, "==", 37, 39, 3⟩,
      ⟨.bangEqual, "!=", 39, 41, 3⟩, ⟨.eof, "", 41, 41, 3⟩]
    let text := "1 .. 5 2d 1.5e+3 . x $\"\x7b\"\x7d\"\x7d\" = \"é\\\"\" == !="
    tokenize source 1 = .ok tokens ∧ respaced source tokens = text ∧
      ∃ tokens', tokenize text 1 = .ok tokens' ∧
        tokens'.map Token.word = tokens.map Token.word := by
  intro source tokens text
  have htokens : tokenize source 1 = .ok tokens := by cbv
  have htext : respaced source tokens = text := by decide
  exact ⟨htokens, htext, htext ▸ tokenize_respaced htokens 1⟩

end ClassScript
