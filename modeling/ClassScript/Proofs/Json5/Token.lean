import ClassScript.Proofs.Json5.Spelling
import Mathlib.Data.Bool.AllAny

/-!
# Reading Tokens

They go on as long as they can, so `Reader.Stops` says that the next character belongs to no word
and no number. The place of the reader matters to reports only, so `Reader.Reads` leaves it open.
-/

namespace ClassScript

open List

namespace Json

namespace Reader

variable {c quote : Char} {rest text comment tail digits : List Char} {n : Nat}
variable {meaning : List Char} {s : String}

/-! ### Characters -/

def marks : List Char :=
  [',', ']', '\x7d', ':', '/']

def blankCodes : List Nat :=
  Text.blanks.ranges.flatMap fun r => range' r.1 (r.2 + 1 - r.1)

theorem toNat_mem_blankCodes (hc : Text.isBlank c = true) : c.toNat ∈ blankCodes := by
  unfold Text.isBlank Text.CharSet.contains at hc
  rw [any_eq_true] at hc
  rcases hc with ⟨r, hr, hin⟩
  simp only [Bool.and_eq_true, decide_eq_true_eq] at hin
  exact mem_flatMap.mpr ⟨r, hr, mem_range'_1.mpr ⟨hin.1, by omega⟩⟩

theorem inWord_of_blank_or_mark (hc : Text.isBlank c = true ∨ c ∈ marks) :
    inWord c = false ∧ c ≠ '.' := by
  rcases hc with hc | hc
  · have hall : ∀ n ∈ blankCodes, inWord (Char.ofNat n) = false ∧ Char.ofNat n ≠ '.' := by
      decide +kernel
    have hcode := hall c.toNat (toNat_mem_blankCodes hc)
    rwa [Char.ofNat_toNat] at hcode
  · have hall : ∀ c ∈ marks, inWord c = false ∧ c ≠ '.' :=
      all_iff_forall_prop.mp (by decide)
    exact hall c hc

theorem inWord_of_startsWord (hc : startsWord c = true) : inWord c = true := by
  unfold startsWord at hc
  unfold inWord Text.isLetterOrNumeral
  grind

theorem inWord_of_digit (hc : c.isDigit = true) : inWord c = true := by
  have hlt : c.toNat < 128 := by
    simp only [Char.isDigit, Bool.and_eq_true, decide_eq_true_eq] at hc
    have hle := UInt32.le_iff_toNat_le.mp hc.2
    exact Nat.lt_of_le_of_lt hle (by decide)
  unfold inWord Text.isLetterOrNumeral Text.isNumeral
  rw [if_pos hlt, hc]
  simp

def Stops (tail : List Char) : Prop :=
  ∀ c ∈ tail.head?, inWord c = false ∧ c ≠ '.'

def Solid (text : List Char) : Prop :=
  ∃ c rest, text = c :: rest ∧ Text.isBlank c = false ∧ c ∉ marks

theorem stops_cons (hc : Text.isBlank c = true ∨ c ∈ marks) : Stops (c :: rest) := by
  intro d hd
  obtain rfl : c = d := by simpa using hd
  exact inWord_of_blank_or_mark hc

theorem solid_of_inWord (hc : inWord c = true) : Solid (c :: rest) := by
  have hneither : ¬ (Text.isBlank c = true ∨ c ∈ marks) := by
    intro h
    rw [(inWord_of_blank_or_mark h).1] at hc
    cases hc
  rw [not_or] at hneither
  exact ⟨c, rest, rfl, by simpa using hneither.1, hneither.2⟩

theorem Solid.append (h : Solid text) (tail : List Char) : Solid (text ++ tail) := by
  rcases h with ⟨c, rest, rfl, hb, hm⟩
  exact ⟨c, rest ++ tail, rfl, hb, hm⟩

theorem Solid.at?_eq_false (h : Solid text) (hc : c ∈ marks)
    (p : Place) : at? ⟨text, p⟩ c = false := by
  rcases h with ⟨d, rest, rfl, _, hm⟩
  have hne : d ≠ c := by
    rintro rfl
    exact hm hc
  simpa [at?] using hne

/-! ### Blanks and comments -/

theorem skip_line_cons (c : Char) (rest : List Char) (p : Place) :
    skip .line p (c :: rest) = skip (if c = '\n' then .blank else .line) (p.after c) rest :=
  rfl

theorem skip_blank_char (hslash : c ≠ '/') (rest : List Char) (p : Place) :
    skip .blank p (c :: rest) =
      if Text.isBlank c then skip .blank (p.after c) rest else .ok ⟨c :: rest, p⟩ := by
  rw [skip]
  all_goals
    rintro more rfl
    exact absurd rfl hslash

theorem skip_line (hc : '\n' ∉ comment) (rest : List Char) (p : Place) :
    ∃ p', skip .line p (comment ++ '\n' :: rest) = skip .blank p' rest := by
  induction comment generalizing p with
  | nil => exact ⟨_, rfl⟩
  | cons c comment ih =>
    rw [mem_cons, not_or] at hc
    rcases ih hc.2 (p.after c) with ⟨p', hp'⟩
    refine ⟨p', ?_⟩
    rw [cons_append, skip_line_cons, if_neg (Ne.symm hc.1)]
    exact hp'

theorem skip_line_end (hc : '\n' ∉ comment) (p : Place) :
    ∃ p', skip .line p comment = .ok ⟨[], p'⟩ := by
  induction comment generalizing p with
  | nil => exact ⟨p, rfl⟩
  | cons c comment ih =>
    rw [mem_cons, not_or] at hc
    rcases ih hc.2 (p.after c) with ⟨p', hp'⟩
    refine ⟨p', ?_⟩
    rw [skip_line_cons, if_neg (Ne.symm hc.1)]
    exact hp'

theorem skip_block_cons (opened p : Place) (c : Char) (rest : List Char)
    (h : ∀ more, c = '*' → rest ≠ '/' :: more) :
    skip (.block opened) p (c :: rest) = skip (.block opened) (p.after c) rest := by
  rw [skip]
  intro more hc hrest
  exact h more hc hrest

theorem skip_block (hc : ¬ ['*', '/'] <:+: comment) (opened : Place)
    (rest : List Char) (p : Place) :
    ∃ p', skip (.block opened) p (comment ++ '*' :: '/' :: rest) = skip .blank p' rest := by
  induction comment generalizing p with
  | nil => exact ⟨_, rfl⟩
  | cons c comment ih =>
    have hinside : ¬ ['*', '/'] <:+: comment := fun h => hc (h.trans (suffix_cons c _).isInfix)
    rcases ih hinside (p.after c) with ⟨p', hp'⟩
    refine ⟨p', ?_⟩
    rw [cons_append, skip_block_cons, hp']
    -- The closing mark cannot begin here: the comment would contain it.
    rintro more rfl hmore
    cases comment with
    | nil => cases hmore
    | cons d comment =>
      cases hmore
      exact hc ⟨[], comment, rfl⟩

theorem skip_blank_cons (hc : Text.isBlank c = true) (rest : List Char) (p : Place) :
    skip .blank p (c :: rest) = skip .blank (p.after c) rest := by
  have hslash : c ≠ '/' := by
    rintro rfl
    exact absurd hc (by decide)
  rw [skip_blank_char hslash, if_pos hc]

theorem skip_solid (h : Solid text) (p : Place) : skip .blank p text = .ok ⟨text, p⟩ := by
  rcases h with ⟨c, rest, rfl, hb, hm⟩
  have hslash : c ≠ '/' := by
    rintro rfl
    exact hm (by decide)
  rw [skip_blank_char hslash, if_neg (by rw [hb]; exact Bool.false_ne_true)]

theorem skip_trivia (h : Trivia text) (rest : List Char) (p : Place) :
    ∃ p', skip .blank p (text ++ rest) = skip .blank p' rest := by
  induction h generalizing p with
  | none => exact ⟨p, rfl⟩
  | @blank c more hc _ ih =>
    rcases ih (p.after c) with ⟨p', hp'⟩
    exact ⟨p', by rw [cons_append, skip_blank_cons hc, hp']⟩
  | @line comment more hc _ ih =>
    rcases skip_line hc (more ++ rest) ((p.after '/').after '/') with ⟨q, hq⟩
    rcases ih q with ⟨p', hp'⟩
    refine ⟨p', ?_⟩
    rw [← hp', ← hq, cons_append, cons_append, append_assoc]
    rfl
  | @block comment more hc _ ih =>
    rcases skip_block hc p (more ++ rest) ((p.after '/').after '*') with ⟨q, hq⟩
    rcases ih q with ⟨p', hp'⟩
    refine ⟨p', ?_⟩
    rw [← hp', ← hq, cons_append, cons_append, append_assoc]
    rfl

theorem trivia_skips (h : Trivia text) (hrest : Solid rest) (p : Place) :
    ∃ p', trivia ⟨text ++ rest, p⟩ = .ok ⟨rest, p'⟩ := by
  rcases skip_trivia h rest p with ⟨p', hp'⟩
  exact ⟨p', hp'.trans (skip_solid hrest p')⟩

theorem trivia_skips_mark (h : Trivia text)
    (hc : c ∈ [',', ']', '\x7d', ':']) (rest : List Char) (p : Place) :
    ∃ p', trivia ⟨text ++ c :: rest, p⟩ = .ok ⟨c :: rest, p'⟩ := by
  rcases skip_trivia h (c :: rest) p with ⟨p', hp'⟩
  refine ⟨p', hp'.trans ?_⟩
  have hall : ∀ c ∈ [',', ']', '\x7d', ':'], Text.isBlank c = false ∧ c ≠ '/' :=
    all_iff_forall_prop.mp (by decide)
  rw [skip_blank_char (hall c hc).2, if_neg (by rw [(hall c hc).1]; exact Bool.false_ne_true)]

theorem trivia_ends (h : Ending text) (p : Place) : ∃ p', trivia ⟨text, p⟩ = .ok ⟨[], p'⟩ := by
  cases h with
  | trivia h =>
    rcases skip_trivia h [] p with ⟨p', hp'⟩
    rw [append_nil] at hp'
    exact ⟨p', hp'⟩
  | @line rest comment h hc =>
    rcases skip_trivia h ('/' :: '/' :: comment) p with ⟨q, hq⟩
    rcases skip_line_end hc ((q.after '/').after '/') with ⟨p', hp'⟩
    exact ⟨p', hq.trans hp'⟩

/-! ### Single steps -/

def Reads {α : Type} (read : Reader → Result (α × Reader)) (text : List Char) (a : α)
    (tail : List Char) : Prop :=
  ∀ p, ∃ p', read ⟨text ++ tail, p⟩ = .ok (a, ⟨tail, p'⟩)

theorem advance_append (text tail : List Char) (p : Place) :
    ∃ p', advance text.length ⟨text ++ tail, p⟩ = ⟨tail, p'⟩ := by
  induction text generalizing p with
  | nil => exact ⟨p, rfl⟩
  | cons c text ih => exact ih (p.after c)

theorem span_append {q : Char → Bool} (htext : ∀ c ∈ text, q c = true)
    (htail : ∀ c ∈ tail.head?, q c = false) (p : Place) :
    ∃ p', span q ⟨text ++ tail, p⟩ = (text, ⟨tail, p'⟩) := by
  have hnone : tail.takeWhile q = [] := by
    cases tail with
    | nil => rfl
    | cons c rest => simp_all
  have htaken : (text ++ tail).takeWhile q = text := by simp_all
  rcases advance_append text tail p with ⟨p', hp'⟩
  refine ⟨p', ?_⟩
  unfold span
  dsimp only
  rw [htaken, hp']

theorem expect_cons (c : Char) (rest : List Char) (p : Place) :
    expect c ⟨c :: rest, p⟩ = .ok ⟨rest, p.after c⟩ := by
  unfold expect at?
  rw [if_pos (by simp)]
  rfl

/-! ### Texts between quotes -/

theorem hexDigit?_of_hex? (h : Digits.hex? digits = some n) :
    ∀ c ∈ digits, (Digits.hexDigit? c).isSome = true := by
  -- Once a character is no digit, nothing is read any more.
  have hnone (cs : List Char) : cs.foldl
      (fun n c => n.bind fun n => (Digits.hexDigit? c).map (16 * n + ·)) none = none := by
    induction cs with
    | nil => rfl
    | cons c cs ih => exact ih
  have hall (cs : List Char) (start : Nat) (hfold : (cs.foldl
      (fun n c => n.bind fun n => (Digits.hexDigit? c).map (16 * n + ·)) (some start)).isSome) :
      ∀ c ∈ cs, (Digits.hexDigit? c).isSome = true := by
    induction cs generalizing start with
    | nil => simp
    | cons d cs ih =>
      cases hd : Digits.hexDigit? d with
      | none => simp_all
      | some v => grind
  unfold Digits.hex? at h
  grind

theorem toNat_lt_of_hexDigit? (hc : (Digits.hexDigit? c).isSome = true) :
    c.toNat < 128 ∧ c ≠ '+' := by
  have hle (d : Char) (h : c ≤ d) : c.toNat ≤ d.toNat := h
  unfold Digits.hexDigit? at hc
  split at hc
  case isTrue h =>
    refine ⟨?_, by rintro rfl; cases h⟩
    simp only [Char.isDigit, Bool.and_eq_true, decide_eq_true_eq] at h
    exact Nat.lt_of_le_of_lt (hle '9' h.2) (by decide)
  case isFalse =>
    split at hc
    case isTrue h =>
      refine ⟨Nat.lt_of_le_of_lt (hle 'f' h.2) (by decide), ?_⟩
      rintro rfl
      exact absurd h.1 (by decide)
    case isFalse =>
      split at hc
      case isTrue h =>
        refine ⟨Nat.lt_of_le_of_lt (hle 'F' h.2) (by decide), ?_⟩
        rintro rfl
        exact absurd h.1 (by decide)
      case isFalse => cases hc

theorem bytes_append (hd : ∀ c ∈ digits, (Digits.hexDigit? c).isSome = true) (rest : List Char) :
    bytes digits.length (digits ++ rest) = some digits := by
  induction digits with
  | nil => rw [length_nil, bytes]
  | cons c digits ih =>
    have hsize : c.utf8Size = 1 := by
      have hlt := (toNat_lt_of_hexDigit? (hd c mem_cons_self)).1
      exact Char.utf8Size_eq_one_iff.mpr (UInt32.le_iff_toNat_le.mpr (Nat.le_of_lt_succ hlt))
    rw [length_cons, cons_append, bytes, hsize, Nat.add_sub_cancel,
      ih fun d hd' => hd d (mem_cons_of_mem _ hd')]
    rfl

theorem code_reads (hlength : digits.length = 4)
    (hn : Digits.hex? digits = some n) (tail : List Char) : Reads code digits n tail := by
  intro p
  have hdigits := hexDigit?_of_hex? hn
  have hbytes := bytes_append hdigits tail
  rw [hlength] at hbytes
  have hsigned : Digits.signedHex? digits = some n := by
    cases digits with
    | nil => cases hlength
    | cons c rest =>
      have hplus := (toNat_lt_of_hexDigit? (hdigits c mem_cons_self)).2
      unfold Digits.signedHex?
      split
      · simp_all
      · exact hn
  rcases advance_append digits tail p with ⟨p', hp'⟩
  unfold code
  simp [hbytes, hsigned, hp']

theorem codeEscape_reads (hlength : digits.length = 4)
    (hc : Digits.hex? digits = some c.toNat) (tail : List Char) :
    Reads codeEscape digits c tail := by
  intro p
  rcases code_reads hlength hc tail p with ⟨p', hp'⟩
  refine ⟨p', ?_⟩
  have hvalid : c.toNat.isValidChar := c.valid
  have hlow : ¬ (0xD800 ≤ c.toNat ∧ c.toNat < 0xDC00) := by rcases hvalid with h | h <;> omega
  have hfalse : (decide (0xD800 ≤ c.toNat) && decide (c.toNat < 0xDC00)) = false := by
    simpa using hlow
  unfold codeEscape
  rw [hp']
  change (if (decide _ && decide _ && _) = true then _ else pointed c.toNat _ _) = _
  rw [hfalse, Bool.false_and, if_neg Bool.false_ne_true]
  unfold pointed character?
  rw [if_pos hvalid, Char.ofNat_toNat]

theorem escaped_of_mem {l : Char} (h : (l, c) ∈ escapes) :
    escaped l = c ∧ l ∉ ['u', '\n', '\r'] := by
  have hall : ∀ e ∈ escapes, escaped e.1 = e.2 ∧ e.1 ∉ ['u', '\n', '\r'] := by decide
  exact hall (l, c) h

theorem escaped_of_mark (h : c ∈ ['"', '\'', '\\']) : escaped c = c ∧ c ∉ ['u', '\n', '\r'] := by
  have hall : ∀ c ∈ ['"', '\'', '\\'], escaped c = c ∧ c ∉ ['u', '\n', '\r'] :=
    all_iff_forall_prop.mp (by decide)
  exact hall c h

theorem escape_cons (hc : c ∉ ['u', '\n', '\r']) (rest : List Char) (p : Place) :
    escape ⟨c :: rest, p⟩ = .ok ([escaped c], ⟨rest, p.after c⟩) := by
  simp only [mem_cons, not_mem_nil, or_false, not_or] at hc
  unfold escape
  split
  case h_1 heq => cases heq
  case h_2 heq => cases heq; exact absurd rfl hc.1
  case h_3 heq => cases heq; exact absurd rfl hc.2.1
  case h_4 heq => cases heq; exact absurd rfl hc.2.2
  case h_5 heq => cases heq; exact absurd rfl hc.2.2
  case h_6 heq => cases heq; rfl

theorem escape_lineBreak {mark : List Char} (hm : mark ∈ lineBreaks)
    (hrest : ∀ c ∈ rest.head?, c ≠ '\n') (p : Place) :
    ∃ p', escape ⟨mark ++ rest, p⟩ = .ok ([], ⟨rest, p'⟩) := by
  simp only [lineBreaks, mem_cons, not_mem_nil, or_false] at hm
  rcases hm with rfl | rfl | rfl
  · exact ⟨_, rfl⟩
  · -- A line feed would belong to the line break.
    cases rest with
    | nil => exact ⟨_, rfl⟩
    | cons c rest =>
      refine ⟨p.after '\r', ?_⟩
      unfold escape
      split
      case h_1 heq => cases heq
      case h_2 heq => cases heq
      case h_3 heq => cases heq
      case h_4 heq => cases heq; exact absurd rfl (hrest _ rfl)
      case h_5 heq => cases heq; rfl
      case h_6 hno heq => cases heq; exact (hno rfl).elim
  · exact ⟨_, rfl⟩

theorem head_of_written (hq : quote ≠ '\n') (h : Written quote text meaning) (tail : List Char) :
    ∀ c ∈ (text ++ quote :: tail).head?, c ≠ '\n' := by
  cases h with
  | nil => simpa using hq
  | raw _ _ hline _ _ => simpa using hline
  | mark | letter | code | lineBreak => simp

theorem stringBody_escape (hq : quote ≠ '\\') {read found : List Char}
    {left : List Char} {p p' : Place} (h : escape ⟨rest, p.after '\\'⟩ = .ok (found, ⟨left, p'⟩)) :
    stringBody quote (n + 1) read ⟨'\\' :: rest, p⟩ =
      stringBody quote n (found.reverse ++ read) ⟨left, p'⟩ := by
  rw [stringBody]
  simp only [advance]
  rw [if_neg (Ne.symm hq)]
  simp [h]

theorem stringBody_reads (hq : quote = '"' ∨ quote = '\'')
    (h : Written quote text meaning) (tail : List Char) :
    ∀ (n : Nat) (read : List Char), text.length < n →
      Reads (stringBody quote n read) (text ++ [quote]) (String.ofList (read.reverse ++ meaning))
        tail := by
  have hescape : quote ≠ '\\' := by rcases hq with rfl | rfl <;> decide
  have hline : quote ≠ '\n' := by rcases hq with rfl | rfl <;> decide
  unfold Reads
  simp only [append_assoc, cons_append, nil_append]
  -- What each round leaves is written with one piece less, and one round less is needed.
  induction h with
  | nil =>
    intro n read hn p
    cases n with
    | zero => cases hn
    | succ n =>
      rw [stringBody]
      simp [advance]
  | @raw c text meaning hquote hback hfeed hreturn _ ih =>
    intro n read hn p
    cases n with
    | zero => cases hn
    | succ n =>
      rcases ih n (c :: read) (Nat.lt_of_succ_lt_succ hn) (p.after c) with ⟨p', hp'⟩
      rw [cons_append, stringBody]
      simp only [advance]
      simp_all
  | @mark c text meaning hc _ ih =>
    intro n read hn p
    cases n with
    | zero => cases hn
    | succ n =>
      have hlt : text.length < n := by simp only [length_cons] at hn; omega
      have hstep := escape_cons (escaped_of_mark hc).2 (text ++ quote :: tail) (p.after '\\')
      rw [(escaped_of_mark hc).1] at hstep
      rcases ih n (c :: read) hlt ((p.after '\\').after c) with ⟨p', hp'⟩
      refine ⟨p', ?_⟩
      rw [cons_append, cons_append, stringBody_escape hescape hstep]
      simpa using hp'
  | @letter l c text meaning hc _ ih =>
    intro n read hn p
    cases n with
    | zero => cases hn
    | succ n =>
      have hlt : text.length < n := by simp only [length_cons] at hn; omega
      have hstep := escape_cons (escaped_of_mem hc).2 (text ++ quote :: tail) (p.after '\\')
      rw [(escaped_of_mem hc).1] at hstep
      rcases ih n (c :: read) hlt ((p.after '\\').after l) with ⟨p', hp'⟩
      refine ⟨p', ?_⟩
      rw [cons_append, cons_append, stringBody_escape hescape hstep]
      simpa using hp'
  | @code digits c text meaning hlength hc _ ih =>
    intro n read hn p
    cases n with
    | zero => cases hn
    | succ n =>
      have hlt : text.length < n := by grind
      rcases codeEscape_reads hlength hc (text ++ quote :: tail)
        ((p.after '\\').after 'u') with ⟨q, hcode⟩
      have hstep : escape ⟨'u' :: (digits ++ (text ++ quote :: tail)), p.after '\\'⟩ =
          .ok ([c], ⟨text ++ quote :: tail, q⟩) := by
        unfold escape
        simp only [advance, hcode]
        rfl
      rcases ih n (c :: read) hlt q with ⟨p', hp'⟩
      refine ⟨p', ?_⟩
      rw [cons_append, cons_append, append_assoc,
        stringBody_escape hescape hstep]
      simpa using hp'
  | @lineBreak mark text meaning hm hrest ih =>
    intro n read hn p
    cases n with
    | zero => cases hn
    | succ n =>
      have hlt : text.length < n := by grind
      rcases escape_lineBreak hm (head_of_written hline hrest tail) (p.after '\\')
        with ⟨q, hstep⟩
      rcases ih n read hlt q with ⟨p', hp'⟩
      refine ⟨p', ?_⟩
      rw [cons_append, append_assoc, stringBody_escape hescape hstep]
      exact hp'

theorem string_reads (hq : quote = '"' ∨ quote = '\'')
    (h : Written quote text s.toList) (tail : List Char) :
    Reads (string quote) (quote :: (text ++ [quote])) s tail := by
  intro p
  have hlt : text.length < (text ++ [quote] ++ tail).length + 1 := by
    simp only [length_append]; omega
  rcases stringBody_reads hq h tail _ [] hlt (p.after quote) with ⟨p', hp'⟩
  refine ⟨p', ?_⟩
  unfold string
  rw [cons_append, expect_cons]
  rw [reverse_nil, nil_append, String.ofList_toList] at hp'
  exact hp'

/-! ### Numbers -/

theorem isDigit_of_stops (h : Stops tail) : ∀ c ∈ tail.head?, c.isDigit = false := by
  intro c hc
  cases hdigit : c.isDigit with
  | false => rfl
  | true =>
    have hword := inWord_of_digit hdigit
    rw [(h c hc).1] at hword
    cases hword

theorem ne_of_stops (h : Stops tail) {d : Char} (hd : inWord d = true) : tail.head? ≠ some d := by
  intro hhead
  rw [(h d hhead).1] at hd
  cases hd

theorem decimal_reads (hne : digits ≠ [])
    (hd : ∀ c ∈ digits, c.isDigit = true) (ht : Stops tail) {negative : Bool} {n : Int64}
    (hn : Word.parse? (if negative then '-' :: digits else digits) = some n) :
    Reads (decimal negative) digits (.int n) tail := by
  intro p
  rcases span_append hd (isDigit_of_stops ht) p with ⟨p', hspan⟩
  refine ⟨p', ?_⟩
  have hfraction : fraction ⟨tail, p'⟩ = ([], ⟨tail, p'⟩) := by
    have hpoint : at? ⟨tail, p'⟩ '.' = false := by
      have hhead : tail.head? ≠ some '.' := fun h => (ht '.' h).2 rfl
      simpa [at?] using hhead
    unfold fraction
    rw [hpoint, if_neg Bool.false_ne_true]
  have hexponent : exponent ⟨tail, p'⟩ = .ok ([], ⟨tail, p'⟩) := by
    unfold exponent
    cases tail with
    | nil => rfl
    | cons c rest =>
      dsimp only
      rw [if_neg]
      rintro (rfl | rfl)
      all_goals exact ne_of_stops ht (by decide) rfl
  have hspelling : ¬ (digits = [] ∨ digits = ['.']) := by
    rintro (h | rfl)
    · exact hne h
    · simp_all
  unfold decimal
  simp only [hspan, hfraction, hexponent, bind, Except.bind, append_nil, hspelling, if_false,
    isEmpty_nil, Bool.not_true, Bool.or_false]
  unfold numeral
  rw [if_neg Bool.false_ne_true, hn]

theorem startsWith_cons_of_ne {a : Char} {more : List Char} (hs : s.toList = a :: more)
    (hc : a ≠ c) (rest : List Char) (p : Place) : startsWith ⟨c :: rest, p⟩ s = false := by
  unfold startsWith
  grind

theorem number_of_digits (hne : digits ≠ [])
    (hd : ∀ c ∈ digits, c.isDigit = true) (ht : Stops tail) (p : Place) :
    startsWith ⟨digits ++ tail, p⟩ infinityName = false ∧
      startsWith ⟨digits ++ tail, p⟩ nanName = false ∧
      (startsWith ⟨digits ++ tail, p⟩ "0x" || startsWith ⟨digits ++ tail, p⟩ "0X") = false := by
  cases digits with
  | nil => exact absurd rfl hne
  | cons c digits =>
    have hother {d : Char} (h : d.isDigit = false) : d ≠ c := by grind
    -- What is behind the first digit is a digit too, or cannot be in a word.
    have hnext {d : Char} (hdigit : d.isDigit = false) (hword : inWord d = true) :
        ['0', d].isPrefixOf (c :: (digits ++ tail)) = false := by
      rw [isPrefixOf, Bool.and_eq_false_iff]
      right
      cases digits with
      | nil =>
        cases tail with
        | nil => rfl
        | cons e tail =>
          have hne : d ≠ e := by
            rintro rfl
            exact ne_of_stops ht hword rfl
          grind
      | cons e digits => grind
    refine ⟨startsWith_cons_of_ne rfl (hother (by decide)) _ _,
      startsWith_cons_of_ne rfl (hother (by decide)) _ _, ?_⟩
    rw [Bool.or_eq_false_iff]
    exact ⟨hnext (by decide) (by decide), hnext (by decide) (by decide)⟩

theorem ofInt?_toInt (n : Int64) : Word.ofInt? n.toInt = some n := by
  unfold Word.ofInt?
  have hlow := Int64.le_toInt n
  have hhigh := Int64.toInt_lt n
  rw [if_pos (by simp only [Nat.pow_eq]; omega), Int64.ofInt_toInt]

theorem nat?_digits (hne : digits ≠ []) (hd : ∀ c ∈ digits, c.isDigit = true) :
    Digits.nat? digits = some (digitsValue digits) := by
  unfold Digits.nat?
  rw [if_pos ⟨hne, all_eq_true.mpr hd⟩]
  rfl

theorem int?_digits (hne : digits ≠ []) (hd : ∀ c ∈ digits, c.isDigit = true) :
    Digits.int? digits = some (digitsValue digits : Int) := by
  unfold Digits.int?
  split
  case h_1 => exact absurd (hd '-' mem_cons_self) (by decide)
  case h_2 => exact absurd (hd '+' mem_cons_self) (by decide)
  case h_3 => rw [nat?_digits hne hd]; rfl

theorem number_reads_signed (mark : List Char) {n : Int64} (hne : digits ≠ [])
    (hd : ∀ c ∈ digits, c.isDigit = true) (ht : Stops tail)
    (hsign : ∀ p, ∃ p', sign ⟨mark ++ (digits ++ tail), p⟩ = (mark, ⟨digits ++ tail, p'⟩))
    (hn : Word.parse? (if (mark == ['-']) = true then '-' :: digits else digits) = some n) :
    Reads number (mark ++ digits) (.int n) tail := by
  intro p
  rcases hsign p with ⟨q, hq⟩
  rcases decimal_reads hne hd ht hn q with ⟨p', hp'⟩
  rcases number_of_digits hne hd ht q with ⟨hinfinity, hnan, hhex⟩
  unfold number
  simp_all

theorem number_reads {n : Int64} (h : Numeral n.toInt text)
    (ht : Stops tail) : Reads number text (.int n) tail := by
  generalize hm : n.toInt = m at h
  have hfits : Word.ofInt? m = some n := by rw [← hm, ofInt?_toInt]
  cases h with
  | plain hne hd =>
    refine number_reads_signed [] hne hd ht ?_ ?_
    · intro p
      refine ⟨p, ?_⟩
      cases text with
      | nil => exact absurd rfl hne
      | cons c digits =>
        have hc := hd c mem_cons_self
        unfold sign
        split
        case h_1 heq => cases heq; exact absurd hc (by decide)
        case h_2 heq => cases heq; exact absurd hc (by decide)
        case h_3 => rfl
    · unfold Word.parse?
      rw [if_neg (by decide), int?_digits hne hd, Option.bind_some, hfits]
  | plus hne hd =>
    refine number_reads_signed ['+'] hne hd ht (fun p => ⟨p.after '+', rfl⟩) ?_
    unfold Word.parse?
    rw [if_neg (by decide), int?_digits hne hd, Option.bind_some, hfits]
  | minus hne hd =>
    refine number_reads_signed ['-'] hne hd ht (fun p => ⟨p.after '-', rfl⟩) ?_
    unfold Word.parse? Digits.int?
    simp [nat?_digits hne hd, hfits]

/-! ### Words and keys -/

theorem span_inWord {name : List Char} (hname : ∀ c ∈ name, inWord c = true)
    (ht : Stops tail) (p : Place) : ∃ p', span inWord ⟨name ++ tail, p⟩ = (name, ⟨tail, p'⟩) :=
  span_append hname (fun c hc => (ht c hc).1) p

theorem key_reads {k : String} (h : KeyText k text) (ht : Stops tail) : Reads key text k tail := by
  intro p
  cases h with
  | quoted h =>
    cases h with
    | @mk quote text hq hw =>
      rcases string_reads hq hw tail p with ⟨p', hp'⟩
      refine ⟨p', ?_⟩
      rcases hq with rfl | rfl
      all_goals exact hp'
  | @bare c text hkey hfirst hrest =>
    have hname : ∀ d ∈ c :: text, inWord d = true := by
      intro d hd
      rcases mem_cons.mp hd with rfl | hd
      · exact inWord_of_startsWord hfirst
      · exact hrest d hd
    rcases span_inWord hname ht p with ⟨p', hp'⟩
    refine ⟨p', ?_⟩
    have hk : String.ofList (c :: text) = k := by rw [← hkey, String.ofList_toList]
    unfold key
    dsimp only [cons_append]
    split
    case h_1 heq => cases heq; exact absurd hfirst (by decide)
    case h_2 heq => cases heq; exact absurd hfirst (by decide)
    case h_3 heq =>
      cases heq
      rw [if_pos hfirst]
      rw [cons_append] at hp'
      rw [hp', hk]
    case h_4 heq => cases heq

end Reader

end Json

end ClassScript
