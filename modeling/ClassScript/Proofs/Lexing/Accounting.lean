import ClassScript.Proofs.Lexing.Gaps
import Mathlib.Data.List.TakeDrop

/-!
# Tokens Account for the Whole Text

A text is its tokens and the gaps between them, and nothing is left out or read twice, since each
scanner returns what it took in front of what it left. `Covers` is the text and the tokens side by
side.
-/

namespace ClassScript

open List

theorem Mark.past_eq (m : Mark) (cs : List Char) :
    m.past cs = ⟨m.offset + (String.ofList cs).utf8ByteSize, m.line + cs.count '\n'⟩ := by
  induction cs generalizing m with
  | nil => rfl
  | cons c cs ih =>
    have hstep : m.past (c :: cs) = (m.next c).past cs := rfl
    have hsize : (String.ofList (c :: cs)).utf8ByteSize =
        c.utf8Size + (String.ofList cs).utf8ByteSize := by
      rw [String.ofList_cons, String.utf8ByteSize_append, String.utf8ByteSize_singleton]
    rw [hstep, Mark.next, hsize]
    grind

theorem Mark.past_first (first : Nat) (cs : List Char) : (⟨0, first⟩ : Mark).past cs =
    ⟨(String.ofList cs).utf8ByteSize, first + cs.count '\n'⟩ := by
  rw [Mark.past_eq, Nat.zero_add]

theorem Mark.past_append (m : Mark) (a b : List Char) : m.past (a ++ b) = (m.past a).past b :=
  foldl_append ..

namespace Lexer

variable {cs taken rest : List Char} {c : Char}

/-- A token takes something from the front of a text. Its text is what it took, unless it is a
    literal. -/
structure Scanned.Reads (s : Scanned) (cs : List Char) : Prop where
  split : s.taken ++ s.rest = cs
  nonempty : s.taken ≠ []
  kind : s.kind ≠ .eof
  text : s.kind ≠ .string → s.kind ≠ .interpolatedString → s.text = s.taken
  body : s.kind = .interpolatedString → s.taken.length = s.text.length + 3

theorem taking_split (a : List Char) (r : List Char × List Char) :
    (taking a r).1 ++ (taking a r).2 = a ++ (r.1 ++ r.2) := by
  simp [taking]

theorem numberTail_split (dotted : Bool) (cs : List Char) :
    (numberTail dotted cs).1 ++ (numberTail dotted cs).2 = cs := by
  fun_induction numberTail dotted cs <;> simp_all [taking_split]

theorem numberSuffix_split (cs : List Char) : (numberSuffix cs).1 ++ (numberSuffix cs).2 = cs := by
  fun_cases numberSuffix cs <;> simp

theorem stringBody_split {value : List Char}
    (hbody : stringBody cs = some (value, taken, rest)) : taken ++ rest = cs := by
  fun_induction stringBody cs generalizing value taken rest with
  | case1 => cases hbody
  | case2 => cases hbody; rfl
  | case3 e cs ih =>
    obtain ⟨⟨value, taken, rest⟩, hbody, ⟨⟩⟩ := Option.map_eq_some_iff.mp hbody
    simp [ih hbody]
  | case4 c cs _ _ ih =>
    obtain ⟨⟨value, taken, rest⟩, hbody, ⟨⟩⟩ := Option.map_eq_some_iff.mp hbody
    simp [ih hbody]

theorem interpolatedBody_split {d : Nat} {q : Bool} {cs body rest : List Char}
    (hbody : interpolatedBody d q cs = some (body, rest)) : body ++ '"' :: rest = cs := by
  -- All rounds but the last put what they took in front of what the others take.
  have hround {a : List Char} {r : Option (List Char × List Char)} {cs body rest : List Char}
      (ih : ∀ {body rest}, r = some (body, rest) → body ++ '"' :: rest = cs)
      (hr : r.map (taking a) = some (body, rest)) : body ++ '"' :: rest = a ++ cs := by
    obtain ⟨⟨body, rest⟩, hrest, ⟨⟩⟩ := Option.map_eq_some_iff.mp hr
    simp [← ih hrest]
  fun_induction interpolatedBody d q cs generalizing body rest with
  | case1 => cases hbody
  | case2 _ _ _ _ ih => exact hround ih hbody
  | case3 _ _ ih => exact hround ih hbody
  | case4 => cases hbody; rfl
  | case5 _ _ _ _ _ ih => exact hround ih hbody
  | case6 => exact hround (by assumption) hbody

theorem plain_reads {kind : TokenKind} (hsplit : taken ++ rest = cs)
    (hne : taken ≠ []) (heof : kind ≠ .eof) (hbody : kind ≠ .interpolatedString) :
    (plain kind taken rest).Reads cs :=
  ⟨hsplit, hne, heof, fun _ _ => rfl, fun h => absurd h hbody⟩

theorem word_reads (c : Char) (cs : List Char) : (word c cs).Reads (c :: cs) := by
  have hsplit : c :: cs.takeWhile isNamePart ++ cs.dropWhile isNamePart = c :: cs :=
    congrArg (c :: ·) takeWhile_append_dropWhile
  unfold word
  rw [span_eq_takeWhile_dropWhile]
  dsimp only
  split
  all_goals exact plain_reads hsplit (by simp) (by simp) (by simp)

theorem number_reads (c : Char) (cs : List Char) : (number c cs).Reads (c :: cs) := by
  have htail := numberTail_split false cs
  have hsuffix := numberSuffix_split (numberTail false cs).2
  refine plain_reads (congrArg (c :: ·) ?_) (by simp) (by simp) (by simp)
  exact (append_assoc ..).trans ((congrArg _ hsuffix).trans htail)

theorem symbols_plain : ∀ e ∈ symbols, e.1 ≠ [] ∧ e.2 ≠ .eof ∧ e.2 ≠ .interpolatedString := by
  decide

theorem symbol_reads (c : Char) (cs : List Char) : (symbol c cs).Reads (c :: cs) := by
  unfold symbol
  split
  · next spelling kind hfound =>
    have hprefix := find?_some hfound
    obtain ⟨hne, heof, hbody⟩ := symbols_plain _ (mem_of_find?_eq_some hfound)
    have hsplit := prefix_iff_eq_append.mp (List.isPrefixOf_iff_prefix.mp hprefix)
    exact plain_reads hsplit hne heof hbody
  · exact plain_reads rfl (by simp) (by simp) (by simp)

theorem scan_reads {s : Scanned} (hs : scan c cs = .ok s) : s.Reads (c :: cs) := by
  unfold scan at hs
  split at hs
  · cases hs
    exact word_reads c cs
  split at hs
  · cases hs
    exact number_reads c cs
  split at hs
  · split at hs
    · next value taken rest hbody =>
      cases hs
      have hsplit := stringBody_split hbody
      exact ⟨congrArg ('"' :: ·) hsplit, by simp, by simp, fun h => absurd rfl h, nofun⟩
    · cases hs
  · split at hs
    · next cs body rest hbody =>
      cases hs
      have hsplit := interpolatedBody_split hbody
      refine ⟨?_, by simp, by simp, fun _ h => absurd rfl h, fun _ => by simp⟩
      simp [← hsplit]
    · cases hs
  · cases hs
    exact symbol_reads _ _

theorem scan_lexical {problem : SyntaxProblem}
    (hs : scan c cs = .error problem) : problem.isLexical = true := by
  unfold scan at hs
  split at hs
  · cases hs
  split at hs
  · cases hs
  split at hs
  · split at hs
    · cases hs
    · cases hs
      rfl
  · split at hs
    · cases hs
    · cases hs
      rfl
  · cases hs

/-- Tokens and gaps make up a text that begins at a position. -/
inductive Covers : Mark → List Char → List Token → Prop
  | done (m : Mark) (gap : List Char) (hgap : Trivia true gap) :
      Covers m gap [⟨.eof, "", (m.past gap).upTo (m.past gap)⟩]
  | token (m : Mark) (gap : List Char) (s : Scanned) (ts : List Token) (hgap : Trivia false gap)
      (hs : s.Reads (s.taken ++ s.rest)) (hts : Covers ((m.past gap).past s.taken) s.rest ts) :
      Covers m (gap ++ (s.taken ++ s.rest))
        (⟨s.kind, String.ofList s.text, (m.past gap).upTo ((m.past gap).past s.taken)⟩ :: ts)

theorem tokensFrom_covers {n : Nat} {m : Mark} {ts : List Token}
    (hts : tokensFrom n m cs = .ok ts) : Covers m cs ts := by
  induction n generalizing m cs ts with
  | zero => cases hts
  | succ n ih =>
    obtain ⟨gap, rest, hgap, rfl, htrivia⟩ := trivia_splits cs
    simp only [tokensFrom, hgap] at hts
    cases rest with
    | nil =>
      cases hts
      rw [append_nil]
      exact .done m gap htrivia
    | cons c cs =>
      dsimp only at hts
      split at hts
      · cases hts
      · next s hs =>
        split at hts
        · cases hts
        · next ts hmore =>
          cases hts
          have hreads := scan_reads hs
          rw [← hreads.split] at hreads
          rw [← (scan_reads hs).split]
          exact .token m gap s ts htrivia hreads (ih hmore)

section

variable {n : Nat} {m : Mark} {cs : List Char} {e : SyntaxError} (hn : cs.length < n)
  (he : tokensFrom n m cs = .error e)
include hn he

theorem tokensFrom_lexical : e.problem.isLexical = true := by
  induction n generalizing m cs with
  | zero => exact absurd hn (Nat.not_lt_zero _)
  | succ n ih =>
    obtain ⟨gap, rest, hgap, rfl, _⟩ := trivia_splits cs
    simp only [tokensFrom, hgap] at he
    cases rest with
    | nil => cases he
    | cons c cs =>
      dsimp only at he
      split at he
      · next problem hs =>
        cases he
        exact scan_lexical hs
      · next s hs =>
        split at he
        · next e' hmore =>
          -- A token takes at least one character.
          have hreads := scan_reads hs
          have hlength := congrArg List.length hreads.split
          have hpos := length_pos_iff.mpr hreads.nonempty
          grind
        · cases he

theorem tokensFrom_ne_exhausted : e.problem ≠ .exhausted := by
  intro hproblem
  have hlexical := tokensFrom_lexical hn he
  rw [hproblem] at hlexical
  cases hlexical

end

end Lexer

/-- A token is a stretch of the source, and its span says which. -/
structure Token.StandsAt (t : Token) (source : String) (first : Nat)
    (before taken after : String) : Prop where
  split : source = before ++ taken ++ after
  start : t.span.start = before.utf8ByteSize
  stop : t.span.stop = (before ++ taken).utf8ByteSize
  line : t.span.line = first + before.toList.count '\n'
  nonempty : t.kind ≠ .eof → taken ≠ ""
  text : t.kind ≠ .string → t.kind ≠ .interpolatedString → t.text = taken

def SeparatedIn (source : String) (start stop : Nat) (final : Bool) : Prop :=
  ∃ before gap after : String, source = before ++ gap ++ after ∧ before.utf8ByteSize = start ∧
    (before ++ gap).utf8ByteSize = stop ∧ Lexer.Trivia final gap.toList

namespace Token.StandsAt

variable {t : Token} {source before taken after : String} {first : Nat}

theorem start_lt_stop (ht : t.StandsAt source first before taken after) (hkind : t.kind ≠ .eof) :
    t.span.start < t.span.stop := by
  have hpos : taken.utf8ByteSize ≠ 0 := fun h =>
    ht.nonempty hkind (String.utf8ByteSize_eq_zero_iff.mp h)
  rw [ht.start, ht.stop, String.utf8ByteSize_append]
  omega

end Token.StandsAt

namespace Lexer.Covers

variable {m : Mark} {cs : List Char} {ts : List Token}

theorem ends (hc : Covers m cs ts) : ∃ words last, ts = words ++ [last] ∧
    last.kind = .eof ∧ last.span.start = (m.past cs).offset ∧
    last.span.stop = (m.past cs).offset ∧ ∀ t ∈ words, t.kind ≠ .eof := by
  induction hc with
  | done m gap _ => exact ⟨[], _, rfl, rfl, rfl, rfl, by simp⟩
  | token m gap s ts _ hs _ ih =>
    obtain ⟨words, last, rfl, hlast, hstart, hstop, hwords⟩ := ih
    rw [← Mark.past_append, ← Mark.past_append] at hstart hstop
    refine ⟨_ :: words, last, rfl, hlast, hstart, hstop, ?_⟩
    simpa using ⟨hs.kind, hwords⟩

theorem le_start (hc : Covers m cs ts) : ∀ t ∈ ts, m.offset ≤ t.span.start := by
  have hle (m : Mark) (cs : List Char) : m.offset ≤ (m.past cs).offset := by
    rw [Mark.past_eq]
    exact Nat.le_add_right _ _
  induction hc with
  | done m gap _ => exact forall_mem_singleton.mpr (hle m gap)
  | token m gap s ts _ _ _ ih =>
    rintro t (_ | ⟨_, ht⟩)
    · exact hle m gap
    · exact Nat.le_trans (hle m gap) (Nat.le_trans (hle _ s.taken) (ih t ht))

theorem ordered (hc : Covers m cs ts) : ts.Pairwise fun t u => t.span.stop ≤ u.span.start := by
  induction hc with
  | done m gap _ => exact pairwise_singleton _ _
  | token m gap s ts _ _ hts ih => exact pairwise_cons.mpr ⟨hts.le_start, ih⟩

variable {first : Nat} {before : List Char}

section

variable (hc : Covers ((⟨0, first⟩ : Mark).past before) cs ts)
variable {u : Token}

include hc

theorem standsAt : ∀ t ∈ ts,
    ∃ b taken a, t.StandsAt (String.ofList (before ++ cs)) first b taken a := by
  generalize hm : (⟨0, first⟩ : Mark).past before = m at hc
  induction hc generalizing before with
  | done m gap _ =>
    have hgap : m.past gap = (⟨0, first⟩ : Mark).past (before ++ gap) := by
      rw [Mark.past_append, hm]
    rw [forall_mem_singleton, hgap, Mark.past_first]
    exact ⟨String.ofList (before ++ gap), "", "", by simp, rfl, by simp [Mark.upTo],
      by simp [Mark.upTo], by simp, by simp⟩
  | token m gap s ts _ hs _ ih =>
    have hgap : m.past gap = (⟨0, first⟩ : Mark).past (before ++ gap) := by
      rw [Mark.past_append, hm]
    rintro t (_ | ⟨_, ht⟩)
    · rw [hgap, ← Mark.past_append, Mark.past_first, Mark.past_first]
      refine ⟨String.ofList (before ++ gap), String.ofList s.taken, String.ofList s.rest,
        by simp [String.append_assoc], rfl, by simp [Mark.upTo, Nat.add_assoc],
        by simp [Mark.upTo], ?_, ?_⟩
      · intro _ hempty
        exact hs.nonempty (by simpa using congrArg String.toList hempty)
      · intro hstring hinterpolated
        exact congrArg String.ofList (hs.text hstring hinterpolated)
    · have hmark : (⟨0, first⟩ : Mark).past (before ++ gap ++ s.taken) =
          (m.past gap).past s.taken := by
        rw [hgap, Mark.past_append]
      have hmore := ih hmark t ht
      simpa using hmore

theorem separated_head (hu : ts.head? = some u) :
    SeparatedIn (String.ofList (before ++ cs))
      (String.ofList before).utf8ByteSize u.span.start (u.kind == .eof) := by
  generalize hm : (⟨0, first⟩ : Mark).past before = m at hc
  have hgap (gap : List Char) : (m.past gap).offset =
      (String.ofList before ++ String.ofList gap).utf8ByteSize := by
    rw [← hm, ← Mark.past_append, Mark.past_first, String.ofList_append]
  cases hc with
  | done _ _ htrivia =>
    cases hu
    exact ⟨String.ofList before, String.ofList cs, "", by simp, rfl, (hgap cs).symm,
      by simpa using htrivia⟩
  | token _ gap s ts htrivia hs _ =>
    cases hu
    have hkind : (s.kind == .eof) = false := beq_eq_false_iff_ne.mpr hs.kind
    refine ⟨String.ofList before, String.ofList gap, String.ofList (s.taken ++ s.rest),
      by simp [String.append_assoc], rfl, (hgap gap).symm, ?_⟩
    rwa [hkind, String.toList_ofList]

theorem separated {t : Token} (hpair : [t, u] <:+: ts) :
    SeparatedIn (String.ofList (before ++ cs))
      t.span.stop u.span.start (u.kind == .eof) := by
  generalize hm : (⟨0, first⟩ : Mark).past before = m at hc
  induction hc generalizing before with
  | done m gap _ => exact absurd hpair.length_le (by simp)
  | token m gap s ts _ _ hts ih =>
    have hmark : (⟨0, first⟩ : Mark).past (before ++ (gap ++ s.taken)) =
        (m.past gap).past s.taken := by
      rw [Mark.past_append, hm, Mark.past_append]
    have htext : before ++ (gap ++ (s.taken ++ s.rest)) =
        before ++ (gap ++ s.taken) ++ s.rest := by simp
    rw [htext]
    rcases infix_cons_iff.mp hpair with hprefix | hinfix
    · -- The two are this token and the first one behind it.
      obtain ⟨rfl, more, rfl⟩ : t = _ ∧ [u] <+: ts := cons_prefix_cons.mp hprefix
      rw [← hmark] at hts ⊢
      have hhead := hts.separated_head rfl
      rwa [Mark.upTo, Mark.past_first first (before ++ (gap ++ s.taken))]
    · exact ih hinfix hmark

end

end Lexer.Covers

/-- A text is split into tokens, or a literal in it has no end. Each token stands where its span
    says and has the text that stands there, and between any two neighbours there are only blanks
    and comments. -/
theorem tokenize_accounts (source : String) (first : Nat) :
    (∃ e, tokenize source first = .error e ∧ e.problem.isLexical = true) ∨
      ∃ words last, tokenize source first = .ok (words ++ [last]) ∧
        last.kind = .eof ∧ last.span.start = source.utf8ByteSize ∧
        last.span.stop = source.utf8ByteSize ∧
        (∀ t ∈ words, t.kind ≠ .eof ∧ t.span.start < t.span.stop) ∧
        (∀ t ∈ words ++ [last],
          ∃ before taken after, t.StandsAt source first before taken after) ∧
        (words ++ [last]).Pairwise (fun t u => t.span.stop ≤ u.span.start) ∧
        (∀ u, (words ++ [last]).head? = some u →
          SeparatedIn source 0 u.span.start (u.kind == .eof)) ∧
        (∀ t u, [t, u] <:+: words ++ [last] →
          SeparatedIn source t.span.stop u.span.start (u.kind == .eof)) := by
  cases hts : tokenize source first with
  | error e => exact .inl ⟨e, rfl, Lexer.tokensFrom_lexical (Nat.lt_succ_self _) hts⟩
  | ok ts =>
    right
    have hc : Lexer.Covers ((⟨0, first⟩ : Mark).past []) source.toList ts :=
      Lexer.tokensFrom_covers hts
    obtain ⟨words, last, rfl, hlast, hstart, hstop, hwords⟩ := hc.ends
    have hstands := hc.standsAt
    have hhead {u : Token} := hc.separated_head (u := u)
    have hgaps {t u : Token} := hc.separated (t := t) (u := u)
    rw [nil_append, String.ofList_toList] at hstands
    simp only [nil_append, String.ofList_toList] at hhead hgaps
    rw [← Mark.past_append, Mark.past_first, nil_append, String.ofList_toList]
      at hstart hstop
    refine ⟨words, last, rfl, hlast, hstart, hstop, ?_, hstands, hc.ordered, fun _ => hhead,
      fun _ _ => hgaps⟩
    intro t ht
    obtain ⟨_, _, _, hat⟩ := hstands t (mem_append_left _ ht)
    exact ⟨hwords t ht, hat.start_lt_stop (hwords t ht)⟩

-- Line breaks count inside of comments and literals too, and characters of several bytes.
example : tokenize "/* é /* \n */ */ \"\n\\n\" // …\n(1.5d) /* open" 7 = .ok
    [⟨.string, "\n\n", 17, 22, 8⟩, ⟨.lParen, "(", 30, 31, 10⟩, ⟨.number, "1.5d", 31, 35, 10⟩,
     ⟨.rParen, ")", 35, 36, 10⟩, ⟨.eof, "", 44, 44, 10⟩] := by cbv

end ClassScript
