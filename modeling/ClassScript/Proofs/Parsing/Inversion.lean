import ClassScript.Syntax.Parser
import ClassScript.Proofs.Parsing.Levels

/-!
# Reading Inverts Writing

Every expression whose operands are grouped where they have to be is read back from its words. Parts
in brackets are read by the grammar with one nesting less, so as many nestings as there are words
are enough.
-/

namespace ClassScript

open List Parse Token TokenKind

namespace Grammar

variable {g : Grammar} {line : Nat} {p : Phrase}
variable {words : List Lexeme} {q : Phrase} {positional : List Phrase}
  {named : List (String × Phrase)}

variable {word : String} {op : BinaryOp} {e : Expr} {tokens : List Token} {as : List Argument}
variable {n : Nat}

def Enters (g : Grammar) (line : Nat) (p : Phrase) : Prop :=
  Parse.Reads line g.expression p.render (TokenKind.Stops 0) p.Describes

/-! ### Primary expressions -/

theorem Knows.of_continues (hp : p.fits = true) (h9 : p.strength = 9)
    (h : g.Continues line 9 p) : g.Knows line p := by
  have hreads : g.ReadsAt line 9 p := h.readsAt (.inr rfl)
  rw [← h9] at h hreads
  refine .of_strength hreads (fun _ => h) (fun _ => ?_)
  exact (h9 ▸ hreads).signed (p.render_unsigned hp (Nat.le_of_eq h9.symm))

theorem Continues.of_primary (h : Parse.Reads line g.primary p.render (fun _ => True) p.Describes) :
    g.Continues line 9 p := by
  intro tokens before next rest hspells hbefore _
  obtain ⟨e, last, he, hlast, hread⟩ := h tokens before next rest hspells hbefore trivial
  refine ⟨e, last, he, hlast, ?_⟩
  change Parse.Loops _ _ _ (g.postfixed _)
  unfold postfixed
  rw [bind_of_ok hread]
  exact .start

theorem knows_word {k : TokenKind} (hp : p.fits = true) (h9 : p.strength = 9)
    (hrender : p.render = [⟨k, word⟩])
    (h : ∀ text span before rest, (⟨k, text, span⟩ : Token).lexeme = ⟨k, word⟩ →
      ∃ e, p.Describes e ∧
        g.primary ⟨before, ⟨k, text, span⟩ :: rest⟩ = .ok (e, ⟨⟨k, text, span⟩, rest⟩)) :
    g.Knows line p := by
  refine .of_continues hp h9 (.of_primary ?_)
  intro tokens before next rest hspells hbefore _
  rw [hrender] at hspells
  obtain ⟨text, span, ts, rfl, ht, hline, hts⟩ := hspells.word_inv
  obtain rfl := hts.nil_inv
  obtain ⟨e, he, hread⟩ := h text span before (next :: rest) ht
  exact ⟨e, _, he, hline, hread⟩

theorem knows_truth (b : Bool) : g.Knows line (.truth b) := by
  cases b with
  | true => exact knows_word rfl rfl rfl fun _ span _ _ _ => ⟨_, .truth span true, rfl⟩
  | false => exact knows_word rfl rfl rfl fun _ span _ _ _ => ⟨_, .truth span false, rfl⟩

theorem knows_null : g.Knows line .null :=
  knows_word rfl rfl rfl fun _ span _ _ _ => ⟨_, .null span, rfl⟩

theorem knows_this : g.Knows line .this :=
  knows_word rfl rfl rfl fun _ span _ _ _ => ⟨_, .this span, rfl⟩

theorem knows_string (word : String) : g.Knows line (.string word) := by
  refine knows_word rfl rfl rfl fun text span before rest ht => ?_
  obtain rfl : text = word := text_of_lexeme ht (.inr (.inr rfl))
  exact ⟨_, .string span text, rfl⟩

theorem knows_name (word : String) : g.Knows line (.name word) := by
  refine knows_word rfl rfl rfl fun text span before rest ht => ?_
  obtain rfl : text = word := text_of_lexeme ht (.inl rfl)
  exact ⟨_, .name span text, rfl⟩

theorem knows_number (hp : (Phrase.number word).fits = true) : g.Knows line (.number word) := by
  refine knows_word hp rfl rfl fun text span before rest ht => ?_
  obtain rfl : text = word := text_of_lexeme ht (.inr (.inl rfl))
  obtain ⟨value, hvalue⟩ := Option.isSome_iff_exists.mp hp
  exact ⟨_, .number span hvalue, by simp [primary, hvalue]⟩

theorem knows_super (word : String) : g.Knows line (.super word) := by
  refine .of_continues rfl rfl (.of_primary ?_)
  intro tokens before next rest hspells hbefore _
  obtain ⟨_, span, ts, rfl, -, -, hts⟩ := hspells.word_inv
  obtain ⟨_, _, us, rfl, -, -, hus⟩ := hts.word_inv
  obtain ⟨text, span', vs, rfl, hname, hline, hvs⟩ := hus.word_inv
  obtain rfl := hvs.nil_inv
  obtain rfl : text = word := text_of_lexeme hname (.inl rfl)
  exact ⟨_, _, .super (span.to span') text, hline, rfl⟩

/-! ### Brackets -/

theorem Knows.bracket {α : Type} {opening closing : TokenKind}
    {inside : Parse α} {stops : TokenKind → Prop} {Means : α → Prop} (build : Span → α → Expr)
    (hp : p.fits = true) (h9 : p.strength = 9)
    (hrender : p.render = .mark opening :: (words ++ [.mark closing]))
    (hprimary : ∀ text span before rest a text' span' last more,
      inside ⟨⟨opening, text, span⟩, rest⟩ = .ok (a, ⟨last, ⟨closing, text', span'⟩ :: more⟩) →
        g.primary ⟨before, ⟨opening, text, span⟩ :: rest⟩ =
          .ok (build (span.to span') a, ⟨⟨closing, text', span'⟩, more⟩))
    (hinside : Parse.Reads line inside words stops Means) (hclosing : stops closing)
    (hbuild : ∀ span a, Means a → p.Describes (build span a)) : g.Knows line p := by
  refine .of_continues hp h9 (.of_primary ?_)
  intro tokens before next rest hspells hbefore _
  rw [hrender] at hspells
  obtain ⟨text, span, us, text', span', rfl, hline, hline', hus⟩ := hspells.bracket_inv
  obtain ⟨a, last, ha, -, hread⟩ := hinside us ⟨opening, text, span⟩ ⟨closing, text', span'⟩
    (next :: rest) hus hline hclosing
  refine ⟨_, ⟨closing, text', span'⟩, hbuild (span.to span') a ha, hline', ?_⟩
  grind

theorem Knows.group (hp : (Phrase.group p).fits = true) (h : g.Enters line p) :
    g.Knows line (.group p) := by
  refine .bracket .group hp rfl rfl ?_ h (stops_of_none rfl 0)
    (fun span e he => Phrase.Describes.group span he)
  intro text span before rest e text' span' last more hread
  simp [primary, hread]

theorem Knows.list {items : List Phrase} (hp : (Phrase.list items).fits = true)
    (h : ∀ q ∈ items, g.Enters line q) : g.Knows line (.list items) := by
  have hitems : Parse.Reads line (Parse.trailing .rBracket g.expression)
      (commaSeparated (items.map Phrase.render)) (· = .rBracket)
      (List.Forall₂ Phrase.Describes items) := by
    refine reads_trailing nofun rfl (fun q hq => (h q hq).mono ?_)
      (fun q _ => q.render_opens.begins)
    rintro k (rfl | rfl) <;> exact stops_of_none rfl 0
  rw [← Phrase.segments_eq] at hitems
  refine .bracket .list hp rfl rfl ?_ hitems rfl (fun span es hes => Phrase.Describes.list span hes)
  intro text span before rest es text' span' last more hread
  simp [primary, hread]

def EntryMeans (x : Phrase × Phrase) (e : Expr × Expr) : Prop :=
  x.1.Describes e.1 ∧ x.2.Describes e.2

theorem reads_entry {x : Phrase × Phrase} (hkey : g.Enters line x.1) (hvalue : g.Enters line x.2) :
    Parse.Reads line g.entry (Phrase.entryWords x) (TokenKind.Stops 0) (EntryMeans x) := by
  intro tokens before next rest hspells hbefore hnext
  obtain ⟨ts, us, rfl, hts, hus⟩ := hspells.append_inv
  obtain ⟨text, span, vs, rfl, -, hline, hvs⟩ := hus.word_inv
  obtain ⟨key, last, hk, -, hreadKey⟩ := hkey ts before ⟨.colon, text, span⟩ (vs ++ next :: rest)
    hts hbefore (stops_of_none rfl 0)
  obtain ⟨value, last', hv, hlast, hreadValue⟩ := hvalue vs ⟨.colon, text, span⟩ next rest hvs hline
    hnext
  refine ⟨(key, value), last', ⟨hk, hv⟩, hlast, ?_⟩
  simp [entry, hreadKey, hreadValue]

theorem Knows.dict {entries : List (Phrase × Phrase)} (hp : (Phrase.dict entries).fits = true)
    (h : ∀ e ∈ entries, g.Enters line e.1 ∧ g.Enters line e.2) : g.Knows line (.dict entries) := by
  have hentries : Parse.Reads line (Parse.trailing .rBrace g.entry)
      (commaSeparated (entries.map Phrase.entryWords)) (· = .rBrace)
      (List.Forall₂ EntryMeans entries) := by
    refine reads_trailing nofun rfl (fun e he => (reads_entry (h e he).1 (h e he).2).mono ?_)
      (fun e _ => e.1.render_opens.begins.append _)
    rintro k (rfl | rfl) <;> exact stops_of_none rfl 0
  rw [← Phrase.entrySegments_eq] at hentries
  refine .bracket .dict hp rfl rfl ?_ hentries rfl
    (fun span es hes => Phrase.Describes.dict span ?_ ?_)
  · intro text span before rest es text' span' last more hread
    simp [primary, hread]
  · exact forall₂_map_left_iff.mpr (forall₂_map_right_iff.mpr (hes.imp fun _ _ h => h.1))
  · exact forall₂_map_left_iff.mpr (forall₂_map_right_iff.mpr (hes.imp fun _ _ h => h.2))

/-! ### Operators -/

theorem Knows.of_readsAt (l : Nat) (hl : p.strength = l) (hlt : l < 8) (hloop : l ∉ binaryLevels)
    (h : g.ReadsAt line l p) : g.Knows line p := by
  subst hl
  refine .of_strength h ?_ (fun h8 => absurd hlt (Nat.not_lt_of_le h8))
  grind

theorem Knows.unary {op : UnaryOp} (hp : (Phrase.unary op p).fits = true) (h : g.Knows line p) :
    g.Knows line (.unary op p) := by
  simp only [Phrase.fits, Bool.and_eq_true, decide_eq_true_eq] at hp
  have hsigned : g.Signed line (.unary op p) := (h.signed hp.1).unary
  refine .of_strength hsigned.readsAt ?_ (fun _ => hsigned)
  rintro (hloop | hloop)
  · simp [Phrase.strength, binaryLevels] at hloop
  · simp [Phrase.strength] at hloop

theorem reads_binaryStep (he : p.Describes e) (hq : g.ReadsAt line (op.strength + 1) q) :
    Parse.Reads line (g.extension op.strength e) (.mark op.kind :: q.render)
      (TokenKind.Stops (op.strength + 1))
      (fun r => ∃ f, r = some f ∧ (Phrase.binary op p q).Describes f) := by
  intro tokens before next rest hspells hbefore hnext
  obtain ⟨text, span, ts, rfl, -, hline, hts⟩ := hspells.word_inv
  obtain ⟨f, last, hf, hlast, hread⟩ := hq ts ⟨op.kind, text, span⟩ next rest hts hline hnext
  refine ⟨_, last, ⟨_, rfl, .binary (e.span.to f.span) he hf⟩, hlast, ?_⟩
  have heof : op.kind ≠ .eof := by cases op <;> decide
  rw [extension_eq g (strength_mem_binaryLevels op)]
  simp [binaryStep, opsAt_kind, heof, hread]

theorem Knows.binary (hp : (Phrase.binary op p q).fits = true)
    (hl : g.Knows line p) (hr : g.Knows line q) : g.Knows line (.binary op p q) := by
  simp only [Phrase.fits, Bool.and_eq_true, decide_eq_true_eq] at hp
  have hlevel := strength_mem_binaryLevels op
  have hcontinues : g.Continues line op.strength (.binary op p q) := by
    refine (hl.continues _ hp.1.1.1 (.inl hlevel)).extend rfl ?_
      (fun e he => reads_binaryStep he (hr.reads _ hp.1.1.2))
    exact stops_of_some op.strength?_kind (Nat.lt_succ_self _)
  refine .of_strength (hcontinues.readsAt (.inl hlevel)) (fun _ => hcontinues) ?_
  intro h8
  have hle := op.strength_le
  simp only [Phrase.strength] at h8
  omega

theorem Knows.range (hp : (Phrase.range p q).fits = true) (hf : g.Knows line p)
    (hl : g.Knows line q) : g.Knows line (.range p q) := by
  simp only [Phrase.fits, Bool.and_eq_true, decide_eq_true_eq] at hp
  have hreads : g.ReadsAt line 5 (.range p q) := by
    intro tokens before next rest hspells hbefore hnext
    obtain ⟨ts, us, rfl, hts, hus⟩ := hspells.append_inv
    obtain ⟨text, span, vs, rfl, -, hline, hvs⟩ := hus.word_inv
    obtain ⟨e, last, he, -, hread⟩ := hf.reads 6 hp.1.1.1 ts before ⟨.dotDot, text, span⟩
      (vs ++ next :: rest) hts hbefore (stops_of_some rfl (by omega))
    obtain ⟨f, last', hf', hlast', hread'⟩ := hl.reads 6 hp.1.1.2 vs ⟨.dotDot, text, span⟩ next rest
      hvs hline (hnext.mono (by omega))
    refine ⟨_, last', .range (e.span.to f.span) he hf', hlast', ?_⟩
    change g.term _ = _ at hread hread'
    change g.range _ = _
    simp [Grammar.range, hread, hread']
  exact .of_readsAt 5 rfl (by decide) (by decide) hreads

theorem Knows.assign {op : Option BinaryOp}
    (hp : (Phrase.assign p op q).fits = true) (ht : g.Knows line p) (hv : g.Enters line q) :
    g.Knows line (.assign p op q) := by
  simp only [Phrase.fits, Bool.and_eq_true, decide_eq_true_eq] at hp
  have hreads : g.ReadsAt line 0 (.assign p op q) := by
    intro tokens before next rest hspells hbefore hnext
    obtain ⟨ts, us, rfl, hts, hus⟩ := hspells.append_inv
    obtain ⟨text, span, vs, rfl, -, hline, hvs⟩ := hus.word_inv
    obtain ⟨e, last, he, -, hread⟩ := ht.reads 1
      (by rw [Phrase.strength_of_isTarget hp.1.1.1]; omega) ts before ⟨assignSign op, text, span⟩
      (vs ++ next :: rest) hts hbefore
      (stops_of_some (strength?_assignSign op) (by omega))
    obtain ⟨f, last', hf, hlast', hread'⟩ := hv vs ⟨assignSign op, text, span⟩ next rest hvs hline
      hnext
    refine ⟨_, last', .assign (e.span.to f.span) he hf, hlast', ?_⟩
    have heof : assignSign op ≠ .eof := by
      intro h
      have hstrength := strength?_assignSign op
      rw [h] at hstrength
      cases hstrength
    change g.disjunction _ = _ at hread
    change g.assignment _ = _
    simp [Grammar.assignment, hread, hread', hp.1.1.2, heof, he.isTarget hp.1.1.1]
  exact .of_readsAt 0 rfl (by decide) (by decide) hreads

/-! ### Calls, indices and members -/

theorem Knows.suffix {sign : TokenKind}
    (hq : q.fits = true) (hq9 : q.strength = 9) (hp9 : 9 ≤ p.strength) (h : g.Knows line p)
    (hrender : q.render = p.render ++ .mark sign :: words) (hsign : sign.strength? = some 9)
    (hstep : ∀ e, p.Describes e → Parse.Reads line (g.suffix? e) (.mark sign :: words)
      (fun _ => True) (fun r => ∃ f, r = some f ∧ q.Describes f)) : g.Knows line q := by
  refine .of_continues hq hq9 ?_
  refine (h.continues 9 hp9 (.inr rfl)).extend hrender (stops_of_some hsign (by omega)) ?_
  exact fun e he => (hstep e he).mono fun _ _ => trivial

theorem Knows.member {name : String} (hp : (Phrase.member p name).fits = true)
    (h : g.Knows line p) : g.Knows line (.member p name) := by
  have hp' := hp
  simp only [Phrase.fits, Bool.and_eq_true, decide_eq_true_eq] at hp'
  refine h.suffix hp rfl hp'.1 rfl rfl fun e he => ?_
  intro tokens before next rest hspells hbefore _
  obtain ⟨text, span, ts, rfl, -, hline, hts⟩ := hspells.word_inv
  obtain ⟨text', span', us, rfl, hname, hline', hus⟩ := hts.word_inv
  obtain rfl := hus.nil_inv
  obtain rfl : text' = name := text_of_lexeme hname (.inl rfl)
  refine ⟨_, ⟨.identifier, text', span'⟩, ⟨_, rfl, .member (e.span.to span') he text'⟩, hline', ?_⟩
  simp [suffix?, Parse.expectName]

theorem Knows.index (hp : (Phrase.index p q).fits = true) (h : g.Knows line p)
    (hi : g.Enters line q) : g.Knows line (.index p q) := by
  have hp' := hp
  simp only [Phrase.fits, Bool.and_eq_true, decide_eq_true_eq] at hp'
  refine h.suffix hp rfl hp'.1.1 rfl rfl fun e he => ?_
  intro tokens before next rest hspells hbefore _
  obtain ⟨text, span, us, text', span', rfl, hline, hline', hus⟩ := hspells.bracket_inv
  obtain ⟨f, last, hf, -, hread⟩ := hi us ⟨.lBracket, text, span⟩ ⟨.rBracket, text', span'⟩
    (next :: rest) hus hline (stops_of_none rfl 0)
  refine ⟨_, ⟨.rBracket, text', span'⟩, ⟨_, rfl, .index (e.span.to span') he hf⟩, hline', ?_⟩
  simp [suffix?, hline, hbefore, hread]

def argumentWords : Option String × Phrase → List Lexeme
  | (none, p) => p.render
  | (some name, p) => Phrase.namedWords (name, p)

def writtenArguments (positional : List Phrase) (named : List (String × Phrase)) :
    List (Option String × Phrase) :=
  positional.map (none, ·) ++ named.map fun a => (some a.1, a.2)

def ArgumentMeans (x : Option String × Phrase) (a : Argument) : Prop :=
  a.name = x.1 ∧ x.2.Describes a.value

/-- An argument without a name follows only such, and one with a name follows none of the same name.
    -/
def MayFollow (before after : Option String) : Prop :=
  match after with
  | none => before = none
  | some name => before ≠ some name

theorem segments_writtenArguments (positional : List Phrase) (named : List (String × Phrase)) :
    Phrase.segments positional ++ Phrase.namedSegments named =
      (writtenArguments positional named).map argumentWords := by
  rw [Phrase.segments_eq, Phrase.namedSegments_eq, writtenArguments, map_append, map_map,
    map_map]
  rfl

theorem writtenArguments_pairwise (h : (named.map (·.1)).Nodup) :
    (writtenArguments positional named).Pairwise fun a b => MayFollow a.1 b.1 := by
  refine pairwise_append.mpr ⟨?_, ?_, ?_⟩
  · exact pairwise_map.mpr (pairwise_of_forall fun _ _ => rfl)
  · refine pairwise_map.mpr ((pairwise_map.mp h).imp fun hne => ?_)
    exact fun heq => hne (Option.some.inj heq)
  · intro a ha b hb
    obtain ⟨_, _, rfl⟩ := mem_map.mp ha
    obtain ⟨_, _, rfl⟩ := mem_map.mp hb
    exact nofun

theorem checkName_of_opens (h : Opens words)
    (hspells : Spells line tokens words) {next : Token} (hnext : next.kind ≠ .colon)
    (before : Token) (rest : List Token) :
    Parse.checkSecond .colon ⟨before, tokens ++ next :: rest⟩ =
      .ok (false, ⟨before, tokens ++ next :: rest⟩) := by
  cases h with
  | single hl =>
    -- The second word is the one after the expression.
    obtain ⟨t, ts, rfl, -, -, hts⟩ := hspells.cons_inv
    obtain rfl := hts.nil_inv
    simp [Parse.checkSecond, hnext]
  | more hl hm more =>
    -- The second word still belongs to the expression.
    obtain ⟨t, ts, rfl, -, -, hts⟩ := hspells.cons_inv
    obtain ⟨u, us, rfl, rfl, -, -⟩ := hts.cons_inv
    rw [u.lexeme_kind] at hm
    simp [Parse.checkSecond, hm]

theorem reads_argument {x : Option String × Phrase} {done : List Argument}
    (h : g.Enters line x.2) (hdone : ∀ a ∈ done, MayFollow a.name x.1) :
    Parse.Reads line (g.argument done) (argumentWords x) (fun k => k = .comma ∨ k = .rParen)
      (ArgumentMeans x) := by
  intro tokens before next rest hspells hbefore hnext
  have hstops : next.kind.Stops 0 := by
    rcases hnext with hnext | hnext <;> exact stops_of_none (by rw [hnext]; rfl) 0
  have hcolon : next.kind ≠ .colon := by grind
  obtain ⟨name, p⟩ := x
  cases name with
  | none =>
    have hnames : done.any (·.name.isSome) = false := by
      rw [any_eq_false]
      intro a ha
      have hname : a.name = none := hdone a ha
      simp [hname]
    obtain ⟨e, last, he, hlast, hread⟩ := h tokens before next rest hspells hbefore hstops
    have hcheck := checkName_of_opens p.render_opens hspells hcolon before rest
    refine ⟨⟨none, e⟩, last, ⟨rfl, he⟩, hlast, ?_⟩
    have hfirst : Parse.check .identifier ⟨before, tokens ++ next :: rest⟩ =
      .ok (Cursor.at? ⟨before, tokens ++ next :: rest⟩ .identifier, _) := rfl
    simp [argument, hfirst, hcheck, hnames, hread]
  | some name =>
    obtain ⟨text, span, ts, rfl, hname, -, hts⟩ := hspells.word_inv
    obtain ⟨text', span', us, rfl, -, hline, hus⟩ := hts.word_inv
    obtain rfl : text = name := text_of_lexeme hname (.inl rfl)
    have hnames : ¬ ∃ a ∈ done, a.name = some text := by
      rintro ⟨a, ha, hname'⟩
      exact hdone a ha hname'
    obtain ⟨e, last, he, hlast, hread⟩ := h us ⟨.colon, text', span'⟩ next rest hus hline hstops
    refine ⟨⟨some text, e⟩, last, ⟨rfl, he⟩, hlast, ?_⟩
    simp [argument, Parse.checkSecond, hnames, hread]

theorem mayFollow_of_done {pre : List (Option String × Phrase)}
    {name : Option String} (has : List.Forall₂ ArgumentMeans pre as)
    (h : ∀ x ∈ pre, MayFollow x.1 name) : ∀ a ∈ as, MayFollow a.name name := by
  induction has with
  | nil => nofun
  | cons ha _ ih =>
    have hcons := forall_mem_cons.mp h
    refine forall_mem_cons.mpr ⟨?_, ih hcons.2⟩
    rw [ha.1]
    exact hcons.1

theorem begins_argumentWords (x : Option String × Phrase) : Begins (argumentWords x) := by
  obtain ⟨name, p⟩ := x
  cases name with
  | none => exact p.render_opens.begins
  | some name => exact ⟨_, _, rfl, rfl⟩

theorem reads_arguments {xs : List (Option String × Phrase)} (h : ∀ x ∈ xs, g.Enters line x.2)
    (hxs : xs.Pairwise fun a b => MayFollow a.1 b.1) :
    Parse.Reads line g.arguments (commaSeparated (xs.map argumentWords)) (· = .rParen)
      (List.Forall₂ ArgumentMeans xs) := by
  by_cases hne : xs = []
  · subst hne
    intro tokens before next rest hspells hbefore hnext
    rw [hspells.nil_inv]
    exact ⟨[], before, .nil, hbefore, by simp [arguments, hnext]⟩
  · have hbegins : ∀ x ∈ xs, Begins (argumentWords x) := fun x _ => begins_argumentWords x
    have hread : Parse.Reads line (Parse.separated g.argument)
        (commaSeparated (xs.map argumentWords)) (· = .rParen)
        (List.Forall₂ ArgumentMeans xs) := by
      refine reads_separated nofun hne ?_ hbegins
      intro pre x post hcut done hdone
      subst hcut
      -- What has been read is what was written in front, latest first.
      refine reads_argument (h x (by simp)) ?_
      have hfollow := fun y hy => (pairwise_append.mp hxs).2.2 y hy x mem_cons_self
      simpa using mayFollow_of_done hdone hfollow
    intro tokens before next rest hspells hbefore hnext
    obtain ⟨as, last, has, hlast, hread⟩ := hread tokens before next rest hspells hbefore hnext
    refine ⟨as, last, has, hlast, ?_⟩
    have hfirst : Begins (commaSeparated (xs.map argumentWords)) := by
      obtain ⟨x, xs, rfl⟩ := exists_cons_of_ne_nil hne
      exact (hbegins x mem_cons_self).append _
    have hparen : (Cursor.at? ⟨before, tokens ++ next :: rest⟩ .rParen) = false := by
      have hkind := begins_next hspells hfirst before (next :: rest)
      exact beq_false_of_ne (ne_of_begins hkind rfl)
    simp [arguments, Parse.check, hparen, hread]

theorem describes_call (he : p.Describes e)
    (has : List.Forall₂ ArgumentMeans (writtenArguments positional named) as) (span : Span) :
    (Phrase.call p positional named).Describes (.call span e as) := by
  have hnames : List.Forall₂ Eq ((writtenArguments positional named).map (·.1))
      (as.map (·.name)) :=
    forall₂_map_left_iff.mpr (forall₂_map_right_iff.mpr (has.imp fun _ _ h => h.1.symm))
  have hvalues : List.Forall₂ Phrase.Describes ((writtenArguments positional named).map (·.2))
      (as.map (·.value)) :=
    forall₂_map_left_iff.mpr (forall₂_map_right_iff.mpr (has.imp fun _ _ h => h.2))
  rw [forall₂_eq_eq_eq] at hnames
  simp only [writtenArguments, map_append, map_map, Function.comp_def,
    map_id_fun'] at hnames hvalues
  exact .call span he hnames.symm hvalues

theorem Knows.call (hp : (Phrase.call p positional named).fits = true) (h : g.Knows line p)
    (hpositional : ∀ q ∈ positional, g.Enters line q)
    (hnamed : ∀ a ∈ named, g.Enters line a.2) : g.Knows line (.call p positional named) := by
  have hp' := hp
  simp only [Phrase.fits, Bool.and_eq_true, decide_eq_true_eq] at hp'
  -- With or without a name, the value of an argument is a whole expression.
  have hall : ∀ x ∈ writtenArguments positional named, g.Enters line x.2 := by
    refine forall_mem_append.mpr ⟨?_, ?_⟩
    · exact forall_mem_map.mpr hpositional
    · exact forall_mem_map.mpr hnamed
  have harguments := reads_arguments hall (writtenArguments_pairwise hp'.1.1.1.2)
  rw [← segments_writtenArguments] at harguments
  refine h.suffix hp rfl hp'.1.1.1.1 rfl rfl fun e he => ?_
  intro tokens before next rest hspells hbefore _
  obtain ⟨text, span, us, text', span', rfl, hline, hline', hus⟩ := hspells.bracket_inv
  obtain ⟨as, last, has, -, hread⟩ := harguments us ⟨.lParen, text, span⟩ ⟨.rParen, text', span'⟩
    (next :: rest) hus hline rfl
  refine ⟨_, ⟨.rParen, text', span'⟩, ⟨_, rfl, describes_call he has (e.span.to span')⟩, hline', ?_⟩
  simp [suffix?, hline, hbefore, hread]

/-! ### All expressions -/

theorem Knows.enters (h : (nested n).Knows line p) : (nested (n + 1)).Enters line p :=
  h.reads 0 (Nat.zero_le _)

theorem knows_nested (hp : p.fits = true) : ∀ n, p.render.length ≤ n → (nested n).Knows line p := by
  induction p with
  | truth b => exact fun n _ => knows_truth b
  | null => exact fun n _ => knows_null
  | number text => exact fun n _ => knows_number hp
  | string text => exact fun n _ => knows_string text
  | name text => exact fun n _ => knows_name text
  | this => exact fun n _ => knows_this
  | super text => exact fun n _ => knows_super text
  | unary op q ih =>
    intro n hn
    have hfits := hp
    simp only [Phrase.fits, Bool.and_eq_true] at hfits
    simp only [Phrase.render, length_cons] at hn
    exact .unary hp (ih hfits.2 n (by omega))
  | binary op l r ihl ihr =>
    intro n hn
    have hfits := hp
    simp only [Phrase.fits, Bool.and_eq_true] at hfits
    simp only [Phrase.render, length_append, length_cons] at hn
    exact .binary hp (ihl hfits.1.2 n (by omega)) (ihr hfits.2 n (by omega))
  | range a b iha ihb =>
    intro n hn
    have hfits := hp
    simp only [Phrase.fits, Bool.and_eq_true] at hfits
    simp only [Phrase.render, length_append, length_cons] at hn
    exact .range hp (iha hfits.1.2 n (by omega)) (ihb hfits.2 n (by omega))
  | assign t op v iht ihv =>
    intro n hn
    have hfits := hp
    simp only [Phrase.fits, Bool.and_eq_true] at hfits
    simp only [Phrase.render, length_append, length_cons] at hn
    -- From here on a part is read by the grammar with one nesting less.
    obtain ⟨m, rfl⟩ : ∃ m, n = m + 1 := ⟨n - 1, by omega⟩
    exact .assign hp (iht hfits.1.2 _ (by omega)) (ihv hfits.2 m (by omega)).enters
  | call f ps ns ihf ihps ihns =>
    intro n hn
    have hfits := hp
    simp only [Phrase.fits, Bool.and_eq_true] at hfits
    simp only [Phrase.render, length_append, length_cons] at hn
    obtain ⟨m, rfl⟩ : ∃ m, n = m + 1 := ⟨n - 1, by omega⟩
    refine .call hp (ihf hfits.1.1.2 _ (by omega)) (fun q hq => ?_) (fun a ha => ?_)
    · have hlen : q.render.length ≤ _ := length_le_commaSeparated
        (mem_append_left (Phrase.namedSegments ns) (Phrase.segments_eq ps ▸ mem_map_of_mem hq))
      exact (ihps q hq (Phrase.fits_of_allFit hfits.1.2 q hq) m (by omega)).enters
    · have hlen : (Phrase.namedWords a).length ≤ _ := length_le_commaSeparated
        (mem_append_right (Phrase.segments ps) (Phrase.namedSegments_eq ns ▸ mem_map_of_mem ha))
      simp only [Phrase.namedWords, length_cons] at hlen
      exact (ihns a ha (Phrase.fits_of_namedFit hfits.2 a ha) m (by omega)).enters
  | index t i iht ihi =>
    intro n hn
    have hfits := hp
    simp only [Phrase.fits, Bool.and_eq_true] at hfits
    simp only [Phrase.render, length_append, length_cons] at hn
    obtain ⟨m, rfl⟩ : ∃ m, n = m + 1 := ⟨n - 1, by omega⟩
    exact .index hp (iht hfits.1.2 _ (by omega)) (ihi hfits.2 m (by omega)).enters
  | member t name iht =>
    intro n hn
    have hfits := hp
    simp only [Phrase.fits, Bool.and_eq_true] at hfits
    simp only [Phrase.render, length_append] at hn
    exact .member hp (iht hfits.2 n (by omega))
  | list items ih =>
    intro n hn
    simp only [Phrase.render, length_append, length_cons] at hn
    obtain ⟨m, rfl⟩ : ∃ m, n = m + 1 := ⟨n - 1, by omega⟩
    refine .list hp (fun q hq => ?_)
    have hlen : q.render.length ≤ _ :=
      length_le_commaSeparated (Phrase.segments_eq items ▸ mem_map_of_mem hq)
    exact (ih q hq (Phrase.fits_of_allFit hp q hq) m (by omega)).enters
  | dict entries ih =>
    intro n hn
    simp only [Phrase.render, length_append, length_cons] at hn
    obtain ⟨m, rfl⟩ : ∃ m, n = m + 1 := ⟨n - 1, by omega⟩
    refine .dict hp (fun e he => ?_)
    have hlen : (Phrase.entryWords e).length ≤ _ :=
      length_le_commaSeparated (Phrase.entrySegments_eq entries ▸ mem_map_of_mem he)
    simp only [Phrase.entryWords, length_append, length_cons] at hlen
    have hfits := Phrase.fits_of_entriesFit hp e he
    exact ⟨((ih e he).1 hfits.1 m (by omega)).enters, ((ih e he).2 hfits.2 m (by omega)).enters⟩
  | group q ih =>
    intro n hn
    simp only [Phrase.render, length_append, length_cons] at hn
    obtain ⟨m, rfl⟩ : ∃ m, n = m + 1 := ⟨n - 1, by omega⟩
    exact .group hp (ih hp m (by omega)).enters

theorem Knows.expression (h : (nested n).Knows line p) {eof : Token}
    (hspells : Spells line tokens p.render) (heof : eof.kind = .eof) :
    ∃ e last, p.Describes e ∧ (nested (n + 1)).expression (Cursor.start (tokens ++ [eof])) =
      .ok (e, ⟨last, [eof]⟩) := by
  -- In front of the text its first token stands for the one before.
  obtain ⟨l, words, hrender, -⟩ := p.render_opens.begins
  obtain ⟨t, ts, rfl, -, hline, -⟩ := (hrender ▸ hspells).cons_inv
  obtain ⟨e, last, he, -, hread⟩ := h.enters (t :: ts) t eof [] hspells hline
    (stops_of_none (by rw [heof]; rfl) 0)
  exact ⟨e, last, he, hread⟩

end Grammar

namespace Lexer

theorem length_tokensFrom {n : Nat} : ∀ {m : Mark} {cs : List Char} {ts : List Token},
    tokensFrom n m cs = .ok ts → ts.length ≤ n := by
  induction n with
  | zero => intro m cs ts h; cases h
  | succ n ih =>
    intro m cs ts h
    simp only [tokensFrom] at h
    split at h
    case h_1 =>
      cases h
      exact Nat.le_add_left 1 n
    case h_2 =>
      split at h
      case h_1 => cases h
      case h_2 =>
        split at h
        case h_1 => cases h
        case h_2 hts =>
          cases h
          have hle := ih hts
          rw [length_cons]
          omega

end Lexer

namespace Grammar

/-- An expression that is grouped where it has to be is read from the tokens of its words as the
    tree that it describes, with the bound on nesting that a text is given. -/
theorem expression_render (p : Phrase) (hp : p.fits = true) {line : Nat} {tokens : List Token}
    (hspells : Spells line tokens p.render) {eof : Token} (heof : eof.kind = .eof) :
    (∀ n, tokens.length < n → ∃ e last, p.Describes e ∧
      (nested n).expression (Cursor.start (tokens ++ [eof])) = .ok (e, ⟨last, [eof]⟩)) ∧
    ∀ source first, tokenize source first = .ok (tokens ++ [eof]) →
      ∃ e, p.Describes e ∧ parseExpression source first = .ok e := by
  have hlength : p.render.length = tokens.length := by
    rw [← hspells.lexemes, length_map]
  have hread : ∀ n, tokens.length < n → ∃ e last, p.Describes e ∧
      (nested n).expression (Cursor.start (tokens ++ [eof])) = .ok (e, ⟨last, [eof]⟩) := by
    intro n hn
    obtain ⟨m, rfl⟩ : ∃ m, n = m + 1 := ⟨n - 1, by omega⟩
    exact (knows_nested hp m (by omega)).expression hspells heof
  refine ⟨hread, ?_⟩
  intro source first htokens
  -- A token takes a step of the scanner, which has one more than there are characters.
  have hbound : tokens.length < depthFor source.toList := by
    have hle := Lexer.length_tokensFrom htokens
    rw [length_append, length_singleton] at hle
    unfold depthFor
    omega
  obtain ⟨e, last, he, hexpression⟩ := hread _ hbound
  refine ⟨e, he, ?_⟩
  unfold tokenize at htokens
  simp [parseExpression, expressionText, htokens, wholeExpression, hexpression, heof, Except.map]

end Grammar

namespace Phrase

def sample : Phrase :=
  .assign (.index (.member (.name "a") "b") (.unary .negate (.number "1"))) none
    (.assign (.name "x") (some .add)
      (.binary .and
        (.call (.name "f")
          [.number "2.5d",
            .binary .lessEqual
              (.range (.binary .mul (.unary .negate (.name "y")) (.number "2")) (.number "3"))
              (.name "z")]
          [("k", .list [.truth true, .string "s"])])
        (.binary .equal
          (.unary .not (.group (.binary .or (.name "u") (.super "q"))))
          (.dict [(.null, .this)]))))

def sampleText : String :=
  "a.b[-1] = x += f(2.5d, -y * 2 .. 3 <= z, k: [true, \"s\"]) && " ++
    "!(u || super.q) == \x7bnull: this\x7d"

def sampleTokens : List Token :=
  match tokenize sampleText 1 with
  | .ok tokens => tokens.dropLast
  | .error _ => []

theorem sampleTokens_spell : Spells 1 sampleTokens sample.render :=
  ⟨by decide +kernel, by decide +kernel⟩

end Phrase

namespace Grammar

theorem expression_render_sample :
    Phrase.sample.fits = true ∧ Spells 1 Phrase.sampleTokens Phrase.sample.render ∧
      ∃ e, Phrase.sample.Describes e ∧ parseExpression Phrase.sampleText 1 = .ok e := by
  have hfits : Phrase.sample.fits = true := by decide +kernel
  have htokens : tokenize Phrase.sampleText 1 =
      .ok (Phrase.sampleTokens ++ [⟨.eof, "", ⟨91, 91, 1⟩⟩]) := by decide +kernel
  refine ⟨hfits, Phrase.sampleTokens_spell, ?_⟩
  exact (expression_render Phrase.sample hfits Phrase.sampleTokens_spell rfl).2 Phrase.sampleText 1
    htokens

end Grammar

end ClassScript
