import ClassScript.Syntax.Expression
import Mathlib.Data.List.Forall2

/-!
# Expressions as They Are Written

How strongly an expression binds is a number; `Phrase.fits` says that operands which bind looser
than their place allows are in groups. A reader of some level stops in front of the words of the
looser levels.
-/

namespace ClassScript

open List

/-- What the grammar looks at in a token: its kind, and the text if it is a name, a
    number or a string. -/
structure Lexeme where
  kind : TokenKind
  text : String
deriving DecidableEq, Repr

def Lexeme.mark (kind : TokenKind) : Lexeme :=
  ⟨kind, ""⟩

def Token.lexeme (t : Token) : Lexeme :=
  match t.kind with
  | .identifier => ⟨.identifier, t.text⟩
  | .number => ⟨.number, t.text⟩
  | .string => ⟨.string, t.text⟩
  | kind => .mark kind

def UnaryOp.kind : UnaryOp → TokenKind
  | .negate => .minus
  | .plus => .plus
  | .not => .bang

def BinaryOp.kind : BinaryOp → TokenKind
  | .add => .plus
  | .sub => .minus
  | .mul => .star
  | .div => .slash
  | .mod => .percent
  | .equal => .equalEqual
  | .notEqual => .bangEqual
  | .less => .less
  | .lessEqual => .lessEqual
  | .greater => .greater
  | .greaterEqual => .greaterEqual
  | .and => .doubleAmpersand
  | .or => .doublePipe

def BinaryOp.strength : BinaryOp → Nat
  | .or => 1
  | .and => 2
  | .equal | .notEqual => 3
  | .less | .lessEqual | .greater | .greaterEqual => 4
  | .add | .sub => 6
  | .mul | .div | .mod => 7

theorem BinaryOp.strength_le (op : BinaryOp) : op.strength ≤ 7 := by cases op <;> decide

def assignSign : Option BinaryOp → TokenKind
  | some .add => .plusAssign
  | some .sub => .minusAssign
  | some .mul => .starAssign
  | some .div => .slashAssign
  | some .mod => .percentAssign
  | _ => .assign

/-- Expressions as they are written. The arguments of a call with names come after
    those without. -/
inductive Phrase where
  | truth (value : Bool)
  | null
  | number (text : String)
  | string (text : String)
  | name (name : String)
  | this
  | super (name : String)
  | unary (op : UnaryOp) (operand : Phrase)
  | binary (op : BinaryOp) (left right : Phrase)
  | range (first last : Phrase)
  | assign (target : Phrase) (op : Option BinaryOp) (value : Phrase)
  | call (callee : Phrase) (positional : List Phrase) (named : List (String × Phrase))
  | index (target index : Phrase)
  | member (target : Phrase) (name : String)
  | list (items : List Phrase)
  | dict (entries : List (Phrase × Phrase))
  | group (inner : Phrase)

def commaSeparated : List (List Lexeme) → List Lexeme
  | [] => []
  | first :: others => first ++ others.flatMap (.mark .comma :: ·)

theorem commaSeparated_cons_cons (first second : List Lexeme) (others : List (List Lexeme)) :
    commaSeparated (first :: second :: others) =
      first ++ .mark .comma :: commaSeparated (second :: others) := by
  simp [commaSeparated]

variable {segs : List (List Lexeme)}

theorem length_le_commaSeparated {seg : List Lexeme}
    (h : seg ∈ segs) : seg.length ≤ (commaSeparated segs).length := by
  induction segs with
  | nil => nomatch h
  | cons first others ih =>
    cases others with
    | nil =>
      obtain rfl := mem_singleton.mp h
      simp [commaSeparated]
    | cons =>
      rw [commaSeparated_cons_cons]
      grind

namespace Phrase

variable {p : Phrase}

/-- How strongly an expression binds: what can be called, indexed or asked for a
    member binds strongest. -/
def strength : Phrase → Nat
  | .assign _ _ _ => 0
  | .binary op _ _ => op.strength
  | .range _ _ => 5
  | .unary _ _ => 8
  | _ => 9

theorem strength_le (p : Phrase) : p.strength ≤ 9 := by
  cases p with
  | binary op l r =>
    have h := op.strength_le
    simp only [strength]
    omega
  | _ => simp only [strength]; omega

def isTarget : Phrase → Bool
  | .name _ | .index _ _ | .member _ _ => true
  | _ => false

mutual

def render : Phrase → List Lexeme
  | .truth true => [.mark (.keyword .true)]
  | .truth false => [.mark (.keyword .false)]
  | .null => [.mark (.keyword .null)]
  | .number text => [⟨.number, text⟩]
  | .string text => [⟨.string, text⟩]
  | .name n => [⟨.identifier, n⟩]
  | .this => [.mark (.keyword .this)]
  | .super n => [.mark (.keyword .super), .mark .dot, ⟨.identifier, n⟩]
  | .unary op operand => .mark op.kind :: operand.render
  | .binary op left right => left.render ++ .mark op.kind :: right.render
  | .range first last => first.render ++ .mark .dotDot :: last.render
  | .assign target op value => target.render ++ .mark (assignSign op) :: value.render
  | .call callee positional named =>
    callee.render ++ .mark .lParen ::
      (commaSeparated (segments positional ++ namedSegments named) ++ [.mark .rParen])
  | .index target key =>
    target.render ++ .mark .lBracket :: (key.render ++ [.mark .rBracket])
  | .member target n => target.render ++ [.mark .dot, ⟨.identifier, n⟩]
  | .list items => .mark .lBracket :: (commaSeparated (segments items) ++ [.mark .rBracket])
  | .dict entries =>
    .mark .lBrace :: (commaSeparated (entrySegments entries) ++ [.mark .rBrace])
  | .group inner => .mark .lParen :: (inner.render ++ [.mark .rParen])

def segments : List Phrase → List (List Lexeme)
  | [] => []
  | p :: ps => p.render :: segments ps

def namedSegments : List (String × Phrase) → List (List Lexeme)
  | [] => []
  | (n, p) :: rest => (⟨.identifier, n⟩ :: .mark .colon :: p.render) :: namedSegments rest

def entrySegments : List (Phrase × Phrase) → List (List Lexeme)
  | [] => []
  | (key, value) :: rest => (key.render ++ .mark .colon :: value.render) :: entrySegments rest

end

mutual

/-- Operands bind as strongly as their places ask, names of arguments differ, and targets can be
    assigned to. -/
def fits : Phrase → Bool
  | .number text => (numeral? text).isSome
  | .unary _ operand => decide (8 ≤ operand.strength) && operand.fits
  | .binary op left right =>
    decide (op.strength ≤ left.strength) && decide (op.strength < right.strength) &&
      left.fits && right.fits
  | .range first last =>
    decide (6 ≤ first.strength) && decide (6 ≤ last.strength) && first.fits && last.fits
  | .assign target op value =>
    target.isTarget && decide (Grammar.assignOp? (assignSign op) = some op) &&
      target.fits && value.fits
  | .call callee positional named =>
    decide (9 ≤ callee.strength) && decide (named.map (·.1)).Nodup &&
      callee.fits && allFit positional && namedFit named
  | .index target key => decide (9 ≤ target.strength) && target.fits && key.fits
  | .member target _ => decide (9 ≤ target.strength) && target.fits
  | .list items => allFit items
  | .dict entries => entriesFit entries
  | .group inner => inner.fits
  | _ => true

def allFit : List Phrase → Bool
  | [] => true
  | p :: ps => p.fits && allFit ps

def namedFit : List (String × Phrase) → Bool
  | [] => true
  | (_, p) :: rest => p.fits && namedFit rest

def entriesFit : List (Phrase × Phrase) → Bool
  | [] => true
  | (key, value) :: rest => key.fits && value.fits && entriesFit rest

end

/-- An expression says what a phrase says, whatever its spans are. -/
inductive Describes : Phrase → Expr → Prop
  | truth (span : Span) (b : Bool) : Describes (.truth b) (.literal span (.bool b))
  | null (span : Span) : Describes .null (.literal span .null)
  | number (span : Span) {text : String} {value : Literal} (hv : numeral? text = some value) :
      Describes (.number text) (.literal span value)
  | string (span : Span) (text : String) : Describes (.string text) (.literal span (.str text))
  | name (span : Span) (name : String) : Describes (.name name) (.name span name)
  | this (span : Span) : Describes .this (.this span)
  | super (span : Span) (name : String) : Describes (.super name) (.super span name)
  | unary (span : Span) {op : UnaryOp} {p : Phrase} {e : Expr} (h : Describes p e) :
      Describes (.unary op p) (.unary span op e)
  | binary (span : Span) {op : BinaryOp} {p q : Phrase} {e f : Expr} (hl : Describes p e)
      (hr : Describes q f) : Describes (.binary op p q) (.binary span op e f)
  | range (span : Span) {p q : Phrase} {e f : Expr} (hf : Describes p e) (hl : Describes q f) :
      Describes (.range p q) (.range span e f)
  | assign (span : Span) {op : Option BinaryOp} {p q : Phrase} {e f : Expr} (ht : Describes p e)
      (hv : Describes q f) : Describes (.assign p op q) (.assign span e op f)
  | call (span : Span) {p : Phrase} {e : Expr} {positional : List Phrase}
      {named : List (String × Phrase)} {arguments : List Argument} (hc : Describes p e)
      (hn : arguments.map (·.name) =
        positional.map (fun _ => none) ++ named.map (fun a => some a.1))
      (hv : List.Forall₂ Describes (positional ++ named.map (·.2)) (arguments.map (·.value))) :
      Describes (.call p positional named) (.call span e arguments)
  | index (span : Span) {p q : Phrase} {e f : Expr} (ht : Describes p e) (hi : Describes q f) :
      Describes (.index p q) (.index span e f)
  | member (span : Span) {p : Phrase} {e : Expr} (ht : Describes p e) (name : String) :
      Describes (.member p name) (.member span e name)
  | list (span : Span) {ps : List Phrase} {es : List Expr} (h : List.Forall₂ Describes ps es) :
      Describes (.list ps) (.list span es)
  | dict (span : Span) {ps : List (Phrase × Phrase)} {es : List (Expr × Expr)}
      (hk : List.Forall₂ Describes (ps.map (·.1)) (es.map (·.1)))
      (hv : List.Forall₂ Describes (ps.map (·.2)) (es.map (·.2))) :
      Describes (.dict ps) (.dict span es)
  | group (span : Span) {p : Phrase} {e : Expr} (h : Describes p e) :
      Describes (.group p) (.group span e)

@[induction_eliminator]
theorem induct {motive : Phrase → Prop}
    (truth : ∀ value, motive (.truth value)) (null : motive .null)
    (number : ∀ text, motive (.number text)) (string : ∀ text, motive (.string text))
    (name : ∀ n, motive (.name n)) (this : motive .this) (super : ∀ n, motive (.super n))
    (unary : ∀ op operand, motive operand → motive (.unary op operand))
    (binary : ∀ op left right, motive left → motive right → motive (.binary op left right))
    (range : ∀ first last, motive first → motive last → motive (.range first last))
    (assign : ∀ target op value, motive target → motive value →
      motive (.assign target op value))
    (call : ∀ callee positional named, motive callee → (∀ p ∈ positional, motive p) →
      (∀ a ∈ named, motive a.2) → motive (.call callee positional named))
    (index : ∀ target key, motive target → motive key → motive (.index target key))
    (member : ∀ target n, motive target → motive (.member target n))
    (list : ∀ items, (∀ p ∈ items, motive p) → motive (.list items))
    (dict : ∀ entries, (∀ e ∈ entries, motive e.1 ∧ motive e.2) → motive (.dict entries))
    (group : ∀ inner, motive inner → motive (.group inner)) (p : Phrase) : motive p :=
  @Phrase.rec motive (fun ps => ∀ p ∈ ps, motive p) (fun named => ∀ a ∈ named, motive a.2)
    (fun entries => ∀ e ∈ entries, motive e.1 ∧ motive e.2) (fun a => motive a.2)
    (fun e => motive e.1 ∧ motive e.2)
    truth null number string name this super unary binary range assign call index member list
    dict group
    nofun (fun _ _ hp hps => forall_mem_cons.mpr ⟨hp, hps⟩)
    nofun (fun _ _ hp hps => forall_mem_cons.mpr ⟨hp, hps⟩)
    nofun (fun _ _ hp hps => forall_mem_cons.mpr ⟨hp, hps⟩)
    (fun _ _ hp => hp) (fun _ _ hk hv => ⟨hk, hv⟩) p

theorem segments_eq (ps : List Phrase) : segments ps = ps.map render := by
  induction ps with
  | nil => rfl
  | cons p ps ih => rw [segments, ih, map_cons]

def namedWords (a : String × Phrase) : List Lexeme :=
  ⟨.identifier, a.1⟩ :: .mark .colon :: a.2.render

theorem namedSegments_eq (named : List (String × Phrase)) :
    namedSegments named = named.map namedWords := by
  induction named with
  | nil => rfl
  | cons a named ih => rw [namedSegments, ih, map_cons, namedWords]

def entryWords (e : Phrase × Phrase) : List Lexeme :=
  e.1.render ++ .mark .colon :: e.2.render

theorem entrySegments_eq (entries : List (Phrase × Phrase)) :
    entrySegments entries = entries.map entryWords := by
  induction entries with
  | nil => rfl
  | cons e entries ih => rw [entrySegments, ih, map_cons, entryWords]

theorem fits_of_allFit {ps : List Phrase} (h : allFit ps = true) : ∀ p ∈ ps, p.fits = true := by
  induction ps with
  | nil => nofun
  | cons p ps ih =>
    rw [allFit, Bool.and_eq_true] at h
    exact forall_mem_cons.mpr ⟨h.1, ih h.2⟩

theorem fits_of_namedFit {named : List (String × Phrase)} (h : namedFit named = true) :
    ∀ a ∈ named, a.2.fits = true := by
  induction named with
  | nil => nofun
  | cons a named ih =>
    rw [namedFit, Bool.and_eq_true] at h
    exact forall_mem_cons.mpr ⟨h.1, ih h.2⟩

theorem fits_of_entriesFit {entries : List (Phrase × Phrase)} (h : entriesFit entries = true) :
    ∀ e ∈ entries, e.1.fits = true ∧ e.2.fits = true := by
  induction entries with
  | nil => nofun
  | cons e entries ih =>
    rw [entriesFit, Bool.and_eq_true, Bool.and_eq_true] at h
    exact forall_mem_cons.mpr ⟨h.1, ih h.2⟩

theorem Describes.isTarget {e : Expr} (h : p.Describes e) (hp : p.isTarget = true) :
    e.isTarget = true := by
  cases h with
  | name | index | member => rfl
  | _ => cases hp

theorem strength_of_isTarget (hp : p.isTarget = true) : p.strength = 9 := by
  cases p with
  | name | index | member => rfl
  | _ => cases hp

end Phrase

namespace TokenKind

variable {k : TokenKind} {l : Nat}

/-- How strongly a word holds on to the expression in front of it, if it goes on with
    one. -/
def strength? : TokenKind → Option Nat
  | .assign | .plusAssign | .minusAssign | .starAssign | .slashAssign | .percentAssign => some 0
  | .doublePipe => some 1
  | .doubleAmpersand => some 2
  | .equalEqual | .bangEqual => some 3
  | .less | .lessEqual | .greater | .greaterEqual => some 4
  | .dotDot => some 5
  | .plus | .minus => some 6
  | .star | .slash | .percent => some 7
  | .lParen | .lBracket | .dot => some 9
  | _ => none

def Stops (level : Nat) (k : TokenKind) : Prop :=
  ∀ s, k.strength? = some s → s < level

theorem Stops.mono {m : Nat} (h : k.Stops l) (hlm : l ≤ m) : k.Stops m :=
  fun s hs => Nat.lt_of_lt_of_le (h s hs) hlm

theorem stops_of_none (h : k.strength? = none) (l : Nat) : k.Stops l := by
  intro s hs
  rw [h] at hs
  cases hs

theorem stops_of_some {s : Nat} (h : k.strength? = some s) (hl : s < l) : k.Stops l := by
  intro s' hs
  rw [h, Option.some.injEq] at hs
  omega

def begins : TokenKind → Bool
  | .keyword .true | .keyword .false | .keyword .null | .keyword .this | .keyword .super
  | .number | .string | .identifier | .lParen | .lBracket | .lBrace
  | .minus | .plus | .bang => true
  | _ => false

theorem ne_of_begins {k' : TokenKind} (h : k.begins = true) (h' : k'.begins = false) : k ≠ k' := by
  rintro rfl
  rw [h] at h'
  cases h'

end TokenKind

theorem BinaryOp.strength?_kind (op : BinaryOp) : op.kind.strength? = some op.strength := by
  cases op <;> rfl

theorem strength?_assignSign (op : Option BinaryOp) : (assignSign op).strength? = some 0 := by
  rcases op with _ | op
  · rfl
  · cases op <;> rfl

theorem UnaryOp.unaryOp?_kind (op : UnaryOp) : Grammar.unaryOp? op.kind = some op := by
  cases op <;> rfl

def Begins (ls : List Lexeme) : Prop :=
  ∃ l rest, ls = l :: rest ∧ l.kind.begins = true

theorem Begins.append {ls : List Lexeme} (h : Begins ls) (more : List Lexeme) :
    Begins (ls ++ more) := by
  obtain ⟨l, rest, rfl, hl⟩ := h
  exact ⟨l, rest ++ more, rfl, hl⟩

/-- Words that an expression can begin with. The second one is not a colon. -/
inductive Opens : List Lexeme → Prop
  | single {l : Lexeme} (hl : l.kind.begins = true) : Opens [l]
  | more {l m : Lexeme} (hl : l.kind.begins = true) (hm : m.kind ≠ .colon)
      (rest : List Lexeme) : Opens (l :: m :: rest)

namespace Opens

variable {ls : List Lexeme} {l : Lexeme}

theorem begins (h : Opens ls) : Begins ls := by
  cases h with
  | single hl | more hl _ _ => exact ⟨_, _, rfl, hl⟩

theorem append (h : Opens ls) {m : Lexeme} (hm : m.kind ≠ .colon)
    (rest : List Lexeme) : Opens (ls ++ m :: rest) := by
  cases h with
  | single hl => exact .more hl hm rest
  | more hl hm' _ => exact .more hl hm' _

theorem cons (hl : l.kind.begins = true) (h : Opens ls)
    (rest : List Lexeme) : Opens (l :: (ls ++ rest)) := by
  obtain ⟨m, more, rfl, hm⟩ := h.begins
  exact .more hl (TokenKind.ne_of_begins hm rfl) _

theorem bracket {close : Lexeme} (hl : l.kind.begins = true) (hclose : close.kind ≠ .colon)
    (h : ∀ seg ∈ segs, Begins seg) :
    Opens (l :: (commaSeparated segs ++ [close])) := by
  cases segs with
  | nil => exact .more hl hclose []
  | cons seg segs =>
    obtain ⟨m, rest, rfl, hm⟩ := h seg mem_cons_self
    exact .more hl (TokenKind.ne_of_begins hm rfl) _

end Opens

namespace Phrase

theorem render_opens (p : Phrase) : Opens p.render := by
  induction p with
  | truth b => cases b <;> exact .single rfl
  | null | number | string | name | this => exact .single rfl
  | super => exact .more rfl (by decide) _
  | unary op q ih =>
    rw [render, ← append_nil q.render]
    exact ih.cons (by cases op <;> rfl) []
  | binary op l r ihl _ => exact ihl.append (by cases op <;> decide) _
  | range a b iha _ => exact iha.append (by decide) _
  | assign t op v iht _ =>
    refine iht.append ?_ _
    rcases op with _ | op
    · decide
    · cases op <;> decide
  | call f ps ns ihf _ _ => exact ihf.append (by decide) _
  | index t i iht _ | member t n iht => exact iht.append (by decide) _
  | list items ih =>
    refine .bracket rfl (by decide) ?_
    rw [segments_eq]
    exact forall_mem_map.mpr fun q hq => (ih q hq).begins
  | dict entries ih =>
    refine .bracket rfl (by decide) ?_
    rw [entrySegments_eq]
    exact forall_mem_map.mpr fun e he => (ih e he).1.begins.append _
  | group q ih => exact ih.cons rfl _

theorem render_unsigned (p : Phrase) (hp : p.fits = true) (h9 : 9 ≤ p.strength) :
    ∃ l rest, p.render = l :: rest ∧ Grammar.unaryOp? l.kind = none := by
  induction p with
  | truth b => cases b <;> exact ⟨_, _, rfl, rfl⟩
  | null | number | string | name | this | super | list | dict | group => exact ⟨_, _, rfl, rfl⟩
  | unary | range | assign => simp only [strength] at h9; omega
  | binary op =>
    have h := op.strength_le
    simp only [strength] at h9
    omega
  | call f ps ns ihf _ _ =>
    simp only [fits, Bool.and_eq_true, decide_eq_true_eq] at hp
    obtain ⟨l, rest, hf, hl⟩ := ihf hp.1.1.2 hp.1.1.1.1
    rw [render, hf]
    exact ⟨l, _, rfl, hl⟩
  | index t i iht _ =>
    simp only [fits, Bool.and_eq_true, decide_eq_true_eq] at hp
    obtain ⟨l, rest, ht, hl⟩ := iht hp.1.2 hp.1.1
    rw [render, ht]
    exact ⟨l, _, rfl, hl⟩
  | member t n iht =>
    simp only [fits, Bool.and_eq_true, decide_eq_true_eq] at hp
    obtain ⟨l, rest, ht, hl⟩ := iht hp.2 hp.1
    rw [render, ht]
    exact ⟨l, _, rfl, hl⟩

end Phrase

namespace Token

theorem lexeme_kind (t : Token) : t.lexeme.kind = t.kind := by
  unfold lexeme
  split
  case h_1 h => exact h.symm
  case h_2 h => exact h.symm
  case h_3 h => exact h.symm
  case h_4 => rfl

theorem text_of_lexeme {t : Token} {k : TokenKind} {text : String} (h : t.lexeme = ⟨k, text⟩)
    (hk : k = .identifier ∨ k = .number ∨ k = .string) : t.text = text := by
  have htk : t.kind = k := by rw [← lexeme_kind, h]
  unfold lexeme at h
  rw [htk] at h
  rcases hk with rfl | rfl | rfl
  all_goals exact (Lexeme.mk.injEq .. ▸ h).2

end Token

/-- Tokens on one line that are these words. -/
structure Spells (line : Nat) (tokens : List Token) (words : List Lexeme) : Prop where
  lexemes : tokens.map Token.lexeme = words
  line : ∀ t ∈ tokens, t.span.line = line

namespace Spells

variable {line : Nat} {tokens : List Token}
variable {ls : List Lexeme} {k : TokenKind}

theorem nil_inv (h : Spells line tokens []) : tokens = [] := map_eq_nil_iff.mp h.lexemes

theorem cons_inv {l : Lexeme} (h : Spells line tokens (l :: ls)) :
    ∃ t ts, tokens = t :: ts ∧ t.lexeme = l ∧ t.span.line = line ∧ Spells line ts ls := by
  obtain ⟨t, ts, rfl, ht, hts⟩ := map_eq_cons_iff.mp h.lexemes
  have hline := forall_mem_cons.mp h.line
  exact ⟨t, ts, rfl, ht, hline.1, hts, hline.2⟩

theorem word_inv {word : String} (h : Spells line tokens (⟨k, word⟩ :: ls)) :
    ∃ text span ts, tokens = ⟨k, text, span⟩ :: ts ∧
      (⟨k, text, span⟩ : Token).lexeme = ⟨k, word⟩ ∧ span.line = line ∧ Spells line ts ls := by
  obtain ⟨⟨kind, text, span⟩, ts, rfl, ht, hline, hts⟩ := h.cons_inv
  obtain rfl : kind = k := by
    have hkind := Token.lexeme_kind ⟨kind, text, span⟩
    rw [ht] at hkind
    exact hkind.symm
  exact ⟨text, span, ts, rfl, ht, hline, hts⟩

theorem append_inv {ms : List Lexeme} (h : Spells line tokens (ls ++ ms)) :
    ∃ ts us, tokens = ts ++ us ∧ Spells line ts ls ∧ Spells line us ms := by
  obtain ⟨ts, us, rfl, hts, hus⟩ := map_eq_append_iff.mp h.lexemes
  have hline := forall_mem_append.mp h.line
  exact ⟨ts, us, rfl, ⟨hts, hline.1⟩, hus, hline.2⟩

theorem bracket_inv {k' : TokenKind} (h : Spells line tokens (.mark k :: (ls ++ [.mark k']))) :
    ∃ text span ts text' span', tokens = ⟨k, text, span⟩ :: (ts ++ [⟨k', text', span'⟩]) ∧
      span.line = line ∧ span'.line = line ∧ Spells line ts ls := by
  obtain ⟨text, span, us, rfl, -, hline, hus⟩ := h.word_inv
  obtain ⟨ts, vs, rfl, hts, hvs⟩ := hus.append_inv
  obtain ⟨text', span', ws, rfl, -, hline', hws⟩ := hvs.word_inv
  obtain rfl := hws.nil_inv
  simp_all

end Spells

end ClassScript
