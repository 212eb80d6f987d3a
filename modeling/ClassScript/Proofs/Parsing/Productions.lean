import ClassScript.Syntax.Parser
import ClassScript.Proofs.Parsing.Agreement
import ClassScript.Proofs.Parsing.Levels
import ClassScript.Proofs.Parsing.Unplaced
import ClassScript.Proofs.Parsing.WellFormed

/-!
# Productions Side by Side

Each production is looked at once, for two grammars whose entries agree up to some weight and give
well-formed trees. A production whose entries are all behind a token agrees with one more weight to
read.
-/

namespace ClassScript

open List Interpolation TokenKind

/-! ### Holes -/

namespace Interpolation

variable {d : Nat} {q : Bool} {cs source rest : List Char}
variable {readHole : List Char → Except SyntaxError Expr} {span : Span} {cuts : List Cut}

theorem holeSource_split
    (h : holeSource d q cs = some (source, rest)) : cs = source ++ '\x7d' :: rest := by
  fun_induction holeSource d q cs generalizing source rest with
  | case1 => cases h
  | case2 d q c cs hclose => simp_all
  | case3 =>
    rename_i ih
    obtain ⟨⟨source, rest⟩, hrest, ⟨⟩⟩ := Option.map_eq_some_iff.mp h
    rw [ih hrest]
    simp

theorem length_holeSource
    (h : holeSource d q cs = some (source, rest)) : source.length + rest.length < cs.length := by
  rw [holeSource_split h, length_append, length_cons]
  omega

theorem hole_infix {k : Nat} (h : Cut.hole source ∈ split k cs) :
    '\x7b' :: (source ++ ['\x7d']) <:+: cs := by
  have hskip {c : Char} {cuts : List Cut} (hmem : Cut.hole source ∈ Cut.char c :: cuts) :
      Cut.hole source ∈ cuts := by
    simpa using hmem
  fun_induction split k cs with
  | case1 | case2 | case4 => cases h
  | case3 n e cs ih | case5 n cs ih | case6 n cs ih =>
      exact infix_cons (infix_cons (ih (hskip h)))
  | case7 n cs _ first rest hfirst ih =>
    rw [holeSource_split hfirst]
    rcases mem_cons.mp h with hsame | hmem
    · rw [Cut.hole.inj hsame]
      exact ⟨[], rest, by simp⟩
    · refine List.IsInfix.trans (ih hmem) ⟨'\x7b' :: (first ++ ['\x7d']), [], by simp⟩
  | case8 => simp at h
  | case9 n c cs _ _ _ _ _ ih => exact infix_cons (ih (hskip h))

theorem join_wellFormed (h : ∀ source e, readHole source = .ok e → e.WellFormed)
    {run : List Char} {parts : List Piece} (hparts : join readHole span run cuts = .ok parts)
    (value : Expr) (hvalue : Piece.hole value ∈ parts) : value.WellFormed := by
  have htext : ∀ run, Piece.hole value ∉ textPart run := by
    intro run
    unfold textPart
    split <;> simp
  induction cuts generalizing run parts with
  | nil =>
    cases hparts
    exact (htext run hvalue).elim
  | cons cut cuts ih =>
    cases cut with
    | char c => exact ih hparts hvalue
    | unterminated => cases hparts
    | hole source =>
      rw [join] at hparts
      cases hhole : readHole source with
      | error e => rw [hhole] at hparts; cases hparts
      | ok e =>
        rw [hhole] at hparts
        cases hmore : join readHole span [] cuts with
        | error e' => simp only [hmore] at hparts; cases hparts
        | ok more =>
          simp only [hmore, Except.ok.injEq] at hparts
          subst hparts
          rcases mem_append.mp hvalue with hrun | hrest
          · exact (htext run hrun).elim
          · rcases mem_cons.mp hrest with heq | hlater
            · cases heq
              exact h source value hhole
            · exact ih hmore hlater

theorem join_parallel {E : Prop} {readHole' : List Char → Except SyntaxError Expr}
    {span' : Span} (hspan : E → span = span') (run : List Char)
    (h : ∀ source, .hole source ∈ cuts →
      Parallel E (Alike E Expr.WellFormed Expr.unplaced) (readHole source) (readHole' source)) :
    Parallel E (Same E (List.map Piece.unplaced)) (join readHole span run cuts)
      (join readHole' span' run cuts) := by
  induction cuts generalizing run with
  | nil => exact .ok (.refl trivial)
  | cons cut cuts ih =>
    have hmore := fun run => ih run fun source hs => h source (mem_cons_of_mem _ hs)
    cases cut with
    | char c => exact hmore (c :: run)
    | unterminated => exact .error rfl (fun e => by rw [hspan e]) (by simp)
    | hole source =>
      rcases (h source mem_cons_self).cases with
        ⟨e, e', he, he', hvalue⟩ | ⟨e, e', he, he', hproblem, _, hends⟩
      · rcases (hmore []).cases with
          ⟨ps, ps', hp, hp', hparts⟩ | ⟨e, e', hp, hp', hproblem, hsame, hends⟩
        · simp only [join, he, he', hp, hp']
          exact .ok ⟨trivial, by simp [hvalue.view, hparts.view],
            fun e => by rw [hvalue.same e, hparts.same e]⟩
        · simp only [join, he, he', hp, hp']
          exact .error hproblem hsame hends
      · simp only [join, he, he']
        exact .error hproblem (fun e => by rw [hspan e, hproblem]) hends

end Interpolation

namespace Grammar

open Parse (Advances AgreeFrom Extends)

variable {l : Nat} {k : TokenKind} {op : BinaryOp}

/-! ### Grammars -/

abbrev SameExprs (E : Prop) (n d l : Nat) (x y : Parse Expr) : Prop :=
  Advances E n d (fun e => e.WellFormed ∧ l ≤ e.strength) Expr.unplaced x y

/-- Grammars whose entries agree up to a weight, and give well-formed trees. -/
structure Agree (E : Prop) (n : Nat) (g g' : Grammar) : Prop where
  expression : ∀ d, Advances E n d Expr.WellFormed Expr.unplaced g.expression g'.expression
  statement : ∀ place d, Advances E n d (Stmt.WellFormed · place) Stmt.unplaced
    (g.statement place) (g'.statement place)
  holes : ∀ source line e, g.hole source line = .ok e → e.WellFormed
  hole : ∀ source line line', (E → line = line') → source.length < n →
    Parallel E (Alike E Expr.WellFormed Expr.unplaced) (g.hole source line) (g'.hole source line')

theorem strength_of_opsAt (h : opsAt l k = some op) : op.strength = l := by
  unfold opsAt at h
  split at h
  case h_7 => cases h
  all_goals cases k <;> cases h <;> rfl

theorem isWord_of_opsAt (h : opsAt l k = some op) : k.isWord = true := by
  refine isWord_of_eq_some ?_ h
  unfold opsAt
  split <;> decide

/-! ### Readers of names -/

def typeStep (names : List String) : Parse (Option (List String)) := do
  if ← Parse.accept .pipe then return some ((← typeName) :: names) else return none

section Names

open Parse.AgreeFrom

variable {E : Prop} {n d : Nat}

theorem typeName_agree : Advances E n d (fun _ => True) id typeName typeName :=
  accept_bind (fun _ ht => .word (ht ▸ rfl) (.nil d)) (.pure id (.refl trivial))
    ((expect_word rfl _).bind_moved fun _ _ h => .pure id (.of_eq h.text trivial))

theorem typeStep_agree (names : List String) :
    Extends E n d (fun _ => True) id (typeStep names) (typeStep names) :=
  accept_bind (fun _ ht => .word (ht ▸ rfl) (.nil d))
    (typeName_agree.bind_same fun _ => .pure id (.refl fun _ _ => trivial))
    (.pure (by simp) (.refl fun _ _ => trivial))

theorem typeNames_agree : Advances E n d (fun _ => True) id typeNames typeNames := by
  refine typeName_agree.bind_moved ?_
  rintro first _ ⟨-, rfl, -⟩
  refine .bind_same (.extending (P := fun _ => True) (.refl trivial) ?_) fun _ =>
    .pure id (.refl trivial)
  rintro names _ ⟨-, rfl, -⟩
  exact (typeStep_agree names).coarsen fun _ _ _ _ _ => trivial

theorem types?_agree : Parse.Agree E n d (fun _ => True) id types? types? :=
  (accept rfl).bind_same fun _ => .ite
    (fun _ => typeNames_agree.bind_same fun _ => .pure id (.refl trivial))
    fun _ => .pure id (.refl trivial)

theorem nameText_agree (what : String) : Advances E n d (fun _ => True) id
    (do return (← Parse.expectName what).text) (do return (← Parse.expectName what).text) :=
  (expect_word rfl _).bind_moved fun _ _ h => .pure id (.of_eq h.text trivial)

end Names

namespace Agree

open Parse.AgreeFrom

variable {E : Prop} {n : Nat} {g g' : Grammar} (hg : g.Agree E n g') {d : Nat}
variable {source : List Char} {line : Nat}

include hg

theorem block : Advances E (n + 1) d (fun r => ∀ s ∈ r.1, s.WellFormed .block)
    (fun r => r.1.map Stmt.unplaced) g.block g'.block :=
  (expect_opening _).bind_less fun _ _ hopening => (itemsUntil (hg.statement .block _)).bind
    fun _ _ hbody => (expect_closing _).bind fun _ _ hclosing => .pure id
      ⟨hbody.fine, hbody.view, fun e => by rw [hopening.same e, hbody.same e, hclosing.same e]⟩

theorem initializer? : Parse.Agree E n d (fun r => ∀ value, r = some value → value.WellFormed)
    (Option.map Expr.unplaced) g.initializer? g'.initializer? := by
  refine (accept rfl).bind_same fun _ => .ite (fun _ => (hg.expression d).bind fun _ _ hvalue => ?_)
    fun _ => .pure id (.refl (by simp))
  exact .pure id ⟨by simpa using hvalue.fine, congrArg some hvalue.view,
    fun e => by rw [hvalue.same e]⟩

theorem param {before before' : List Param} (h : Same E (List.map Param.unplaced) before before') :
    Advances E n d (fun p => p.WellFormed ∧ ((∀ q ∈ before.tail, q.variadic = false) →
      ∀ q ∈ before, q.variadic = false)) Param.unplaced (g.param before) (g'.param before') := by
  have hlast : before.head?.any (·.variadic) = before'.head?.any (·.variadic) := by
    have hhead := congrArg (fun ps => ps.head?.any (·.variadic)) h.view
    simpa [Option.any_map] using hhead
  refine (accept rfl).bind_same fun _ => (expect_word rfl _).bind_moved fun name name' hname => ?_
  rw [← hlast]
  refine .ite (fun _ => .fail_bind (by simp) fun e => by rw [hname.same e]) fun hhead =>
    types?_agree.bind_same fun _ => hg.initializer?.bind fun _ _ hi => .pure id
      ⟨⟨hi.fine, fun hbefore => ?_⟩, by simp [hname.text, hi.view],
        fun e => by rw [hname.same e, hi.same e]⟩
  cases before with
  | nil => simp
  | cons q more =>
    have hq : q.variadic = false := by simpa using hhead
    exact forall_mem_cons.mpr ⟨hq, hbefore⟩

theorem params : Advances E n d
    (fun ps => (∀ p ∈ ps, p.WellFormed) ∧ ∀ p ∈ ps.dropLast, p.variadic = false)
    (List.map Param.unplaced) (Parse.separated g.param) (Parse.separated g'.param) := by
  refine (separated (I := fun done : List Param => (∀ p ∈ done, p.WellFormed) ∧
    ∀ p ∈ done.tail, p.variadic = false) (by simp) fun done done' hdone => ?_).coarsen
      fun params hparams => ?_
  · exact (hg.param hdone).coarsen fun p hp hbefore =>
      ⟨forall_mem_cons.mpr ⟨hp.1, hbefore.1⟩, hp.2 hbefore.2⟩
  · simp_all

theorem function {start start' : Span} (hstart : E → start = start') (name : String)
    (modifiers : Modifiers) : Advances E n d FunctionDecl.WellFormed FunctionDecl.unplaced
      (g.function start name modifiers) (g'.function start' name modifiers) := by
  have hnone : Parse.Agree E n d
      (fun ps : List Param => (∀ p ∈ ps, p.WellFormed) ∧ ∀ p ∈ ps.dropLast, p.variadic = false)
      (List.map Param.unplaced) (pure []) (pure []) :=
    .pure id (.refl (by simp))
  refine (expect_word rfl _).bind_moved fun _ _ _ => (check _).bind_same fun _ =>
    .ite (fun _ => hnone.bind ?_) fun _ => hg.params.bind ?_
  all_goals
    intro params params' hparams
    refine (expect_word rfl _).bind fun _ _ _ => (hg.block.mono (Nat.le_succ n)).bind
      fun _ _ hbody => .pure id ⟨⟨_, hparams.fine.1, hbody.fine, hparams.fine.2⟩, ?_, fun e => ?_⟩
    · simp [hparams.view, hbody.view]
    · rw [hstart e, hparams.same e, hbody.same e]

/-! ### Expressions

From the tightest level to the loosest. -/

theorem entry : Advances E n d (fun e => e.1.WellFormed ∧ e.2.WellFormed)
    (fun e => (e.1.unplaced, e.2.unplaced)) g.entry g'.entry :=
  (hg.expression d).bind_moved fun _ _ hkey => (expect_word rfl _).bind fun _ _ _ =>
    (hg.expression d).bind fun _ _ hvalue => .pure id ⟨⟨hkey.fine, hvalue.fine⟩,
      by simp [hkey.view, hvalue.view], fun e => by rw [hkey.same e, hvalue.same e]⟩

theorem parts {text : String} (hlength : text.length < n) {span span' : Span}
    (hspan : E → span = span') :
    Parallel E (Same E (List.map Piece.unplaced))
      (Interpolation.parts (g.hole · span.line) text span)
      (Interpolation.parts (g'.hole · span'.line) text span') := by
  refine join_parallel hspan [] fun source hs =>
    hg.hole source _ _ (fun e => by rw [hspan e]) ?_
  have hle := (Interpolation.hole_infix hs).length_le
  rw [length_cons, length_append, String.length_toList] at hle
  omega

theorem primary : SameExprs E (n + 1) d 9 g.primary g'.primary := by
  refine peek_bind fun t t' ht => ?_
  have hspan (e : E) : t.span = t'.span := by rw [ht.same e]
  have htext := ht.text
  rw [← ht.kind]
  generalize hk : t.kind = k
  have hword (h : k.isWord = true) : Nests d [t] d := .word (hk ▸ h) (.nil d)
  -- A token that is the whole expression.
  have hone (f : Span → Expr) (hk : k.isWord = true)
      (hf : (f t.span).WellFormed ∧ 9 ≤ (f t.span).strength)
      (hv : (f t.span).unplaced = (f t'.span).unplaced) :
      AgreeFrom E (fun c => c.next = t ∧ True) (fun c => c.next = t' ∧ True) (n + 1) d d
        (fun _ => True) (fun e => e.WellFormed ∧ 9 ≤ e.strength) Expr.unplaced
        (Parse.advance >>= fun _ => pure (f t.span))
        (Parse.advance >>= fun _ => pure (f t'.span)) :=
    .advance (fun _ h => h.1) (fun _ h => h.1) (hword hk)
      (.pure id ⟨hf, hv, fun e => by rw [hspan e]⟩)
  cases k
  case keyword k =>
    cases k
    case «true» => exact hone (.literal · (.bool true)) rfl ⟨.literal _ _, Nat.le_refl 9⟩ (by simp)
    case «false» =>
      exact hone (.literal · (.bool false)) rfl ⟨.literal _ _, Nat.le_refl 9⟩ (by simp)
    case null => exact hone (.literal · .null) rfl ⟨.literal _ _, Nat.le_refl 9⟩ (by simp)
    case this => exact hone .this rfl ⟨.this _, Nat.le_refl 9⟩ (by simp)
    case super =>
      refine .advance (fun _ h => h.1) (fun _ h => h.1) (hword rfl)
        ((expect_word rfl _).bind fun _ _ _ => (expect_word rfl _).bind fun _ _ hname => ?_)
      exact .pure id ⟨⟨.super _ _, Nat.le_refl 9⟩, by simp [hname.text],
        fun e => by rw [hspan e, hname.same e]⟩
    case fn =>
      refine .advance (fun _ h => h.1) (fun _ h => h.1) (hword rfl)
        ((hg.function hspan _ _).bind fun _ _ hdecl => ?_)
      exact .pure id ⟨⟨.lambda _ hdecl.fine, Nat.le_refl 9⟩, by simp [hdecl.view],
        fun e => by rw [hdecl.same e]⟩
    all_goals exact .fail (by simp) hspan
  case number =>
    refine .advance (fun _ h => h.1) (fun _ h => h.1) (hword rfl) ?_
    rw [← htext]
    cases numeral? t.text with
    | some value =>
      exact .pure id ⟨⟨.literal _ _, Nat.le_refl 9⟩, by simp, fun e => by rw [hspan e]⟩
    | none => exact .fail (by simp) hspan
  case string =>
    rw [← htext]
    exact hone (.literal · (.str t.text)) rfl ⟨.literal _ _, Nat.le_refl 9⟩ (by simp)
  case interpolatedString =>
    refine .advance_heavy (fun _ h => h.1) (fun _ h => h.1) (hword rfl) fun m hm hweight => ?_
    have hholes {ps : List Piece}
        (hps : Interpolation.parts (g.hole · t.span.line) t.text t.span = .ok ps) :
        (Expr.interpolated t.span ps).WellFormed ∧ 9 ≤ (Expr.interpolated t.span ps).strength :=
      ⟨.interpolated _ ps (join_wellFormed (hg.holes · _) hps), Nat.le_refl 9⟩
    rw [← htext]
    refine ⟨fun c value c₁ _ _ hvalue => ?_, fun c c' hc _ _ hlt => ?_⟩
    · cases hps : Interpolation.parts (g.hole · t.span.line) t.text t.span with
      | error e => rw [hps] at hvalue; cases hvalue
      | ok ps =>
        rw [hps] at hvalue
        cases hvalue
        exact ⟨.refl c d, hholes hps⟩
    · have hlength : t.text.length + 3 ≤ n := by
        simpa [Token.weight, hk] using hweight (by omega)
      rcases (hg.parts (by omega : t.text.length < n) hspan).cases with
        ⟨ps, ps', hp, hp', hparts⟩ | ⟨e, e', hp, hp', hproblem, hsame, hends⟩
      · rw [hp, hp']
        exact .ok ⟨⟨hholes hp, by simp [hparts.view], fun e => by rw [hspan e, hparts.same e]⟩, hc⟩
      · rw [hp, hp']
        exact .error hproblem hsame hends
  case identifier =>
    rw [← htext]
    exact hone (.name · t.text) rfl ⟨.name _ _, Nat.le_refl 9⟩ (by simp)
  case lParen =>
    refine .advance (fun _ h => h.1) (fun _ h => h.1) (hword rfl)
      ((hg.expression d).bind fun _ _ hinner => (expect_word rfl _).bind fun _ _ hclosing => ?_)
    exact .pure id ⟨⟨.group _ _ hinner.fine, Nat.le_refl 9⟩, by simp [hinner.view],
      fun e => by rw [hspan e, hinner.same e, hclosing.same e]⟩
  case lBracket =>
    refine .advance (fun _ h => h.1) (fun _ h => h.1) (hword rfl) ((trailing (hg.expression d)).bind
      fun _ _ hitems => (expect_word rfl _).bind fun _ _ hclosing => ?_)
    exact .pure id ⟨⟨.list _ _ hitems.fine, Nat.le_refl 9⟩, by simp [hitems.view],
      fun e => by rw [hspan e, hitems.same e, hclosing.same e]⟩
  case lBrace =>
    refine .advance (fun _ h => h.1) (fun _ h => h.1) (.opening hk (.nil _))
      ((trailing hg.entry).bind
      fun _ _ hentries => (expect_closing _).bind fun _ _ hclosing => ?_)
    exact .pure id ⟨⟨.dict _ _ (fun e he => (hentries.fine e he).1) fun e he =>
      (hentries.fine e he).2, Nat.le_refl 9⟩, by simp [hentries.view],
      fun e => by rw [hspan e, hentries.same e, hclosing.same e]⟩
  all_goals exact .fail (by simp) hspan

theorem argument {before before' : List Argument}
    (h : Same E (List.map Argument.unplaced) before before') :
    Advances E n d (fun a => a.value.WellFormed ∧
      ∀ b ∈ before, b.name = none ∨ (a.name ≠ none ∧ a.name ≠ b.name)) Argument.unplaced
      (g.argument before) (g'.argument before') := by
  have hnames : before.map Argument.name = before'.map Argument.name := by
    have hmap := congrArg (List.map Argument.name) h.view
    simpa [Function.comp_def] using hmap
  have hany (p : Option String → Bool) : before'.any (p ·.name) = before.any (p ·.name) := by
    have hnamed := congrArg (·.any p) hnames
    simpa [Function.comp_def] using hnamed.symm
  refine two rfl rfl (fun name name' hname => ?_) ?_
  · rw [← hname.text, hany (· == some name.text)]
    refine .ite (fun _ => .fail_bind (by simp) fun e => by rw [hname.same e]) fun hnew =>
      (hg.expression d).bind fun _ _ hvalue => .pure id ⟨⟨hvalue.fine, fun b hb => ?_⟩,
        by simp [hvalue.view], fun e => by rw [hvalue.same e]⟩
    grind
  · rw [hany Option.isSome]
    refine .ite (fun _ => peek.bind fun _ _ ht => .fail_bind (by simp) fun e => by rw [ht.same e])
      fun hnone => (hg.expression d).bind_moved fun _ _ hvalue => .pure id
        ⟨⟨hvalue.fine, fun b hb => .inl ?_⟩, by simp [hvalue.view], fun e => by rw [hvalue.same e]⟩
    simp_all

theorem arguments : Parse.Agree E n d
    (fun as => (∀ a ∈ as, a.value.WellFormed) ∧ Argument.Ordered as) (List.map Argument.unplaced)
    g.arguments g'.arguments := by
  refine (check _).bind_same fun _ => .ite (fun _ => .pure id (.refl ⟨by simp, .nil⟩)) fun _ => ?_
  refine ((separated (I := fun done => (∀ a ∈ done, a.value.WellFormed) ∧
    Argument.Ordered done.reverse) ⟨by simp, .nil⟩ fun done done' hdone => ?_).coarsen
      fun arguments ha => ?_).weaken fun _ => False.elim
  · refine (hg.argument hdone).coarsen fun a ha hbefore =>
      ⟨forall_mem_cons.mpr ⟨ha.1, hbefore.1⟩, ?_⟩
    exact pairwise_reverse.mpr (.cons ha.2 (pairwise_reverse.mp hbefore.2))
  · simp_all

theorem suffix? {target target' : Expr} (ht : Same E Expr.unplaced target target') :
    Extends E (n + 1) d (fun e => target.WellFormed ∧ 9 ≤ target.strength →
      e.WellFormed ∧ 9 ≤ e.strength) Expr.unplaced (g.suffix? target) (g'.suffix? target') := by
  have hsome {a b : Expr} (ha : target.WellFormed ∧ 9 ≤ target.strength →
      a.WellFormed ∧ 9 ≤ a.strength) (hv : a.unplaced = b.unplaced) (hs : E → a = b) :
      Alike E (fun r => ∀ e, r = some e → target.WellFormed ∧ 9 ≤ target.strength →
        e.WellFormed ∧ 9 ≤ e.strength) (Option.map Expr.unplaced) (some a) (some b) :=
    ⟨by simpa using ha, congrArg some hv, fun e => congrArg some (hs e)⟩
  have hword {k : TokenKind} (hk : k.isWord = true) {t : Token} (ht : t.kind = k) : Nests d [t] d :=
    .word (ht ▸ hk) (.nil d)
  refine peek_bind fun t t' _ => last_bind fun u u' _ => ?_
  have hline (c : Cursor) {t u : Token} (h : c.last = u ∧ c.next = t ∧ True) :
      (t.span.line == u.span.line) = (c.next.span.line == c.last.span.line) := by
    rw [h.1, h.2.1]
  refine bracket_ite (.inl rfl) (fun c => hline c) (fun c => hline c) (fun _ _ _ hk => ?_)
    (bracket_ite (.inr rfl) (fun c => hline c) (fun c => hline c) (fun _ _ _ hk => ?_) ?_)
  · refine advance (fun _ => id) (fun _ => id) (hword rfl hk) (hg.arguments.bind
      fun _ _ ha => (expect_word rfl _).bind fun _ _ hclosing =>
        .pure id (hsome (fun h => ?_) ?_ fun e => ?_))
    · exact ⟨.call _ _ _ h.1 ha.fine.1 h.2 ha.fine.2, Nat.le_refl 9⟩
    · simp [ht.view, ha.view]
    · rw [ht.same e, ha.same e, hclosing.same e]
  · refine advance (fun _ => id) (fun _ => id) (hword rfl hk) ((hg.expression d).bind
      fun _ _ hi => (expect_word rfl _).bind fun _ _ hclosing =>
        .pure id (hsome (fun h => ?_) ?_ fun e => ?_))
    · exact ⟨.index _ _ _ h.1 hi.fine h.2, Nat.le_refl 9⟩
    · simp [ht.view, hi.view]
    · rw [ht.same e, hi.same e, hclosing.same e]
  · refine accept_bind (fun _ => hword rfl) ((expect_word rfl _).bind
      fun _ _ hname => .pure id (hsome (fun h => ?_) ?_ fun e => ?_))
      (.pure (by simp) (.refl (by simp)))
    · exact ⟨.member _ _ _ h.1 h.2, Nat.le_refl 9⟩
    · simp [ht.view, hname.text]
    · rw [ht.same e, hname.same e]

theorem postfixed : SameExprs E (n + 1) d 9 g.postfixed g'.postfixed :=
  hg.primary.bind_moved fun _ _ he => .extending he fun _ _ ht => hg.suffix? ht

omit hg in
theorem signStep {signs signs' : List (UnaryOp × Span)}
    (h : Same E (List.map Prod.fst) signs signs') : Extends E n d (fun _ => True)
      (List.map Prod.fst) (Grammar.signStep signs) (Grammar.signStep signs') := by
  refine peek_bind fun t t' ht => ?_
  rw [← ht.kind]
  cases hop : unaryOp? t.kind with
  | none => exact .pure (by simp) (.refl (by simp))
  | some op =>
    have hword := isWord_of_eq_some (by decide) hop
    refine advance_same (fun _ h => h.1) (fun _ h => h.1) (.word hword (.nil d)) (.pure id ?_)
    exact ⟨fun _ _ => trivial, by simp [h.view], fun e => by rw [ht.same e, h.same e]⟩

omit hg in
theorem signs : Parse.Agree E n d (fun _ => True) (List.map Prod.fst) Grammar.signs Grammar.signs :=
  .extending (.refl trivial) fun _ _ h => (signStep h).coarsen fun _ _ _ _ _ => trivial

omit hg in
theorem unplaced_signed (signs : List (UnaryOp × Span)) (operand : Expr) :
    (signed signs operand).unplaced =
      (signs.map Prod.fst).foldl (fun e op => .unary default op e) operand.unplaced := by
  induction signs generalizing operand with
  | nil => rfl
  | cons sign signs ih => exact (ih _).trans (by simp)

omit hg in
theorem wellFormed_signed (signs : List (UnaryOp × Span)) {operand : Expr}
    (h : operand.WellFormed ∧ 8 ≤ operand.strength) :
    (signed signs operand).WellFormed ∧ 8 ≤ (signed signs operand).strength := by
  induction signs generalizing operand with
  | nil => exact h
  | cons sign signs ih => exact ih ⟨.unary _ sign.1 operand h.1 h.2, Nat.le_refl 8⟩

theorem unary : SameExprs E (n + 1) d 8 g.unary g'.unary := by
  refine signs.bind fun signs signs' hsigns => hg.postfixed.bind_moved fun operand operand' ho =>
    .pure id ⟨?_, ?_, fun e => ?_⟩
  · exact wellFormed_signed signs ⟨ho.fine.1, Nat.le_of_succ_le ho.fine.2⟩
  · refine (unplaced_signed _ _).trans (.trans ?_ (unplaced_signed _ _).symm)
    rw [hsigns.view, ho.view]
  · rw [hsigns.same e, ho.same e]

omit hg in
theorem binaryStep {operand operand' : Parse Expr}
    (h : SameExprs E n d (l + 1) operand operand') {left left' : Expr}
    (hleft : Same E Expr.unplaced left left') : Extends E n d
      (fun e => left.WellFormed ∧ l ≤ left.strength → e.WellFormed ∧ l ≤ e.strength) Expr.unplaced
      (Grammar.binaryStep (opsAt l) operand left)
      (Grammar.binaryStep (opsAt l) operand' left') := by
  refine peek_bind fun t t' ht => ?_
  rw [← ht.kind]
  cases hk : opsAt l t.kind with
  | none => exact .pure (by simp) (.refl (by simp))
  | some op =>
    have hop := strength_of_opsAt hk
    refine advance_same (fun _ h => h.1) (fun _ h => h.1) (.word (isWord_of_opsAt hk) (.nil d))
      (h.bind fun _ _ hright => .pure id ⟨?_, by simp [hleft.view, hright.view], fun e => ?_⟩)
    · rintro _ ⟨⟩ hwell
      refine ⟨.binary _ op _ _ hwell.1 hright.fine.1 ?_ ?_, Nat.le_of_eq hop.symm⟩
      · rw [hop]
        exact hwell.2
      · rw [hop]
        exact hright.fine.2
    · rw [hleft.same e, hright.same e]

omit hg in
theorem binaryLevel (hl : l ∈ binaryLevels)
    (h : SameExprs E n d (l + 1) (g.atLevel (l + 1)) (g'.atLevel (l + 1))) :
    SameExprs E n d l (g.atLevel l) (g'.atLevel l) := by
  rw [atLevel_eq g hl, atLevel_eq g' hl, extension_eq g hl, extension_eq g' hl]
  exact h.bind_moved fun _ _ hfirst => .extending
    ⟨⟨hfirst.fine.1, Nat.le_of_succ_le hfirst.fine.2⟩, hfirst.view, hfirst.same⟩
    fun _ _ hleft => binaryStep h hleft

omit hg in
theorem range (hterm : SameExprs E n d 6 g.term g'.term) : SameExprs E n d 5 g.range g'.range := by
  refine hterm.bind_moved fun _ _ hfirst =>
    (accept rfl).bind_same fun _ => .ite (fun _ => ?_) fun _ => ?_
  · exact hterm.bind fun _ _ hlast => .pure id
      ⟨⟨.range _ _ _ hfirst.fine.1 hlast.fine.1 hfirst.fine.2 hlast.fine.2, Nat.le_refl 5⟩,
        by simp [hfirst.view, hlast.view], fun e => by rw [hfirst.same e, hlast.same e]⟩
  · exact .pure id ⟨⟨hfirst.fine.1, Nat.le_of_succ_le hfirst.fine.2⟩, hfirst.view, hfirst.same⟩

theorem atLevel (hl : 0 < l) (hl9 : l ≤ 9) :
    SameExprs E (n + 1) d l (g.atLevel l) (g'.atLevel l) := by
  have h7 := binaryLevel (d := d) (l := 7) (by decide) hg.unary
  have h6 := binaryLevel (l := 6) (by decide) h7
  have h5 : SameExprs E (n + 1) d 5 (g.atLevel 5) (g'.atLevel 5) := range h6
  have h4 := binaryLevel (l := 4) (by decide) h5
  have h3 := binaryLevel (l := 3) (by decide) h4
  have h2 := binaryLevel (l := 2) (by decide) h3
  have h1 := binaryLevel (l := 1) (by decide) h2
  have hcases : l = 1 ∨ l = 2 ∨ l = 3 ∨ l = 4 ∨ l = 5 ∨ l = 6 ∨ l = 7 ∨ l = 8 ∨ l = 9 := by omega
  rcases hcases with rfl | rfl | rfl | rfl | rfl | rfl | rfl | rfl | rfl
  · exact h1
  · exact h2
  · exact h3
  · exact h4
  · exact h5
  · exact h6
  · exact h7
  · exact hg.unary
  · exact hg.postfixed

theorem assignment :
    Advances E (n + 1) d Expr.WellFormed Expr.unplaced g.assignment g'.assignment := by
  refine (hg.atLevel (l := 1) (by decide) (by decide)).bind_moved fun target target' htarget =>
    peek_bind fun t t' ht => ?_
  have hisTarget : target.isTarget = target'.isTarget := by
    rw [← target.isTarget_unplaced, htarget.view, target'.isTarget_unplaced]
  rw [← ht.kind]
  cases hop : assignOp? t.kind with
  | none => exact .pure id ⟨htarget.fine.1, htarget.view, htarget.same⟩
  | some op =>
    have hword := isWord_of_eq_some (by decide) hop
    refine advance (fun _ h => h.1) (fun _ h => h.1) (.word hword (.nil d))
      ((hg.expression d).bind fun _ _ hvalue => ?_)
    rw [← hisTarget]
    refine .ite (fun h => .pure id ⟨?_, ?_, fun e => ?_⟩) fun _ =>
      .fail (by simp) fun e => by rw [ht.same e]
    · exact .assign _ _ op _ htarget.fine.1 hvalue.fine h
    · simp [htarget.view, hvalue.view]
    · rw [htarget.same e, hvalue.same e]

/-! ### Texts that are one expression -/

omit hg in
theorem wholeExpression
    (he : Advances E n d Expr.WellFormed Expr.unplaced g.expression g'.expression) :
    Advances E n d Expr.WellFormed Expr.unplaced g.wholeExpression g'.wholeExpression :=
  he.bind_moved fun _ _ hvalue => (check _).bind_same fun _ => .ite (fun _ => .pure id hvalue)
    fun _ => peek.bind fun _ _ ht => .fail (by simp) fun e => by rw [ht.same e]

omit hg in
theorem expressionText_wellFormed
    (he : Advances E n 0 Expr.WellFormed Expr.unplaced g.expression g'.expression)
    {e : Expr} (h : g.expressionText source line = .ok e) :
    e.WellFormed := by
  unfold Grammar.expressionText at h
  cases htokens : tokenizeChars source line with
  | error error => rw [htokens] at h; cases h
  | ok tokens =>
    simp only [htokens] at h
    cases hread : g.wholeExpression (Cursor.start tokens) with
    | error error => rw [hread] at h; cases h
    | ok r =>
      rw [hread] at h
      cases h
      exact ((wholeExpression he).gets _ r.1 r.2 (.start (Lexer.tokensFrom_covers htokens)) trivial
        hread).2

omit hg in
theorem expressionText
    (he : Advances E (n + 1) 0 Expr.WellFormed Expr.unplaced g.expression g'.expression)
    (hlength : source.length < n + 1) {line' : Nat} (hline : E → line = line') :
    Parallel E (Alike E Expr.WellFormed Expr.unplaced) (g.expressionText source line)
      (g'.expressionText source line') := by
  unfold Grammar.expressionText
  rcases (tokenizeChars_sameWords source line line').cases with
    ⟨ts, us, hts, hus, hwords⟩ | ⟨error, error', hts, hus, hproblem⟩
  · have hc := Lexer.tokensFrom_covers hts
    have hsame (e : E) : ts = us := by simp_all
    rw [hts, hus]
    refine ((wholeExpression he).runs _ _ (.start hc hwords hsame) trivial trivial ?_).map
      fun _ _ hr => hr.1
    exact Nat.lt_of_le_of_lt hc.weight_le hlength
  · rw [hts, hus]
    refine .error hproblem (fun e => ?_) (Lexer.tokensFrom_ne_exhausted (Nat.lt_succ_self _) hts)
    simp_all

end Agree

end Grammar

end ClassScript
