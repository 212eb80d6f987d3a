import ClassScript.Proofs.Json5.Token

/-!
# Reading Every Spelling

The reader takes each spelling of a document and gives back that document, or refuses it if it
is nested deeper than the limit, because everything in front of the bracket that is one too many
can be read.
-/

namespace ClassScript

open List

namespace Json

variable {j : Json} {text : String}

namespace Reader

variable {after : List Char} {s : String} {n : Int}

section Rounds

variable {item : Reader → Result (Json × Reader)} {n : Nat} {r r₁ r₂ : Reader} {j : Json}
  {fault : Fault} {rest : List Char} {p : Place}
variable {read : List Json}

theorem items_close (h : r.trivia = .ok ⟨']' :: rest, p⟩) :
    items item (n + 1) read r = .ok (.array read.reverse, ⟨rest, p.after ']'⟩) := by
  rw [items, h]
  rfl

theorem items_last (h : r.trivia = .ok r₁) (hopen : r₁.at? ']' = false)
    (hitem : item r₁ = .ok (j, r₂)) (hnext : r₂.trivia = .ok ⟨']' :: rest, p⟩) :
    items item (n + 1) read r = .ok (.array (read.reverse ++ [j]), ⟨rest, p.after ']'⟩) := by
  rw [items, h]
  simp only [bind, Except.bind, hopen, hitem, hnext, reverse_cons]
  rfl

theorem items_next (h : r.trivia = .ok r₁) (hopen : r₁.at? ']' = false)
    (hitem : item r₁ = .ok (j, r₂)) (hnext : r₂.trivia = .ok ⟨',' :: rest, p⟩) :
    items item (n + 1) read r = items item n (j :: read) ⟨rest, p.after ','⟩ := by
  rw [items, h]
  simp only [bind, Except.bind, hopen, hitem, hnext]
  rfl

theorem items_refused (h : r.trivia = .ok r₁) (hopen : r₁.at? ']' = false)
    (hitem : item r₁ = .error fault) : items item (n + 1) read r = .error fault := by
  rw [items, h]
  simp only [bind, Except.bind, hopen, hitem]
  rfl

variable {k : String} {r₃ r₄ : Reader} {between : List Char} {q : Place}
  {read : List (String × Json)}

theorem entries_close (h : r.trivia = .ok ⟨'\x7d' :: rest, p⟩) :
    entries item (n + 1) read r = .ok (.object read.reverse, ⟨rest, p.after '\x7d'⟩) := by
  rw [entries, h]
  rfl

variable (h : r.trivia = .ok r₁) (hopen : r₁.at? '\x7d' = false) (hkey : r₁.key = .ok (k, r₂))
  (hcolon : r₂.trivia = .ok ⟨':' :: between, q⟩)
  (hbetween : Reader.trivia ⟨between, q.after ':'⟩ = .ok r₃)
include h hopen hkey hcolon hbetween

theorem entries_last (hitem : item r₃ = .ok (j, r₄))
    (hnext : r₄.trivia = .ok ⟨'\x7d' :: rest, p⟩) : entries item (n + 1) read r =
      .ok (.object (read.reverse ++ [(k, j)]), ⟨rest, p.after '\x7d'⟩) := by
  rw [entries, h]
  simp only [bind, Except.bind, hopen, hkey, hcolon, expect_cons, hbetween, hitem, hnext,
    reverse_cons]
  rfl

theorem entries_next (hitem : item r₃ = .ok (j, r₄)) (hnext : r₄.trivia = .ok ⟨',' :: rest, p⟩) :
    entries item (n + 1) read r = entries item n ((k, j) :: read) ⟨rest, p.after ','⟩ := by
  rw [entries, h]
  simp only [bind, Except.bind, hopen, hkey, hcolon, expect_cons, hbetween, hitem, hnext]
  rfl

theorem entries_refused (hitem : item r₃ = .error fault) :
    entries item (n + 1) read r = .error fault := by
  rw [entries, h]
  simp only [bind, Except.bind, hopen, hkey, hcolon, expect_cons, hbetween, hitem]
  rfl

end Rounds

variable {tail text : List Char} {c : Char}

theorem stops_trivia (h : Trivia after) (ht : Stops tail) : Stops (after ++ tail) := by
  cases h with
  | none => exact ht
  | blank hc _ => exact stops_cons (.inl hc)
  | line | block => exact stops_cons (.inr (by decide))

theorem stops_ending (h : Ending after) : Stops after := by
  have hnil : Stops [] := fun c hc => by cases hc
  cases h with
  | trivia h =>
    have hstops := stops_trivia h hnil
    rwa [append_nil] at hstops
  | line h _ => exact stops_trivia h (stops_cons (.inr (by decide)))

theorem solid_quoted (h : Quoted s text) : Solid text := by
  cases h with
  | mk hq _ =>
    rcases hq with rfl | rfl
    all_goals exact ⟨_, _, rfl, by decide, by decide⟩

theorem solid_numeral (h : Numeral n text) : Solid text := by
  cases h with
  | plain hne hd =>
    cases text with
    | nil => exact absurd rfl hne
    | cons c digits => exact solid_of_inWord (inWord_of_digit (hd c mem_cons_self))
  | plus | minus => exact ⟨_, _, rfl, by decide, by decide⟩

theorem solid_key {k : String} (h : KeyText k text) : Solid text := by
  cases h with
  | quoted h => exact solid_quoted h
  | bare _ hfirst _ => exact solid_of_inWord (inWord_of_startsWord hfirst)

theorem solid_value (h : Spells (.value j) text) : Solid text := by
  cases h with
  | null | yes | no => exact solid_of_inWord (by decide)
  | int h => exact solid_numeral h
  | string h => exact solid_quoted h
  | array | object => exact ⟨_, _, rfl, by decide, by decide⟩

theorem value_cons (hc : c ∉ ['[', '\x7b', '"', '\'']) (room : Nat) (rest : List Char)
    (p : Place) : value room ⟨c :: rest, p⟩ =
      if startsNumber c then number ⟨c :: rest, p⟩
      else if startsWord c then word ⟨c :: rest, p⟩
      else refuse ⟨c :: rest, p⟩ (.unexpectedCharacter c) := by
  simp only [mem_cons, not_mem_nil, or_false, not_or] at hc
  unfold value
  dsimp only
  split
  case h_1 heq => cases heq; exact absurd rfl hc.1
  case h_2 heq => cases heq; exact absurd rfl hc.2.1
  case h_3 heq => cases heq; exact absurd rfl hc.2.2.1
  case h_4 heq => cases heq; exact absurd rfl hc.2.2.2
  case h_5 heq => cases heq; rfl
  case h_6 heq => cases heq

theorem value_number (hc : startsNumber c = true) (room : Nat) (rest : List Char)
    (p : Place) : value room ⟨c :: rest, p⟩ = number ⟨c :: rest, p⟩ := by
  have hopens : c ∉ ['[', '\x7b', '"', '\''] := by
    have hall : ∀ c ∈ ['[', '\x7b', '"', '\''], startsNumber c = false :=
      all_iff_forall_prop.mp (by decide)
    grind
  rw [value_cons hopens, if_pos hc]

theorem numeral_starts (h : Numeral n text) :
    ∃ c rest, text = c :: rest ∧ startsNumber c = true := by
  cases h with
  | plain hne hd =>
    cases text with
    | nil => exact absurd rfl hne
    | cons c digits =>
      refine ⟨c, digits, rfl, ?_⟩
      unfold startsNumber
      rw [hd c mem_cons_self, Bool.true_or]
  | plus | minus => exact ⟨_, _, rfl, by decide⟩

theorem value_numeral {n : Int64} (h : Numeral n.toInt text) (room : Nat)
    (ht : Stops tail) : Reads (value room) text (.int n) tail := by
  intro p
  rcases number_reads h ht p with ⟨p', hp'⟩
  rcases numeral_starts h with ⟨c, rest, rfl, hc⟩
  refine ⟨p', ?_⟩
  rw [cons_append] at hp' ⊢
  rw [value_number hc, hp']

theorem value_quoted (h : Quoted s text) (room : Nat)
    (tail : List Char) : Reads (value room) text (.string s) tail := by
  intro p
  cases h with
  | @mk quote text hq hw =>
    rcases string_reads hq hw tail p with ⟨p', hp'⟩
    refine ⟨p', ?_⟩
    rcases hq with rfl | rfl
    all_goals
      unfold value
      rw [hp']
      rfl

theorem value_word {name : List Char} (hfirst : startsNumber c = false ∧ startsWord c = true)
    (hname : ∀ d ∈ c :: name, inWord d = true)
    (hj : ∀ r r', span inWord r = (c :: name, r') → word r = .ok (j, r')) (room : Nat)
    (ht : Stops tail) : Reads (value room) (c :: name) j tail := by
  intro p
  rcases span_inWord hname ht p with ⟨p', hp'⟩
  have hopens : c ∉ ['[', '\x7b', '"', '\''] := by
    have hall : ∀ c ∈ ['[', '\x7b', '"', '\''], startsWord c = false :=
      all_iff_forall_prop.mp (by decide)
    grind
  refine ⟨p', ?_⟩
  rw [cons_append] at hp' ⊢
  rw [value_cons hopens, if_neg (by rw [hfirst.1]; exact Bool.false_ne_true), if_pos hfirst.2,
    hj _ _ hp']

end Reader

open Reader

def Reader.Decides {α : Type} (read : Reader → Result (α × Reader)) (fits : Prop)
    (text : List Char) (a : α) (tail : List Char) : Prop :=
  ∀ p, ∃ q, fits ∧ read ⟨text ++ tail, p⟩ = .ok (a, ⟨tail, q⟩) ∨
    ¬ fits ∧ read ⟨text ++ tail, p⟩ = .error (refusal q .tooDeep)

theorem Reader.Reads.decides {α : Type} {read : Reader → Result (α × Reader)} {fits : Prop}
    {text tail : List Char} {a : α} (h : Reads read text a tail) (hfits : fits) :
    Decides read fits text a tail := by
  intro p
  rcases h p with ⟨q, hq⟩
  exact ⟨q, .inl ⟨hfits, hq⟩⟩

/-- What the reader does with a document, or with the rest of an array or object. A round is made
    for each comma and for the closing bracket. -/
def Form.Decides : Form → List Char → Prop
  | .value j, text => ∀ room tail, Stops tail →
      Reader.Decides (Reader.value room) (j.depth ≤ room) text j tail
  | .items js, text => ∀ room tail n read, text.length ≤ n →
      Reader.Decides (Reader.items (Reader.value room) n read) (depthOfItems js ≤ room) text
        (.array (read.reverse ++ js)) tail
  | .entries es, text => ∀ room tail n read, text.length ≤ n →
      Reader.Decides (Reader.entries (Reader.value room) n read) (depthOfEntries es ≤ room) text
        (.object (read.reverse ++ es)) tail

section Steps

variable {j : Json} {before text after : List Char} {p : Place}

theorem item_reaches (hb : Trivia before) (hj : Spells (.value j) text) (tail : List Char)
    (p : Place) :
    ∃ q, trivia ⟨before ++ (text ++ tail), p⟩ = .ok ⟨text ++ tail, q⟩ ∧
      at? ⟨text ++ tail, q⟩ ']' = false := by
  have hsolid := (solid_value hj).append tail
  rcases trivia_skips hb hsolid p with ⟨q, hq⟩
  exact ⟨q, hq, hsolid.at?_eq_false (by decide) q⟩

theorem key_reaches {k : String} {key colon between : List Char} (hb : Trivia before)
    (hk : KeyText k key) (hc : Trivia colon) (hm : Trivia between) (hj : Spells (.value j) text)
    (tail : List Char) (p : Place) :
    ∃ r₁ r₂ q q', trivia ⟨before ++ (key ++ (colon ++ ':' :: (between ++ (text ++ tail)))), p⟩ =
        .ok r₁ ∧ at? r₁ '\x7d' = false ∧ Reader.key r₁ = .ok (k, r₂) ∧
      trivia r₂ = .ok ⟨':' :: (between ++ (text ++ tail)), q⟩ ∧
      trivia ⟨between ++ (text ++ tail), q.after ':'⟩ = .ok ⟨text ++ tail, q'⟩ := by
  have hsolid := (solid_key hk).append (colon ++ ':' :: (between ++ (text ++ tail)))
  have hstops : Stops (colon ++ ':' :: (between ++ (text ++ tail))) :=
    stops_trivia hc (stops_cons (.inr (by decide)))
  rcases trivia_skips hb hsolid p with ⟨p₁, hbegin⟩
  rcases key_reads hk hstops p₁ with ⟨p₂, hkey⟩
  rcases trivia_skips_mark hc (c := ':') (by decide) (between ++ (text ++ tail)) p₂ with ⟨q, hcolon⟩
  rcases trivia_skips hm ((solid_value hj).append tail) (q.after ':') with ⟨q', hvalue⟩
  exact ⟨_, _, q, q', hbegin, hsolid.at?_eq_false (by decide) p₁, hkey, hcolon, hvalue⟩

theorem stops_mark (ha : Trivia after) {c : Char} (hc : c ∈ marks) (rest : List Char) :
    Stops (after ++ c :: rest) :=
  stops_trivia ha (stops_cons (.inr hc))

end Steps

theorem Spells.decides {form : Form} {text : List Char} (h : Spells form text) :
    form.Decides text := by
  have hlength (c : Char) (text tail : List Char) : text.length ≤ (c :: (text ++ tail)).length := by
    grind
  induction h with
  | null | yes | no =>
    exact fun room tail ht => (value_word (by decide) (all_eq_true.mp (by decide))
      (fun r r' h => by unfold word; rw [h]; rfl) room ht).decides (Nat.zero_le _)
  | int h => exact fun room tail ht => (value_numeral h room ht).decides (Nat.zero_le _)
  | string h => exact fun room tail _ => (value_quoted h room tail).decides (Nat.zero_le _)
  | @array js text _ ih =>
    intro room tail _ p
    cases room with
    | zero => exact ⟨p, .inr ⟨by rw [depth]; omega, rfl⟩⟩
    | succ room =>
      rw [depth, Nat.add_le_add_iff_right]
      exact ih room tail _ [] (hlength '[' text tail) (p.after '[')
  | @object es text _ ih =>
    intro room tail _ p
    cases room with
    | zero => exact ⟨p, .inr ⟨by rw [depth]; omega, rfl⟩⟩
    | succ room =>
      rw [depth, Nat.add_le_add_iff_right]
      exact ih room tail _ [] (hlength '\x7b' text tail) (p.after '\x7b')
  | @noItems before hb =>
    intro room tail n read hn p
    cases n with
    | zero => simp_all
    | succ n =>
      rw [append_assoc, append_nil]
      rcases trivia_skips_mark hb (c := ']') (by decide) tail p with ⟨q, hq⟩
      exact ⟨_, .inl ⟨Nat.zero_le _, items_close hq⟩⟩
  | @lastItem j before text after hb hj ha ih =>
    intro room tail n read hn p
    cases n with
    | zero => simp_all
    | succ n =>
      simp only [append_assoc, depthOfItems]
      rcases item_reaches hb hj (after ++ ']' :: tail) p with ⟨q, hq, hopen⟩
      rcases ih room _ (stops_mark ha (c := ']') (by decide) tail) q
        with ⟨q₁, ⟨hfits, hq₁⟩ | ⟨hdeep, hq₁⟩⟩
      · rcases trivia_skips_mark ha (c := ']') (by decide) tail q₁ with ⟨q₂, hq₂⟩
        exact ⟨_, .inl ⟨by omega, items_last hq hopen hq₁ hq₂⟩⟩
      · exact ⟨q₁, .inr ⟨by omega, items_refused hq hopen hq₁⟩⟩
  | @item j js before text after rest hb hj ha _ ih ihrest =>
    intro room tail n read hn p
    cases n with
    | zero => simp_all
    | succ n =>
      have hlength : rest.length ≤ n := by grind
      simp only [append_assoc, cons_append, depthOfItems]
      rcases item_reaches hb hj (after ++ ',' :: (rest ++ tail)) p with ⟨q, hq, hopen⟩
      rcases ih room _ (stops_mark ha (c := ',') (by decide) (rest ++ tail)) q
        with ⟨q₁, ⟨hfits, hq₁⟩ | ⟨hdeep, hq₁⟩⟩
      · -- The item fits, so what may not fit comes behind it.
        rcases trivia_skips_mark ha (c := ',') (by decide) (rest ++ tail) q₁ with ⟨q₂, hq₂⟩
        rw [items_next hq hopen hq₁ hq₂]
        rcases ihrest room tail n (j :: read) hlength (q₂.after ',') with ⟨q₃, h | h⟩
        · grind
        · exact ⟨q₃, .inr ⟨by omega, h.2⟩⟩
      · exact ⟨q₁, .inr ⟨by omega, items_refused hq hopen hq₁⟩⟩
  | @noEntries before hb =>
    intro room tail n read hn p
    cases n with
    | zero => simp_all
    | succ n =>
      rw [append_assoc, append_nil]
      rcases trivia_skips_mark hb (c := '\x7d') (by decide) tail p with ⟨q, hq⟩
      exact ⟨_, .inl ⟨Nat.zero_le _, entries_close hq⟩⟩
  | @lastEntry k j before key colon between text after hb hk hc hm hj ha ih =>
    intro room tail n read hn p
    cases n with
    | zero => simp_all
    | succ n =>
      simp only [append_assoc, cons_append, depthOfEntries]
      rcases key_reaches hb hk hc hm hj (after ++ '\x7d' :: tail) p
        with ⟨r₁, r₂, q, r₃, hq, hopen, hkey, hcolon, hbetween⟩
      rcases ih room _ (stops_mark ha (c := '\x7d') (by decide) tail) r₃
        with ⟨q₁, ⟨hfits, hq₁⟩ | ⟨hdeep, hq₁⟩⟩
      · rcases trivia_skips_mark ha (c := '\x7d') (by decide) tail q₁ with ⟨q₂, hq₂⟩
        exact ⟨_, .inl ⟨by omega, entries_last hq hopen hkey hcolon hbetween hq₁ hq₂⟩⟩
      · exact ⟨q₁, .inr ⟨by omega, entries_refused hq hopen hkey hcolon hbetween hq₁⟩⟩
  | @entry k j es before key colon between text after rest hb hk hc hm hj ha _ ih ihrest =>
    intro room tail n read hn p
    cases n with
    | zero => simp_all
    | succ n =>
      have hlength : rest.length ≤ n := by grind
      simp only [append_assoc, cons_append, depthOfEntries]
      rcases key_reaches hb hk hc hm hj (after ++ ',' :: (rest ++ tail)) p
        with ⟨r₁, r₂, q, r₃, hq, hopen, hkey, hcolon, hbetween⟩
      rcases ih room _ (stops_mark ha (c := ',') (by decide) (rest ++ tail)) r₃
        with ⟨q₁, ⟨hfits, hq₁⟩ | ⟨hdeep, hq₁⟩⟩
      · rcases trivia_skips_mark ha (c := ',') (by decide) (rest ++ tail) q₁ with ⟨q₂, hq₂⟩
        rw [entries_next hq hopen hkey hcolon hbetween hq₁ hq₂]
        rcases ihrest room tail n ((k, j) :: read) hlength (q₂.after ',') with ⟨q₃, h | h⟩
        · grind
        · exact ⟨q₃, .inr ⟨by omega, h.2⟩⟩
      · exact ⟨q₁, .inr ⟨by omega, entries_refused hq hopen hkey hcolon hbetween hq₁⟩⟩

theorem parse_decides (h : Spelling j text) :
    ∃ q, j.depth ≤ JsonProblem.maxNesting ∧ parse text = .ok j ∨
      ¬ j.depth ≤ JsonProblem.maxNesting ∧ parse text = .error (refusal q .tooDeep) := by
  cases h with
  | @mk before body after hb hj ha hs =>
    rcases trivia_skips hb ((solid_value hj).append after) ⟨1, 1⟩ with ⟨p, hbegin⟩
    unfold parse start
    rw [hs, hbegin]
    change ∃ q, _ ∧ (value JsonProblem.maxNesting ⟨body ++ after, p⟩ >>= _) = _ ∨
      _ ∧ (value JsonProblem.maxNesting ⟨body ++ after, p⟩ >>= _) = _
    rcases hj.decides _ after (stops_ending ha) p with ⟨q, ⟨hfits, hvalue⟩ | ⟨hdeep, hvalue⟩⟩
    · rcases trivia_ends ha q with ⟨q', hend⟩
      refine ⟨q, .inl ⟨hfits, ?_⟩⟩
      rw [hvalue]
      change (trivia ⟨after, q⟩ >>= _) = _
      rw [hend]
      rfl
    · refine ⟨q, .inr ⟨hdeep, ?_⟩⟩
      rw [hvalue]
      rfl

theorem parse_of_fits (h : Spelling j text)
    (hdepth : j.depth ≤ JsonProblem.maxNesting) : parse text = .ok j := by
  rcases parse_decides h with ⟨_, ⟨_, hq⟩ | ⟨hdeep, _⟩⟩
  · exact hq
  · exact absurd hdepth hdeep

theorem parse_of_tooDeep (h : Spelling j text) (hdepth : JsonProblem.maxNesting < j.depth) :
    ∃ q, parse text = .error (refusal q .tooDeep) := by
  rcases parse_decides h with ⟨q, ⟨hfits, _⟩ | ⟨_, hq⟩⟩
  · omega
  · exact ⟨q, hq⟩

/-- Reading a spelling gives the document, or refuses it if it is nested deeper than the limit. -/
theorem parse_spelling {j : Json} {text : String} (h : Spelling j text) :
    (j.depth ≤ JsonProblem.maxNesting → parse text = .ok j) ∧
      (JsonProblem.maxNesting < j.depth →
        ∃ fault, parse text = .error fault ∧ fault.kind = .invalidOperation) := by
  refine ⟨parse_of_fits h, fun hdepth => ?_⟩
  rcases parse_of_tooDeep h hdepth with ⟨q, hq⟩
  exact ⟨_, hq, rfl⟩

def sampleText : String :=
  "/*/**/\x7b a: [+1, -07,], 'b' : '\\u0041\\\n\\n'\x7d // end"

def sampleDocument : Json :=
  .object [("a", .array [.int 1, .int (-7)]), ("b", .string "A\n")]

theorem sampleText_spelling : Spelling sampleDocument sampleText := by
  have hblank : Trivia [' '] := .blank (by decide) .none
  have hone : Spells (.value (.int 1)) ['+', '1'] :=
    .int (@Numeral.plus ['1'] (by decide) (all_eq_true.mp (by decide)))
  have hseven : Spells (.value (.int (-7))) ['-', '0', '7'] :=
    .int (@Numeral.minus ['0', '7'] (by decide) (all_eq_true.mp (by decide)))
  have hitems := Spells.item .none hone .none (.item hblank hseven .none (.noItems .none))
  have ha : KeyText "a" ['a'] := .bare rfl (by decide) (all_eq_true.mp (by decide))
  have hb : KeyText "b" ['\'', 'b', '\''] := by
    have hw : Written '\'' ['b'] ['b'] := .raw (by decide) (by decide) (by decide) (by decide) .nil
    exact .quoted (@Quoted.mk "b" '\'' ['b'] (.inr rfl) hw)
  have htext : Spells (.value (.string "A\n")) "'\\u0041\\\n\\n'".toList := by
    have hbreak : Written '\'' "\\\n\\n".toList ['\n'] :=
      @Written.lineBreak _ ['\n'] _ _ (by decide) (.letter (by decide) .nil)
    have hcode : Digits.hex? ['0', '0', '4', '1'] = some 'A'.toNat := by decide
    exact .string (@Quoted.mk "A\n" '\'' _ (.inr rfl) (.code rfl hcode hbreak))
  have hentries := Spells.entry hblank ha .none hblank (.array hitems) .none
    (.lastEntry hblank hb hblank hblank htext .none)
  have hcomment : Trivia "/*/**/".toList := @Trivia.block ['/', '*'] [] (by decide) .none
  exact .mk hcomment (.object hentries) (.line hblank (by decide)) rfl

def nested : Nat → Json
  | 0 => .array []
  | n + 1 => .array [nested n]

def nestedText : Nat → List Char
  | 0 => ['[', ']']
  | n + 1 => '[' :: (nestedText n ++ [']'])

theorem nested_spells (n : Nat) : Spells (.value (nested n)) (nestedText n) := by
  induction n with
  | zero => exact .array (.noItems .none)
  | succ n ih => exact .array (.lastItem .none ih .none)

theorem depth_nested (n : Nat) : (nested n).depth = n + 1 := by
  induction n with
  | zero => simp [nested, depth, depthOfItems]
  | succ n ih => simp [nested, depth, depthOfItems, ih]

theorem nested_spelling (n : Nat) : Spelling (nested n) (String.ofList (nestedText n)) := by
  have hends : (String.ofList (nestedText n)).toList = [] ++ (nestedText n ++ []) := by simp
  exact .mk .none (nested_spells n) (.trivia .none) hends

theorem parse_spelling_sample :
    parse sampleText = .ok sampleDocument ∧
      parse (String.ofList (nestedText 511)) = .ok (nested 511) ∧
      ∃ fault, parse (String.ofList (nestedText 512)) = .error fault ∧
        fault.kind = .invalidOperation := by
  refine ⟨(parse_spelling sampleText_spelling).1 ?_, (parse_spelling (nested_spelling 511)).1 ?_,
    (parse_spelling (nested_spelling 512)).2 ?_⟩
  · decide
  · rw [depth_nested]
    decide
  · rw [depth_nested]
    decide

end Json

end ClassScript
