import ClassScript.Proofs.Json5.Token
import Mathlib.Data.List.Chain
import Mathlib.Data.Option.NAry

/-!
# Texts Written in Codes

How a text between quotes is read in which each 16-bit code is written out. The reader is more
lenient than UTF-16 in one point only: a high surrogate takes the next code with it, whatever
that is (`decode_exact`).
-/

namespace ClassScript

open List

namespace Json

namespace Reader

variable {n m : Nat} {units : List UInt16}

/-- Texts in which each code is written as a mark and four hexadecimal digits. -/
inductive Coded : List UInt16 → List Char → Prop
  | nil : Coded [] []
  | cons {u : UInt16} {units : List UInt16} {digits text : List Char} (hlength : digits.length = 4)
      (hu : Digits.hex? digits = some u.toNat) (h : Coded units text) :
      Coded (u :: units) ('\\' :: 'u' :: (digits ++ text))

abbrev IsHigh (n : Nat) : Prop :=
  0xD800 ≤ n ∧ n < 0xDC00

abbrev IsLow (n : Nat) : Prop :=
  0xDC00 ≤ n ∧ n < 0xE000

def decode : List UInt16 → Option (List Char)
  | [] => some []
  | [u] => Option.map₂ List.cons (character? u.toNat) (some [])
  | u :: v :: units =>
    if IsHigh u.toNat then
      Option.map₂ List.cons (character? (pairPoint u.toNat v.toNat)) (decode units)
    else Option.map₂ List.cons (character? u.toNat) (decode (v :: units))

/-- The texts that codes encode in UTF-16. -/
inductive Utf16 : List UInt16 → List Char → Prop
  | nil : Utf16 [] []
  | single {u : UInt16} {c : Char} {units : List UInt16} {cs : List Char} (hc : u.toNat = c.toNat)
      (h : Utf16 units cs) : Utf16 (u :: units) (c :: cs)
  | pair {u v : UInt16} {c : Char} {units : List UInt16} {cs : List Char} (hu : IsHigh u.toNat)
      (hv : IsLow v.toNat)
      (hc : 0x10000 + (u.toNat - 0xD800) * 0x400 + (v.toNat - 0xDC00) = c.toNat)
      (h : Utf16 units cs) : Utf16 (u :: v :: units) (c :: cs)

theorem character?_eq_some {c : Char} : character? n = some c ↔ n = c.toNat := by
  unfold character?
  constructor
  · intro h
    split at h
    · rename_i hn
      cases h
      exact (congrArg Char.toNat (dif_pos hn : Char.ofNat n = Char.ofNatAux n hn)).symm
    · cases h
  · rintro rfl
    have hvalid : c.toNat.isValidChar := c.valid
    rw [if_pos hvalid, Char.ofNat_toNat]

theorem decode_cons {u : UInt16} (hu : ¬ IsHigh u.toNat) (units : List UInt16) :
    decode (u :: units) = Option.map₂ List.cons (character? u.toNat) (decode units) := by
  cases units with
  | nil => rw [decode, decode]
  | cons v units => rw [decode, if_neg hu]

theorem decode_utf16 {cs : List Char} (h : Utf16 units cs) : decode units = some cs := by
  induction h with
  | nil => rfl
  | @single u c _ _ hc _ ih =>
    have hvalid : c.toNat.isValidChar := c.valid
    rw [decode_cons (by rcases hvalid with h | h <;> omega), character?_eq_some.mpr hc, ih]
    rfl
  | @pair u v c _ _ hu hv hc _ ih =>
    rw [decode, if_pos hu, ih, character?_eq_some.mpr (by rw [← hc, pairPoint]; omega)]
    rfl

theorem decode_exact : ∀ {cs : List Char},
    (units.IsChain fun u v => IsHigh u.toNat → IsLow v.toNat) → decode units = some cs →
      Utf16 units cs := by
  fun_induction decode units with
  | case1 =>
    rintro cs - ⟨⟩
    exact .nil
  | case2 u =>
    intro cs _ h
    obtain ⟨c, _, hc, ⟨⟩, rfl⟩ := Option.map₂_eq_some_iff.mp h
    exact .single (character?_eq_some.mp hc) .nil
  | case3 u v units hu ih =>
    intro cs hchain h
    obtain ⟨c, cs, hc, hcs, rfl⟩ := Option.map₂_eq_some_iff.mp h
    have hv := hchain.rel hu
    refine .pair hu hv ?_ (ih hchain.tail.tail hcs)
    rw [← character?_eq_some.mp hc, pairPoint]
    omega
  | case4 u v units hu ih =>
    intro cs hchain h
    obtain ⟨c, cs, hc, hcs, rfl⟩ := Option.map₂_eq_some_iff.mp h
    exact .single (character?_eq_some.mp hc) (ih hchain.tail hcs)

variable {quote : Char} {tail digits : List Char}

theorem codeEscape_single (hlength : digits.length = 4) (hn : Digits.hex? digits = some n)
    (hrest : ¬ IsHigh n ∨ startsWith ⟨tail, default⟩ "\\u" = false) (p : Place) :
    ∃ p', codeEscape ⟨digits ++ tail, p⟩ = pointed n .invalidCodePoint ⟨tail, p'⟩ := by
  rcases code_reads hlength hn tail p with ⟨p', hp'⟩
  refine ⟨p', ?_⟩
  unfold codeEscape
  rw [hp']
  refine if_neg ?_
  rw [Bool.and_eq_true, Bool.and_eq_true, decide_eq_true_eq, decide_eq_true_eq]
  rintro ⟨hhigh, hstarts⟩
  exact hrest.elim (· hhigh) fun h => Bool.false_ne_true (h.symm.trans hstarts)

theorem codeEscape_pair {digits' : List Char} (hlength : digits.length = 4)
    (hm : Digits.hex? digits = some m) (hlength' : digits'.length = 4)
    (hn : Digits.hex? digits' = some n) (hhigh : IsHigh m) (p : Place) :
    ∃ p', codeEscape ⟨digits ++ '\\' :: 'u' :: (digits' ++ tail), p⟩ =
      pointed (pairPoint m n) .invalidPair ⟨tail, p'⟩ := by
  rcases code_reads hlength hm ('\\' :: 'u' :: (digits' ++ tail)) p with ⟨q, hq⟩
  rcases code_reads hlength' hn tail ((q.after '\\').after 'u') with ⟨p', hp'⟩
  refine ⟨p', ?_⟩
  simp [codeEscape, hq, startsWith, hhigh, advance, hp', bind, Except.bind]

def Settles (quote : Char) (tail : List Char) (n : Nat) (read : List Char) (r : Reader)
    (found : Option (List Char)) : Prop :=
  ∃ p problem, stringBody quote n read r = found.elim (.error (refusal p problem))
    fun cs => .ok (String.ofList (read.reverse ++ cs), ⟨tail, p⟩)

theorem Settles.code (hq : quote ≠ '\\') {text rest read : List Char} {p p' : Place}
    {problem : JsonProblem} {found : Option (List Char)}
    (h : codeEscape ⟨text, (p.after '\\').after 'u'⟩ = pointed m problem ⟨rest, p'⟩)
    (hrest : ∀ read, Settles quote tail n read ⟨rest, p'⟩ found) :
    Settles quote tail (n + 1) read ⟨'\\' :: 'u' :: text, p⟩
      (Option.map₂ List.cons (character? m) found) := by
  have hescape : stringBody quote (n + 1) read ⟨'\\' :: 'u' :: text, p⟩ =
      (character? m).elim (.error (refusal p' problem))
        fun c => stringBody quote n (c :: read) ⟨rest, p'⟩ := by
    rw [stringBody]
    simp only [advance]
    rw [if_neg (Ne.symm hq), if_pos trivial, escape]
    simp only [advance, h, pointed]
    cases character? m <;> rfl
  unfold Settles
  rw [hescape]
  cases character? m with
  | none => exact ⟨_, _, rfl⟩
  | some c =>
    obtain ⟨q, problem, hq⟩ := hrest (c :: read)
    refine ⟨q, problem, hq.trans ?_⟩
    cases found <;> simp

theorem settles_end (n : Nat) (read : List Char) (p : Place) :
    Settles quote tail (n + 1) read ⟨quote :: tail, p⟩ (some []) :=
  ⟨p.after quote, .unterminatedString, by simp [stringBody, advance]⟩

theorem settles_codes (hq : quote ≠ '\\') (tail : List Char) (units : List UInt16) :
    ∀ {text : List Char}, Coded units text → ∀ (n : Nat) (read : List Char) (p : Place),
      text.length ≤ n → Settles quote tail (n + 1) read ⟨text ++ quote :: tail, p⟩
        (decode units) := by
  fun_induction decode units with
  | case1 =>
    rintro _ ⟨⟩ n read p _
    exact settles_end n read p
  | case2 u =>
    rintro _ (_ | ⟨hlength, hu, ⟨⟩⟩) (_ | n) read p hn
    · cases hn
    · have hends : startsWith ⟨quote :: tail, default⟩ "\\u" = false := by
        simp [startsWith, isPrefixOf, Ne.symm hq]
      obtain ⟨p', hp'⟩ := codeEscape_single hlength hu (.inr hends) ((p.after '\\').after 'u')
      simpa using Settles.code hq hp' fun read => settles_end n read p'
  | case3 u v units hu ih =>
    rintro _ (_ | ⟨hlength, hm, (_ | ⟨hlength', hn, hrest⟩)⟩) (_ | n) read p hlt
    · cases hlt
    · obtain ⟨p', hp'⟩ := codeEscape_pair hlength hm hlength' hn hu ((p.after '\\').after 'u')
      simp only [length_cons, length_append] at hlt
      simpa using Settles.code hq hp' fun read => ih hrest n read p' (by omega)
  | case4 u v units hu ih =>
    rintro _ (_ | ⟨hlength, hn, hrest⟩) (_ | n) read p hlt
    · cases hlt
    · obtain ⟨p', hp'⟩ := codeEscape_single hlength hn (.inl hu) ((p.after '\\').after 'u')
      simp only [length_cons, length_append] at hlt
      simpa using Settles.code hq hp' fun read => ih hrest n read p' (by omega)

end Reader

open Reader

/-- A text in which each code is written out is accepted if the codes can be read. UTF-16 is read as
    what it encodes, and other codes are accepted only if some high surrogate has no low one behind
    it. -/
theorem parse_codes {quote : Char} (hq : quote = '"' ∨ quote = '\'') {units : List UInt16}
    {text : List Char} (h : Coded units text) :
    (∀ cs, decode units = some cs →
      parse (String.ofList (quote :: (text ++ [quote]))) = .ok (.string (String.ofList cs))) ∧
    (decode units = none → ∃ fault,
      parse (String.ofList (quote :: (text ++ [quote]))) = .error fault ∧
        fault.kind = .invalidOperation) ∧
    (∀ cs, Utf16 units cs → decode units = some cs) ∧
    (∀ cs, (units.IsChain fun u v => IsHigh u.toNat → IsLow v.toNat) → decode units = some cs →
      Utf16 units cs) := by
  have hback : quote ≠ '\\' := by rcases hq with rfl | rfl <;> decide
  have hsolid : Solid (quote :: (text ++ [quote])) :=
    ⟨quote, _, rfl, by rcases hq with rfl | rfl <;> decide⟩
  obtain ⟨p, problem, hbody⟩ := settles_codes hback [] units h (text ++ [quote]).length []
    (Place.after ⟨1, 1⟩ quote) (by simp)
  have hstring : Reader.string quote (start (quote :: (text ++ [quote]))) =
      (decode units).elim (.error (refusal p problem))
        fun cs => .ok (String.ofList cs, ⟨[], p⟩) := by
    rw [Reader.string, start, expect_cons]
    exact hbody
  have hparse : parse (String.ofList (quote :: (text ++ [quote]))) =
      (decode units).elim (.error (refusal p problem))
        fun cs => .ok (.string (String.ofList cs)) := by
    have htrivia : (start (quote :: (text ++ [quote]))).trivia = .ok (start _) :=
      skip_solid hsolid _
    have hvalue : value JsonProblem.maxNesting (start (quote :: (text ++ [quote]))) =
        Reader.string quote (start (quote :: (text ++ [quote]))) >>=
          fun x => .ok (.string x.1, x.2) := by
      rcases hq with rfl | rfl <;> rfl
    rw [parse, String.toList_ofList, htrivia]
    change (value _ _ >>= _) = _
    rw [hvalue, hstring]
    cases decode units <;> rfl
  refine ⟨fun cs hcs => ?_, fun hnone => ?_, fun _ => decode_utf16, fun _ => decode_exact⟩
  · rw [hparse, hcs]
    rfl
  · exact ⟨refusal p problem, by rw [hparse, hnone]; rfl, rfl⟩

theorem parse_codes_sample :
    parse "'\\uD83D\\ude00'" = .ok (.string "😀") ∧
      ∃ fault, parse "\"\\ude00\"" = .error fault ∧ fault.kind = .invalidOperation := by
  have hlow : Coded [0xDE00] "\\ude00".toList := @Coded.cons _ _ ['d', 'e', '0', '0'] _ rfl rfl .nil
  have hpair : Coded [0xD83D, 0xDE00] "\\uD83D\\ude00".toList :=
    @Coded.cons _ _ ['D', '8', '3', 'D'] _ rfl rfl hlow
  exact ⟨(parse_codes (.inr rfl) hpair).1 ['😀'] (by decide),
    (parse_codes (.inl rfl) hlow).2.1 (by decide)⟩

theorem unpaired_accepted :
    parse "\"\\uD800\\u0041\"" = .ok (.string "𐁁") ∧ ¬ ∃ cs, Utf16 [0xD800, 0x0041] cs := by
  refine ⟨rfl, ?_⟩
  rintro ⟨_, (_ | ⟨hc, _⟩ | ⟨_, hv, _, _⟩)⟩
  · rename_i c _ _
    have hvalid : c.toNat.isValidChar := c.valid
    rw [← hc] at hvalid
    exact absurd hvalid (by decide)
  · exact absurd hv (by decide)

end Json

end ClassScript
