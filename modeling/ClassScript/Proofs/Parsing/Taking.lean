import ClassScript.Proofs.Parsing.Agreement

/-!
# What a Reader Has Taken

The description of a reader is a relation between the tokens that it took and its result.
Productions make spans from tokens they have peeked at, tokens they have read, and the token that
was read last, by whomever. For the third, a description begins behind some tokens and is about them
and the new ones together.
-/

namespace ClassScript

open List

namespace Cursor

variable {c c' : Cursor} {ts before : List Token}

def Behind (c : Cursor) (before : List Token) : Prop :=
  c.last = before.getLastD c.last

theorem Behind.took (hc : c.Behind before) (h : c.Took ts c') : c'.Behind (before ++ ts) := by
  rw [Behind, h.last]
  cases ts using reverseRecOn with
  | nil => simpa [Behind] using hc
  | append_singleton => simp

end Cursor

namespace Parse

variable {α β : Type} {before : List Token} {p : Cursor → Prop} {x : Parse α} {f : α → Parse β}
  {R : List Token → α → Prop} {T : List Token → β → Prop}

variable {S : List Token → α → Prop} {y : Parse α} {a : α} {k : TokenKind}

/-- From a cursor behind some tokens a reader takes more of them, and its result is in a
    relation to all. -/
def Leads (before : List Token) (p : Cursor → Prop) (x : Parse α)
    (R : List Token → α → Prop) : Prop :=
  ∀ c a c', c.Ends → c.Behind before → p c → x c = .ok (a, c') →
    ∃ ts, c.Took ts c' ∧ R (before ++ ts) a

def Gives (x : Parse α) (R : List Token → α → Prop) : Prop :=
  ∀ c a c', c.Ends → x c = .ok (a, c') → ∃ ts, c.Took ts c' ∧ R ts a

theorem Leads.gives (h : Leads [] (fun _ => True) x R) : Gives x R :=
  fun c a c' hc hx => h c a c' hc rfl trivial hx

theorem Gives.mono (h : Gives x R) (hRS : ∀ ts a, R ts a → S ts a) : Gives x S := by
  intro c a c' hc hx
  obtain ⟨ts, htook, ha⟩ := h c a c' hc hx
  exact ⟨ts, htook, hRS ts a ha⟩

theorem AgreeFrom.gives {γ : Type} {moves P : α → Prop} {v : α → γ}
    (h : AgreeTo True 0 0 0 moves P v x y) : Gives x fun _ _ => True := by
  intro c a c' hc hx
  obtain ⟨⟨ts, htook, _⟩, _⟩ := h.gets c a c' hc trivial hx
  exact ⟨ts, htook, trivial⟩

theorem ok_of_bind {c : Cursor} {r : β × Cursor} (h : (x >>= f) c = .ok r) :
    ∃ a c₁, x c = .ok (a, c₁) ∧ f a c₁ = .ok r := by
  rw [bind_apply] at h
  grind

namespace Leads

variable {t : Token}

theorem pure (h : R before a) : Leads before p (pure a) R := by
  intro c _ _ _ _ _ hx
  cases hx
  exact ⟨[], .refl c, by rwa [append_nil]⟩

theorem fail (problem : SyntaxProblem) (span : Span) : Leads before p (fail problem span) R := by
  intro c a c' _ _ _ hx
  cases hx

theorem throw (e : SyntaxError) : Leads before p (throw e : Parse α) R := by
  intro c a c' _ _ _ hx
  cases hx

theorem fail_bind {problem : SyntaxProblem} {span : Span} :
    Leads before p (Parse.fail problem span >>= f) T := by
  intro c a c' _ _ _ hx
  cases hx

theorem ite {b : Prop} [Decidable b] (hx : b → Leads before p x R)
    (hy : ¬ b → Leads before p y R) : Leads before p (if b then x else y) R := by
  split
  · next hb => exact hx hb
  · next hb => exact hy hb

theorem mono (h : Leads before p x R) (hRS : ∀ ts a, R ts a → S ts a) : Leads before p x S := by
  intro c a c' hc hbehind hp hx
  obtain ⟨ts, htook, ha⟩ := h c a c' hc hbehind hp hx
  exact ⟨ts, htook, hRS _ a ha⟩

theorem weaken {q : Cursor → Prop} (h : Leads before p x R) (hpq : ∀ c, q c → p c) :
    Leads before q x R :=
  fun c a c' hc hbehind hq hx => h c a c' hc hbehind (hpq c hq) hx

theorem bind (hx : Leads before p x R)
    (hf : ∀ ts a, R ts a → Leads ts (fun _ => True) (f a) T) : Leads before p (x >>= f) T := by
  intro c b c' hc hbehind hp hrun
  obtain ⟨a, c₁, hx₁, hrun⟩ := ok_of_bind hrun
  obtain ⟨ts, htook, ha⟩ := hx c a c₁ hc hbehind hp hx₁
  obtain ⟨us, htook', hb⟩ := hf _ a ha c₁ b c' (htook.ends hc) (hbehind.took htook) trivial hrun
  exact ⟨ts ++ us, htook.trans htook', by rwa [← append_assoc]⟩

theorem of_gives (h : Gives x R) :
    Leads before p x fun ts a => ∃ us, ts = before ++ us ∧ R us a := by
  intro c a c' hc _ _ hx
  obtain ⟨us, htook, ha⟩ := h c a c' hc hx
  exact ⟨us, htook, us, rfl, ha⟩

theorem exact (h : Gives x R) : Leads [] p x R := fun c a c' hc _ _ hx => h c a c' hc hx

theorem gives_bind (hx : Gives x R)
    (hf : ∀ us a, R us a → Leads (before ++ us) (fun _ => True) (f a) T) :
    Leads before p (x >>= f) T := by
  refine bind (of_gives hx) ?_
  rintro _ a ⟨us, rfl, ha⟩
  exact hf us a ha

theorem look_bind {look : Parse α} {get : Cursor → α} (hlook : ∀ c, look c = .ok (get c, c))
    (hf : ∀ a, Leads before (fun c => p c ∧ get c = a) (f a) T) :
    Leads before p (look >>= f) T := by
  intro c b c' hc hbehind hp hrun
  rw [bind_apply, hlook] at hrun
  exact hf _ c b c' hc hbehind ⟨hp, rfl⟩ hrun

theorem peek_bind {f : Token → Parse β}
    (hf : ∀ t, Leads before (fun c => p c ∧ c.next = t) (f t) T) :
    Leads before p (peek >>= f) T :=
  look_bind (fun _ => rfl) hf

theorem check_bind {f : Bool → Parse β}
    (hyes : Leads before (fun c => p c ∧ c.next.kind = k) (f true) T)
    (hno : Leads before p (f false) T) : Leads before p (check k >>= f) T := by
  refine look_bind (fun _ => rfl) fun found => ?_
  cases found with
  | true => exact hyes.weaken fun c hc => ⟨hc.1, beq_iff_eq.mp hc.2⟩
  | false => exact hno.weaken fun c hc => hc.1

theorem checkSecond_bind {f : Bool → Parse β}
    (hf : ∀ found, Leads before p (f found) T) : Leads before p (checkSecond k >>= f) T :=
  look_bind (fun _ => rfl) fun found => (hf found).weaken fun _ hc => hc.1

theorem rounds_bind {f : Nat → Parse β} (hf : ∀ n, Leads before p (f n) T) :
    Leads before p (rounds >>= f) T :=
  look_bind (fun _ => rfl) fun n => (hf n).weaken fun _ hc => hc.1

theorem last_bind {f : Token → Parse β} (ht : before.getLast? = some t)
    (hf : Leads before p (f t) T) : Leads before p (last >>= f) T := by
  intro c b c' hc hbehind hp hrun
  have hlast : c.last = t := by
    rw [hbehind, getLastD_eq_getLast?, ht]
    rfl
  rw [← hlast] at hf
  exact hf c b c' hc hbehind hp hrun

theorem advance {R : List Token → Token → Prop}
    (hnext : ∀ c, p c → c.next.kind ≠ .eof ∧ R (before ++ [c.next]) c.next) :
    Leads before p advance R := by
  intro c a c' hc _ hp hx
  obtain ⟨hkind, hR⟩ := hnext c hp
  cases hx
  exact ⟨[c.next], hc.took hkind, by rwa [(hc.step hkind).1]⟩

theorem advance_bind {f : Token → Parse β} (hnext : ∀ c, p c → c.next = t)
    (ht : t.kind ≠ .eof) (hf : Leads (before ++ [t]) (fun _ => True) (f t) T) :
    Leads before p (Parse.advance >>= f) T := by
  refine bind (R := fun ts a => ts = before ++ [t] ∧ a = t)
    (advance fun c hp => ⟨hnext c hp ▸ ht, by rw [hnext c hp], hnext c hp⟩) ?_
  rintro _ _ ⟨rfl, rfl⟩
  exact hf

theorem advance_kind_bind {f : Token → Parse β} (hk : k ≠ .eof) (hnext : ∀ c, p c → c.next.kind = k)
    (hf : ∀ t, t.kind = k → Leads (before ++ [t]) (fun _ => True) (f t) T) :
    Leads before p (Parse.advance >>= f) T := by
  refine bind (R := fun ts a => ts = before ++ [a] ∧ a.kind = k)
    (advance fun c hp => ⟨hnext c hp ▸ hk, rfl, hnext c hp⟩) ?_
  rintro _ t ⟨rfl, ht⟩
  exact hf t ht

end Leads

theorem Leads.expect_bind {what : String} {f : Token → Parse β} (hk : k ≠ .eof)
    (hf : ∀ t, t.kind = k → Leads (before ++ [t]) (fun _ => True) (f t) T) :
    Leads before p (expect k what >>= f) T := by
  refine .bind (R := fun ts t => ts = before ++ [t] ∧ t.kind = k) ?_ ?_
  · exact .check_bind (.advance fun c hp => ⟨hp.2 ▸ hk, rfl, hp.2⟩) (.peek_bind fun t => .fail _ _)
  · rintro _ t ⟨rfl, ht⟩
    exact hf t ht

theorem Gives.first_bind {f : Token → Parse β}
    (hf : ∀ t, Gives (f t) fun ts b => ts ≠ [] ∧ (ts.head? = some t → T ts b)) :
    Gives (peek >>= f) T := by
  intro c b c' hc hrun
  obtain ⟨ts, htook, hne, hb⟩ := hf c.next c b c' hc hrun
  refine ⟨ts, htook, hb ?_⟩
  obtain ⟨t, ts, rfl⟩ := exists_cons_of_ne_nil hne
  rw [Cursor.next, htook.rest]
  rfl

theorem Gives.advance : Gives advance fun _ _ => True := by
  intro c a c' hc hx
  cases hx
  by_cases hnext : c.next.kind = .eof
  · rw [Cursor.step_of_eof hnext]
    exact ⟨[], .refl c, trivial⟩
  · exact ⟨[c.next], hc.took hnext, trivial⟩

theorem Gives.accept (hk : k ≠ .eof) : Gives (accept k) fun ts found =>
    (found = true ∧ ∃ t, ts = [t] ∧ t.kind = k) ∨ (found = false ∧ ts = []) := by
  intro c a c' hc hx
  unfold Parse.accept at hx
  by_cases hat : c.at? k = true
  · have hkind : c.next.kind = k := beq_iff_eq.mp hat
    rw [if_pos hat] at hx
    cases hx
    exact ⟨[c.next], hc.took (hkind ▸ hk), .inl ⟨rfl, c.next, rfl, hkind⟩⟩
  · rw [if_neg hat] at hx
    cases hx
    exact ⟨[], .refl c, .inr ⟨rfl, rfl⟩⟩

/-- What is true of items and the tokens they were read from, one behind the other. -/
structure Grows (S : List Token → α → Prop) (R : List Token → List α → Prop) : Prop where
  nil : R [] []
  push {ts us : List Token} {as : List α} {a : α} : R ts as → S us a → R (ts ++ us) (as ++ [a])
  skip {ts : List Token} {as : List α} (us : List Token) : R ts as → R (ts ++ us) as

section Loops

variable {S : List Token → α → Prop} {R : List Token → List α → Prop}

section

variable (hR : Grows S R)
variable {done : List α} {item : Parse α}

include hR

theorem Grows.cons {ts us : List Token} (hdone : R ts done.reverse)
    (ha : S us a) : R (ts ++ us) (a :: done).reverse := by
  rw [reverse_cons]
  exact hR.push hdone ha

theorem Leads.itemsLoop (close : TokenKind) (hitem : Gives item S) (n : Nat)
    (hdone : R before done.reverse) :
    Leads before p (itemsLoop close item n done) R := by
  induction n generalizing before done p with
  | zero => exact .peek_bind fun t => .fail _ _
  | succ n ih =>
    refine .check_bind (.check_bind (.pure hdone) (.pure hdone)) (.check_bind (.pure hdone) ?_)
    exact .gives_bind hitem fun us a ha => ih (hR.cons hdone ha)

theorem Gives.itemsUntil (close : TokenKind) (hitem : Gives item S) :
    Gives (itemsUntil close item) R :=
  Leads.gives (.rounds_bind fun n => .itemsLoop hR close hitem n hR.nil)

theorem Leads.comma (hdone : R before done.reverse) {more : Parse (List α)}
    (hmore : ∀ ts, R ts done.reverse → Leads ts (fun _ => True) more R) :
    Leads before p (do if ← Parse.accept .comma then more else return done.reverse) R := by
  refine .gives_bind (.accept (by decide)) fun us found _ => .ite (fun _ => ?_) fun _ => ?_
  · exact hmore _ (hR.skip us hdone)
  · exact .pure (hR.skip us hdone)

theorem Leads.separatedLoop {item : List α → Parse α} (hitem : ∀ done, Gives (item done) S)
    (n : Nat) (hdone : R before done.reverse) :
    Leads before p (separatedLoop item n done) R := by
  induction n generalizing before done p with
  | zero => exact .peek_bind fun t => .fail _ _
  | succ n ih =>
    exact .gives_bind (hitem done) fun us a ha => .comma hR (hR.cons hdone ha) fun _ => ih

theorem Gives.separated {item : List α → Parse α} (hitem : ∀ done, Gives (item done) S) :
    Gives (separated item) R :=
  Leads.gives (.rounds_bind fun n => .separatedLoop hR hitem n hR.nil)

theorem Leads.trailingLoop (close : TokenKind) (hitem : Gives item S) (n : Nat)
    (hdone : R before done.reverse) :
    Leads before p (trailingLoop close item n done) R := by
  induction n generalizing before done p with
  | zero => exact .peek_bind fun t => .fail _ _
  | succ n ih =>
    refine .check_bind (.check_bind (.pure hdone) (.pure hdone)) (.check_bind (.pure hdone) ?_)
    exact .gives_bind hitem fun us a ha => .comma hR (hR.cons hdone ha) fun _ => ih

theorem Gives.trailing (close : TokenKind) (hitem : Gives item S) : Gives (trailing close item) R :=
  Leads.gives (.rounds_bind fun n => .trailingLoop hR close hitem n hR.nil)

end

end Loops

theorem Leads.extending {step : α → Parse (Option α)}
    (hstep : ∀ ts a, R ts a →
      Leads ts (fun _ => True) (step a) fun us longer => R us (longer.getD a))
    (ha : R before a) : Leads before p (extending a step) R := by
  have hloop (n : Nat) {ts : List Token} {a : α} (ha : R ts a) :
      Leads ts (fun _ => True) (extendLoop step n a) R := by
    induction n generalizing ts a with
    | zero => exact .peek_bind fun t => .fail _ _
    | succ n ih =>
      refine .bind (hstep ts a ha) fun us longer hlonger => ?_
      cases longer with
      | none => exact .pure hlonger
      | some b => exact ih hlonger
  refine .bind ((hstep before a ha).weaken fun _ _ => trivial) fun us longer hlonger => ?_
  cases longer with
  | none => exact .pure hlonger
  | some b => exact .rounds_bind fun n => hloop n hlonger

end Parse

end ClassScript
