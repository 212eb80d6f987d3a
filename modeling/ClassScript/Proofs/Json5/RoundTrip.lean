import ClassScript.Proofs.Json5.Reading
import ClassScript.Proofs.Request

/-!
# Writing and Reading Back

A value built from null, truth values, integers, texts, lists and dicts whose keys are texts has a
written form, and reading it gives a value of the same structure. A container is never refused here,
because it shows a document that is nested deeper than everything inside it.
-/

namespace ClassScript

open List

open Json

variable {f : Form} {texts : List String} {L : Level} {h h' : Heap}

inductive Contents where
  | value (v : Value)
  | items (vs : List Value)
  | entries (es : List (Value × Value))

/-- The structure of a value in a heap. Lists and dicts are of the built-in classes, and a
    dict has each of its keys once. -/
inductive Heap.Shows (h : Heap) : Contents → Form → Prop
  | null : Shows h (.value .null) (.value .null)
  | bool (b : Bool) : Shows h (.value (.bool b)) (.value (.bool b))
  | int (n : Int64) : Shows h (.value (.int n)) (.value (.int n))
  | str (s : String) : Shows h (.value (.str s)) (.value (.string s))
  | list {id : ObjectId} {items : Array Value} {js : List Json}
      (ho : h.objectAt id = ⟨ClassId.list, .list items⟩)
      (hi : Shows h (.items items.toList) (.items js)) :
      Shows h (.value (.object id)) (.value (.array js))
  | dict {id : ObjectId} {entries : Entries} {es : List (String × Json)}
      (ho : h.objectAt id = ⟨ClassId.dict, .dict entries⟩) (hkeys : entries.keys.Nodup)
      (he : Shows h (.entries entries.entries) (.entries es)) :
      Shows h (.value (.object id)) (.value (.object es))
  | noItems : Shows h (.items []) (.items [])
  | item {v : Value} {j : Json} {vs : List Value} {js : List Json}
      (hv : Shows h (.value v) (.value j)) (hrest : Shows h (.items vs) (.items js)) :
      Shows h (.items (v :: vs)) (.items (j :: js))
  | noEntries : Shows h (.entries []) (.entries [])
  | entry {k : String} {v : Value} {j : Json} {es : List (Value × Value)}
      {js : List (String × Json)} (hv : Shows h (.value v) (.value j))
      (hrest : Shows h (.entries es) (.entries js)) :
      Shows h (.entries ((.str k, v) :: es)) (.entries ((k, j) :: js))

def Json.Form.depth : Form → Nat
  | .value j => j.depth
  | .items js => depthOfItems js
  | .entries es => depthOfEntries es

namespace Heap.Shows

variable {h : Heap}

variable {c : Contents}

theorem functional {f' : Form} (hf : h.Shows c f) (hf' : h.Shows c f') : f = f' := by
  induction hf generalizing f' with
  | null | bool | int | str | noItems | noEntries => cases hf'; rfl
  | list ho _ ih =>
    cases hf' with
    | list ho' hi' => grind
    | dict ho' _ _ => cases ho.symm.trans ho'
  | dict ho _ _ ih =>
    cases hf' with
    | list ho' _ => cases ho.symm.trans ho'
    | dict => grind
  | item =>
    cases hf' with
    | item => grind
  | entry =>
    cases hf' with
    | entry => grind

theorem keys {es : List (Value × Value)} {js : List (String × Json)}
    (he : h.Shows (.entries es) (.entries js)) :
    es.map (·.1) = js.map fun e => Value.str e.1 := by
  induction js generalizing es with
  | nil => cases he; rfl
  | cons e js ih =>
    cases he with
    | entry _ hrest => rw [map_cons, map_cons, ih hrest]

end Heap.Shows

namespace Json

variable {j : Json} {text : String}

theorem Written.escapeChar (c : Char) {text meaning : List Char} (h : Written '"' text meaning) :
    Written '"' (escapeChar c ++ text) (c :: meaning) := by
  unfold Json.escapeChar
  by_cases hquote : c = '"'
  · rw [hquote]
    exact .mark (by decide) h
  rw [if_neg hquote]
  by_cases hback : c = '\\'
  · rw [hback]
    exact .mark (by decide) h
  rw [if_neg hback]
  by_cases hline : c = '\n'
  · rw [hline]
    exact .letter (by decide) h
  rw [if_neg hline]
  by_cases hreturn : c = '\r'
  · rw [hreturn]
    exact .letter (by decide) h
  rw [if_neg hreturn]
  by_cases htab : c = '\t'
  · rw [htab]
    exact .letter (by decide) h
  rw [if_neg htab]
  split
  · next hcontrol =>
    have hall : ∀ n < 0x20,
        Digits.hex? ['0', '0', Nat.digitChar (n / 16), Nat.digitChar (n % 16)] = some n := by
      decide
    exact .code rfl (hall _ hcontrol) h
  · exact .raw hquote hback hline hreturn h

theorem quote_quoted (s : String) : Quoted s (quote s).toList := by
  have hwritten (cs : List Char) : Written '"' (cs.flatMap escapeChar) cs := by
    induction cs with
    | nil => exact .nil
    | cons c cs ih => exact ih.escapeChar c
  unfold quote
  rw [String.toList_ofList]
  exact .mk (.inl rfl) (hwritten s.toList)

/-- The signs in front of the digits of a number. -/
inductive Signed (n : Int) : List Char → Prop
  | plain (hn : 0 ≤ n) : Signed n []
  | plus (hn : 0 ≤ n) : Signed n ['+']
  | minus (hn : n < 0) : Signed n ['-']

theorem Signed.numeral {n : Int} {mark : List Char} (h : Signed n mark) :
    Numeral n (mark ++ Nat.toDigits 10 n.natAbs) := by
  have hdigits : ∀ c ∈ Nat.toDigits 10 n.natAbs, c.isDigit = true :=
    fun c hc => Nat.isDigit_of_mem_toDigits (by decide) (by decide) hc
  have hvalue : digitsValue (Nat.toDigits 10 n.natAbs) = n.natAbs :=
    Nat.ofDigitChars_toDigits (by decide) (by decide)
  cases h with
  | plain hn =>
    have hplain := Numeral.plain Nat.toDigits_ne_nil hdigits
    rwa [hvalue, Int.natAbs_of_nonneg hn] at hplain
  | plus hn =>
    have hplus := Numeral.plus Nat.toDigits_ne_nil hdigits
    rwa [hvalue, Int.natAbs_of_nonneg hn] at hplus
  | minus hn =>
    have hminus := Numeral.minus Nat.toDigits_ne_nil hdigits
    rwa [hvalue, Int.ofNat_natAbs_of_nonpos hn.le, neg_neg] at hminus

theorem text_numeral (n : Int64) : Numeral n.toInt (Word.text n).toList := by
  unfold Word.text Digits.intText
  rw [String.toList_ofList]
  cases n.toInt with
  | ofNat k => exact (Signed.plain (Int.natCast_nonneg k)).numeral
  | negSucc k => exact (Signed.minus (Int.negSucc_lt_zero k)).numeral

theorem Spells.joined_item {js : List Json}
    (hj : Spells (.value j) text.toList) (hlength : texts.length = js.length)
    (hjs : Spells (.items js) ((joinWith "," texts).toList ++ [']'])) :
    Spells (.items (j :: js)) ((joinWith "," (text :: texts)).toList ++ [']']) := by
  unfold joinWith at hjs ⊢
  rw [String.toList_intercalate] at hjs ⊢
  cases texts with
  | nil =>
    cases js with
    | nil =>
      have hlast := Spells.lastItem .none hj .none
      simpa using hlast
    | cons _ _ => cases hlength
  | cons next texts =>
    have hitem := Spells.item .none hj .none hjs
    rw [map_cons, map_cons, intercalate_cons_cons, ← map_cons]
    simpa using hitem

theorem Spells.joined_entry {k : String} {es : List (String × Json)}
    (hj : Spells (.value j) text.toList) (hlength : texts.length = es.length)
    (hes : Spells (.entries es) ((joinWith "," texts).toList ++ ['\x7d'])) :
    Spells (.entries ((k, j) :: es))
      ((joinWith "," ((quote k ++ ":" ++ text) :: texts)).toList ++ ['\x7d']) := by
  have hk : KeyText k (quote k).toList := .quoted (quote_quoted k)
  unfold joinWith at hes ⊢
  cases texts with
  | nil =>
    cases es with
    | nil =>
      have hlast := Spells.lastEntry .none hk .none .none hj .none
      simpa using hlast
    | cons _ _ => cases hlength
  | cons =>
    have hentry := Spells.entry .none hk .none .none hj .none hes
    simpa using hentry

end Json

variable {id : ObjectId} {outer : List ObjectId} {m : Machine}

theorem level_serialize (n : Nat) (outer : List ObjectId) (v : Value) (m : Machine) :
    (level (n + 1)).serialize outer v m = Writing.write (level n) outer v m := by
  change enter (fun _ => false) n (Writing.write (level n) outer v) m = _
  rw [enter_apply, if_neg Bool.false_ne_true]

def Writing.entry (L : Level) (outer : List ObjectId) (e : String × Value) : Eval String := do
  return Json.quote e.1 ++ ":" ++ (← L.serialize outer e.2)

def Contents.Writes (n : Nat) (outer : List ObjectId) (m : Machine) : Contents → Form → Prop
  | .value v, .value j => j.depth ≤ n →
      ∃ text, Writing.write (level n) outer v m = .done text m ∧ Json.Spells (.value j) text.toList
  | .items vs, .items js => depthOfItems js < n →
      ∃ texts, texts.length = js.length ∧
        (∀ found, Eval.mapOnto ((level n).serialize outer) vs found m =
          .done (found.reverse ++ texts) m) ∧
        Json.Spells (.items js) ((joinWith "," texts).toList ++ [']'])
  | .entries es, .entries js => depthOfEntries js < n →
      ∃ named texts, texts.length = js.length ∧ Writing.textEntries es m = .done named m ∧
        (∀ found, Eval.mapOnto (Writing.entry (level n) outer) named found m =
          .done (found.reverse ++ texts) m) ∧
        Json.Spells (.entries js) ((joinWith "," texts).toList ++ ['\x7d'])
  | _, _ => True

theorem Writing.container_apply (hid : id ∉ outer) (x : List ObjectId → Eval String) (m : Machine) :
    Writing.container id outer x m = x (id :: outer) m := by
  unfold Writing.container
  rw [if_neg (by simpa using hid)]

theorem Writing.writeObject_list
    {items : Array Value} (hp : m.heap.payloadOf id = .list items) (hid : id ∉ outer)
    (h : Eval.mapList (L.serialize (id :: outer)) items.toList m = .done texts m) :
    Writing.writeObject L outer id m = .done (arrayText texts) m := by
  unfold Writing.writeObject
  rw [Eval.bind_apply]
  dsimp only [Eval.ask]
  rw [hp]
  dsimp only
  rw [Writing.container_apply hid, Eval.bind_apply, h]
  rfl

theorem Writing.writeObject_dict
    {entries : Entries} (hp : m.heap.payloadOf id = .dict entries) (hid : id ∉ outer)
    {named : List (String × Value)} (hnamed : Writing.textEntries entries.entries m = .done named m)
    (h : Eval.mapList (Writing.entry L (id :: outer)) named m = .done texts m) :
    Writing.writeObject L outer id m = .done (objectText texts) m := by
  unfold Writing.writeObject
  rw [Eval.bind_apply]
  dsimp only [Eval.ask]
  rw [hp]
  dsimp only
  rw [Writing.container_apply hid, Eval.bind_apply, hnamed]
  change (Eval.mapList (Writing.entry L (id :: outer)) named >>= _) m = _
  rw [Eval.bind_apply, h]
  rfl

theorem Eval.mapOnto_cons {α β : Type} {f : α → Eval β} {a : α} {b : β}
    (h : f a m = .done b m) (rest : List α) (found : List β) :
    Eval.mapOnto f (a :: rest) found m = Eval.mapOnto f rest (b :: found) m := by
  rw [Eval.mapOnto, h]

def Heap.Encloses (h : Heap) (outer : List ObjectId) (depth : Nat) : Prop :=
  ∀ o ∈ outer, ∃ j, h.Shows (.value (.object o)) (.value j) ∧ depth < j.depth

section Encloses

variable {h : Heap} {outer : List ObjectId} {depth : Nat}

theorem Heap.Encloses.mono {depth' : Nat} (he : h.Encloses outer depth)
    (hle : depth' ≤ depth) : h.Encloses outer depth' := by
  intro o ho
  rcases he o ho with ⟨j, hj, hlt⟩
  exact ⟨j, hj, by omega⟩

section

variable {id : ObjectId} {j : Json} (he : h.Encloses outer j.depth)
  (hj : h.Shows (.value (.object id)) (.value j))
include he hj

theorem Heap.Encloses.not_mem : id ∉ outer := by
  intro hid
  rcases he id hid with ⟨j', hj', hlt⟩
  cases hj.functional hj'
  omega

theorem Heap.Encloses.cons (hlt : depth < j.depth) : h.Encloses (id :: outer) depth := by
  intro o ho
  rcases mem_cons.mp ho with rfl | ho
  · exact ⟨j, hj, hlt⟩
  · exact he.mono (Nat.le_of_lt hlt) o ho

end

end Encloses

theorem Heap.Shows.writes (h : m.heap.Shows c f) :
    ∀ n outer, m.heap.Encloses outer f.depth → c.Writes n outer m f := by
  induction h with
  | null => exact fun n outer _ _ => ⟨"null", rfl, .null⟩
  | bool b =>
    intro n outer _ _
    cases b with
    | false => exact ⟨"false", rfl, .no⟩
    | true => exact ⟨"true", rfl, .yes⟩
  | int k => exact fun n outer _ _ => ⟨Word.text k, rfl, .int (text_numeral k)⟩
  | str s => exact fun n outer _ _ => ⟨quote s, rfl, .string (quote_quoted s)⟩
  | @list id items js ho hi ih =>
    intro n outer hout hn
    have hshows : m.heap.Shows (.value (.object id)) (.value (.array js)) := .list ho hi
    have hlt : depthOfItems js < (Json.array js).depth := by rw [depth]; omega
    rcases ih n (id :: outer) (hout.cons hshows hlt) (by omega) with ⟨texts, _, hmap, hspells⟩
    have hpayload : m.heap.payloadOf id = .list items := by
      unfold Heap.payloadOf
      rw [ho]
    refine ⟨arrayText texts, Writing.writeObject_list hpayload (hout.not_mem hshows) (hmap []), ?_⟩
    have harray := Json.Spells.array hspells
    unfold arrayText
    simp_all
  | @dict id entries es ho hkeys he ih =>
    intro n outer hout hn
    have hshows : m.heap.Shows (.value (.object id)) (.value (.object es)) := .dict ho hkeys he
    have hlt : depthOfEntries es < (Json.object es).depth := by rw [depth]; omega
    rcases ih n (id :: outer) (hout.cons hshows hlt) (by omega)
      with ⟨named, texts, _, hnamed, hmap, hspells⟩
    have hpayload : m.heap.payloadOf id = .dict entries := by
      unfold Heap.payloadOf
      rw [ho]
    refine ⟨objectText texts,
      Writing.writeObject_dict hpayload (hout.not_mem hshows) hnamed (hmap []), ?_⟩
    have hobject := Json.Spells.object hspells
    unfold objectText
    simp_all
  | noItems =>
    intro n outer _ _
    refine ⟨[], rfl, ?_, .noItems .none⟩
    intro found
    rw [Eval.mapOnto, append_nil]
  | @item v j vs js _ _ ihv ihrest =>
    intro n outer hout hn
    simp only [Form.depth, depthOfItems] at hout hn
    -- An item is written one level below.
    cases n with
    | zero => omega
    | succ n =>
      rcases ihv n outer (hout.mono (by simp only [Form.depth]; omega)) (by omega)
        with ⟨text, hwrite, htext⟩
      rcases ihrest (n + 1) outer (hout.mono (by simp only [Form.depth]; omega)) (by omega)
        with ⟨texts, hlength, hmap, hspells⟩
      refine ⟨text :: texts, by rw [length_cons, length_cons, hlength], ?_,
        htext.joined_item hlength hspells⟩
      intro found
      rw [← level_serialize] at hwrite
      rw [Eval.mapOnto_cons hwrite, hmap, reverse_cons, append_assoc]
      rfl
  | noEntries =>
    intro n outer _ _
    refine ⟨[], [], rfl, rfl, ?_, .noEntries .none⟩
    intro found
    rw [Eval.mapOnto, append_nil]
  | @entry k v j es js _ _ ihv ihrest =>
    intro n outer hout hn
    simp only [Form.depth, depthOfEntries] at hout hn
    cases n with
    | zero => omega
    | succ n =>
      rcases ihv n outer (hout.mono (by simp only [Form.depth]; omega)) (by omega)
        with ⟨text, hwrite, htext⟩
      rcases ihrest (n + 1) outer (hout.mono (by simp only [Form.depth]; omega)) (by omega)
        with ⟨named, texts, hlength, hnamed, hmap, hspells⟩
      refine ⟨(k, v) :: named, (quote k ++ ":" ++ text) :: texts,
        by rw [length_cons, length_cons, hlength], ?_, ?_,
        htext.joined_entry hlength hspells⟩
      · rw [Writing.textEntries, Eval.bind_apply, hnamed]
        rfl
      · intro found
        have hentry : Writing.entry (level (n + 1)) outer (k, v) m =
            .done (quote k ++ ":" ++ text) m := by
          unfold Writing.entry
          rw [Eval.bind_apply, level_serialize, hwrite]
          rfl
        rw [Eval.mapOnto_cons hentry, hmap, reverse_cons, append_assoc]
        rfl

def Heap.Keeps (h h' : Heap) : Prop :=
  ∀ id, id < h.objects.size → id < h'.objects.size ∧ h'.objectAt id = h.objectAt id

theorem Heap.Keeps.refl (h : Heap) : h.Keeps h := fun _ hid => ⟨hid, rfl⟩

theorem Heap.Keeps.trans {h'' : Heap} (hk : h.Keeps h') (hk' : h'.Keeps h'') : h.Keeps h'' := by
  intro id hid
  rcases hk id hid with ⟨hid', heq⟩
  rcases hk' id hid' with ⟨hid'', heq'⟩
  exact ⟨hid'', heq'.trans heq⟩

theorem Heap.newObject_keeps (h : Heap) (type : ClassId) (payload : Payload) :
    h.Keeps (h.newObject type payload).2 := by
  intro id hid
  refine ⟨?_, getD_push_of_lt hid _ _⟩
  change id < (h.objects.push _).size
  rw [Array.size_push]
  omega

theorem Heap.newObject_objectAt (h : Heap) (type : ClassId) (payload : Payload) :
    (h.newObject type payload).2.objectAt (h.newObject type payload).1 = ⟨type, payload⟩ :=
  getD_push_size _ _ _

theorem Heap.Shows.keeps (hk : h.Keeps h') (hs : h.Shows c f) : h'.Shows c f := by
  have hexists {id : ObjectId} {o : Object} (ho : h.objectAt id = o) (hne : 0 < o.type) :
      h'.objectAt id = o := by
    by_cases hid : id < h.objects.size
    · rw [(hk id hid).2, ho]
    · have hnone : h.objectAt id = default := getD_of_size_le (Nat.le_of_not_lt hid) _
      rw [← ho, hnone] at hne
      exact absurd hne (by decide)
  induction hs with
  | null => exact .null
  | bool b => exact .bool b
  | int n => exact .int n
  | str s => exact .str s
  | list ho _ ih => exact .list (hexists ho (Nat.succ_pos _)) ih
  | dict ho hkeys _ ih => exact .dict (hexists ho (Nat.succ_pos _)) hkeys ih
  | noItems => exact .noItems
  | item _ _ ihv ihrest => exact .item ihv ihrest
  | noEntries => exact .noEntries
  | entry _ _ ihv ihrest => exact .entry ihv ihrest

namespace OrderedMap

variable {κ α : Type} [DecidableEq κ] {entries : List (κ × α)}

theorem insertIn_of_not_mem {k : κ} (hk : k ∉ entries.map (·.1)) (a : α) :
    insertIn k a entries = entries ++ [(k, a)] := by
  induction entries with
  | nil => rfl
  | cons e entries ih =>
    rw [map_cons, mem_cons, not_or] at hk
    rw [insertIn, if_neg (Ne.symm hk.1), ih hk.2]
    rfl

theorem ofList_of_nodup (h : (entries.map (·.1)).Nodup) : ofList entries = ⟨entries, h⟩ := by
  -- What is inserted comes behind what has been inserted.
  have hfold (m : OrderedMap κ α) (hall : ((m.entries ++ entries).map (·.1)).Nodup) :
      (entries.foldl (fun m e => m.insert e.1 e.2) m).entries = m.entries ++ entries := by
    induction entries generalizing m with
    | nil => rw [foldl_nil, append_nil]
    | cons e entries ih =>
      have hnew : e.1 ∉ m.entries.map (·.1) := by
        rw [map_append, nodup_append] at hall
        grind
      have hentries : (m.insert e.1 e.2).entries ++ entries = m.entries ++ e :: entries := by
        change insertIn e.1 e.2 m.entries ++ entries = _
        rw [insertIn_of_not_mem hnew, append_assoc]
        rfl
      rw [foldl_cons, ih (nodup_cons.mp h).2 _ (hentries ▸ hall), hentries]
  exact OrderedMap.ext (hfold empty h)

end OrderedMap

def Json.Form.Builds (m : Machine) : Form → Prop
  | .value j => ∃ v m', Filling.build j m = .done v m' ∧ m.heap.Keeps m'.heap ∧
      m'.heap.Shows (.value v) (.value j)
  | .items js => ∃ vs m', Filling.buildItems js m = .done vs m' ∧ m.heap.Keeps m'.heap ∧
      m'.heap.Shows (.items vs) (.items js)
  | .entries es => ∃ es' m', Filling.buildEntries es m = .done es' m' ∧ m.heap.Keeps m'.heap ∧
      m'.heap.Shows (.entries es') (.entries es)

theorem Heap.Shows.builds (hs : h.Shows c f) : ∀ m, f.Builds m := by
  induction hs with
  | null => exact fun m => ⟨.null, m, by rw [Filling.build]; rfl, .refl _, .null⟩
  | bool b => exact fun m => ⟨.bool b, m, by rw [Filling.build]; rfl, .refl _, .bool b⟩
  | int n => exact fun m => ⟨.int n, m, by rw [Filling.build]; rfl, .refl _, .int n⟩
  | str s => exact fun m => ⟨.str s, m, by rw [Filling.build]; rfl, .refl _, .str s⟩
  | @list id items js _ _ ih =>
    intro m
    rcases ih m with ⟨vs, m₁, hbuild, hkeeps, hshows⟩
    have hnew := m₁.heap.newObject_keeps ClassId.list (.list vs.toArray)
    refine ⟨_, { m₁ with heap := (m₁.heap.newObject ClassId.list (.list vs.toArray)).2 }, ?_,
      hkeeps.trans hnew, .list (m₁.heap.newObject_objectAt _ _) ?_⟩
    · rw [Filling.build, Eval.bind_apply, hbuild]
      rfl
    · exact hshows.keeps hnew
  | @dict id entries es _ hkeys he ih =>
    intro m
    rcases ih m with ⟨es', m₁, hbuild, hkeeps, hshows⟩
    have hnodup : (es'.map (·.1)).Nodup := by
      rw [hshows.keys, ← he.keys]
      exact hkeys
    have hnew := m₁.heap.newObject_keeps ClassId.dict (.dict ⟨es', hnodup⟩)
    refine ⟨_, { m₁ with heap := (m₁.heap.newObject ClassId.dict (.dict ⟨es', hnodup⟩)).2 }, ?_,
      hkeeps.trans hnew, .dict (m₁.heap.newObject_objectAt _ _) hnodup ?_⟩
    · rw [Filling.build, Eval.bind_apply, hbuild]
      dsimp only
      rw [OrderedMap.ofList_of_nodup hnodup]
      rfl
    · exact hshows.keeps hnew
  | noItems => exact fun m => ⟨[], m, by rw [Filling.buildItems]; rfl, .refl _, .noItems⟩
  | item _ _ ihv ihrest =>
    intro m
    rcases ihv m with ⟨v, m₁, hbuild, hkeeps, hshows⟩
    rcases ihrest m₁ with ⟨vs, m₂, hbuild', hkeeps', hshows'⟩
    refine ⟨v :: vs, m₂, ?_, hkeeps.trans hkeeps', .item (hshows.keeps hkeeps') hshows'⟩
    rw [Filling.buildItems, Eval.bind_apply, hbuild]
    dsimp only
    rw [Eval.bind_apply, hbuild']
    rfl
  | noEntries => exact fun m => ⟨[], m, by rw [Filling.buildEntries]; rfl, .refl _, .noEntries⟩
  | @entry k _ _ _ _ _ _ ihv ihrest =>
    intro m
    rcases ihv m with ⟨v, m₁, hbuild, hkeeps, hshows⟩
    rcases ihrest m₁ with ⟨es, m₂, hbuild', hkeeps', hshows'⟩
    refine ⟨(.str k, v) :: es, m₂, ?_, hkeeps.trans hkeeps',
      .entry (hshows.keeps hkeeps') hshows'⟩
    rw [Filling.buildEntries, Eval.bind_apply, hbuild]
    dsimp only
    rw [Eval.bind_apply, hbuild']
    rfl

namespace Library

/-- What is written for a value is read as a value that shows the same document. -/
theorem json_roundTrip {m : Machine} {v : Value} {j : Json}
    (h : m.heap.Shows (.value v) (.value j)) (hdepth : j.depth ≤ JsonProblem.maxNesting) {n : Nat}
    (hn : j.depth < n) (receiver : Option Value) :
    ∃ text v' m',
      json (level n) .serialize ⟨receiver, [v]⟩ m = .done (.str text) m ∧
      json (level n) .parse ⟨receiver, [.str text]⟩ m = .done v' m' ∧
      m'.heap.Shows (.value v') (.value j) ∧ m'.heap.Shows (.value v) (.value j) := by
  cases n with
  | zero => omega
  | succ n =>
    have hout : m.heap.Encloses [] j.depth := fun o ho => absurd ho not_mem_nil
    rcases h.writes n [] hout (Nat.le_of_lt_succ hn) with ⟨text, hwrite, hspells⟩
    have hspelling : Spelling j text := by
      refine .mk .none hspells (.trivia .none) ?_
      rw [append_nil, nil_append]
    rcases h.builds m with ⟨v', m', hbuild, hkeeps, hshows⟩
    refine ⟨text, v', m', ?_, ?_, hshows, h.keeps hkeeps⟩
    · have hserialize : (level (n + 1)).serialize [] v m = .done text m := by
        rw [level_serialize, hwrite]
      change ((level (n + 1)).serialize [] v >>= fun s => (pure (.str s) : Eval Value)) m = _
      rw [Eval.bind_apply, hserialize]
      rfl
    · change (Eval.ofExcept (parse text) >>= Filling.build) m = _
      rw [parse_of_fits hspelling hdepth]
      exact hbuild

def sampleMachine : Machine :=
  let entries : Entries := .ofList [(.str "b\n", .int Int64.minValue), (.str "a", .str "\"\\\x01é")]
  let objects : Array Object :=
    #[⟨ClassId.list, .list #[.object 1, .null, .object 1, .object 2]⟩,
      ⟨ClassId.dict, .dict entries⟩, ⟨ClassId.list, .list #[]⟩]
  { (default : Machine) with heap := { Heap.empty with objects := objects } }

def sampleStructure : Json :=
  let entries := Json.object [("b\n", .int Int64.minValue), ("a", .string "\"\\\x01é")]
  .array [entries, .null, entries, .array []]

theorem sampleMachine_shows :
    sampleMachine.heap.Shows (.value (.object 0)) (.value sampleStructure) := by
  have hdict : sampleMachine.heap.Shows (.value (.object 1))
      (.value (.object [("b\n", .int Int64.minValue), ("a", .string "\"\\\x01é")])) :=
    .dict rfl (by decide) (.entry (.int _) (.entry (.str _) .noEntries))
  exact .list rfl (.item hdict (.item .null (.item hdict (.item (.list rfl .noItems) .noItems))))

theorem json_roundTrip_sample :
    ∃ text v m',
      json topLevel .serialize ⟨none, [.object 0]⟩ sampleMachine = .done (.str text) sampleMachine ∧
      json topLevel .parse ⟨none, [.str text]⟩ sampleMachine = .done v m' ∧
      m'.heap.Shows (.value v) (.value sampleStructure) ∧
      m'.heap.Shows (.value (.object 0)) (.value sampleStructure) :=
  json_roundTrip sampleMachine_shows (by decide) (by decide) none

end Library

end ClassScript
