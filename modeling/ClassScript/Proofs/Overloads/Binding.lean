import ClassScript.Run.Calling
import ClassScript.Proofs.Computation
import Mathlib.Data.List.Forall2

/-!
# Which Parameter Gets Which Argument

A function takes arguments in three rounds: named ones, positional ones, and defaults. What comes
out of them is described place by place, as an equivalence, so it also says when a function takes
arguments at all.
-/

namespace ClassScript

open List Option

/-! ### One argument -/

/-- A number becomes one of a wider class. An integer becomes a decimal only if floats are
    not accepted. -/
inductive Value.WidensInto (classes : List ClassId) : Value → Value → Prop
  | intFloat (n : Int64) (hfloat : ClassId.float ∈ classes) :
      WidensInto classes (.int n) (.float (Binary64.ofInt n.toInt))
  | intDecimal (n : Int64) (hfloat : ClassId.float ∉ classes)
      (hdecimal : ClassId.decimal ∈ classes) :
      WidensInto classes (.int n) (.decimal (Decimal.ofInt n.toInt))
  | floatDecimal (x : Binary64) (d : Decimal) (hdecimal : ClassId.decimal ∈ classes)
      (hx : Decimal.ofBinary64? x = some d) : WidensInto classes (.float x) (.decimal d)

/-- What a parameter makes of an argument: the argument itself if it is accepted, and
    otherwise, where that is allowed, the argument widened. -/
inductive Heap.Takes (h : Heap) (widening : Bool) (p : Parameter) (v : Value) : Value → Prop
  | itself (hv : ∀ classes, p.accepted = some classes → h.typeOf v ∈ classes) :
      Takes h widening p v v
  | widened (classes : List ClassId) (w : Value) (hallowed : widening = true)
      (hclasses : p.accepted = some classes) (hv : h.typeOf v ∉ classes)
      (hw : v.WidensInto classes w) : Takes h widening p v w

namespace Heap

variable {h : Heap} {widening : Bool} {p : Parameter} {v w : Value} {classes : List ClassId}

theorem widen_iff : widen classes v = some w ↔ v.WidensInto classes w := by
  constructor
  · intro hw
    cases v with
    | int n =>
      simp only [widen, contains_iff_mem] at hw
      split at hw
      · cases hw
        exact .intFloat n ‹_›
      · split at hw
        · cases hw
          exact .intDecimal n ‹_› ‹_›
        · cases hw
    | float x =>
      simp only [widen, contains_iff_mem] at hw
      split at hw
      · obtain ⟨d, hd, rfl⟩ := Option.map_eq_some_iff.mp hw
        exact .floatDecimal x d ‹_› hd
      · cases hw
    | _ => cases hw
  · intro hw
    cases hw with
    | intFloat n hfloat => simp [widen, hfloat]
    | intDecimal n hfloat hdecimal => simp [widen, hfloat, hdecimal]
    | floatDecimal x d hdecimal hx => simp [widen, hdecimal, hx]

theorem fitsParameter_iff : h.fitsParameter widening p v = some w ↔ h.Takes widening p v w := by
  unfold fitsParameter
  cases haccepted : p.accepted with
  | none =>
    -- Any value is accepted, so none is widened.
    constructor
    · intro hw
      cases hw
      exact .itself (by simp [haccepted])
    · intro hw
      cases hw with
      | itself _ => rfl
      | widened classes _ _ hclasses _ _ => simp [haccepted] at hclasses
  | some classes =>
    simp only [contains_iff_mem]
    constructor
    · intro hw
      split at hw
      · cases hw
        refine .itself fun classes' hclasses => ?_
        simp_all
      · split at hw
        · exact .widened classes w ‹_› haccepted ‹_› (widen_iff.mp hw)
        · cases hw
    · intro hw
      cases hw with
      | itself hv => rw [if_pos (hv classes haccepted)]
      | widened classes' _ hallowed hclasses hv hwide =>
        rw [haccepted] at hclasses
        cases hclasses
        rw [if_neg hv, if_pos hallowed]
        exact widen_iff.mpr hwide

theorem Takes.accepted (ht : h.Takes widening p v w)
    (hclasses : p.accepted = some classes) : h.typeOf w ∈ classes := by
  cases ht with
  | itself hv => exact hv classes hclasses
  | widened classes' _ _ hclasses' _ hw =>
    rw [hclasses] at hclasses'
    cases hclasses'
    cases hw <;> assumption

theorem Takes.allowing (ht : h.Takes false p v w) : h.Takes true p v w := by
  cases ht with
  | itself hv => exact .itself hv
  | widened _ _ hallowed _ _ _ => cases hallowed

end Heap

/-! ### Named arguments -/

/-- Named arguments fill the slots of their parameters, and no others. -/
structure Heap.Fills (h : Heap) (widening : Bool) (params : List Parameter)
    (named : List (String × Value)) (slots slots' : List (Option Value)) : Prop where
  length : slots'.length = slots.length
  distinct : (named.map Prod.fst).Nodup
  placed : ∀ e ∈ named, ∃ i p w, params.findIdx? (·.name == e.1) = some i ∧ params[i]? = some p ∧
    slots[i]? = some none ∧ h.Takes widening p e.2 w ∧ slots'[i]? = some (some w)
  others : ∀ i, (∀ e ∈ named, params.findIdx? (·.name == e.1) ≠ some i) → slots'[i]? = slots[i]?

namespace Heap

variable {h : Heap} {widening : Bool}
variable {params : List Parameter} {slots : List (Option Value)} {slots' : List (Option Value)}
variable {arguments fixed left : List Value}

theorem placeNamed_iff {name : String} {v : Value} (hlength : slots.length = params.length) :
    h.placeNamed widening name v params slots = some slots' ↔
      ∃ i p w, params.findIdx? (·.name == name) = some i ∧ params[i]? = some p ∧
        slots[i]? = some none ∧ h.Takes widening p v w ∧ slots' = slots.set i (some w) := by
  induction params generalizing slots slots' with
  | nil => simp [placeNamed]
  | cons p ps ih =>
    cases slots with
    | nil => simp at hlength
    | cons slot slots =>
      simp only [placeNamed, findIdx?_cons]
      by_cases hname : p.name = name
      · -- The parameter in front has the name, and its slot has to be free.
        cases slot with
        | some x => simp [hname]
        | none =>
          simp only [hname, if_true, map_eq_some_iff, fitsParameter_iff]
          grind
      · rw [if_neg hname, if_neg (by simpa using hname)]
        simp only [map_eq_some_iff, ih (Nat.succ.inj hlength)]
        constructor
        · grind
        · rintro ⟨_, q, w, ⟨i, hi, rfl⟩, hq, hfree, hw, rfl⟩
          exact ⟨_, ⟨i, q, w, hi, hq, hfree, hw, rfl⟩, rfl⟩

theorem findIdx?_name_inj {x y : String} {i : Nat}
    (hx : params.findIdx? (·.name == x) = some i) (hy : params.findIdx? (·.name == y) = some i) :
    x = y := by
  obtain ⟨_, hx, _⟩ := findIdx?_eq_some_iff_getElem.mp hx
  obtain ⟨_, hy, _⟩ := findIdx?_eq_some_iff_getElem.mp hy
  simp_all

theorem placeAllNamed_iff {named : List (String × Value)} (hlength : slots.length = params.length) :
    h.placeAllNamed widening params named slots = some slots' ↔
      h.Fills widening params named slots slots' := by
  induction named generalizing slots with
  | nil =>
    constructor
    · intro hs
      cases hs
      exact ⟨rfl, by simp, by simp, fun _ _ => rfl⟩
    · intro hs
      exact congrArg some (ext_getElem? fun i => hs.others i (by simp)).symm
  | cons e named ih =>
    obtain ⟨name, v⟩ := e
    rw [placeAllNamed]
    constructor
    · intro hs
      cases hfirst : h.placeNamed widening name v params slots with
      | none => simp [hfirst] at hs
      | some slots₁ =>
        simp only [hfirst] at hs
        obtain ⟨i, p, w, hi, hp, hfree, hw, rfl⟩ := (placeNamed_iff hlength).mp hfirst
        have hlt : i < slots.length := (List.getElem?_eq_some_iff.mp hfree).1
        have hmore := (ih (by simpa using hlength)).mp hs
        -- The slot is taken now, so no later argument is for the same place.
        have hnew : ∀ e ∈ named, params.findIdx? (·.name == e.1) ≠ some i := by
          intro e he hei
          obtain ⟨j, _, _, hj, _, hjfree, _⟩ := hmore.placed e he
          simp_all
        refine ⟨by simpa using hmore.length, ?_, ?_, ?_⟩
        · refine nodup_cons.mpr ⟨fun hmem => ?_, hmore.distinct⟩
          obtain ⟨e, he, rfl⟩ := mem_map.mp hmem
          exact hnew e he hi
        · refine forall_mem_cons.mpr ⟨⟨i, p, w, hi, hp, hfree, hw, ?_⟩, fun e he => ?_⟩
          · rw [hmore.others i hnew]
            simp [hlt]
          · obtain ⟨j, q, x, hj, hq, hjfree, hx, hset⟩ := hmore.placed e he
            have hne : i ≠ j := fun hij => hnew e he (hij ▸ hj)
            rw [getElem?_set_ne hne] at hjfree
            exact ⟨j, q, x, hj, hq, hjfree, hx, hset⟩
        · intro j hj
          obtain ⟨hjfirst, hjrest⟩ := forall_mem_cons.mp hj
          rw [hmore.others j hjrest, getElem?_set_ne]
          rintro rfl
          exact hjfirst hi
    · intro hs
      obtain ⟨i, p, w, hi, hp, hfree, hw, hset⟩ := hs.placed (name, v) mem_cons_self
      obtain ⟨hfresh, hdistinct⟩ := nodup_cons.mp hs.distinct
      have hlt : i < slots.length := (List.getElem?_eq_some_iff.mp hfree).1
      rw [(placeNamed_iff hlength).mpr ⟨i, p, w, hi, hp, hfree, hw, rfl⟩]
      refine (ih (by simpa using hlength)).mpr ⟨by simpa using hs.length, hdistinct, ?_, ?_⟩
      · intro e he
        obtain ⟨j, q, x, hj, hq, hjfree, hx, hjset⟩ :=
          hs.placed e (mem_cons_of_mem (name, v) he)
        have hne : i ≠ j := by
          rintro rfl
          exact hfresh (mem_map.mpr ⟨e, he, (findIdx?_name_inj hi hj).symm⟩)
        exact ⟨j, q, x, hj, hq, (getElem?_set_ne hne).trans hjfree, hx, hjset⟩
      · intro j hj
        by_cases hij : i = j
        · simp_all
        · rw [getElem?_set_ne hij]
          refine hs.others j (forall_mem_cons.mpr ⟨fun hji => hij ?_, hj⟩)
          exact Option.some.inj (hi.symm.trans hji)

/-! ### Positional arguments and defaults -/

/-- What a parameter has in the end: its slot, or what it makes of the positional argument for it,
    or its default. -/
def Gets (h : Heap) (widening : Bool) (p : Parameter) : (slot argument : Option Value) →
    Value → Prop
  | some x, _, w => w = x
  | none, some v, w => h.Takes widening p v w
  | none, none, w => p.default = some w

def freeBefore (slots : List (Option Value)) (i : Nat) : Nat :=
  (slots.take i).countP Option.isNone

theorem freeBefore_cons (slot : Option Value) (slots : List (Option Value)) (i : Nat) :
    freeBefore (slot :: slots) (i + 1) =
      (if slot.isNone = true then 1 else 0) + freeBefore slots i := by
  rw [freeBefore, take_succ_cons, countP_cons, freeBefore, Nat.add_comm]

theorem placePositional_nil (hlength : slots.length = params.length) :
    h.placePositional widening params slots [] = some (slots, []) := by
  induction params generalizing slots with
  | nil => simp [placePositional]
  | cons p ps ih =>
    cases slots with
    | nil => simp at hlength
    | cons slot slots =>
      cases slot with
      | none => rfl
      | some x => rw [placePositional, ih (Nat.succ.inj hlength)]; rfl

def Completes (h : Heap) (widening : Bool) (params : List Parameter) (slots : List (Option Value))
    (arguments fixed left : List Value) : Prop :=
  ∃ slots', h.placePositional widening params slots arguments = some (slots', left) ∧
    fillDefaults params slots' = some fixed

theorem completes_cons {p : Parameter} {slot : Option Value}
    (hlength : slots.length = params.length) :
    h.Completes widening (p :: params) (slot :: slots) arguments fixed left ↔
      ∃ w fixed', fixed = w :: fixed' ∧ h.Gets widening p slot arguments[0]? w ∧
        h.Completes widening params slots (arguments.drop (if slot.isNone = true then 1 else 0))
          fixed' left := by
  cases slot with
  | some x =>
    simp only [Completes, placePositional, map_eq_some_iff]
    constructor
    · rintro ⟨_, ⟨⟨slots', left'⟩, hplace, ⟨⟩⟩, hfill⟩
      simp only [fillDefaults, orElse_some, map_eq_some_iff] at hfill
      obtain ⟨fixed', hfill, rfl⟩ := hfill
      exact ⟨x, fixed', rfl, rfl, slots', hplace, hfill⟩
    · rintro ⟨_, fixed', rfl, rfl, slots', hplace, hfill⟩
      exact ⟨_, ⟨(slots', left), hplace, rfl⟩, by simp [fillDefaults, hfill]⟩
  | none =>
    cases arguments with
    | nil =>
      -- No positional argument is left, so the rest has only defaults to wait for.
      simp only [Completes, placePositional, placePositional_nil hlength, Gets,
        drop_nil, getElem?_nil]
      constructor
      · rintro ⟨_, ⟨⟩, hfill⟩
        simp only [fillDefaults] at hfill
        split at hfill
        · next w hw =>
          obtain ⟨fixed', hrest, rfl⟩ := Option.map_eq_some_iff.mp hfill
          simp_all
        · cases hfill
      · rintro ⟨w, fixed', rfl, hw, _, ⟨⟩, hfill⟩
        simp [fillDefaults, hw, hfill]
    | cons =>
      simp only [Completes, placePositional, Gets, ← fitsParameter_iff, getElem?_cons_zero,
        isNone_none, if_true, drop_one, tail_cons]
      constructor
      · rintro ⟨_, hplace, hfill⟩
        split at hplace
        · next w hw =>
          obtain ⟨⟨slots', left'⟩, hrest, ⟨⟩⟩ := Option.map_eq_some_iff.mp hplace
          simp only [fillDefaults, orElse_some, map_eq_some_iff] at hfill
          grind
        · cases hplace
      · rintro ⟨w, fixed', rfl, hw, slots', hplace, hfill⟩
        refine ⟨some w :: slots', ?_, ?_⟩
        · simp [hw, hplace]
        · simp [fillDefaults, hfill]

theorem completes_iff (hlength : slots.length = params.length) :
    h.Completes widening params slots arguments fixed left ↔
      fixed.length = params.length ∧ left = arguments.drop (slots.countP Option.isNone) ∧
        ∀ i p slot, params[i]? = some p → slots[i]? = some slot →
          ∃ w, fixed[i]? = some w ∧ h.Gets widening p slot arguments[freeBefore slots i]? w := by
  induction params generalizing slots arguments fixed with
  | nil =>
    rw [eq_nil_of_length_eq_zero hlength]
    simp [Completes, placePositional, fillDefaults, eq_comm, and_comm]
  | cons p params ih =>
    cases slots with
    | nil => simp at hlength
    | cons slot slots =>
      have hlength' : slots.length = params.length := Nat.succ.inj hlength
      simp only [completes_cons hlength', ih hlength', countP_cons, drop_drop,
        getElem?_drop]
      constructor
      · rintro ⟨w, fixed, rfl, hw, hfixed, hleft, hall⟩
        refine ⟨congrArg Nat.succ hfixed, by rw [hleft, Nat.add_comm], fun i q s hq hs => ?_⟩
        cases i with
        | zero =>
          cases hq
          cases hs
          exact ⟨w, rfl, hw⟩
        | succ i =>
          rw [freeBefore_cons]
          exact hall i q s hq hs
      · rintro ⟨hfixed, hleft, hall⟩
        obtain ⟨w, hw, hgets⟩ := hall 0 p slot rfl rfl
        cases fixed with
        | nil => cases hw
        | cons x fixed =>
          cases hw
          refine ⟨w, fixed, rfl, hgets, Nat.succ.inj hfixed, by rw [hleft, Nat.add_comm],
            fun i q s hq hs => ?_⟩
          have hrest := hall (i + 1) q s hq hs
          rw [freeBefore_cons] at hrest
          exact hrest

end Heap

/-! ### All arguments -/

namespace Overload

def placeOf? (f : Overload) (name : String) : Option Nat :=
  f.fixedParams.findIdx? (·.name == name)

def isOpen (f : Overload) (named : List (String × Value)) (i : Nat) : Bool :=
  named.all fun e => f.placeOf? e.1 != some i

def openBefore (f : Overload) (named : List (String × Value)) (i : Nat) : Nat :=
  (List.range i).countP (f.isOpen named)

end Overload

/-- What is left over goes to a variadic parameter. -/
inductive Heap.Collects (h : Heap) (widening : Bool) (f : Overload) (left : List Value) :
    Option (List Value) → Prop
  | variadic (p : Parameter) (items : List Value) (hp : f.params.getLast? = some p)
      (hvariadic : p.variadic = true) (hitems : List.Forall₂ (h.Takes widening p) left items) :
      Collects h widening f left (some items)
  | plain (hplain : f.isVariadic = false) (hleft : left = []) : Collects h widening f left none

/-- Arguments give each parameter its value: the named ones by name, the rest in order. -/
structure Heap.Binds (h : Heap) (widening : Bool) (f : Overload) (a : Arguments) (b : Bound) :
    Prop where
  count : b.fixed.length = f.fixedParams.length
  distinct : (a.named.map Prod.fst).Nodup
  named : ∀ e ∈ a.named, ∃ i p w, f.placeOf? e.1 = some i ∧ f.fixedParams[i]? = some p ∧
    b.fixed[i]? = some w ∧ h.Takes widening p e.2 w
  positional : ∀ i p v, f.fixedParams[i]? = some p → f.isOpen a.named i = true →
    a.positional[f.openBefore a.named i]? = some v →
      ∃ w, b.fixed[i]? = some w ∧ h.Takes widening p v w
  default : ∀ i p, f.fixedParams[i]? = some p → f.isOpen a.named i = true →
    a.positional[f.openBefore a.named i]? = none →
      ∃ w, b.fixed[i]? = some w ∧ p.default = some w
  rest : h.Collects widening f
    (a.positional.drop (f.openBefore a.named f.fixedParams.length)) b.rest

namespace Heap

variable {h : Heap} {widening : Bool} {f : Overload} {a : Arguments} {b : Bound}
variable {left : List Value} {rest : Option (List Value)} {slots : List (Option Value)}

theorem mapM_fits_iff {p : Parameter} {items : List Value} :
    left.mapM (h.fitsParameter widening p) = some items ↔
      List.Forall₂ (h.Takes widening p) left items := by
  induction left generalizing items with
  | nil => simp
  | cons =>
    simp only [mapM_cons, bind_eq_bind, bind_eq_some_iff, fitsParameter_iff,
      forall₂_cons_left_iff]
    constructor
    all_goals grind

theorem collectRest_iff :
    h.collectRest widening f left = some rest ↔ h.Collects widening f left rest := by
  unfold collectRest
  constructor
  · intro hrest
    split at hrest
    · next p hp =>
      split at hrest
      · next hvariadic =>
        obtain ⟨items, hitems, rfl⟩ := Option.map_eq_some_iff.mp hrest
        exact .variadic p items hp hvariadic (mapM_fits_iff.mp hitems)
      · next hvariadic =>
        split at hrest
        · next hleft =>
          cases hrest
          exact .plain (by simpa [Overload.isVariadic, hp] using hvariadic) (by simpa using hleft)
        · cases hrest
    · next hp =>
      split at hrest
      · next hleft =>
        cases hrest
        exact .plain (by simp [Overload.isVariadic, hp]) (by simpa using hleft)
      · cases hrest
  · intro hrest
    cases hrest with
    | variadic p items hp hvariadic hitems => simp [hp, hvariadic, mapM_fits_iff.mpr hitems]
    | plain hplain hleft =>
      subst hleft
      cases hp : f.params.getLast? with
      | none => simp
      | some p =>
        have hvariadic : p.variadic = false := by simpa [Overload.isVariadic, hp] using hplain
        simp [hvariadic]

theorem freeBefore_eq {q : Nat → Bool} (hq : ∀ i slot, slots[i]? = some slot → slot.isNone = q i) :
    ∀ i, i ≤ slots.length → freeBefore slots i = (List.range i).countP q := by
  intro i
  induction i with
  | zero => intro _; rfl
  | succ i ih =>
    intro hi
    have hslot : slots[i]? = some slots[i] := getElem?_eq_getElem hi
    rw [freeBefore, take_add_one, range_succ, countP_append, hslot]
    simp [hq i _ hslot, ← ih (Nat.le_of_lt hi), freeBefore]

theorem bindArguments_iff_rounds : h.bindArguments widening f a = some b ↔ ∃ slots left,
    h.Fills widening f.fixedParams a.named (f.fixedParams.map fun _ => none) slots ∧
      h.Completes widening f.fixedParams slots a.positional b.fixed left ∧
        h.Collects widening f left b.rest := by
  simp only [bindArguments, bind_eq_bind, bind_eq_some_iff, Option.pure_def,
    Option.some.injEq, collectRest_iff, Prod.exists,
    placeAllNamed_iff (length_map fun _ : Parameter => (none : Option Value))]
  constructor
  · rintro ⟨slots, hslots, slots', left, hplace, rest, hrest, fixed, hfixed, rfl⟩
    exact ⟨slots, left, hslots, ⟨slots', hplace, hfixed⟩, hrest⟩
  · rintro ⟨slots, left, hslots, ⟨slots', hplace, hfixed⟩, hrest⟩
    exact ⟨slots, hslots, slots', left, hplace, b.rest, hrest, b.fixed, hfixed, rfl⟩

theorem Fills.isNone_eq
    (hs : h.Fills widening f.fixedParams a.named (f.fixedParams.map fun _ => none) slots) (i : Nat)
    (slot : Option Value) (hslot : slots[i]? = some slot) : slot.isNone = f.isOpen a.named i := by
  cases hopen : f.isOpen a.named i with
  | true =>
    have hfree : ∀ e ∈ a.named, f.placeOf? e.1 ≠ some i := by simpa [Overload.isOpen] using hopen
    have hkept := hs.others i hfree
    grind
  | false =>
    obtain ⟨e, he, hplace⟩ : ∃ e ∈ a.named, f.placeOf? e.1 = some i := by
      simpa [Overload.isOpen] using hopen
    obtain ⟨j, _, w, hj, _, _, _, hset⟩ := hs.placed e he
    obtain rfl : j = i := Option.some.inj (hj.symm.trans hplace)
    rw [hslot] at hset
    cases hset
    rfl

theorem Binds.fills (hb : h.Binds widening f a b) :
    h.Fills widening f.fixedParams a.named (f.fixedParams.map fun _ => none)
      ((List.range f.fixedParams.length).map fun i =>
        if f.isOpen a.named i = true then none else b.fixed[i]?) := by
  refine ⟨by simp, hb.distinct, fun e he => ?_, fun i hi => ?_⟩
  · obtain ⟨i, p, w, hi, hp, hw, ht⟩ := hb.named e he
    have hlt : i < f.fixedParams.length := (List.getElem?_eq_some_iff.mp hp).1
    have hclosed : f.isOpen a.named i = false := by
      simp only [Overload.isOpen, List.all_eq_false]
      exact ⟨e, he, by simp [hi]⟩
    refine ⟨i, p, w, hi, hp, by simp [hlt], ht, ?_⟩
    simp [getElem?_range hlt, hclosed, hw]
  · have hopen : f.isOpen a.named i = true := by
      simpa [Overload.isOpen, Overload.placeOf?] using hi
    by_cases hlt : i < f.fixedParams.length
    · simp [hlt, hopen]
    · simp [hlt]

theorem bindArguments_iff : h.bindArguments widening f a = some b ↔ h.Binds widening f a b := by
  rw [bindArguments_iff_rounds]
  constructor
  · rintro ⟨slots, left, hslots, hrounds, hrest⟩
    have hlength : slots.length = f.fixedParams.length := by simpa using hslots.length
    obtain ⟨hcount, hleft, hall⟩ := (completes_iff hlength).mp hrounds
    have hbefore := freeBefore_eq hslots.isNone_eq
    have htotal : slots.countP Option.isNone = f.openBefore a.named f.fixedParams.length := by
      have hfull := hbefore slots.length (Nat.le_refl _)
      rw [freeBefore, take_length, hlength] at hfull
      exact hfull
    -- An open place has a free slot, with as many free slots in front as there are open places.
    have hopen (i : Nat) (p : Parameter) (hp : f.fixedParams[i]? = some p)
        (hi : f.isOpen a.named i = true) : ∃ w, b.fixed[i]? = some w ∧
          h.Gets widening p none a.positional[f.openBefore a.named i]? w := by
      have hlt : i < slots.length := hlength ▸ (List.getElem?_eq_some_iff.mp hp).1
      have hslot : slots[i]? = some slots[i] := getElem?_eq_getElem hlt
      have hnone : slots[i] = none := Option.isNone_iff_eq_none.mp
        ((hslots.isNone_eq i _ hslot).trans hi)
      have hgets := hall i p _ hp hslot
      rw [hbefore i (Nat.le_of_lt hlt), hnone] at hgets
      exact hgets
    refine ⟨hcount, hslots.distinct, fun e he => ?_, fun i p v hp hi hv => ?_,
      fun i p hp hi hv => ?_, by rw [← htotal, ← hleft]; exact hrest⟩
    · obtain ⟨i, p, w, hi, hp, _, ht, hset⟩ := hslots.placed e he
      obtain ⟨x, hx, rfl⟩ := hall i p _ hp hset
      exact ⟨i, p, x, hi, hp, hx, ht⟩
    · obtain ⟨w, hw, hgets⟩ := hopen i p hp hi
      rw [hv] at hgets
      exact ⟨w, hw, hgets⟩
    · obtain ⟨w, hw, hgets⟩ := hopen i p hp hi
      rw [hv] at hgets
      exact ⟨w, hw, hgets⟩
  · intro hb
    have hfills := hb.fills
    have hlength := hfills.length.trans (length_map _)
    have hbefore := freeBefore_eq hfills.isNone_eq
    refine ⟨_, _, hfills,
      (completes_iff hlength).mpr ⟨hb.count, rfl, fun i p slot hp hslot => ?_⟩, ?_⟩
    · have hlt : i < f.fixedParams.length := (List.getElem?_eq_some_iff.mp hp).1
      rw [hbefore i (by simpa using Nat.le_of_lt hlt)]
      simp only [getElem?_map, getElem?_range hlt, map_some, Option.some.injEq]
        at hslot
      obtain ⟨w, hw⟩ : ∃ w, b.fixed[i]? = some w := ⟨_, getElem?_eq_getElem (hb.count ▸ hlt)⟩
      subst hslot
      split
      · next hopen =>
        cases hv : a.positional[f.openBefore a.named i]? with
        | none =>
          obtain ⟨x, hx, hdefault⟩ := hb.default i p hp hopen hv
          exact ⟨x, hx, by rw [← Overload.openBefore, hv]; exact hdefault⟩
        | some v =>
          obtain ⟨x, hx, ht⟩ := hb.positional i p v hp hopen hv
          exact ⟨x, hx, by rw [← Overload.openBefore, hv]; exact ht⟩
      · rw [hw]
        exact ⟨w, rfl, rfl⟩
    · have hfull := hbefore f.fixedParams.length (by simp)
      rw [freeBefore, take_of_length_le (by simp)] at hfull
      rw [hfull]
      exact hb.rest

/-! ### The order of named arguments, and the values of all parameters -/

theorem Collects.allowing (hc : h.Collects false f left rest) : h.Collects true f left rest := by
  cases hc with
  | variadic p items hp hvariadic hitems =>
    exact .variadic p items hp hvariadic (hitems.imp fun _ _ ht => ht.allowing)
  | plain hplain hleft => exact .plain hplain hleft

theorem Binds.allowing (hb : h.Binds false f a b) : h.Binds true f a b := by
  refine ⟨hb.count, hb.distinct, fun e he => ?_, fun i p v hp hi hv => ?_, hb.default,
    hb.rest.allowing⟩
  · obtain ⟨i, p, w, hi, hp, hw, ht⟩ := hb.named e he
    exact ⟨i, p, w, hi, hp, hw, ht.allowing⟩
  · obtain ⟨w, hw, ht⟩ := hb.positional i p v hp hi hv
    exact ⟨w, hw, ht.allowing⟩

theorem Binds.perm {named : List (String × Value)} (hb : h.Binds widening f a b)
    (hperm : named.Perm a.named) : h.Binds widening f ⟨a.positional, named⟩ b := by
  have hopen : f.isOpen named = f.isOpen a.named := funext fun i => hperm.all_eq
  have hbefore : f.openBefore named = f.openBefore a.named := by
    funext i
    rw [Overload.openBefore, hopen, Overload.openBefore]
  refine ⟨hb.count, (hperm.map Prod.fst).nodup_iff.mpr hb.distinct,
    fun e he => hb.named e (hperm.mem_iff.mp he), ?_, ?_, ?_⟩
  · rw [hopen, hbefore]
    exact hb.positional
  · rw [hopen, hbefore]
    exact hb.default
  · rw [hbefore]
    exact hb.rest

end Heap

/-- The values of all parameters of a function. What a variadic one has collected is in a
    list. -/
structure Bound.Passes (b : Bound) (f : Overload) (values : List Value) (h : Heap) : Prop where
  count : values.length = f.params.length
  fixed : values.take f.fixedParams.length = b.fixed
  rest : ∀ items, b.rest = some items →
    ∃ id, values[f.fixedParams.length]? = some (.object id) ∧
      h.objectAt id = ⟨ClassId.list, .list items.toArray⟩

theorem Overload.length_fixedParams (f : Overload) :
    f.fixedParams.length + (if f.isVariadic = true then 1 else 0) = f.params.length := by
  unfold fixedParams isVariadic
  cases hp : f.params.getLast? with
  | none => simp
  | some p =>
    cases hv : p.variadic with
    | false => simp [hv]
    | true => grind

namespace Heap

variable {h : Heap} {widening : Bool} {f : Overload} {a : Arguments} {b : Bound}

theorem Binds.passes (hb : h.Binds widening f a b) (m : Machine) :
    ∃ values m', Calling.parameterValues b m = .done values m' ∧ b.Passes f values m'.heap := by
  have hlength := f.length_fixedParams
  obtain ⟨fixed, rest⟩ := b
  have hcount : fixed.length = f.fixedParams.length := hb.count
  cases hb.rest with
  | plain hplain _ =>
    rw [hplain] at hlength
    refine ⟨fixed, m, rfl, hcount.trans hlength, ?_, nofun⟩
    rw [← hcount, take_length]
  | variadic p items hp hvariadic _ =>
    have hlast : f.isVariadic = true := by simp [Overload.isVariadic, hp, hvariadic]
    rw [if_pos hlast] at hlength
    refine ⟨fixed ++ [.object m.heap.objects.size], _, rfl, ?_, ?_, ?_⟩
    · simp [hcount, hlength]
    · rw [← hcount, take_left]
    · rintro _ ⟨⟩
      refine ⟨m.heap.objects.size, ?_, ?_⟩
      · rw [← hcount, getElem?_concat_length]
      · simp [objectAt]

/-- A function takes the arguments of a call exactly if each has its place and the other places have
    defaults. The order of the named arguments does not matter. -/
theorem bindArguments_faithful (h : Heap) (widening : Bool) (f : Overload) (a : Arguments) :
    (∀ b, h.bindArguments widening f a = some b ↔ h.Binds widening f a b) ∧
      (∀ b, h.Binds widening f a b → ∀ m, ∃ values m',
        Calling.parameterValues b m = .done values m' ∧ b.Passes f values m'.heap) ∧
      (∀ p v w, h.Takes widening p v w →
        ∀ classes, p.accepted = some classes → h.typeOf w ∈ classes) ∧
      ∀ named, named.Perm a.named →
        h.bindArguments widening f ⟨a.positional, named⟩ = h.bindArguments widening f a := by
  refine ⟨fun b => bindArguments_iff, fun b hb => hb.passes, fun p v w ht classes => ht.accepted,
    fun named hperm => ?_⟩
  refine Option.ext fun b => ?_
  rw [bindArguments_iff, bindArguments_iff]
  exact ⟨fun hb => hb.perm (a := ⟨a.positional, named⟩) hperm.symm, fun hb => hb.perm hperm⟩

theorem bindArguments_faithful_sample :
    let f : Overload := { (default : Overload) with
      params := [⟨"x", none, none, false⟩, ⟨"y", some [ClassId.float], none, false⟩,
        ⟨"z", none, some .null, false⟩, ⟨"more", some [ClassId.decimal], none, true⟩] }
    let a : Arguments := ⟨[.int 1, .int 2, .int 3], [("y", .int 4)]⟩
    let b : Bound := ⟨[.int 1, .float (Binary64.ofInt 4), .int 2],
      some [.decimal (Decimal.ofInt 3)]⟩
    Heap.empty.bindArguments true f a = some b ∧ Heap.empty.Binds true f a b := by
  intro f a b
  have hbound : Heap.empty.bindArguments true f a = some b := by decide
  exact ⟨hbound, ((bindArguments_faithful Heap.empty true f a).1 b).mp hbound⟩

end Heap

end ClassScript
