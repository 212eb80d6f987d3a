import ClassScript.Proofs.Builtin
import ClassScript.Library.List

/-!
# Sorting

A list is sorted by comparisons that may run functions of a program, contradict each other and fail.
Whatever they do, what comes out are the elements that went in (`sort_ends`). If they only look, and
what they answer is an order, elements come out in it, and equal ones as they were (`sort_stable`).
-/

namespace ClassScript

open List Eval

variable {xs : List Value} {L : Level} {m : Machine}

namespace Sorting

variable {α : Type}

inductive Reaches (order : α → α → Eval Ordering) (xs : List α) (m : Machine) : Machine → Prop
  | start : Reaches order xs m m
  | compare {m₁ m₂ : Machine} {x y : α} {found : Ordering} (hm : Reaches order xs m m₁)
      (hx : x ∈ xs) (hy : y ∈ xs) (hfound : order x y m₁ = .done found m₂) :
      Reaches order xs m m₂

inductive Ends (order : α → α → Eval Ordering) (xs : List α) (m : Machine) (zs : List α) :
    Outcome (List α) → Prop
  | done {ys : List α} {m' : Machine} (hm : Reaches order xs m m') (hys : ys.Perm zs) :
      Ends order xs m zs (.done ys m')
  | failed {m₁ m₂ : Machine} {x y : α} {e : Failure} (hm : Reaches order xs m m₁) (hx : x ∈ xs)
      (hy : y ∈ xs) (he : order x y m₁ = .failed e m₂) : Ends order xs m zs (.failed e m₂)
  | stopped {m₁ m₂ : Machine} {x y : α} (hm : Reaches order xs m m₁) (hx : x ∈ xs) (hy : y ∈ xs)
      (hstop : order x y m₁ = .stopped m₂) : Ends order xs m zs (.stopped m₂)

section Ends

variable {order : α → α → Eval Ordering} {xs : List α} {m m₁ : Machine} {zs ws : List α}

theorem Ends.bind {x : Eval (List α)} {f : List α → Eval (List α)} (hx : Ends order xs m zs (x m₁))
    (hf : ∀ ys m₂, ys.Perm zs → Reaches order xs m m₂ → Ends order xs m ws (f ys m₂)) :
    Ends order xs m ws ((x >>= f) m₁) := by
  rw [Eval.bind_apply]
  generalize x m₁ = o at hx ⊢
  cases hx with
  | done hm hys => exact hf _ _ hys hm
  | failed hm hx hy he => exact .failed hm hx hy he
  | stopped hm hx hy hstop => exact .stopped hm hx hy hstop

theorem Ends.perm {o : Outcome (List α)} (h : Ends order xs m zs o)
    (hp : zs.Perm ws) : Ends order xs m ws o := by
  cases h with
  | done hm hys => exact .done hm (hys.trans hp)
  | failed hm hx hy he => exact .failed hm hx hy he
  | stopped hm hx hy hstop => exact .stopped hm hx hy hstop

theorem Ends.compare {x y : α} {f : Ordering → Eval (List α)} (hx : x ∈ xs) (hy : y ∈ xs)
    (hm : Reaches order xs m m₁)
    (hf : ∀ found m₂, Reaches order xs m m₂ → Ends order xs m zs (f found m₂)) :
    Ends order xs m zs ((order x y >>= f) m₁) := by
  rw [Eval.bind_apply]
  cases hfound : order x y m₁ with
  | done found m₂ => exact hf found m₂ (hm.compare hx hy hfound)
  | failed e m₂ => exact .failed hm hx hy hfound
  | stopped m₂ => exact .stopped hm hx hy hfound

theorem mergeOnto_ends (l : List α) (hl : ∀ x ∈ l, x ∈ xs) : ∀ (r merged : List α) (m₁ : Machine),
    (∀ y ∈ r, y ∈ xs) → Reaches order xs m m₁ →
      Ends order xs m (merged ++ l ++ r) (mergeOnto order l r merged m₁) := by
  induction l with
  | nil =>
    intro r merged m₁ _ hm
    refine .done hm ?_
    rw [append_nil]
    exact (reverse_perm merged).append_right r
  | cons x l ih =>
    obtain ⟨hx, hl⟩ := forall_mem_cons.mp hl
    intro r
    induction r with
    | nil =>
      intro merged m₁ _ hm
      refine .done hm ?_
      rw [append_nil]
      exact (reverse_perm merged).append_right (x :: l)
    | cons y r ihr =>
      intro merged m₁ hr hm
      obtain ⟨hy, hr⟩ := forall_mem_cons.mp hr
      rw [mergeOnto, mergeHead_cons]
      refine .compare hx hy hm fun found m₂ hm₂ => ?_
      have hright : Ends order xs m (merged ++ x :: l ++ y :: r)
          (mergeHead order x l (mergeOnto order l) r (y :: merged) m₂) := by
        refine (ihr (y :: merged) m₂ hr hm₂).perm ?_
        exact (@perm_middle _ y (merged ++ x :: l) r).symm
      have hleft : Ends order xs m (merged ++ x :: l ++ y :: r)
          (mergeOnto order l (y :: r) (x :: merged) m₂) := by
        refine (ih hl (y :: r) (x :: merged) m₂ (forall_mem_cons.mpr ⟨hy, hr⟩) hm₂).perm ?_
        exact (@perm_middle _ x merged l).symm.append_right (y :: r)
      cases found with
      | gt => exact hright
      | lt | eq => exact hleft

theorem sortWithin_ends (n : Nat) : ∀ (zs : List α) (m₁ : Machine), (∀ z ∈ zs, z ∈ xs) →
    Reaches order xs m m₁ → Ends order xs m zs (sortWithin order n zs m₁) := by
  induction n with
  | zero => exact fun zs m₁ _ hm => .done hm (.refl zs)
  | succ n ih =>
    intro zs m₁ hzs hm
    unfold sortWithin
    split
    · exact .done hm (.refl zs)
    · have htake : ∀ z ∈ zs.take (zs.length / 2), z ∈ xs := fun z hz => hzs z (mem_of_mem_take hz)
      have hdrop : ∀ z ∈ zs.drop (zs.length / 2), z ∈ xs := fun z hz => hzs z (mem_of_mem_drop hz)
      refine .bind (ih _ m₁ htake hm) fun left m₂ hleft hm₂ => ?_
      refine .bind (ih _ m₂ hdrop hm₂) fun right m₃ hright hm₃ => ?_
      refine (mergeOnto_ends left (fun x hx => htake x (hleft.mem_iff.mp hx)) right [] m₃
        (fun y hy => hdrop y (hright.mem_iff.mp hy)) hm₃).perm ?_
      rw [nil_append]
      exact (hleft.append hright).trans (.of_eq (take_append_drop _ zs))

end Ends

/-- Sorting only compares elements, and ends with all of them or as a comparison ends that
    has no answer. -/
theorem sort_ends (order : α → α → Eval Ordering) (xs : List α) (m : Machine) :
    Ends order xs m xs (sort order xs m) :=
  sortWithin_ends xs.length xs m (fun _ hx => hx) .start

/-- What comparisons that only look at elements answer is an order of these elements. -/
structure Ordered (le : α → α → Bool) (xs : List α) : Prop where
  total : ∀ x ∈ xs, ∀ y ∈ xs, (le x y || le y x) = true
  trans : ∀ x ∈ xs, ∀ y ∈ xs, ∀ z ∈ xs, le x y = true → le y z = true → le x z = true

def alike (le : α → α → Bool) (x : α) (ys : List α) : List α :=
  ys.filter fun y => le x y && le y x

/-- The same elements in ascending order, equal ones in the order they had. -/
structure Stable (le : α → α → Bool) (xs ys : List α) : Prop where
  perm : ys.Perm xs
  ascending : ys.Pairwise fun x y => le x y = true
  kept : ∀ x ∈ xs, alike le x ys = alike le x xs

section Stable

variable {order : α → α → Eval Ordering} {le : α → α → Bool} {xs : List α} {m : Machine}

theorem Ordered.extend (hle : Ordered le xs) : ∃ le' : α → α → Bool,
    (∀ x y, (le' x y || le' y x) = true) ∧
    (∀ x y z, le' x y = true → le' y z = true → le' x z = true) ∧
    ∀ x ∈ xs, ∀ y ∈ xs, le' x y = le x y := by
  classical
  refine ⟨fun x y => decide (x ∈ xs → y ∈ xs ∧ le x y = true), fun x y => ?_, fun x y z => ?_,
    fun x hx y hy => by simp [hx, hy]⟩
  · have htotal := hle.total x
    by_cases hx : x ∈ xs <;> by_cases hy : y ∈ xs <;> simp_all
  · have htrans := hle.trans x
    simp only [decide_eq_true_iff]
    exact fun hxy hyz hx => ⟨(hyz (hxy hx).1).1,
      htrans hx y (hxy hx).1 z (hyz (hxy hx).1).1 (hxy hx).2 (hyz (hxy hx).1).2⟩

theorem Stable.congr {le' : α → α → Bool} {ys : List α} (h : Stable le' xs ys)
    (hsame : ∀ x ∈ xs, ∀ y ∈ xs, le' x y = le x y) : Stable le xs ys where
  perm := h.perm
  ascending := h.ascending.imp_of_mem fun hx hy hle =>
    hsame _ (h.perm.mem_iff.mp hx) _ (h.perm.mem_iff.mp hy) ▸ hle
  kept x hx := by
    have halike {zs : List α} (hzs : ∀ z ∈ zs, z ∈ xs) : alike le x zs = alike le' x zs :=
      filter_congr fun z hz => by rw [hsame x hx z (hzs z hz), hsame z (hzs z hz) x hx]
    rw [halike fun _ => h.perm.mem_iff.mp, halike fun _ => id]
    exact h.kept x hx

theorem mergeOnto_of_pure (l : List α) : ∀ r merged : List α,
    (∀ x ∈ l, ∀ y ∈ r, ∃ found, order x y m = .done found m ∧ found.isLE = le x y) →
      mergeOnto order l r merged m = .done (merged.reverse ++ List.merge l r le) m := by
  induction l with
  | nil =>
    intro r merged _
    rw [nil_merge]
    rfl
  | cons x l ih =>
    intro r
    induction r with
    | nil =>
      intro merged _
      rw [merge_right]
      rfl
    | cons y r ihr =>
      intro merged hpure
      obtain ⟨found, hxy, hle⟩ := hpure x mem_cons_self y mem_cons_self
      rw [mergeOnto, mergeHead_cons, bind_of_done hxy, cons_merge_cons, ← hle]
      have hright := ihr (y :: merged) fun x' hx' y' hy' => hpure x' hx' y' (mem_cons_of_mem y hy')
      have hleft := ih (y :: r) (x :: merged) fun x' hx' => hpure x' (mem_cons_of_mem x hx')
      cases found with
      | gt => simpa [mergeOnto] using hright
      | lt | eq => simpa using hleft

section Merging

variable (htotal : ∀ x y, (le x y || le y x) = true)
variable (htrans : ∀ x y z, le x y = true → le y z = true → le x z = true)

include htotal htrans

theorem alike_merge (w : α) (l : List α) : ∀ r : List α, l.Pairwise (fun x y => le x y = true) →
    alike le w (List.merge l r le) = alike le w l ++ alike le w r := by
  induction l with
  | nil => exact fun r _ => by rw [nil_merge]; rfl
  | cons x l ih =>
    intro r
    induction r with
    | nil => exact fun _ => by rw [merge_right]; exact (append_nil _).symm
    | cons y r ihr =>
      intro hasc
      obtain ⟨hfirst, hrest⟩ := pairwise_cons.mp hasc
      have hleft := ih (y :: r) hrest
      have hright := ihr hasc
      unfold alike at hleft hright ⊢
      rw [cons_merge_cons]
      split
      · rw [filter_cons, filter_cons, hleft]
        split <;> rfl
      · rename_i hxy
        rw [filter_cons, filter_cons (x := y), hright]
        split
        · -- The element goes first, and no element of the left list is like it.
          rename_i hlike
          obtain ⟨hwy, -⟩ := Bool.and_eq_true_iff.mp hlike
          have hself : le x x = true := by simpa using htotal x x
          have hnone : (x :: l).filter (fun z => le w z && le z w) = [] := by
            refine filter_eq_nil_iff.mpr fun z hz hlike => hxy ?_
            have hxz : le x z = true := (mem_cons.mp hz).elim (· ▸ hself) (hfirst z)
            exact htrans x z y hxz (htrans z w y (Bool.and_eq_true_iff.mp hlike).2 hwy)
          rw [hnone]
          rfl
        · rfl

theorem sortWithin_of_pure
    (hpure : ∀ x ∈ xs, ∀ y ∈ xs, ∃ found, order x y m = .done found m ∧ found.isLE = le x y)
    (n : Nat) : ∀ zs : List α, (∀ z ∈ zs, z ∈ xs) → zs.length ≤ n →
      ∃ ys, sortWithin order n zs m = .done ys m ∧ ys.Perm zs ∧
        ys.Pairwise (fun x y => le x y = true) ∧ ∀ w, alike le w ys = alike le w zs := by
  induction n with
  | zero =>
    intro zs _ hlength
    rw [length_eq_zero_iff.mp (Nat.le_zero.mp hlength)]
    exact ⟨[], rfl, .refl [], .nil, fun _ => rfl⟩
  | succ n ih =>
    intro zs hzs hlength
    unfold sortWithin
    split
    · rename_i hshort
      refine ⟨zs, rfl, .refl zs, ?_, fun _ => rfl⟩
      cases zs with
      | nil => exact .nil
      | cons z rest =>
        rw [length_eq_zero_iff.mp (Nat.lt_one_iff.mp (Nat.lt_of_succ_lt_succ hshort))]
        exact pairwise_singleton _ z
    · have htake : ∀ z ∈ zs.take (zs.length / 2), z ∈ xs := fun z hz => hzs z (mem_of_mem_take hz)
      have hdrop : ∀ z ∈ zs.drop (zs.length / 2), z ∈ xs := fun z hz => hzs z (mem_of_mem_drop hz)
      obtain ⟨l, hl, hpl, hal, hkl⟩ := ih _ htake (by rw [length_take]; omega)
      obtain ⟨r, hr, hpr, har, hkr⟩ := ih _ hdrop (by rw [length_drop]; omega)
      refine ⟨List.merge l r le, ?_, ?_, pairwise_merge htrans htotal l r hal har, fun w => ?_⟩
      · rw [bind_of_done hl, bind_of_done hr]
        exact mergeOnto_of_pure l r [] fun x hx y hy =>
          hpure x (htake x (hpl.mem_iff.mp hx)) y (hdrop y (hpr.mem_iff.mp hy))
      · exact (merge_perm_append _).trans
          ((hpl.append hpr).trans (.of_eq (take_append_drop _ zs)))
      · rw [alike_merge htotal htrans w l r hal, hkl, hkr]
        unfold alike
        rw [← filter_append, take_append_drop]

end Merging

theorem sort_stable {cmp : α → α → Ordering} (hcmp : Ordered (fun x y => (cmp x y).isLE) xs)
    (hpure : ∀ x ∈ xs, ∀ y ∈ xs, order x y m = .done (cmp x y) m) :
    ∃ ys, sort order xs m = .done ys m ∧ Stable (fun x y => (cmp x y).isLE) xs ys := by
  obtain ⟨le, htotal, htrans, hsame⟩ := hcmp.extend
  obtain ⟨ys, hsort, hperm, hasc, hkept⟩ := sortWithin_of_pure htotal htrans
    (fun x hx y hy => ⟨_, hpure x hx y hy, (hsame x hx y hy).symm⟩) xs.length xs (fun _ => id)
    (Nat.le_refl _)
  exact ⟨ys, hsort, Stable.congr ⟨hperm, hasc, fun x _ => hkept x⟩ hsame⟩

end Stable

end Sorting

def Value.order : Value → Value → Ordering
  | .int a, .int b => compare a.toInt b.toInt
  | .str a, .str b => compare a b
  | _, _ => .eq

def Value.Uniform (xs : List Value) : Prop :=
  (∃ ns : List Int64, xs = ns.map .int) ∨ ∃ ts : List String, xs = ts.map .str

theorem Sorting.Ordered.map {α β γ : Type} [Ord β] [Std.TransOrd β] (cmp : α → α → Ordering)
    {wrap : γ → α} (key : γ → β) (hcmp : ∀ a b, cmp (wrap a) (wrap b) = compare (key a) (key b))
    (as : List γ) : Ordered (fun x y => (cmp x y).isLE) (as.map wrap) where
  total := by
    simp only [forall_mem_map, hcmp]
    intro a _ b _
    rw [Std.OrientedOrd.eq_swap (a := key b)]
    cases compare (key a) (key b) <;> rfl
  trans := by
    simp only [forall_mem_map, hcmp]
    exact fun a _ b _ c _ => Std.TransCmp.isLE_trans

theorem Value.Uniform.ordered (h : Value.Uniform xs) :
    Sorting.Ordered (fun x y => (x.order y).isLE) xs := by
  rcases h with ⟨ns, rfl⟩ | ⟨ts, rfl⟩
  · exact .map Value.order Int64.toInt (fun _ _ => rfl) ns
  · exact .map Value.order id (fun _ _ => rfl) ts

theorem Operation.compare_of_answers {a b : Value} {found : Ordering} (hfloat : ∀ x, a ≠ .float x)
    (hlt : L.operate .lt a [b] Span.nowhere m = .done (.bool (found == .lt)) m)
    (hgt : L.operate .gt a [b] Span.nowhere m = .done (.bool (found == .gt)) m) :
    compare L a b m = .done found m := by
  have hcompare : compare L a b = do
      if ← Eval.truthy (← L.operate .lt a [b] Span.nowhere) then return .lt
      else if ← Eval.truthy (← L.operate .gt a [b] Span.nowhere) then return .gt
      else return .eq := by
    cases a with
    | float x => exact absurd rfl (hfloat x)
    | _ => rfl
  rw [hcompare, bind_of_done hlt]
  cases found with
  | lt => rfl
  | eq | gt =>
    change (L.operate .gt a [b] Span.nowhere >>= _) m = _
    rw [bind_of_done hgt]
    rfl

theorem World.str_operators : ∀ op ∈ [Operator.lt, .gt],
    (heap.2.classAt ClassId.str).operators.find? op = some .str := by
  decide +kernel

theorem InSession.compare_uniform {m₀ : Machine} (hm : InSession m₀) (hrun : m₀.Runs m)
    {watch : Machine → Bool} (hwatch : watch m = false) (n : Nat)
    (hxs : Value.Uniform xs) : ∀ x ∈ xs, ∀ y ∈ xs,
      Operation.compare (watchedLevel watch (n + 1)) x y m = .done (x.order y) m := by
  have hplain (x y : Value) (hx : ∀ id, x ≠ .object id) (family : OperatorFamily) (op : Operator)
      (hop : op = .lt ∨ op = .gt)
      (hfamily : (World.heap.2.classAt (m.heap.typeOf x)).operators.find? op = some family) :
      (watchedLevel watch (n + 1)).operate op x [y] Span.nowhere m =
        Operation.native (watchedLevel watch n) family op x [y] m := by
    refine hm.operate_plain hrun hwatch n (m.heap.typeOf_isPlain hx) ?_ ?_ hfamily _
    · rcases hop with rfl | rfl <;> rfl
    · rcases hop with rfl | rfl <;> exact nofun
  rcases hxs with ⟨ns, rfl⟩ | ⟨ts, rfl⟩
  · simp only [forall_mem_map]
    intro a _ b _
    have hnumber := hplain (.int a) (.int b) nofun .number
    exact Operation.compare_of_answers nofun
      (hnumber .lt (.inl rfl) (World.int_operators .lt (by decide)))
      (hnumber .gt (.inr rfl) (World.int_operators .gt (by decide)))
  · simp only [forall_mem_map]
    intro a _ b _
    have htext := hplain (.str a) (.str b) nofun .str
    exact Operation.compare_of_answers nofun
      (htext .lt (.inl rfl) (World.str_operators .lt (by decide)))
      (htext .gt (.inr rfl) (World.str_operators .gt (by decide)))

structure Heap.IsList (h : Heap) (id : ObjectId) (items : Array Value) : Prop where
  lt : id < h.objects.size
  items : h.items? (.object id) = some items

theorem Heap.IsList.object {h : Heap} {id : ObjectId} {items : Array Value}
    (hl : h.IsList id items) : ∃ type, h.objects[id]? = some ⟨type, .list items⟩ := by
  have hitems := hl.items
  obtain ⟨⟨type, payload⟩, ho⟩ : ∃ o, h.objects[id]? = some o :=
    ⟨_, Array.getElem?_eq_getElem hl.lt⟩
  simp only [Heap.items?, Heap.payloadOf, Heap.objectAt, Array.getD_eq_getD_getElem?, ho,
    Option.getD_some] at hitems
  cases payload <;> simp_all

namespace Library

variable {id : ObjectId} {m : Machine} {items : Array Value}

theorem changeItems_of_isList (hlist : m.heap.IsList id items) (f : Array Value → Array Value) :
    ∃ m', (do changeItems (← expectList (.object id)) f; return Value.null : Eval Value) m =
      .done .null m' ∧ m'.heap.IsList id (f items) := by
  have hexpect : expectList (.object id) m = .done id m := by
    unfold expectList
    rw [ask_bind, hlist.items]
    rfl
  rw [bind_of_done hexpect]
  refine ⟨_, rfl, Nat.lt_of_lt_of_eq hlist.lt Array.size_modify.symm, ?_⟩
  obtain ⟨type, ho⟩ := hlist.object
  simp [Heap.items?, Heap.payloadOf, Heap.objectAt, Heap.updatePayload,
    Array.getD_eq_getD_getElem?, Array.getElem?_modify, ho, Payload.change]

theorem expectItems_of_isList (hlist : m.heap.IsList id items) :
    expectItems (.object id) m = .done items m := by
  unfold expectItems
  rw [ask_bind, hlist.items]
  rfl

theorem list_sort_of_isList (hlist : m.heap.IsList id items) {c : Call}
    (hself : c.self = .object id) :
    list L .sort c m = (Sorting.sort (Operation.compare L) items.toList >>= fun sorted => do
      changeItems (← expectList (.object id)) fun _ => sorted.toArray
      return Value.null : Eval Value) m := by
  rw [← hself]
  exact bind_of_done (hself ▸ expectItems_of_isList hlist)

/-- Sorting compares elements until a comparison fails. Otherwise the list holds its elements in
    another order. If the comparisons only look and order the elements, this is ascending, with
    equal elements as they were, and integers and texts are compared in this way. -/
theorem sort_permutes_stably (hlist : m.heap.IsList id items) (L : Level) (c : Call)
    (hself : c.self = .object id) :
    let xs := items.toList
    let sorting := Sorting.sort (Operation.compare L) xs m
    let result := list L .sort c m
    Sorting.Ends (Operation.compare L) xs m xs sorting ∧
    (∀ e m', sorting = .failed e m' → result = .failed e m') ∧
    (∀ m', sorting = .stopped m' → result = .stopped m') ∧
    (∀ ys m', sorting = .done ys m' → ∀ now, m'.heap.IsList id now →
      ∃ m'', result = .done .null m'' ∧ m''.heap.IsList id ys.toArray) ∧
    (∀ cmp : Value → Value → Ordering, Sorting.Ordered (fun x y => (cmp x y).isLE) xs →
      (∀ x ∈ xs, ∀ y ∈ xs, Operation.compare L x y m = .done (cmp x y) m) →
      ∃ ys m', result = .done .null m' ∧ m'.heap.IsList id ys.toArray ∧
        Sorting.Stable (fun x y => (cmp x y).isLE) xs ys) ∧
    (∀ m₀ watch n, InSession m₀ → m₀.Runs m → watch m = false → L = watchedLevel watch (n + 1) →
      Value.Uniform xs → Sorting.Ordered (fun x y => (x.order y).isLE) xs ∧
        ∀ x ∈ xs, ∀ y ∈ xs, Operation.compare L x y m = .done (x.order y) m) := by
  intro xs sorting result
  have hresult : result = _ := list_sort_of_isList hlist hself
  rw [Eval.bind_apply] at hresult
  have hdone (ys : List Value) (m' : Machine) (hsort : sorting = .done ys m') (now : Array Value)
      (hnow : m'.heap.IsList id now) :
      ∃ m'', result = .done .null m'' ∧ m''.heap.IsList id ys.toArray := by
    rw [hresult, show Sorting.sort _ _ m = .done ys m' from hsort]
    exact changeItems_of_isList hnow fun _ => ys.toArray
  refine ⟨Sorting.sort_ends _ xs m, fun e m' hsort => ?_, fun m' hsort => ?_, hdone,
    fun cmp hcmp hpure => ?_, ?_⟩
  · rw [hresult, show Sorting.sort _ _ m = .failed e m' from hsort]
  · rw [hresult, show Sorting.sort _ _ m = .stopped m' from hsort]
  · obtain ⟨ys, hsort, hstable⟩ := Sorting.sort_stable hcmp hpure
    obtain ⟨m', hend, hys⟩ := hdone ys m hsort items hlist
    exact ⟨ys, m', hend, hys, hstable⟩
  · rintro m₀ watch n hm hrun hwatch rfl huniform
    exact ⟨huniform.ordered, hm.compare_uniform hrun hwatch n huniform⟩

end Library

def Machine.listed : Machine :=
  ((Request.source "var xs = [3, 1, 2];").perform (level 20)
    (Machine.initial Config.standard default [])).machine

theorem Library.sort_permutes_stably_listed :
    Machine.listed.heap.IsList 0 #[.int 3, .int 1, .int 2] ∧ ∃ ys m',
      list (level 20) .sort ⟨some (.object 0), []⟩ Machine.listed = .done .null m' ∧
      m'.heap.IsList 0 ys.toArray ∧
      Sorting.Stable (fun x y => (x.order y).isLE) [.int 3, .int 1, .int 2] ys := by
  have hm : InSession Machine.listed :=
    .running (.initial Config.standard default []) (fun _ => false) 20
      (.source "var xs = [3, 1, 2];")
  have hlist : Machine.listed.heap.IsList 0 #[.int 3, .int 1, .int 2] :=
    ⟨by decide +kernel, by decide +kernel⟩
  generalize Machine.listed = m at *
  obtain ⟨-, -, -, -, hsorts, huniform⟩ :=
    sort_permutes_stably hlist (level 20) ⟨some (.object 0), []⟩ rfl
  obtain ⟨hordered, hpure⟩ :=
    huniform m (fun _ => false) 19 hm .refl rfl rfl (.inl ⟨[3, 1, 2], rfl⟩)
  exact ⟨hlist, hsorts Value.order hordered hpure⟩

end ClassScript
