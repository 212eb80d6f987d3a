import ClassScript.Proofs.Ages

/-!
# Where Code Is Written

What counts is where code is written: from the frame of a call the way leads to the scope in which
the function was defined.
-/

namespace ClassScript

variable {m : Machine}

namespace Heap

variable {outer : ScopeId}

/-- A scope has another one around it in the text, or is the same. -/
inductive LiesAround (h : Heap) (outer : ScopeId) : ScopeId → Prop
  | self : h.LiesAround outer outer
  | closure {s closure : ScopeId} {receiver : Option ObjectId}
      (hkind : (h.scopeAt s).kind = .frame closure receiver) (hin : h.LiesAround outer closure) :
      h.LiesAround outer s
  | parent {s p : ScopeId}
      (hkind : ∀ closure receiver, (h.scopeAt s).kind ≠ .frame closure receiver)
      (hparent : (h.scopeAt s).parent = some p) (hin : h.LiesAround outer p) : h.LiesAround outer s

def InBody (h : Heap) (site : ScopeId) (c : ClassId) : Prop :=
  h.LiesAround (h.classAt c).scope site

/-- Code in a scope may use what a class has declared with an access. Protected members can be used
    in the bodies of subclasses that are not gone. -/
def MayUse (h : Heap) (site : ScopeId) (c : ClassId) : Access → Prop
  | .public | .internal => True
  | .private => h.InBody site c
  | .protected => ∃ s d, h.LiesAround s site ∧ (h.scopeAt s).kind = .classBody d ∧
      h.held d = true ∧ h.Descends d c

variable {h : Heap} {site : ScopeId} {c : ClassId} {modules : List (String × ClassId)}

theorem Walks.mem_iff_liesAround {start : Option ScopeId} {passed : List ScopeId}
    (hw : h.Walks Scope.lexicalParent start passed) :
    outer ∈ passed ↔ ∃ s, start = some s ∧ h.LiesAround outer s := by
  induction hw with
  | stop => simp
  | @pass s rest _ ih =>
    rw [List.mem_cons, ih]
    constructor
    · rintro (rfl | ⟨t, hnext, ht⟩)
      · exact ⟨_, rfl, .self⟩
      · refine ⟨s, rfl, ?_⟩
        -- In the text, a call is inside the function, and all else inside its parent.
        unfold Scope.lexicalParent at hnext
        split at hnext
        · next closure receiver hkind =>
          cases hnext
          exact .closure hkind ht
        · next hkind => exact .parent hkind hnext ht
    · rintro ⟨t, hst, hin⟩
      cases hst
      cases hin with
      | self => exact .inl rfl
      | closure hkind hin =>
        refine .inr ⟨_, ?_, hin⟩
        rw [Scope.lexicalParent, hkind]
      | parent =>
        unfold Scope.lexicalParent
        simp_all

theorem Ordered.mem_lexicalChain (ho : h.Ordered) :
    outer ∈ h.lexicalChain site ↔ h.LiesAround outer site := by
  rw [(ho.walks_lexicalChain site).mem_iff_liesAround]
  simp

theorem mem_lexicalClasses {d : ClassId} (ho : h.Ordered) : d ∈ h.lexicalClasses site ↔
    ∃ s, h.LiesAround s site ∧ (h.scopeAt s).kind = .classBody d ∧ h.held d = true := by
  unfold lexicalClasses
  rw [List.mem_filterMap]
  refine exists_congr fun s => and_congr ho.mem_lexicalChain ?_
  rw [Option.filter_eq_some_iff]
  refine and_congr_left' ?_
  cases (h.scopeAt s).kind <;> simp

theorem canAccess_iff (hl : h.Linked) (howned : h.Owned modules) (access : Access) :
    h.canAccess site access (some c) = true ↔ h.MayUse site c access := by
  have ho := hl.ordered howned
  cases access with
  | «public» | «internal» => exact ⟨fun _ => trivial, fun _ => rfl⟩
  | «private» => exact List.contains_iff_mem.trans ho.mem_lexicalChain
  | «protected» =>
    change (h.lexicalClasses site).any (fun d => h.inherits d c) = true ↔ _
    rw [List.any_eq_true]
    constructor
    · rintro ⟨d, hd, hinherits⟩
      obtain ⟨s, haround, hkind, hheld⟩ := (mem_lexicalClasses ho).mp hd
      exact ⟨s, d, haround, hkind, hheld, (inherits_iff howned).mp hinherits⟩
    · rintro ⟨s, d, haround, hkind, hheld, hdescends⟩
      exact ⟨d, (mem_lexicalClasses ho).mpr ⟨s, haround, hkind, hheld⟩,
        (inherits_iff howned).mpr hdescends⟩

end Heap

/-- What is checked for a member is where the code is written, whatever is being run. -/
theorem InSession.canAccess_iff {m₀ : Machine} (hm : InSession m₀) (hrun : m₀.Runs m)
    (site : ScopeId) (c : ClassId) (access : Access) :
    m.heap.canAccess site access (some c) = true ↔ m.heap.MayUse site c access :=
  have hsteady := hrun.steady hm.steady
  Heap.canAccess_iff hsteady.linked.heap hsteady.owned.heap access

end ClassScript
