import CallDiagram.Proofs.Call.FirstSeen

namespace CallDiagram.Resolver

def Calls (r : Resolver) (caller : DeclarationId) (site : CallSite) (callee : DeclarationId) : Prop :=
  site.callee.lookupName?.isSome ∧ r.definitions caller site = [.callable callee]

instance (r : Resolver) (caller : DeclarationId) (site : CallSite) (callee : DeclarationId) :
    Decidable (r.Calls caller site callee) :=
  inferInstanceAs (Decidable (_ ∧ _))

def placeOf (r : Resolver) (caller : DeclarationId) (sites : List CallSite) (callee : DeclarationId) :
    Nat :=
  sites.findIdx fun site => decide (r.Calls caller site callee)

/-- The resolver where `caller` has other calls in its body, and all calls refer to what they did. -/
def withCalls (r : Resolver) (caller : DeclarationId) (sites : List CallSite) : Resolver :=
  { r with declarations := r.declarations.modify caller fun x => { x with callSites := sites } }

variable {r : Resolver} {caller d e : DeclarationId} {site : CallSite} {sites : List CallSite}
  {declaration : Declaration}

theorem target?_eq_some_iff :
    r.target? caller site = some d ↔
      site.callee.lookupName?.isSome ∧ r.definitions caller site = [.callable d] := by
  rw [target?]
  cases site.callee.lookupName? with
  | none => simp
  | some name =>
    dsimp only
    split
    · next target heq => simp [heq]
    · next hne => simpa using hne d

theorem directCallees_eq (h : r.declarations[caller]? = some declaration) :
    r.directCallees caller = firstSeen [] (declaration.callSites.filterMap (r.target? caller)) := by
  rw [directCallees, h]
  exact appendNew_eq [] _

theorem mem_directCallees_iff (h : r.declarations[caller]? = some declaration) :
    d ∈ r.directCallees caller ↔ ∃ site ∈ declaration.callSites, r.target? caller site = some d := by
  rw [directCallees_eq h]
  simp only [mem_firstSeen, List.mem_filterMap, List.not_mem_nil, not_false_eq_true, and_true]

theorem placeOf_cons_of_calls (h : r.Calls caller site d) :
    r.placeOf caller (site :: sites) d = 0 := by
  simp [placeOf, List.findIdx_cons, h]

theorem placeOf_cons_of_not_calls (h : ¬ r.Calls caller site d) :
    r.placeOf caller (site :: sites) d = r.placeOf caller sites d + 1 := by
  simp [placeOf, List.findIdx_cons, h]

theorem pairwise_placeOf_cons {callees : List DeclarationId}
    (h : callees.Pairwise fun d e => r.placeOf caller sites d < r.placeOf caller sites e)
    (hnot : ∀ d ∈ callees, ¬ r.Calls caller site d) :
    callees.Pairwise fun d e =>
      r.placeOf caller (site :: sites) d < r.placeOf caller (site :: sites) e := by
  refine h.imp_of_mem fun hd he hlt => ?_
  rw [placeOf_cons_of_not_calls (hnot _ hd), placeOf_cons_of_not_calls (hnot _ he)]
  exact Nat.succ_lt_succ hlt

theorem pairwise_placeOf (seen : List DeclarationId) (sites : List CallSite) :
    (firstSeen seen (sites.filterMap (r.target? caller))).Pairwise
      fun d e => r.placeOf caller sites d < r.placeOf caller sites e := by
  induction sites generalizing seen with
  | nil => exact .nil
  | cons site sites ih =>
    cases htarget : r.target? caller site with
    | none =>
      rw [List.filterMap_cons_none htarget]
      refine pairwise_placeOf_cons (ih seen) fun d _ hcalls => ?_
      rw [target?_eq_some_iff.2 hcalls] at htarget
      cases htarget
    | some target =>
      have hcalls : ∀ {d}, r.Calls caller site d ↔ target = d := fun {d} => by
        rw [Calls, ← target?_eq_some_iff, htarget, Option.some.injEq]
      rw [List.filterMap_cons_some htarget]
      by_cases hseen : target ∈ seen
      · rw [firstSeen_cons_of_mem hseen]
        refine pairwise_placeOf_cons (ih seen) fun d hd h => ?_
        obtain rfl := hcalls.1 h
        exact (mem_firstSeen.1 hd).2 hseen
      · rw [firstSeen_cons_of_not_mem hseen]
        have hnot : ∀ d ∈ firstSeen (seen ++ [target]) (sites.filterMap (r.target? caller)),
            ¬ r.Calls caller site d := by
          intro d hd h
          obtain rfl := hcalls.1 h
          exact (mem_firstSeen.1 hd).2 (List.mem_append_right seen (List.mem_singleton_self _))
        refine .cons (fun d hd => ?_) (pairwise_placeOf_cons (ih _) hnot)
        rw [placeOf_cons_of_calls (hcalls.2 rfl), placeOf_cons_of_not_calls (hnot d hd)]
        exact Nat.succ_pos _

theorem getElem?_withCalls (h : r.declarations[caller]? = some declaration) :
    (r.withCalls caller sites).declarations[caller]? = some { declaration with callSites := sites } := by
  simp [withCalls, Array.getElem?_modify, h]

theorem directCallees_withCalls (h : r.declarations[caller]? = some declaration)
    {keep : CallSite → Bool}
    (hkeep : ∀ site ∈ declaration.callSites, ∀ d, r.Calls caller site d → keep site = true) :
    (r.withCalls caller (declaration.callSites.filter keep)).directCallees caller
      = r.directCallees caller := by
  have htarget : (r.withCalls caller (declaration.callSites.filter keep)).target? caller
      = r.target? caller := rfl
  rw [directCallees_eq (getElem?_withCalls h), directCallees_eq h, htarget, List.filterMap_filter]
  congr 1
  refine List.filterMap_congr fun site hsite => ?_
  cases hk : keep site with
  | true => rfl
  | false =>
    rw [if_neg Bool.false_ne_true, eq_comm, Option.eq_none_iff_forall_ne_some]
    intro d hd
    rw [hkeep site hsite d (target?_eq_some_iff.1 hd)] at hk
    cases hk

/-- A declaration has each of its callees once, in the order of the first calls that refer to them alone,
and whatever other calls there are makes no difference. -/
theorem directCallees_inOrder (h : r.declarations[caller]? = some declaration) :
    (r.directCallees caller).Nodup
      ∧ (∀ d, d ∈ r.directCallees caller ↔ ∃ site ∈ declaration.callSites, r.Calls caller site d)
      ∧ ((r.directCallees caller).Pairwise fun d e =>
          r.placeOf caller declaration.callSites d < r.placeOf caller declaration.callSites e)
      ∧ ∀ keep : CallSite → Bool,
          (∀ site ∈ declaration.callSites, ∀ d, r.Calls caller site d → keep site = true) →
          (r.withCalls caller (declaration.callSites.filter keep)).directCallees caller
            = r.directCallees caller := by
  refine ⟨nodup_directCallees r caller, fun d => ?_, ?_, fun keep => directCallees_withCalls h⟩
  · simp only [mem_directCallees_iff h, target?_eq_some_iff, Calls]
  · rw [directCallees_eq h]
    exact pairwise_placeOf [] _

def mixedCalls : List CallSite :=
  [⟨.other, 1⟩, ⟨.name "missing", 2⟩, ⟨.name "both", 3⟩, ⟨.member (.ident "x") "run", 4⟩,
    ⟨.name "Widget", 5⟩, ⟨.name "stop", 6⟩, ⟨.member .this "run", 7⟩]

def mixed : Resolver where
  declarations := #[
    { id := 0, name := some "main", container := none, kind := .function, unit := 0, line := 1,
      callSites := mixedCalls },
    { id := 1, name := some "stop", container := none, kind := .function, unit := 0, line := 8,
      callSites := [] },
    { id := 2, name := some "run", container := some "C", kind := .method, unit := 0, line := 9,
      callSites := [] }]
  units := #[⟨0, ⟨"/p/app.ts"⟩, false⟩]
  definitions
    | _, ⟨.name "both", _⟩ => [.callable 1, .callable 2]
    | _, ⟨.name "Widget", _⟩ => [.other .cls]
    | _, ⟨.name "stop", _⟩ => [.callable 1]
    | _, ⟨.member _ "run", _⟩ => [.callable 2]
    | _, _ => []

example : mixed.directCallees 0 = [2, 1] := by decide

theorem mixed_inOrder :
    (∃ x, mixed.declarations[0]? = some x ∧ x.callSites = mixedCalls)
      ∧ (mixed.directCallees 0).Nodup ∧ 1 ∈ mixed.directCallees 0 ∧ 2 ∈ mixed.directCallees 0
      ∧ ((mixed.directCallees 0).Pairwise fun d e =>
          mixed.placeOf 0 mixedCalls d < mixed.placeOf 0 mixedCalls e)
      ∧ (mixed.withCalls 0 (mixedCalls.filter fun site => 3 < site.line ∧ site.line ≠ 5)).directCallees 0
        = mixed.directCallees 0 := by
  obtain ⟨x, hx, hcalls⟩ : ∃ x, mixed.declarations[0]? = some x ∧ x.callSites = mixedCalls :=
    ⟨_, rfl, rfl⟩
  obtain ⟨hnodup, hmem, horder, hkept⟩ := directCallees_inOrder hx
  simp only [hcalls] at hmem horder hkept
  -- The calls of the lines 4, 6 and 7 are those that count.
  have hcount : ∀ site ∈ mixedCalls, ∀ d, mixed.Calls 0 site d → 3 < site.line ∧ site.line ≠ 5 := by
    have hnone : ∀ site ∈ mixedCalls, (3 < site.line ∧ site.line ≠ 5) ∨ mixed.target? 0 site = none := by
      decide
    intro site hsite d hd
    refine (hnone site hsite).resolve_right fun h => ?_
    rw [target?_eq_some_iff.2 hd] at h
    cases h
  exact ⟨⟨x, hx, hcalls⟩, hnodup, (hmem 1).2 (by decide), (hmem 2).2 (by decide), horder,
    hkept _ fun site hsite d hd => decide_eq_true (hcount site hsite d hd)⟩

end CallDiagram.Resolver
