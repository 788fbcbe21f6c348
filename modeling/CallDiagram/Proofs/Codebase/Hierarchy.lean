import CallDiagram.Codebase.Member

namespace CallDiagram.Codebase

variable {c : Codebase} {chain l : List ClassId} {k b last base : ClassId}

theorem chainFrom_of_none (h : c.declaredBase? last = none) : c.chainFrom chain last = chain := by
  rw [chainFrom, h]

theorem chainFrom_of_some (h : c.declaredBase? last = some base) :
    c.chainFrom chain last =
      if base < c.classes.size ∧ base ∉ chain then c.chainFrom (chain ++ [base]) base else chain := by
  rw [chainFrom, h]

theorem prefix_chainFrom (c : Codebase) (chain : List ClassId) (last : ClassId) :
    chain <+: c.chainFrom chain last := by
  fun_induction chainFrom c chain last with
  | case1 => exact List.prefix_refl _
  | case2 chain last d _ _ ih => exact (List.prefix_append chain [d]).trans ih
  | case3 => exact List.prefix_refl _

theorem classChain_of_declaredBase (h : c.declaredBase? k = some b) (hb : b < c.classes.size)
    (hne : b ≠ k) : ∃ rest, c.classChain k = k :: b :: rest := by
  rw [classChain, chainFrom_of_some h, if_pos ⟨hb, by simpa using hne⟩]
  obtain ⟨rest, hrest⟩ := prefix_chainFrom c ([k] ++ [b]) b
  exact ⟨rest, hrest.symm⟩

theorem base?_eq_some_iff :
    c.base? k = some b ↔ c.declaredBase? k = some b ∧ b < c.classes.size ∧ b ≠ k := by
  cases hbase : c.declaredBase? k with
  | none => simp [base?, classChain, chainFrom_of_none hbase]
  | some d =>
    rw [Option.some.injEq]
    by_cases hnew : d < c.classes.size ∧ d ∉ [k]
    · have hne : d ≠ k := by simpa using hnew.2
      obtain ⟨rest, hchain⟩ := classChain_of_declaredBase hbase hnew.1 hne
      have hd : c.base? k = some d := by rw [base?, hchain]; rfl
      rw [hd, Option.some.injEq]
      constructor
      · rintro rfl
        exact ⟨rfl, hnew.1, hne⟩
      · exact And.left
    · have hchain : c.classChain k = [k] := by rw [classChain, chainFrom_of_some hbase, if_neg hnew]
      have hnone : c.base? k = none := by rw [base?, hchain]; rfl
      rw [hnone]
      constructor
      · intro h
        cases h
      · rintro ⟨rfl, hsize, hne⟩
        exact absurd ⟨hsize, by simpa using hne⟩ hnew

theorem classChain_of_base_none (h : c.base? k = none) : c.classChain k = [k] := by
  cases hbase : c.declaredBase? k with
  | none => rw [classChain, chainFrom_of_none hbase]
  | some b =>
    rw [classChain, chainFrom_of_some hbase, if_neg]
    rintro ⟨hsize, hne⟩
    rw [base?_eq_some_iff.2 ⟨hbase, hsize, by simpa using hne⟩] at h
    cases h

/-- A chain goes on in the same way if a class is put in front of it, up to where it comes to this class. -/
theorem chainFrom_cons (hbase : c.declaredBase? k = some b) (hb : b ∈ l) (hk : k ∉ l) :
    ∃ rest, c.chainFrom (k :: l) last = k :: rest
      ∧ (c.chainFrom l last = rest ∨ c.chainFrom l last = rest ++ [k]) := by
  fun_induction chainFrom c l last with
  | case1 l last hnone => exact ⟨l, chainFrom_of_none hnone, .inl rfl⟩
  | case2 l last d hsome hnew ih =>
    rw [chainFrom_of_some hsome]
    by_cases hd : d = k
    · -- The chain without the class takes it in, and has then come round to its base.
      subst hd
      have hend : c.chainFrom (l ++ [d]) d = l ++ [d] := by
        rw [chainFrom_of_some hbase, if_neg fun h => h.2 (List.mem_append_left _ hb)]
      exact ⟨l, if_neg fun h => h.2 List.mem_cons_self, .inr hend⟩
    · rw [if_pos ⟨hnew.1, by simpa [hd] using hnew.2⟩]
      exact ih (List.mem_append_left _ hb) (by simpa [Ne.symm hd] using hk)
  | case3 l last d hsome hold =>
    rw [chainFrom_of_some hsome, if_neg fun h => hold ⟨h.1, fun hd => h.2 (List.mem_cons_of_mem k hd)⟩]
    exact ⟨l, rfl, .inl rfl⟩

theorem classChain_of_base (h : c.base? k = some b) :
    ∃ rest, c.classChain k = k :: rest ∧ (c.classChain b = rest ∨ c.classChain b = rest ++ [k]) := by
  obtain ⟨hbase, hsize, hne⟩ := base?_eq_some_iff.1 h
  have hstep : c.classChain k = c.chainFrom [k, b] b := by
    rw [classChain, chainFrom_of_some hbase, if_pos ⟨hsize, by simpa using hne⟩]
    rfl
  rw [hstep]
  exact chainFrom_cons hbase (List.mem_singleton_self b) (by simpa using hne.symm)

theorem classChain_base_subset (h : c.base? k = some b) : c.classChain b ⊆ c.classChain k := by
  obtain ⟨rest, hchain, hb⟩ := classChain_of_base h
  rw [hchain]
  rcases hb with hb | hb
  · rw [hb]
    exact List.subset_cons_self k rest
  · rw [hb]
    simp

theorem findSome?_classChain {α : Type} (find : ClassId → Option α) :
    (c.classChain k).findSome? find =
      (find k).or ((c.base? k).bind fun b => (c.classChain b).findSome? find) := by
  cases hbase : c.base? k with
  | none =>
    rw [classChain_of_base_none hbase, List.findSome?_singleton, Option.bind_none, Option.or_none]
  | some b =>
    obtain ⟨rest, hchain, hb⟩ := classChain_of_base hbase
    rw [hchain, List.findSome?_cons, Option.bind_some]
    cases hfind : find k with
    | some a => rfl
    | none =>
      rcases hb with hb | hb
      · rw [hb]
        rfl
      · rw [hb, List.findSome?_append, List.findSome?_singleton, hfind, Option.or_none]
        rfl

theorem map_definition_methodOf (c : Codebase) (cls : Option ClassId) (name : String)
    (isStatic : Bool) :
    (c.methodOf cls name isStatic).map Symbol.definition =
      ((cls.bind fun k => c.method? k name isStatic).map Definition.callable).toList := by
  rw [methodOf]
  cases cls.bind fun k => c.method? k name isStatic with
  | none => rfl
  | some i => rfl

def declaredMethod? (c : Codebase) (cls : ClassId) (name : String) (isStatic : Bool) :
    Option DeclarationId :=
  c.classes[cls]?.bind fun entry => entry.methods.get? (name, isStatic)

theorem method?_eq_or (c : Codebase) (k : ClassId) (name : String) (isStatic : Bool) :
    c.method? k name isStatic =
      (c.declaredMethod? k name isStatic).or ((c.base? k).bind fun b => c.method? b name isStatic) :=
  findSome?_classChain fun k => c.declaredMethod? k name isStatic

/-- The method of a class is the one that it declares, or else the method of its base, whatever cycle the
two may be on. So where a class declares none, a call by `super` refers to what a call by `this` does. -/
theorem method?_unfolds (c : Codebase) (k : ClassId) (name : String) (isStatic : Bool) :
    c.method? k name isStatic =
        (c.declaredMethod? k name isStatic).or ((c.base? k).bind fun b => c.method? b name isStatic)
      ∧ ∀ caller scope, c.scopes[caller]? = some scope → scope.cls = some k → scope.isStatic = isStatic →
          c.declaredMethod? k name isStatic = none → ∀ line line',
            c.definitions caller ⟨.member .super name, line⟩ =
              c.definitions caller ⟨.member .this name, line'⟩ := by
  refine ⟨c.method?_eq_or k name isStatic, ?_⟩
  intro caller scope hs hcls hside hown line line'
  have hmethods : c.methodOf (c.base? k) name isStatic = c.methodOf (some k) name isStatic := by
    rw [methodOf, methodOf, Option.bind_some, c.method?_eq_or k, hown, Option.none_or]
  rw [definitions, definitions, hs]
  cases c.declarations[caller]? with
  | none => rfl
  | some declaration =>
    simp only [calleeDefinitions, memberSymbols, hcls, hside, Option.bind_some, hmethods]

def circle : Codebase :=
  let go : MethodOutline := ⟨"go", false, 1, { callSites := [⟨.member .super "m", 1⟩] }⟩
  ({} : Codebase).addFile ⟨"/main.ts"⟩ false
    { classes := [
        { name := some "A", line := 1, base := some "B", methods := [go] },
        { name := some "B", line := 2, base := some "C" },
        { name := some "C", line := 3, base := some "A", methods := [⟨"m", false, 3, {}⟩] }] }

theorem circle_unfolds :
    ∃ scope, circle.scopes[0]? = some scope ∧ scope.cls = some 0 ∧ scope.isStatic = false
      ∧ circle.declaredMethod? 0 "m" false = none
      ∧ circle.base? 0 = some 1 ∧ circle.base? 1 = some 2 ∧ circle.base? 2 = some 0
      ∧ circle.method? 0 "m" false = some 1
      ∧ circle.definitions 0 ⟨.member .super "m", 1⟩ = circle.definitions 0 ⟨.member .this "m", 1⟩ := by
  have hbase : ∀ {k b : ClassId}, circle.declaredBase? k = some b → b < circle.classes.size → b ≠ k →
      circle.base? k = some b := fun h hsize hne => base?_eq_some_iff.2 ⟨h, hsize, hne⟩
  have h₀ : circle.base? 0 = some 1 := hbase (by decide +kernel) (by decide) (by decide)
  have h₁ : circle.base? 1 = some 2 := hbase (by decide +kernel) (by decide) (by decide)
  have h₂ : circle.base? 2 = some 0 := hbase (by decide +kernel) (by decide) (by decide)
  obtain ⟨scope, hs, hcls, hside⟩ : ∃ s, circle.scopes[0]? = some s ∧ s.cls = some 0
      ∧ s.isStatic = false := ⟨_, rfl, rfl, rfl⟩
  have hown : circle.declaredMethod? 0 "m" false = none := by decide
  have hmethod : circle.method? 0 "m" false = some 1 := by
    rw [(method?_unfolds circle 0 "m" false).1, hown, h₀, Option.none_or, Option.bind_some,
      (method?_unfolds circle 1 "m" false).1, h₁, Option.bind_some,
      (method?_unfolds circle 2 "m" false).1]
    decide
  exact ⟨scope, hs, hcls, hside, hown, h₀, h₁, h₂, hmethod,
    (method?_unfolds circle 0 "m" false).2 0 scope hs hcls hside hown 1 1⟩

end CallDiagram.Codebase
