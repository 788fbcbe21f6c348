import CallDiagram.Proofs.Codebase.Hierarchy
import CallDiagram.Proofs.Codebase.Sources
import CallDiagram.Proofs.Lookup.Once
import Mathlib.Data.List.Chain
import Mathlib.Data.List.Induction

namespace CallDiagram.Codebase

open Relation (ReflTransGen)

def HasBase (c : Codebase) (k b : ClassId) : Prop :=
  ∃ entry name, c.classes[k]? = some entry ∧ entry.base = some name
    ∧ c.classNamed? entry.unit name = some b

inductive EndsAt (c : Codebase) (chain : List ClassId) (last : ClassId) : Prop
  | noBase {entry} : c.classes[last]? = some entry → entry.base = none → EndsAt c chain last
  | unresolved {entry name} : c.classes[last]? = some entry → entry.base = some name →
      c.classNamed? entry.unit name = none → EndsAt c chain last
  | repeated {base} : c.HasBase last base → base ∈ chain → EndsAt c chain last

/-- A chain from `k` from base to base, in which no class comes twice. -/
structure IsChainFrom (c : Codebase) (k : ClassId) (chain : List ClassId) : Prop where
  head : chain.head? = some k
  nodup : chain.Nodup
  linked : chain.IsChain c.HasBase

structure IsClassChain (c : Codebase) (k : ClassId) (chain : List ClassId) : Prop
    extends IsChainFrom c k chain where
  ends : ∀ last ∈ chain.getLast?, c.EndsAt chain last

/-- One round: the base of the last class is put behind it, if it is new. -/
inductive Grows (c : Codebase) : List ClassId → List ClassId → Prop
  | base {before : List ClassId} {last base : ClassId} : c.HasBase last base → base ∉ before ++ [last] →
      Grows c (before ++ [last]) (before ++ [last] ++ [base])

variable {c : Codebase} {k b last : ClassId} {chain l before : List ClassId}

theorem declaredBase?_eq_some_iff : c.declaredBase? k = some b ↔ c.HasBase k b := by
  simp [declaredBase?, HasBase, Option.bind_eq_some_iff]

theorem HasBase.unique {d : ClassId} (h : c.HasBase k b) (hd : c.HasBase k d) : b = d :=
  Option.some.inj ((declaredBase?_eq_some_iff.2 h).symm.trans (declaredBase?_eq_some_iff.2 hd))

theorem HasBase.lt_size (h : c.HasBase k b) : k < c.classes.size :=
  let ⟨_, _, hentry, _⟩ := h
  (Array.getElem?_eq_some_iff.1 hentry).1

namespace EndsAt

theorem of_declaredBase? (hlast : last < c.classes.size) (h : c.declaredBase? last = none) :
    c.EndsAt chain last := by
  have hentry := Array.getElem?_eq_getElem hlast
  rw [declaredBase?, hentry, Option.bind_some] at h
  cases hbase : c.classes[last].base with
  | none => exact .noBase hentry hbase
  | some name =>
    rw [hbase] at h
    exact .unresolved hentry hbase h

theorem lt_size (h : c.EndsAt chain last) : last < c.classes.size := by
  cases h with
  | noBase hentry | unresolved hentry => exact (Array.getElem?_eq_some_iff.1 hentry).1
  | repeated hbase => exact hbase.lt_size

theorem mem_of_hasBase (h : c.EndsAt chain last) (hbase : c.HasBase last b) : b ∈ chain := by
  obtain ⟨entry, name, hentry, hname, hb⟩ := hbase
  cases h with
  | noBase hentry' hnone =>
    obtain rfl := Option.some.inj (hentry.symm.trans hentry')
    rw [hname] at hnone
    cases hnone
  | unresolved hentry' hname' hnone =>
    obtain rfl := Option.some.inj (hentry.symm.trans hentry')
    obtain rfl := Option.some.inj (hname.symm.trans hname')
    rw [hb] at hnone
    cases hnone
  | repeated hbase' hmem => exact (hbase'.unique ⟨entry, name, hentry, hname, hb⟩) ▸ hmem

end EndsAt

namespace IsChainFrom

theorem singleton (c : Codebase) (k : ClassId) : c.IsChainFrom k [k] :=
  ⟨rfl, List.nodup_singleton k, .singleton k⟩

theorem concat_iff : c.IsChainFrom k (before ++ [last] ++ [b]) ↔
    c.IsChainFrom k (before ++ [last]) ∧ c.HasBase last b ∧ b ∉ before ++ [last] := by
  have hhead : (before ++ [last] ++ [b]).head? = (before ++ [last]).head? := by simp
  have hlinked : (before ++ [last] ++ [b]).IsChain c.HasBase ↔
      (before ++ [last]).IsChain c.HasBase ∧ c.HasBase last b := by
    rw [List.append_assoc, List.singleton_append, List.isChain_append_cons_cons]
    simp
  have hnodup : (before ++ [last] ++ [b]).Nodup ↔ b ∉ before ++ [last] ∧ (before ++ [last]).Nodup := by
    rw [← List.concat_eq_append, List.nodup_concat]
  constructor
  · intro h
    obtain ⟨hbefore, hbase⟩ := hlinked.1 h.linked
    obtain ⟨hnew, hold⟩ := hnodup.1 h.nodup
    exact ⟨⟨hhead ▸ h.head, hold, hbefore⟩, hbase, hnew⟩
  · rintro ⟨h, hbase, hnew⟩
    exact ⟨hhead.trans h.head, hnodup.2 ⟨hnew, h.nodup⟩, hlinked.2 ⟨h.linked, hbase⟩⟩

theorem reflTransGen (h : c.IsChainFrom k chain) : ReflTransGen c.Grows [k] chain := by
  induction chain using List.reverseRecOn with
  | nil => cases h.head
  | append_singleton l b ih =>
    obtain rfl | ⟨before, last, rfl⟩ := List.eq_nil_or_concat' l
    · obtain rfl : b = k := Option.some.inj h.head
      exact .refl
    · obtain ⟨hbefore, hbase, hnew⟩ := concat_iff.1 h
      exact (ih hbefore).tail (.base hbase hnew)

theorem of_prefix (h : c.IsChainFrom k chain) (hne : l ≠ []) (hl : l <+: chain) :
    c.IsChainFrom k l := by
  obtain ⟨rest, rfl⟩ := hl
  refine ⟨?_, h.nodup.of_append_left, h.linked.left_of_append⟩
  rw [← h.head, List.head?_append_of_ne_nil l hne]

end IsChainFrom

namespace IsClassChain

theorem prefix_concat (h : c.IsClassChain k chain) (hpart : before ++ [last] <+: chain)
    (hbase : c.HasBase last b) (hnew : b ∉ before ++ [last]) : before ++ [last] ++ [b] <+: chain := by
  obtain ⟨rest, rfl⟩ := hpart
  cases rest with
  | nil =>
    rw [List.append_nil] at h ⊢
    exact absurd ((h.ends last (by simp)).mem_of_hasBase hbase) hnew
  | cons d rest =>
    have hpart : before ++ [last] ++ [d] <+: before ++ [last] ++ d :: rest :=
      ⟨rest, List.append_assoc _ [d] rest⟩
    obtain ⟨-, hlink, -⟩ := IsChainFrom.concat_iff.1 (h.of_prefix (by simp) hpart)
    rwa [hbase.unique hlink]

theorem reflTransGen_iff (h : c.IsClassChain k chain) :
    ReflTransGen c.Grows [k] l ↔ l ≠ [] ∧ l <+: chain := by
  constructor
  · intro hl
    induction hl with
    | refl =>
      obtain ⟨rest, rfl⟩ := List.head?_eq_some_iff.1 h.head
      exact ⟨by simp, List.prefix_append [k] rest⟩
    | tail _ hstep ih =>
      cases hstep with
      | base hbase hnew => exact ⟨by simp, h.prefix_concat ih.2 hbase hnew⟩
  · rintro ⟨hne, hl⟩
    exact (h.of_prefix hne hl).reflTransGen

theorem unique {chain' : List ClassId} (h : c.IsClassChain k chain) (h' : c.IsClassChain k chain') :
    chain = chain' := by
  have hle : chain <+: chain' := (h'.reflTransGen_iff.1 h.reflTransGen).2
  have hge : chain' <+: chain := (h.reflTransGen_iff.1 h'.reflTransGen).2
  exact hle.eq_of_length_le hge.length_le

theorem lt_size (h : c.IsClassChain k chain) (hb : b ∈ chain) : b < c.classes.size := by
  obtain ⟨before, after, rfl⟩ := List.append_of_mem hb
  cases after with
  | nil => exact (h.ends b (by simp)).lt_size
  | cons d after => exact (List.isChain_append_cons_cons.1 h.linked).2.1.lt_size

theorem length_le (h : c.IsClassChain k chain) : chain.length ≤ c.classes.size := by
  have hsubset : chain ⊆ List.range c.classes.size := fun b hb => List.mem_range.2 (h.lt_size hb)
  simpa using (h.nodup.subperm hsubset).length_le

end IsClassChain

theorem WellFormed.lt_size_of_hasBase (hc : c.WellFormed) (h : c.HasBase k b) : b < c.classes.size := by
  obtain ⟨entry, name, -, -, hnamed⟩ := h
  obtain ⟨s, hs, hcls⟩ := List.exists_of_findSome?_eq_some hnamed
  cases s with
  | cls d =>
    obtain rfl := Option.some.inj hcls
    obtain ⟨u, table, n, htable, hname⟩ := (derivable_of_mem_lookup hs).exists_cls
    obtain ⟨_, hentry, -⟩ := hc.classNames htable hname
    exact (Array.getElem?_eq_some_iff.1 hentry).1
  | function | «variable» | module | other => cases hcls

theorem WellFormed.isClassChain_chainFrom (hc : c.WellFormed) (hlast : last < c.classes.size)
    (h : c.IsChainFrom k (before ++ [last])) :
    c.IsClassChain k (c.chainFrom (before ++ [last]) last) := by
  have hends {l : List ClassId} {d : ClassId} (hd : c.EndsAt (l ++ [d]) d) :
      ∀ x ∈ (l ++ [d]).getLast?, c.EndsAt (l ++ [d]) x := by simpa using hd
  generalize hchain : before ++ [last] = chain at h
  fun_induction chainFrom c chain last generalizing before with
  | case1 chain last hnone =>
    subst hchain
    exact ⟨h, hends (.of_declaredBase? hlast hnone)⟩
  | case2 chain last b hsome hnew ih =>
    subst hchain
    have hbase := declaredBase?_eq_some_iff.1 hsome
    exact ih hnew.1 rfl (IsChainFrom.concat_iff.2 ⟨h, hbase, hnew.2⟩)
  | case3 chain last b hsome hold =>
    subst hchain
    have hbase := declaredBase?_eq_some_iff.1 hsome
    have hmem : b ∈ before ++ [last] :=
      not_not.1 fun hb => hold ⟨hc.lt_size_of_hasBase hbase, hb⟩
    exact ⟨h, hends (.repeated hbase hmem)⟩

theorem exists_named_eq_lookup (c : Codebase) (u : UnitId) (n : String) :
    ∃ later, c.named (c.exportedWithin c.searchLimit) u n [] = some (c.lookup u n, later) := by
  obtain ⟨found, later, hfollow⟩ := c.ends_follow (c.nameLead u n)
  rw [← named_eq] at hfollow
  refine ⟨later, ?_⟩
  rw [lookup, answer, hfollow]

/-- The chain of a class goes from base to base as far as that leads to new classes, and is the only one
that does. It is made in fewer rounds than there are classes, and the lookups in them end too. -/
theorem classChain_maximal (hc : c.WellFormed) (hk : k < c.classes.size) :
    c.IsClassChain k (c.classChain k)
      ∧ (∀ chain, c.IsClassChain k chain → chain = c.classChain k)
      ∧ (c.classChain k).length ≤ c.classes.size
      ∧ (∀ l, ReflTransGen c.Grows [k] l ↔ l ≠ [] ∧ l <+: c.classChain k)
      ∧ ∀ u n, ∃ later, c.named (c.exportedWithin c.searchLimit) u n [] = some (c.lookup u n, later) := by
  have hsingle : c.IsChainFrom k ([] ++ [k]) := .singleton c k
  have h : c.IsClassChain k (c.classChain k) := hc.isClassChain_chainFrom hk hsingle
  exact ⟨h, fun _ hchain => hchain.unique h, h.length_le, fun _ => h.reflTransGen_iff,
    c.exists_named_eq_lookup⟩

def roundabout : Codebase :=
  let main : Outline :=
    { classes := [
        { name := some "A", line := 2, base := some "B" },
        { name := some "Self", line := 3, base := some "Self" },
        { name := some "Leaf", line := 4, base := some "A" },
        { name := some "Lost", line := 5, base := some "Unknown" }]
      imports := [⟨"B", "./barrel", .named "B"⟩]
      exports := [.local "A" "A"] }
  let barrel : Outline := { exports := [.all "./b", .named "Root" "A" "./main"] }
  let b : Outline :=
    { classes := [{ name := some "B", line := 2, base := some "Root" }]
      imports := [⟨"Root", "./barrel", .named "Root"⟩]
      exports := [.local "B" "B"] }
  let paths := [("./barrel", ⟨"/barrel.ts"⟩), ("./b", ⟨"/b.ts"⟩), ("./main", ⟨"/main.ts"⟩)]
  ofSources (fun _ source => paths.lookup source)
    (fun _ o => o.imports.map ImportBinding.source ++ o.exports.filterMap ExportEntry.source?)
    [⟨"/main.ts"⟩] [(⟨"/main.ts"⟩, main), (⟨"/barrel.ts"⟩, barrel), (⟨"/b.ts"⟩, b)]

theorem roundabout_chains :
    roundabout.WellFormed
      ∧ roundabout.IsClassChain 2 [2, 0, 4] ∧ roundabout.HasBase 4 0
      ∧ roundabout.IsClassChain 1 [1] ∧ roundabout.HasBase 1 1
      ∧ roundabout.IsClassChain 3 [3] := by
  have hwf : roundabout.WellFormed := wellFormed_ofSources _ _ _ (by decide +kernel)
  have hsize : roundabout.classes.size = 5 := by decide +kernel
  have hleaf : roundabout.declaredBase? 2 = some 0 := by decide +kernel
  have ha : roundabout.declaredBase? 0 = some 4 := by decide +kernel
  have hb : roundabout.declaredBase? 4 = some 0 := by decide +kernel
  have hself : roundabout.declaredBase? 1 = some 1 := by decide +kernel
  have hlost : roundabout.declaredBase? 3 = none := by decide +kernel
  have hleafChain : roundabout.classChain 2 = [2, 0, 4] := by
    simp [classChain, chainFrom_of_some hleaf, chainFrom_of_some ha, chainFrom_of_some hb, hsize]
  have hselfChain : roundabout.classChain 1 = [1] := by
    simp [classChain, chainFrom_of_some hself]
  have hlostChain : roundabout.classChain 3 = [3] := chainFrom_of_none hlost
  have hchain : ∀ k < 5, roundabout.IsClassChain k (roundabout.classChain k) := fun k hk =>
    (classChain_maximal hwf (hsize ▸ hk)).1
  exact ⟨hwf, hleafChain ▸ hchain 2 (by decide), declaredBase?_eq_some_iff.1 hb,
    hselfChain ▸ hchain 1 (by decide), declaredBase?_eq_some_iff.1 hself,
    hlostChain ▸ hchain 3 (by decide)⟩

end CallDiagram.Codebase
