import CallDiagram.Outline.Script
import CallDiagram.Proofs.Source.Preorder
import Mathlib.Data.List.Forall2

namespace CallDiagram

section ByLine

variable {calls sites others : List CallSite}

/-- The calls in the order of their lines, where those of one line stay in their order. -/
structure IsStableSort (calls sites : List CallSite) : Prop where
  sorted : sites.Pairwise fun a b => a.line ≤ b.line
  stable : ∀ line, sites.filter (·.line = line) = calls.filter (·.line = line)

theorem mem_of_filter_line (h : ∀ line, sites.filter (·.line = line) = others.filter (·.line = line))
    {site : CallSite} (hsite : site ∈ sites) : site ∈ others := by
  have hmem : site ∈ sites.filter (·.line = site.line) := List.mem_filter.2 ⟨hsite, by simp⟩
  rw [h] at hmem
  exact (List.mem_filter.1 hmem).1

theorem eq_of_filter_line (hsites : sites.Pairwise fun a b => a.line ≤ b.line)
    (hothers : others.Pairwise fun a b => a.line ≤ b.line)
    (h : ∀ line, sites.filter (·.line = line) = others.filter (·.line = line)) : sites = others := by
  induction sites generalizing others with
  | nil => exact (List.eq_nil_iff_forall_not_mem.2 fun b hb =>
      List.not_mem_nil (mem_of_filter_line (fun line => (h line).symm) hb)).symm
  | cons a sites ih =>
    have ha := mem_of_filter_line h List.mem_cons_self
    cases others with
    | nil => cases ha
    | cons b others =>
      have hb := mem_of_filter_line (fun line => (h line).symm) List.mem_cons_self
      obtain ⟨hafter, hlaterSites⟩ := List.pairwise_cons.1 hsites
      obtain ⟨hbehind, hlaterOthers⟩ := List.pairwise_cons.1 hothers
      have hline : a.line = b.line := by
        refine Nat.le_antisymm ?_ ?_
        · rcases List.mem_cons.1 hb with rfl | hb
          · exact Nat.le_refl _
          · exact hafter b hb
        · rcases List.mem_cons.1 ha with rfl | ha
          · exact Nat.le_refl _
          · exact hbehind a ha
      -- both come first on their line
      have hfirst := h a.line
      rw [List.filter_cons_of_pos (by simp), List.filter_cons_of_pos (by simp [hline])] at hfirst
      obtain ⟨rfl, -⟩ := List.cons.inj hfirst
      refine congrArg (a :: ·) (ih hlaterSites hlaterOthers fun line => ?_)
      have hrest := h line
      by_cases hat : a.line = line
      · rw [List.filter_cons_of_pos (by simp [hat]), List.filter_cons_of_pos (by simp [hat])] at hrest
        exact List.cons_inj_right a |>.1 hrest
      · rwa [List.filter_cons_of_neg (by simp [hat]), List.filter_cons_of_neg (by simp [hat])] at hrest

theorem IsStableSort.unique (h : IsStableSort calls sites) (hothers : IsStableSort calls others) :
    sites = others :=
  eq_of_filter_line h.sorted hothers.sorted fun line => (h.stable line).trans (hothers.stable line).symm

theorem isStableSort_sortByLine (calls : List CallSite) :
    IsStableSort calls (Outline.sortByLine calls) := by
  have htrans : ∀ a b c : CallSite, decide (a.line ≤ b.line) → decide (b.line ≤ c.line) →
      decide (a.line ≤ c.line) := fun a b c hab hbc =>
    decide_eq_true (Nat.le_trans (of_decide_eq_true hab) (of_decide_eq_true hbc))
  have htotal : ∀ a b : CallSite, decide (a.line ≤ b.line) || decide (b.line ≤ a.line) := fun a b => by
    simpa using Nat.le_total a.line b.line
  constructor
  case sorted => exact (List.pairwise_mergeSort htrans htotal calls).imp of_decide_eq_true
  case stable =>
    intro line
    have hline : ∀ site ∈ calls.filter (·.line = line), site.line = line := fun site hsite => by
      simpa using (List.mem_filter.1 hsite).2
    -- the calls of one line are sorted as they are, so sorting all calls leaves them in their order
    have hsub : (calls.filter (·.line = line)).Sublist (Outline.sortByLine calls) := by
      refine List.sublist_mergeSort htrans htotal ?_ List.filter_sublist
      refine List.pairwise_of_forall_mem_list fun a ha b hb => ?_
      rw [hline a ha, hline b hb]
      exact decide_eq_true (Nat.le_refl _)
    have hsame := hsub.filter (·.line = line)
    rw [List.filter_filter, List.filter_congr (q := (·.line = line)) (by simp)] at hsame
    exact (hsame.eq_of_length ((List.mergeSort_perm calls _).filter _).length_eq.symm).symm

end ByLine

/-- A call at a place in the body of a function, as it is recorded. -/
def Function.HasCall (f : Function) (way : List Nat) (site : CallSite) : Prop :=
  ∃ body function parts, f.body = some body
    ∧ body.at? way = some (.call (some function) false parts site.line) ∧ site.callee = function.callee

namespace Outline

theorem callSite?_eq_some_iff {n : Node} {site : CallSite} :
    n.callSite? = some site ↔
      ∃ function parts, n = .call (some function) false parts site.line ∧ site.callee = function.callee := by
  constructor
  · intro h
    cases n with
    | call function isTemplate parts line =>
      cases isTemplate with
      | true => cases h
      | false =>
        cases function with
        | none => cases h
        | some function =>
          obtain rfl := Option.some.inj h
          exact ⟨function, parts, rfl, rfl⟩
    | _ => cases h
  · rintro ⟨function, parts, rfl, hcallee⟩
    obtain ⟨callee, line⟩ := site
    obtain rfl : callee = function.callee := hcallee
    rfl

theorem forall₂_filterMap {α β : Type} (g : α → Option β) (l : List α) :
    List.Forall₂ (fun a b => g a = some b) (l.filter fun a => (g a).isSome) (l.filterMap g) := by
  induction l with
  | nil => exact .nil
  | cons a l ih =>
    cases h : g a with
    | none => rwa [List.filter_cons_of_neg (by simp [h]), List.filterMap_cons_none h]
    | some b =>
      rw [List.filter_cons_of_pos (by simp [h]), List.filterMap_cons_some h]
      exact .cons h ih

theorem hasCall_iff {f : Function} {body : Node} (hbody : f.body = some body) {way : List Nat}
    {site : CallSite} : f.HasCall way site ↔ (body.at? way).bind Node.callSite? = some site := by
  rw [Option.bind_eq_some_iff]
  constructor
  · rintro ⟨_, function, parts, hother, hat, hcallee⟩
    obtain rfl := Option.some.inj (hbody.symm.trans hother)
    exact ⟨_, hat, callSite?_eq_some_iff.2 ⟨function, parts, rfl, hcallee⟩⟩
  · rintro ⟨n, hat, hn⟩
    obtain ⟨function, parts, rfl, hcallee⟩ := callSite?_eq_some_iff.1 hn
    exact ⟨body, function, parts, hbody, hat, hcallee⟩

theorem exists_callPlaces (f : Function) :
    ∃ ways, ways.Pairwise (· < ·) ∧ (∀ way, way ∈ ways ↔ ∃ site, f.HasCall way site)
      ∧ List.Forall₂ f.HasCall ways ((f.body.toList.flatMap Node.preorder).filterMap Node.callSite?) := by
  cases hbody : f.body with
  | none =>
    refine ⟨[], .nil, fun way => iff_of_false List.not_mem_nil ?_, .nil⟩
    rintro ⟨site, body, function, parts, hother, -⟩
    rw [hbody] at hother
    cases hother
  | some body =>
    obtain ⟨places, hplaces⟩ := body.exists_places
    have hcalls : body.preorder.filterMap Node.callSite? =
        places.filterMap fun way => (body.at? way).bind Node.callSite? := by
      have hfound := congrArg (List.filterMap fun n => n.bind Node.callSite?) hplaces.found
      rw [List.filterMap_map, List.filterMap_map] at hfound
      exact hfound.symm
    refine ⟨_, hplaces.ordered.filter fun way => ((body.at? way).bind Node.callSite?).isSome,
      fun way => ?_, ?_⟩
    · rw [List.mem_filter, Option.isSome_iff_exists, exists_congr fun site => hasCall_iff hbody]
      refine and_iff_right_of_imp fun ⟨site, hsite⟩ => hplaces.complete way ?_
      obtain ⟨n, hat, -⟩ := Option.bind_eq_some_iff.1 hsite
      rw [hat, Option.isSome_some]
    · rw [Option.toList_some, List.flatMap_singleton, hcalls]
      exact (forall₂_filterMap (fun way => (body.at? way).bind Node.callSite?) places).imp fun way site =>
        (hasCall_iff hbody).2

/-- The calls of a function are those in its body in preorder, which is the order of their places, sorted
by their lines. -/
theorem callSites_stableSort (f : Function) :
    ∃ ways calls, ways.Pairwise (· < ·) ∧ (∀ way, way ∈ ways ↔ ∃ site, f.HasCall way site)
      ∧ List.Forall₂ f.HasCall ways calls
      ∧ calls = (f.body.toList.flatMap Node.preorder).filterMap Node.callSite?
      ∧ IsStableSort calls (bodyOf f).callSites
      ∧ ∀ sites, IsStableSort calls sites → sites = (bodyOf f).callSites := by
  obtain ⟨ways, hordered, hways, hcalls⟩ := exists_callPlaces f
  refine ⟨ways, _, hordered, hways, hcalls, rfl, ?_⟩
  have hsorted : IsStableSort ((f.body.toList.flatMap Node.preorder).filterMap Node.callSite?)
      (bodyOf f).callSites := by
    rw [← Node.walk_eq]
    exact isStableSort_sortByLine _
  exact ⟨hsorted, fun sites hsites => hsites.unique hsorted⟩

example : (bodyOf { name := none, line := 1, parameters := [], body := some (.other [
    .call (some (.name "css")) true [.call (some (.name "late")) false [] 3] 1,
    .call (some (.member (.name "list") "map")) false [.other [.call (some (.name "each")) false [] 2]] 2,
    .call none false [] 2]) }).callSites =
    [⟨.member (.ident "list") "map", 2⟩, ⟨.name "each", 2⟩, ⟨.name "late", 3⟩] := by cbv

-- calls inside types: a key, a default and a module
example : (Node.walk ((Script.ofText .typeScript
      "let x: \x7b [key()]: (n = of()) => T \x7d = g<typeof import(\"m\")>();").statements.flatMap
        Statement.nodes)).filterMap Node.callSite? =
    [⟨.name "key", 1⟩, ⟨.name "of", 1⟩, ⟨.name "g", 1⟩, ⟨.other, 1⟩] := by decide +kernel

end Outline

end CallDiagram
