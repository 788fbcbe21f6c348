import CallDiagram.Proofs.Codebase.Inherited
import CallDiagram.Proofs.Codebase.Receiver
import CallDiagram.Proofs.Lookup.Once
import CallDiagram.Proofs.Text.Order

namespace CallDiagram.Codebase

variable {c : Codebase} {unit v : UnitId} {name : String} {binding : ImportBinding} {caller : DeclarationId}
  {declaration : Declaration} {scope : Scope}

theorem isChain_exported (c : Codebase) (v : UnitId) (name : String) :
    (c.exported v name).IsChain (· ≠ ·) := by
  rw [exported, searchLimit, answer, exportedWithin_succ c _ (v, name) [], if_neg List.not_mem_nil]
  split
  · next found later hrun =>
    obtain ⟨_, _, -, ⟨-, -, rfl⟩ | ⟨-, _, -, rfl⟩⟩ := scan_eq_some hrun <;> exact isChain_dropRepeats _
  · exact .nil

/-- Inside a declaration of the file `unit`, the name is that of an import and of nothing else. -/
structure StandsForImport (c : Codebase) (unit : UnitId) (scope : Scope) (name : String)
    (binding : ImportBinding) : Prop where
  undeclared : c.declaredIn unit name = []
  unbound : scope.bindings.get? name = none
  imported : c.import? unit name = some binding

namespace StandsForImport

theorem calleeDefinitions {asked : String} (h : c.StandsForImport unit scope name binding)
    (hasked : requestedName binding.imported = some asked) :
    c.calleeDefinitions unit scope (.name name) =
      (c.module? unit binding.source).elim [] fun v => (c.exported v asked).map Symbol.definition := by
  have hunbound : scope.bindings.contains name = false := by
    rw [Table.contains, h.unbound]
    rfl
  have hlookup : c.lookup unit name =
      (c.module? unit binding.source).elim [] fun v => c.exported v asked := by
    cases hv : c.module? unit binding.source with
    | none => exact lookup_of_import_none h.undeclared h.imported hv
    | some v => exact lookup_of_import h.undeclared h.imported hasked hv
  rw [Codebase.calleeDefinitions, hunbound, if_neg Bool.false_ne_true, hlookup]
  cases c.module? unit binding.source <;> rfl

theorem calleeDefinitions_member (h : c.StandsForImport unit scope name binding)
    (hwhole : binding.imported = .namespace) (property : String) :
    c.calleeDefinitions unit scope (.member (.ident name) property) =
      (c.module? unit binding.source).elim [] fun v => (c.exported v property).map Symbol.definition := by
  have hlookup : c.lookup unit name =
      (c.module? unit binding.source).elim [] fun v => [.module v] := by
    cases hv : c.module? unit binding.source with
    | none => exact lookup_of_import_none h.undeclared h.imported hv
    | some v =>
      refine lookup_of_found ?_
      rw [nameLead_of_import h.undeclared h.imported, importLead, hv, hwhole]
      rfl
  rw [Codebase.calleeDefinitions, memberSymbols, h.unbound, hlookup]
  cases c.module? unit binding.source with
  | none => rfl
  | some v =>
    change (dropRepeats ([Symbol.module v].flatMap _)).map _ = _
    rw [List.flatMap_singleton, memberOf, dropRepeats_of_isChain (c.isChain_exported v property)]
    rfl

end StandsForImport

/-- To call a member of an imported file is to call what is imported from it by name, whatever the file
exports and whether or not it is found. -/
theorem definitions_member_eq_name {ns g f : String} {whole single : ImportBinding} (line line' : Nat)
    (hd : c.declarations[caller]? = some declaration) (hs : c.scopes[caller]? = some scope)
    (hns : c.StandsForImport declaration.unit scope ns whole) (hwhole : whole.imported = .namespace)
    (hg : c.StandsForImport declaration.unit scope g single)
    (hsingle : requestedName single.imported = some f) (hsource : whole.source = single.source) :
    c.resolver.definitions caller ⟨.member (.ident ns) f, line⟩ =
        c.resolver.definitions caller ⟨.name g, line'⟩
      ∧ c.resolver.definitions caller ⟨.name g, line'⟩ =
          (c.module? declaration.unit single.source).elim [] fun v =>
            (c.exported v f).map Symbol.definition := by
  have hname := hg.calleeDefinitions hsingle
  have hmember := hns.calleeDefinitions_member hwhole f
  rw [definitions_eq hd hs, definitions_eq hd hs, hmember, hname, hsource]
  exact ⟨rfl, rfl⟩

def shared : Codebase :=
  let file (name : String) : Path := ⟨"/" ++ name ++ ".ts"⟩
  let f : FunctionOutline := { name := some "f", line := 1, body := {} }
  ofSources (fun _ name => some (file name)) (fun _ _ => ["all", "a", "b"]) [] [
    (file "main", {
      functions := [{ name := some "main", line := 3, body := {} }]
      imports := [⟨"ns", "all", .namespace⟩, ⟨"g", "all", .named "f"⟩] }),
    (file "all", { exports := [.all "a", .all "b"] }),
    (file "a", { functions := [f], exports := [.all "all", .local "f" "f"] }),
    (file "b", { functions := [f], exports := [.local "f" "f"] })]

theorem shared_both_ways :
    shared.resolver.definitions 0 ⟨.member (.ident "ns") "f", 3⟩ = [.callable 1, .callable 2]
      ∧ shared.resolver.definitions 0 ⟨.name "g", 3⟩ = [.callable 1, .callable 2] := by
  have hns : shared.StandsForImport 0 {} "ns" ⟨"ns", "all", .namespace⟩ :=
    ⟨by decide +kernel, rfl, by decide +kernel⟩
  have hg : shared.StandsForImport 0 {} "g" ⟨"g", "all", .named "f"⟩ :=
    ⟨by decide +kernel, rfl, by decide +kernel⟩
  have hall : shared.module? 0 "all" = some 1 := by decide +kernel
  have hf : shared.exported 1 "f" = [.function 1, .function 2] := by decide +kernel
  obtain ⟨hboth, hname⟩ := @definitions_member_eq_name shared 0
    { id := 0, name := some "main", container := none, kind := .function, unit := 0, line := 3, callSites := [] }
    {} "ns" "g" "f" _ _ 3 3 rfl rfl hns rfl hg rfl rfl
  have hname : shared.resolver.definitions 0 ⟨.name "g", 3⟩ = [.callable 1, .callable 2] := by
    rw [hname, hall, Option.elim_some, hf]
    rfl
  exact ⟨hboth.trans hname, hname⟩

end CallDiagram.Codebase
