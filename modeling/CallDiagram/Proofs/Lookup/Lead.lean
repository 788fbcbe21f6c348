import CallDiagram.Codebase.Lookup

namespace CallDiagram

abbrev Question := UnitId × String

inductive Lead
  | found (symbols : List Symbol)
  | ask (question : Question)

def Lead.follow (ask : UnitId → String → Search (List Symbol)) : Lead → Search (List Symbol)
  | .found symbols => return symbols
  | .ask q => ask q.1 q.2

namespace Codebase

def import? (c : Codebase) (unit : UnitId) (name : String) : Option ImportBinding :=
  c.tables[unit]?.bind fun table => table.imports.get? name

def exportsOf (c : Codebase) (unit : UnitId) : List ExportEntry :=
  match c.tables[unit]? with
  | some table => table.exports
  | none => []

def implied (c : Codebase) (q : Question) : List Symbol :=
  match c.tables[q.1]? with
  | some table => if table.isDeclarationFile then table.declared q.1 q.2 else []
  | none => []

def importLead (c : Codebase) (unit : UnitId) (binding : ImportBinding) : Lead :=
  match c.module? unit binding.source, requestedName binding.imported with
  | none, _ => .found []
  | some target, some name => .ask (target, name)
  | some target, none => .found [.module target]

def nameLead (c : Codebase) (unit : UnitId) (name : String) : Lead :=
  if (c.declaredIn unit name).isEmpty then
    match c.import? unit name with
    | some binding => c.importLead unit binding
    | none => .found []
  else .found (c.declaredIn unit name)

def entryLead (c : Codebase) (q : Question) : ExportEntry → Lead
  | .local exported inner => if exported = q.2 then c.nameLead q.1 inner else .found []
  | .named exported inner source =>
    match c.module? q.1 source with
    | some target => if exported = q.2 then .ask (target, inner) else .found []
    | none => .found []
  | .namespace exported source =>
    match c.module? q.1 source with
    | some target => .found (if exported = q.2 then [.module target] else [])
    | none => .found []
  | .all _ => .found []

def entryAllLead (c : Codebase) (q : Question) : ExportEntry → Lead
  | .all source =>
    match c.module? q.1 source with
    | some target => .ask (target, q.2)
    | none => .found []
  | _ => .found []

def nameLeads (c : Codebase) (q : Question) : List Lead := (c.exportsOf q.1).map (c.entryLead q)

def allLeads (c : Codebase) (q : Question) : List Lead :=
  if q.2 = Outline.defaultName then [] else (c.exportsOf q.1).map (c.entryAllLead q)

def scan (c : Codebase) (ask : UnitId → String → Search (List Symbol)) (q : Question) :
    Search (List Symbol) := do
  let byName ← collect (Lead.follow ask) (c.nameLeads q)
  let found ← if byName.isEmpty then collect (Lead.follow ask) (c.allLeads q) else pure byName
  return dropRepeats (if found.isEmpty then c.implied q else found)

section Equations

variable (c : Codebase) (ask : UnitId → String → Search (List Symbol))

theorem imported_eq (unit : UnitId) (binding : ImportBinding) :
    c.imported ask unit binding = (c.importLead unit binding).follow ask := by
  simp only [imported, importLead]
  cases c.module? unit binding.source <;> cases requestedName binding.imported <;> rfl

theorem named_eq (unit : UnitId) (name : String) :
    c.named ask unit name = (c.nameLead unit name).follow ask := by
  simp only [named, nameLead, import?]
  split
  · cases c.tables[unit]?.bind fun table => table.imports.get? name with
    | some binding => exact imported_eq c ask unit binding
    | none => rfl
  · rfl

theorem entryNamed_eq (q : Question) (entry : ExportEntry) :
    c.entryNamed ask q.1 q.2 entry = (c.entryLead q entry).follow ask := by
  cases entry with
  | «local» exported inner =>
    simp only [entryNamed, entryLead, named_eq]
    split <;> rfl
  | named exported inner source =>
    simp only [entryNamed, entryLead]
    cases c.module? q.1 source with
    | none => rfl
    | some target => by_cases h : exported = q.2 <;> simp only [h, if_true, if_false] <;> rfl
  | «namespace» exported source =>
    simp only [entryNamed, entryLead]
    cases c.module? q.1 source <;> rfl
  | all source => rfl

theorem entryAll_eq (q : Question) (entry : ExportEntry) :
    c.entryAll ask q.1 q.2 entry = (c.entryAllLead q entry).follow ask := by
  cases entry with
  | all source =>
    simp only [entryAll, entryAllLead]
    cases c.module? q.1 source <;> rfl
  | _ => rfl

theorem collect_map {α β : Type} (g : α → β) (f : β → Search (List Symbol)) (l : List α) :
    collect f (l.map g) = collect (fun a => f (g a)) l := by
  induction l with
  | nil => rfl
  | cons a l ih => simp only [List.map_cons, collect, ih]

theorem exportedBy_eq {q : Question} {table : FileTable} (h : c.tables[q.1]? = some table) :
    c.exportedBy ask q.1 q.2 table = c.scan ask q := by
  have hexports : c.exportsOf q.1 = table.exports := by simp [exportsOf, h]
  have hname : collect (c.entryNamed ask q.1 q.2) table.exports
      = collect (Lead.follow ask) (c.nameLeads q) := by
    rw [nameLeads, hexports, collect_map]
    congr 1
    funext entry
    exact entryNamed_eq c ask q entry
  have hall : collect (c.entryAll ask q.1 q.2) table.exports
      = collect (fun entry => (c.entryAllLead q entry).follow ask) table.exports := by
    congr 1
    funext entry
    exact entryAll_eq c ask q entry
  have himplied : c.implied q = if table.isDeclarationFile then table.declared q.1 q.2 else [] := by
    simp [implied, h]
  simp only [exportedBy, scan, hname, hall, allLeads, hexports, himplied]
  congr 1
  funext byName
  by_cases hb : byName = []
  · by_cases hq : q.2 = Outline.defaultName
    · subst hb
      simp only [hq, List.isEmpty_nil, bne_self_eq_false, Bool.and_false, Bool.false_eq_true,
        if_false, if_true, collect]
      cases table.isDeclarationFile <;> rfl
    · have hne : (q.2 != Outline.defaultName) = true := by simpa using hq
      simp only [hb, hne, hq, List.isEmpty_nil, Bool.and_self, if_true, if_false, collect_map]
      congr 1
      funext found
      cases table.isDeclarationFile <;> cases found <;> rfl
  · have hb' : byName.isEmpty = false := by simpa using hb
    simp only [hb', Bool.false_and, Bool.false_eq_true, if_false]
    simp [hb]

theorem scan_eq_of_none {q : Question} (h : c.tables[q.1]? = none) : c.scan ask q = pure [] := by
  have hexports : c.exportsOf q.1 = [] := by simp [exportsOf, h]
  have himplied : c.implied q = [] := by simp [implied, h]
  have hall : c.allLeads q = [] := by simp [allLeads, hexports]
  simp only [scan, nameLeads, hexports, hall, himplied, List.map_nil, collect]
  rfl

theorem exportedWithin_succ (n : Nat) (q : Question) (asked : Asked) :
    c.exportedWithin (n + 1) q.1 q.2 asked =
      if q ∈ asked then some ([], asked)
      else c.scan (c.exportedWithin n) q (q :: asked) := by
  have hrun : c.exportedWithin (n + 1) q.1 q.2 asked =
      (if asked.contains q then pure [] else do
        modify (q :: ·)
        match c.tables[q.1]? with
        | some table => c.exportedBy (c.exportedWithin n) q.1 q.2 table
        | none => return [] : Search (List Symbol)) asked := rfl
  rw [hrun]
  by_cases h : q ∈ asked
  · rw [if_pos h, if_pos (List.contains_iff_mem.2 h)]
    rfl
  · rw [if_neg h, if_neg fun hc => h (List.contains_iff_mem.1 hc)]
    cases ht : c.tables[q.1]? with
    | none => rw [scan_eq_of_none c _ ht]; rfl
    | some table => rw [← exportedBy_eq c _ ht]; rfl

end Equations

end Codebase

end CallDiagram
