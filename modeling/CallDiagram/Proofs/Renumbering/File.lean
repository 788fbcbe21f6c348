import CallDiagram.Proofs.Codebase.Declare
import CallDiagram.Proofs.Renumbering.Member

namespace CallDiagram

open List (Forall₂)

namespace Renumbering

structure Covers (r : Renumbering) (c d : Codebase) (o : Outline) : Prop where
  unit : r.unit c.units.size d.units.size
  declaration : ∀ k < Codebase.declarationCount o,
    r.declaration (c.declarations.size + k) (d.declarations.size + k)
  cls : ∀ k < o.classes.length, r.cls (c.classes.size + k) (d.classes.size + k)

structure Drafts (r : Renumbering) (x y : Codebase.Draft) : Prop where
  declarations : ∀ i j, r.Declarations (x.1 i) (y.1 j)
  scopes : r.Scopes x.2 y.2

variable {r : Renumbering} {u v : UnitId}

theorem classDrafts (huv : r.unit u v) {first first' : ClassId} {classes : List ClassOutline}
    (hcls : ∀ k < classes.length, r.cls (first + k) (first' + k)) :
    Forall₂ r.Drafts (Codebase.classDrafts u first classes)
      (Codebase.classDrafts v first' classes) := by
  induction classes generalizing first first' with
  | nil => exact .nil
  | cons o classes ih =>
    refine List.rel_append ?_ (ih fun k hk => ?_)
    · rw [List.forall₂_map_left_iff, List.forall₂_map_right_iff, List.forall₂_same]
      intro m _
      exact ⟨fun i j => ⟨huv, rfl, rfl, rfl, rfl, rfl⟩,
        ⟨.some (hcls 0 (Nat.zero_lt_succ _)), rfl, fun _ => rfl⟩⟩
    · have hnext := hcls (k + 1) (Nat.succ_lt_succ hk)
      rwa [Nat.add_comm k, ← Nat.add_assoc, ← Nat.add_assoc] at hnext

theorem classEntries (huv : r.unit u v) {next next' : DeclarationId} {classes : List ClassOutline}
    (hdeclaration : ∀ k < Codebase.methodCount classes, r.declaration (next + k) (next' + k)) :
    Forall₂ r.Classes (Codebase.classEntries u next classes)
      (Codebase.classEntries v next' classes) := by
  induction classes generalizing next next' with
  | nil => exact .nil
  | cons o classes ih =>
    simp only [Codebase.methodCount] at hdeclaration
    refine .cons ⟨huv, rfl, fun _ => rfl, Table.rel_get? (rel_mapIdx fun k m hk => ?_)⟩
      (ih fun k hk => ?_)
    · exact ⟨rfl, hdeclaration k (by omega)⟩
    · have hnext := hdeclaration (o.methods.length + k) (by omega)
      rwa [← Nat.add_assoc, ← Nat.add_assoc] at hnext

namespace Covers

variable {c d : Codebase} {o : Outline}

theorem fileTable (h : r.Covers c d o) (path : Path) :
    r.Tables (Codebase.fileTable path o c.declarations.size c.classes.size)
      (Codebase.fileTable path o d.declarations.size d.classes.size) where
  functions := Table.rel_get? (rel_mapIdx fun k _ hk =>
    ⟨rfl, h.declaration k (Nat.lt_add_right _ hk)⟩)
  classes := Table.rel_get? (rel_mapIdx fun k _ hk => ⟨rfl, h.cls k hk⟩)
  symbols _ := rfl
  variableTypes _ := rfl
  imports _ := rfl
  exports := rfl
  isDeclarationFile := rfl

theorem drafts (h : r.Covers c d o) :
    Forall₂ r.Drafts (Codebase.drafts c.units.size c.classes.size o)
      (Codebase.drafts d.units.size d.classes.size o) := by
  refine List.rel_append ?_ (classDrafts h.unit h.cls)
  rw [List.forall₂_map_left_iff, List.forall₂_map_right_iff, List.forall₂_same]
  intro f _
  exact ⟨fun i j => ⟨h.unit, rfl, rfl, rfl, rfl, rfl⟩, ⟨.none, rfl, fun _ => rfl⟩⟩

theorem classEntries (h : r.Covers c d o) :
    Forall₂ r.Classes
      (Codebase.classEntries c.units.size (c.declarations.size + o.functions.length) o.classes)
      (Codebase.classEntries d.units.size (d.declarations.size + o.functions.length) o.classes) := by
  refine Renumbering.classEntries h.unit fun k hk => ?_
  have hnext := h.declaration (o.functions.length + k) (Nat.add_lt_add_left hk _)
  rwa [← Nat.add_assoc, ← Nat.add_assoc] at hnext

end Covers

end Renumbering

end CallDiagram
