import CallDiagram.Proofs.Settings.Read
import Mathlib.Data.List.Basic

/-!
The tree of all files that settings come from. Whatever several files of the tree set, the first of them
decides, where each file stands before those it extends.
-/

namespace CallDiagram.Settings

/-- A settings file with what it says itself and, in order, the files that it extends. -/
inductive Lineage
  | node (path : Path) (own : Settings) (bases : List Lineage)

namespace Lineage

def path : Lineage → Path
  | .node path _ _ => path

/-- Whether a tree holds just the files that reading `path` goes through. -/
inductive IsOf (t : FileTree) : Path → Lineage → Prop
  | node {path : Path} {own : Settings} {bases : List Lineage} : Reads t path own →
      bases.map Lineage.path = followed t path own → (∀ base ∈ bases, IsOf t base.path base) →
      IsOf t path (.node path own bases)

mutual
def listing (enter : Path → Path → Bool) : Lineage → List (Path × Settings)
  | .node path own bases => (path, own) :: listingAmong enter path bases

def listingAmong (enter : Path → Path → Bool) (path : Path) : List Lineage → List (Path × Settings)
  | [] => []
  | base :: bases =>
    (if enter path base.path then base.listing enter else []) ++ listingAmong enter path bases
end

def preorder (l : Lineage) : List (Path × Settings) := l.listing fun _ _ => true

def nearby (l : Lineage) : List (Path × Settings) := l.listing isBeside

/-- What the files set together: of each setting what the first file says that sets it. -/
def settled (l : Lineage) : Settings where
  bases := none
  files := l.nearby.findSome? fun file => file.2.files
  included := l.nearby.findSome? fun file => file.2.included
  excluded := l.nearby.findSome? fun file => file.2.excluded
  baseUrl := l.preorder.findSome? fun file => ownUrl? file.1 file.2
  paths := (l.preorder.findSome? fun file => paths? file.2).getD []

variable {t : FileTree} {path : Path} {own s : Settings} {l l' : Lineage} {bases bases' : List Lineage}
  {n : Nat}

theorem IsOf.path_eq (h : IsOf t path l) : l.path = path := by
  cases h
  rfl

theorem eq_of_map_path_eq (h : bases.map Lineage.path = bases'.map Lineage.path)
    (hunique : ∀ base ∈ bases, ∀ base' ∈ bases', base.path = base'.path → base = base') :
    bases = bases' := by
  induction bases generalizing bases' with
  | nil => exact (List.map_eq_nil_iff.1 h.symm).symm
  | cons base bases ih =>
    cases bases' with
    | nil => cases h
    | cons base' bases' =>
      obtain ⟨hbase, hbases⟩ := List.cons.inj h
      rw [hunique base List.mem_cons_self base' List.mem_cons_self hbase, ih hbases]
      intro b hb b' hb'
      exact hunique b (List.mem_cons_of_mem base hb) b' (List.mem_cons_of_mem base' hb')

theorem IsOf.unique (h : IsOf t path l) (h' : IsOf t path l') : l = l' := by
  induction h generalizing l' with
  | @node path own bases hown hpaths _ ih =>
    cases h' with
    | @node _ own' bases' hown' hpaths' hbases' =>
      obtain rfl := hown.unique hown'
      rw [eq_of_map_path_eq (hpaths.trans hpaths'.symm)]
      intro base hbase base' hbase' heq
      exact ih base hbase (heq ▸ hbases' base' hbase')

theorem paths?_settled (l : Lineage) :
    paths? l.settled = l.preorder.findSome? fun file => paths? file.2 := by
  cases hfirst : l.preorder.findSome? fun file => paths? file.2 with
  | none =>
    have hpaths : l.settled.paths = [] := by rw [settled, hfirst]; rfl
    rw [paths?, hpaths]
    rfl
  | some paths =>
    obtain ⟨file, -, hfile⟩ := List.exists_of_findSome?_eq_some hfirst
    have hpaths : l.settled.paths = paths := by rw [settled, hfirst]; rfl
    rw [paths?, hpaths, if_neg]
    simpa using paths?_eq_some hfile

section Fill

variable {α : Type} (get : Settings → Option α) (pick : Path × Settings → Option α)
  (shares : Bool → Bool)

theorem findSome?_listingAmong
    (hget : ∀ l : Lineage, get l.settled
      = (l.listing fun path base => shares (isBeside path base)).findSome? pick)
    (path : Path) (bases : List Lineage) :
    (listingAmong (fun path base => shares (isBeside path base)) path bases).findSome? pick
      = ((bases.map fun base => (base.path, base.settled)).filter
          fun base => shares (isBeside path base.1)).findSome? fun base => get base.2 := by
  induction bases with
  | nil => rfl
  | cons base bases ih =>
    rw [listingAmong, List.findSome?_append, ih, List.map_cons, List.filter_cons]
    split
    · rw [List.findSome?_cons, hget]
      cases List.findSome? pick _ <;> simp
    · simp

theorem get_foldl_settled
    (hinherit : ∀ s base beside,
      get (inherit s base beside) = (get s).or (if shares beside then get base else none))
    (hget : ∀ l : Lineage, get l.settled
      = (l.listing fun path base => shares (isBeside path base)).findSome? pick)
    (hown : get (alone path own) = pick (path, own)) (bases : List Lineage) :
    get ((bases.map fun base => (base.path, base.settled)).foldl
        (fun s base => s.inherit base.2 (isBeside path base.1)) (alone path own))
      = get (node path own bases).settled := by
  rw [get_foldl_inherit _ hinherit, hget, listing, List.findSome?_cons, hown,
    findSome?_listingAmong get pick shares hget]
  cases pick (path, own) <;> simp

end Fill

theorem foldl_settled (path : Path) (own : Settings) (bases : List Lineage) :
    (bases.map fun base => (base.path, base.settled)).foldl
        (fun s base => s.inherit base.2 (isBeside path base.1)) (alone path own)
      = (node path own bases).settled := by
  apply Settings.ext
  case bases => exact bases_foldl_inherit _ path _
  case files =>
    exact get_foldl_settled (·.files) (·.2.files) id files_inherit (fun _ => rfl) rfl bases
  case included =>
    exact get_foldl_settled (·.included) (·.2.included) id included_inherit (fun _ => rfl) rfl bases
  case excluded =>
    exact get_foldl_settled (·.excluded) (·.2.excluded) id excluded_inherit (fun _ => rfl) rfl bases
  case baseUrl =>
    exact get_foldl_settled (·.baseUrl) (fun file => ownUrl? file.1 file.2) (fun _ => true)
      baseUrl_inherit (fun _ => rfl) rfl bases
  case paths =>
    rw [paths_eq_getD, paths_eq_getD (settled _)]
    exact congrArg (·.getD []) (get_foldl_settled paths? (fun file => paths? file.2) (fun _ => true)
      paths?_inherit paths?_settled rfl bases)

end Lineage

theorem exists_lineages {t : FileTree} {given : List (Path × Settings)}
    (h : ∀ base ∈ given, ∃ l, Lineage.IsOf t base.1 l ∧ base.2 = l.settled) :
    ∃ bases : List Lineage, (∀ base ∈ bases, Lineage.IsOf t base.path base)
      ∧ given = bases.map fun base => (base.path, base.settled) := by
  induction given with
  | nil => exact ⟨[], by simp, rfl⟩
  | cons base given ih =>
    obtain ⟨⟨l, hl, hsettled⟩, hgiven⟩ := List.forall_mem_cons.1 h
    obtain ⟨bases, hbases, heq⟩ := ih hgiven
    refine ⟨l :: bases, List.forall_mem_cons.2 ⟨hl.path_eq.symm ▸ hl, hbases⟩, ?_⟩
    rw [heq, List.map_cons, hl.path_eq, ← hsettled]

theorem exists_lineage_of_loadWithin {t : FileTree} {path : Path} {s : Settings} {n : Nat}
    (h : loadWithin t n path = .ok s) : ∃ l, Lineage.IsOf t path l ∧ s = l.settled := by
  induction n generalizing path s with
  | zero => cases h
  | succ n ih =>
    obtain ⟨own, hown, given, hpaths, hgiven, rfl⟩ := loadWithin_succ_eq_ok.1 h
    obtain ⟨bases, hbases, rfl⟩ := exists_lineages fun base hbase => ih (hgiven base hbase)
    rw [List.map_map] at hpaths
    exact ⟨.node path own bases, .node hown hpaths hbases, Lineage.foldl_settled path own bases⟩

/-- Settings that can be read come from one tree of files, and are what its files settle: each setting is
as the first file says that sets it, a file before its bases and an earlier base with all that it extends
before a later one. Lists of files come only from files that steps within one directory lead to. -/
theorem load_firstSet {t : FileTree} {path : Path} {s : Settings} (h : load t path = .ok s) :
    ∃ l, (∀ other, Lineage.IsOf t path other ↔ other = l) ∧ s = l.settled := by
  obtain ⟨l, hl, hs⟩ := exists_lineage_of_loadWithin h
  refine ⟨l, fun other => ?_, hs⟩
  constructor
  · exact fun hother => hother.unique hl
  · rintro rfl
    exact hl

def layered : FileTree where
  top := [("p", .directory
    [("main.json", .file (.text
        "\x7b\"extends\":[\"./near\",\"./low/last.json\",\"pkg\"],\"exclude\":[\"x\"]\x7d")),
      ("near.json", .file (.text "\x7b\"extends\":\"./low/first.json\",\"include\":[\"n\"]\x7d")),
      ("low", .directory
        [("first.json", .file (.text
            "\x7b\"files\":[\"f\"],\"compilerOptions\":\x7b\"baseUrl\":\"../lib\"\x7d\x7d")),
          ("last.json", .file (.text
            "\x7b\"compilerOptions\":\x7b\"baseUrl\":\".\",\"paths\":\x7b\"a\":[\"b\"]\x7d\x7d\x7d"))])])]

theorem layered_firstSet :
    load layered ⟨"/p/main.json"⟩ = .ok
        { included := some ["n"], excluded := some ["x"], baseUrl := some "/p/./low/../lib",
          paths := [("a", ["b"])] }
      ∧ ∃ l, (∀ other, Lineage.IsOf layered ⟨"/p/main.json"⟩ other ↔ other = l)
        ∧ l.settled.included = some ["n"] ∧ l.settled.baseUrl = some "/p/./low/../lib" := by
  have hload : load layered ⟨"/p/main.json"⟩ = .ok
      { included := some ["n"], excluded := some ["x"], baseUrl := some "/p/./low/../lib",
        paths := [("a", ["b"])] } := by decide +kernel
  obtain ⟨l, hl, hsettled⟩ := load_firstSet hload
  exact ⟨hload, l, hl, by rw [← hsettled], by rw [← hsettled]⟩

end CallDiagram.Settings
