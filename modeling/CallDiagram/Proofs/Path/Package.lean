import CallDiagram.Path.Package
import CallDiagram.Proofs.Path.Location
import Mathlib.Data.List.Infix
import Mathlib.Data.List.TakeWhile

namespace CallDiagram

namespace Location

def endsLikeMarker (name : String) : Bool := Path.dependencyDirectory.toList.isSuffixOf name.toList

def isScope (name : String) : Bool :=
  match name.toList with
  | '@' :: _ :: _ => true
  | _ => false

def packageSize : Location → Nat
  | first :: _ :: _ => if isScope first then 2 else 1
  | names => names.length

def leadingPackage (names : Location) : String := Text.unpieces '/' (names.take (packageSize names))

/-- The packages on a way, from the outermost. The first `skip` names are passed over, and so are the
names of a package before the next one is looked for. -/
def packagesOn (skip : Nat) : Location → List String
  | [] => []
  | name :: inside =>
    match skip with
    | skip + 1 => packagesOn skip inside
    | 0 =>
      if endsLikeMarker name ∧ inside ≠ [] then
        leadingPackage inside :: packagesOn (packageSize inside) inside
      else packagesOn 0 inside

def innermostPackage? : Location → Option String
  | [] => none
  | name :: inside => (innermostPackage? inside).or
      (if name = Path.dependencyDirectory ∧ inside ≠ [] then some (leadingPackage inside) else none)

section Names

variable {l inside names : Location} {name : String}

theorem packagesOn_eq_drop (skip : Nat) (l : Location) : packagesOn skip l = packagesOn 0 (l.drop skip) := by
  induction l generalizing skip with
  | nil => rw [List.drop_nil]; rfl
  | cons name l ih =>
    cases skip with
    | zero => rfl
    | succ skip => rw [packagesOn, List.drop_succ_cons, ih]

theorem packagesOn_marker (h : endsLikeMarker name) (hinside : inside ≠ []) :
    packagesOn 0 (name :: inside) =
      leadingPackage inside :: packagesOn 0 (inside.drop (packageSize inside)) := by
  rw [packagesOn, if_pos ⟨h, hinside⟩, packagesOn_eq_drop]

theorem packagesOn_other (h : ¬ (endsLikeMarker name ∧ inside ≠ [])) :
    packagesOn 0 (name :: inside) = packagesOn 0 inside := by
  rw [packagesOn, if_neg h]

theorem packageSize_pos (h : names ≠ []) : 0 < packageSize names := by
  match names with
  | [] => exact absurd rfl h
  | [_] => exact Nat.one_pos
  | _ :: _ :: _ => rw [packageSize]; split <;> decide

theorem innermostPackage?_marker (h : name = Path.dependencyDirectory) (hinside : inside ≠ []) :
    innermostPackage? (name :: inside) = (innermostPackage? inside).or (some (leadingPackage inside)) := by
  rw [innermostPackage?, if_pos ⟨h, hinside⟩]

theorem innermostPackage?_other (h : ¬ (name = Path.dependencyDirectory ∧ inside ≠ [])) :
    innermostPackage? (name :: inside) = innermostPackage? inside := by
  rw [innermostPackage?, if_neg h, Option.or_none]

theorem innermostPackage?_drop {k : Nat} (h : Path.dependencyDirectory ∉ l.dropLast.take k) :
    innermostPackage? (l.drop k) = innermostPackage? l := by
  induction k generalizing l with
  | zero => rfl
  | succ k ih =>
    match l with
    | [] => rfl
    | [name] => rw [innermostPackage?_other fun hmarker => hmarker.2 rfl, List.drop_succ_cons, List.drop_nil]
    | name :: next :: rest =>
      rw [List.dropLast_cons_cons, List.take_succ_cons] at h
      obtain ⟨hname, hrest⟩ := List.ne_and_not_mem_of_not_mem_cons h
      rw [List.drop_succ_cons, ih hrest, innermostPackage?_other fun hmarker => hname hmarker.1.symm]

/-- Only the directory of dependencies has a name that ends like it, and no package has its name. The
name of the file does not matter. -/
structure IsPlain (l : Location) : Prop where
  markers : ∀ name ∈ l.dropLast, endsLikeMarker name → name = Path.dependencyDirectory
  packages : ∀ inside : Location, Path.dependencyDirectory :: inside <:+ l →
    Path.dependencyDirectory ∉ inside.dropLast.take (packageSize inside)

theorem IsPlain.of_append {before : Location} (h : IsPlain (before ++ l)) : l.IsPlain where
  markers := fun name hname => h.markers name (by
    rw [List.dropLast_append_of_ne_nil (List.ne_nil_of_mem (List.dropLast_subset l hname))]
    exact List.mem_append_right before hname)
  packages := fun inside hsuffix => h.packages inside (hsuffix.trans (List.suffix_append before l))

theorem IsPlain.getLast?_packagesOn (h : l.IsPlain) :
    (packagesOn 0 l).getLast? = innermostPackage? l := by
  induction hlength : l.length using Nat.strong_induction_on generalizing l with
  | h n ih =>
    cases l with
    | nil => rfl
    | cons name inside =>
      have hinside : IsPlain ([name] ++ inside) := h
      by_cases hlast : inside = []
      · rw [hlast, packagesOn_other fun hmarker => hmarker.2 rfl]
        exact (innermostPackage?_other fun hmarker => hmarker.2 rfl).symm
      have hmember : name ∈ (name :: inside).dropLast := by
        obtain ⟨next, rest, rfl⟩ := List.exists_cons_of_ne_nil hlast
        exact List.mem_cons_self
      by_cases hname : name = Path.dependencyDirectory
      · have hmarker : endsLikeMarker name := by rw [hname]; decide
        have hfewer : (inside.drop (packageSize inside)).length < n := by
          rw [List.length_drop, ← hlength, List.length_cons]
          omega
        have hrest : IsPlain (inside.take (packageSize inside) ++ inside.drop (packageSize inside)) := by
          rw [List.take_append_drop]
          exact hinside.of_append
        rw [packagesOn_marker hmarker hlast, List.getLast?_cons, ih _ hfewer hrest.of_append rfl,
          innermostPackage?_drop (h.packages inside (by rw [hname])),
          innermostPackage?_marker hname hlast, Option.or_some]
      · rw [packagesOn_other fun hmarker => hname (h.markers name hmember hmarker.1),
          ih _ (hlength ▸ Nat.lt_succ_self _) hinside.of_append rfl,
          innermostPackage?_other fun hmarker => hname hmarker.1]

end Names

end Location

namespace Path

section Scan

variable {cs name package : List Char} {names : Location}

theorem packagesIn_eq_drop (skip : Nat) (cs : List Char) :
    packagesIn skip cs = packagesIn 0 (cs.drop skip) := by
  induction cs generalizing skip with
  | nil => rw [List.drop_nil]; rfl
  | cons c cs ih =>
    cases skip with
    | zero => rfl
    | succ skip => rw [packagesIn, List.drop_succ_cons, ih]

theorem marker_prefix_iff (hname : '/' ∉ name) (cs : List Char) :
    dependencyDirectory.toList ++ ['/'] <+: name ++ '/' :: cs ↔ name = dependencyDirectory.toList := by
  constructor
  · rintro ⟨rest, hrest⟩
    have hcut := congrArg (Text.cut '/') hrest
    rw [List.append_assoc, List.singleton_append, Text.cut_append (by decide), Text.cut_append hname] at hcut
    exact (List.cons.inj hcut).1.symm
  · rintro rfl
    exact ⟨cs, by rw [List.append_assoc, List.singleton_append]⟩

theorem packagesIn_slash (cs : List Char) : packagesIn 0 ('/' :: cs) = packagesIn 0 cs := rfl

theorem packagesIn_marker (h : leadingPackage? cs = some package) :
    packagesIn 0 (dependencyDirectory.toList ++ '/' :: cs)
      = package :: packagesIn 0 (cs.drop package.length) := by
  have hprefix := List.isPrefixOf_iff_prefix.2 ((marker_prefix_iff (by decide) cs).2 rfl)
  have hcons : dependencyDirectory.toList ++ '/' :: cs = 'n' :: ("ode_modules/".toList ++ cs) := rfl
  have hdrop : ('n' :: ("ode_modules/".toList ++ cs)).drop (dependencyDirectory.toList ++ ['/']).length = cs :=
    rfl
  rw [hcons] at hprefix ⊢
  rw [packagesIn, if_pos hprefix, hdrop, h]
  dsimp only
  -- The marker has one character more than the text that is left of it here.
  have hlength : (dependencyDirectory.toList ++ ['/']).length + package.length - 1
      = "ode_modules/".toList.length + package.length := by
    simp only [show (dependencyDirectory.toList ++ ['/']).length = "ode_modules/".toList.length + 1 from rfl]
    omega
  rw [hlength, packagesIn_eq_drop, List.drop_length_add_append]

theorem packagesIn_other (hname : '/' ∉ name) (h : ¬ dependencyDirectory.toList <:+ name) :
    packagesIn 0 (name ++ '/' :: cs) = packagesIn 0 cs := by
  induction name with
  | nil => exact packagesIn_slash cs
  | cons c name ih =>
    rw [List.suffix_cons_iff, not_or] at h
    rw [List.cons_append, packagesIn, if_neg, ih (fun hmem => hname (List.mem_cons_of_mem c hmem)) h.2]
    rw [List.isPrefixOf_iff_prefix, ← List.cons_append, marker_prefix_iff hname]
    exact fun heq => h.1 heq.symm

theorem packagesIn_suffix (hname : '/' ∉ name) (h : dependencyDirectory.toList <:+ name) :
    packagesIn 0 (name ++ '/' :: cs) = packagesIn 0 (dependencyDirectory.toList ++ '/' :: cs) := by
  induction name with
  | nil => exact absurd (List.suffix_nil.1 h) (by decide)
  | cons c name ih =>
    rcases List.suffix_cons_iff.1 h with heq | h
    · rw [heq]
    · have hne : c :: name ≠ dependencyDirectory.toList := by
        rintro heq
        have hlength := h.length_le
        rw [← heq, List.length_cons] at hlength
        omega
      rw [← ih (fun hmem => hname (List.mem_cons_of_mem c hmem)) h, List.cons_append, packagesIn, if_neg]
      rwa [List.isPrefixOf_iff_prefix, ← List.cons_append, marker_prefix_iff hname]

theorem packagesIn_last (hname : '/' ∉ name) : packagesIn 0 name = [] := by
  induction name with
  | nil => rfl
  | cons c name ih =>
    rw [packagesIn, if_neg, ih fun hmem => hname (List.mem_cons_of_mem c hmem)]
    intro hprefix
    exact hname ((List.isPrefixOf_iff_prefix.1 hprefix).subset (by simp))

theorem takeWhile_join (hname : '/' ∉ name) (parts : List (List Char)) :
    (Text.join '/' (name :: parts)).takeWhile (· ≠ '/') = name := by
  have hkeep : ∀ c ∈ name, decide (c ≠ '/') = true := fun _ hc => decide_eq_true fun heq => hname (heq ▸ hc)
  cases parts with
  | nil => exact List.takeWhile_eq_self_iff.2 hkeep
  | cons part parts =>
    rw [Text.join, List.takeWhile_append_of_pos hkeep, List.takeWhile_cons_of_neg (by simp), List.append_nil]

theorem drop_join (name : List Char) (parts : List (List Char)) :
    (Text.join '/' (name :: parts)).drop (name.length + 1) = Text.join '/' parts := by
  cases parts with
  | nil => exact List.drop_eq_nil_of_le (Nat.le_succ _)
  | cons part parts => rw [Text.join, List.drop_length_add_append, List.drop_succ_cons, List.drop_zero]

theorem leadingPackage?_join (hne : names ≠ []) (h : ∀ name ∈ names, Entry.isName name) :
    leadingPackage? (Text.join '/' (names.map String.toList))
      = some (Location.leadingPackage names).toList := by
  obtain ⟨first, more, rfl⟩ := List.exists_cons_of_ne_nil hne
  obtain ⟨hfirst, hmore⟩ := List.forall_mem_cons.1 h
  have hnone : first.toList ≠ [] := by simpa using Location.ne_empty_of_isName hfirst
  rw [leadingPackage?, List.map_cons, takeWhile_join (Location.not_mem_of_isName hfirst), drop_join,
    Location.leadingPackage, Text.unpieces, String.toList_ofList]
  cases more with
  | nil =>
    split
    · next heq => exact absurd heq hnone
    · rfl
    · rfl
  | cons second rest =>
    obtain ⟨hsecond, -⟩ := List.forall_mem_cons.1 hmore
    have hsome : second.toList ≠ [] := by simpa using Location.ne_empty_of_isName hsecond
    rw [List.map_cons, takeWhile_join (Location.not_mem_of_isName hsecond), Location.packageSize]
    split
    · next heq => exact absurd heq hnone
    · next heq =>
      have hscope : Location.isScope first := by simp only [Location.isScope, heq]
      rw [if_neg (by simpa using hsome), if_pos hscope]
      rfl
    · next hother =>
      have hscope : Location.isScope first = false := by
        unfold Location.isScope
        split
        · next heq => exact absurd heq (hother _ _)
        · rfl
      rw [hscope]
      rfl

theorem packagesIn_drop_leadingPackage (hne : names ≠ []) :
    packagesIn 0 ((Text.join '/' (names.map String.toList)).drop (Location.leadingPackage names).toList.length)
      = packagesIn 0 (Text.join '/' ((names.drop (Location.packageSize names)).map String.toList)) := by
  have hpos := Location.packageSize_pos hne
  rw [Location.leadingPackage, Text.unpieces, String.toList_ofList]
  generalize Location.packageSize names = k at hpos
  have htake : (names.take k).map String.toList ≠ [] := by simp [hne, Nat.ne_of_gt hpos]
  by_cases hdrop : names.drop k = []
  · have hall : names.take k = names := List.take_of_length_le (List.drop_eq_nil_iff.1 hdrop)
    rw [hall, hdrop, List.drop_length]
    rfl
  · have hsplit : Text.join '/' (names.map String.toList) = Text.join '/' ((names.take k).map String.toList)
        ++ '/' :: Text.join '/' ((names.drop k).map String.toList) := by
      rw [← Text.join_append htake (by simpa using hdrop), ← List.map_append, List.take_append_drop]
    rw [hsplit, List.drop_left, packagesIn_slash]

theorem packagesIn_join (h : ∀ name ∈ names, Entry.isName name) :
    packagesIn 0 (Text.join '/' (names.map String.toList))
      = (Location.packagesOn 0 names).map String.toList := by
  induction hlength : names.length using Nat.strong_induction_on generalizing names with
  | h n ih =>
    cases names with
    | nil => rfl
    | cons name inside =>
      obtain ⟨hname, hinside⟩ := List.forall_mem_cons.1 h
      have hslash := Location.not_mem_of_isName hname
      by_cases hlast : inside = []
      · rw [Location.packagesOn_other fun hmarker => hmarker.2 hlast, hlast]
        exact packagesIn_last hslash
      have hjoin : Text.join '/' ((name :: inside).map String.toList)
          = name.toList ++ '/' :: Text.join '/' (inside.map String.toList) :=
        Text.join_append (List.cons_ne_nil name.toList []) (by simpa using hlast)
      rw [hjoin]
      by_cases hmarker : Location.endsLikeMarker name
      · have hfewer : (inside.drop (Location.packageSize inside)).length < n := by
          rw [List.length_drop, ← hlength, List.length_cons]
          omega
        rw [packagesIn_suffix hslash (List.isSuffixOf_iff_suffix.1 hmarker),
          packagesIn_marker (leadingPackage?_join hlast hinside), packagesIn_drop_leadingPackage hlast,
          ih _ hfewer (fun other hother => hinside other (List.mem_of_mem_drop hother)) rfl,
          Location.packagesOn_marker hmarker hlast, List.map_cons]
      · rw [packagesIn_other hslash fun hsuffix => hmarker (List.isSuffixOf_iff_suffix.2 hsuffix),
          ih _ (hlength ▸ Nat.lt_succ_self _) hinside rfl, Location.packagesOn_other fun h => hmarker h.1]

end Scan

section Place

variable {l : Location}

theorem package_toPath (h : ∀ name ∈ l, Entry.isName name ∧ '\\' ∉ name.toList) :
    l.toPath.package = ((Location.packagesOn 0 l).getLast?).getD unknownPackage := by
  have hslashes : (l.toPath.text.toList.map fun c => if c = '\\' then '/' else c) = l.toPath.text.toList := by
    have hnone : '\\' ∉ l.toPath.text.toList := by
      rw [Location.toList_toPath, List.mem_cons, not_or]
      refine ⟨by decide, Text.not_mem_join (by decide) fun part hpart => ?_⟩
      obtain ⟨name, hname, rfl⟩ := List.mem_map.1 hpart
      exact (h name hname).2
    refine (List.map_congr_left fun c hc => if_neg ?_).trans (List.map_id _)
    rintro rfl
    exact hnone hc
  rw [package, hslashes, Location.toList_toPath, packagesIn_slash,
    packagesIn_join fun name hname => (h name hname).1, List.getLast?_map]
  cases (Location.packagesOn 0 l).getLast? with
  | none => rfl
  | some package => exact String.ofList_toList

/-- The package of a place is the last that is found on the way to it. Where only the directory of
dependencies has a name that ends like it, and no package has its name, this is the package in the
innermost such directory that has something in it. -/
theorem package_innermost (h : ∀ name ∈ l, Entry.isName name ∧ '\\' ∉ name.toList) :
    l.toPath.package = ((Location.packagesOn 0 l).getLast?).getD unknownPackage
      ∧ (l.IsPlain → l.toPath.package = l.innermostPackage?.getD unknownPackage) := by
  refine ⟨package_toPath h, fun hplain => ?_⟩
  rw [package_toPath h, hplain.getLast?_packagesOn]

def nested : Location :=
  ["node_modules_old", "node_modules", "a", "node_modules.d", "node_modules", "@scope", "pkg", "a.d.ts"]

theorem nested_package :
    (∀ name ∈ nested, Entry.isName name ∧ '\\' ∉ name.toList) ∧ nested.IsPlain
      ∧ nested.innermostPackage? = some "@scope/pkg" ∧ nested.toPath.package = "@scope/pkg" := by
  have hnames : ∀ name ∈ nested, Entry.isName name ∧ '\\' ∉ name.toList := by decide
  have htails : ∀ way ∈ nested.tails, way.head? = some dependencyDirectory →
      dependencyDirectory ∉ way.tail.dropLast.take (Location.packageSize way.tail) := by decide
  have hplain : nested.IsPlain :=
    ⟨by decide, fun inside hsuffix => htails _ ((List.mem_tails _ _).2 hsuffix) rfl⟩
  have hinner : nested.innermostPackage? = some "@scope/pkg" := by decide +kernel
  refine ⟨hnames, hplain, hinner, ?_⟩
  rw [(package_innermost hnames).2 hplain, hinner]
  rfl

/-- A directory whose name only ends like that of dependencies hides the package that it lies in, and of
two directories of dependencies in a row the second is taken for a package. -/
theorem lookalikes_mislead :
    Location.innermostPackage? ["node_modules", "lib", "old_node_modules", "x", "a.ts"] = some "lib"
      ∧ (Location.toPath ["node_modules", "lib", "old_node_modules", "x", "a.ts"]).package = "x"
      ∧ Location.innermostPackage? ["src", "old_node_modules", "x", "a.ts"] = none
      ∧ (Location.toPath ["src", "old_node_modules", "x", "a.ts"]).package = "x"
      ∧ Location.innermostPackage? ["node_modules", "node_modules", "x", "a.ts"] = some "x"
      ∧ (Location.toPath ["node_modules", "node_modules", "x", "a.ts"]).package = "node_modules" := by
  decide +kernel

end Place

end Path

end CallDiagram
