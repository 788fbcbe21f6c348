import CallDiagram.Module.PackageName
import Mathlib.Data.List.Basic
import Mathlib.Data.List.Infix

namespace CallDiagram.PackageName

inductive IsPackage : (package types : String) → Prop
  | plain {package : String} : '/' ∉ package.toList → package.toList.head? ≠ some '@' →
      IsPackage package package
  | ofScope {scope name : String} : '/' ∉ scope.toList → '/' ∉ name.toList →
      IsPackage ("@" ++ scope ++ "/" ++ name) (scope ++ "__" ++ name)

inductive Reads : (name package types : String) → (inside : Option String) → Prop
  | whole {package types : String} : IsPackage package types → Reads package package types none
  | slash {package types : String} : IsPackage package types → Reads (package ++ "/") package types none
  | inside {package types way : String} : IsPackage package types → way ≠ "" →
      Reads (package ++ "/" ++ way) package types (some way)

variable {before behind cs : List Char} {package types name : String} {inside : Option String}

section Split

theorem splitAtSlash?_append (h : '/' ∉ before) (count : Nat) (cs : List Char) :
    splitAtSlash? count (before ++ cs) =
      (splitAtSlash? count cs).map fun (middle, behind) => (before ++ middle, behind) := by
  induction before with
  | nil => simp
  | cons c before ih =>
    obtain ⟨hc, hbefore⟩ := List.ne_and_not_mem_of_not_mem_cons h
    rw [List.cons_append, splitAtSlash?.eq_def]
    dsimp only
    rw [if_neg (Ne.symm hc), ih hbefore, Option.map_map]
    rfl

theorem splitAtSlash?_of_not_mem (h : '/' ∉ cs) (count : Nat) : splitAtSlash? count cs = none := by
  have happend := splitAtSlash?_append h count []
  rwa [List.append_nil] at happend

theorem splitAtSlash?_one (h : '/' ∉ before) (behind : List Char) :
    splitAtSlash? 1 (before ++ '/' :: behind) = some (before, behind) := by
  rw [splitAtSlash?_append h]
  simp [splitAtSlash?]

theorem splitAtSlash?_two (h : '/' ∉ before) (behind : List Char) :
    splitAtSlash? 2 (before ++ '/' :: behind) =
      (splitAtSlash? 1 behind).map fun (middle, rest) => (before ++ '/' :: middle, rest) := by
  have hslash : splitAtSlash? 2 ('/' :: behind) =
      (splitAtSlash? 1 behind).map fun (middle, rest) => ('/' :: middle, rest) := by
    simp [splitAtSlash?]
  rw [splitAtSlash?_append h, hslash, Option.map_map]
  rfl

theorem ownSlashes_of_head (h : cs.head? ≠ some '@') : ownSlashes cs = 1 := by
  unfold ownSlashes
  split
  · exact absurd rfl h
  · rfl

theorem ownSlashes_eq_two_iff : ownSlashes cs = 2 ↔ cs.head? = some '@' := by
  constructor
  · intro htwo
    by_contra hhead
    rw [ownSlashes_of_head hhead] at htwo
    cases htwo
  · intro hhead
    obtain ⟨rest, rfl⟩ := List.head?_eq_some_iff.1 hhead
    rfl

theorem splitChars?_eq_none_iff : splitChars? cs = none ↔ cs.head? = some '@' ∧ '/' ∉ cs := by
  rw [splitChars?]
  split
  next package inside hsplit =>
    refine ⟨fun hnone => ?_, fun ⟨_, hslash⟩ => ?_⟩
    · split at hnone <;> cases hnone
    · rw [splitAtSlash?_of_not_mem hslash] at hsplit
      cases hsplit
  next => simp [ownSlashes_eq_two_iff]

theorem toList_ofScope (scope name : String) :
    ("@" ++ scope ++ "/" ++ name).toList = '@' :: (scope.toList ++ '/' :: name.toList) := by
  simp

end Split

section IsPackage

theorem splitAtSlash?_package (h : IsPackage package types) (behind : List Char) :
    splitAtSlash? (ownSlashes (package.toList ++ '/' :: behind)) (package.toList ++ '/' :: behind) =
      some (package.toList, behind) := by
  cases h with
  | plain hslash hhead =>
    have hone : ownSlashes (package.toList ++ '/' :: behind) = 1 := by
      refine ownSlashes_of_head ?_
      rw [List.head?_append]
      cases hp : package.toList.head? with
      | none => simp
      | some c => rwa [hp] at hhead
    rw [hone, splitAtSlash?_one hslash]
  | @ofScope scope name hscope hname =>
    have hat : '/' ∉ '@' :: scope.toList := by simpa using hscope
    have htwo : splitAtSlash? 2 (('@' :: scope.toList) ++ '/' :: (name.toList ++ '/' :: behind)) =
        some (('@' :: scope.toList) ++ '/' :: name.toList, behind) := by
      rw [splitAtSlash?_two hat, splitAtSlash?_one hname]
      rfl
    rw [toList_ofScope, List.cons_append, List.append_assoc, List.cons_append]
    exact htwo

theorem splitChars?_package (h : IsPackage package types) :
    splitChars? package.toList = some (package.toList, none) := by
  rw [splitChars?]
  cases h with
  | plain hslash hhead =>
    rw [splitAtSlash?_of_not_mem hslash, ownSlashes_of_head hhead]
    rfl
  | @ofScope scope name hscope hname =>
    have hat : '/' ∉ '@' :: scope.toList := by simpa using hscope
    have htwo : splitAtSlash? 2 (('@' :: scope.toList) ++ '/' :: name.toList) = none := by
      rw [splitAtSlash?_two hat, splitAtSlash?_of_not_mem hname]
      rfl
    rw [toList_ofScope]
    have hnone : splitAtSlash? (ownSlashes ('@' :: (scope.toList ++ '/' :: name.toList)))
        ('@' :: (scope.toList ++ '/' :: name.toList)) = none := htwo
    rw [hnone]
    simp

theorem typesOf_package (h : IsPackage package types) : typesOf package = types := by
  rw [typesOf]
  cases h with
  | plain hslash hhead =>
    split
    next heq => rw [heq] at hhead; exact absurd rfl hhead
    next => rfl
  | @ofScope scope name hscope hname =>
    rw [toList_ofScope]
    simp only [splitAtSlash?_one hscope]
    exact String.toList_injective (by simp)

theorem splitChars?_slash (h : IsPackage package types) (hne : package ≠ "") (behind : List Char) :
    splitChars? (package.toList ++ '/' :: behind) =
      some (package.toList, if behind.isEmpty then none else some behind) := by
  rw [splitChars?, splitAtSlash?_package h]
  simp [hne]

end IsPackage

theorem ne_empty_of_slash (hhead : name.toList.head? ≠ some '/')
    (hname : name.toList = package.toList ++ '/' :: behind) : package ≠ "" := by
  rintro rfl
  simp [hname] at hhead

theorem Reads.package_or_slash (h : Reads name package types inside) :
    IsPackage package types ∧ (name = package ∧ inside = none ∨
      ∃ behind, name.toList = package.toList ++ '/' :: behind ∧
        inside = if behind.isEmpty then none else some (String.ofList behind)) := by
  cases h with
  | whole hpackage => exact ⟨hpackage, .inl ⟨rfl, rfl⟩⟩
  | slash hpackage => exact ⟨hpackage, .inr ⟨[], by simp, rfl⟩⟩
  | @inside _ _ way hpackage hway => exact ⟨hpackage, .inr ⟨way.toList, by simp, by simp [hway]⟩⟩

theorem split?_of_reads (hname : name.toList.head? ≠ some '/') (h : Reads name package types inside) :
    split? name = some (package, inside) ∧ typesOf package = types := by
  obtain ⟨hpackage, hcut⟩ := h.package_or_slash
  refine ⟨?_, typesOf_package hpackage⟩
  obtain ⟨rfl, rfl⟩ | ⟨behind, hbehind, rfl⟩ := hcut
  · rw [split?, splitChars?_package hpackage]
    simp
  · rw [split?, hbehind, splitChars?_slash hpackage (ne_empty_of_slash hname hbehind)]
    cases behind <;> simp

theorem exists_reads_behind (h : IsPackage package types)
    (hname : name.toList = package.toList ++ '/' :: behind) :
    ∃ inside, Reads name package types inside := by
  by_cases hbehind : behind = []
  · obtain rfl : name = package ++ "/" := String.toList_injective (by simp [hname, hbehind])
    exact ⟨none, .slash h⟩
  · obtain rfl : name = package ++ "/" ++ String.ofList behind :=
      String.toList_injective (by simp [hname])
    exact ⟨some (String.ofList behind), .inside h (by simpa using hbehind)⟩

def IsScopeAlone (name : String) : Prop := name.toList.head? = some '@' ∧ '/' ∉ name.toList

theorem split?_eq_none_iff : split? name = none ↔ IsScopeAlone name := by
  rw [split?, Option.map_eq_none_iff, splitChars?_eq_none_iff, IsScopeAlone]

theorem exists_reads (h : split? name ≠ none) :
    ∃ package types inside, Reads name package types inside := by
  by_cases hscope : name.toList.head? = some '@'
  · obtain ⟨rest, hrest⟩ := List.head?_eq_some_iff.1 hscope
    by_cases hslash : '/' ∈ rest
    · obtain ⟨scope, more, rfl, hbefore⟩ := List.eq_append_cons_of_mem hslash
      have hpackage : ∀ own, '/' ∉ own → IsPackage ("@" ++ String.ofList scope ++ "/" ++ String.ofList own)
          (String.ofList scope ++ "__" ++ String.ofList own) := fun own hown =>
        .ofScope (by simpa using hbefore) (by simpa using hown)
      by_cases hmore : '/' ∈ more
      · obtain ⟨own, behind, rfl, hown⟩ := List.eq_append_cons_of_mem hmore
        have hlist : name.toList =
            ("@" ++ String.ofList scope ++ "/" ++ String.ofList own).toList ++ '/' :: behind := by
          simp [hrest]
        obtain ⟨inside, hinside⟩ := exists_reads_behind (hpackage own hown) hlist
        exact ⟨_, _, inside, hinside⟩
      · obtain rfl : name = "@" ++ String.ofList scope ++ "/" ++ String.ofList more :=
          String.toList_injective (by simp [hrest])
        exact ⟨_, _, none, .whole (hpackage more hmore)⟩
    · exact absurd (split?_eq_none_iff.2 ⟨hscope, by simpa [hrest] using hslash⟩) h
  · by_cases hslash : '/' ∈ name.toList
    · obtain ⟨before, behind, hsplit, hbefore⟩ := List.eq_append_cons_of_mem hslash
      have hhead : (String.ofList before).toList.head? ≠ some '@' := by
        intro heq
        rw [String.toList_ofList] at heq
        exact hscope (by rw [hsplit, List.head?_append, heq, Option.some_or])
      have hpackage : IsPackage (String.ofList before) (String.ofList before) :=
        .plain (by simpa using hbefore) hhead
      obtain ⟨inside, hinside⟩ := exists_reads_behind hpackage (hsplit.trans (by rw [String.toList_ofList]))
      exact ⟨_, _, inside, hinside⟩
    · exact ⟨name, name, none, .whole (.plain hslash hscope)⟩

section Longest

def slashesAllowed (name : String) : Nat := if name.toList.head? = some '@' then 1 else 0

/-- The longest beginning of a name that has no more slashes than its package can have. -/
structure IsLongest (name package : String) : Prop where
  begins : package.toList <+: name.toList
  slashes_le : package.toList.count '/' ≤ slashesAllowed name
  longest : ∀ start, start <+: name.toList → start.count '/' ≤ slashesAllowed name →
    start.length ≤ package.length

/-- What a name is made of: a package with at most a slash behind it, or with a way behind the slash. -/
def Consists (name package : String) : (inside : Option String) → Prop
  | none => name = package ∨ name = package ++ "/"
  | some way => way ≠ "" ∧ name = package ++ "/" ++ way

def rejoin (package : String) : (inside : Option String) → String
  | none => package
  | some way => package ++ "/" ++ way

theorem IsPackage.count_slash (h : IsPackage package types) :
    package.toList.count '/' = slashesAllowed package := by
  cases h with
  | plain hslash hhead => rw [slashesAllowed, if_neg hhead, List.count_eq_zero.2 hslash]
  | @ofScope scope name hscope hname =>
    rw [slashesAllowed, toList_ofScope, List.head?_cons, if_pos rfl, List.count_cons_of_ne (by decide),
      List.count_append, List.count_cons_self, List.count_eq_zero.2 hscope, List.count_eq_zero.2 hname]

theorem slashesAllowed_of_begins (hne : package ≠ "") (h : package.toList <+: name.toList) :
    slashesAllowed name = slashesAllowed package := by
  obtain ⟨rest, hrest⟩ := h
  have hhead : (package.toList ++ rest).head? = package.toList.head? :=
    List.head?_append_of_ne_nil _ (by simpa using hne)
  rw [slashesAllowed, slashesAllowed, ← hrest, hhead]

theorem IsPackage.isLongest_self (h : IsPackage package types) : IsLongest package package where
  begins := List.prefix_rfl
  slashes_le := h.count_slash.le
  longest _ hstart _ := by
    rw [← String.length_toList]
    exact hstart.length_le

theorem IsPackage.isLongest (h : IsPackage package types) (hhead : name.toList.head? ≠ some '/')
    (hname : name.toList = package.toList ++ '/' :: behind) : IsLongest name package := by
  have hbegins : package.toList <+: name.toList := ⟨_, hname.symm⟩
  have hallowed : package.toList.count '/' = slashesAllowed name := by
    rw [slashesAllowed_of_begins (ne_empty_of_slash hhead hname) hbegins, h.count_slash]
  refine ⟨hbegins, hallowed.le, fun start hstart hcount => ?_⟩
  by_contra hlonger
  have hslash : package.toList ++ ['/'] <+: name.toList := ⟨behind, by simp [hname]⟩
  have hmore : package.toList ++ ['/'] <+: start := by
    refine List.prefix_of_prefix_length_le hslash hstart ?_
    rw [List.length_append, String.length_toList, List.length_singleton]
    omega
  have hle : (package.toList ++ ['/']).count '/' ≤ start.count '/' := hmore.sublist.count_le '/'
  rw [List.count_append, List.count_singleton_self] at hle
  omega

theorem Reads.isLongest (hname : name.toList.head? ≠ some '/') (h : Reads name package types inside) :
    IsLongest name package := by
  obtain ⟨hpackage, ⟨rfl, -⟩ | ⟨behind, hbehind, -⟩⟩ := h.package_or_slash
  · exact hpackage.isLongest_self
  · exact hpackage.isLongest hname hbehind

theorem Reads.consists (h : Reads name package types inside) : Consists name package inside := by
  cases h with
  | whole _ => exact .inl rfl
  | slash _ => exact .inr rfl
  | inside _ hway => exact ⟨hway, rfl⟩

theorem Consists.eq_rejoin (h : Consists name package inside) :
    name = rejoin package inside ∨ inside = none ∧ name = rejoin package inside ++ "/" := by
  cases inside with
  | none => exact h.imp_right fun hslash => ⟨rfl, hslash⟩
  | some way => exact .inl h.2

end Longest

/-- Unless a name starts with a slash, it is a scope alone, which is not split, or it is split behind the
longest beginning that its package can have. Then it is made of what it is split into, and is got back by
joining that again, but for a slash at the end. -/
theorem split?_longest (name : String) (hname : name.toList.head? ≠ some '/') :
    (split? name = none ↔ IsScopeAlone name)
      ∧ (¬ IsScopeAlone name → ∃ package inside, split? name = some (package, inside)
          ∧ IsLongest name package ∧ Consists name package inside
          ∧ (name = rejoin package inside ∨ inside = none ∧ name = rejoin package inside ++ "/")) := by
  refine ⟨split?_eq_none_iff, fun hscope => ?_⟩
  obtain ⟨package, types, inside, hreads⟩ := exists_reads (mt split?_eq_none_iff.1 hscope)
  obtain ⟨hsplit, -⟩ := split?_of_reads hname hreads
  exact ⟨package, inside, hsplit, hreads.isLongest hname, hreads.consists, hreads.consists.eq_rejoin⟩

theorem doubledSlashes_longest :
    split? "@äö" = none
      ∧ split? "@äö//kit//" = some ("@äö/", some "kit//")
      ∧ IsLongest "@äö//kit//" "@äö/"
      ∧ Consists "@äö//kit//" "@äö/" (some "kit//") := by
  have hslash : ¬ IsScopeAlone "@äö//kit//" := fun h => absurd h.2 (by decide)
  obtain ⟨package, inside, hsplit, hlongest, hconsists, -⟩ :=
    (split?_longest "@äö//kit//" (by decide)).2 hslash
  have hparts : split? "@äö//kit//" = some ("@äö/", some "kit//") := by decide
  obtain ⟨rfl, rfl⟩ := Prod.mk.inj (Option.some.inj (hsplit.symm.trans hparts))
  exact ⟨(split?_longest "@äö" (by decide)).1.2 ⟨by decide, by decide⟩, hparts, hlongest, hconsists⟩

end CallDiagram.PackageName
