import CallDiagram.Proofs.Glob.Literal
import CallDiagram.Proofs.Path.Characters
import CallDiagram.Proofs.Project.Members
import Mathlib.Data.List.Infix

namespace CallDiagram

namespace Glob

variable {pattern base here trail name : String} {cs : List Char} {dirs parts : List String} {way : Location}

def isPlainName (name : String) : Bool :=
  name ≠ "" && name.toList.all fun c => c ∉ '/' :: '.' :: special

/-- The ways to write a directory as a pattern, seen from the root of a project. -/
def spellings (dirs : List String) : List String :=
  if dirs = [] then [".", "./"]
  else ["", "./"].flatMap fun here => ["", "/"].map fun trail => here ++ Text.unpieces '/' dirs ++ trail

section Tidy

theorem dropHere_eq_self (h : cs.head? ≠ some '.') : dropHere cs = cs := by
  unfold dropHere
  split
  · exact absurd rfl h
  · rfl

theorem dropSlashes_eq_self (h : cs.head? ≠ some '/') : cs.dropWhile (· == '/') = cs := by
  cases cs with
  | nil => rfl
  | cons c cs => rw [List.dropWhile_cons_of_neg (by simpa using h)]

theorem tidy_spelling (hne : base ≠ "") (hhead : base.toList.head? ≠ some '.')
    (hlast : base.toList.getLast? ≠ some '/') (hhere : here ∈ ["", "./"]) (htrail : trail ∈ ["", "/"]) :
    tidy (here ++ base ++ trail) = base := by
  simp only [List.mem_cons, List.not_mem_nil, or_false] at hhere htrail
  have hstart : (base.toList ++ trail.toList).head? ≠ some '.' := by
    rwa [List.head?_append_of_ne_nil _ (mt String.toList_eq_nil_iff.1 hne)]
  have hdrop : dropHere (here ++ base ++ trail).toList = base.toList ++ trail.toList := by
    rw [String.toList_append, String.toList_append, List.append_assoc]
    rcases hhere with rfl | rfl <;> exact dropHere_eq_self hstart
  have hend : base.toList.reverse.dropWhile (· == '/') = base.toList.reverse :=
    dropSlashes_eq_self (by rwa [List.head?_reverse])
  have htrim : (base.toList ++ trail.toList).reverse.dropWhile (· == '/') = base.toList.reverse := by
    rw [List.reverse_append]
    rcases htrail with rfl | rfl <;> exact hend
  rw [tidy, hdrop, htrim, List.reverse_reverse, String.ofList_toList]

end Tidy

section Compile

theorem exists_compile_singleton (htidy : tidy pattern = base) (hplain : ∀ c ∈ base.toList, c ∉ special)
    (hextension : (Path.mk base).extension? = none) :
    ∃ globs, compile [pattern] = .ok globs ∧ ∀ text, anyMatch globs text ↔
      text = base ∨ ∃ rest, text.toList = base.toList ++ '/' :: rest := by
  have hdirectory : mayBeDirectory base := by
    have hstar : '*' ∉ base.toList := fun hstar => hplain '*' hstar (by decide)
    simpa [mayBeDirectory, hextension] using hstar
  have hglobs : globsOf pattern = [base, base ++ "/**/*"] := by
    simp only [globsOf, htidy, hdirectory, if_true]
  refine ⟨[⟨base.toList.map .literal⟩, ⟨base.toList.map .literal ++ [.directoriesBetween, .anything]⟩],
    ?_, fun text => ?_⟩
  · rw [compile, List.flatMap_singleton, hglobs, mapM_eq_ok]
    simp only [List.map_cons, List.map_nil, parse_literals base hplain, parse_below base hplain]
    rfl
  · simp only [anyMatch, List.any_cons, List.any_nil, Bool.or_false, Bool.or_eq_true, isMatch_literals,
      isMatch_below]

theorem exists_compile_unpieces (htidy : tidy pattern = Text.unpieces '/' parts) (hne : parts ≠ [])
    (hplain : ∀ part ∈ parts, ∀ c ∈ part.toList, c ∉ '/' :: special)
    (hextension : (Path.mk (Text.unpieces '/' parts)).extension? = none) :
    ∃ globs, compile [pattern] = .ok globs ∧ ∀ way : Location, way ≠ [] → (∀ name ∈ way, '/' ∉ name.toList) →
      (anyMatch globs (Text.unpieces '/' way) ↔ parts <+: way) := by
  have hslash : ∀ part ∈ parts, '/' ∉ part.toList := fun part hpart hmem =>
    hplain part hpart '/' hmem List.mem_cons_self
  have hspecial : ∀ c ∈ (Text.unpieces '/' parts).toList, c ∉ special := by
    intro c hc hmem
    have hsep : c ≠ '/' := fun heq => absurd (heq ▸ hmem) (by decide)
    rw [Text.unpieces, String.toList_ofList] at hc
    refine Text.not_mem_join hsep (fun part hpart hin => ?_) hc
    obtain ⟨text, htext, rfl⟩ := List.mem_map.1 hpart
    exact hplain text htext c hin (List.mem_cons_of_mem _ hmem)
  obtain ⟨globs, hglobs, hmatch⟩ := exists_compile_singleton htidy hspecial hextension
  refine ⟨globs, hglobs, fun way hway hnames => ?_⟩
  have hfirst := Text.join_prefix_iff (by simpa using hne) (by simpa using hway)
    (List.forall_mem_map.2 hslash) (List.forall_mem_map.2 hnames)
  rw [List.prefix_map_iff_of_injective fun _ _ => String.toList_injective] at hfirst
  rw [hmatch, ← hfirst, Text.unpieces, Text.unpieces, String.ofList_inj, String.toList_ofList,
    String.toList_ofList]

end Compile

section Directories

theorem isPlainName_iff : isPlainName name ↔ name ≠ "" ∧ ∀ c ∈ name.toList, c ∉ '/' :: '.' :: special := by
  simp [isPlainName]

theorem not_mem_unpieces_of_plain (hdirs : ∀ name ∈ dirs, isPlainName name) :
    '.' ∉ (Text.unpieces '/' dirs).toList := by
  rw [Text.unpieces, String.toList_ofList]
  refine Text.not_mem_join (by decide) (List.forall_mem_map.2 fun name hname hdot => ?_)
  exact (isPlainName_iff.1 (hdirs name hname)).2 '.' hdot (by decide)

theorem not_isSource_of_plain (hdirs : ∀ name ∈ dirs, isPlainName name) : ¬ Project.isSource dirs := by
  intro hsource
  obtain ⟨extension, hextension, -⟩ := Project.isSource_iff.1 hsource
  have hdot : '.' ∉ (Location.toPath dirs).text.toList := by
    have hrest := not_mem_unpieces_of_plain hdirs
    simpa [Location.toPath] using hrest
  rw [Path.extension?_of_not_mem hdot] at hextension
  cases hextension

theorem tidy_of_mem_spellings (hdirs : ∀ name ∈ dirs, isPlainName name) (hne : dirs ≠ [])
    (hpattern : pattern ∈ spellings dirs) : tidy pattern = Text.unpieces '/' dirs := by
  rw [spellings, if_neg hne] at hpattern
  obtain ⟨here, hhere, hrest⟩ := List.mem_flatMap.1 hpattern
  obtain ⟨trail, htrail, rfl⟩ := List.mem_map.1 hrest
  have hblank : "" ∉ dirs := fun hmem => (isPlainName_iff.1 (hdirs "" hmem)).1 rfl
  have hpieces : Text.pieces '/' (Text.unpieces '/' dirs) = dirs :=
    Text.pieces_unpieces hne fun name hname hslash =>
      (isPlainName_iff.1 (hdirs name hname)).2 '/' hslash List.mem_cons_self
  refine tidy_spelling (fun hempty => ?_) (fun hdot => ?_) (fun hslash => ?_) hhere htrail
  · rw [hempty] at hpieces
    exact hblank (hpieces ▸ List.mem_singleton_self "")
  · exact not_mem_unpieces_of_plain hdirs (List.mem_of_head? hdot)
  · -- Behind a slash at the end there would be one more name, a blank one.
    obtain ⟨cs, hcs⟩ := List.getLast?_eq_some_iff.1 hslash
    rw [Text.pieces, hcs, Text.cut_append_cons, List.map_append] at hpieces
    exact hblank (hpieces ▸ List.mem_append_right _ (List.mem_singleton_self ""))

theorem exists_part_of_mem_spellings (hpattern : pattern ∈ spellings []) :
    ∃ part ∈ ["", "."], tidy pattern = Text.unpieces '/' [part] := by
  have hall : ∀ pattern ∈ spellings [], ∃ part ∈ ["", "."], tidy pattern = Text.unpieces '/' [part] := by
    decide
  exact hall pattern hpattern

/-- A pattern for a directory selects the sources whose way begins with its names and goes on below,
however it is written. The patterns for the root select nothing. -/
theorem directory_selects (hdirs : ∀ name ∈ dirs, isPlainName name) (hpattern : pattern ∈ spellings dirs) :
    ∃ globs, compile [pattern] = .ok globs
      ∧ ∀ way : Location, (∀ name ∈ way, Entry.isName name) → Project.isSource way →
        (anyMatch globs (Text.unpieces '/' way) ↔ dirs ≠ [] ∧ dirs <+: way ∧ dirs.length < way.length) := by
  have hslashes : ∀ {way : Location}, (∀ name ∈ way, Entry.isName name) → ∀ name ∈ way, '/' ∉ name.toList :=
    fun hnames name hname => Location.not_mem_of_isName (hnames name hname)
  rcases eq_or_ne dirs [] with rfl | hne
  · obtain ⟨part, hpart, htidy⟩ := exists_part_of_mem_spellings hpattern
    have hplain : ∀ part ∈ ["", "."], ∀ c ∈ part.toList, c ∉ '/' :: special := by simp [special]
    have hextension : ∀ part ∈ ["", "."], (Path.mk (Text.unpieces '/' [part])).extension? = none := by decide
    have hname : ∀ part ∈ ["", "."], Entry.isName part = false := by decide
    obtain ⟨globs, hglobs, hmatch⟩ := exists_compile_unpieces htidy (List.cons_ne_nil part [])
      (List.forall_mem_singleton.2 (hplain part hpart)) (hextension part hpart)
    refine ⟨globs, hglobs, fun way hnames hsource => ?_⟩
    rw [hmatch way (Project.ne_nil_of_isSource hsource) (hslashes hnames)]
    refine iff_of_false (fun hfirst => ?_) fun h => h.1 rfl
    have hmem := hnames part (hfirst.subset (List.mem_singleton_self part))
    rw [hname part hpart] at hmem
    cases hmem
  · have hplain : ∀ name ∈ dirs, ∀ c ∈ name.toList, c ∉ '/' :: special := by
      intro name hname c hc hmem
      refine (isPlainName_iff.1 (hdirs name hname)).2 c hc ?_
      exact List.cons_subset_cons '/' (List.subset_cons_self '.' special) hmem
    have hextension := Path.extension?_of_not_mem (p := ⟨_⟩) (not_mem_unpieces_of_plain hdirs)
    obtain ⟨globs, hglobs, hmatch⟩ :=
      exists_compile_unpieces (tidy_of_mem_spellings hdirs hne hpattern) hne hplain hextension
    refine ⟨globs, hglobs, fun way hnames hsource => ?_⟩
    rw [hmatch way (Project.ne_nil_of_isSource hsource) (hslashes hnames)]
    refine ⟨fun hfirst => ⟨hne, hfirst, ?_⟩, fun h => h.2.1⟩
    refine lt_of_le_of_ne hfirst.length_le fun hlength => not_isSource_of_plain hdirs ?_
    rwa [hfirst.eq_of_length hlength]

theorem directory_selects_below :
    (∀ name ∈ ["src", "a,b"], isPlainName name) ∧ "./src/a,b/" ∈ spellings ["src", "a,b"]
      ∧ ∃ globs, compile ["./src/a,b/"] = .ok globs ∧ anyMatch globs "src/a,b/c/d.ts"
        ∧ anyMatch globs "src/a,bc/d.ts" = false := by
  have hdirs : ∀ name ∈ ["src", "a,b"], isPlainName name := by decide
  have hpattern : "./src/a,b/" ∈ spellings ["src", "a,b"] := by decide
  obtain ⟨globs, hglobs, hmatch⟩ := directory_selects hdirs hpattern
  refine ⟨hdirs, hpattern, globs, hglobs, ?_, ?_⟩
  · exact (hmatch ["src", "a,b", "c", "d.ts"] (by decide) (by decide +kernel)).2 (by decide)
  · rw [← Bool.not_eq_true]
    exact mt (hmatch ["src", "a,bc", "d.ts"] (by decide) (by decide +kernel)).1 (by decide)

def rootIncluded : FileTree where
  top := [("a.ts", .file (.text "")), ("tsconfig.json", .file (.text "\x7b\"include\":[\".\"]\x7d"))]

/-- Each source lies below the root, and yet the patterns for the root leave it out. -/
theorem root_selects_nothing :
    spellings [] = [".", "./"] ∧ Entry.isName "a.ts" ∧ Project.isSource ["a.ts"]
      ∧ (∀ pattern ∈ spellings [], ∃ globs, compile [pattern] = .ok globs
        ∧ anyMatch globs (Text.unpieces '/' ["a.ts"]) = false)
      ∧ ∃ p, Project.load rootIncluded ⟨"/tsconfig.json"⟩ = .ok p
        ∧ p.settings.included = some ["."] ∧ p.files = [] := by
  have hall : ∀ pattern ∈ spellings [], ∃ globs ∈ (compile [pattern]).toOption,
      anyMatch globs (Text.unpieces '/' ["a.ts"]) = false := by decide +kernel
  refine ⟨rfl, by decide, by decide +kernel, fun pattern hpattern => ?_, ?_⟩
  · exact exists_ok_of_toOption (hall pattern hpattern)
  · exact exists_ok_of_toOption (by decide +kernel)

end Directories

end Glob

end CallDiagram
