import CallDiagram.Path.Package
import CallDiagram.Path.Relative
import CallDiagram.Proofs.Text.Cut

namespace CallDiagram.Path

variable {c : Char} {cs name : List Char} {p source target : Path}

theorem mem_of_mem_leadingPackage? (hname : leadingPackage? cs = some name) (hc : c ∈ name) :
    c = '/' ∨ c ∈ cs := by
  have hfirst : ∀ d ∈ cs.takeWhile (· ≠ '/'), d ∈ cs := fun d hd =>
    (List.takeWhile_sublist _).subset hd
  have hsecond : ∀ d ∈ (cs.drop ((cs.takeWhile (· ≠ '/')).length + 1)).takeWhile (· ≠ '/'),
      d ∈ cs := fun d hd => (List.drop_sublist _ _).subset ((List.takeWhile_sublist _).subset hd)
  simp only [leadingPackage?] at hname
  split at hname
  · cases hname
  · split at hname
    · cases hname
      exact .inr (hfirst c hc)
    · cases hname
      rcases List.mem_append.1 hc with hc | hc
      · exact .inr (hfirst c hc)
      · exact (List.mem_cons.1 hc).imp_right (hsecond c)
  · cases hname
    exact .inr (hfirst c hc)

theorem mem_of_mem_packagesIn {skip : Nat} (hname : name ∈ packagesIn skip cs) (hc : c ∈ name) :
    c = '/' ∨ c ∈ cs := by
  fun_induction packagesIn skip cs with
  | case1 => cases hname
  | case2 d cs skip ih => exact (ih hname).imp_right (List.mem_cons_of_mem d)
  | case3 d cs marker hmarker package hpackage ih =>
    rcases List.mem_cons.1 hname with rfl | hname
    · exact (mem_of_mem_leadingPackage? hpackage hc).imp_right fun h =>
        (List.drop_sublist _ _).subset h
    · exact (ih hname).imp_right (List.mem_cons_of_mem d)
  | case4 d cs marker hmarker hpackage ih => exact (ih hname).imp_right (List.mem_cons_of_mem d)
  | case5 d cs marker hmarker ih => exact (ih hname).imp_right (List.mem_cons_of_mem d)

theorem not_mem_package (hslash : c ≠ '/') (hunknown : c ∉ unknownPackage.toList)
    (h : c ∉ p.text.toList) : c ∉ p.package.toList := by
  rw [package]
  split
  · next name hname =>
    rw [String.toList_ofList]
    intro hc
    have hmem := mem_of_mem_packagesIn (List.mem_of_getLast? hname) hc
    rcases hmem with hc | hc
    · exact hslash hc
    · obtain ⟨d, hd, hdc⟩ := List.mem_map.1 hc
      split at hdc
      · exact hslash hdc.symm
      · exact h (hdc ▸ hd)
  · exact hunknown

theorem not_mem_name {s : String} (h : c ∉ p.text.toList) (hname : .name s ∈ p.components) : c ∉ s.toList := by
  simp only [components, List.mem_append, List.mem_map, List.mem_filter] at hname
  obtain hstart | ⟨piece, ⟨hpiece, -⟩, heq⟩ := hname
  · split at hstart <;> simp at hstart
  · rw [pieceComponent] at heq
    split at heq
    · cases heq
    · cases heq
      rw [String.toList_ofList]
      exact fun hc => h ((List.drop_sublist _ _).subset (Text.mem_of_mem_cut hpiece hc))

theorem extension?_of_not_mem (h : '.' ∉ p.text.toList) : p.extension? = none := by
  rw [extension?, Option.bind_eq_none_iff]
  intro name hname
  rw [fileName?] at hname
  split at hname
  · next last hlast =>
    cases hname
    rw [splitAtDot, Text.cut_of_not_mem (not_mem_name h (List.mem_of_getLast? hlast))]
    rfl
  · cases hname

theorem not_mem_text_component (hslash : c ≠ '/') (hdot : c ≠ '.') (h : c ∉ p.text.toList)
    {component : Component} (hcomponent : component ∈ p.components) :
    c ∉ component.text.toList := by
  cases component with
  | root => simpa [Component.text] using hslash
  | here => simpa [Component.text] using hdot
  | up => simpa [Component.text] using hdot
  | name s => exact not_mem_name h hcomponent

theorem not_mem_relative (hslash : c ≠ '/') (hdot : c ≠ '.') (h : c ∉ target.text.toList) :
    c ∉ (relative source target).toList := by
  rw [relative, Text.unpieces, String.toList_ofList]
  refine Text.not_mem_join hslash fun part hpart => ?_
  obtain ⟨text, htext, rfl⟩ := List.mem_map.1 hpart
  rcases List.mem_append.1 htext with htext | htext
  · rw [List.eq_of_mem_replicate htext]
    simpa using hdot
  · obtain ⟨component, hcomponent, rfl⟩ := List.mem_map.1 htext
    exact not_mem_text_component hslash hdot h ((List.drop_sublist _ _).subset hcomponent)

end CallDiagram.Path
