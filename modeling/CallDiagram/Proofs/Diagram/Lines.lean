import CallDiagram.Proofs.Diagram.Drawn
import CallDiagram.Proofs.Path.Characters

/-!
The text of a diagram read back. Its statements are told apart by the line feeds outside quotes, and the
ends of an arrow by the ` -> ` outside quotes, whatever names and paths are made of. Plain lines are
statements as long as no name and no path that is shown holds a line feed, which quoting leaves as it is.
-/

namespace CallDiagram

open List (Forall₂)
open Text (Sealed piecesOutside)

namespace Group

theorem sealed_pieces {stop : Char} (hstop : stop ∉ dependencies.toList) (group : Group) :
    ∀ piece ∈ group.pieces, Sealed stop piece := by
  have hbare : Sealed stop dependencies.toList := .of_bare hstop (by decide)
  cases group with
  | unnamed => simp [pieces]
  | current => simp [pieces, Sealed.encode]
  | file path => simp [pieces, Sealed.encode]
  | package name => simp [pieces, Sealed.encode, hbare]

end Group

namespace Naming

variable {n : Naming} {d : DeclarationId} {identifier : String}

theorem sealed_identifier {stop : Char} (hstop : stop ∉ '.' :: Group.dependencies.toList)
    (h : n.identifier? d = some identifier) : Sealed stop identifier.toList := by
  obtain ⟨hdot, hdependencies⟩ := List.ne_and_not_mem_of_not_mem_cons hstop
  obtain ⟨group, -, hlist⟩ := toList_identifier h
  rw [hlist]
  refine .join (Ne.symm hdot) (by decide) fun part hpart => ?_
  rcases List.mem_append.1 hpart with hpart | hpart
  · exact group.sealed_pieces hdependencies part hpart
  · obtain ⟨segment, -, rfl⟩ := List.mem_map.1 hpart
    exact .encode stop _

end Naming

namespace Resolver

structure IsOneLine (r : Resolver) (d : DeclarationId) : Prop where
  name : ∀ x ∈ r.declarations[d]?, ∀ name ∈ x.displayName?, '\n' ∉ name.toList
  path : ∀ file ∈ r.unitOf? d, '\n' ∉ file.path.text.toList

end Resolver

namespace Naming

variable {n : Naming} {d : DeclarationId} {identifier : String}

theorem not_mem_segments (h : n.resolver.IsOneLine d) :
    ∀ segment ∈ n.segments d, '\n' ∉ segment.toList := by
  have hmark : ∀ names : List String, (∀ name ∈ names, '\n' ∉ name.toList) →
      ∀ segment ∈ markCallable names, '\n' ∉ segment.toList := by
    intro names hnames
    induction names with
    | nil => simp [markCallable]
    | cons name names ih =>
      cases names with
      | nil => simpa [markCallable] using hnames
      | cons next names =>
        simp only [markCallable, List.forall_mem_cons] at hnames ih ⊢
        exact ⟨hnames.1, ih hnames.2⟩
  refine hmark _ fun segment hsegment => ?_
  obtain ⟨piece, hpiece, rfl⟩ := List.mem_map.1 hsegment
  rw [String.toList_ofList]
  refine fun hc => ?_
  have hname := Text.mem_of_mem_cut hpiece hc
  cases hdisplay : n.resolver.declarations[d]?.bind Declaration.displayName? with
  | none =>
    rw [hdisplay] at hname
    revert hname
    decide
  | some name =>
    rw [hdisplay] at hname
    obtain ⟨x, hx, hdisplay⟩ := Option.bind_eq_some_iff.1 hdisplay
    exact h.name x hx name hdisplay hname

theorem not_mem_pieces (h : n.resolver.IsOneLine d) {group : Group}
    (hgroup : n.groupOf? d = some group) : ∀ piece ∈ group.pieces, '\n' ∉ piece := by
  have hencode : ∀ {s : String}, '\n' ∉ s.toList → '\n' ∉ Text.Quoted.encode s.toList :=
    Text.Quoted.not_mem_encode (by decide) (by decide)
  obtain ⟨x, hx, hgroup⟩ := Option.bind_eq_some_iff.1 hgroup
  rw [group?] at hgroup
  split at hgroup
  · split at hgroup
    · cases hgroup
      simp [Group.pieces]
    · cases hgroup
      simpa [Group.pieces] using hencode (by decide)
  · split at hgroup
    · cases hgroup
    · next file hfile =>
      have hpath : '\n' ∉ file.path.text.toList :=
        h.path file (Option.bind_eq_some_iff.2 ⟨x, hx, hfile⟩)
      split at hgroup
      · split at hgroup
        · cases hgroup
        · cases hgroup
          have hpackage : '\n' ∉ file.path.package.toList :=
            Path.not_mem_package (by decide) (by decide) hpath
          simpa [Group.pieces] using ⟨by decide, hencode hpackage⟩
      · split at hgroup
        · cases hgroup
          simp [Group.pieces]
        · cases hgroup
          have hrelative : '\n' ∉ (Path.relative n.directory file.path).toList :=
            Path.not_mem_relative (by decide) (by decide) hpath
          simpa [Group.pieces] using hencode hrelative

theorem not_mem_identifier (h : n.resolver.IsOneLine d) (hidentifier : n.identifier? d = some identifier) :
    '\n' ∉ identifier.toList := by
  obtain ⟨group, hgroup, hlist⟩ := toList_identifier hidentifier
  rw [hlist]
  refine Text.not_mem_join (by decide) fun part hpart => ?_
  rcases List.mem_append.1 hpart with hpart | hpart
  · exact not_mem_pieces h hgroup part hpart
  · obtain ⟨segment, hsegment, rfl⟩ := List.mem_map.1 hpart
    exact Text.Quoted.not_mem_encode (by decide) (by decide) (not_mem_segments h segment hsegment)

end Naming

namespace DiagramLine

def names : DiagramLine → List String
  | .downward | .fillDependencies | .pinDependencies => []
  | .pinRoot group => [group]
  | .fillRoot identifier => [identifier]
  | .arrow source target => [source, target]

theorem sealed_fill {name colour : String} (hname : Sealed '\n' name.toList)
    (hcolour : colour.toList.flatMap Text.Quoted.escape = colour.toList) :
    Sealed '\n' (name ++ ".style.fill: \"" ++ colour ++ "\"").toList := by
  have hlist : (name ++ ".style.fill: \"" ++ colour ++ "\"").toList
      = name.toList ++ (".style.fill: ".toList ++ Text.Quoted.encode colour.toList) := by
    simp [Text.Quoted.encode, hcolour]
  rw [hlist]
  exact hname.append ((Sealed.of_bare (by decide) (by decide)).append (.encode _ _))

theorem sealed_text {line : DiagramLine} (h : ∀ name ∈ line.names, Sealed '\n' name.toList) :
    Sealed '\n' line.text.toList := by
  cases line with
  | downward => exact .of_bare (by decide) (by decide)
  | pinRoot group =>
    rw [text, String.toList_append]
    exact (h group (by simp [names])).append (.of_bare (by decide) (by decide))
  | fillRoot identifier => exact sealed_fill (h identifier (by simp [names])) (by decide)
  | fillDependencies => exact sealed_fill (.of_bare (by decide) (by decide)) (by decide)
  | pinDependencies => exact .of_bare (by decide) (by decide)
  | arrow source target =>
    rw [text, String.toList_append, String.toList_append]
    exact ((h source (by simp [names])).append (.of_bare (by decide) (by decide))).append
      (h target (by simp [names]))

theorem not_mem_text_iff {line : DiagramLine} :
    '\n' ∉ line.text.toList ↔ ∀ name ∈ line.names, '\n' ∉ name.toList := by
  have hfixed : '\n' ∉ rootColour.toList ∧ '\n' ∉ dependencyColour.toList
      ∧ '\n' ∉ Group.dependencies.toList := by decide
  cases line <;> simp_all [names, text]

theorem piecesOutside_arrow {source target : String} (hsource : Sealed ' ' source.toList)
    (htarget : Sealed ' ' target.toList) :
    piecesOutside " -> " (DiagramLine.arrow source target).text = [source, target] := by
  have htext : (DiagramLine.arrow source target).text.toList
      = source.toList ++ ' ' :: (['-', '>', ' '] ++ target.toList) := by
    simp [text]
  have hsep : " -> ".toList = ' ' :: ['-', '>', ' '] := by decide
  rw [piecesOutside, htext, hsep, hsource.cutOutside_sep (by decide),
    htarget.cutOutside_eq (by decide)]
  simp

example : piecesOutside " -> " (arrow "\"a -> \\\" -> b\"" "\"c\"").text
    = ["\"a -> \\\" -> b\"", "\"c\""] := by
  decide +kernel

end DiagramLine

namespace Drawing

theorem toList_render (drawing : Drawing) :
    (render drawing).toList
      = (drawing.map fun line => line.text.toList).flatMap (· ++ ['\n']) := by
  simp [render, String.toList_join, List.flatMap_map]

theorem piecesOutside_render {drawing : Drawing}
    (h : ∀ line ∈ drawing, Sealed '\n' line.text.toList) :
    piecesOutside "\n" (render drawing) = drawing.map DiagramLine.text ++ [""] := by
  have hlines : ∀ lines : List (List Char), (∀ line ∈ lines, Sealed '\n' line) →
      Text.cutOutside ['\n'] .outside 0 (lines.flatMap (· ++ ['\n'])) = lines ++ [[]] := by
    intro lines hlines
    induction lines with
    | nil => rfl
    | cons line lines ih =>
      have hline := (hlines line List.mem_cons_self).cutOutside_sep (by decide) []
        (lines.flatMap (· ++ ['\n']))
      rw [List.flatMap_cons, List.append_assoc, List.singleton_append]
      rw [List.nil_append] at hline
      rw [hline, ih fun l hl => hlines l (List.mem_cons_of_mem line hl), List.cons_append]
  have hsep : "\n".toList = ['\n'] := by decide
  rw [piecesOutside, hsep, toList_render, hlines _ (by simpa using h)]
  simp [Function.comp_def]

theorem pieces_render_iff {drawing : Drawing} :
    Text.pieces '\n' (render drawing) = drawing.map DiagramLine.text ++ [""]
      ↔ ∀ line ∈ drawing, ∀ name ∈ line.names, '\n' ∉ name.toList := by
  simp only [← DiagramLine.not_mem_text_iff]
  constructor
  · intro h line hline
    have hpiece : line.text ∈ Text.pieces '\n' (render drawing) := by
      rw [h]
      exact List.mem_append_left _ (List.mem_map_of_mem hline)
    obtain ⟨piece, hpiece, htext⟩ := List.mem_map.1 hpiece
    rw [← htext, String.toList_ofList]
    exact Text.not_mem_of_mem_cut hpiece
  · intro h
    rw [Text.pieces, toList_render, Text.cut_flatMap (by simpa using h)]
    simp [Function.comp_def]

def IsShown (n : Naming) (root : DeclarationId) (graph : TraceGraph) (d : DeclarationId) : Prop :=
  d = root ∨ ∃ call ∈ drawn n graph, d = call.1 ∨ d = call.2

theorem mem_names_ofGraph {r : Resolver} {root : DeclarationId} (hroot : root < r.declarations.size)
    {options : DiagramOptions} {graph : TraceGraph} {line : DiagramLine} {name : String}
    (hline : line ∈ ofGraph (Naming.ofRoot r root options) root graph) (hname : name ∈ line.names) :
    (∃ pin, name = Text.quote pin
        ∧ (pin = Group.currentFile ∨ pin ∈ (Naming.ofRoot r root options).segments root))
      ∨ ∃ d, IsShown (Naming.ofRoot r root options) root graph d
        ∧ (Naming.ofRoot r root options).identifier? d = some name := by
  obtain ⟨ends, -, harrows⟩ := exists_ends (Naming.ofRoot r root options) graph
  obtain ⟨pin, hpin, hfrom⟩ := Naming.exists_pinned hroot options
  cases line with
  | downward | fillDependencies | pinDependencies => cases hname
  | pinRoot group =>
    obtain rfl : name = group := List.mem_singleton.1 hname
    have hgroup : name = Text.quote pin := by
      simpa [ofGraph, harrows, header, arrowOf, hpin] using hline
    exact .inl ⟨pin, hgroup, hfrom⟩
  | fillRoot identifier =>
    obtain rfl : name = identifier := List.mem_singleton.1 hname
    refine .inr ⟨root, .inl rfl, ?_⟩
    simpa [ofGraph, harrows, header, arrowOf] using hline
  | arrow source target =>
    obtain ⟨call, hcall, hsource, htarget⟩ := exists_drawn hline
    rcases List.mem_pair.1 hname with rfl | rfl
    · exact .inr ⟨call.1, .inr ⟨call, hcall, .inl rfl⟩, hsource⟩
    · exact .inr ⟨call.2, .inr ⟨call, hcall, .inr rfl⟩, htarget⟩

/-- The names at the ends of the arrows, read off the statements of a diagram. -/
def readEnds (lines : List String) : List (List String) :=
  (lines.drop 5).dropLast.map (piecesOutside " -> ")

end Drawing

namespace Resolver

variable {r : Resolver} {root : DeclarationId} {options : DiagramOptions} {graph : TraceGraph}
  {line : DiagramLine}

theorem sealed_of_mem_ofGraph (hroot : root < r.declarations.size)
    (hline : line ∈ Drawing.ofGraph (Naming.ofRoot r root options) root graph) :
    Sealed '\n' line.text.toList := by
  refine DiagramLine.sealed_text fun name hname => ?_
  obtain ⟨pin, rfl, -⟩ | ⟨d, -, hname⟩ := Drawing.mem_names_ofGraph hroot hline hname
  · exact Text.toList_quote pin ▸ .encode _ _
  · exact Naming.sealed_identifier (by decide) hname

theorem not_mem_names_ofGraph (hroot : root < r.declarations.size)
    (hshown : ∀ d, Drawing.IsShown (Naming.ofRoot r root options) root graph d → r.IsOneLine d)
    (hline : line ∈ Drawing.ofGraph (Naming.ofRoot r root options) root graph) :
    ∀ name ∈ line.names, '\n' ∉ name.toList := by
  intro name hname
  obtain ⟨pin, rfl, hpin⟩ | ⟨d, hd, hname⟩ := Drawing.mem_names_ofGraph hroot hline hname
  · rw [Text.toList_quote]
    refine Text.Quoted.not_mem_encode (by decide) (by decide) ?_
    rcases hpin with rfl | hpin
    · decide
    · exact Naming.not_mem_segments (hshown root (.inl rfl)) pin hpin
  · exact Naming.not_mem_identifier (hshown d hd) hname

/-- The text of a diagram is five statements and one arrow for each call that is drawn, a line feed behind
each of them. Outside quotes there are no others, and each arrow falls apart into the names of its ends;
so these can be read off the text, whatever they are made of. The lines of the text are the statements
exactly if no name in them holds a line feed, as when nothing that is shown has one in its name or in the
path of its file. -/
theorem render_readable (hroot : root < r.declarations.size) (graph : TraceGraph)
    (options : DiagramOptions) :
    let n := Naming.ofRoot r root options
    let drawing := Drawing.ofGraph n root graph
    ∃ opening ends,
      opening.length = 5 ∧ Forall₂ (Drawing.Ends n) (Drawing.drawn n graph) ends
        ∧ drawing = opening ++ ends.map Drawing.arrowOf
        ∧ piecesOutside "\n" drawing.render = drawing.map DiagramLine.text ++ [""]
        ∧ (∀ names ∈ ends,
            piecesOutside " -> " (Drawing.arrowOf names).text = [names.1, names.2])
        ∧ Drawing.readEnds (piecesOutside "\n" drawing.render)
          = ends.map (fun names => [names.1, names.2])
        ∧ (Text.pieces '\n' drawing.render = drawing.map DiagramLine.text ++ [""]
          ↔ ∀ line ∈ drawing, ∀ name ∈ line.names, '\n' ∉ name.toList)
        ∧ ((∀ d, Drawing.IsShown n root graph d → r.IsOneLine d) →
          ∀ line ∈ drawing, ∀ name ∈ line.names, '\n' ∉ name.toList) := by
  intro n drawing
  obtain ⟨pin, name, -, -, hheader⟩ := header_eq hroot options
  obtain ⟨ends, hends, harrows⟩ := Drawing.exists_ends n graph
  have hdrawing : drawing = Drawing.header n root ++ ends.map Drawing.arrowOf :=
    congrArg (_ ++ ·) harrows
  have hopening : (Drawing.header n root).length = 5 := by rw [hheader]; rfl
  have hsealed : ∀ line ∈ drawing, Sealed '\n' line.text.toList := fun _ hline =>
    sealed_of_mem_ofGraph hroot hline
  have hcut := Drawing.piecesOutside_render hsealed
  have hread : ∀ names ∈ ends,
      piecesOutside " -> " (Drawing.arrowOf names).text = [names.1, names.2] := by
    intro names hnames
    have hline : Drawing.arrowOf names ∈ drawing := by
      rw [hdrawing]
      exact List.mem_append_right _ (List.mem_map_of_mem hnames)
    obtain ⟨call, -, hsource, htarget⟩ := Drawing.exists_drawn hline
    exact DiagramLine.piecesOutside_arrow (Naming.sealed_identifier (by decide) hsource)
      (Naming.sealed_identifier (by decide) htarget)
  refine ⟨_, ends, hopening, hends, hdrawing, hcut, hread, ?_, Drawing.pieces_render_iff,
    fun hshown _ => not_mem_names_ofGraph hroot hshown⟩
  have hdrop : (drawing.map DiagramLine.text ++ [""]).drop 5
      = (ends.map Drawing.arrowOf).map DiagramLine.text ++ [""] := by
    rw [hdrawing, List.map_append, List.append_assoc]
    exact List.drop_left' (by rw [List.length_map, hopening])
  rw [hcut, Drawing.readEnds, hdrop, List.dropLast_concat, List.map_map, List.map_map]
  exact List.map_congr_left hread

def callInto (path : String) : Resolver where
  declarations := #[
    { id := 0, name := some "main", container := none, kind := .function, unit := 0, line := 1,
      callSites := [⟨.name "f", 1⟩] },
    { id := 1, name := some "f", container := none, kind := .function, unit := 1, line := 1,
      callSites := [] }]
  units := #[⟨0, ⟨"/p/main.ts"⟩, false⟩, ⟨1, ⟨path⟩, false⟩]
  definitions
    | 0, _ => [.callable 1]
    | _, _ => []

theorem isOneLine_callInto {path : String} (h : '\n' ∉ path.toList) (d : DeclarationId) :
    (callInto path).IsOneLine d := by
  have hfixed : '\n' ∉ "main".toList ∧ '\n' ∉ "f".toList ∧ '\n' ∉ "/p/main.ts".toList := by decide
  have hpath (id : UnitId) (file : SourceUnit) (hfile : file ∈ (callInto path).units[id]?) :
      '\n' ∉ file.path.text.toList := by
    match id with
    | 0 => obtain rfl := Option.some_inj.1 hfile; exact hfixed.2.2
    | 1 => obtain rfl := Option.some_inj.1 hfile; exact h
    | _ + 2 => cases hfile
  constructor
  · intro x hx name hname
    match d with
    | 0 =>
      obtain rfl := Option.some_inj.1 hx
      obtain rfl : "main" = name := Option.some_inj.1 hname
      exact hfixed.1
    | 1 =>
      obtain rfl := Option.some_inj.1 hx
      obtain rfl : "f" = name := Option.some_inj.1 hname
      exact hfixed.2.1
    | _ + 2 => cases hx
  · intro file hunit
    obtain ⟨x, -, hfile⟩ := Option.bind_eq_some_iff.1 hunit
    exact hpath x.unit file hfile

theorem quotes_readable :
    let r := callInto "/p/\" -> \"\\.ts"
    let graph : TraceGraph := ⟨[⟨0, [1]⟩, ⟨1, []⟩]⟩
    let drawing := Drawing.ofGraph (Naming.ofRoot r 0 {}) 0 graph
    0 < r.declarations.size ∧ (∀ d, r.IsOneLine d) ∧ drawing.length = 6
      ∧ Text.pieces '\n' drawing.render = drawing.map DiagramLine.text ++ [""]
      ∧ Drawing.readEnds (piecesOutside "\n" drawing.render)
        = [["\"Current File\".\"main()\"", "\"\\\" -> \\\"\\\\.ts\".\"f()\""]] := by
  intro r graph drawing
  have hroot : 0 < r.declarations.size := by decide
  have hline : ∀ d, r.IsOneLine d := isOneLine_callInto (by decide)
  obtain ⟨opening, ends, hopening, hends, hdrawing, -, -, hread, hpieces, hshort⟩ :=
    render_readable hroot graph {}
  have hdrawn : Drawing.drawn (Naming.ofRoot r 0 {}) graph = [(0, 1)] := by decide +kernel
  rw [hdrawn] at hends
  obtain ⟨⟨source, target⟩, _, ⟨hsource, htarget⟩, hnil, rfl⟩ := List.forall₂_cons_left_iff.1 hends
  obtain rfl := List.forall₂_nil_left_iff.1 hnil
  have hmain : (Naming.ofRoot r 0 {}).identifier? 0 = some "\"Current File\".\"main()\"" := by
    decide +kernel
  have hf : (Naming.ofRoot r 0 {}).identifier? 1
      = some "\"\\\" -> \\\"\\\\.ts\".\"f()\"" := by
    decide +kernel
  cases hmain.symm.trans hsource
  cases hf.symm.trans htarget
  have hlength : drawing.length = 6 := by
    rw [show drawing = _ from hdrawing, List.length_append, hopening]
    rfl
  exact ⟨hroot, hline, hlength, hpieces.2 (hshort fun d _ => hline d), hread⟩

/-- A line feed in a path breaks the line of an arrow in two. -/
theorem lineFeed_unreadable :
    let r := callInto "/p/a\nb.ts"
    let drawing := Drawing.ofGraph (Naming.ofRoot r 0 {}) 0 ⟨[⟨0, [1]⟩, ⟨1, []⟩]⟩
    0 < r.declarations.size ∧ drawing.length = 6
      ∧ (Text.pieces '\n' drawing.render).dropLast.length = 7 := by
  decide +kernel

end Resolver

end CallDiagram
