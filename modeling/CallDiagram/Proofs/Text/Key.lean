import CallDiagram.Proofs.Text.Quoted

namespace CallDiagram.Text

inductive Segment
  | bare (s : String)
  | quoted (s : String)
  deriving DecidableEq, Repr

namespace Segment

def text : Segment → List Char
  | .bare s => s.toList
  | .quoted s => Quoted.encode s.toList

def read? : List Char → Option Segment
  | [] => none
  | '"' :: cs =>
    match Quoted.readRest cs with
    | some (s, []) => some (.quoted (String.ofList s))
    | _ => none
  | c :: cs => if '"' ∈ cs then none else some (.bare (String.ofList (c :: cs)))

def IsSound : Segment → Prop
  | .bare s => s ≠ "" ∧ '.' ∉ s.toList ∧ '"' ∉ s.toList
  | .quoted _ => True

theorem read?_text {segment : Segment} (h : segment.IsSound) : read? segment.text = some segment := by
  cases segment with
  | quoted s =>
    have hread : Quoted.readRest (s.toList.flatMap Quoted.escape ++ ['"']) = some (s.toList, []) :=
      Quoted.readRest_escape s.toList []
    rw [text, Quoted.encode, List.cons_append, read?, hread]
    exact congrArg (some ∘ Segment.quoted) String.ofList_toList
  | bare s =>
    obtain ⟨hne, -, hquote⟩ := h
    obtain ⟨c, cs, hs⟩ := List.exists_cons_of_ne_nil (mt String.toList_eq_nil_iff.1 hne)
    rw [hs] at hquote
    obtain ⟨hc, hcs⟩ := List.ne_and_not_mem_of_not_mem_cons hquote
    rw [text, hs, read?, if_neg hcs, ← hs, String.ofList_toList]
    exact fun heq => hc heq.symm

theorem mapM_read?_text {segments : List Segment} (h : ∀ segment ∈ segments, segment.IsSound) :
    (segments.map text).mapM read? = some segments := by
  induction segments with
  | nil => rfl
  | cons segment segments ih =>
    rw [List.map_cons, List.mapM_cons, read?_text (h segment List.mem_cons_self),
      ih fun s hs => h s (List.mem_cons_of_mem segment hs)]
    rfl

theorem isSealed_text {segment : Segment} (h : segment.IsSound) : Sealed '.' segment.text := by
  cases segment with
  | quoted s => exact .encode '.' s.toList
  | bare s => exact .of_bare h.2.1 h.2.2

end Segment

def readKey? (key : String) : Option (List Segment) :=
  (cutOutside ['.'] .outside 0 key.toList).mapM Segment.read?

theorem cutOutside_join {stop : Char} (hstop : stop ≠ '"') {parts : List (List Char)} (hne : parts ≠ [])
    (h : ∀ part ∈ parts, Sealed stop part) : cutOutside [stop] .outside 0 (join stop parts) = parts := by
  match parts with
  | [] => exact absurd rfl hne
  | [part] => exact (h part List.mem_cons_self).cutOutside_eq hstop []
  | part :: next :: rest =>
    rw [join]
    refine ((h part List.mem_cons_self).cutOutside_sep hstop [] (join stop (next :: rest))).trans ?_
    rw [cutOutside_join hstop (List.cons_ne_nil next rest) fun q hq => h q (List.mem_cons_of_mem part hq)]

theorem readKey?_eq_some {key : String} {segments : List Segment} (hne : segments ≠ [])
    (h : ∀ segment ∈ segments, segment.IsSound) (hkey : key.toList = join '.' (segments.map Segment.text)) :
    readKey? key = some segments := by
  have hsealed : ∀ part ∈ segments.map Segment.text, Sealed '.' part := by
    intro part hpart
    obtain ⟨segment, hsegment, rfl⟩ := List.mem_map.1 hpart
    exact Segment.isSealed_text (h segment hsegment)
  rw [readKey?, hkey, cutOutside_join (by decide) (by simpa using hne) hsealed, Segment.mapM_read?_text h]

example : readKey? "a.\"b.\\\"c\"" = some [.bare "a", .quoted "b.\"c"] := by decide +kernel

end CallDiagram.Text
