import CallDiagram.Text.Quoted
import CallDiagram.Proofs.Text.Cut

namespace CallDiagram.Text

namespace Quoted

def readRest : List Char → Option (List Char × List Char)
  | [] => none
  | '"' :: cs => some ([], cs)
  | '\\' :: c :: cs => (readRest cs).map fun (s, rest) => (c :: s, rest)
  | '\\' :: [] => none
  | c :: cs => (readRest cs).map fun (s, rest) => (c :: s, rest)

def decode : List Char → Option (List Char × List Char)
  | '"' :: cs => readRest cs
  | _ => none

theorem readRest_escape (s rest : List Char) :
    readRest (s.flatMap escape ++ '"' :: rest) = some (s, rest) := by
  induction s with
  | nil => rfl
  | cons c s ih =>
    rw [List.flatMap_cons, List.append_assoc]
    by_cases hquote : c = '"'
    · subst hquote
      simp [escape, readRest, ih]
    · by_cases hslash : c = '\\'
      · subst hslash
        simp [escape, readRest, ih]
      · simp [escape, hquote, hslash, readRest, ih]

theorem decode_encode (s rest : List Char) : decode (encode s ++ rest) = some (s, rest) := by
  have h := readRest_escape s rest
  simpa [encode, decode] using h

theorem encode_append_inj {s t rest more : List Char} (h : encode s ++ rest = encode t ++ more) :
    s = t ∧ rest = more := by
  have hread := congrArg decode h
  rw [decode_encode, decode_encode] at hread
  exact Prod.mk.inj (Option.some.inj hread)

theorem not_mem_encode {c : Char} {s : List Char} (hquote : c ≠ '"') (hslash : c ≠ '\\')
    (h : c ∉ s) : c ∉ encode s := by
  have hescape : ∀ d ∈ s, c ∉ escape d := by
    intro d hd hc
    have hne : c ≠ d := fun heq => h (heq ▸ hd)
    rw [escape] at hc
    split at hc <;> simp_all
  simpa [encode, hquote] using hescape

end Quoted

/-- Where a reader of a text stands: outside quotes, inside them, or inside and behind a backslash. -/
inductive Standing
  | outside
  | inside
  | escaped
  deriving DecidableEq, Repr

def Standing.next : Standing → Char → Standing
  | .outside, c => if c = '"' then .inside else .outside
  | .inside, c => if c = '"' then .outside else if c = '\\' then .escaped else .inside
  | .escaped, _ => .inside

def cutOutside (sep : List Char) : Standing → (skip : Nat) → List Char → List (List Char)
  | _, _, [] => [[]]
  | standing, skip + 1, _ :: cs => cutOutside sep standing skip cs
  | standing, 0, c :: cs =>
    if standing = .outside ∧ sep.isPrefixOf (c :: cs) then
      [] :: cutOutside sep .outside (sep.length - 1) cs
    else (cutOutside sep (standing.next c) 0 cs).modifyHead (c :: ·)

def piecesOutside (sep s : String) : List String :=
  (cutOutside sep.toList .outside 0 s.toList).map String.ofList

inductive Sealed (stop : Char) : List Char → Prop
  | nil : Sealed stop []
  | bare {c : Char} {cs : List Char} : c ≠ stop → c ≠ '"' → Sealed stop cs → Sealed stop (c :: cs)
  | quoted (s : List Char) {cs : List Char} : Sealed stop cs → Sealed stop (Quoted.encode s ++ cs)

namespace Sealed

variable {stop : Char} {cs ds : List Char}

theorem append (hc : Sealed stop cs) (hd : Sealed stop ds) : Sealed stop (cs ++ ds) := by
  induction hc with
  | nil => exact hd
  | bare hstop hquote _ ih => exact .bare hstop hquote ih
  | quoted s _ ih =>
    rw [List.append_assoc]
    exact .quoted s ih

theorem encode (stop : Char) (s : List Char) : Sealed stop (Quoted.encode s) := by
  have h : Sealed stop (Quoted.encode s ++ []) := .quoted s .nil
  rwa [List.append_nil] at h

theorem of_bare (hstop : stop ∉ cs) (hquote : '"' ∉ cs) : Sealed stop cs := by
  induction cs with
  | nil => exact .nil
  | cons c cs ih =>
    obtain ⟨hc, hstop⟩ := List.ne_and_not_mem_of_not_mem_cons hstop
    obtain ⟨hc', hquote⟩ := List.ne_and_not_mem_of_not_mem_cons hquote
    exact .bare hc.symm hc'.symm (ih hstop hquote)

theorem join {sep : Char} (hstop : sep ≠ stop) (hquote : sep ≠ '"') {parts : List (List Char)}
    (h : ∀ part ∈ parts, Sealed stop part) : Sealed stop (Text.join sep parts) := by
  match parts with
  | [] => exact .nil
  | [part] => exact h part List.mem_cons_self
  | part :: next :: parts =>
    exact (h part List.mem_cons_self).append
      (.bare hstop hquote (join hstop hquote fun p hp => h p (List.mem_cons_of_mem part hp)))

end Sealed

section CutOutside

variable {stop : Char} {sep cs rest : List Char}

theorem cutOutside_skip (sep : List Char) (standing : Standing) (skipped cs : List Char) :
    cutOutside sep standing skipped.length (skipped ++ cs) = cutOutside sep standing 0 cs := by
  induction skipped with
  | nil => rfl
  | cons c skipped ih =>
    rw [List.length_cons, List.cons_append, cutOutside, ih]

theorem cutOutside_inside (sep s cs : List Char) :
    cutOutside sep .inside 0 (s.flatMap Quoted.escape ++ '"' :: cs)
      = (cutOutside sep .outside 0 cs).modifyHead ((s.flatMap Quoted.escape ++ ['"']) ++ ·) := by
  induction s with
  | nil => simp [cutOutside, Standing.next]
  | cons c s ih =>
    rw [List.flatMap_cons, List.append_assoc]
    by_cases hescape : c = '"' ∨ c = '\\'
    · simp [Quoted.escape, hescape, cutOutside, Standing.next, ih, List.modifyHead_modifyHead,
        Function.comp_def]
    · obtain ⟨hquote, hslash⟩ := not_or.1 hescape
      simp [Quoted.escape, hquote, hslash, cutOutside, Standing.next, ih,
        List.modifyHead_modifyHead, Function.comp_def]

theorem Sealed.cutOutside_append (hstop : stop ≠ '"') (h : Sealed stop cs) (sep rest : List Char) :
    cutOutside (stop :: sep) .outside 0 (cs ++ rest)
      = (cutOutside (stop :: sep) .outside 0 rest).modifyHead (cs ++ ·) := by
  induction h with
  | nil => exact (congrFun List.modifyHead_id _).symm
  | bare hne hquote _ ih =>
    simp [cutOutside, Standing.next, hne.symm, hquote, ih, List.modifyHead_modifyHead,
      Function.comp_def]
  | quoted s _ ih =>
    simp [Quoted.encode, cutOutside, Standing.next, hstop, cutOutside_inside, ih,
      List.modifyHead_modifyHead, Function.comp_def]

theorem Sealed.cutOutside_eq (hstop : stop ≠ '"') (h : Sealed stop cs) (sep : List Char) :
    cutOutside (stop :: sep) .outside 0 cs = [cs] := by
  have happend := h.cutOutside_append hstop sep []
  simpa [cutOutside] using happend

theorem Sealed.cutOutside_sep (hstop : stop ≠ '"') (h : Sealed stop cs) (sep rest : List Char) :
    cutOutside (stop :: sep) .outside 0 (cs ++ stop :: (sep ++ rest))
      = cs :: cutOutside (stop :: sep) .outside 0 rest := by
  have hcut : cutOutside (stop :: sep) .outside 0 (stop :: (sep ++ rest))
      = [] :: cutOutside (stop :: sep) .outside 0 rest := by
    rw [cutOutside, if_pos ⟨rfl, by simp⟩, List.length_cons, Nat.add_sub_cancel, cutOutside_skip]
  rw [h.cutOutside_append hstop, hcut, List.modifyHead_cons, List.append_nil]

end CutOutside

end CallDiagram.Text
