import CallDiagram.Proofs.Outline.Statement
import Mathlib.Data.List.Forall2
import Mathlib.Data.List.Induction

/-!
Overloads. What shares a name is one entry, in the place of the first that has the name. It tells of the
last that has a body, or else of the first, whatever stands in between; nothing that has another name
counts for it, and what has no name is an entry of its own.
-/

namespace CallDiagram

namespace Outline

section Merging

variable {α β κ : Type} (key : α → Option κ) (hasBody : α → Bool)

def Opens (occurrences : List α) (i : Nat) : Prop :=
  ∃ x, occurrences[i]? = some x ∧ ∀ k, key x = some k → ∀ y ∈ occurrences.take i, key y ≠ some k

/-- What counts for the entry that starts at a place. -/
inductive CountsAt (occurrences : List α) (i : Nat) : α → Prop
  | unnamed {x : α} : occurrences[i]? = some x → key x = none → CountsAt occurrences i x
  | signature {x : α} {k : κ} : occurrences[i]? = some x → key x = some k →
      (∀ y ∈ occurrences, key y = some k → hasBody y = false) → CountsAt occurrences i x
  | implementation {first x : α} {k : κ} {before after : List α} :
      occurrences[i]? = some first → key first = some k →
      occurrences = before ++ x :: after → key x = some k → hasBody x = true →
      (∀ y ∈ after, key y = some k → hasBody y = false) → CountsAt occurrences i x

/-- The entries of a list of occurrences. -/
structure Merged (entry : α → β) (entryKey : β → Option κ) (occurrences : List α)
    (entries : List β) : Prop where
  once : (entries.filterMap entryKey).Nodup
  named : ∀ k, k ∈ entries.filterMap entryKey ↔ ∃ x ∈ occurrences, key x = some k
  placed : ∃ places, places.Pairwise (· < ·) ∧ (∀ i, i ∈ places ↔ Opens key occurrences i)
    ∧ List.Forall₂ (fun i e => ∃ x, CountsAt key hasBody occurrences i x ∧ e = entry x) places entries

variable {key hasBody} {occurrences : List α} {i : Nat} {x y : α} {k : κ}

theorem Opens.lt (h : Opens key occurrences i) : i < occurrences.length :=
  let ⟨_, hx, _⟩ := h
  (List.getElem?_eq_some_iff.1 hx).1

theorem opens_concat_of_lt (hi : i < occurrences.length) :
    Opens key (occurrences ++ [x]) i ↔ Opens key occurrences i := by
  rw [Opens, Opens, List.getElem?_append_left hi, List.take_append_of_le_length (Nat.le_of_lt hi)]

theorem opens_concat_length :
    Opens key (occurrences ++ [x]) occurrences.length ↔
      ∀ k, key x = some k → ∀ y ∈ occurrences, key y ≠ some k := by
  simp [Opens]

theorem opens_concat : Opens key (occurrences ++ [x]) i ↔
    Opens key occurrences i ∨ i = occurrences.length ∧ Opens key (occurrences ++ [x]) i := by
  constructor
  · intro h
    have hlt := h.lt
    rw [List.length_append, List.length_singleton] at hlt
    rcases Nat.lt_succ_iff_lt_or_eq.1 hlt with hlt | rfl
    · exact .inl ((opens_concat_of_lt hlt).1 h)
    · exact .inr ⟨rfl, h⟩
  · rintro (h | ⟨-, h⟩)
    · exact (opens_concat_of_lt h.lt).2 h
    · exact h

namespace CountsAt

theorem first (h : CountsAt key hasBody occurrences i x) :
    ∃ y, occurrences[i]? = some y ∧ key y = key x := by
  cases h with
  | unnamed hx | signature hx => exact ⟨x, hx, rfl⟩
  | implementation hfirst hkey _ hx => exact ⟨_, hfirst, hkey.trans hx.symm⟩

theorem getElem?_concat (h : occurrences[i]? = some y) : (occurrences ++ [x])[i]? = some y :=
  (List.getElem?_append_left (List.getElem?_eq_some_iff.1 h).1).trans h

theorem concat (h : CountsAt key hasBody occurrences i y)
    (hx : ∀ k, key y = some k → key x = some k → hasBody x = false) :
    CountsAt key hasBody (occurrences ++ [x]) i y := by
  cases h with
  | unnamed hy hkey => exact .unnamed (getElem?_concat hy) hkey
  | signature hy hkey hnone =>
    refine .signature (getElem?_concat hy) hkey fun z hz hzkey => ?_
    rcases List.mem_append.1 hz with hz | hz
    · exact hnone z hz hzkey
    · obtain rfl := List.mem_singleton.1 hz
      exact hx _ hkey hzkey
  | @implementation _ _ _ before after hfirst hfirstKey hsplit hkey hbody hnone =>
    have hsplit' : occurrences ++ [x] = before ++ y :: (after ++ [x]) := by
      rw [hsplit, List.append_assoc, List.cons_append]
    refine .implementation (getElem?_concat hfirst) hfirstKey hsplit' hkey hbody fun z hz hzkey => ?_
    rcases List.mem_append.1 hz with hz | hz
    · exact hnone z hz hzkey
    · obtain rfl := List.mem_singleton.1 hz
      exact hx _ hkey hzkey

theorem replace (h : CountsAt key hasBody occurrences i y) (hy : key y = some k) (hx : key x = some k)
    (hbody : hasBody x = true) : CountsAt key hasBody (occurrences ++ [x]) i x := by
  obtain ⟨first, hfirst, hkey⟩ := h.first
  exact .implementation (getElem?_concat hfirst) (hkey.trans hy) rfl hx hbody
    fun z hz => absurd hz List.not_mem_nil

theorem last (h : Opens key (occurrences ++ [x]) occurrences.length) :
    CountsAt key hasBody (occurrences ++ [x]) occurrences.length x := by
  have hat : (occurrences ++ [x])[occurrences.length]? = some x := List.getElem?_concat_length
  cases hx : key x with
  | none => exact .unnamed hat hx
  | some k =>
    cases hbody : hasBody x with
    | true => exact .implementation hat hx rfl hx hbody fun z hz => absurd hz List.not_mem_nil
    | false =>
      refine .signature hat hx fun y hy hykey => ?_
      rcases List.mem_append.1 hy with hy | hy
      · exact absurd hykey (opens_concat_length.1 h k hx y hy)
      · obtain rfl := List.mem_singleton.1 hy
        exact hbody

end CountsAt

theorem merge_of_fresh {isSame : β → Bool} {new : β} {entries : List β} (b : Bool)
    (h : ∀ e ∈ entries, isSame e = false) : merge isSame b new entries = entries ++ [new] := by
  induction entries with
  | nil => rfl
  | cons old entries ih =>
    have hold := h old List.mem_cons_self
    rw [merge, if_neg (by simp [hold]), ih fun e he => h e (List.mem_cons_of_mem _ he), List.cons_append]

theorem merge_of_known {entryKey : β → Option κ} {isSame : β → Bool} {new : β} {entries : List β}
    (b : Bool) (hsame : ∀ e, isSame e = true ↔ entryKey e = some k)
    (honce : (entries.filterMap entryKey).Nodup) (hk : k ∈ entries.filterMap entryKey) :
    merge isSame b new entries = entries.map fun e => if isSame e && b then new else e := by
  induction entries with
  | nil => cases hk
  | cons old entries ih =>
    rw [merge, List.map_cons]
    by_cases hold : isSame old = true
    · have hkey := (hsame old).1 hold
      rw [List.filterMap_cons_some hkey, List.nodup_cons] at honce
      have hrest : entries.map (fun e => if isSame e && b then new else e) = entries := by
        refine (List.map_congr_left fun e he => ?_).trans (List.map_id entries)
        have hother : ¬isSame e = true := fun h =>
          honce.1 (List.mem_filterMap.2 ⟨e, he, (hsame e).1 h⟩)
        simp [hother]
      rw [if_pos hold, hrest, hold, Bool.true_and]
    · have hother : entryKey old ≠ some k := fun h => hold ((hsame old).2 h)
      have hsub : (entries.filterMap entryKey).Sublist ((old :: entries).filterMap entryKey) :=
        (List.sublist_cons_self old entries).filterMap entryKey
      have hrest : k ∈ entries.filterMap entryKey := by
        obtain ⟨e, he, hek⟩ := List.mem_filterMap.1 hk
        rcases List.mem_cons.1 he with rfl | he
        · exact absurd hek hother
        · exact List.mem_filterMap.2 ⟨e, he, hek⟩
      rw [if_neg hold, ih (honce.sublist hsub) hrest]
      simp [hold]

namespace Merged

variable {entry : α → β} {entryKey : β → Option κ} {entries : List β}

theorem nil : Merged key hasBody entry entryKey [] [] where
  once := .nil
  named k := by simp
  placed := ⟨[], .nil, fun i => iff_of_false List.not_mem_nil fun h => Nat.not_lt_zero _ h.lt, .nil⟩

theorem concat_new (h : Merged key hasBody entry entryKey occurrences entries)
    (hentry : ∀ x, entryKey (entry x) = key x)
    (hopens : Opens key (occurrences ++ [x]) occurrences.length) :
    Merged key hasBody entry entryKey (occurrences ++ [x]) (entries ++ [entry x]) := by
  have hlast : [entry x].filterMap entryKey = (key x).toList := by
    rw [← hentry x]
    cases hx : entryKey (entry x) <;> simp [hx]
  have hfresh : ∀ k, key x = some k → k ∉ entries.filterMap entryKey := fun k hx hk => by
    obtain ⟨y, hy, hykey⟩ := (h.named k).1 hk
    exact opens_concat_length.1 hopens k hx y hy hykey
  constructor
  case once =>
    rw [List.filterMap_append, hlast]
    refine List.nodup_append.2 ⟨h.once, by cases key x <;> simp, fun k hk k' hk' => ?_⟩
    rintro rfl
    exact hfresh k (Option.mem_toList.1 hk') hk
  case named =>
    intro k
    rw [List.filterMap_append, hlast, List.mem_append, h.named, Option.mem_toList]
    simp [or_and_right, exists_or]
  case placed =>
    obtain ⟨places, hordered, hplaces, hentries⟩ := h.placed
    refine ⟨places ++ [occurrences.length], ?_, fun i => ?_, ?_⟩
    · refine List.pairwise_append.2 ⟨hordered, List.pairwise_singleton _ _, fun i hi j hj => ?_⟩
      obtain rfl := List.mem_singleton.1 hj
      exact ((hplaces i).1 hi).lt
    · rw [List.mem_append, List.mem_singleton, hplaces, opens_concat]
      exact or_congr_right ⟨fun h => ⟨h, h ▸ hopens⟩, And.left⟩
    · refine List.rel_append (hentries.imp ?_) (.cons ⟨x, .last hopens, rfl⟩ .nil)
      rintro i e ⟨y, hy, rfl⟩
      refine ⟨y, hy.concat fun k hyk hxk => ?_, rfl⟩
      obtain ⟨first, hfirst, hkey⟩ := hy.first
      exact absurd (hkey.trans hyk)
        (opens_concat_length.1 hopens k hxk first (List.mem_of_getElem? hfirst))

theorem concat_known (h : Merged key hasBody entry entryKey occurrences entries)
    (hentry : ∀ x, entryKey (entry x) = key x) {isSame : β → Bool} (hx : key x = some k)
    (hsame : ∀ e, isSame e = true ↔ entryKey e = some k) (hk : k ∈ entries.filterMap entryKey) :
    Merged key hasBody entry entryKey (occurrences ++ [x])
      (entries.map fun e => if isSame e && hasBody x then entry x else e) := by
  have hkeys : ∀ e, entryKey (if isSame e && hasBody x then entry x else e) = entryKey e := fun e => by
    split
    next he => rw [hentry, hx, (hsame e).1 (Bool.and_eq_true_iff.1 he).1]
    next => rfl
  have hfilter : (entries.map fun e => if isSame e && hasBody x then entry x else e).filterMap entryKey =
      entries.filterMap entryKey := by
    rw [List.filterMap_map]
    exact List.filterMap_congr fun e _ => hkeys e
  obtain ⟨first, hfirst, hfirstKey⟩ := (h.named k).1 hk
  constructor
  case once => rw [hfilter]; exact h.once
  case named =>
    intro k'
    rw [hfilter, h.named]
    refine ⟨fun ⟨y, hy, hyk⟩ => ⟨y, List.mem_append_left _ hy, hyk⟩, fun ⟨y, hy, hyk⟩ => ?_⟩
    rcases List.mem_append.1 hy with hy | hy
    · exact ⟨y, hy, hyk⟩
    · obtain rfl := List.mem_singleton.1 hy
      exact ⟨first, hfirst, hfirstKey.trans (hx.symm.trans hyk)⟩
  case placed =>
    obtain ⟨places, hordered, hplaces, hentries⟩ := h.placed
    refine ⟨places, hordered, fun i => ?_, ?_⟩
    · rw [hplaces, opens_concat]
      refine ⟨.inl, fun h => h.elim id ?_⟩
      rintro ⟨rfl, hopens⟩
      exact absurd hfirstKey (opens_concat_length.1 hopens k hx first hfirst)
    · rw [List.forall₂_map_right_iff]
      refine hentries.imp ?_
      rintro i e ⟨y, hy, rfl⟩
      split
      next he =>
        obtain ⟨he, hbody⟩ := Bool.and_eq_true_iff.1 he
        exact ⟨x, hy.replace ((hentry y).symm.trans ((hsame _).1 he)) hx hbody, rfl⟩
      next he =>
        refine ⟨y, hy.concat fun k' hyk hxk => ?_, rfl⟩
        obtain rfl := Option.some.inj (hx.symm.trans hxk)
        have hyes : isSame (entry y) = true := (hsame _).2 ((hentry y).trans hyk)
        rw [hyes, Bool.true_and, Bool.not_eq_true] at he
        exact he

theorem concat (h : Merged key hasBody entry entryKey occurrences entries)
    (hentry : ∀ x, entryKey (entry x) = key x) {isSame : β → Bool}
    (hsame : ∀ e, isSame e = true ↔ ∃ k, key x = some k ∧ entryKey e = some k) :
    Merged key hasBody entry entryKey (occurrences ++ [x])
      (merge isSame (hasBody x) (entry x) entries) := by
  by_cases hknown : ∃ k, key x = some k ∧ ∃ y ∈ occurrences, key y = some k
  · obtain ⟨k, hx, hoccurs⟩ := hknown
    have hk := (h.named k).2 hoccurs
    have hkey : ∀ e, isSame e = true ↔ entryKey e = some k := fun e => by
      rw [hsame, hx]
      exact ⟨fun ⟨_, hk, he⟩ => he.trans hk.symm, fun he => ⟨k, rfl, he⟩⟩
    rw [merge_of_known _ hkey h.once hk]
    exact h.concat_known hentry hx hkey hk
  · rw [merge_of_fresh]
    · refine h.concat_new hentry (opens_concat_length.2 fun k hx y hy hykey => ?_)
      exact hknown ⟨k, hx, y, hy, hykey⟩
    · intro e he
      rw [Bool.eq_false_iff]
      intro hyes
      obtain ⟨k, hx, hek⟩ := (hsame e).1 hyes
      exact hknown ⟨k, hx, (h.named k).1 (List.mem_filterMap.2 ⟨e, he, hek⟩)⟩

theorem foldl {add : List β → α → List β} (isSame : α → β → Bool)
    (hadd : ∀ entries x, add entries x = merge (isSame x) (hasBody x) (entry x) entries)
    (hentry : ∀ x, entryKey (entry x) = key x)
    (hsame : ∀ x e, isSame x e = true ↔ ∃ k, key x = some k ∧ entryKey e = some k)
    (occurrences : List α) :
    Merged key hasBody entry entryKey occurrences (occurrences.foldl add []) := by
  induction occurrences using List.reverseRecOn with
  | nil => exact nil
  | append_singleton occurrences x ih =>
    rw [List.foldl_append, List.foldl_cons, List.foldl_nil, hadd]
    exact ih.concat hentry (hsame x)

theorem exists_entry (h : Merged key hasBody entry entryKey occurrences entries)
    (hentry : ∀ x, entryKey (entry x) = key x) (hx : x ∈ occurrences) :
    ∃ e ∈ entries, entryKey e = key x := by
  cases hkey : key x with
  | some k => exact List.mem_filterMap.1 ((h.named k).2 ⟨x, hx, hkey⟩)
  | none =>
    obtain ⟨i, hi⟩ := List.getElem?_of_mem hx
    obtain ⟨places, -, hplaces, hentries⟩ := h.placed
    have hopens : Opens key occurrences i := ⟨x, hi, fun k hk => by rw [hkey] at hk; cases hk⟩
    obtain ⟨j, hj, rfl⟩ := List.getElem_of_mem ((hplaces i).2 hopens)
    obtain ⟨y, hy, heq⟩ := hentries.get hj (hentries.length_eq ▸ hj)
    obtain ⟨first, hfirst, hfirstKey⟩ := hy.first
    obtain rfl := Option.some.inj (hi.symm.trans hfirst)
    refine ⟨entry y, heq ▸ List.get_mem _ _, ?_⟩
    rw [hentry, ← hfirstKey, hkey]

end Merged

end Merging

end Outline

def ClassMember.method? : ClassMember → Option (String × Method)
  | .method m => m.key.name?.bind fun name =>
    if name = Outline.constructorName ∨ m.isAccessor = true then none else some (name, m)
  | .field .. | .other _ => none

namespace Outline

def MergedFunctions : List Function → List FunctionOutline → Prop :=
  Merged Function.name (fun f => f.body.isSome) (fun f => ⟨f.name, f.line, bodyOf f⟩) FunctionOutline.name

def MergedMethods : List (String × Method) → List MethodOutline → Prop :=
  Merged (fun m => some (m.1, m.2.isStatic)) (fun m => m.2.function.body.isSome)
    (fun m => ⟨m.1, m.2.isStatic, m.2.function.line, bodyOf m.2.function⟩)
    (fun entry => some (entry.name, entry.isStatic))

theorem mergedFunctions (functions : List Function) :
    MergedFunctions functions (functions.foldl addFunction []) := by
  refine Merged.foldl (fun f old => f.name.isSome && old.name == f.name) ?_ ?_ ?_ functions
  · exact fun entries f => rfl
  · exact fun f => rfl
  · intro f old
    rw [Bool.and_eq_true_iff, Option.isSome_iff_exists, beq_iff_eq, ← exists_and_right]
    exact exists_congr fun name => and_congr_right fun h => by rw [h]

theorem mergedMethods (methods : List (String × Method)) :
    MergedMethods methods (methods.foldl (fun entries m => addMethod entries m.1 m.2) []) := by
  refine Merged.foldl (fun m old => old.name == m.1 && old.isStatic == m.2.isStatic) ?_ ?_ ?_ methods
  · exact fun entries m => rfl
  · exact fun m => rfl
  · intro m old
    rw [Bool.and_eq_true_iff, beq_iff_eq, beq_iff_eq]
    simp [Prod.ext_iff, eq_comm]

theorem methods_addMember (c : ClassOutline) (member : ClassMember) :
    (addMember c member).methods =
      member.method?.toList.foldl (fun entries m => addMethod entries m.1 m.2) c.methods := by
  cases member with
  | method m =>
    rw [addMember, ClassMember.method?]
    cases m.key.name? with
    | none => rfl
    | some name =>
      rw [Option.bind_some]
      dsimp only
      by_cases hname : name = constructorName
      · rw [if_pos hname, if_pos (.inl hname)]
        rfl
      · rw [if_neg hname]
        by_cases haccessor : m.isAccessor = true
        · rw [if_pos haccessor, if_pos (.inr haccessor)]
          rfl
        · rw [if_neg haccessor, if_neg (not_or.2 ⟨hname, haccessor⟩)]
          rfl
  | field | other => rfl

theorem methods_ofClass (d : ClassDefinition) :
    (ofClass d).methods =
      (d.members.filterMap ClassMember.method?).foldl (fun entries m => addMethod entries m.1 m.2) [] := by
  have hrun : ∀ (members : List ClassMember) (c : ClassOutline), (members.foldl addMember c).methods =
      (members.filterMap ClassMember.method?).foldl (fun entries m => addMethod entries m.1 m.2)
        c.methods := by
    intro members
    induction members with
    | nil => exact fun c => rfl
    | cons member members ih =>
      intro c
      rw [List.foldl_cons, ih, methods_addMember]
      cases h : member.method? with
      | none => rw [List.filterMap_cons_none h]; rfl
      | some m => rw [List.filterMap_cons_some h]; rfl
  exact hrun d.members _

/-- In every script the functions of one name share an entry, and so do the methods of every class. -/
theorem overloads_merge (s : Script) :
    MergedFunctions (s.statements.flatMap Statement.functions) (ofScript s).functions
      ∧ List.Forall₂
        (fun d c => c.name = d.name ∧ MergedMethods (d.members.filterMap ClassMember.method?) c.methods)
        (s.statements.flatMap Statement.classes) (ofScript s).classes := by
  constructor
  · rw [functions_ofScript]
    exact mergedFunctions _
  · rw [classes_ofScript, List.forall₂_map_right_iff, List.forall₂_same]
    intro d _
    refine ⟨name_ofClass d, ?_⟩
    rw [methods_ofClass]
    exact mergedMethods _

example : (ofScript { damaged := false, statements := [
    .exported (.function { name := some "f", line := 1, parameters := [], body := none }),
    .function { name := some "g", line := 2, parameters := [], body := some (.other []) },
    .defaultFunction { name := none, line := 3, parameters := [], body := some (.other []) },
    .exported (.function { name := some "f", line := 4, parameters := [], body := some (.other []) }),
    .ambient (.function { name := some "g", line := 5, parameters := [], body := none })] }).functions =
    [⟨some "f", 4, {}⟩, ⟨some "g", 2, {}⟩, ⟨none, 3, {}⟩] := by cbv

end Outline

end CallDiagram
