import CallDiagram.Glob.Parser
import Mathlib.Data.List.Basic

namespace CallDiagram.Glob

section Reading

variable {c : Char} {cs rest : List Char} {p : Progress}

def special : List Char := ['?', '*', '[', '{', '}', '\\']

def Progress.pushLiterals (p : Progress) (cs : List Char) : Progress :=
  cs.foldl (fun p c => p.push c (.literal c)) p

theorem Progress.tokens_pushLiterals (p : Progress) (cs : List Char) :
    (p.pushLiterals cs).tokens = (cs.map .literal).reverse ++ p.tokens := by
  induction cs generalizing p with
  | nil => rfl
  | cons c cs ih =>
    rw [List.map_cons, List.reverse_cons, List.append_assoc]
    exact ih (p.push c (.literal c))

theorem Progress.groups_pushLiterals (p : Progress) (cs : List Char) :
    (p.pushLiterals cs).groups = p.groups := by
  induction cs generalizing p with
  | nil => rfl
  | cons c cs ih => exact ih (p.push c (.literal c))

theorem readFrom_literal (n : Nat) (hc : c ∉ special) (hp : p.groups = []) :
    readFrom (n + 1) p (c :: rest) = readFrom n (p.push c (.literal c)) rest := by
  simp only [special, List.mem_cons, List.not_mem_nil, or_false, not_or] at hc
  by_cases hcomma : c = ','
  · subst hcomma
    simp only [readFrom, hp]
  · rw [readFrom]
    all_goals simp_all

theorem readFrom_literals (n : Nat) (hcs : ∀ c ∈ cs, c ∉ special) (hp : p.groups = []) :
    readFrom (n + cs.length) p (cs ++ rest) = readFrom n (p.pushLiterals cs) rest := by
  induction cs generalizing p with
  | nil => rfl
  | cons c cs ih =>
    obtain ⟨hc, hcs⟩ := List.forall_mem_cons.1 hcs
    rw [List.length_cons, ← Nat.add_assoc, List.cons_append, readFrom_literal _ hc hp]
    exact ih hcs hp

theorem parse_literals (s : String) (h : ∀ c ∈ s.toList, c ∉ special) :
    parse s = .ok ⟨s.toList.map .literal⟩ := by
  have hread : readFrom (0 + s.toList.length) {} (s.toList ++ []) = _ := readFrom_literals 0 h rfl
  rw [Nat.zero_add, List.append_nil, String.length_toList] at hread
  rw [parse, hread]
  simp only [readFrom, bind, Except.bind, Progress.groups_pushLiterals, Progress.tokens_pushLiterals,
    List.append_nil, List.reverse_reverse, List.isEmpty_nil, if_true]

theorem parse_below (s : String) (h : ∀ c ∈ s.toList, c ∉ special) :
    parse (s ++ "/**/*") = .ok ⟨s.toList.map .literal ++ [.directoriesBetween, .anything]⟩ := by
  have hslash : ∀ c ∈ s.toList ++ ['/'], c ∉ special := by
    intro c hc
    rcases List.mem_append.1 hc with hc | hc
    · exact h c hc
    · rw [List.mem_singleton.1 hc]
      decide
  have hread : readFrom (4 + _) {} (s.toList ++ ['/'] ++ ['*', '*', '/', '*']) = _ :=
    readFrom_literals 4 hslash rfl
  have htext : (s ++ "/**/*").toList = s.toList ++ ['/'] ++ ['*', '*', '/', '*'] := by
    rw [String.toList_append, List.append_assoc]
    rfl
  have hlength : (s ++ "/**/*").length = 4 + (s.toList ++ ['/']).length := by
    rw [← String.length_toList, htext, List.length_append, Nat.add_comm]
    rfl
  have hstars (p : Progress) : readFrom 4 (p.push '/' (.literal '/')) ['*', '*', '/', '*']
      = .ok (((p.push '/' (.literal '/')).replaceSlash '/' .directoriesBetween).push '*' .anything) := rfl
  rw [Progress.pushLiterals, List.foldl_append, List.foldl_cons, List.foldl_nil, ← Progress.pushLiterals,
    hstars] at hread
  rw [parse, hlength, htext, hread]
  simp only [bind, Except.bind, Progress.replaceSlash, Progress.push, Progress.groups_pushLiterals,
    Progress.tokens_pushLiterals, List.append_nil, List.isEmpty_nil, if_true, List.reverse_cons,
    List.reverse_reverse, List.append_assoc, List.singleton_append]

end Reading

section Bytes

variable {cs ds : List Char} {bs : List UInt8}

theorem toList_loop_eq (bytes : ByteArray) (i : Nat) (read : List UInt8) :
    ByteArray.toList.loop bytes i read = read.reverse ++ bytes.data.toList.drop i := by
  fun_induction ByteArray.toList.loop bytes i read with
  | case1 i read h ih =>
    have hi : i < bytes.data.toList.length := by simpa using h
    have hget : bytes.get! i = bytes.data.toList[i] := by simp [ByteArray.get!, h]
    rw [ih, List.drop_eq_getElem_cons hi, List.reverse_cons, List.append_assoc, List.singleton_append, hget]
  | case2 i read h =>
    rw [List.drop_eq_nil_of_le (by simpa using h), List.append_nil]

theorem toList_toByteArray (bs : List UInt8) : bs.toByteArray.toList = bs := by
  rw [ByteArray.toList, toList_loop_eq, List.toList_data_toByteArray]
  rfl

theorem bytesOf_eq (c : Char) : bytesOf c = String.utf8EncodeChar c := by
  rw [bytesOf, Char.toString, String.toUTF8_eq_toByteArray, String.toByteArray_singleton,
    List.utf8Encode_singleton, toList_toByteArray]

theorem utf8Encode_eq (cs : List Char) : cs.utf8Encode = (cs.flatMap bytesOf).toByteArray := by
  rw [List.utf8Encode, funext bytesOf_eq]

theorem toList_toUTF8 (s : String) : s.toUTF8.toList = s.toList.flatMap bytesOf := by
  rw [String.toUTF8_eq_toByteArray, ← String.utf8Encode_toList, utf8Encode_eq, toList_toByteArray]

theorem prefix_of_bytes (h : cs.flatMap bytesOf ++ bs = ds.flatMap bytesOf) :
    ∃ rest, ds = cs ++ rest ∧ bs = rest.flatMap bytesOf := by
  have hencode : cs.utf8Encode ++ bs.toByteArray = ds.utf8Encode := by
    rw [utf8Encode_eq, utf8Encode_eq, ← List.toByteArray_append, h]
  obtain ⟨rest, rfl⟩ := List.isPrefix_of_utf8Encode_append_eq_utf8Encode _ hencode
  rw [List.flatMap_append] at h
  exact ⟨rest, rfl, List.append_cancel_left h⟩

end Bytes

section Matching

variable {x text rest : List UInt8} {texts : List (List UInt8)} {token : Token} {tokens : List Token}

theorem mem_sequenceRests :
    x ∈ sequenceRests texts tokens ↔ ∃ text ∈ texts, x ∈ sequenceRests [text] tokens := by
  induction tokens generalizing texts with
  | nil => simp [sequenceRests]
  | cons token tokens ih =>
    have hstep : ∀ texts, x ∈ sequenceRests texts (token :: tokens) ↔
        ∃ text ∈ texts, ∃ rest ∈ token.rests text, x ∈ sequenceRests [rest] tokens := by
      intro texts
      rw [sequenceRests, ih]
      simp only [List.mem_eraseDups, List.mem_flatMap]
      constructor
      · rintro ⟨rest, ⟨text, htext, hrest⟩, hx⟩
        exact ⟨text, htext, rest, hrest, hx⟩
      · rintro ⟨text, htext, rest, hrest, hx⟩
        exact ⟨rest, ⟨text, htext, hrest⟩, hx⟩
    simp only [hstep, List.mem_singleton, exists_eq_left]

theorem mem_sequenceRests_cons :
    x ∈ sequenceRests [text] (token :: tokens) ↔
      ∃ rest ∈ token.rests text, x ∈ sequenceRests [rest] tokens := by
  rw [sequenceRests, mem_sequenceRests]
  simp only [List.mem_eraseDups, List.flatMap_singleton]

theorem mem_sequenceRests_literals (cs : List Char) :
    x ∈ sequenceRests [text] (cs.map .literal ++ tokens) ↔
      ∃ rest, text = cs.flatMap bytesOf ++ rest ∧ x ∈ sequenceRests [rest] tokens := by
  induction cs generalizing text with
  | nil => simp
  | cons c cs ih =>
    rw [List.map_cons, List.cons_append, mem_sequenceRests_cons, List.flatMap_cons]
    simp only [Token.rests]
    split
    · next hprefix =>
      obtain ⟨rest, rfl⟩ := List.isPrefixOf_iff_prefix.1 hprefix
      simp only [List.mem_singleton, exists_eq_left, List.drop_left, ih, List.append_assoc,
        List.append_cancel_left_eq]
    · next hprefix =>
      simp only [List.not_mem_nil, false_and, exists_false, false_iff]
      rintro ⟨rest, rfl, -⟩
      rw [List.append_assoc] at hprefix
      exact hprefix (List.isPrefixOf_iff_prefix.2 (List.prefix_append _ _))

theorem nil_mem_ends (bs : List UInt8) : [] ∈ ends bs := by
  induction bs with
  | nil => exact List.mem_singleton_self []
  | cons b bs ih => exact List.mem_cons_of_mem _ ih

theorem nil_mem_below :
    [] ∈ sequenceRests [text] [.directoriesBetween, .anything] ↔ ∃ bs, text = slash :: bs := by
  rw [mem_sequenceRests_cons]
  constructor
  · rintro ⟨rest, hrest, -⟩
    simp only [Token.rests] at hrest
    split at hrest
    · cases hrest
    · next b bs =>
      split at hrest
      · next hslash => exact ⟨bs, by rw [hslash]⟩
      · cases hrest
  · rintro ⟨bs, rfl⟩
    refine ⟨bs, List.mem_cons_self, mem_sequenceRests_cons.2 ⟨[], nil_mem_ends bs, ?_⟩⟩
    exact List.mem_singleton_self []

theorem isUniversal_literals (cs : List Char) (tokens : List Token) :
    isUniversal (cs.map .literal ++ tokens) = (cs.isEmpty && isUniversal tokens) := by
  cases cs <;> rfl

theorem isMatch_literals {s text : String} :
    (Glob.mk (s.toList.map .literal)).isMatch text ↔ text = s := by
  have huniversal := isUniversal_literals s.toList []
  rw [List.append_nil] at huniversal
  rw [isMatch, huniversal, ← List.append_nil (s.toList.map _)]
  simp only [isUniversal, Bool.and_false, Bool.false_or, List.contains_iff_mem, mem_sequenceRests_literals,
    sequenceRests, List.mem_singleton, toList_toUTF8]
  constructor
  · rintro ⟨_, htext, rfl⟩
    rw [← String.toByteArray_inj, ← String.utf8Encode_toList, ← String.utf8Encode_toList, utf8Encode_eq,
      utf8Encode_eq, htext, List.append_nil]
  · rintro rfl
    exact ⟨[], (List.append_nil _).symm, rfl⟩

theorem isMatch_below {s text : String} :
    (Glob.mk (s.toList.map .literal ++ [.directoriesBetween, .anything])).isMatch text ↔
      ∃ rest, text.toList = s.toList ++ '/' :: rest := by
  rw [isMatch, isUniversal_literals]
  simp only [isUniversal, Bool.and_false, Bool.false_or, List.contains_iff_mem, mem_sequenceRests_literals,
    nil_mem_below, toList_toUTF8]
  have hslash : bytesOf '/' = [slash] := by rw [bytesOf_eq]; decide
  constructor
  · rintro ⟨_, htext, bs, rfl⟩
    have hbytes : (s.toList ++ ['/']).flatMap bytesOf ++ bs = text.toList.flatMap bytesOf := by
      rw [List.flatMap_append, List.flatMap_singleton, hslash, htext, List.append_assoc, List.singleton_append]
    obtain ⟨rest, hrest, -⟩ := prefix_of_bytes hbytes
    exact ⟨rest, by rw [hrest, List.append_assoc, List.singleton_append]⟩
  · rintro ⟨rest, htext⟩
    refine ⟨slash :: rest.flatMap bytesOf, ?_, _, rfl⟩
    rw [htext, List.flatMap_append, List.flatMap_cons, hslash, List.singleton_append]

end Matching

end CallDiagram.Glob
