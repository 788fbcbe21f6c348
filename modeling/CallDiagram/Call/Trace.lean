import CallDiagram.Call.Graph
import CallDiagram.Call.Resolver

/-!
The breadth-first trace of all that a declaration calls. Foreign declarations are reached but not
entered. The trace ends because a declaration is entered once, and only those of the resolver have
any callees.
-/

namespace CallDiagram

namespace Resolver

/-- How many of the resolver's declarations the graph does not hold yet. -/
def unreached (r : Resolver) (g : TraceGraph) : Nat :=
  (List.range r.declarations.size).countP fun d => !g.contains d

theorem directCallees_of_size_le {r : Resolver} {d : DeclarationId}
    (h : r.declarations.size ≤ d) : r.directCallees d = [] := by
  simp [directCallees, Array.getElem?_eq_none h]

theorem unreached_insert_le (r : Resolver) (g : TraceGraph) (d : DeclarationId)
    (callees : List DeclarationId) : r.unreached (g.insert d callees).2 ≤ r.unreached g :=
  List.countP_mono_left (by simp +contextual)

theorem unreached_insert_lt {r : Resolver} {g : TraceGraph} {d : DeclarationId}
    (callees : List DeclarationId) (hd : d < r.declarations.size) (hg : g.contains d = false) :
    r.unreached (g.insert d callees).2 < r.unreached g := by
  have key : ∀ l : List DeclarationId, d ∈ l →
      l.countP (fun e => !(g.contains e || d == e)) < l.countP (fun e => !g.contains e) := by
    intro l hl
    induction l with
    | nil => simp at hl
    | cons e l ih =>
      have hle : l.countP (fun e => !(g.contains e || d == e)) ≤ l.countP (fun e => !g.contains e) :=
        List.countP_mono_left (by simp +contextual)
      by_cases he : d = e
      · subst he
        rw [List.countP_cons_of_neg (by simp), List.countP_cons_of_pos (by simp [hg])]
        omega
      · have := ih (by simpa [he] using hl)
        have hde : (d == e) = false := by simpa using he
        simp only [List.countP_cons, hde, Bool.or_false]
        omega
  simpa only [unreached, TraceGraph.contains_insert] using key _ (List.mem_range.2 hd)

/-- Enters the declarations of the queue in turn, and puts what each calls behind the others. -/
def traceFrom (r : Resolver) (g : TraceGraph) : List DeclarationId → TraceGraph
  | [] => g
  | d :: queue =>
    if g.contains d then traceFrom r g queue
    else
      let callees := r.directCallees d
      let entered := (g.insert d callees).2
      traceFrom r entered
        (queue ++ (callees.filter r.isLocal).filter fun callee => !entered.contains callee)
termination_by queue => (r.unreached g, queue.length)
decreasing_by
  · exact Prod.Lex.right _ (by simp)
  · rename_i hg
    by_cases hd : d < r.declarations.size
    · exact Prod.Lex.left _ _ (unreached_insert_lt _ hd (by simpa using hg))
    · have hcallees := directCallees_of_size_le (r := r) (Nat.le_of_not_lt hd)
      rcases Nat.lt_or_eq_of_le (unreached_insert_le r g d (r.directCallees d)) with h | h
      · exact Prod.Lex.left _ _ h
      · rw [h]
        exact Prod.Lex.right _ (by simp [hcallees])

def trace (r : Resolver) (root : DeclarationId) : TraceGraph := r.traceFrom .empty [root]

end Resolver

end CallDiagram
