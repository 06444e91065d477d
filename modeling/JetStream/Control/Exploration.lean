import JetStream.Control.LcaPairs
import JetStream.Lib.Worklist

namespace JetStream

namespace JSGraph

variable {N : Type} [DecidableEq N]

/-- The search does not go on behind the stop. -/
def onward (adjList : N → List N) (stop : Option N) (n : N) : List N := if stop = some n then [] else adjList n

theorem step_onward {adjList : N → List N} {stop : Option N} {n m : N} :
    Worklist.Step (onward adjList stop) n m ↔ stop ≠ some n ∧ m ∈ adjList n := by
  unfold Worklist.Step onward
  split <;> simp [*]

variable {adjList : N → List N} {stop : Option N} {start : N}

/-- The search takes its nodes from the list of the start as long as it does not come back to the start. -/
theorem explore_eq_worklist (fuel : ℕ) (pending found : List N)
    (away : ∀ n ∈ pending, ¬ Relation.ReflTransGen (Worklist.Step (onward adjList stop)) n start) :
    explore stop start fuel (Function.update adjList start pending) found =
      (Worklist.explore (onward adjList stop) fuel pending found).map
        fun all => (all, Function.update adjList start []) := by
  induction fuel generalizing pending found with
  | zero => rfl
  | succ fuel ih =>
      rcases List.eq_nil_or_concat pending with rfl | ⟨front, n, rfl⟩
      · simp [explore, Worklist.explore]
      · rw [List.concat_eq_append] at away ⊢
        have apart : n ≠ start := by
          rintro rfl
          exact away n (List.mem_append_right _ (List.mem_singleton_self n)) .refl
        have rest (m : N) (member : m ∈ front ++ onward adjList stop n) :
            ¬ Relation.ReflTransGen (Worklist.Step (onward adjList stop)) m start := by
          rcases List.mem_append.mp member with early | step
          · exact away m (List.mem_append_left _ early)
          · exact fun path => away n (List.mem_append_right _ (List.mem_singleton_self n)) (path.head step)
        rw [Worklist.explore_append, ← ih _ _ rest, explore]
        simp only [Function.update_self, List.getLast?_concat, List.dropLast_concat, Function.update_idem,
          Function.update_of_ne apart, onward]
        split <;> simp

/-- More fuel does not change the result of a search. -/
theorem explore_mono {fuel more : ℕ} {found : List N} {result : List N × (N → List N)}
    (ran : explore stop start fuel adjList found = some result) (enough : fuel ≤ more) :
    explore stop start more adjList found = some result := by
  induction fuel generalizing more adjList found with
  | zero => cases ran
  | succ fuel ih =>
      obtain ⟨more, rfl⟩ : ∃ less, more = less + 1 := ⟨more - 1, by omega⟩
      have less := Nat.le_of_succ_le_succ enough
      rw [explore] at ran ⊢
      split at ran
      · exact ran
      · dsimp only at ran ⊢
        split_ifs at ran ⊢
        · exact ih ran less
        · exact ih ran less

section Searches

variable {g : JSGraph N} (within : ∀ n m, m ∈ adjList n → g.Edge n m) (away : ¬ Relation.TransGen g.Edge start start)

include within in
theorem edge_of_step {n m : N} (step : Worklist.Step (onward adjList stop) n m) : g.Edge n m :=
  within n m (step_onward.mp step).2

include within away in
/-- A search in lists of the graph never comes back to a start that is on no cycle. -/
theorem getDescendants_eq_worklist (fuel : ℕ) (stop : Option N) :
    getDescendants fuel adjList start stop = (Worklist.explore (onward adjList stop) fuel (adjList start) [start]).map
      fun all => (all, Function.update adjList start []) := by
  rw [getDescendants, ← explore_eq_worklist, Function.update_eq_self]
  intro n member path
  refine away (.head' (within start n member) ?_)
  exact Relation.ReflTransGen.mono (fun _ _ step => edge_of_step within step) _ _ path

include within away in
/-- The search ends when every way on from the list of the start does, and it finds the nodes on these ways. -/
theorem getDescendants_ends (stop : Option N) (ends : ∀ n ∈ adjList start, Worklist.Ends (onward adjList stop) n) :
    ∃ bound found, (∀ fuel ≥ bound, getDescendants fuel adjList start stop =
        some (start :: found, Function.update adjList start [])) ∧
      ∀ x, x ∈ found ↔ ∃ n ∈ adjList start, Relation.ReflTransGen (Worklist.Step (onward adjList stop)) n x := by
  obtain ⟨bound, found, ran, members⟩ := Worklist.explore_eq ends [start]
  refine ⟨bound, found, fun fuel enough => ?_, members⟩
  rw [getDescendants_eq_worklist within away, ran fuel enough]
  rfl

include within away in
/-- When the search has ended, every way on from the list of the start ends, and the list has been emptied. -/
theorem ends_of_getDescendants {fuel : ℕ} {found : List N} {after : N → List N}
    (ran : getDescendants fuel adjList start stop = some (found, after)) :
    (∀ n ∈ adjList start, Worklist.Ends (onward adjList stop) n) ∧ after = Function.update adjList start [] := by
  rw [getDescendants_eq_worklist within away] at ran
  obtain ⟨all, explored, same⟩ := Option.map_eq_some_iff.mp ran
  refine ⟨fun n member => ?_, (Prod.mk.inj same).2.symm⟩
  by_contra endless
  rw [Worklist.explore_eq_none endless fuel member] at explored
  cases explored

end Searches

/-- The search returns only when the list of the start is empty. -/
theorem explore_empties {fuel : ℕ} {found all : List N} {after : N → List N}
    (ran : explore stop start fuel adjList found = some (all, after)) : after start = [] := by
  induction fuel generalizing adjList found with
  | zero => cases ran
  | succ fuel ih =>
      rw [explore] at ran
      split at ran
      · rename_i empty
        obtain ⟨-, rfl⟩ := Prod.mk.inj (Option.some.inj ran)
        exact List.getLast?_eq_none_iff.mp empty
      · dsimp only at ran
        split at ran
        · exact ih ran
        · exact ih ran

/-- The graph keeps its lists, so that a second call finds the same nodes, and every node that can be reached without
going on behind the stop is found once, in front of the nodes that its edges lead to. -/
def ListsDescendants (g : JSGraph N) (start : N) (stop : Option N) : Prop :=
  ∃ fuel found, getDescendants fuel g.adjList start stop = some (found, g.adjList) ∧ found.Nodup ∧
    (∀ x, x ∈ found ↔ Relation.ReflTransGen (fun n m => stop ≠ some n ∧ g.Edge n m) start x) ∧
    ∀ x ∈ found, ∀ y ∈ found, g.Edge x y → found.idxOf x < found.idxOf y

/-- The search empties the list of its start, so it does what it is for exactly at the nodes without outgoing edges. -/
theorem listsDescendants_iff (g : JSGraph N) (start : N) (stop : Option N) :
    ListsDescendants g start stop ↔ g.adjList start = [] := by
  constructor
  · rintro ⟨fuel, found, ran, -⟩
    exact explore_empties ran
  · intro empty
    have alone (x : N) : ¬ g.Edge start x := by
      rw [← mem_adjList, empty]
      exact List.not_mem_nil
    refine ⟨1, [start], ?_, List.nodup_singleton start, fun x => ?_, fun x xFound y _ edge => ?_⟩
    · simp [getDescendants, explore, empty]
    · rw [List.mem_singleton, Relation.ReflTransGen.cases_head_iff]
      constructor
      · rintro rfl
        exact Or.inl rfl
      · rintro (rfl | ⟨y, ⟨-, edge⟩, -⟩)
        · rfl
        · exact absurd edge (alone y)
    · obtain rfl := List.mem_singleton.mp xFound
      exact absurd edge (alone y)

/-- One edge leads from the source to the sink. -/
def oneEdge : JSGraph Bool where
  nodes := [false, true]
  edges := [(false, true)]
  sources := [false]
  sinks := [true]
  nodes_nodup := by decide
  inside := by decide
  sources_nodup := by decide
  mem_sources := by decide
  sinks_nodup := by decide
  mem_sinks := by decide
  sources_ne := by decide
  sinks_ne := by decide

/-- The second of two calls finds the start alone. -/
theorem not_listsDescendants_oneEdge :
    (∀ n, ¬ Relation.TransGen oneEdge.Edge n n) ∧
      (getDescendants 2 oneEdge.adjList false none).map Prod.fst = some [false, true] ∧
      ((getDescendants 2 oneEdge.adjList false none).bind fun first =>
        (getDescendants 2 first.2 false none).map Prod.fst) = some [false] ∧
      ¬ ListsDescendants oneEdge false none := by
  refine ⟨IsForest.acyclic_of_lt fun v u edge => ?_, by decide, by decide, ?_⟩
  · have increasing : ∀ edge ∈ oneEdge.edges, edge.1 < edge.2 := by decide
    exact increasing (v, u) edge
  · rintro ⟨fuel, found, ran, -⟩
    have emptied : oneEdge.adjList false = [] := explore_empties ran
    contradiction

end JSGraph

end JetStream
