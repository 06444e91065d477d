import Mathlib.Data.List.Nodup
import Mathlib.Logic.Relation
import JetStream.Lib.DisjointSets

namespace JetStream

/-- These are the ways in which a computation on a graph fails, and the last one is a recursion that is too deep. -/
inductive GraphError where
  | schemaError (message : String)
  | assertionError
  | keyError
  | valueError
  | attributeError
  | recursion
  deriving DecidableEq

/-- Edges connect nodes of the graph, and the dictionaries of its sources and sinks list their entries in some order. -/
structure JSGraph (N : Type) where
  nodes : List N
  edges : List (N × N)
  sources : List N
  sinks : List N
  nodes_nodup : nodes.Nodup
  inside : ∀ edge ∈ edges, edge.1 ∈ nodes ∧ edge.2 ∈ nodes
  sources_nodup : sources.Nodup
  mem_sources : ∀ n, n ∈ sources ↔ n ∈ nodes ∧ n ∉ edges.map Prod.snd
  sinks_nodup : sinks.Nodup
  mem_sinks : ∀ n, n ∈ sinks ↔ n ∈ nodes ∧ n ∉ edges.map Prod.fst
  sources_ne : sources ≠ []
  sinks_ne : sinks ≠ []

/-- The search for common descendants colours nodes, keeps the pairs it has to answer, and collects the answers. -/
structure LcaState (N : Type) where
  sets : DisjointSets N
  ancestor : N → Option N
  black : N → Bool
  pairs : N → Option (List N)
  lcas : List N
  draws : ℕ

namespace JSGraph

variable {N : Type} [DecidableEq N]

def Edge (g : JSGraph N) (p n : N) : Prop := (p, n) ∈ g.edges

/-- A node without an entry has no outgoing neighbour. -/
def adjList (g : JSGraph N) (n : N) : List N := (g.edges.filter fun edge => edge.1 = n).map Prod.snd

/-- A node without an entry has no incoming neighbour. -/
def radjList (g : JSGraph N) (n : N) : List N := (g.edges.filter fun edge => edge.2 = n).map Prod.fst

/-- The neighbours of the start are taken from its own list, so the list is empty in the end. -/
def explore (stop : Option N) (start : N) : ℕ → (N → List N) → List N → Option (List N × (N → List N))
  | 0, _, _ => none
  | fuel + 1, adjList, found =>
      match (adjList start).getLast? with
      | none => some (found, adjList)
      | some next =>
          let adjList := Function.update adjList start (adjList start).dropLast
          if stop = some next then explore stop start fuel adjList (found ++ [next])
          else
            let adjList := Function.update adjList start (adjList start ++ adjList next)
            explore stop start fuel adjList (found ++ [next])

/-- The search returns the nodes it found, the start first, with the lists it leaves behind. -/
def getDescendants (fuel : ℕ) (adjList : N → List N) (start : N) (stop : Option N) :
    Option (List N × (N → List N)) :=
  explore stop start fuel adjList [start]

/-- A set gives up any of its elements. -/
def popLca (pick : ℕ → ℕ) (state : LcaState N) : Except GraphError (N × LcaState N) :=
  match state.lcas[pick state.draws % state.lcas.length]? with
  | none => .error .keyError
  | some n => .ok (n, { state with lcas := state.lcas.erase n, draws := state.draws + 1 })

def appendPair (n partner : N) (pairs : N → Option (List N)) : N → Option (List N) :=
  Function.update pairs n (some ((pairs n).getD [] ++ [partner]))

/-- Two candidates are replaced by a pair that has to be answered. -/
def pairUp (pick : ℕ → ℕ) (state : LcaState N) : Except GraphError (LcaState N) :=
  (popLca pick state).bind fun (u, state) => (popLca pick state).map fun (v, state) =>
    { state with pairs := appendPair v u (appendPair u v state.pairs) }

/-- The loop pairs candidates as long as there are two of them. -/
def pairAll (pick : ℕ → ℕ) : ℕ → LcaState N → Except GraphError (LcaState N)
  | 0, _ => .error .recursion
  | fuel + 1, state =>
      if 2 ≤ state.lcas.length then (pairUp pick state).bind (pairAll pick fuel) else .ok state

/-- An answered pair is taken from the lists of both nodes, and the second node loses an empty list. -/
def removePair (u : N) (i : ℕ) (v : N) (pairs : N → Option (List N)) : Except GraphError (N → Option (List N)) :=
  match pairs u with
  | none => .error .keyError
  | some partners =>
      let pairs := Function.update pairs u (some (partners.eraseIdx i))
      match pairs v with
      | none => .error .keyError
      | some partners =>
          if u ∉ partners then .error .valueError
          else
            let partners := partners.erase u
            .ok (Function.update pairs v (if partners = [] then none else some partners))

/-- The answer is the ancestor of the second node, and two candidates become a pair again. -/
def answerPair (g : JSGraph N) (pick : ℕ → ℕ) (recurse : Bool) (u : N) (i : ℕ) (v : N) (state : LcaState N) :
    Except GraphError (LcaState N) :=
  match state.sets.find g.nodes.length v with
  | none => .error .recursion
  | some (sets, top) =>
      match state.ancestor top with
      | none => .error .attributeError
      | some lca => (removePair u i v state.pairs).bind fun pairs =>
          let state := { state with sets := sets, pairs := pairs, lcas := state.lcas.insert lca }
          if recurse = true ∧ 2 ≤ state.lcas.length then pairUp pick state else .ok state

/-- The loop answers the pairs of a node whose other node is black, and the list may grow meanwhile. -/
def pairLoop (g : JSGraph N) (pick : ℕ → ℕ) (recurse : Bool) (u : N) :
    ℕ → ℕ → LcaState N → Except GraphError (LcaState N)
  | 0, _, _ => .error .recursion
  | turns + 1, i, state =>
      match state.pairs u with
      | none => .error .keyError
      | some partners =>
          match partners[i]? with
          | none => .ok state
          | some v =>
              if state.black v then
                (g.answerPair pick recurse u i v state).bind fun state => g.pairLoop pick recurse u turns i state
              else g.pairLoop pick recurse u turns (i + 1) state

/-- Each candidate and each pair takes at most three turns. -/
def pairTurns (g : JSGraph N) : ℕ := 3 * g.sources.length + 2

/-- A node with pairs answers them, and it loses an empty list. -/
def answerPairs (g : JSGraph N) (pick : ℕ → ℕ) (recurse : Bool) (u : N) (state : LcaState N) :
    Except GraphError (LcaState N) :=
  match state.pairs u with
  | none => .ok state
  | some _ => (g.pairLoop pick recurse u g.pairTurns 0 state).bind fun state =>
      match state.pairs u with
      | none => .error .keyError
      | some partners => .ok (if partners = [] then { state with pairs := Function.update state.pairs u none } else state)

/-- The set of a visited neighbour is united with the set of the node, and the node becomes the ancestor. -/
def uniteNeighbour (g : JSGraph N) (u v : N) (state : LcaState N) : Except GraphError (LcaState N) :=
  match state.sets.union g.nodes.length u v with
  | none => .error .recursion
  | some sets =>
      match sets.find g.nodes.length u with
      | none => .error .recursion
      | some (sets, top) => .ok { state with sets := sets, ancestor := Function.update state.ancestor top (some u) }

/-- Each incoming neighbour is visited and united with the node. -/
def neighbourLoop (g : JSGraph N) (visit : N → LcaState N → Except GraphError (LcaState N)) (u : N) :
    List N → LcaState N → Except GraphError (LcaState N)
  | [], state => .ok state
  | v :: rest, state => (visit v state).bind fun state => (g.uniteNeighbour u v state).bind fun state =>
      g.neighbourLoop visit u rest state

/-- The visit goes against the direction of the edges, and it colours the node before it answers its pairs. -/
def computeLcas (g : JSGraph N) (pick : ℕ → ℕ) (recurse : Bool) :
    ℕ → N → LcaState N → Except GraphError (LcaState N)
  | 0, _, _ => .error .recursion
  | fuel + 1, u, state =>
      let state := { state with
        sets := state.sets.makeSet u
        ancestor := Function.update state.ancestor u (some u) }
      (g.neighbourLoop (g.computeLcas pick recurse fuel) u (g.radjList u) state).bind fun state =>
        g.answerPairs pick recurse u { state with black := Function.update state.black u true }

/-- The candidates are the sources, and no node has been visited. -/
def resetState (g : JSGraph N) (draws : ℕ) : LcaState N where
  sets := .empty
  ancestor _ := none
  black _ := false
  pairs _ := none
  lcas := g.sources
  draws := draws

/-- The sinks are tried as roots until all pairs are answered. -/
def tryRoots (g : JSGraph N) (pick : ℕ → ℕ) : List N → ℕ → Except GraphError N
  | [], _ => .error (.schemaError "Graph lacks a union point for all sources")
  | root :: rest, draws =>
      (pairAll pick (g.sources.length + 1) (g.resetState draws)).bind fun state =>
        (g.computeLcas pick true g.nodes.length root state).bind fun state =>
          if g.nodes.all fun n => (state.pairs n).isNone then
            if state.lcas.length = 1 then (popLca pick state).map Prod.fst else .error .assertionError
          else g.tryRoots pick rest state.draws

def getSourcesLca (g : JSGraph N) (pick : ℕ → ℕ) : Except GraphError N :=
  g.tryRoots pick g.sinks 0

end JSGraph

end JetStream
