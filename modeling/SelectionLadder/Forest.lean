/-!
# Forests

An ordered forest of trees with a value at each node.  A forest is empty, or it is a first tree,
given by its root value and the forest below it, followed by the rest of the forest.  This is one
plain inductive type, so definitions and proofs recurse on the forest below and on the rest.
-/

namespace SelectionLadder

/-- Ordered trees with values at their nodes. -/
inductive Forest (α : Type) where
  | empty
  | tree (value : α) (below rest : Forest α)
deriving Repr

namespace Forest

variable {α β : Type}

instance : Inhabited (Forest α) := ⟨empty⟩

/-- The number of nodes. -/
def size : Forest α → Nat
  | empty => 0
  | tree _ below rest => below.size + 1 + rest.size

/-- The values, each before those below it. -/
def preorder : Forest α → List α
  | empty => []
  | tree a below rest => a :: (below.preorder ++ rest.preorder)

/-- The values of the roots. -/
def roots : Forest α → List α
  | empty => []
  | tree a _ rest => a :: rest.roots

/-- The trees of one forest and then those of another. -/
def append : Forest α → Forest α → Forest α
  | empty, g => g
  | tree a below rest, g => tree a below (rest.append g)

instance : Append (Forest α) := ⟨append⟩

/-- The value at the first root. -/
def firstRoot? : Forest α → Option α
  | empty => none
  | tree a _ _ => some a

theorem size_eq_length_preorder (f : Forest α) : f.size = f.preorder.length := by
  induction f with
  | empty => rfl
  | tree a below rest ihBelow ihRest => simp [size, preorder, ihBelow, ihRest]; omega

theorem preorder_append (f g : Forest α) : (f ++ g).preorder = f.preorder ++ g.preorder := by
  induction f with
  | empty => rfl
  | tree a below rest _ ihRest =>
    show a :: (below.preorder ++ (rest ++ g).preorder) = _
    rw [ihRest]
    simp [preorder]

end Forest

end SelectionLadder
