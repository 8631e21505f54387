import GnssFusion.Binary64.Arithmetic

/-!
Square matrices of numbers, filled entry by entry. Filling the diagonal leaves everything
beside it as it was (`entry_fillDiagonal`).
-/

namespace GnssFusion

/-- A square matrix, row after row. -/
structure SquareMatrix (n : Nat) where
  rows : Vector (Vector Binary64 n) n
  deriving DecidableEq

namespace SquareMatrix

variable {n : Nat}

def zeros (n : Nat) : SquareMatrix n := ⟨.replicate n (.replicate n (.ofNat 0))⟩

def entry (m : SquareMatrix n) (row column : Fin n) : Binary64 := m.rows[row][column]

instance : CoeFun (SquareMatrix n) fun _ => Fin n → Fin n → Binary64 := ⟨entry⟩

/-- Replaces one entry. -/
def set (m : SquareMatrix n) (row column : Fin n) (value : Binary64) : SquareMatrix n :=
  ⟨m.rows.set row (m.rows[row].set column value)⟩

/-- Puts values at some places of the diagonal, one after the other. -/
def fillDiagonal (m : SquareMatrix n) (places : List (Fin n)) (value : Fin n → Binary64) :
    SquareMatrix n :=
  places.foldl (fun m i => m.set i i (value i)) m

/-- Zeros with the given numbers on the diagonal. -/
def ofDiagonal (diagonal : Vector Binary64 n) : SquareMatrix n :=
  (zeros n).fillDiagonal (List.finRange n) fun i => diagonal[i]

@[simp] theorem entry_zeros (row column : Fin n) : (zeros n).entry row column = .ofNat 0 := by
  simp [entry, zeros]

theorem entry_set (m : SquareMatrix n) (i j row column : Fin n) (value : Binary64) :
    (m.set i j value).entry row column =
      if row = i ∧ column = j then value else m.entry row column := by
  by_cases hrow : row = i
  · subst hrow
    by_cases hcolumn : column = j
    · simp [entry, set, hcolumn]
    · have hne : (j : Nat) ≠ column := fun h => hcolumn (Fin.ext h.symm)
      simp [entry, set, hcolumn, Vector.getElem_set_ne, hne]
  · have hne : (i : Nat) ≠ row := fun h => hrow (Fin.ext h.symm)
    simp [entry, set, hrow, Vector.getElem_set_ne, hne]

theorem entry_fillDiagonal (m : SquareMatrix n) (places : List (Fin n))
    (value : Fin n → Binary64) (row column : Fin n) :
    (m.fillDiagonal places value).entry row column =
      if row = column ∧ places.contains row then value row else m.entry row column := by
  induction places generalizing m with
  | nil => simp [fillDiagonal]
  | cons i rest ih =>
      have hstep : m.fillDiagonal (i :: rest) value =
          (m.set i i (value i)).fillDiagonal rest value := rfl
      rw [hstep, ih, entry_set]
      grind

theorem entry_ofDiagonal (diagonal : Vector Binary64 n) (row column : Fin n) :
    (ofDiagonal diagonal).entry row column = if row = column then diagonal[row] else .ofNat 0 := by
  simp [ofDiagonal, entry_fillDiagonal]

end SquareMatrix
end GnssFusion
