namespace ThreeAddress.Text

/-- Code point ranges in increasing order, both ends included. -/
abbrev Ranges := List (Nat × Nat)

def Ranges.contains : Ranges → Nat → Bool
  | [], _ => false
  | (first, last) :: rest, point =>
      if point < first then false
      else decide (point ≤ last) || Ranges.contains rest point

theorem Ranges.contains_cons {first last point : Nat} {rest : Ranges}
    (reached : first ≤ point) :
    Ranges.contains ((first, last) :: rest) point =
      (decide (point ≤ last) || Ranges.contains rest point) := by
  simp [Ranges.contains, Nat.not_lt.mpr reached]

theorem Ranges.contains_head {first last point : Nat} {rest : Ranges}
    (lower : first ≤ point) (upper : point ≤ last) :
    Ranges.contains ((first, last) :: rest) point = true := by
  rw [Ranges.contains_cons lower, decide_eq_true upper, Bool.true_or]

end ThreeAddress.Text
