import Mathlib.Algebra.BigOperators.Group.List.Basic
import Mathlib.Algebra.Order.BigOperators.GroupWithZero.List
import Mathlib.Tactic.Ring
import ThreeAddress.Types

namespace ThreeAddress

theorem wordProduct_eq_some {first product : Nat} {factors : List Nat}
    (defined : wordProduct first factors = some product) : product = first * factors.prod := by
  induction factors generalizing first with
  | nil => simpa [wordProduct] using defined.symm
  | cons factor rest ih =>
      by_cases small : first * factor < wordValues
      · have tail : wordProduct (first * factor) rest = some product := by
          simpa [wordProduct, small] using defined
        rw [ih tail, List.prod_cons, Nat.mul_assoc]
      · simp [wordProduct, small] at defined

/-- Without a zero, the whole product is the largest of the partial ones. -/
theorem wordProduct_of_positive {first : Nat} {factors : List Nat}
    (positive : ∀ factor ∈ factors, 1 ≤ factor) (small : first * factors.prod < wordValues) :
    wordProduct first factors = some (first * factors.prod) := by
  induction factors generalizing first with
  | nil => simp [wordProduct]
  | cons factor rest ih =>
      have restPositive : ∀ other ∈ rest, 1 ≤ other := fun other member =>
        positive other (List.mem_cons_of_mem _ member)
      have tailSmall : first * factor * rest.prod < wordValues := by
        rwa [List.prod_cons, ← Nat.mul_assoc] at small
      have headSmall : first * factor < wordValues :=
        Nat.lt_of_le_of_lt (Nat.le_mul_of_pos_right _ (List.prod_pos restPositive)) tailSmall
      have tail := ih restPositive tailSmall
      rw [List.prod_cons, ← Nat.mul_assoc, ← tail]
      simp [wordProduct, headSmall]

namespace DeclaredType

variable {type : DeclaredType} {sizes : List Nat} {indices others : List Int}

theorem stride_eq_some {dimension stride : Nat} (defined : type.stride dimension = some stride) :
    stride = (type.dims.drop (dimension + 1)).prod := by
  rw [wordProduct_eq_some defined, Nat.one_mul]

theorem width_pos (basic : BasicType) : 0 < basic.width := by
  cases basic <;> decide

/-- The sizes behind a dimension multiply to no more than the whole storage. -/
theorem prod_drop_le_prod (dimension : Nat) (positive : ∀ size ∈ sizes, 1 ≤ size) :
    (sizes.drop dimension).prod ≤ sizes.prod := by
  have front : 0 < (sizes.take dimension).prod :=
    List.prod_pos fun size member => positive size (List.mem_of_mem_take member)
  calc (sizes.drop dimension).prod
      ≤ (sizes.take dimension).prod * (sizes.drop dimension).prod :=
        Nat.le_mul_of_pos_left _ front
    _ = sizes.prod := List.prod_take_mul_prod_drop _ _

theorem fits_iff : type.fits = true ↔ ∃ bytes, type.size = some bytes ∧ bytes ≤ intMax := by
  cases size : type.size <;> simp [DeclaredType.fits, size]

theorem fits_size {bytes : Nat} (fits : type.fits = true) (size : type.size = some bytes) :
    bytes ≤ intMax := by
  simpa [DeclaredType.fits, size] using fits

theorem stride_of_fits (positive : ∀ size ∈ type.dims, 1 ≤ size) (fits : type.fits = true)
    (dimension : Nat) : ∃ stride, type.stride dimension = some stride ∧ stride ≤ intMax := by
  cases size : type.size with
  | none => simp [DeclaredType.fits, size] at fits
  | some bytes =>
      have total : type.basic.width * type.dims.prod ≤ intMax :=
        wordProduct_eq_some size ▸ fits_size fits size
      have behind := prod_drop_le_prod (dimension + 1) positive
      have bound : (type.dims.drop (dimension + 1)).prod ≤ intMax :=
        calc (type.dims.drop (dimension + 1)).prod
            ≤ type.dims.prod := behind
          _ ≤ type.basic.width * type.dims.prod := Nat.le_mul_of_pos_left _ (width_pos _)
          _ ≤ intMax := total
      have small : 1 * (type.dims.drop (dimension + 1)).prod < wordValues := by
        simp only [intMax, wordValues] at *
        omega
      have defined := wordProduct_of_positive
        (fun size member => positive size (List.mem_of_mem_drop member)) small
      exact ⟨_, defined, by simpa using bound⟩

/-- Whether there is one index for every size, and each is below its size. -/
def inBounds : List Nat → List Int → Bool
  | [], [] => true
  | size :: sizes, index :: indices =>
      decide (0 ≤ index ∧ index < size) && inBounds sizes indices
  | _, _ => false

/-- The number of elements before the one with these indices. -/
def rowMajor : List Nat → List Int → Int
  | _ :: sizes, index :: indices => index * sizes.prod + rowMajor sizes indices
  | _, _ => 0

/-- What an element is addressed by behind the name of its variable: nothing for a single
value, and the byte offset for an element of an array. -/
def address (type : DeclaredType) : List Int → List Int
  | [] => []
  | index :: indices => [rowMajor type.dims (index :: indices) * type.basic.width]

theorem inBounds_length (within : inBounds sizes indices = true) :
    indices.length = sizes.length := by
  induction sizes generalizing indices with
  | nil => cases indices <;> simp [inBounds] at within ⊢
  | cons size sizes ih =>
      cases indices with
      | nil => simp [inBounds] at within
      | cons index indices =>
          simp only [inBounds, Bool.and_eq_true] at within
          simp [ih within.2]

theorem inBounds_cons {size : Nat} {index : Int}
    (within : inBounds (size :: sizes) (index :: indices) = true) :
    0 ≤ index ∧ index < size ∧ inBounds sizes indices = true := by
  simpa [inBounds, and_assoc] using within

theorem rowMajor_range (within : inBounds sizes indices = true) :
    0 ≤ rowMajor sizes indices ∧ rowMajor sizes indices < sizes.prod := by
  induction sizes generalizing indices with
  | nil => cases indices <;> simp [rowMajor]
  | cons size sizes ih =>
      cases indices with
      | nil => simp [inBounds] at within
      | cons index indices =>
          obtain ⟨nonnegative, below, rest⟩ := inBounds_cons within
          obtain ⟨lower, upper⟩ := ih rest
          have scaled : index * sizes.prod ≤ (size - 1) * (sizes.prod : Int) :=
            Int.mul_le_mul_of_nonneg_right (by omega) (by omega)
          have first : 0 ≤ index * (sizes.prod : Int) :=
            Int.mul_nonneg nonnegative (by omega)
          have whole : ((size :: sizes).prod : Int) = (size - 1) * sizes.prod + sizes.prod := by
            rw [List.prod_cons]
            push_cast
            ring
          simp only [rowMajor]
          constructor <;> omega

/-- The first index is the quotient by the elements that one step of it skips. -/
theorem rowMajor_head (size : Nat) (index : Int) (rest : inBounds sizes indices = true) :
    rowMajor (size :: sizes) (index :: indices) / sizes.prod = index := by
  obtain ⟨lower, upper⟩ := rowMajor_range rest
  rw [rowMajor, Int.add_comm, Int.add_mul_ediv_right _ _ (by omega),
    Int.ediv_eq_zero_of_lt lower upper, Int.zero_add]

/-- The elements before one determine which one it is. -/
theorem rowMajor_injective (within : inBounds sizes indices = true)
    (otherWithin : inBounds sizes others = true)
    (same : rowMajor sizes indices = rowMajor sizes others) : indices = others := by
  induction sizes generalizing indices others with
  | nil =>
      have empty := inBounds_length within
      have otherEmpty := inBounds_length otherWithin
      rw [List.length_eq_zero_iff.mp empty, List.length_eq_zero_iff.mp otherEmpty]
  | cons size sizes ih =>
      cases indices with
      | nil => simp [inBounds] at within
      | cons index indices =>
          cases others with
          | nil => simp [inBounds] at otherWithin
          | cons other others =>
              obtain ⟨_, _, rest⟩ := inBounds_cons within
              obtain ⟨_, _, otherRest⟩ := inBounds_cons otherWithin
              have heads : index = other := by
                rw [← rowMajor_head size index rest, same, rowMajor_head size other otherRest]
              subst other
              simp only [rowMajor, Int.add_right_inj] at same
              rw [ih rest otherRest same]

theorem address_eq_nil_iff : type.address indices = [] ↔ indices = [] := by
  cases indices <;> simp [address]

theorem address_injective (within : inBounds type.dims indices = true)
    (otherWithin : inBounds type.dims others = true)
    (same : type.address indices = type.address others) : indices = others := by
  cases indices with
  | nil =>
      exact (address_eq_nil_iff.mp same.symm).symm
  | cons index indices =>
      cases others with
      | nil => simp [address] at same
      | cons other others =>
          have width : (type.basic.width : Int) ≠ 0 := by
            have := width_pos type.basic
            omega
          simp only [address, List.cons.injEq, and_true] at same
          exact rowMajor_injective within otherWithin (Int.eq_of_mul_eq_mul_right width same)

theorem positive_of_inBounds (within : inBounds sizes indices = true) : 0 ∉ sizes := by
  induction sizes generalizing indices with
  | nil => exact List.not_mem_nil
  | cons size sizes ih =>
      cases indices with
      | nil => simp [inBounds] at within
      | cons index indices =>
          obtain ⟨nonnegative, below, rest⟩ := inBounds_cons within
          rw [List.mem_cons, not_or]
          exact ⟨by omega, ih rest⟩

theorem inBounds_origin (positive : 0 ∉ sizes) :
    inBounds sizes (List.replicate sizes.length 0) = true := by
  induction sizes with
  | nil => rfl
  | cons size sizes ih =>
      rw [List.mem_cons, not_or] at positive
      have below : 0 < size := Nat.pos_of_ne_zero (Ne.symm positive.1)
      simp [inBounds, List.replicate_succ, ih positive.2, below]

theorem rowMajor_origin (sizes : List Nat) :
    rowMajor sizes (List.replicate sizes.length 0) = 0 := by
  induction sizes with
  | nil => rfl
  | cons size sizes ih => simp [rowMajor, List.replicate_succ, ih]

theorem address_origin (array : type.dims ≠ []) :
    type.address (List.replicate type.dims.length 0) = [0] := by
  have whole := rowMajor_origin type.dims
  cases dims : type.dims with
  | nil => contradiction
  | cons size sizes =>
      rw [dims] at whole
      simp only [List.length_cons, List.replicate_succ] at whole ⊢
      simp [address, dims, whole]

/-- Some element of one type has the address of some element of the other. -/
def Meets (first second : DeclaredType) : Prop :=
  ∃ indices others, inBounds first.dims indices = true ∧ inBounds second.dims others = true ∧
    first.address indices = second.address others

/-- Two scalars meet, and so do two arrays that have elements at all, in the first one. -/
theorem meets_iff {first second : DeclaredType} : first.Meets second ↔
    (first.dims = [] ↔ second.dims = []) ∧ 0 ∉ first.dims ∧ 0 ∉ second.dims := by
  constructor
  · intro meets
    rcases meets with ⟨indices, others, within, otherWithin, same⟩
    refine ⟨?_, positive_of_inBounds within, positive_of_inBounds otherWithin⟩
    rw [← List.length_eq_zero_iff, ← inBounds_length within, List.length_eq_zero_iff,
      ← address_eq_nil_iff, same, address_eq_nil_iff, ← List.length_eq_zero_iff,
      inBounds_length otherWithin, List.length_eq_zero_iff]
  · intro shapes
    rcases shapes with ⟨alike, positive, otherPositive⟩
    refine ⟨_, _, inBounds_origin positive, inBounds_origin otherPositive, ?_⟩
    by_cases scalar : first.dims = []
    · rw [scalar, alike.mp scalar]
      rfl
    · have otherArray : second.dims ≠ [] := fun empty => scalar (alike.mpr empty)
      rw [address_origin scalar, address_origin otherArray]

end DeclaredType

end ThreeAddress
