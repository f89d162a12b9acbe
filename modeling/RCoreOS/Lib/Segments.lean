import Mathlib

/-!
# Segments of lists

Reading and writing a run of consecutive elements of a list, as a copy loop
over a buffer does: `portion` reads the run between two positions and
`overwrite` replaces the run that starts at a position.  Consecutive runs
compose, and both are described element by element through `getD`.
-/

namespace RCoreOS.Lib.Segments

open List

variable {α : Type}

/-- The elements from position `start` up to, not including, `stop`. -/
def portion (xs : List α) (start stop : Nat) : List α :=
  (xs.drop start).take (stop - start)

/-- Replace the elements from `position` on by `ys`. -/
def overwrite (xs : List α) (position : Nat) (ys : List α) : List α :=
  xs.take position ++ ys ++ xs.drop (position + ys.length)

/-! ## Reading -/

variable {start stop position : Nat}

theorem length_portion {xs : List α} (inside : stop ≤ xs.length) :
    (portion xs start stop).length = stop - start := by
  rw [portion, length_take, length_drop]
  omega

theorem portion_append (xs : List α) {middle : Nat} (first : start ≤ middle)
    (second : middle ≤ stop) :
    portion xs start middle ++ portion xs middle stop =
      portion xs start stop := by
  have shifted : xs.drop middle = (xs.drop start).drop (middle - start) := by
    rw [drop_drop, Nat.add_sub_cancel' first]
  have total : stop - start = (middle - start) + (stop - middle) := by omega
  rw [portion, portion, portion, shifted, total, take_add]

variable {index : Nat}

theorem getD_portion (xs : List α) (default : α)
    (inside : index < stop - start) :
    (portion xs start stop).getD index default =
      xs.getD (start + index) default := by
  rw [portion, getD_eq_getElem?_getD, getElem?_take_of_lt inside,
    getElem?_drop, getD_eq_getElem?_getD]

/-! ## Writing -/

theorem length_overwrite {xs ys : List α}
    (inside : position + ys.length ≤ xs.length) :
    (overwrite xs position ys).length = xs.length := by
  simp only [overwrite, length_append, length_take, length_drop]
  omega

@[simp]
theorem overwrite_nil (xs : List α) (position : Nat) :
    overwrite xs position [] = xs := by
  simp [overwrite]

/-- Two consecutive writes are one write of the concatenation. -/
theorem overwrite_overwrite {xs ys : List α} (zs : List α)
    (inside : position ≤ xs.length) :
    overwrite (overwrite xs position ys) (position + ys.length) zs =
      overwrite xs position (ys ++ zs) := by
  have front : (xs.take position ++ ys).length = position + ys.length := by
    rw [length_append, length_take, Nat.min_eq_left inside]
  simp only [overwrite]
  rw [take_append_of_le_length (Nat.le_of_eq front.symm),
    take_of_length_le (Nat.le_of_eq front), drop_append, front,
    Nat.add_sub_cancel_left, drop_drop,
    drop_eq_nil_of_le (by rw [front]; omega)]
  simp [Nat.add_assoc]

theorem getD_overwrite {xs ys : List α} (default : α)
    (inside : position ≤ xs.length) (index : Nat) :
    (overwrite xs position ys).getD index default =
      if position ≤ index ∧ index < position + ys.length then
        ys.getD (index - position) default
      else
        xs.getD index default := by
  have front : (xs.take position).length = position := by
    rw [length_take, Nat.min_eq_left inside]
  simp only [overwrite, append_assoc, getD_eq_getElem?_getD,
    getElem?_append, front]
  by_cases before : index < position
  · rw [if_pos before, if_neg (by omega), getElem?_take_of_lt before]
  · rw [if_neg before]
    by_cases within : index - position < ys.length
    · rw [if_pos within, if_pos (by omega)]
    · rw [if_neg within, if_neg (by omega), getElem?_drop]
      congr 2
      omega

/-- Padding a list with the default element changes none of its values. -/
theorem getD_rightpad (xs : List α) (count : Nat) (default : α) (index : Nat) :
    (xs.rightpad count default).getD index default =
      xs.getD index default := by
  simp only [List.rightpad, getD_eq_getElem?_getD, getElem?_append]
  by_cases inside : index < xs.length
  · rw [if_pos inside]
  · rw [if_neg inside, getElem?_replicate,
      getElem?_eq_none (Nat.not_lt.mp inside)]
    split <;> rfl

theorem length_rightpad (xs : List α) (count : Nat) (default : α) :
    (xs.rightpad count default).length = max count xs.length := by
  rw [List.rightpad, length_append, length_replicate]
  omega

theorem rightpad_rightpad
    (xs : List α) {count more : Nat} (default : α) (order : count ≤ more) :
    (xs.rightpad count default).rightpad more default =
      xs.rightpad more default := by
  simp only [List.rightpad, append_assoc, length_append,
    length_replicate, replicate_append_replicate]
  congr 2
  omega

theorem rightpad_overwrite {xs ys : List α} (count : Nat) (default : α)
    (inside : position + ys.length ≤ xs.length) :
    (overwrite xs position ys).rightpad count default =
      overwrite (xs.rightpad count default) position ys := by
  rw [List.rightpad, length_overwrite inside, overwrite, overwrite,
    List.rightpad, take_append_of_le_length (by omega),
    drop_append_of_le_length inside]
  simp only [append_assoc]

/-- Two consecutive writes that pad first are one write that pads first. -/
theorem overwrite_rightpad_overwrite
    (xs ys zs : List α) (position : Nat) (default : α) :
    overwrite
        ((overwrite (xs.rightpad (position + ys.length) default) position
            ys).rightpad (position + ys.length + zs.length) default)
        (position + ys.length) zs =
      overwrite (xs.rightpad (position + (ys ++ zs).length) default) position
        (ys ++ zs) := by
  have padded := length_rightpad xs (position + ys.length) default
  have longer := length_rightpad xs (position + ys.length + zs.length) default
  rw [rightpad_overwrite _ _ (by omega),
    rightpad_rightpad _ _ (Nat.le_add_right _ _),
    overwrite_overwrite _ (by omega), length_append, Nat.add_assoc]

/-! ## Filling buffers from a source -/

/-- A buffer after the elements of the source were copied to its front. -/
def fill (buf source : List α) : List α :=
  source.take buf.length ++ buf.drop source.length

@[simp]
theorem fill_nil (buf : List α) : fill buf [] = buf := by
  simp [fill]

@[simp]
theorem length_fill (buf source : List α) :
    (fill buf source).length = buf.length := by
  rw [fill, length_append, length_take, length_drop]
  omega

theorem drop_length_take (xs : List α) (count : Nat) :
    xs.drop (xs.take count).length = xs.drop count := by
  rw [length_take]
  rcases Nat.le_total count xs.length with inside | behind
  · rw [Nat.min_eq_left inside]
  · rw [Nat.min_eq_right behind, drop_length, drop_eq_nil_of_le behind]

theorem length_take_append (xs : List α) (count more : Nat) :
    (xs.take count).length + ((xs.drop count).take more).length =
      (xs.take (count + more)).length := by
  rw [take_add, length_append]

theorem take_fill (buf source : List α) :
    (fill buf source).take (source.take buf.length).length =
      source.take buf.length := by
  rw [fill, take_left]

theorem overwrite_portion (buf source : List α) (start : Nat) :
    overwrite buf 0
        (portion source start (min (start + buf.length) source.length)) =
      fill buf (source.drop start) := by
  have copied :
      portion source start (min (start + buf.length) source.length) =
        (source.drop start).take buf.length := by
    rw [portion, take_eq_take_iff, length_drop]
    omega
  have behind :
      buf.drop ((source.drop start).take buf.length).length =
        buf.drop (source.drop start).length := by
    rw [length_take]
    rcases Nat.le_total buf.length (source.drop start).length with
      full | short
    · rw [Nat.min_eq_left full, drop_length, drop_eq_nil_of_le full]
    · rw [Nat.min_eq_right short]
  rw [copied, overwrite, fill, take_zero, nil_append, Nat.zero_add, behind]

theorem fill_append (xs ys source : List α) :
    fill (xs ++ ys) source =
      fill xs source ++ fill ys (source.drop xs.length) := by
  rcases Nat.le_total xs.length source.length with full | short
  · rw [fill, fill, fill, drop_eq_nil_of_le full, append_nil, length_append,
      take_add, append_assoc, length_drop, drop_append, drop_eq_nil_of_le full,
      nil_append]
  · rw [drop_eq_nil_of_le short, fill_nil, fill, fill,
      take_of_length_le short,
      take_of_length_le (by rw [length_append]; omega),
      drop_append_of_le_length short, append_assoc]

/-- Fill one buffer after the other. -/
def fillEach : List (List α) → List α → List (List α)
  | [], _ => []
  | buf :: rest, source =>
    fill buf source :: fillEach rest (source.drop buf.length)

theorem flatten_fillEach (bufs : List (List α)) (source : List α) :
    (fillEach bufs source).flatten = fill bufs.flatten source := by
  induction bufs generalizing source with
  | nil => simp [fillEach, fill]
  | cons buf rest ih =>
    rw [fillEach, flatten_cons, flatten_cons, ih, fill_append]

@[simp]
theorem fillEach_nil (bufs : List (List α)) : fillEach bufs [] = bufs := by
  induction bufs with
  | nil => rfl
  | cons buf rest ih => rw [fillEach, fill_nil, drop_nil, ih]

theorem map_length_fillEach (bufs : List (List α)) (source : List α) :
    (fillEach bufs source).map List.length = bufs.map List.length := by
  induction bufs generalizing source with
  | nil => rfl
  | cons buf rest ih => rw [fillEach, map_cons, map_cons, length_fill, ih]

theorem flatten_splitLengths_take (counts : List Nat) (source : List α) :
    (counts.splitLengths source).flatten = source.take counts.sum := by
  induction counts generalizing source with
  | nil => simp
  | cons count rest ih =>
    rw [splitLengths_cons, flatten_cons, ih, sum_cons, take_add]

/-- A part is empty exactly when the parts before it are the whole source. -/
theorem splitLengths_eq_nil
    {counts : List Nat} (positive : ∀ count ∈ counts, 0 < count)
    (source : List α) {part : List α}
    (isPart : (counts.splitLengths source)[index]? = some part) :
    part = [] ↔
      source.length ≤
        ((counts.splitLengths source).take index).flatten.length := by
  induction counts generalizing source index with
  | nil =>
    rw [splitLengths_nil] at isPart
    cases isPart
  | cons count rest ih =>
    rw [splitLengths_cons] at isPart ⊢
    have first := positive count mem_cons_self
    cases index with
    | zero =>
      cases isPart
      rw [take_zero, flatten_nil, length_nil,
        take_eq_nil_iff, Nat.le_zero, length_eq_zero_iff]
      exact or_iff_right (Nat.ne_of_gt first)
    | succ index =>
      have later :=
        ih (fun n member => positive n (mem_cons_of_mem _ member))
          (source.drop count) isPart
      rw [later, take_succ_cons, flatten_cons,
        length_append, length_drop, length_take]
      omega

/-- Replacing one element changes a sum by the difference. -/
theorem sum_set {xs : List α} {x : α} (present : xs[position]? = some x)
    (weight : α → Nat) (y : α) :
    ((xs.set position y).map weight).sum + weight x =
      (xs.map weight).sum + weight y := by
  induction xs generalizing position with
  | nil => cases present
  | cons first rest ih =>
    cases position with
    | zero =>
      cases present
      simp only [set_cons_zero, map_cons, sum_cons]
      omega
    | succ position =>
      have later := ih present
      simp only [set_cons_succ, map_cons, sum_cons]
      omega

/-- Lists of one length with the same values are equal. -/
theorem list_ext_getD
    {xs ys : List α} (default : α) (sameLength : xs.length = ys.length)
    (agree :
      ∀ index, index < xs.length →
        xs.getD index default = ys.getD index default) :
    xs = ys := by
  apply ext_getElem sameLength
  intro index inLeft inRight
  have equal := agree index inLeft
  rwa [getD_eq_getElem _ _ inLeft, getD_eq_getElem _ _ inRight]
    at equal

end RCoreOS.Lib.Segments
