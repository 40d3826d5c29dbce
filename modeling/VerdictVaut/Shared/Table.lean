import VerdictVaut.Shared.Sums

set_option autoImplicit false

namespace Relational

/-- What a schema demands of the rows of one table: the row-level CHECK constraints, and for two
rows the columns of a unique index that they would share. -/
class RowSpec (α : Type) where
  check : α → Bool
  clash : α → α → Option (List String)
  clash_symm : ∀ a b, clash a b = clash b a

def uniqueOn (columns : List String) (same : Prop) [Decidable same] : Option (List String) :=
  -- the columns of a unique index, when the two rows agree on them
  if same then some columns else none

@[simp] theorem uniqueOn_eq_none {columns : List String} {same : Prop} [Decidable same] :
    uniqueOn columns same = none ↔ ¬ same := by
  unfold uniqueOn
  split <;> simp_all

@[simp] theorem uniqueOn_eq_some {columns target : List String} {same : Prop} [Decidable same] :
    uniqueOn columns same = some target ↔ same ∧ columns = target := by
  unfold uniqueOn
  split <;> simp_all

inductive DbError
  | checkViolation
  | uniqueViolation (target : List String)
  | recordNotFound
  deriving DecidableEq, Repr

/-- An append-only table. A row's id is its position; rows are rewritten in place, never deleted. -/
@[ext] structure Table (α : Type) [RowSpec α] where
  rows : List α
  checked : ∀ row ∈ rows, RowSpec.check row = true
  distinct : rows.Pairwise fun a b => RowSpec.clash a b = none

namespace Table

variable {α : Type} [RowSpec α]

instance [DecidableEq α] : DecidableEq (Table α) := fun a b =>
  decidable_of_iff (a.rows = b.rows) Table.ext_iff.symm

def empty : Table α := ⟨[], by simp, List.Pairwise.nil⟩

def size (t : Table α) : Nat := t.rows.length

def get? (t : Table α) (i : Nat) : Option α := t.rows[i]?

@[simp] theorem rows_empty : (empty : Table α).rows = [] := rfl

@[simp] theorem get?_empty (i : Nat) : (empty : Table α).get? i = none := rfl

theorem get?_mem {t : Table α} {i : Nat} {row : α} (found : t.get? i = some row) : row ∈ t.rows :=
  List.mem_of_getElem? found

theorem get?_lt {t : Table α} {i : Nat} {row : α} (found : t.get? i = some row) : i < t.size := by
  obtain ⟨inside, -⟩ := List.getElem?_eq_some_iff.mp found
  exact inside

theorem check_of_get? {t : Table α} {i : Nat} {row : α} (found : t.get? i = some row) :
    RowSpec.check row = true :=
  t.checked row (get?_mem found)

theorem clash_of_ne {t : Table α} {i j : Nat} {a b : α} (first : t.get? i = some a)
    (second : t.get? j = some b) (different : i ≠ j) : RowSpec.clash a b = none := by
  obtain ⟨hi, rfl⟩ := List.getElem?_eq_some_iff.mp first
  obtain ⟨hj, rfl⟩ := List.getElem?_eq_some_iff.mp second
  have apart := List.pairwise_iff_getElem.mp t.distinct
  rcases lt_or_gt_of_ne different with before | after
  · exact apart i j hi hj before
  · rw [RowSpec.clash_symm]
    exact apart j i hj hi after

def insert (t : Table α) (row : α) : Except DbError (Table α) :=
  if valid : RowSpec.check row = true then
    match fresh : t.rows.findSome? (RowSpec.clash row) with
    | some target => .error (.uniqueViolation target)
    | none => .ok
        { rows := t.rows ++ [row]
          checked := by
            intro other member
            rcases List.mem_append.mp member with old | new
            · exact t.checked other old
            · rw [List.mem_singleton.mp new]
              exact valid
          distinct := by
            refine List.pairwise_append.mpr ⟨t.distinct, List.pairwise_singleton _ _, ?_⟩
            intro other old new member
            rw [List.mem_singleton.mp member, RowSpec.clash_symm]
            exact List.findSome?_eq_none_iff.mp fresh other old }
  else .error .checkViolation

theorem insert_ok {t t' : Table α} {row : α} (done : t.insert row = .ok t') :
    RowSpec.check row = true ∧ (∀ other ∈ t.rows, RowSpec.clash row other = none) ∧
      t'.rows = t.rows ++ [row] := by
  unfold insert at done
  split at done
  next valid =>
    split at done
    next => cases done
    next fresh =>
      cases done
      exact ⟨valid, List.findSome?_eq_none_iff.mp fresh, rfl⟩
  next => cases done

theorem insert_eq_ok {t : Table α} (row : α) (valid : RowSpec.check row = true)
    (fresh : ∀ other ∈ t.rows, RowSpec.clash row other = none) :
    ∃ t', t.insert row = .ok t' ∧ t'.rows = t.rows ++ [row] := by
  have none := List.findSome?_eq_none_iff.mpr fresh
  unfold insert
  rw [dif_pos valid]
  split
  next target taken => simp [none] at taken
  next => exact ⟨_, rfl, rfl⟩

theorem insert_unique {t : Table α} {row : α} {target : List String}
    (failed : t.insert row = .error (.uniqueViolation target)) :
    ∃ other ∈ t.rows, RowSpec.clash row other = some target := by
  unfold insert at failed
  split at failed
  next =>
    split at failed
    next taken =>
      cases failed
      obtain ⟨other, member, hit⟩ := List.exists_of_findSome?_eq_some taken
      exact ⟨other, member, hit⟩
    next => cases failed
  next => cases failed

theorem insert_taken {t : Table α} {row other : α} {target : List String} (valid : RowSpec.check row = true)
    (member : other ∈ t.rows) (hit : RowSpec.clash row other = some target)
    (only : ∀ other ∈ t.rows, ∀ target', RowSpec.clash row other = some target' → target' = target) :
    t.insert row = .error (.uniqueViolation target) := by
  unfold insert
  rw [dif_pos valid]
  split
  next target' taken =>
    obtain ⟨found, inside, clashes⟩ := List.exists_of_findSome?_eq_some taken
    rw [only found inside target' clashes]
  next free =>
    rw [List.findSome?_eq_none_iff.mp free other member] at hit
    cases hit

def update (t : Table α) (i : Nat) (row : α) : Except DbError (Table α) :=
  if inside : i < t.rows.length then
    if valid : RowSpec.check row = true then
      match fresh : (t.rows.eraseIdx i).findSome? (RowSpec.clash row) with
      | some target => .error (.uniqueViolation target)
      | none => .ok
          { rows := t.rows.set i row
            checked := by
              intro other member
              rcases List.mem_or_eq_of_mem_set member with old | rfl
              · exact t.checked other old
              · exact valid
            distinct := by
              have apart := List.pairwise_iff_getElem.mp t.distinct
              have away : ∀ j (hj : j < t.rows.length), j ≠ i → RowSpec.clash row t.rows[j] = none := by
                intro j hj different
                exact List.findSome?_eq_none_iff.mp fresh _
                  (List.mem_eraseIdx_iff_getElem.mpr ⟨j, hj, different, rfl⟩)
              refine List.pairwise_iff_getElem.mpr ?_
              intro a b ha hb before
              simp only [List.length_set] at ha hb
              simp only [List.getElem_set]
              split_ifs with left right right
              · omega
              · exact away b hb (by omega)
              · rw [RowSpec.clash_symm]
                exact away a ha (by omega)
              · exact apart a b ha hb before }
    else .error .checkViolation
  else .error .recordNotFound

theorem update_ok {t t' : Table α} {i : Nat} {row : α} (done : t.update i row = .ok t') :
    i < t.size ∧ RowSpec.check row = true ∧
      (∀ j other, j ≠ i → t.get? j = some other → RowSpec.clash row other = none) ∧
      t'.rows = t.rows.set i row := by
  unfold update at done
  split at done
  next inside =>
    split at done
    next valid =>
      split at done
      next => cases done
      next fresh =>
        cases done
        refine ⟨inside, valid, ?_, rfl⟩
        intro j other different found
        obtain ⟨hj, rfl⟩ := List.getElem?_eq_some_iff.mp found
        exact List.findSome?_eq_none_iff.mp fresh _
          (List.mem_eraseIdx_iff_getElem.mpr ⟨j, hj, different, rfl⟩)
    next => cases done
  next => cases done

theorem update_eq_ok {t : Table α} {i : Nat} (row : α) (inside : i < t.size)
    (valid : RowSpec.check row = true)
    (fresh : ∀ j other, j ≠ i → t.get? j = some other → RowSpec.clash row other = none) :
    ∃ t', t.update i row = .ok t' ∧ t'.rows = t.rows.set i row := by
  have none : (t.rows.eraseIdx i).findSome? (RowSpec.clash row) = none := by
    refine List.findSome?_eq_none_iff.mpr ?_
    intro other member
    obtain ⟨j, hj, different, rfl⟩ := List.mem_eraseIdx_iff_getElem.mp member
    exact fresh j _ different (List.getElem?_eq_getElem hj)
  have bounded : i < t.rows.length := inside
  unfold update
  rw [dif_pos bounded, dif_pos valid]
  split
  next target taken => simp [none] at taken
  next => exact ⟨_, rfl, rfl⟩

section Effects

variable {t t' : Table α} {i j : Nat} {row other : α}

theorem get?_of_append (appended : t'.rows = t.rows ++ [row]) (j : Nat) :
    t'.get? j = if j = t.size then some row else t.get? j := by
  unfold get? size
  rw [appended]
  by_cases last : j = t.rows.length
  · simp [last]
  · rw [if_neg last]
    by_cases inside : j < t.rows.length
    · rw [List.getElem?_append_left inside]
    · rw [List.getElem?_eq_none (by simp; omega), List.getElem?_eq_none (by omega)]

theorem get?_of_set (rewritten : t'.rows = t.rows.set i row) (inside : i < t.size) (j : Nat) :
    t'.get? j = if j = i then some row else t.get? j := by
  unfold get?
  unfold size at inside
  rw [rewritten, List.getElem?_set]
  by_cases same : j = i
  · subst same
    simp [inside]
  · simp [same, Ne.symm same]

theorem size_of_append (appended : t'.rows = t.rows ++ [row]) : t'.size = t.size + 1 := by
  simp [size, appended]

theorem size_of_set (rewritten : t'.rows = t.rows.set i row) : t'.size = t.size := by
  simp [size, rewritten]

theorem mem_iff_get? : row ∈ t.rows ↔ ∃ i, t.get? i = some row :=
  List.mem_iff_getElem?

end Effects

def Wrote (t t' : Table α) (i : Nat) (row : α) : Prop :=
  -- the row with this id is now the given one, new or rewritten, and no other row changed
  ∀ j, t'.get? j = if j = i then some row else t.get? j

section Written

variable {t t' t'' : Table α} {i : Nat} {row : α}

theorem Wrote.get (wrote : Wrote t t' i row) : t'.get? i = some row := by
  rw [wrote i, if_pos rfl]

theorem Wrote.other (wrote : Wrote t t' i row) {j : Nat} (different : j ≠ i) : t'.get? j = t.get? j := by
  rw [wrote j, if_neg different]

theorem size_le_iff {j : Nat} : t.size ≤ j ↔ t.get? j = none := List.getElem?_eq_none_iff.symm

theorem Wrote.beyond (wrote : Wrote t t' i row) {j : Nat} : t'.size ≤ j ↔ t.size ≤ j ∧ j ≠ i := by
  rw [size_le_iff, wrote j, size_le_iff]
  split <;> simp_all

theorem Wrote.of_insert (done : t.insert row = .ok t') : Wrote t t' t.size row :=
  get?_of_append (insert_ok done).2.2

theorem Wrote.of_update (done : t.update i row = .ok t') : Wrote t t' i row := by
  obtain ⟨inside, -, -, rewritten⟩ := update_ok done
  exact get?_of_set rewritten inside

theorem Wrote.refl (found : t.get? i = some row) : Wrote t t i row := by
  intro j
  split
  next same => rw [same, found]
  next => rfl

theorem Wrote.rows_append (wrote : Wrote t t' t.size row) : t'.rows = t.rows ++ [row] := by
  refine List.ext_getElem? fun j => ?_
  have at_j : t'.rows[j]? = if j = t.rows.length then some row else t.rows[j]? := wrote j
  rw [at_j]
  rcases lt_trichotomy j t.rows.length with before | rfl | after
  · rw [if_neg before.ne, List.getElem?_append_left before]
  · rw [if_pos rfl, List.getElem?_concat_length]
  · rw [if_neg after.ne', List.getElem?_eq_none after.le, List.getElem?_eq_none (by simp; omega)]

theorem Wrote.rows_set {old : α} (wrote : Wrote t t' i row) (found : t.get? i = some old) :
    t'.rows = t.rows.set i row := by
  refine List.ext_getElem? fun j => ?_
  obtain ⟨inside, -⟩ := List.getElem?_eq_some_iff.mp found
  have at_j : t'.rows[j]? = if j = i then some row else t.rows[j]? := wrote j
  rw [at_j]
  split
  next same => rw [same, List.getElem?_set_self inside]
  next different => rw [List.getElem?_set_ne (Ne.symm different)]

theorem Wrote.again {row' : α} (first : Wrote t t' i row) (second : Wrote t' t'' i row') : Wrote t t'' i row' := by
  intro j
  rw [second j, first j]
  split <;> rfl

end Written

def Carries {β : Type} (columns : α → β) (t t' : Table α) : Prop :=
  -- every row is still there, with the same values in these columns
  ∀ i row, t.get? i = some row → ∃ row', t'.get? i = some row' ∧ columns row' = columns row

section Carried

variable {β γ : Type} {columns : α → β} {t t' t'' : Table α}

theorem Carries.refl (columns : α → β) (t : Table α) : Carries columns t t :=
  fun _ row found => ⟨row, found, rfl⟩

theorem Carries.trans (first : Carries columns t t') (second : Carries columns t' t'') :
    Carries columns t t'' := by
  intro i row found
  obtain ⟨row', found', same⟩ := first i row found
  obtain ⟨row'', found'', same'⟩ := second i row' found'
  exact ⟨row'', found'', same'.trans same⟩

theorem Carries.map (carried : Carries columns t t') (f : β → γ) : Carries (f ∘ columns) t t' := by
  intro i row found
  obtain ⟨row', found', same⟩ := carried i row found
  exact ⟨row', found', congrArg f same⟩

theorem Carries.of_append {row : α} (appended : t'.rows = t.rows ++ [row]) : Carries columns t t' := by
  intro i old found
  refine ⟨old, ?_, rfl⟩
  rw [get?_of_append appended, if_neg (Nat.ne_of_lt (get?_lt found)), found]

theorem Carries.of_set {i : Nat} {old row : α} (found : t.get? i = some old)
    (rewritten : t'.rows = t.rows.set i row) (same : columns row = columns old) :
    Carries columns t t' := by
  intro j other position
  rw [get?_of_set rewritten (get?_lt found)]
  by_cases this : j = i
  · subst this
    rw [found] at position
    cases position
    exact ⟨row, by simp, same⟩
  · exact ⟨other, by simp [this, position], rfl⟩

theorem Carries.of_wrote {i : Nat} {row : α} (wrote : Wrote t t' i row)
    (same : ∀ old, t.get? i = some old → columns row = columns old) : Carries columns t t' := by
  intro j old found
  by_cases this : j = i
  · subst this
    exact ⟨row, wrote.get, same old found⟩
  · exact ⟨old, (wrote.other this).trans found, rfl⟩

theorem Carries.size (carried : Carries columns t t') : t.size ≤ t'.size := by
  by_contra shorter
  have inside : t'.size < t.rows.length := not_le.mp shorter
  obtain ⟨row', found, -⟩ := carried t'.size _ (List.getElem?_eq_getElem inside)
  exact absurd (get?_lt found) (lt_irrefl _)

end Carried

/-- `findFirst`: the first row, with its id, that satisfies the condition. -/
def findIn (wanted : α → Bool) : Nat → List α → Option (Nat × α)
  | _, [] => none
  | i, row :: rest => if wanted row then some (i, row) else findIn wanted (i + 1) rest

def find? (t : Table α) (wanted : α → Bool) : Option (Nat × α) :=
  findIn wanted 0 t.rows

omit [RowSpec α] in
theorem findIn_some {wanted : α → Bool} {rows : List α} {start i : Nat} {row : α}
    (found : findIn wanted start rows = some (i, row)) :
    start ≤ i ∧ rows[i - start]? = some row ∧ wanted row = true := by
  induction rows generalizing start with
  | nil => simp [findIn] at found
  | cons head rest ih =>
    by_cases hit : wanted head
    · simp only [findIn, hit, if_true, Option.some.injEq, Prod.mk.injEq] at found
      obtain ⟨rfl, rfl⟩ := found
      simp [hit]
    · simp only [findIn, hit] at found
      obtain ⟨above, position, holds⟩ := ih found
      refine ⟨by omega, ?_, holds⟩
      have shift : i - start = (i - (start + 1)) + 1 := by omega
      rw [shift, List.getElem?_cons_succ]
      exact position

theorem find?_some {t : Table α} {wanted : α → Bool} {i : Nat} {row : α}
    (found : t.find? wanted = some (i, row)) : t.get? i = some row ∧ wanted row = true := by
  obtain ⟨-, position, holds⟩ := findIn_some found
  exact ⟨by simpa [get?] using position, holds⟩

omit [RowSpec α] in
theorem findIn_none {wanted : α → Bool} {rows : List α} {start : Nat} :
    findIn wanted start rows = none ↔ ∀ row ∈ rows, wanted row = false := by
  induction rows generalizing start with
  | nil => simp [findIn]
  | cons head rest ih =>
    cases hit : wanted head <;> simp [findIn, hit, ih]

theorem find?_none {t : Table α} {wanted : α → Bool} :
    t.find? wanted = none ↔ ∀ row ∈ t.rows, wanted row = false :=
  findIn_none

theorem find?_of_mem {t : Table α} {wanted : α → Bool} {row : α} (member : row ∈ t.rows)
    (holds : wanted row = true) : ∃ i found, t.find? wanted = some (i, found) := by
  cases result : t.find? wanted with
  | none => simp [find?_none.mp result row member] at holds
  | some pair => exact ⟨pair.1, pair.2, rfl⟩

theorem find?_of_unique {t : Table α} {wanted : α → Bool} {i : Nat} {row : α}
    (found : t.get? i = some row) (holds : wanted row = true)
    (unique : ∀ a b : α, wanted a = true → wanted b = true → RowSpec.clash a b ≠ none) :
    t.find? wanted = some (i, row) := by
  obtain ⟨j, other, result⟩ := find?_of_mem (get?_mem found) holds
  obtain ⟨position, hit⟩ := find?_some result
  by_cases same : i = j
  · subst same
    rw [found] at position
    cases position
    exact result
  · exact absurd (clash_of_ne found position same) (unique _ _ holds hit)

/-- `findMany`: every row, with its id, that satisfies the condition. -/
def findMany (t : Table α) (wanted : α → Bool) : List (Nat × α) :=
  (t.rows.zipIdx.filter fun pair => wanted pair.1).map Prod.swap

theorem mem_findMany {t : Table α} {wanted : α → Bool} {i : Nat} {row : α} :
    (i, row) ∈ t.findMany wanted ↔ t.get? i = some row ∧ wanted row = true := by
  simp [findMany, get?, List.mem_zipIdx_iff_getElem?]

theorem findMany_length (t : Table α) (wanted : α → Bool) :
    (t.findMany wanted).length = (t.rows.filter wanted).length := by
  have rows : t.rows = t.rows.zipIdx.map Prod.fst := (List.zipIdx_map_fst 0 t.rows).symm
  rw [findMany, List.length_map, rows, List.filter_map, List.length_map, List.zipIdx_map_fst]
  rfl

theorem findMany_nodup (t : Table α) (wanted : α → Bool) :
    ((t.findMany wanted).map Prod.fst).Nodup := by
  have ids : (t.rows.zipIdx.map Prod.snd).Nodup := by
    rw [List.zipIdx_map_snd]
    exact List.nodup_range'
  rw [findMany, List.map_map]
  exact ids.sublist (List.filter_sublist.map _)

/-- `ORDER BY` a time, `ASC LIMIT 1`. -/
def earliest (time : α → Int) : List (Nat × α) → Option (Nat × α)
  | [] => none
  | row :: rest =>
    match earliest time rest with
    | none => some row
    | some other => if time row.2 ≤ time other.2 then some row else some other

omit [RowSpec α] in
theorem earliest_mem {time : α → Int} {rows : List (Nat × α)} {found : Nat × α}
    (first : earliest time rows = some found) : found ∈ rows := by
  induction rows with
  | nil => cases first
  | cons row rest ih =>
    simp only [earliest] at first
    split at first
    next => cases first; exact List.mem_cons_self
    next other later =>
      split at first
      next => cases first; exact List.mem_cons_self
      next => cases first; exact List.mem_cons_of_mem _ (ih later)

omit [RowSpec α] in
theorem earliest_none {time : α → Int} {rows : List (Nat × α)} : earliest time rows = none ↔ rows = [] := by
  cases rows with
  | nil => simp [earliest]
  | cons row rest =>
    simp only [earliest, reduceCtorEq, iff_false]
    split
    next => simp
    next => split <;> simp

theorem filter_of_unique {t : Table α} {selected : α → Bool} {row : α} (member : row ∈ t.rows)
    (holds : selected row = true)
    (unique : ∀ a b : α, selected a = true → selected b = true → RowSpec.clash a b ≠ none) :
    t.rows.filter selected = [row] := by
  have distinct := t.distinct
  generalize t.rows = rows at member distinct
  induction rows with
  | nil => simp at member
  | cons head rest ih =>
    rw [List.pairwise_cons] at distinct
    cases picked : selected head with
    | true =>
      have rest_empty : rest.filter selected = [] := by
        refine List.filter_eq_nil_iff.mpr ?_
        intro other inside also
        exact unique _ _ picked also (distinct.1 other inside)
      rcases List.mem_cons.mp member with rfl | inside
      · simp [picked, rest_empty]
      · exact absurd holds (List.filter_eq_nil_iff.mp rest_empty row inside)
    | false =>
      rcases List.mem_cons.mp member with rfl | inside
      · simp [picked] at holds
      · simpa [picked] using ih inside distinct.2

theorem filter_length_of_unique (t : Table α) {selected : α → Bool}
    (unique : ∀ a b : α, selected a = true → selected b = true → RowSpec.clash a b ≠ none) :
    (t.rows.filter selected).length ≤ 1 := by
  by_cases none : ∃ row ∈ t.rows, selected row = true
  · obtain ⟨row, member, holds⟩ := none
    rw [filter_of_unique member holds unique]
    exact le_refl 1
  · have empty : t.rows.filter selected = [] := by
      refine List.filter_eq_nil_iff.mpr fun row member holds => none ⟨row, member, holds⟩
    simp [empty]

theorem sumWhere_of_unique {t : Table α} {selected : α → Bool} {row : α} (value : α → ℚ)
    (member : row ∈ t.rows) (holds : selected row = true)
    (unique : ∀ a b : α, selected a = true → selected b = true → RowSpec.clash a b ≠ none) :
    sumWhere selected value t.rows = value row := by
  simp [sumWhere, filter_of_unique member holds unique]

section Selections

omit [RowSpec α]

variable {rows : List α} {selected : α → Bool} {i : Nat} {old new : α}

theorem filter_set_outside (found : rows[i]? = some old) (before : selected old = false)
    (after : selected new = false) : (rows.set i new).filter selected = rows.filter selected := by
  induction rows generalizing i with
  | nil => simp at found
  | cons head rest ih =>
    cases i with
    | zero =>
      simp only [List.getElem?_cons_zero, Option.some.injEq] at found
      subst found
      simp [before, after]
    | succ i =>
      simp only [List.getElem?_cons_succ] at found
      simp [List.filter_cons, ih found]

theorem filter_set_singleton {only : α} (found : rows[i]? = some old) (before : selected old = true)
    (after : selected new = true) (single : rows.filter selected = [only]) :
    only = old ∧ (rows.set i new).filter selected = [new] := by
  induction rows generalizing i with
  | nil => simp at found
  | cons head rest ih =>
    cases i with
    | zero =>
      simp only [List.getElem?_cons_zero, Option.some.injEq] at found
      subst found
      simp only [List.filter_cons, before, if_true, List.cons.injEq] at single
      obtain ⟨rfl, empty⟩ := single
      simp [after, empty]
    | succ i =>
      simp only [List.getElem?_cons_succ] at found
      have inside : old ∈ rest.filter selected :=
        List.mem_filter.mpr ⟨List.mem_of_getElem? found, before⟩
      cases picked : selected head with
      | true =>
        simp only [List.filter_cons, picked, if_true, List.cons.injEq] at single
        simp [single.2] at inside
      | false =>
        simp only [List.filter_cons, picked] at single
        obtain ⟨same, rewritten⟩ := ih found single
        exact ⟨same, by simp [picked, rewritten]⟩

theorem mem_of_filter_singleton {only : α} (single : rows.filter selected = [only]) :
    only ∈ rows ∧ selected only = true := by
  have inside : only ∈ rows.filter selected := by simp [single]
  exact List.mem_filter.mp inside

theorem eq_of_filter_singleton {only row : α} (single : rows.filter selected = [only])
    (member : row ∈ rows) (picked : selected row = true) : row = only := by
  have inside : row ∈ rows.filter selected := List.mem_filter.mpr ⟨member, picked⟩
  simpa [single] using inside

end Selections

theorem find?_of_singleton {t : Table α} {wanted selected : α → Bool} {only : α}
    (narrower : ∀ row, wanted row = true → selected row = true)
    (single : t.rows.filter selected = [only]) (holds : wanted only = true) :
    ∃ i, t.find? wanted = some (i, only) ∧ t.get? i = some only := by
  obtain ⟨member, -⟩ := mem_of_filter_singleton single
  obtain ⟨i, row, result⟩ := find?_of_mem member holds
  obtain ⟨position, hit⟩ := find?_some result
  obtain rfl := eq_of_filter_singleton single (get?_mem position) (narrower _ hit)
  exact ⟨i, result, position⟩

end Table

end Relational
