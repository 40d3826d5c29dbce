import VerdictVaut.Shared.Table

set_option autoImplicit false

namespace Relational

variable {σ τ ε α β : Type}

/-- The body of a database transaction: it ends with a value and the state to commit, or throws. -/
def Tx (σ ε α : Type) : Type := σ → Except ε (α × σ)

namespace Tx

def run (x : Tx σ ε α) (s : σ) : Except ε (α × σ) := x s

instance : Monad (Tx σ ε) where
  pure a := fun s => .ok (a, s)
  bind x f := fun s =>
    match x.run s with
    | .ok (a, s') => (f a).run s'
    | .error e => .error e

def fail (e : ε) : Tx σ ε α := fun _ => .error e

def throwIf (condition : Prop) [Decidable condition] (e : ε) : Tx σ ε Unit :=
  if condition then fail e else pure ()

def read (f : σ → α) : Tx σ ε α := fun s => .ok (f s, s)

def orThrow (value : Option α) (e : ε) : Tx σ ε α :=
  match value with
  | some a => pure a
  | none => fail e

def commit (x : Tx σ ε α) (s : σ) : σ :=
  -- a serializable transaction as one atomic step: a throw leaves the state unchanged
  match x.run s with
  | .ok (_, s') => s'
  | .error _ => s

section Outcomes

variable {x : Tx σ ε α} {f : α → Tx σ ε β} {s s' : σ} {a : α} {r : β × σ} {e : ε}

theorem run_bind (x : Tx σ ε α) (f : α → Tx σ ε β) (s : σ) : (x >>= f).run s =
    match x.run s with
    | .ok (a, s') => (f a).run s'
    | .error e => .error e := rfl

@[simp] theorem run_bind_ok : (x >>= f).run s = .ok r ↔
    ∃ a s', x.run s = .ok (a, s') ∧ (f a).run s' = .ok r := by
  rw [run_bind]
  rcases x.run s with e | ⟨a, s'⟩ <;> simp

@[simp] theorem run_bind_error : (x >>= f).run s = .error e ↔
    x.run s = .error e ∨ ∃ a s', x.run s = .ok (a, s') ∧ (f a).run s' = .error e := by
  rw [run_bind]
  rcases x.run s with e | ⟨a, s'⟩ <;> simp

theorem run_bind_check {x : Tx σ ε Unit} {f : Unit → Tx σ ε β} (unchanged : ∀ u s', x.run s = .ok (u, s') → s' = s) :
    (x >>= f).run s = .ok r ↔ x.run s = .ok ((), s) ∧ (f ()).run s = .ok r := by
  rw [run_bind_ok]
  constructor
  · rintro ⟨u, s', checked, rest⟩
    obtain rfl := unchanged u s' checked
    exact ⟨checked, rest⟩
  · rintro ⟨checked, rest⟩
    exact ⟨(), s, checked, rest⟩

theorem run_bind_of_ok (first : x.run s = .ok (a, s')) : (x >>= f).run s = (f a).run s' := by
  rw [run_bind, first]

@[simp] theorem run_pure (a : α) (s : σ) : (pure a : Tx σ ε α).run s = .ok (a, s) := rfl

@[simp] theorem run_fail (e : ε) (s : σ) : (fail e : Tx σ ε α).run s = .error e := rfl

@[simp] theorem run_read (f : σ → α) (s : σ) : (read f : Tx σ ε α).run s = .ok (f s, s) := rfl

@[simp] theorem run_ite (condition : Prop) [Decidable condition] (y z : Tx σ ε α) (s : σ) :
    (if condition then y else z).run s = if condition then y.run s else z.run s := by
  split <;> rfl

@[simp] theorem run_throwIf_ok {condition : Prop} [Decidable condition] {u : Unit} :
    (throwIf condition e : Tx σ ε Unit).run s = .ok (u, s') ↔ ¬ condition ∧ s = s' := by
  by_cases h : condition <;> simp [throwIf, h]

@[simp] theorem run_throwIf_error {condition : Prop} [Decidable condition] {e' : ε} :
    (throwIf condition e : Tx σ ε Unit).run s = .error e' ↔ condition ∧ e = e' := by
  by_cases h : condition <;> simp [throwIf, h]

@[simp] theorem run_orThrow_ok {value : Option α} :
    (orThrow value e : Tx σ ε α).run s = .ok (a, s') ↔ value = some a ∧ s = s' := by
  cases value <;> simp [orThrow]

@[simp] theorem run_orThrow_error {value : Option α} {e' : ε} :
    (orThrow value e : Tx σ ε α).run s = .error e' ↔ value = none ∧ e = e' := by
  cases value <;> simp [orThrow]

theorem commit_cases (x : Tx σ ε α) (s : σ) :
    commit x s = s ∨ ∃ a, x.run s = .ok (a, commit x s) := by
  unfold commit
  cases result : x.run s with
  | error e => exact .inl rfl
  | ok pair => exact .inr ⟨pair.1, rfl⟩

end Outcomes

structure Field (σ τ : Type) where
  -- a component of the state, such as one table of the database
  get : σ → τ
  set : τ → σ → σ

class Field.Lawful (field : Field σ τ) : Prop where
  get_set : ∀ t s, field.get (field.set t s) = t
  set_get : ∀ s, field.set (field.get s) s = s
  set_set : ∀ t t' s, field.set t (field.set t' s) = field.set t s

attribute [simp] Field.Lawful.get_set Field.Lawful.set_get Field.Lawful.set_set

def zoom (field : Field σ τ) (x : Tx τ ε α) : Tx σ ε α := fun s =>
  match x.run (field.get s) with
  | .ok (a, part) => .ok (a, field.set part s)
  | .error e => .error e

theorem run_zoom (field : Field σ τ) (x : Tx τ ε α) (s : σ) : (zoom field x).run s =
    match x.run (field.get s) with
    | .ok (a, part) => .ok (a, field.set part s)
    | .error e => .error e := rfl

@[simp] theorem run_zoom_ok {field : Field σ τ} {x : Tx τ ε α} {s s' : σ} {a : α} :
    (zoom field x).run s = .ok (a, s') ↔
      ∃ part, x.run (field.get s) = .ok (a, part) ∧ s' = field.set part s := by
  rw [run_zoom]
  rcases x.run (field.get s) with e | ⟨b, part⟩
  · simp
  · simp only [Except.ok.injEq, Prod.mk.injEq]
    constructor
    · rintro ⟨rfl, rfl⟩
      exact ⟨part, ⟨rfl, rfl⟩, rfl⟩
    · rintro ⟨_, ⟨rfl, rfl⟩, rfl⟩
      exact ⟨rfl, rfl⟩

@[simp] theorem run_zoom_error {field : Field σ τ} {x : Tx τ ε α} {s : σ} {e : ε} :
    (zoom field x).run s = .error e ↔ x.run (field.get s) = .error e := by
  rw [run_zoom]
  rcases x.run (field.get s) with e | ⟨b, part⟩ <;> simp

class DbFault (ε : Type) where
  -- how a fault type carries what the database itself reports
  ofDb : DbError → ε
  toDb? : ε → Option DbError
  toDb_ofDb : ∀ e, toDb? (ofDb e) = some e

variable [DbFault ε] [RowSpec α]

def create (field : Field σ (Table α)) (row : α) : Tx σ ε Nat := fun s =>
  match (field.get s).insert row with
  | .ok t => .ok ((field.get s).size, field.set t s)
  | .error e => .error (DbFault.ofDb e)

def update (field : Field σ (Table α)) (i : Nat) (row : α) : Tx σ ε Unit := fun s =>
  match (field.get s).update i row with
  | .ok t => .ok ((), field.set t s)
  | .error e => .error (DbFault.ofDb e)

def find? (field : Field σ (Table α)) (wanted : α → Bool) : Tx σ ε (Option (Nat × α)) :=
  read fun s => (field.get s).find? wanted

def findOrThrow (field : Field σ (Table α)) (wanted : α → Bool) : Tx σ ε (Nat × α) := do
  let row ← find? field wanted
  orThrow row (DbFault.ofDb .recordNotFound)

def getOrThrow (field : Field σ (Table α)) (i : Nat) : Tx σ ε α := do
  let row ← read fun s => (field.get s).get? i
  orThrow row (DbFault.ofDb .recordNotFound)

def upsert (field : Field σ (Table α)) (wanted : α → Bool) (row : α) : Tx σ ε (Nat × α) := do
  -- inserts the row unless a row with its unique key is already there
  match ← find? field wanted with
  | some existing => pure existing
  | none =>
    let i ← create field row
    pure (i, row)

/-- `updateMany({ where: { id, … }, data })`: whether the one row was there and was selected. -/
def updateMany (field : Field σ (Table α)) (i : Nat) (selected : α → Bool) (data : α → α) : Tx σ ε Bool := do
  match ← read fun s => (field.get s).get? i with
  | some row =>
    if selected row then do
      update field i (data row)
      pure true
    else pure false
  | none => pure false

section Statements

variable {field : Field σ (Table α)} {row : α} {wanted : α → Bool} {s s' : σ} {i : Nat}

theorem run_create : (create field row : Tx σ ε Nat).run s =
    match (field.get s).insert row with
    | .ok t => .ok ((field.get s).size, field.set t s)
    | .error e => .error (DbFault.ofDb e) := rfl

theorem run_update : (update field i row : Tx σ ε Unit).run s =
    match (field.get s).update i row with
    | .ok t => .ok ((), field.set t s)
    | .error e => .error (DbFault.ofDb e) := rfl

@[simp] theorem run_create_ok : (create field row : Tx σ ε Nat).run s = .ok (i, s') ↔
    ∃ t, (field.get s).insert row = .ok t ∧ i = (field.get s).size ∧ s' = field.set t s := by
  rw [run_create]
  cases (field.get s).insert row <;> simp [eq_comm]

@[simp] theorem run_update_ok {u : Unit} : (update field i row : Tx σ ε Unit).run s = .ok (u, s') ↔
    ∃ t, (field.get s).update i row = .ok t ∧ s' = field.set t s := by
  rw [run_update]
  cases (field.get s).update i row <;> simp [eq_comm]

@[simp] theorem run_create_error {e : ε} : (create field row : Tx σ ε Nat).run s = .error e ↔
    ∃ d, (field.get s).insert row = .error d ∧ DbFault.ofDb d = e := by
  rw [run_create]
  cases (field.get s).insert row <;> simp

@[simp] theorem run_update_error {e : ε} : (update field i row : Tx σ ε Unit).run s = .error e ↔
    ∃ d, (field.get s).update i row = .error d ∧ DbFault.ofDb d = e := by
  rw [run_update]
  cases (field.get s).update i row <;> simp

omit [DbFault ε] in
@[simp] theorem run_find? : (find? field wanted : Tx σ ε _).run s =
    .ok ((field.get s).find? wanted, s) := rfl

@[simp] theorem run_findOrThrow_ok {found : Nat × α} :
    (findOrThrow field wanted : Tx σ ε _).run s = .ok (found, s') ↔
      (field.get s).find? wanted = some found ∧ s = s' := by
  simp [findOrThrow]

@[simp] theorem run_findOrThrow_error {e : ε} :
    (findOrThrow field wanted : Tx σ ε _).run s = .error e ↔
      (field.get s).find? wanted = none ∧ DbFault.ofDb .recordNotFound = e := by
  simp [findOrThrow]

@[simp] theorem run_getOrThrow_ok : (getOrThrow field i : Tx σ ε _).run s = .ok (row, s') ↔
    (field.get s).get? i = some row ∧ s = s' := by
  simp [getOrThrow]

@[simp] theorem run_getOrThrow_error {e : ε} : (getOrThrow field i : Tx σ ε _).run s = .error e ↔
    (field.get s).get? i = none ∧ DbFault.ofDb .recordNotFound = e := by
  simp [getOrThrow]

theorem run_updateMany_ok {selected : α → Bool} {data : α → α} {count : Bool}
    (done : (updateMany field i selected data : Tx σ ε Bool).run s = .ok (count, s')) :
    (count = false ∧ s' = s ∧ ∀ row, (field.get s).get? i = some row → selected row = false) ∨
      (count = true ∧ ∃ row t, (field.get s).get? i = some row ∧ selected row = true ∧
        (field.get s).update i (data row) = .ok t ∧ s' = field.set t s) := by
  unfold updateMany at done
  rw [run_bind_of_ok (run_read _ _)] at done
  cases found : (field.get s).get? i with
  | none =>
    simp only [found, run_pure] at done
    cases done
    exact .inl ⟨rfl, rfl, by simp⟩
  | some row =>
    simp only [found, run_ite] at done
    split at done
    next picked =>
      simp only [run_bind_ok, run_update_ok, run_pure] at done
      obtain ⟨_, _, ⟨t, updated, rfl⟩, same⟩ := done
      cases same
      exact .inr ⟨rfl, row, t, rfl, picked, updated, rfl⟩
    next unpicked =>
      simp only [run_pure] at done
      cases done
      exact .inl ⟨rfl, rfl, by rintro _ ⟨⟩; simpa using unpicked⟩

theorem run_updateMany_unpicked {selected : α → Bool} {data : α → α} (found : (field.get s).get? i = some row)
    (unpicked : selected row = false) : (updateMany field i selected data : Tx σ ε Bool).run s = .ok (false, s) := by
  -- on a row that is there, either the row is selected and rewritten or nothing changes
  rw [updateMany, run_bind_of_ok (run_read _ _), found]
  simp only [unpicked, Bool.false_eq_true, if_false]
  rfl

theorem run_updateMany_picked {selected : α → Bool} {data : α → α} {t : Table α} (found : (field.get s).get? i = some row)
    (picked : selected row = true) (updated : (field.get s).update i (data row) = .ok t) :
    (updateMany field i selected data : Tx σ ε Bool).run s = .ok (true, field.set t s) := by
  rw [updateMany, run_bind_of_ok (run_read _ _), found]
  simp only [picked, if_true]
  rw [run_bind_of_ok ((run_update_ok (u := ())).mpr ⟨t, updated, rfl⟩)]
  rfl

theorem run_updateMany_wrote {selected : α → Bool} {data : α → α} {count : Bool}
    (done : (updateMany field i selected data : Tx σ ε Bool).run s = .ok (count, s'))
    (found : (field.get s).get? i = some row) :
    (count = false ∧ s' = s ∧ selected row = false) ∨
      (count = true ∧ selected row = true ∧ ∃ t, s' = field.set t s ∧ Table.Wrote (field.get s) t i (data row)) := by
  rcases run_updateMany_ok done with ⟨rfl, rfl, unpicked⟩ | ⟨rfl, row', t, found', picked, updated, rfl⟩
  · exact .inl ⟨rfl, rfl, unpicked row found⟩
  · rw [found] at found'
    cases found'
    exact .inr ⟨rfl, picked, t, rfl, .of_update updated⟩

@[simp] theorem run_upsert_ok {found : Nat × α} :
    (upsert field wanted row : Tx σ ε _).run s = .ok (found, s') ↔
      ((field.get s).find? wanted = some found ∧ s = s') ∨
      ((field.get s).find? wanted = none ∧ ∃ t, (field.get s).insert row = .ok t ∧
        found = ((field.get s).size, row) ∧ s' = field.set t s) := by
  unfold upsert
  rw [run_bind_of_ok (run_find?)]
  cases (field.get s).find? wanted with
  | some existing => simp
  | none =>
    simp only [run_bind_ok, run_create_ok, run_pure, Except.ok.injEq, Prod.mk.injEq]
    constructor
    · rintro ⟨_, _, ⟨t, inserted, rfl, rfl⟩, rfl, rfl⟩
      simp [inserted]
    · rintro (⟨absurd, -⟩ | ⟨-, t, inserted, rfl, rfl⟩)
      · cases absurd
      · exact ⟨_, _, ⟨t, inserted, rfl, rfl⟩, rfl, rfl⟩

end Statements

/-- The savepoint idiom "create, or return the row that already holds the unique key": a unique
violation on the named column undoes the insert and looks the row up. -/
def createIdempotent {ρ : Type} (uniqueField : String) (body : Tx σ ε ρ) (findExisting : Tx σ ε ρ)
    (staleSnapshot : ε) : Tx σ ε (ρ × Bool) := fun s =>
  match body.run s with
  | .ok (row, s') => .ok ((row, false), s')
  | .error e =>
    match DbFault.toDb? e with
    | some (.uniqueViolation target) =>
      if uniqueField ∈ target then
        match findExisting.run s with
        | .ok (row, s') => .ok ((row, true), s')
        | .error _ => .error staleSnapshot
      else .error e
    | _ => .error e

omit [RowSpec α] in
theorem run_createIdempotent_ok {ρ : Type} {uniqueField : String} {body findExisting : Tx σ ε ρ}
    {stale : ε} {s s' : σ} {row : ρ} {existed : Bool}
    (done : (createIdempotent uniqueField body findExisting stale).run s = .ok ((row, existed), s')) :
    (existed = false ∧ body.run s = .ok (row, s')) ∨
      (existed = true ∧ findExisting.run s = .ok (row, s') ∧
        ∃ e target, body.run s = .error e ∧ DbFault.toDb? e = some (.uniqueViolation target) ∧
          uniqueField ∈ target) := by
  unfold createIdempotent at done
  simp only [run] at done ⊢
  split at done
  next row' s'' created =>
    cases done
    exact .inl ⟨rfl, created⟩
  next e failed =>
    split at done
    next target reported =>
      split at done
      next listed =>
        split at done
        next found =>
          cases done
          exact .inr ⟨rfl, found, e, target, failed, reported, listed⟩
        next => cases done
      next => cases done
    next => cases done

omit [RowSpec α] in
theorem run_createIdempotent_of_ok {ρ : Type} {uniqueField : String}
    {body findExisting : Tx σ ε ρ} {stale : ε} {s s' : σ} {row : ρ}
    (created : body.run s = .ok (row, s')) :
    (createIdempotent uniqueField body findExisting stale).run s = .ok ((row, false), s') := by
  unfold createIdempotent
  simp only [run] at created ⊢
  rw [created]

omit [RowSpec α] in
theorem run_createIdempotent_of_existing {ρ : Type} {uniqueField : String} {target : List String}
    {body findExisting : Tx σ ε ρ} {stale : ε} {s s' : σ} {row : ρ}
    (taken : body.run s = .error (DbFault.ofDb (.uniqueViolation target))) (listed : uniqueField ∈ target)
    (found : findExisting.run s = .ok (row, s')) :
    (createIdempotent uniqueField body findExisting stale).run s = .ok ((row, true), s') := by
  unfold createIdempotent
  simp only [run] at taken found ⊢
  rw [taken]
  simp [DbFault.toDb_ofDb, listed, found]

/-- `createIdempotent` for one row, looked up again by the same key. -/
def createOnce (field : Field σ (Table α)) (uniqueField : String) (row : α) (wanted : α → Bool)
    (staleSnapshot : ε) : Tx σ ε (Nat × Bool) :=
  createIdempotent uniqueField (create field row)
    (do
      let (i, _) ← findOrThrow field wanted
      pure i)
    staleSnapshot

section CreateOnce

variable {field : Field σ (Table α)} {uniqueField : String} {row : α} {wanted : α → Bool} {stale : ε}
  {s s' : σ} {i : Nat} {existed : Bool}

theorem run_createOnce_ok
    (done : (createOnce field uniqueField row wanted stale).run s = .ok ((i, existed), s')) :
    (existed = false ∧ i = (field.get s).size ∧
        ∃ t, (field.get s).insert row = .ok t ∧ s' = field.set t s) ∨
      (existed = true ∧ s' = s ∧ ∃ found, (field.get s).get? i = some found ∧ wanted found = true) := by
  rcases run_createIdempotent_ok done with ⟨rfl, created⟩ | ⟨rfl, looked, -⟩
  · simp only [run_create_ok] at created
    obtain ⟨t, inserted, same, rfl⟩ := created
    exact .inl ⟨rfl, same, t, inserted, rfl⟩
  · simp only [run_bind_ok, run_findOrThrow_ok, run_pure] at looked
    obtain ⟨⟨j, found⟩, _, ⟨hit, rfl⟩, same⟩ := looked
    cases same
    obtain ⟨position, holds⟩ := Table.find?_some hit
    exact .inr ⟨rfl, rfl, found, position, holds⟩

theorem run_createOnce_error {e : ε}
    (failed : (createOnce field uniqueField row wanted stale).run s = .error e) :
    e = stale ∨ ∃ d, e = DbFault.ofDb d := by
  unfold createOnce createIdempotent at failed
  simp only [run] at failed
  split at failed
  next => cases failed
  next e' body =>
    obtain ⟨d, -, rfl⟩ := run_create_error.mp body
    rw [DbFault.toDb_ofDb] at failed
    split at failed
    next =>
      split at failed
      next =>
        split at failed
        next => cases failed
        next =>
          cases failed
          exact .inl rfl
      next =>
        cases failed
        exact .inr ⟨_, rfl⟩
    next =>
      cases failed
      exact .inr ⟨_, rfl⟩

theorem run_createOnce_succeeds (field : Field σ (Table α)) (uniqueField : String) (row : α)
    (wanted : α → Bool) (stale : ε) (s : σ) (valid : RowSpec.check row = true)
    (keyed : ∀ other ∈ (field.get s).rows, ∀ target, RowSpec.clash row other = some target →
      uniqueField ∈ target ∧ wanted other = true) :
    ∃ i existed s', (createOnce field uniqueField row wanted stale).run s = .ok ((i, existed), s') := by
  -- when the key is the only index that a valid row can clash on, the call returns
  cases inserted : (field.get s).insert row with
  | ok t => exact ⟨_, false, _, run_createIdempotent_of_ok (run_create_ok.mpr ⟨t, inserted, rfl, rfl⟩)⟩
  | error e =>
    obtain ⟨target, rfl⟩ : ∃ target, e = .uniqueViolation target := by
      unfold Table.insert at inserted
      rw [dif_pos valid] at inserted
      split at inserted
      next target taken =>
        cases inserted
        exact ⟨target, rfl⟩
      next => cases inserted
    obtain ⟨other, member, hit⟩ := Table.insert_unique inserted
    obtain ⟨listed, holds⟩ := keyed other member target hit
    obtain ⟨j, found, result⟩ := Table.find?_of_mem member holds
    refine ⟨j, true, s, run_createIdempotent_of_existing
      (run_create_error.mpr ⟨_, inserted, rfl⟩) listed ?_⟩
    simp [findOrThrow, result, run_bind, run_find?, orThrow]

end CreateOnce

end Tx

end Relational
