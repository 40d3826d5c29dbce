import VerdictVaut.Shared.Tx

set_option autoImplicit false

-- two bodies that do the same on a state, proved by running them side by side
namespace Relational.Tx

variable {σ τ ε α β : Type}

/-- From this state the two bodies do the same, and `Q` holds of what they return. -/
structure Agree (Q : α → σ → Prop) (x y : Tx σ ε α) (s : σ) : Prop where
  same : x.run s = y.run s
  holds : ∀ a s', y.run s = .ok (a, s') → Q a s'

namespace Agree

variable {Q R : α → σ → Prop} {S : β → σ → Prop} {x y : Tx σ ε α} {f g : α → Tx σ ε β} {s : σ} {e : ε}

theorem self (holds : ∀ a s', x.run s = .ok (a, s') → Q a s') : Agree Q x x s := ⟨rfl, holds⟩

theorem weaken (agree : Agree R x y s) (weaker : ∀ a s', R a s' → Q a s') : Agree Q x y s :=
  ⟨agree.same, fun a s' done => weaker a s' (agree.holds a s' done)⟩

theorem bind (first : Agree Q x y s) (rest : ∀ a s', y.run s = .ok (a, s') → Q a s' → Agree S (f a) (g a) s') :
    Agree S (x >>= f) (y >>= g) s := by
  constructor
  next =>
    rw [run_bind, run_bind, first.same]
    cases ran : y.run s with
    | error e => rfl
    | ok pair => exact (rest pair.1 pair.2 ran (first.holds pair.1 pair.2 ran)).same
  next =>
    intro b s'' done
    obtain ⟨a, s', ran, done⟩ := run_bind_ok.mp done
    exact (rest a s' ran (first.holds a s' ran)).holds b s'' done

theorem after (rest : ∀ a s', x.run s = .ok (a, s') → Agree S (f a) (g a) s') : Agree S (x >>= f) (x >>= g) s :=
  (Agree.self fun _ _ _ => trivial : Agree (fun _ _ => True) x x s).bind fun a s' ran _ => rest a s' ran

theorem pure {a : α} (holds : Q a s) : Agree Q (Pure.pure a : Tx σ ε α) (Pure.pure a) s := by
  refine self fun _ _ done => ?_
  simp only [run_pure, Except.ok.injEq, Prod.mk.injEq] at done
  obtain ⟨rfl, rfl⟩ := done
  exact holds

theorem fail : Agree Q (Tx.fail e : Tx σ ε α) (Tx.fail e) s := self fun _ _ done => by cases done

theorem ite {condition : Prop} [Decidable condition] {x' y' : Tx σ ε α} (yes : condition → Agree Q x y s)
    (no : ¬ condition → Agree Q x' y' s) : Agree Q (if condition then x else x') (if condition then y else y') s := by
  split
  next holds => exact yes holds
  next fails => exact no fails

theorem throwIf {condition : Prop} [Decidable condition] {f g : Unit → Tx σ ε β}
    (rest : ¬ condition → Agree S (f ()) (g ()) s) : Agree S (Tx.throwIf condition e >>= f) (Tx.throwIf condition e >>= g) s := by
  refine after fun _ s' passed => ?_
  obtain ⟨holds, rfl⟩ := run_throwIf_ok.mp passed
  exact rest holds

theorem orThrow {value : Option α} (rest : ∀ a, value = some a → Agree S (f a) (g a) s) :
    Agree S (Tx.orThrow value e >>= f) (Tx.orThrow value e >>= g) s := by
  refine after fun a s' passed => ?_
  obtain ⟨present, rfl⟩ := run_orThrow_ok.mp passed
  exact rest a present

theorem read {look look' : σ → α} (rest : Agree S (f (look s)) (g (look' s)) s) :
    Agree S (Tx.read look >>= f) (Tx.read look' >>= g) s := by
  constructor
  next =>
    rw [run_bind, run_bind, run_read, run_read]
    exact rest.same
  next =>
    intro b s' done
    rw [run_bind, run_read] at done
    exact rest.holds b s' done

theorem zoom {field : Field σ τ} {P : α → τ → Prop} {x y : Tx τ ε α} (part : Agree P x y (field.get s)) :
    Agree (fun a s' => ∃ t, s' = field.set t s ∧ P a t) (Tx.zoom field x) (Tx.zoom field y) s := by
  constructor
  next => rw [run_zoom, run_zoom, part.same]
  next =>
    intro a s' done
    obtain ⟨t, ran, rfl⟩ := run_zoom_ok.mp done
    exact ⟨t, rfl, part.holds a t ran⟩

variable {ρ : Type} [RowSpec ρ] [DbFault ε] {table : Field σ (Table ρ)} {i : Nat} {row : ρ}

omit [DbFault ε] in
theorem find? {wanted : ρ → Bool} {f g : Option (Nat × ρ) → Tx σ ε β}
    (rest : Agree S (f ((table.get s).find? wanted)) (g ((table.get s).find? wanted)) s) :
    Agree S (Tx.find? table wanted >>= f) (Tx.find? table wanted >>= g) s := read rest

theorem findOrThrow {wanted : ρ → Bool} {f g : Nat × ρ → Tx σ ε β}
    (rest : ∀ found, (table.get s).find? wanted = some found → Agree S (f found) (g found) s) :
    Agree S (Tx.findOrThrow table wanted >>= f) (Tx.findOrThrow table wanted >>= g) s := by
  refine after fun found s' looked => ?_
  obtain ⟨present, rfl⟩ := run_findOrThrow_ok.mp looked
  exact rest found present

theorem getOrThrow {f g : ρ → Tx σ ε β} (rest : ∀ row, (table.get s).get? i = some row → Agree S (f row) (g row) s) :
    Agree S (Tx.getOrThrow table i >>= f) (Tx.getOrThrow table i >>= g) s := by
  refine after fun row s' looked => ?_
  obtain ⟨present, rfl⟩ := run_getOrThrow_ok.mp looked
  exact rest row present

theorem update {f g : Unit → Tx σ ε β}
    (rest : ∀ t, (table.get s).update i row = .ok t → Agree S (f ()) (g ()) (table.set t s)) :
    Agree S (Tx.update table i row >>= f) (Tx.update table i row >>= g) s := by
  refine after fun _ s' done => ?_
  obtain ⟨t, updated, rfl⟩ := run_update_ok.mp done
  exact rest t updated

theorem create {f g : Nat → Tx σ ε β}
    (rest : ∀ t, (table.get s).insert row = .ok t → Agree S (f (table.get s).size) (g (table.get s).size) (table.set t s)) :
    Agree S (Tx.create table row >>= f) (Tx.create table row >>= g) s := by
  refine after fun j s' done => ?_
  obtain ⟨t, inserted, rfl, rfl⟩ := run_create_ok.mp done
  exact rest t inserted

theorem upsert {wanted : ρ → Bool} {f g : Nat × ρ → Tx σ ε β}
    (there : ∀ found, (table.get s).find? wanted = some found → Agree S (f found) (g found) s)
    (absent : ∀ t, (table.get s).find? wanted = none → (table.get s).insert row = .ok t →
      Agree S (f ((table.get s).size, row)) (g ((table.get s).size, row)) (table.set t s)) :
    Agree S (Tx.upsert table wanted row >>= f) (Tx.upsert table wanted row >>= g) s := by
  refine after fun found s' done => ?_
  rcases run_upsert_ok.mp done with ⟨present, rfl⟩ | ⟨missing, t, inserted, rfl, rfl⟩
  next => exact there found present
  next => exact absent t missing inserted

omit [RowSpec ρ] in
theorem createIdempotent {uniqueField : String} {body body' existing : Tx σ ε ρ} {stale : ε}
    {P : ρ × Bool → σ → Prop} (same : body.run s = body'.run s)
    (made : ∀ made s', body'.run s = .ok (made, s') → P (made, false) s')
    (met : ∀ met s', existing.run s = .ok (met, s') → P (met, true) s') :
    Agree P (Tx.createIdempotent uniqueField body existing stale) (Tx.createIdempotent uniqueField body' existing stale) s := by
  constructor
  next =>
    simp only [run, Tx.createIdempotent] at same ⊢
    rw [same]
  next =>
    rintro ⟨a, existed⟩ s' done
    rcases run_createIdempotent_ok done with ⟨rfl, ran⟩ | ⟨rfl, looked, -⟩
    next => exact made a s' ran
    next => exact met a s' looked

end Agree

end Relational.Tx
