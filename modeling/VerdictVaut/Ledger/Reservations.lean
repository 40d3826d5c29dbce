import VerdictVaut.Ledger.Types

set_option autoImplicit false

namespace VerdictVaut

open Relational Relational.Tx

class Holder (H : Type) extends RowSpec H where
  -- a row part of whose total can be earmarked: a ledger account or a position
  total : H → ℚ
  reserved : H → ℚ
  setReserved : ℚ → H → H
  invalidAmount : ℚ → Fault
  insufficient : Nat → ℚ → ℚ → Fault
  reserved_setReserved : ∀ r h, reserved (setReserved r h) = r
  setReserved_setReserved : ∀ r r' h, setReserved r (setReserved r' h) = setReserved r h
  check_setReserved : ∀ r h, check h = true → 0 ≤ r → r ≤ reserved h → check (setReserved r h) = true
  clash_setReserved : ∀ r a b, clash (setReserved r a) b = clash a b

attribute [simp] Holder.reserved_setReserved Holder.setReserved_setReserved

namespace Reserved

variable {H : Type} [Holder H]

def holdersField : Field (Reserved H) (Table H) where
  get := Reserved.holders
  set t s := { s with holders := t }

def reservationsField : Field (Reserved H) (Table Reservation) where
  get := Reserved.reservations
  set t s := { s with reservations := t }

@[simp] theorem holdersField_get (s : Reserved H) : holdersField.get s = s.holders := rfl

@[simp] theorem holdersField_set (s : Reserved H) (t : Table H) :
    holdersField.set t s = { s with holders := t } := rfl

@[simp] theorem reservationsField_get (s : Reserved H) : reservationsField.get s = s.reservations := rfl

@[simp] theorem reservationsField_set (s : Reserved H) (t : Table Reservation) :
    reservationsField.set t s = { s with reservations := t } := rfl

structure ReserveInput where
  amount : ℚ
  referenceType : ReferenceType
  referenceId : Nat
  idempotencyKey : IdempotencyKey

def ReserveInput.row (input : ReserveInput) (holderId : Nat) : Reservation where
  holderId := holderId
  amount := input.amount
  consumedAmount := 0
  status := .active
  referenceType := input.referenceType
  referenceId := input.referenceId
  idempotencyKey := input.idempotencyKey

/-- `reserve` after the holder's row has been resolved. -/
def earmark (holderId : Nat) (holder : H) (input : ReserveInput) :
    Tx (Reserved H) Fault (Nat × Bool) := do
  let (reservationId, alreadyExisted) ← createOnce reservationsField "idempotencyKey" (input.row holderId)
    (fun r => decide (r.idempotencyKey = input.idempotencyKey)) (.staleSnapshotConflict "idempotencyKey")
  if alreadyExisted then
    pure (reservationId, true)
  else do
    let available := Holder.total holder - Holder.reserved holder
    throwIf (available < input.amount) (Holder.insufficient (H := H) holderId available input.amount)
    update holdersField holderId (Holder.setReserved (Holder.reserved holder + input.amount) holder)
    pure (reservationId, false)

def consume (reservationId : Nat) (amount : ℚ) : Tx (Reserved H) Fault Unit := do
  throwIf (amount ≤ 0) (Holder.invalidAmount (H := H) amount)
  let reservation ← getOrThrow reservationsField reservationId
  throwIf (reservation.status ≠ .active) (.reservationNotActive reservationId reservation.status)
  throwIf (reservation.unconsumed < amount)
    (.reservationExceeded reservationId amount reservation.unconsumed)
  update reservationsField reservationId
    { reservation with consumedAmount := reservation.consumedAmount + amount }
  let holder ← getOrThrow holdersField reservation.holderId
  update holdersField reservation.holderId (Holder.setReserved (Holder.reserved holder - amount) holder)

/-- The guarded `ACTIVE -> RELEASED | CAPTURED` compare-and-swap; `false` when no row matched. -/
def transition (reservationId : Nat) (nextStatus : ReservationStatus) :
    Tx (Reserved H) Fault Bool := do
  match ← read fun s => s.reservations.get? reservationId with
  | none => pure false
  | some reservation =>
    if reservation.status = .active then do
      update reservationsField reservationId { reservation with status := nextStatus }
      let holder ← getOrThrow holdersField reservation.holderId
      update holdersField reservation.holderId
        (Holder.setReserved (Holder.reserved holder - reservation.unconsumed) holder)
      pure true
    else pure false

def release (reservationId : Nat) : Tx (Reserved H) Fault Bool :=
  transition reservationId .released

def capture (reservationId : Nat) : Tx (Reserved H) Fault Bool :=
  transition reservationId .captured

def activeFor (referenceType : ReferenceType) (referenceId : Nat) (r : Reservation) : Bool :=
  decide (r.referenceType = referenceType) && decide (r.referenceId = referenceId) && r.isActive

def findActiveByReference (referenceType : ReferenceType) (referenceId : Nat) :
    Tx (Reserved H) Fault (Option (Nat × Reservation)) :=
  find? reservationsField (activeFor referenceType referenceId)

/-- `findActiveByReference` followed by `release` when there is one. -/
def releaseByReference (referenceType : ReferenceType) (referenceId : Nat) :
    Tx (Reserved H) Fault Unit := do
  match ← findActiveByReference referenceType referenceId with
  | some (reservationId, _) => do
    let _ ← release reservationId
    pure ()
  | none => pure ()

section Effects

variable {s s' : Reserved H}

def hold (r : Reservation) : ℚ := if r.isActive then r.unconsumed else 0

/-- One reservation row is rewritten, and its holder's reserved total moves by what it no longer
holds back. -/
structure Rewritten (s s' : Reserved H) (k : Nat) (old new : Reservation) : Prop where
  found : s.reservations.get? k = some old
  reservations : s'.reservations.rows = s.reservations.rows.set k new
  holder : ∃ holder, s.holders.get? old.holderId = some holder ∧
    s'.holders.rows = s.holders.rows.set old.holderId
      (Holder.setReserved (Holder.reserved holder - (hold old - hold new)) holder)
  holderId : new.holderId = old.holderId
  referenceType : new.referenceType = old.referenceType
  referenceId : new.referenceId = old.referenceId
  idempotencyKey : new.idempotencyKey = old.idempotencyKey

theorem earmark_ok {holderId reservationId : Nat} {holder : H} {input : ReserveInput} {existed : Bool}
    (done : (earmark holderId holder input).run s = .ok ((reservationId, existed), s')) :
    (existed = true ∧ s' = s ∧
        ∃ r, s.reservations.get? reservationId = some r ∧ r.idempotencyKey = input.idempotencyKey) ∨
      (existed = false ∧ reservationId = s.reservations.size ∧ 0 < input.amount ∧
        input.amount ≤ Holder.total holder - Holder.reserved holder ∧
        (∀ r ∈ s.reservations.rows, r.idempotencyKey ≠ input.idempotencyKey) ∧
        s'.reservations.rows = s.reservations.rows ++ [input.row holderId] ∧
        holderId < s.holders.size ∧
        s'.holders.rows = s.holders.rows.set holderId
          (Holder.setReserved (Holder.reserved holder + input.amount) holder)) := by
  unfold earmark at done
  simp only [run_bind_ok] at done
  obtain ⟨⟨i, present⟩, s₁, created, rest⟩ := done
  rcases run_createOnce_ok created with ⟨rfl, rfl, t, inserted, rfl⟩ | ⟨rfl, rfl, r, position, holds⟩
  · right
    simp only [reservationsField_get] at inserted
    obtain ⟨valid, fresh, rows⟩ := Table.insert_ok inserted
    simp only [Bool.false_eq_true, if_false, run_bind_ok, run_throwIf_ok, run_update_ok, run_pure,
      holdersField_get, holdersField_set] at rest
    obtain ⟨_, _, ⟨enough, rfl⟩, _, _, ⟨t', updated, rfl⟩, same⟩ := rest
    cases same
    obtain ⟨inside, -, -, holders⟩ := Table.update_ok updated
    have positive : 0 < input.amount := by
      simp only [RowSpec.check, Reservation.check, ReserveInput.row, Bool.and_eq_true] at valid
      exact of_decide_eq_true valid.1.1
    refine ⟨rfl, rfl, positive, not_lt.mp enough, ?_, rows, inside, holders⟩
    intro r member same
    simpa [RowSpec.clash, ReserveInput.row, same] using fresh r member
  · left
    simp only [if_true, run_pure] at rest
    cases rest
    exact ⟨rfl, rfl, r, position, by simpa using holds⟩

theorem consume_ok {reservationId : Nat} {amount : ℚ} {u : Unit}
    (done : (consume reservationId amount : Tx (Reserved H) Fault Unit).run s = .ok (u, s')) :
    ∃ r, 0 < amount ∧ r.status = .active ∧ amount ≤ r.unconsumed ∧
      Rewritten s s' reservationId r { r with consumedAmount := r.consumedAmount + amount } := by
  unfold consume at done
  simp only [run_bind_ok, run_throwIf_ok, run_getOrThrow_ok, run_update_ok, reservationsField_get,
    reservationsField_set, holdersField_get, holdersField_set] at done
  obtain ⟨_, _, ⟨positive, rfl⟩, r, _, ⟨found, rfl⟩, _, _, ⟨active, rfl⟩, _, _, ⟨enough, rfl⟩,
    _, _, ⟨t, updated, rfl⟩, holder, _, ⟨held, rfl⟩, t', updated', rfl⟩ := done
  obtain ⟨-, -, -, rows⟩ := Table.update_ok updated
  obtain ⟨-, -, -, rows'⟩ := Table.update_ok updated'
  refine ⟨r, not_le.mp positive, not_not.mp active, not_lt.mp enough, found, rows, ?_, rfl, rfl, rfl, rfl⟩
  refine ⟨holder, held, ?_⟩
  rw [rows']
  congr 2
  simp [hold, Reservation.isActive, not_not.mp active, Reservation.unconsumed]

theorem transition_ok {reservationId : Nat} {next : ReservationStatus} {changed : Bool}
    (ends : next ≠ .active)
    (done : (transition reservationId next : Tx (Reserved H) Fault Bool).run s = .ok (changed, s')) :
    (changed = false ∧ s' = s ∧
        ∀ r, s.reservations.get? reservationId = some r → r.status ≠ .active) ∨
      (changed = true ∧ ∃ r, r.status = .active ∧
        Rewritten s s' reservationId r { r with status := next }) := by
  unfold transition at done
  rw [run_bind_of_ok (run_read _ _)] at done
  cases found : s.reservations.get? reservationId with
  | none =>
    simp only [found, run_pure] at done
    cases done
    exact .inl ⟨rfl, rfl, by simp⟩
  | some r =>
    simp only [found, run_ite] at done
    split at done
    next active =>
      simp only [run_bind_ok, run_getOrThrow_ok, run_update_ok, run_pure, reservationsField_get,
        reservationsField_set, holdersField_get, holdersField_set] at done
      obtain ⟨_, _, ⟨t, updated, rfl⟩, holder, _, ⟨held, rfl⟩, _, _, ⟨t', updated', rfl⟩, same⟩ := done
      cases same
      obtain ⟨-, -, -, rows⟩ := Table.update_ok updated
      obtain ⟨-, -, -, rows'⟩ := Table.update_ok updated'
      refine .inr ⟨rfl, r, active, found, rows, ⟨holder, held, ?_⟩, rfl, rfl, rfl, rfl⟩
      rw [rows']
      simp [hold, Reservation.isActive, active, ends]
    next inactive =>
      simp only [run_pure] at done
      cases done
      exact .inl ⟨rfl, rfl, by rintro _ ⟨⟩; exact inactive⟩

theorem activeFor_status {referenceType : ReferenceType} {referenceId : Nat} {r : Reservation}
    (holds : activeFor referenceType referenceId r = true) :
    r.referenceType = referenceType ∧ r.referenceId = referenceId ∧ r.status = .active := by
  simpa [activeFor, Reservation.isActive, and_assoc] using holds

theorem releaseByReference_ok {referenceType : ReferenceType} {referenceId : Nat} {u : Unit}
    (done : (releaseByReference referenceType referenceId : Tx (Reserved H) Fault Unit).run s =
      .ok (u, s')) :
    (s' = s ∧ ∀ r ∈ s.reservations.rows, activeFor referenceType referenceId r = false) ∨
      ∃ k r, activeFor referenceType referenceId r = true ∧
        Rewritten s s' k r { r with status := .released } := by
  unfold releaseByReference findActiveByReference at done
  rw [run_bind_of_ok run_find?] at done
  simp only [reservationsField_get] at done
  cases found : s.reservations.find? (activeFor referenceType referenceId) with
  | none =>
    simp only [found, run_pure] at done
    cases done
    exact .inl ⟨rfl, Table.find?_none.mp found⟩
  | some pair =>
    obtain ⟨reservationId, r⟩ := pair
    obtain ⟨position, holds⟩ := Table.find?_some found
    simp only [found, run_bind_ok, run_pure] at done
    obtain ⟨changed, _, moved, same⟩ := done
    cases same
    rcases transition_ok (by simp) moved with ⟨-, rfl, inactive⟩ | ⟨-, r', -, rewritten⟩
    · exact absurd (activeFor_status holds).2.2 (inactive r position)
    · have same := rewritten.found
      rw [position] at same
      cases same
      exact .inr ⟨reservationId, r, holds, rewritten⟩

end Effects

section Bare

/-- The holders with their reserved totals left out: what no reservation call changes. -/
def bare (t : Table H) : List H := t.rows.map (Holder.setReserved 0)

variable {t t' : Table H} {i : Nat} {holder : H}

theorem bare_of_set {r : ℚ} (found : t.get? i = some holder)
    (rewritten : t'.rows = t.rows.set i (Holder.setReserved r holder)) : bare t' = bare t := by
  have present : (bare t)[i]? = some (Holder.setReserved 0 holder) := by
    have position : t.rows[i]? = some holder := found
    simp [bare, position]
  obtain ⟨inside, value⟩ := List.getElem?_eq_some_iff.mp present
  unfold bare at inside value ⊢
  rw [rewritten, List.map_set, Holder.setReserved_setReserved, ← value, List.set_getElem_self]

theorem bare_get? (same : bare t' = bare t) (found : t.get? i = some holder) :
    ∃ holder', t'.get? i = some holder' ∧ Holder.setReserved 0 holder' = Holder.setReserved 0 holder := by
  have position : t.rows[i]? = some holder := found
  have image : (t'.rows.map (Holder.setReserved 0))[i]? = some (Holder.setReserved 0 holder) := by
    change (bare t')[i]? = _
    rw [same]
    simp [bare, position]
  simpa [Table.get?] using image

theorem bare_size (same : bare t' = bare t) : t'.size = t.size := by
  have := congrArg List.length same
  simpa [bare, Table.size] using this

theorem bare_sum (same : bare t' = bare t) (selected : H → Bool) (value : H → ℚ)
    (ignores : ∀ h, share selected value (Holder.setReserved 0 h) = share selected value h) :
    sumWhere selected value t'.rows = sumWhere selected value t.rows := by
  have image : ∀ rows : List H, sumWhere selected value (rows.map (Holder.setReserved 0)) =
      sumWhere selected value rows := by
    intro rows
    induction rows with
    | nil => rfl
    | cons head rest ih => simp [ih, ignores]
  rw [← image t'.rows, ← image t.rows]
  exact congrArg _ same

end Bare

section Agreement

def earmarked (reservations : List Reservation) (holderId : Nat) : ℚ :=
  -- the reserved total that the active reservations of a holder add up to
  sumWhere (fun r => decide (r.holderId = holderId) && r.isActive) Reservation.unconsumed reservations

structure Agrees (s : Reserved H) : Prop where
  -- every holder's reserved total agrees with its active reservations
  reserved : ∀ i holder, s.holders.get? i = some holder →
    Holder.reserved holder = earmarked s.reservations.rows i
  held : ∀ r ∈ s.reservations.rows, r.holderId < s.holders.size

variable {s s' : Reserved H}

theorem earmarked_absent {s : Reserved H} (agrees : s.Agrees) {i : Nat} (outside : s.holders.size ≤ i) :
    earmarked s.reservations.rows i = 0 := by
  refine sumWhere_eq_zero _ _ _ ?_
  intro r member
  have inside := agrees.held r member
  have different : r.holderId ≠ i := by omega
  simp [share, different]

theorem Rewritten.agrees {k : Nat} {old new : Reservation} (rewritten : Rewritten s s' k old new)
    (agrees : s.Agrees) : s'.Agrees := by
  -- rewriting one reservation and its holder by the same amount keeps the agreement
  obtain ⟨holder, held, holders⟩ := rewritten.holder
  have inside := Table.get?_lt held
  constructor
  · intro i row position
    rw [Table.get?_of_set holders inside] at position
    have change := sumWhere_set (fun r => decide (r.holderId = i) && r.isActive)
      Reservation.unconsumed s.reservations.rows k old new rewritten.found
    unfold earmarked
    rw [rewritten.reservations, change]
    by_cases this : i = old.holderId
    · rw [if_pos this] at position
      cases position
      subst this
      rw [Holder.reserved_setReserved, agrees.reserved _ _ held]
      simp only [earmarked, share, hold, rewritten.holderId, decide_true, Bool.true_and]
      ring
    · rw [if_neg this] at position
      rw [agrees.reserved _ _ position]
      simp [earmarked, share, rewritten.holderId, Ne.symm this]
  · intro r member
    rw [Table.size_of_set holders]
    rw [rewritten.reservations] at member
    rcases List.mem_or_eq_of_mem_set member with old | rfl
    · exact agrees.held r old
    · rw [rewritten.holderId]
      exact inside

theorem Agrees.insertHolder (agrees : s.Agrees) {holder : H} (clean : Holder.reserved holder = 0)
    (reservations : s'.reservations = s.reservations)
    (holders : s'.holders.rows = s.holders.rows ++ [holder]) : s'.Agrees := by
  constructor
  · intro i row position
    rw [Table.get?_of_append holders] at position
    rw [reservations]
    split at position
    next last =>
      cases position
      rw [clean, earmarked_absent agrees (le_of_eq last.symm)]
    next => exact agrees.reserved i row position
  · intro r member
    rw [reservations] at member
    rw [Table.size_of_append holders]
    exact Nat.lt_succ_of_lt (agrees.held r member)

theorem Agrees.rewriteHolder (agrees : s.Agrees) {i : Nat} {old new : H}
    (held : s.holders.get? i = some old) (holders : s'.holders.rows = s.holders.rows.set i new)
    (same : Holder.reserved new = Holder.reserved old)
    (reservations : s'.reservations = s.reservations) : s'.Agrees := by
  constructor
  · intro j row position
    rw [Table.get?_of_set holders (Table.get?_lt held)] at position
    rw [reservations]
    split at position
    next this =>
      cases position
      rw [same, this, agrees.reserved _ _ held]
    next => exact agrees.reserved j row position
  · intro r member
    rw [reservations] at member
    rw [Table.size_of_set holders]
    exact agrees.held r member

theorem earmark_agrees {holderId reservationId : Nat} {holder : H} {input : ReserveInput}
    {existed : Bool} (agrees : s.Agrees) (held : s.holders.get? holderId = some holder)
    (done : (earmark holderId holder input).run s = .ok ((reservationId, existed), s')) :
    s'.Agrees := by
  rcases earmark_ok done with ⟨-, rfl, -⟩ | ⟨-, -, -, -, -, reservations, inside, holders⟩
  · exact agrees
  constructor
  · intro i row position
    rw [Table.get?_of_set holders inside] at position
    unfold earmarked
    rw [reservations, sumWhere_append]
    by_cases this : i = holderId
    · rw [if_pos this] at position
      cases position
      subst this
      rw [Holder.reserved_setReserved, agrees.reserved _ _ held]
      simp [earmarked, share, ReserveInput.row, Reservation.isActive, Reservation.unconsumed]
    · rw [if_neg this] at position
      rw [agrees.reserved _ _ position]
      simp [earmarked, share, ReserveInput.row, Ne.symm this]
  · intro r member
    rw [reservations] at member
    rw [Table.size_of_set holders]
    rcases List.mem_append.mp member with old | new
    · exact agrees.held r old
    · rw [List.mem_singleton.mp new]
      exact inside

end Agreement

section Progress

variable {s : Reserved H} {k : Nat} {r : Reservation}

theorem unconsumed_le_reserved (agrees : s.Agrees) (found : s.reservations.get? k = some r)
    (active : r.status = .active) {holder : H} (held : s.holders.get? r.holderId = some holder) :
    r.unconsumed ≤ Holder.reserved holder := by
  rw [agrees.reserved _ _ held]
  have picked : share (fun other => decide (other.holderId = r.holderId) && other.isActive)
      Reservation.unconsumed r = r.unconsumed := by
    simp [share, Reservation.isActive, active]
  rw [← picked]
  refine share_le_sumWhere _ _ _ ?_ r (Table.get?_mem found)
  intro other member
  have := Reservation.unconsumed_nonneg member
  unfold share
  split <;> simp [this]

theorem rewrite_succeeds (agrees : s.Agrees) (found : s.reservations.get? k = some r)
    (active : r.status = .active) (new : Reservation) (valid : Reservation.check new = true)
    (key : new.idempotencyKey = r.idempotencyKey) {amount : ℚ} (nonneg : 0 ≤ amount)
    (enough : amount ≤ r.unconsumed) :
    ∃ t holder t', s.reservations.update k new = .ok t ∧ s.holders.get? r.holderId = some holder ∧
      s.holders.update r.holderId (Holder.setReserved (Holder.reserved holder - amount) holder) = .ok t' := by
  -- a rewrite of an active reservation that keeps its columns in bounds goes through
  have inside := agrees.held r (Table.get?_mem found)
  obtain ⟨holder, held⟩ : ∃ holder, s.holders.get? r.holderId = some holder :=
    ⟨_, List.getElem?_eq_getElem inside⟩
  have below := unconsumed_le_reserved agrees found active held
  obtain ⟨t, updated, -⟩ := Table.update_eq_ok new (Table.get?_lt found) valid (by
    intro j other different position
    have apart := Table.clash_of_ne found position (Ne.symm different)
    simpa [RowSpec.clash, key] using apart)
  obtain ⟨t', updated', -⟩ := Table.update_eq_ok (t := s.holders)
    (Holder.setReserved (Holder.reserved holder - amount) holder) inside
    (Holder.check_setReserved _ _ (Table.check_of_get? held) (by linarith) (by linarith)) (by
      intro j other different position
      rw [Holder.clash_setReserved]
      exact Table.clash_of_ne held position (Ne.symm different))
  exact ⟨t, holder, t', updated, held, updated'⟩

theorem consume_succeeds (agrees : s.Agrees) (found : s.reservations.get? k = some r)
    (active : r.status = .active) {amount : ℚ} (positive : 0 < amount) (enough : amount ≤ r.unconsumed) :
    ∃ s', (consume k amount).run s = .ok ((), s') := by
  obtain ⟨-, consumed, -⟩ := Reservation.bounds (Table.get?_mem found)
  obtain ⟨t, holder, t', updated, held, updated'⟩ :=
    rewrite_succeeds agrees found active { r with consumedAmount := r.consumedAmount + amount }
      (by
        have := Reservation.bounds (Table.get?_mem found)
        have := enough
        unfold Reservation.unconsumed at this
        simp only [Reservation.check, Bool.and_eq_true, decide_eq_true_eq]
        exact ⟨⟨by linarith, by linarith⟩, by linarith⟩) rfl positive.le enough
  refine ⟨{ s with reservations := t, holders := t' }, ?_⟩
  unfold consume
  simp only [run_bind_ok, run_throwIf_ok, run_getOrThrow_ok, run_update_ok, reservationsField_get,
    reservationsField_set, holdersField_get, holdersField_set]
  exact ⟨(), s, ⟨not_le.mpr positive, rfl⟩, r, s, ⟨found, rfl⟩, (), s, ⟨not_not.mpr active, rfl⟩, (), s,
    ⟨not_lt.mpr enough, rfl⟩, (), _, ⟨t, updated, rfl⟩, holder, _, ⟨held, rfl⟩, t', updated', rfl⟩

theorem transition_succeeds (agrees : s.Agrees) (k : Nat) (next : ReservationStatus) :
    ∃ changed s', (transition k next : Tx (Reserved H) Fault Bool).run s = .ok (changed, s') := by
  unfold transition
  rw [run_bind_of_ok (run_read _ _)]
  cases found : s.reservations.get? k with
  | none => exact ⟨false, s, rfl⟩
  | some r =>
    simp only [run_ite]
    split
    next active =>
      have bounds := Reservation.bounds (Table.get?_mem found)
      obtain ⟨t, holder, t', updated, held, updated'⟩ :=
        rewrite_succeeds agrees found active { r with status := next }
          (by simpa [Reservation.check, and_assoc] using bounds) rfl
          (Reservation.unconsumed_nonneg (Table.get?_mem found)) le_rfl
      refine ⟨true, { s with reservations := t, holders := t' }, ?_⟩
      simp only [run_bind_ok, run_getOrThrow_ok, run_update_ok, run_pure, reservationsField_get,
        reservationsField_set, holdersField_get, holdersField_set]
      exact ⟨(), _, ⟨t, updated, rfl⟩, holder, _, ⟨held, rfl⟩, (), _, ⟨t', updated', rfl⟩, rfl⟩
    next => exact ⟨false, s, rfl⟩

theorem releaseByReference_succeeds (agrees : s.Agrees) (referenceType : ReferenceType) (referenceId : Nat) :
    ∃ s', (releaseByReference referenceType referenceId).run s = .ok ((), s') := by
  unfold releaseByReference findActiveByReference
  rw [run_bind_of_ok run_find?]
  cases (reservationsField.get s).find? (activeFor referenceType referenceId) with
  | none => exact ⟨s, rfl⟩
  | some pair =>
    obtain ⟨changed, s', moved⟩ := transition_succeeds agrees pair.1 .released
    exact ⟨s', run_bind_of_ok moved⟩

end Progress

section References

variable {s s' : Reserved H} {k : Nat} {old new : Reservation}

def isFor (referenceType : ReferenceType) (referenceId : Nat) (r : Reservation) : Bool :=
  decide (r.referenceType = referenceType) && decide (r.referenceId = referenceId)

def forRef (s : Reserved H) (referenceType : ReferenceType) (referenceId : Nat) : List Reservation :=
  -- the reservations of one order or withdrawal
  s.reservations.rows.filter (isFor referenceType referenceId)

theorem isFor_iff {referenceType : ReferenceType} {referenceId : Nat} {r : Reservation} :
    isFor referenceType referenceId r = true ↔
      r.referenceType = referenceType ∧ r.referenceId = referenceId := by
  simp [isFor]

theorem forRef_of_append {r : Reservation} (rows : s'.reservations.rows = s.reservations.rows ++ [r])
    (referenceType : ReferenceType) (referenceId : Nat) :
    s'.forRef referenceType referenceId =
      s.forRef referenceType referenceId ++ if isFor referenceType referenceId r then [r] else [] := by
  simp only [forRef, rows, List.filter_append, List.filter_cons, List.filter_nil]

theorem activeFor_isFor {referenceType : ReferenceType} {referenceId : Nat} {r : Reservation}
    (holds : activeFor referenceType referenceId r = true) : isFor referenceType referenceId r = true :=
  (Bool.and_eq_true_iff.mp holds).1

theorem Rewritten.bare (rewritten : Rewritten s s' k old new) :
    Reserved.bare s'.holders = Reserved.bare s.holders := by
  obtain ⟨holder, held, holders⟩ := rewritten.holder
  exact bare_of_set held holders

theorem Rewritten.others (rewritten : Rewritten s s' k old new) {referenceType : ReferenceType}
    {referenceId : Nat} (outside : isFor referenceType referenceId old = false) :
    s'.forRef referenceType referenceId = s.forRef referenceType referenceId := by
  unfold forRef
  rw [rewritten.reservations]
  refine Table.filter_set_outside rewritten.found outside ?_
  rw [isFor, rewritten.referenceType, rewritten.referenceId]
  exact outside

theorem Rewritten.mine (rewritten : Rewritten s s' k old new) {referenceType : ReferenceType}
    {referenceId : Nat} (inside : isFor referenceType referenceId old = true) {only : Reservation}
    (single : s.forRef referenceType referenceId = [only]) :
    only = old ∧ s'.forRef referenceType referenceId = [new] := by
  unfold forRef at single ⊢
  rw [rewritten.reservations]
  refine Table.filter_set_singleton rewritten.found inside ?_ single
  rw [isFor, rewritten.referenceType, rewritten.referenceId]
  exact inside

def refs (r : Reservation) : Nat × ReferenceType × Nat × IdempotencyKey :=
  -- what a reservation is for; no rewrite changes it
  (r.holderId, r.referenceType, r.referenceId, r.idempotencyKey)

def SameRefs (s s' : Reserved H) : Prop :=
  ∀ r ∈ s'.reservations.rows, ∃ before ∈ s.reservations.rows, refs before = refs r

theorem SameRefs.trans {s'' : Reserved H} (first : SameRefs s s') (second : SameRefs s' s'') :
    SameRefs s s'' := by
  intro r member
  obtain ⟨between, inside, same⟩ := second r member
  obtain ⟨before, earlier, same'⟩ := first between inside
  exact ⟨before, earlier, same'.trans same⟩

theorem Rewritten.sameRefs (rewritten : Rewritten s s' k old new) : SameRefs s s' := by
  intro r member
  rw [rewritten.reservations] at member
  rcases List.mem_or_eq_of_mem_set member with before | rfl
  · exact ⟨r, before, rfl⟩
  · refine ⟨old, Table.get?_mem rewritten.found, ?_⟩
    rw [refs, refs, rewritten.holderId, rewritten.referenceType, rewritten.referenceId, rewritten.idempotencyKey]

/-- The reservation of one reference becomes `f` of what it was, and no other one changes. -/
structure OnRef (s s' : Reserved H) (referenceType : ReferenceType) (referenceId : Nat)
    (f : Reservation → Reservation) : Prop where
  others : ∀ type id, ¬ (type = referenceType ∧ id = referenceId) → s'.forRef type id = s.forRef type id
  mine : ∀ r, s.forRef referenceType referenceId = [r] → s'.forRef referenceType referenceId = [f r]
  refs : SameRefs s s'

theorem OnRef.same {referenceType : ReferenceType} {referenceId : Nat}
    (reservations : s'.reservations = s.reservations) : OnRef s s' referenceType referenceId id := by
  have refs : ∀ type id, s'.forRef type id = s.forRef type id := by
    intro type id
    rw [forRef, reservations, forRef]
  refine ⟨fun type id _ => refs type id, fun r single => (refs _ _).trans single, ?_⟩
  intro r member
  rw [reservations] at member
  exact ⟨r, member, rfl⟩

theorem OnRef.trans {s'' : Reserved H} {referenceType : ReferenceType} {referenceId : Nat}
    {f g : Reservation → Reservation} (first : OnRef s s' referenceType referenceId f)
    (second : OnRef s' s'' referenceType referenceId g) : OnRef s s'' referenceType referenceId (g ∘ f) :=
  ⟨fun type id outside => (second.others type id outside).trans (first.others type id outside),
    fun r single => second.mine _ (first.mine r single), first.refs.trans second.refs⟩

theorem Rewritten.onRef (rewritten : Rewritten s s' k old new) {referenceType : ReferenceType}
    {referenceId : Nat} (inside : isFor referenceType referenceId old = true)
    {f : Reservation → Reservation} (image : f old = new) : OnRef s s' referenceType referenceId f := by
  refine ⟨?_, ?_, rewritten.sameRefs⟩
  · intro type id outside
    refine rewritten.others ?_
    rw [Bool.eq_false_iff, ne_eq, isFor_iff]
    rintro ⟨sameType, sameId⟩
    obtain ⟨hereType, hereId⟩ := isFor_iff.mp inside
    exact outside ⟨sameType.symm.trans hereType, sameId.symm.trans hereId⟩
  · intro r single
    obtain ⟨rfl, after⟩ := rewritten.mine inside single
    rw [image]
    exact after

def draw (amount : ℚ) (r : Reservation) : Reservation :=
  { r with consumedAmount := r.consumedAmount + amount }

def settle (r : Reservation) : Reservation :=
  if r.isActive then { r with status := .released } else r

theorem OnRef.idle {referenceType : ReferenceType} {referenceId : Nat}
    (none : ∀ r ∈ s.reservations.rows, activeFor referenceType referenceId r = false)
    {f : Reservation → Reservation} (unchanged : ∀ r, r.isActive = false → f r = r) :
    OnRef s s referenceType referenceId f := by
  -- a reference without an active reservation: ending it would change nothing
  refine ⟨fun _ _ _ => rfl, ?_, fun r member => ⟨r, member, rfl⟩⟩
  intro r single
  obtain ⟨member, mine⟩ := Table.mem_of_filter_singleton single
  obtain ⟨ofType, ofId⟩ := isFor_iff.mp mine
  have inactive : r.isActive = false := by simpa [activeFor, ofType, ofId] using none r member
  rw [single, unchanged r inactive]

theorem releaseByReference_onRef {referenceType : ReferenceType} {referenceId : Nat} {u : Unit}
    (done : (releaseByReference referenceType referenceId : Tx (Reserved H) Fault Unit).run s = .ok (u, s')) :
    OnRef s s' referenceType referenceId settle ∧
      (s' = s ∨ ∃ k r, activeFor referenceType referenceId r = true ∧
        Rewritten s s' k r { r with status := .released }) := by
  rcases releaseByReference_ok done with ⟨rfl, none⟩ | ⟨k, r, holds, rewritten⟩
  · exact ⟨.idle none fun r inactive => by rw [settle, inactive]; rfl, .inl rfl⟩
  · have active : r.isActive = true := (Bool.and_eq_true_iff.mp holds).2
    exact ⟨rewritten.onRef (activeFor_isFor holds) (by rw [settle, if_pos active]), .inr ⟨k, r, holds, rewritten⟩⟩

end References

end Reserved

end VerdictVaut
