import VerdictVaut.Ledger.Rounded
import VerdictVaut.Shared.Agreement
import VerdictVaut.Shared.Figures

set_option autoImplicit false

-- where the ledger's calls round nothing, they do what they do in exact arithmetic
namespace VerdictVaut

open Relational Relational.Tx Decimals

/-- Figures of this many digits and this size are kept by `Prisma.Decimal` and by the columns. -/
structure Room (places : ℕ) (most : ℚ) : Prop where
  scale : places ≤ Decimal.SCALE
  digits : most * 10 ^ places ≤ 10 ^ Decimal.PRECISION
  column : most < 10 ^ 18

namespace Room

variable {places : ℕ} {most less x y : ℚ}

theorem smaller (room : Room places most) (le : less ≤ most) : Room places less where
  scale := room.scale
  digits := (mul_le_mul_of_nonneg_right le (by positivity)).trans room.digits
  column := le.trans_lt room.column

theorem coarser {places' : ℕ} (room : Room places most) (le : places' ≤ places) : Room places' most where
  scale := le.trans room.scale
  digits := by
    rcases le_total 0 most with nonneg | negative
    next =>
      have powers : (10 : ℚ) ^ places' ≤ 10 ^ places := pow_le_pow_right₀ (by norm_num) le
      exact (mul_le_mul_of_nonneg_left powers nonneg).trans room.digits
    next => exact (mul_nonpos_of_nonpos_of_nonneg negative (by positivity)).trans (by positivity)
  column := room.column

theorem significant (room : Room places most) (figure : Figure places most x) : Significant Decimal.PRECISION x :=
  figure.significant (by decide) room.digits

theorem plus (room : Room places most) (figure : Figure places most (x + y)) : Decimal.plus x y = x + y :=
  Decimal.plus_eq_iff.mpr (room.significant figure)

theorem minus (room : Room places most) (figure : Figure places most (x - y)) : Decimal.minus x y = x - y :=
  Decimal.minus_eq_iff.mpr (room.significant figure)

theorem times (room : Room places most) (figure : Figure places most (x * y)) : Decimal.times x y = x * y :=
  toSignificant_eq_self_iff.mpr (room.significant figure)

theorem kept (room : Room places most) (figure : Figure places most x) : Decimal.column x = x :=
  Decimal.column_eq_iff.mpr (figure.fits.finer room.scale)

theorem run_write {σ : Type} {s : σ} (room : Room places most) (figure : Figure places most x) :
    (Rounded.write x : Tx σ Fault ℚ).run s = .ok (x, s) := by
  rw [Rounded.run_write_ok, room.kept figure]
  exact ⟨figure.small.trans_lt room.column, rfl, rfl⟩

theorem write {σ α : Type} {Q : α → σ → Prop} {f : ℚ → Tx σ Fault α} {z : Tx σ Fault α} {s : σ} (room : Room places most)
    (figure : Figure places most x) (rest : Agree Q (f x) z s) : Agree Q (Rounded.write x >>= f) z s :=
  ⟨(run_bind_of_ok (room.run_write figure)).trans rest.same, rest.holds⟩

/-- Adding up is not rounded while the sum is small; nothing that is added is negative. -/
theorem foldl_plus {amounts : List ℚ} {start : ℚ} (room : Room places most) (fits : Places places start)
    (figures : ∀ amount ∈ amounts, Places places amount ∧ 0 ≤ amount) (nonneg : 0 ≤ start)
    (below : start + amounts.sum ≤ most) : amounts.foldl Decimal.plus start = start + amounts.sum := by
  -- adding up is not rounded while the sum is small; nothing that is added is negative
  induction amounts generalizing start with
  | nil => simp
  | cons amount rest ih =>
    obtain ⟨part, some⟩ := figures amount List.mem_cons_self
    have others : ∀ other ∈ rest, Places places other ∧ 0 ≤ other :=
      fun other member => figures other (List.mem_cons_of_mem _ member)
    rw [List.sum_cons] at below ⊢
    have sum : 0 ≤ rest.sum := List.sum_nonneg fun other member => (others other member).2
    have figure : Figure places most (start + amount) := .of_le (fits.add part) (by linarith) (by linarith)
    rw [List.foldl_cons, room.plus figure, ih figure.fits others (by linarith) (by linarith), add_assoc]

end Room

theorem runTransaction_agree {σ α : Type} {ledger : Field σ Ledger} {Q : α → σ → Prop} {x y : Tx σ Fault α} {s : σ}
    (agree : Agree Q x y s) : Agree Q (runTransaction ledger x) (runTransaction ledger y) s := by
  constructor
  next =>
    have same := agree.same
    unfold runTransaction
    simp only [run] at same ⊢
    rw [same]
  next => exact fun a s' done => agree.holds a s' (runTransaction_ok done)

/-- A holder's row keeps its total when it is earmarked, and its CHECKs keep what is reserved from being negative. -/
class Holder.Lawful (H : Type) [Holder H] : Prop where
  total_setReserved : ∀ (r : ℚ) (h : H), Holder.total (Holder.setReserved r h) = Holder.total h
  nonneg : ∀ h : H, RowSpec.check h = true → 0 ≤ Holder.reserved h

instance : Holder.Lawful LedgerAccount where
  total_setReserved _ _ := rfl
  nonneg account valid := by
    simp only [RowSpec.check, LedgerAccount.check, Bool.and_eq_true, decide_eq_true_eq] at valid
    exact valid.1

namespace Reserved

variable {H : Type} [Holder H]

def HoldersFit (selected : H → Prop) (places : ℕ) (most : ℚ) (holders : Table H) : Prop :=
  ∀ h ∈ holders.rows, selected h → Figure places most (Holder.total h) ∧ Figure places most (Holder.reserved h)

structure Small (selected : H → Prop) (places : ℕ) (most : ℚ) (s : Reserved H) : Prop where
  -- the figures of these holders, and of what is reserved for the orders that rest
  holders : HoldersFit selected places most s.holders
  reservations : ∀ r ∈ s.reservations.rows, r.isActive = true → r.referenceType = .order →
    Figure places most r.amount ∧ Figure places most r.consumedAmount

instance {selected : H → Prop} [DecidablePred selected] {places : ℕ} {most : ℚ} {holders : Table H} :
    Decidable (HoldersFit selected places most holders) :=
  inferInstanceAs (Decidable (∀ h ∈ holders.rows, selected h → _ ∧ _))

instance {selected : H → Prop} [DecidablePred selected] {places : ℕ} {most : ℚ} {s : Reserved H} :
    Decidable (Small selected places most s) :=
  decidable_of_iff (HoldersFit selected places most s.holders ∧ ∀ r ∈ s.reservations.rows, r.isActive = true →
      r.referenceType = .order → Figure places most r.amount ∧ Figure places most r.consumedAmount)
    ⟨fun both => ⟨both.1, both.2⟩, fun small => ⟨small.holders, small.reservations⟩⟩

def HeldBy (selected : H → Prop) (s : Reserved H) : Prop :=
  -- what is reserved for the orders that rest, these holders hold
  ∀ r ∈ s.reservations.rows, r.isActive = true → r.referenceType = .order →
    ∃ h, s.holders.get? r.holderId = some h ∧ selected h

def Steady (selected : H → Prop) : Prop := ∀ r h, selected (Holder.setReserved r h) ↔ selected h

structure Ready (selected : H → Prop) (places : ℕ) (most : ℚ) (s : Reserved H) : Prop where
  small : s.Small selected places most
  held : s.HeldBy selected

section Rows

variable {selected : H → Prop} {places : ℕ} {most more : ℚ} {s s' : Reserved H} {k : Nat} {old new : Reservation}

theorem Ready.mono (ready : s.Ready selected places most) (le : most ≤ more) : s.Ready selected places more where
  small :=
    { holders := fun h member mine => (ready.small.holders h member mine).imp (·.mono le) (·.mono le)
      reservations := fun r member active order =>
        (ready.small.reservations r member active order).imp (·.mono le) (·.mono le) }
  held := ready.held

theorem HeldBy.of_get? (held : s.HeldBy selected) {r : Reservation} (member : r ∈ s.reservations.rows)
    (active : r.isActive = true) (order : r.referenceType = .order) {h : H} (found : s.holders.get? r.holderId = some h) :
    selected h := by
  obtain ⟨h', found', mine⟩ := held r member active order
  rw [found] at found'
  cases found'
  exact mine

theorem HeldBy.set (steady : Steady selected) {holders holders' : Table H} {i j : Nat} {holder : H} {reserved : ℚ}
    (found : holders.get? i = some holder) (mine : selected holder)
    (rows : holders'.rows = holders.rows.set i (Holder.setReserved reserved holder))
    (held : ∃ h, holders.get? j = some h ∧ selected h) : ∃ h, holders'.get? j = some h ∧ selected h := by
  -- the holder that is rewritten stays chosen, and the others are left alone
  rw [Table.get?_of_set rows (Table.get?_lt found)]
  by_cases same : j = i
  next => exact ⟨_, if_pos same, (steady _ _).mpr mine⟩
  next =>
    obtain ⟨h, there, chosen⟩ := held
    exact ⟨h, (if_neg same).trans there, chosen⟩

theorem Ready.rewritten [Holder.Lawful H] (steady : Steady selected) (ready : s.Ready selected places most)
    (rewritten : Rewritten s s' k old new)
    (active : old.isActive = true) (order : old.referenceType = .order)
    (figures : new.isActive = true → Figure places most new.amount ∧ Figure places most new.consumedAmount)
    (reserved : ∀ h, s.holders.get? old.holderId = some h →
      Figure places most (Holder.reserved h - (hold old - hold new))) : s'.Ready selected places most := by
  obtain ⟨holder, found, holders⟩ := rewritten.holder
  have mine := ready.held.of_get? (Table.get?_mem rewritten.found) active order found
  have figure := ready.small.holders holder (Table.get?_mem found) mine
  have inside := Table.get?_lt found
  constructor
  next =>
    constructor
    next =>
      intro h member chosen
      rw [holders] at member
      rcases List.mem_or_eq_of_mem_set member with old | rfl
      next => exact ready.small.holders h old chosen
      next =>
        rw [Holder.Lawful.total_setReserved, Holder.reserved_setReserved]
        exact ⟨figure.1, reserved holder found⟩
    next =>
      intro r member still isOrder
      rw [rewritten.reservations] at member
      rcases List.mem_or_eq_of_mem_set member with old | rfl
      next => exact ready.small.reservations r old still isOrder
      next => exact figures still
  next =>
    intro r member still isOrder
    have here : ∃ r' ∈ s.reservations.rows, r'.isActive = true ∧ r'.referenceType = .order ∧ r'.holderId = r.holderId := by
      rw [rewritten.reservations] at member
      rcases List.mem_or_eq_of_mem_set member with old | rfl
      next => exact ⟨r, old, still, isOrder, rfl⟩
      next => exact ⟨old, Table.get?_mem rewritten.found, active, order, rewritten.holderId.symm⟩
    obtain ⟨r', member', active', order', same⟩ := here
    exact same ▸ HeldBy.set steady found mine holders (ready.held r' member' active' order')

theorem Ready.rewriteHolder (ready : s.Ready selected places most) {t : Table H} {i : Nat} {before after : H}
    (found : s.holders.get? i = some before) (rows : t.rows = s.holders.rows.set i after)
    (chosen : selected before → selected after)
    (figures : Figure places most (Holder.total after) ∧ Figure places most (Holder.reserved after)) :
    Ready selected places most { s with holders := t } := by
  constructor
  next =>
    refine ⟨fun h member mine => ?_, ready.small.reservations⟩
    change h ∈ t.rows at member
    rw [rows] at member
    rcases List.mem_or_eq_of_mem_set member with old | rfl
    next => exact ready.small.holders h old mine
    next => exact figures
  next =>
    intro r member active order
    obtain ⟨h, there, mine⟩ := ready.held r member active order
    change ∃ h, t.get? r.holderId = some h ∧ selected h
    rw [Table.get?_of_set rows (Table.get?_lt found)]
    by_cases same : r.holderId = i
    next =>
      rw [same, found] at there
      cases there
      exact ⟨after, if_pos same, chosen mine⟩
    next => exact ⟨h, (if_neg same).trans there, mine⟩

theorem Ready.insertHolder (ready : s.Ready selected places most) {t : Table H} {holder : H}
    (rows : t.rows = s.holders.rows ++ [holder])
    (figures : Figure places most (Holder.total holder) ∧ Figure places most (Holder.reserved holder)) :
    Ready selected places most { s with holders := t } := by
  constructor
  next =>
    refine ⟨fun h member mine => ?_, ready.small.reservations⟩
    change h ∈ t.rows at member
    rw [rows] at member
    rcases List.mem_append.mp member with old | new
    next => exact ready.small.holders h old mine
    next =>
      cases List.mem_singleton.mp new
      exact figures
  next =>
    intro r member active order
    obtain ⟨h, there, mine⟩ := ready.held r member active order
    refine ⟨h, ?_, mine⟩
    change t.get? r.holderId = some h
    rw [Table.get?_of_append rows, if_neg (Table.get?_lt there).ne]
    exact there

end Rows

section Calls

variable {selected : H → Prop} {places : ℕ} {most : ℚ} {s s' : Reserved H} {k : Nat} {r : Reservation} {amount : ℚ}

theorem Ready.unconsumed (ready : s.Ready selected places most) (found : s.reservations.get? k = some r)
    (active : r.isActive = true) (order : r.referenceType = .order) : Figure places most r.unconsumed := by
  obtain ⟨amount, consumed⟩ := ready.small.reservations r (Table.get?_mem found) active order
  obtain ⟨some, nonneg, -⟩ := Reservation.bounds (Table.get?_mem found)
  exact amount.sub_of_nonneg consumed some.le nonneg

theorem Ready.minus (ready : s.Ready selected places most) (room : Room places most)
    (found : s.reservations.get? k = some r) (active : r.isActive = true) (order : r.referenceType = .order) :
    Decimal.minus r.amount r.consumedAmount = r.unconsumed := room.minus (ready.unconsumed found active order)

theorem Ready.drawn (ready : s.Ready selected places most) (found : s.reservations.get? k = some r)
    (active : r.isActive = true) (order : r.referenceType = .order) (fits : Places places amount) (positive : 0 < amount)
    (enough : amount ≤ r.unconsumed) : Figure places most amount ∧ Figure places most (r.consumedAmount + amount) := by
  obtain ⟨whole, consumed⟩ := ready.small.reservations r (Table.get?_mem found) active order
  obtain ⟨-, nonneg, -⟩ := Reservation.bounds (Table.get?_mem found)
  have below := (abs_le.mp whole.small).2
  unfold Reservation.unconsumed at enough
  exact ⟨.of_le fits positive.le (by linarith), .of_le (consumed.fits.add fits) (by linarith) (by linarith)⟩

variable [Holder.Lawful H]

theorem Ready.taken (ready : s.Ready selected places most) (found : s.reservations.get? k = some r)
    (active : r.isActive = true) (order : r.referenceType = .order) (fits : Figure places most amount) (nonneg : 0 ≤ amount)
    {h : H} (there : s.holders.get? r.holderId = some h) : Figure places most (Holder.reserved h - amount) := by
  have mine := ready.held.of_get? (Table.get?_mem found) active order there
  exact (ready.small.holders h (Table.get?_mem there) mine).2.sub_of_nonneg fits
    (Holder.Lawful.nonneg h (Table.check_of_get? there)) nonneg

theorem consume_agree (steady : Steady selected) (room : Room places most) (ready : s.Ready selected places most)
    (found : s.reservations.get? k = some r) (order : r.referenceType = .order) (fits : Places places amount) :
    Agree (fun _ s' => s'.Ready selected places most) (Rounded.consume k amount) (Reserved.consume k amount) s := by
  constructor
  next =>
    refine (Agree.throwIf fun positive => ?_ : Agree (fun _ _ => True) _ _ s).same
    refine .getOrThrow fun r' found' => ?_
    obtain rfl : r = r' := Option.some.inj (found.symm.trans found')
    refine .throwIf fun active => ?_
    have active' : r.isActive = true := by simpa [Reservation.isActive] using active
    dsimp only
    rw [ready.minus room found active' order]
    refine .throwIf fun enough => ?_
    obtain ⟨part, consumed⟩ := ready.drawn found active' order fits (not_le.mp positive) (not_lt.mp enough)
    rw [room.plus consumed]
    refine room.write consumed (.update fun t updated => .getOrThrow fun holder there => ?_)
    have rest := ready.taken found active' order part (not_le.mp positive).le there
    rw [room.minus rest]
    exact room.write rest (.self fun _ _ _ => trivial)
  next =>
    intro u s' done
    obtain ⟨r', positive, active, enough, rewritten⟩ := consume_ok done
    obtain rfl : r = r' := Option.some.inj (found.symm.trans rewritten.found)
    have active' : r.isActive = true := by simpa [Reservation.isActive] using active
    obtain ⟨part, consumed⟩ := ready.drawn found active' order fits positive enough
    refine ready.rewritten steady rewritten active' order (fun _ => ?_) fun h there => ?_
    next => exact ⟨(ready.small.reservations r (Table.get?_mem found) active' order).1, consumed⟩
    next =>
      have less : hold r - hold { r with consumedAmount := r.consumedAmount + amount } = amount := by
        simp [hold, Reservation.isActive, active, Reservation.unconsumed]
      rw [less]
      exact ready.taken found active' order part positive.le there

omit [Holder.Lawful H] in
theorem transition_exact (room : Room places most) {status : ReservationStatus}
    (figures : ∀ r, s.reservations.get? k = some r → r.isActive = true → Figure places most r.unconsumed ∧
      ∀ h, s.holders.get? r.holderId = some h → Figure places most (Holder.reserved h - r.unconsumed)) :
    Agree (fun _ _ => True) (Rounded.transition k status) (Reserved.transition k status) s := by
  refine .read ?_
  cases found : s.reservations.get? k with
  | none => exact .self fun _ _ _ => trivial
  | some r =>
    refine .ite (fun active => ?_) fun _ => .self fun _ _ _ => trivial
    obtain ⟨unconsumed, rest⟩ := figures r found (by simpa [Reservation.isActive] using active)
    refine .update fun t updated => .getOrThrow fun holder there => ?_
    have left : Decimal.minus r.amount r.consumedAmount = r.unconsumed := room.minus unconsumed
    dsimp only
    rw [left, room.minus (rest holder there)]
    exact room.write (rest holder there) (.self fun _ _ _ => trivial)

theorem HoldersFit.transition (steady : Steady selected) (fit : HoldersFit selected places most s.holders)
    (unconsumed : ∀ r, s.reservations.get? k = some r → r.isActive = true → Figure places most r.unconsumed)
    {status : ReservationStatus} (ends : status ≠ .active) {changed : Bool}
    (done : (Reserved.transition k status).run s = .ok (changed, s')) : HoldersFit selected places most s'.holders := by
  rcases transition_ok ends done with ⟨-, rfl, -⟩ | ⟨-, r, active, rewritten⟩
  next => exact fit
  next =>
    have active' : r.isActive = true := by simpa [Reservation.isActive] using active
    have all : hold r - hold { r with status := status } = r.unconsumed := by
      simp [hold, Reservation.isActive, active, ends]
    obtain ⟨holder, there, rows⟩ := rewritten.holder
    intro h member mine
    rw [rows, all] at member
    rcases List.mem_or_eq_of_mem_set member with old | rfl
    next => exact fit h old mine
    next =>
      obtain ⟨total, reserved⟩ := fit holder (Table.get?_mem there) ((steady _ _).mp mine)
      rw [Holder.Lawful.total_setReserved, Holder.reserved_setReserved]
      exact ⟨total, reserved.sub_of_nonneg (unconsumed r rewritten.found active')
        (Holder.Lawful.nonneg holder (Table.check_of_get? there)) (Reservation.unconsumed_nonneg (Table.get?_mem rewritten.found))⟩

theorem release_agree (steady : Steady selected) (room : Room places most) (ready : s.Ready selected places most)
    (found : s.reservations.get? k = some r) (order : r.referenceType = .order) :
    Agree (fun _ s' => s'.Ready selected places most) (Rounded.release k) (Reserved.release k) s := by
  have whole (active : r.isActive = true) : Figure places most r.unconsumed ∧ ∀ h, s.holders.get? r.holderId = some h →
      Figure places most (Holder.reserved h - r.unconsumed) := by
    have figure := ready.unconsumed found active order
    have nonneg := Reservation.unconsumed_nonneg (Table.get?_mem found)
    exact ⟨figure, fun h there => ready.taken found active order figure nonneg there⟩
  constructor
  next =>
    refine (transition_exact room fun r' found' active => ?_).same
    obtain rfl : r = r' := Option.some.inj (found.symm.trans found')
    exact whole active
  next =>
    intro changed s' done
    rcases transition_ok (by decide) done with ⟨-, rfl, -⟩ | ⟨-, r', active, rewritten⟩
    next => exact ready
    next =>
      obtain rfl : r = r' := Option.some.inj (found.symm.trans rewritten.found)
      have active' : r.isActive = true := by simpa [Reservation.isActive] using active
      refine ready.rewritten steady rewritten active' order (fun still => ?_) fun h there => ?_
      next => cases still
      next =>
        have all : hold r - hold { r with status := .released } = r.unconsumed := by
          simp [hold, Reservation.isActive, active]
        rw [all]
        exact (whole active').2 h there

theorem releaseByReference_agree (steady : Steady selected) (room : Room places most)
    (ready : s.Ready selected places most) (orderId : Nat) :
    Agree (fun _ s' => s'.Ready selected places most) (Rounded.releaseByReference .order orderId)
      (Reserved.releaseByReference .order orderId) s := by
  refine .find? ?_
  cases located : s.reservations.find? (activeFor .order orderId) with
  | none =>
    simp only [reservationsField_get, located]
    exact .pure ready
  | some found =>
    obtain ⟨there, holds⟩ := Table.find?_some located
    simp only [reservationsField_get, located]
    refine (release_agree steady room ready there (activeFor_status holds).1).bind fun _ _ _ ready' => ?_
    exact .pure ready'

omit [Holder.Lawful H] in
theorem earmark_exact (room : Room places (most + most)) {holder : H} {input : ReserveInput}
    (total : Figure places most (Holder.total holder)) (reserved : Figure places most (Holder.reserved holder))
    (figure : Figure places most input.amount) :
    Agree (fun _ _ => True) (Rounded.earmark k holder input) (Reserved.earmark k holder input) s := by
  unfold Rounded.earmark
  refine (room.smaller (by linarith [figure.nonneg])).write figure (.after fun pair s' made => ?_)
  obtain ⟨i, existed⟩ := pair
  refine .ite (fun _ => .self fun _ _ _ => trivial) fun _ => ?_
  dsimp only
  rw [room.minus (total.sub reserved)]
  refine .throwIf fun enough => ?_
  have sum := reserved.add figure
  rw [room.plus sum]
  exact room.write sum (.self fun _ _ _ => trivial)

theorem earmark_agree (steady : Steady selected) (room : Room places (most + most)) (ready : s.Ready selected places most)
    {holder : H} {input : ReserveInput} (there : s.holders.get? k = some holder) (mine : selected holder)
    (figure : Figure places most input.amount) :
    Agree (fun _ s' => s'.Ready selected places most) (Rounded.earmark k holder input) (Reserved.earmark k holder input) s := by
  obtain ⟨total, reserved⟩ := ready.small.holders holder (Table.get?_mem there) mine
  have nonneg := Holder.Lawful.nonneg holder (Table.check_of_get? there)
  constructor
  next => exact (earmark_exact room total reserved figure).same
  next =>
    rintro ⟨i, existed⟩ s' done
    rcases earmark_ok done with ⟨-, rfl, -⟩ | ⟨-, -, positive, enough, -, reservations, -, holders⟩
    next => exact ready
    next =>
      have size := (abs_le.mp total.small).2
      have sum : Figure places most (Holder.reserved holder + input.amount) :=
        .of_le (reserved.fits.add figure.fits) (by linarith) (by linarith)
      constructor
      next =>
        constructor
        next =>
          intro h member chosen
          rw [holders] at member
          rcases List.mem_or_eq_of_mem_set member with old | rfl
          next => exact ready.small.holders h old chosen
          next =>
            rw [Holder.Lawful.total_setReserved, Holder.reserved_setReserved]
            exact ⟨total, sum⟩
        next =>
          intro r member active order
          rw [reservations] at member
          rcases List.mem_append.mp member with old | new
          next => exact ready.small.reservations r old active order
          next =>
            cases List.mem_singleton.mp new
            exact ⟨figure, .zero figure.nonneg⟩
      next =>
        -- the new reservation is on the chosen holder, and the others are where they were
        intro r member active order
        refine HeldBy.set steady there mine holders ?_
        rw [reservations] at member
        rcases List.mem_append.mp member with old | new
        next => exact ready.held r old active order
        next =>
          cases List.mem_singleton.mp new
          exact ⟨holder, there, mine⟩

end Calls

end Reserved

namespace Ledger

open Reserved

variable {l l' : Ledger} {assetId transactionId : Nat} {posting : Posting} {places : ℕ} {most more : ℚ}

def OfAsset (assetId : Nat) (account : LedgerAccount) : Prop := account.assetId = assetId

instance {assetId : Nat} : DecidablePred (OfAsset assetId) := fun account => inferInstanceAs (Decidable (account.assetId = assetId))

theorem ofAsset_steady (assetId : Nat) : Steady (OfAsset assetId) := fun _ _ => Iff.rfl

theorem holdersFit_opened {accounts : Table LedgerAccount} {ref : AccountRef}
    (fit : HoldersFit (OfAsset assetId) places most l.accounts) (nonneg : 0 ≤ most)
    (opened : accounts = l.accounts ∨ accounts.rows = l.accounts.rows ++ [openedAccount assetId ref]) :
    HoldersFit (OfAsset assetId) places most accounts := by
  rcases opened with rfl | appended
  next => exact fit
  next =>
    intro account member mine
    rw [appended] at member
    rcases List.mem_append.mp member with old | new
    next => exact fit account old mine
    next =>
      cases List.mem_singleton.mp new
      exact ⟨.zero nonneg, .zero nonneg⟩

theorem postEntry_agree (room : Room places (most + more)) (fit : HoldersFit (OfAsset assetId) places most l.accounts)
    (nonneg : 0 ≤ most) (figure : Figure places more posting.amount) :
    Agree (fun _ l' => HoldersFit (OfAsset assetId) places (most + more) l'.accounts)
      (Rounded.postEntry transactionId assetId posting) (postEntry transactionId assetId posting) l := by
  have amount := room.smaller (by linarith : more ≤ most + more)
  refine .after fun found l₁ resolved => ?_
  obtain ⟨accountId, account⟩ := found
  obtain ⟨accounts, rfl, there, -, ofAsset, opened⟩ := resolveAccount_ok resolved
  have fit₁ := holdersFit_opened fit nonneg opened
  have sum : Figure places (most + more) (account.cachedBalance + posting.amount) :=
    (fit₁ account (Table.get?_mem there) ofAsset).1.add figure
  dsimp only
  rw [room.plus sum]
  refine .throwIf fun _ => amount.write figure (room.write sum (.create fun entries _ => .self ?_))
  intro u l' done
  obtain ⟨t, updated, rfl⟩ := run_update_ok.mp done
  obtain ⟨-, -, -, rows⟩ := Table.update_ok updated
  intro other member mine
  change other ∈ t.rows at member
  rw [rows] at member
  rcases List.mem_or_eq_of_mem_set member with old | rfl
  next => exact (fit₁ other old mine).imp (·.mono (by linarith [figure.nonneg])) (·.mono (by linarith [figure.nonneg]))
  next => exact ⟨sum, (fit₁ account (Table.get?_mem there) ofAsset).2.mono (by linarith [figure.nonneg])⟩

theorem postEntries_agree {postings : List Posting} (room : Room places (most + postings.length * more))
    (fit : HoldersFit (OfAsset assetId) places most l.accounts) (nonneg : 0 ≤ most)
    (figures : ∀ posting ∈ postings, Figure places more posting.amount) :
    Agree (fun _ l' => HoldersFit (OfAsset assetId) places (most + postings.length * more) l'.accounts)
      (Rounded.postEntries transactionId assetId postings) (postEntries transactionId assetId postings) l := by
  induction postings generalizing l most with
  | nil =>
    refine .pure ?_
    simpa using fit
  | cons posting rest ih =>
    have figure := figures posting List.mem_cons_self
    have whole : most + (posting :: rest).length * more = most + more + rest.length * more := by
      rw [List.length_cons]
      push_cast
      ring
    rw [whole] at room ⊢
    have rest_nonneg : 0 ≤ rest.length * more := mul_nonneg (Nat.cast_nonneg _) figure.nonneg
    refine (postEntry_agree (room.smaller (by linarith)) fit nonneg figure).bind fun _ l₁ _ fit₁ => ?_
    exact ih room fit₁ (by linarith [figure.nonneg]) fun other member => figures other (List.mem_cons_of_mem _ member)

theorem foldl_plus_eq {amounts : List ℚ} {start : ℚ} (room : Room places (most + amounts.length * more))
    (first : Figure places most start) (figures : ∀ amount ∈ amounts, Figure places more amount) :
    amounts.foldl Decimal.plus start = start + amounts.sum := by
  induction amounts generalizing start most with
  | nil => simp
  | cons amount rest ih =>
    have figure := figures amount List.mem_cons_self
    have whole : most + (amount :: rest).length * more = most + more + rest.length * more := by
      rw [List.length_cons]
      push_cast
      ring
    rw [whole] at room
    have rest_nonneg : 0 ≤ rest.length * more := mul_nonneg (Nat.cast_nonneg _) figure.nonneg
    have sum := first.add figure
    rw [List.foldl_cons, (room.smaller (by linarith)).plus sum, ih room sum fun other member =>
      figures other (List.mem_cons_of_mem _ member), List.sum_cons, add_assoc]

def CurrencyFits (symbol : String) (places : ℕ) (most : ℚ) (l : Ledger) : Prop :=
  -- the holders of the currency that a call names
  ∀ assetId row, l.assets.find? (fun asset => decide (asset.symbol = symbol)) = some (assetId, row) →
    HoldersFit (OfAsset assetId) places most l.accounts

instance {symbol : String} : Decidable (CurrencyFits symbol places most l) :=
  decidable_of_iff (∀ found ∈ l.assets.find? (fun asset => decide (asset.symbol = symbol)),
      HoldersFit (OfAsset found.1) places most l.accounts)
    ⟨fun fits assetId row named => fits (assetId, row) named, fun fits found named => fits found.1 found.2 named⟩

theorem CurrencyFits.mono {symbol : String} (fits : CurrencyFits symbol places most l) (le : most ≤ more) :
    CurrencyFits symbol places more l :=
  fun assetId row named account member mine => (fits assetId row named account member mine).imp (·.mono le) (·.mono le)

def EarmarkFits (places : ℕ) (most : ℚ) (referenceType : ReferenceType) (referenceId : Nat) (l : Ledger) : Prop :=
  -- what is reserved for one reference, and the account that holds it
  ∀ r ∈ l.funds.reservations.rows, activeFor referenceType referenceId r = true →
    Figure places most r.amount ∧ Figure places most r.consumedAmount ∧
      ∀ account ∈ l.accounts.get? r.holderId, Figure places most account.reservedBalance

instance {referenceType : ReferenceType} {referenceId : Nat} : Decidable (EarmarkFits places most referenceType referenceId l) :=
  inferInstanceAs (Decidable (∀ r ∈ l.funds.reservations.rows, _ → _ ∧ _ ∧ ∀ account ∈ l.accounts.get? r.holderId, _))

section Earmarks

variable {referenceType : ReferenceType} {referenceId k : Nat} {r : Reservation}

theorem EarmarkFits.unconsumed (fits : EarmarkFits places most referenceType referenceId l)
    (found : l.funds.reservations.get? k = some r) (mine : activeFor referenceType referenceId r = true) :
    Figure places most r.unconsumed := by
  have member := Table.get?_mem found
  obtain ⟨amount, consumed, -⟩ := fits r member mine
  obtain ⟨some, nonneg, -⟩ := Reservation.bounds member
  exact amount.sub_of_nonneg consumed some.le nonneg

theorem EarmarkFits.transition_exact (fits : EarmarkFits places most referenceType referenceId l) (room : Room places most)
    (found : l.funds.reservations.get? k = some r) (mine : activeFor referenceType referenceId r = true)
    {status : ReservationStatus} :
    Agree (fun _ _ => True) (Rounded.transition k status) (Reserved.transition k status) l.funds := by
  have member := Table.get?_mem found
  refine Reserved.transition_exact room fun r' found' _ => ?_
  obtain rfl : r = r' := Option.some.inj (found.symm.trans found')
  have figure := fits.unconsumed found mine
  refine ⟨figure, fun account there => ?_⟩
  exact ((fits r member mine).2.2 account there).sub_of_nonneg figure
    (Holder.Lawful.nonneg account (Table.check_of_get? there)) (Reservation.unconsumed_nonneg member)

theorem EarmarkFits.releaseByReference (fits : EarmarkFits places most referenceType referenceId l) (room : Room places most) :
    Agree (fun _ _ => True) (Rounded.releaseByReference referenceType referenceId)
      (Reserved.releaseByReference referenceType referenceId) l.funds := by
  refine .find? ?_
  cases located : l.funds.reservations.find? (activeFor referenceType referenceId) with
  | none =>
    simp only [reservationsField_get, located]
    exact .pure trivial
  | some found =>
    obtain ⟨there, holds⟩ := Table.find?_some located
    simp only [reservationsField_get, located]
    exact (fits.transition_exact room there holds).bind fun _ _ _ _ => .pure trivial

end Earmarks

theorem reserve_agree {request : ReserveFunds} (room : Room places (most + most))
    (figure : Figure places most request.input.amount) (fits : CurrencyFits request.assetSymbol places most l) :
    Agree (fun _ _ => True) (Rounded.reserve request) (reserve request) l := by
  refine .throwIf fun _ => .after fun named l₀ looked => .after fun pair l₁ resolved => ?_
  obtain ⟨assetId, asset⟩ := named
  obtain ⟨rfl, found⟩ := assetBySymbol_ok looked
  obtain ⟨accountId, account⟩ := pair
  obtain ⟨accounts, rfl, there, -, ofAsset, opened⟩ := resolveAccount_ok resolved
  have fit := holdersFit_opened (fits assetId asset found) figure.nonneg opened
  obtain ⟨total, reserved⟩ := fit account (Table.get?_mem there) ofAsset
  exact (Agree.zoom (earmark_exact room total reserved figure)).weaken fun _ _ _ => trivial

theorem postTransaction_agree {input : PostTransactionInput} (room : Room places (most + input.postings.length * more))
    (nonneg : 0 ≤ most) (figures : ∀ posting ∈ input.postings, Figure places more posting.amount)
    (fits : CurrencyFits input.assetSymbol places most l) :
    Agree (fun _ l' => CurrencyFits input.assetSymbol places (most + input.postings.length * more) l')
      (Rounded.postTransaction input) (postTransaction input) l := by
  refine .throwIf fun enough => .after fun named l₀ looked => ?_
  obtain ⟨assetId, asset⟩ := named
  obtain ⟨rfl, found⟩ := assetBySymbol_ok looked
  have some : 0 ≤ more := by
    cases postings : input.postings with
    | nil => simp [postings] at enough
    | cons posting rest => exact (figures posting (by simp [postings])).nonneg
  have grows : 0 ≤ input.postings.length * more := mul_nonneg (Nat.cast_nonneg _) some
  have total : Rounded.sumAmounts (input.postings.map Posting.amount) = sumAmounts (input.postings.map Posting.amount) := by
    have sum := @foldl_plus_eq places 0 more (input.postings.map Posting.amount) 0
      (room.smaller (by rw [List.length_map]; linarith)) (.zero le_rfl) (by simpa using figures)
    rw [Rounded.sumAmounts, sum, zero_add, sumAmounts]
  dsimp only
  rw [total]
  refine .throwIf fun balanced => .after fun pair l₁ created => ?_
  obtain ⟨transactionId, existed⟩ := pair
  rcases run_createOnce_ok created with ⟨rfl, -, t, -, rfl⟩ | ⟨rfl, rfl, -⟩
  next =>
    simp only [Bool.false_eq_true, if_false]
    refine (postEntries_agree (l := transactionsField.set t l₀) room (fits assetId asset found) nonneg figures).bind
      fun _ l' posted fit => .pure ?_
    intro assetId' row found'
    have same := (postEntries_ok _ posted).frame.assets
    rw [same] at found'
    cases found.symm.trans found'
    exact fit
  next =>
    simp only [if_true]
    exact .pure (fits.mono (by linarith))

end Ledger

end VerdictVaut
