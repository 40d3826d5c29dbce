import Mathlib.Data.List.Forall2

set_option autoImplicit false

namespace Fallible

variable {ε α β : Type}

theorem bind_eq_ok {x : Except ε α} {f : α → Except ε β} {b : β} :
    x >>= f = .ok b ↔ ∃ a, x = .ok a ∧ f a = .ok b := by
  cases x with
  | error e => simp [bind, Except.bind]
  | ok a => simp [bind, Except.bind]

theorem pure_eq_ok {a b : α} : (pure a : Except ε α) = .ok b ↔ a = b := by
  simp [pure, Except.pure]

theorem mapM_eq_ok {f : α → Except ε β} {l : List α} {mapped : List β} :
    l.mapM f = .ok mapped ↔ List.Forall₂ (fun a b => f a = .ok b) l mapped := by
  induction l generalizing mapped with
  | nil =>
    rw [List.mapM_nil, pure_eq_ok, List.forall₂_nil_left_iff]
    exact eq_comm
  | cons a rest ih =>
    simp only [List.mapM_cons, bind_eq_ok, pure_eq_ok, ih, List.forall₂_cons_left_iff]
    constructor
    · rintro ⟨b, head, tail, matched, rfl⟩
      exact ⟨b, tail, head, matched, rfl⟩
    · rintro ⟨b, tail, head, matched, rfl⟩
      exact ⟨b, head, tail, matched, rfl⟩

theorem mapM_eq_map {f : α → Except ε β} (g : α → β) {l : List α} (each : ∀ a ∈ l, f a = .ok (g a)) :
    l.mapM f = .ok (l.map g) := by
  rw [mapM_eq_ok, List.forall₂_map_right_iff, List.forall₂_same]
  exact each

theorem mapM_succeeds {f : α → Except ε β} {l : List α} (each : ∀ a ∈ l, ∃ b, f a = .ok b) :
    ∃ mapped, l.mapM f = .ok mapped := by
  induction l with
  | nil => exact ⟨[], rfl⟩
  | cons a rest ih =>
    obtain ⟨b, head⟩ := each a List.mem_cons_self
    obtain ⟨tail, mapped⟩ := ih fun a member => each a (List.mem_cons_of_mem _ member)
    exact ⟨b :: tail, by simp only [List.mapM_cons, bind_eq_ok, pure_eq_ok]; exact ⟨b, head, tail, mapped, rfl⟩⟩

theorem forall₂_left {R : α → β → Prop} {l : List α} {m : List β} (related : List.Forall₂ R l m) :
    ∀ a ∈ l, ∃ b ∈ m, R a b := by
  induction related with
  | nil => simp
  | cons head _ ih =>
    intro a member
    rcases List.mem_cons.mp member with rfl | member
    · exact ⟨_, List.mem_cons_self, head⟩
    · obtain ⟨b, among, here⟩ := ih a member
      exact ⟨b, List.mem_cons_of_mem _ among, here⟩

theorem origin_of_mapM {f : α → Except ε β} {l : List α} {mapped : List β} (done : l.mapM f = .ok mapped) {b : β}
    (member : b ∈ mapped) : ∃ a ∈ l, f a = .ok b :=
  forall₂_left (mapM_eq_ok.mp done).flip b member

end Fallible
