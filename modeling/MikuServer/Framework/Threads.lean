import Mathlib.Data.Multiset.UnionInter
import Mathlib.Logic.Relation
import MikuServer.Framework.Act
import MikuServer.Framework.Loop

/-!
# Threads

Threads that share a state. In a turn (`step`), one thread runs an action on it
and goes on with what the action returns; `step_inv` is the rule for what a turn
keeps.

`Owned pool hand` says that nothing is twice in a pool and in the hands of the
threads. `Owned.step` is its rule: a turn in which a thread and the pool
exchange what they have keeps it.

`Deadlock waits` is a cycle of threads each of which waits for the next.
-/

namespace Miku

/-- Threads, each with what it has to itself, and the state they share. -/
structure Threads (ι σ τ : Type) where
  shared : σ
  thread : ι → τ

namespace Threads

variable {ι σ τ κ : Type} [DecidableEq ι]

/-- A turn of the thread `e.1`. There is none if the thread is not at such a turn, or if
it waits for a lock, or faults. -/
def step (turn : τ → κ → Option (Act σ τ)) (s : Threads ι σ τ) (e : ι × κ) : Option (Threads ι σ τ) :=
  match turn (s.thread e.1) e.2 with
  | none => none
  | some x =>
    match x s.shared with
    | .done t shared => some ⟨shared, Function.update s.thread e.1 t⟩
    | .blocked _ => none
    | .fault => none

variable {turn : τ → κ → Option (Act σ τ)} {s s' : Threads ι σ τ} {i : ι} {k : κ} {x : Act σ τ} {t : τ} {shared : σ}

theorem step_of_done (hx : turn (s.thread i) k = some x) (h : x s.shared = .done t shared) :
    step turn s (i, k) = some ⟨shared, Function.update s.thread i t⟩ := by
  simp only [step, hx, h]

/-- What holds after the action of a turn, holds after the turn. -/
theorem step_inv {P : Threads ι σ τ → Prop} (hs : step turn s (i, k) = some s')
    (h : ∀ x, turn (s.thread i) k = some x →
      Act.wp x (fun t shared => P ⟨shared, Function.update s.thread i t⟩) (fun _ => True) True s.shared) : P s' := by
  rcases hx : turn (s.thread i) k with _ | x
  · simp [step, hx] at hs
  have hwp := h x hx
  rcases hd : x s.shared with ⟨t, shared⟩ | shared | _
  · rw [step_of_done hx hd] at hs
    cases hs
    exact (Act.wp_done hd).mp hwp
  · simp [step, hx, hd] at hs
  · simp [step, hx, hd] at hs

end Threads

/-! ## Owners -/

variable {ι α : Type}

/-- Nothing is twice in the pool and the hands together. -/
structure Owned (pool : Multiset α) (hand : ι → Multiset α) : Prop where
  pool_nodup : pool.Nodup
  nodup (i : ι) : (pool + hand i).Nodup
  apart {i j : ι} : i ≠ j → Disjoint (hand i) (hand j)

theorem owned_start {pool : Multiset α} (h : pool.Nodup) : Owned pool fun _ : ι => 0 where
  pool_nodup := h
  nodup _ := (Multiset.add_zero pool).symm ▸ h
  apart _ := Multiset.disjoint_left.mpr fun _ hx => absurd hx (Multiset.notMem_zero _)

variable [DecidableEq ι] {pool pool' : Multiset α} {hand : ι → Multiset α} {i : ι} {h' : Multiset α}

/-- The pool and the thread `i` have nothing that they had not before. -/
theorem Owned.step (h : Owned pool hand) (hle : pool' + h' ≤ pool + hand i) :
    Owned pool' (Function.update hand i h') := by
  have hnew := Multiset.nodup_of_le hle (h.nodup i)
  have hmem {a : α} (ha : a ∈ pool' + h') : a ∈ pool ∨ a ∈ hand i :=
    Multiset.mem_add.mp (Multiset.mem_of_le hle ha)
  have hother {j : ι} (hj : j ≠ i) {a : α} (ha : a ∈ pool' + h') : a ∉ hand j := fun haj =>
    (hmem ha).elim (fun hp => Multiset.disjoint_left.mp (Multiset.nodup_add.mp (h.nodup j)).2.2 hp haj)
      fun hi => Multiset.disjoint_left.mp (h.apart hj) haj hi
  refine ⟨(Multiset.nodup_add.mp hnew).1, fun j => ?_, fun {j k} hjk => ?_⟩
  · by_cases hj : j = i
    · subst hj
      rw [Function.update_self]
      exact hnew
    · rw [Function.update_of_ne hj]
      refine Multiset.nodup_add.mpr ⟨(Multiset.nodup_add.mp hnew).1, (Multiset.nodup_add.mp (h.nodup j)).2.1, ?_⟩
      exact Multiset.disjoint_left.mpr fun ha => hother hj (Multiset.mem_add.mpr (.inl ha))
  · by_cases hj : j = i
    · subst hj
      rw [Function.update_self, Function.update_of_ne (Ne.symm hjk)]
      exact Multiset.disjoint_left.mpr fun ha => hother (Ne.symm hjk) (Multiset.mem_add.mpr (.inr ha))
    · rw [Function.update_of_ne hj]
      by_cases hk : k = i
      · subst hk
        rw [Function.update_self]
        exact Multiset.disjoint_right.mpr fun ha => hother hj (Multiset.mem_add.mpr (.inr ha))
      · rw [Function.update_of_ne hk]
        exact h.apart hjk

/-! ## Waiting -/

/-- A cycle of threads, each of which waits for the next. -/
def Deadlock {ι : Type} (waits : ι → ι → Prop) : Prop := ∃ i, Relation.TransGen waits i i

/-- Two threads are in a cycle exactly if they wait for each other. -/
theorem deadlock_iff_two {ι : Type} {waits : ι → ι → Prop} {i j : ι} (irrefl : ∀ k, ¬ waits k k)
    (two : ∀ k, k = i ∨ k = j) : Deadlock waits ↔ waits i j ∧ waits j i := by
  have hnext {a b : ι} (ha : Relation.TransGen waits a b) : ∃ k, waits a k := by
    obtain ⟨k, hk, -⟩ := Relation.TransGen.head'_iff.mp ha
    exact ⟨k, hk⟩
  refine ⟨fun ⟨k, hk⟩ => ?_, fun ⟨h1, h2⟩ => ⟨i, .head h1 (.single h2)⟩⟩
  obtain ⟨l, hkl, hlk⟩ := Relation.TransGen.head'_iff.mp hk
  have hne : k ≠ l := fun he => irrefl k (he ▸ hkl)
  have hback : waits l k := by
    rcases Relation.reflTransGen_iff_eq_or_transGen.mp hlk with he | ht
    · exact absurd he hne
    · obtain ⟨m, hm⟩ := hnext ht
      have hml : m ≠ l := fun he => irrefl l (he ▸ hm)
      rcases two k with rfl | rfl <;> rcases two l with rfl | rfl <;> rcases two m with rfl | rfl <;>
        first | exact absurd rfl hne | exact absurd rfl hml | exact hm
  rcases two k with rfl | rfl <;> rcases two l with rfl | rfl
  · exact absurd rfl hne
  · exact ⟨hkl, hback⟩
  · exact ⟨hback, hkl⟩
  · exact absurd rfl hne

end Miku
