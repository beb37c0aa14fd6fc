import MikuServer.Impl.ProcessorThreads

/-!
# Which threads are created and joined

`tmp_ret` is true where `pthread_create` fails, so the loop of `StartProcessor`
ends with the first thread that is created (`length_created_createLoop`), and
`StopProcessor` joins as many handles as were asked for. `startsAll_iff` says
when these are the same threads.
-/

namespace Miku

/-- The thread that a call created. -/
def ThreadCall.created : ThreadCall → Option Thread
  | .pthreadCreate i ret => if ret = 0 then some i else none
  | _ => none

/-- The handle that a call joined. -/
def ThreadCall.joined : ThreadCall → Option (Option Thread)
  | .pthreadJoin threadId => some threadId
  | _ => none

namespace ProcessorThreads

/-- The threads that were created. -/
def created (self : ProcessorThreads) : List Thread := self.calls.filterMap ThreadCall.created

/-- The handles that were joined. -/
def joined (self : ProcessorThreads) : List (Option Thread) := self.calls.filterMap ThreadCall.joined

/-- `StartProcessor` returns true only if it has created as many threads as it was asked for, and
`StopProcessor` joins each of the threads that were created once, and nothing else. -/
def StartsAll (start : (Nat → Int) → ProcessorThreads → Int → Bool × ProcessorThreads) (create : Nat → Int)
    (threadCount : Int) : Prop :=
  let started := start create new threadCount
  (started.1 = true → started.2.created.length = threadCount) ∧
    started.2.stopThreads.joined.Perm (started.2.created.map some)

instance (start : (Nat → Int) → ProcessorThreads → Int → Bool × ProcessorThreads) (create : Nat → Int)
    (threadCount : Int) : Decidable (StartsAll start create threadCount) :=
  inferInstanceAs (Decidable ((_ → _) ∧ _))

variable {after : List ThreadCall} {create : Nat → Int}

theorem created_pthreadCreate (self : ProcessorThreads) (i : Nat) (ret : Int) :
    (self.pthreadCreate i ret).created = self.created ++ if ret = 0 then [i] else [] := by
  by_cases h : ret = 0 <;> simp [created, pthreadCreate, ThreadCall.created, h]

/-- The loop ends with the first thread that it creates. -/
theorem length_created_createLoop (left i : Nat) (self : ProcessorThreads) :
    (createLoop create left i self).created.length ≤ self.created.length + 1 := by
  induction left generalizing i self with
  | zero => exact Nat.le_succ _
  | succ left ih =>
    have hc := created_pthreadCreate self i (create i)
    rw [createLoop]
    by_cases h : create i = 0
    · -- The thread is created, and `tmp_ret` is false.
      rw [decide_eq_false (not_not_intro h), Bool.not_false, if_pos rfl, hc, if_pos h, List.length_append]
      rfl
    · rw [decide_eq_true h, Bool.not_true, if_neg Bool.false_ne_true]
      rw [if_neg h, List.append_nil] at hc
      have hnext := ih (i + 1) (self.pthreadCreate i (create i))
      rwa [hc] at hnext

/-- What is called after the loop creates and joins no thread. -/
def Harmless (after : List ThreadCall) : Prop :=
  ∀ c ∈ after, c.created = none ∧ c.joined = none

theorem created_append (ha : Harmless after) (self : ProcessorThreads) :
    created { self with calls := self.calls ++ after } = self.created := by
  have hnil : after.filterMap ThreadCall.created = [] := List.filterMap_eq_nil_iff.mpr fun c hc => (ha c hc).1
  rw [created, List.filterMap_append, hnil, List.append_nil]
  rfl

/-- At most one thread is created. -/
theorem length_created_startThreads (ha : Harmless after) (threadCount : Int) :
    (startThreads after create new threadCount).2.created.length ≤ 1 := by
  rw [startThreads]
  split
  · exact Nat.zero_le 1
  · dsimp only
    rw [created_append ha]
    exact length_created_createLoop ..

/-- One thread that is asked for and created is joined. -/
theorem startsAll_one (ha : Harmless after) (hc : create 0 = 0) : StartsAll (startThreads after) create 1 := by
  have hjoin : after.filterMap ThreadCall.joined = [] := List.filterMap_eq_nil_iff.mpr fun c hc => (ha c hc).2
  have he : startThreads after create new 1 = (true, ⟨true, 1, [some 0], [.pthreadCreate 0 0] ++ after⟩) := by
    simp [startThreads, createLoop, pthreadCreate, hc, new]
  have hcreated : (startThreads after create new 1).2.created = [0] := by
    rw [he]
    exact created_append ha ⟨true, 1, [some 0], [.pthreadCreate 0 0]⟩
  have hjoined : (startThreads after create new 1).2.stopThreads.joined = [some 0] := by
    rw [he, joined, stopThreads, List.filterMap_append, List.filterMap_append, List.filterMap_append, hjoin]
    rfl
  refine ⟨fun _ => ?_, ?_⟩
  · rw [hcreated]
    rfl
  · rw [hcreated, hjoined]
    exact List.Perm.refl _

/-- One thread that is asked for and not created. -/
theorem created_one (ha : Harmless after) (hc : create 0 ≠ 0) : (startThreads after create new 1).2.created = [] := by
  have he : startThreads after create new 1 = (true, ⟨true, 1, [none], [.pthreadCreate 0 (create 0)] ++ after⟩) := by
    simp [startThreads, createLoop, pthreadCreate, hc, new]
  rw [he]
  refine (created_append ha ⟨true, 1, [none], [.pthreadCreate 0 (create 0)]⟩).trans ?_
  have hnone : ThreadCall.created (.pthreadCreate 0 (create 0)) = none := if_neg hc
  exact List.filterMap_cons_none hnone

theorem startThreads_startsAll_iff (ha : Harmless after) {threadCount : Int} (hn : 1 ≤ threadCount) :
    StartsAll (startThreads after) create threadCount ↔ threadCount = 1 ∧ create 0 = 0 := by
  constructor
  · rintro ⟨hlen, -⟩
    have hret : (startThreads after create new threadCount).1 = true := by
      rw [startThreads, if_neg (by omega)]
    have hcount := hlen hret
    have hle : _ ≤ _ := @length_created_startThreads after create ha threadCount
    have hone : threadCount = 1 := by omega
    refine ⟨hone, ?_⟩
    by_contra h
    rw [hone, created_one ha h] at hcount
    exact absurd hcount (by decide)
  · rintro ⟨rfl, hc⟩
    exact startsAll_one ha hc

/-- The four `StartProcessor`s. -/
def startProcessors : List ((Nat → Int) → ProcessorThreads → Int → Bool × ProcessorThreads) :=
  [RoomServer.CenterServerProcessor.startProcessor, RoomServer.DirectorServerProcessor.startProcessor,
    CenterServer.RoomServerProcessor.startProcessor, GateServer.RoomServerProcessor.startProcessor]

/-- Each of the four starts what it is asked for, and its `StopProcessor` joins that, exactly if it is asked
for one thread and this is created. -/
theorem startsAll_iff {threadCount : Int} (hn : 1 ≤ threadCount) (create : Nat → Int) :
    ∀ start ∈ startProcessors, StartsAll start create threadCount ↔ threadCount = 1 ∧ create 0 = 0 := by
  have hnone : Harmless [] := fun c hc => absurd hc List.not_mem_nil
  have hrq : Harmless [.sendConnectDsRQ] := fun c hc => List.mem_singleton.mp hc ▸ ⟨rfl, rfl⟩
  intro start hs
  simp only [startProcessors, List.mem_cons, List.not_mem_nil, or_false] at hs
  rcases hs with rfl | rfl | rfl | rfl
  · exact startThreads_startsAll_iff hnone hn
  · exact startThreads_startsAll_iff hrq hn
  · exact startThreads_startsAll_iff hnone hn
  · exact startThreads_startsAll_iff hnone hn

theorem startsAll_iff_two : StartsAll RoomServer.CenterServerProcessor.startProcessor (fun _ => 0) 2 ↔
    (2 : Int) = 1 ∧ (0 : Int) = 0 :=
  startsAll_iff (by decide) (fun _ => 0) _ List.mem_cons_self

/-- Two threads are asked for, and `pthread_create` never fails. -/
theorem not_startsAll_two :
    (RoomServer.CenterServerProcessor.startProcessor (fun _ => 0) new 2).1 = true ∧
      (RoomServer.CenterServerProcessor.startProcessor (fun _ => 0) new 2).2.created = [0] ∧
      (RoomServer.CenterServerProcessor.startProcessor (fun _ => 0) new 2).2.stopThreads.joined = [some 0, none] ∧
      ¬ StartsAll RoomServer.CenterServerProcessor.startProcessor (fun _ => 0) 2 := by
  decide

end ProcessorThreads

end Miku
