import MikuServer.Framework.Loop
import MikuServer.Proof.Lookups

/-!
# Who deletes a handler

Any calls on a chain, and its destructor after them. `Handlers` are what the calls
leave registered, and every call returns what they say (`answers_right`).

`ReleaseCommand` and `ReleaseAllCommand` delete a handler only where it is `NULL`,
so they delete none (`deleteCommand_self`), and one that was registered is never
deleted (`ownsHandlers_iff`).
-/

namespace Miku.Common.CommandChain

inductive Call
  | register (commandIndex : Int) (commandClass : CommandPtr)
  | get (commandIndex : Int)
  | release (commandIndex : Int)
  | releaseAll
  deriving DecidableEq

/-- What a call returns. -/
inductive Answer
  | registered (ok : Bool)
  | command (commandClass : Option CommandPtr)
  | released
  deriving DecidableEq

def call (self : CommandChain) : Call → Answer × CommandChain
  | .register commandIndex commandClass =>
    let (ok, self) := self.registerCommand commandIndex (some commandClass)
    (.registered ok, self)
  | .get commandIndex =>
    let (command, self) := self.getCommand commandIndex
    (.command command, self)
  | .release commandIndex => (.released, self.releaseCommand commandIndex)
  | .releaseAll => (.released, self.releaseAllCommand)

/-! ## What is registered -/

/-- The handler that was registered under an index and is not released. -/
def Handlers : Type := Int → Option CommandPtr

namespace Handlers

def none : Handlers := fun _ => Option.none

def set (handlers : Handlers) (commandIndex : Int) (command : Option CommandPtr) : Handlers := fun k =>
  if commandIndex = k then command else handlers k

def call (handlers : Handlers) : Call → Handlers
  | .register commandIndex commandClass =>
    if (handlers commandIndex).isNone then handlers.set commandIndex (some commandClass) else handlers
  | .get _ => handlers
  | .release commandIndex => handlers.set commandIndex Option.none
  | .releaseAll => none

/-- What a call should return. -/
def answer (handlers : Handlers) : Call → Answer
  | .register commandIndex _ => .registered (handlers commandIndex).isNone
  | .get commandIndex => .command (handlers commandIndex)
  | .release _ | .releaseAll => .released

end Handlers

/-- A chain, what is registered in it, and the handlers that it took. -/
structure History where
  chain : CommandChain
  handlers : Handlers
  accepted : List CommandPtr

/-- The handler that a call took, if it returned `true`. -/
def Call.accepted : Call → Answer → List CommandPtr
  | .register _ commandClass, .registered true => [commandClass]
  | _, _ => []

namespace History

def start : History := ⟨.new, .none, []⟩

def step (s : History) (c : Call) : History :=
  ⟨(s.chain.call c).2, s.handlers.call c, s.accepted ++ c.accepted (s.chain.call c).1⟩

def after (calls : List Call) : History := calls.foldl step start

/-- No handler that is registered has been deleted. -/
def Kept (s : History) : Prop := ∀ k command, s.handlers k = some command → command ∉ s.chain.deleted

end History

open History

/-- Every call returns what it should, no handler is deleted while it is registered, and after the
destructor each that was taken has been deleted once. -/
structure OwnsHandlers (calls : List Call) : Prop where
  answers : ∀ x ∈ runSteps (fun s c => some (step s c)) start calls, (x.1.chain.call x.2).1 = x.1.handlers.answer x.2
  kept : Always (fun s c => some (step s c)) Kept start calls
  freed : ∀ command ∈ (after calls).accepted, (after calls).chain.destructor.deleted.count command = 1

/-! ## Nothing is deleted -/

theorem deleteCommand_self (self : CommandChain) (command : Option CommandPtr) : self.deleteCommand command = self := by
  cases command <;> rfl

theorem foldl_deleteCommand (self : CommandChain) (commands : List (Option CommandPtr)) :
    commands.foldl deleteCommand self = self := by
  induction commands with
  | nil => rfl
  | cons command commands ih => rw [List.foldl_cons, deleteCommand_self, ih]

theorem releaseCommand_eq (self : CommandChain) (commandIndex : Int) : self.releaseCommand commandIndex =
    { self with commandChain := (self.commandChain.subscript commandIndex none).erase commandIndex } := by
  rw [releaseCommand]
  simp only [deleteCommand_self]

theorem releaseAllCommand_eq (self : CommandChain) :
    self.releaseAllCommand = { self with commandChain := .empty } := by
  rw [releaseAllCommand, foldl_deleteCommand]

/-- The handlers are the pointers of the map, each was taken, and none has been deleted. -/
structure Inv (s : History) : Prop where
  ptr : ∀ k, s.chain.commandChain.ptr k = s.handlers k
  deleted : s.chain.deleted = []
  taken : ∀ k command, s.handlers k = some command → command ∈ s.accepted

theorem start_inv : Inv start where
  ptr := StdMap.ptr_empty
  deleted := rfl
  taken _ _ h := by cases h

variable {s : History}

theorem Inv.answer (hs : Inv s) (c : Call) : (s.chain.call c).1 = s.handlers.answer c := by
  cases c with
  | register i command =>
    rw [call, registerCommand, Handlers.answer, ← hs.ptr]
    cases s.chain.commandChain.ptr i <;> rfl
  | get i => rw [call, getCommand, Handlers.answer, hs.ptr]
  | release i => rfl
  | releaseAll => rfl

theorem step_register_of_none (hs : Inv s) {i : Int} (h : s.handlers i = none) (command : CommandPtr) :
    step s (.register i command) = ⟨{ s.chain with commandChain := s.chain.commandChain.assign i (some command) },
      s.handlers.set i (some command), s.accepted ++ [command]⟩ := by
  rw [step, call, registerCommand, Handlers.call, hs.ptr, h]
  simp only [StdMap.assign_subscript]
  rfl

theorem step_register_of_some (hs : Inv s) {i : Int} {command' : CommandPtr} (h : s.handlers i = some command')
    (command : CommandPtr) : step s (.register i command) = s := by
  have hptr : s.chain.commandChain.ptr i = some command' := (hs.ptr i).trans h
  rw [step, call, registerCommand, Handlers.call, hptr, h, StdMap.subscript_of_ptr hptr]
  simp only [Call.accepted, List.append_nil]
  rfl

theorem Inv.step (hs : Inv s) (c : Call) : Inv (step s c) := by
  cases c with
  | register i command =>
    rcases hi : s.handlers i with _ | command'
    · rw [step_register_of_none hs hi]
      refine ⟨fun k => ?_, hs.deleted, fun k p hk => ?_⟩
      · dsimp only
        rw [StdMap.ptr_assign, Handlers.set, hs.ptr]
      · simp only [Handlers.set] at hk
        rw [List.mem_append, List.mem_singleton]
        split at hk
        · exact .inr (Option.some_inj.mp hk).symm
        · exact .inl (hs.taken k p hk)
    · rw [step_register_of_some hs hi]
      exact hs
  | get i =>
    refine ⟨fun k => ?_, hs.deleted, fun k p hk => List.mem_append_left _ (hs.taken k p hk)⟩
    exact (StdMap.ptr_subscript ..).trans (hs.ptr k)
  | release i =>
    refine ⟨fun k => ?_, ?_, fun k p hk => List.mem_append_left _ ?_⟩
    · show (s.chain.releaseCommand i).commandChain.ptr k = s.handlers.set i none k
      rw [releaseCommand_eq, StdMap.ptr_erase, StdMap.ptr_subscript, hs.ptr, Handlers.set]
    · show (s.chain.releaseCommand i).deleted = []
      rw [releaseCommand_eq]
      exact hs.deleted
    · replace hk : s.handlers.set i none k = some p := hk
      rw [Handlers.set] at hk
      split at hk
      · cases hk
      · exact hs.taken k p hk
  | releaseAll =>
    refine ⟨fun k => ?_, ?_, fun k p hk => by cases hk⟩
    · show s.chain.releaseAllCommand.commandChain.ptr k = none
      rw [releaseAllCommand_eq]
      exact StdMap.ptr_empty k
    · show s.chain.releaseAllCommand.deleted = []
      rw [releaseAllCommand_eq]
      exact hs.deleted

theorem Inv.kept (hs : Inv s) : Kept s := fun _ _ _ => by
  rw [hs.deleted]
  exact List.not_mem_nil

/-! ## Runs -/

theorem answers_right (calls : List Call) : ∀ x ∈ runSteps (fun s c => some (step s c)) start calls,
    (x.1.chain.call x.2).1 = x.1.handlers.answer x.2 := by
  refine runSteps_inv (I := Inv) (C := fun _ _ => True) (fun s c s' hs _ h => ?_) (fun s c hs _ => hs.answer c) start_inv
    fun _ _ => trivial
  cases h
  exact hs.step c

theorem after_inv (calls : List Call) : Inv (after calls) :=
  List.foldlRecOn (motive := Inv) calls step start_inv fun _ hs c _ => hs.step c

theorem always_kept (calls : List Call) : Always (fun s c => some (step s c)) Kept start calls :=
  always_inv (fun s c hs => ⟨step s c, rfl, Inv.step hs c⟩) (fun _ => Inv.kept) calls start_inv

/-- The destructor deletes nothing. -/
theorem destructor_deleted (calls : List Call) : (after calls).chain.destructor.deleted = [] := by
  rw [destructor, releaseAllCommand_eq]
  exact (after_inv calls).deleted

theorem accepted_of_register (hs : Inv s) (i : Int) (command : CommandPtr) :
    (step s (.register i command)).accepted ≠ [] := by
  rcases hi : s.handlers i with _ | command'
  · rw [step_register_of_none hs hi]
    exact List.append_ne_nil_of_right_ne_nil _ (List.cons_ne_nil command [])
  · rw [step_register_of_some hs hi]
    exact List.ne_nil_of_mem (hs.taken i command' hi)

theorem step_accepted_of_not_register {c : Call} (hc : ∀ i command, c ≠ .register i command) :
    (step s c).accepted = s.accepted := by
  cases c with
  | register i command => exact absurd rfl (hc i command)
  | get | release | releaseAll => exact List.append_nil _

/-- A handler is taken as soon as one is registered. -/
theorem accepted_eq_nil_iff (calls : List Call) :
    (after calls).accepted = [] ↔ ∀ i command, Call.register i command ∉ calls := by
  induction calls using List.reverseRecOn with
  | nil => exact iff_of_true rfl fun _ _ => List.not_mem_nil
  | append_singleton calls c ih =>
    have hstep : after (calls ++ [c]) = step (after calls) c := List.foldl_concat ..
    simp only [hstep, List.mem_append, List.mem_singleton, not_or, forall_and, ← ih]
    by_cases hc : ∀ i command, c ≠ .register i command
    · rw [step_accepted_of_not_register hc]
      exact (and_iff_left fun i command e => hc i command e.symm).symm
    · push Not at hc
      obtain ⟨i, command, rfl⟩ := hc
      refine iff_of_false (accepted_of_register (after_inv calls) i command) fun h => ?_
      exact h.2 i command rfl

/-- One that was taken is never freed. -/
theorem OwnsHandlers.accepted_eq_nil {calls : List Call} (h : OwnsHandlers calls) : (after calls).accepted = [] := by
  refine List.eq_nil_iff_forall_not_mem.mpr fun command hc => ?_
  have hone := h.freed command hc
  rw [destructor_deleted, List.count_nil] at hone
  cases hone

/-- The handlers are owned exactly if there are none. -/
theorem ownsHandlers_iff (calls : List Call) : OwnsHandlers calls ↔ ∀ i command, Call.register i command ∉ calls := by
  rw [← accepted_eq_nil_iff]
  refine ⟨OwnsHandlers.accepted_eq_nil, fun h => ⟨answers_right calls, always_kept calls, fun command hc => ?_⟩⟩
  rw [h] at hc
  cases hc

/-- One handler, and the destructor. -/
theorem not_ownsHandlers_one : ¬OwnsHandlers [.register 1 5] := by
  intro h
  exact (accepted_eq_nil_iff _).mp h.accepted_eq_nil 1 5 List.mem_cons_self

end Miku.Common.CommandChain
