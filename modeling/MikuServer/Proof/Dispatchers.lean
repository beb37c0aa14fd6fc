import Mathlib.Data.List.Nodup
import MikuServer.Framework.Loop
import MikuServer.Impl.Dispatchers

/-!
# What is unloaded

`UnLoadObject` looks for an item only in the dispatcher that took the client's last
load, and returns `true` if it is not there. It removes an item that is loaded exactly
where it is there (`right_iff_found`). If a client is loaded only while none of
its items is, that is always so (`Together`).
-/

namespace Miku.ZzmCommon.Dispatchers

inductive Call
  | load (client : Option ClientPtr) (value : ValuePtr)
  | unLoad (client : Option ClientPtr) (value : ValuePtr)
  deriving DecidableEq

def step (self : Dispatchers) : Call → Option Dispatchers
  | .load client value => (self.loadObject client value).map Prod.snd
  | .unLoad client value => (self.unLoadObject client value).map Prod.snd

/-- The items of every dispatcher. -/
def vects (self : Dispatchers) : List (List DispatchItem) := self.dispatchers.map Dispatcher.outputvect

def Loaded (self : Dispatchers) (x : DispatchItem) : Prop := ∃ vect ∈ self.vects, x ∈ vect

/-- One occurrence of `x` is removed, and all other items stay where they are. -/
def RemovesOne (x : DispatchItem) (vects vects' : List (List DispatchItem)) : Prop :=
  ∃ i l₁ l₂, vects[i]? = some (l₁ ++ x :: l₂) ∧ vects' = vects.set i (l₁ ++ l₂)

/-- What the call returns and removes is right. -/
def Right (self : Dispatchers) : Call → Prop
  | .load _ _ => True
  | .unLoad client value => ∃ ret self', self.unLoadObject client value = some (ret, self') ∧
      (∀ c, client = some c → self.Loaded ⟨c, value⟩ → ret = true ∧ RemovesOne ⟨c, value⟩ self.vects self'.vects) ∧
      ((∀ c, client = some c → ¬self.Loaded ⟨c, value⟩) → self'.vects = self.vects)

/-- The dispatcher that the client remembers has the item. -/
def Remembered (self : Dispatchers) (x : DispatchItem) : Prop :=
  0 ≤ self.dispatchID x.client ∧ ∃ vect, self.vects[(self.dispatchID x.client).toNat]? = some vect ∧ x ∈ vect

/-- An item that is loaded and is to be unloaded is in the dispatcher that the client remembers. -/
def Found (self : Dispatchers) : Call → Prop
  | .unLoad (some client) value => self.Loaded ⟨client, value⟩ → self.Remembered ⟨client, value⟩
  | _ => True

variable {self self' : Dispatchers} {client : ClientPtr} {value : ValuePtr} {x : DispatchItem}

/-! ## Unloading -/

theorem length_vects (self : Dispatchers) : self.vects.length = self.dispatchers.length := List.length_map ..

theorem getElem?_vects (i : Nat) : self.vects[i]? = self.dispatchers[i]?.map Dispatcher.outputvect := List.getElem?_map ..

/-- The client remembers no dispatcher that is there. -/
theorem unLoadObject_outside (h : self.dispatchers.length ≤ self.dispatchID client ∨ self.dispatchID client < 0) :
    self.unLoadObject (some client) value = some (false, self) := if_pos h

/-- The first occurrence is erased from the vector of the dispatcher that the client remembers. -/
theorem unLoadObject_inside (value : ValuePtr)
    (h : ¬(self.dispatchers.length ≤ self.dispatchID client ∨ self.dispatchID client < 0)) :
    ∃ vect self', self.vects[(self.dispatchID client).toNat]? = some vect ∧
      self.unLoadObject (some client) value = some (true, self') ∧ self'.dispatchID = self.dispatchID ∧
      self'.vects = self.vects.set (self.dispatchID client).toNat (vect.erase ⟨client, value⟩) := by
  have hlt : (self.dispatchID client).toNat < self.dispatchers.length := by omega
  have hget := List.getElem?_eq_getElem hlt
  have hun : self.unLoadObject (some client) value = some (true, { self with
      dispatchers := self.dispatchers.set (self.dispatchID client).toNat
        (self.dispatchers[(self.dispatchID client).toNat].unloadSession client value).2 }) := by
    rw [unLoadObject, if_neg h, hget]
    rfl
  refine ⟨self.dispatchers[(self.dispatchID client).toNat].outputvect, _, ?_, hun, rfl, ?_⟩
  · rw [getElem?_vects, hget, Option.map_some]
  · simp only [vects, List.map_set]
    rfl

theorem removesOne_erase {vects : List (List DispatchItem)} {i : Nat} {vect : List DispatchItem}
    (hi : vects[i]? = some vect) (hx : x ∈ vect) : RemovesOne x vects (vects.set i (vect.erase x)) := by
  obtain ⟨l₁, l₂, -, h1, h2⟩ := List.exists_erase_eq hx
  refine ⟨i, l₁, l₂, ?_, ?_⟩
  · rw [hi, h1]
  · rw [h2]

/-- Something is removed. -/
theorem RemovesOne.ne {vects vects' : List (List DispatchItem)} (h : RemovesOne x vects vects') : vects' ≠ vects := by
  obtain ⟨i, l₁, l₂, h1, rfl⟩ := h
  intro h
  have hlt : i < vects.length := (List.getElem?_eq_some_iff.mp h1).1
  have heq : (vects.set i (l₁ ++ l₂))[i]? = some (l₁ ++ x :: l₂) := by rw [h, h1]
  rw [List.getElem?_set_self hlt, Option.some_inj] at heq
  have hlen := congrArg List.length heq
  simp only [List.length_append, List.length_cons] at hlen
  omega

theorem set_erase_of_not_mem {vects : List (List DispatchItem)} {i : Nat} {vect : List DispatchItem}
    (hi : vects[i]? = some vect) (hx : x ∉ vect) : vects.set i (vect.erase x) = vects := by
  obtain ⟨hlt, rfl⟩ := List.getElem?_eq_some_iff.mp hi
  rw [List.erase_of_not_mem hx, List.set_getElem_self]

theorem Remembered.loaded (h : self.Remembered x) : self.Loaded x := by
  obtain ⟨-, vect, hv, hx⟩ := h
  exact ⟨vect, List.mem_of_getElem? hv, hx⟩

/-- An item is removed where the client remembers it, and nothing elsewhere. -/
theorem unLoadObject_cases (self : Dispatchers) (client : ClientPtr) (value : ValuePtr) :
    ∃ ret self', self.unLoadObject (some client) value = some (ret, self') ∧ self'.dispatchID = self.dispatchID ∧
      ((self.Remembered ⟨client, value⟩ → ret = true ∧ RemovesOne ⟨client, value⟩ self.vects self'.vects) ∧
        (¬self.Remembered ⟨client, value⟩ → self'.vects = self.vects)) := by
  by_cases h : self.dispatchers.length ≤ self.dispatchID client ∨ self.dispatchID client < 0
  · refine ⟨false, self, unLoadObject_outside h, rfl, fun hr => ?_, fun _ => rfl⟩
    obtain ⟨h0, vect, hv, -⟩ := hr
    have hlt := (List.getElem?_eq_some_iff.mp hv).1
    rw [length_vects] at hlt
    dsimp only at h0 hlt
    omega
  · obtain ⟨vect, self', hv, hun, hid, hset⟩ := unLoadObject_inside value h
    refine ⟨true, self', hun, hid, fun ⟨_, vect', hv', hx⟩ => ⟨rfl, ?_⟩, fun hr => ?_⟩
    · cases hv.symm.trans hv'
      rw [hset]
      exact removesOne_erase hv hx
    · rw [hset]
      exact set_erase_of_not_mem hv fun hx => hr ⟨by dsimp only; omega, vect, hv, hx⟩

theorem right_iff_found (self : Dispatchers) (c : Call) : self.Right c ↔ self.Found c := by
  cases c with
  | load client value => exact Iff.rfl
  | unLoad client value =>
    cases client with
    | none => exact iff_of_true ⟨false, self, rfl, nofun, fun _ => rfl⟩ trivial
    | some client =>
      obtain ⟨ret, self', hun, -, hyes, hno⟩ := unLoadObject_cases self client value
      constructor
      · rintro ⟨ret', self'', hun', hl, -⟩ hloaded
        cases hun.symm.trans hun'
        by_contra hr
        exact (hl client rfl hloaded).2.ne (hno hr)
      · intro hf
        refine ⟨ret, self', hun, ?_, fun hnot => ?_⟩
        · rintro c ⟨⟩ hloaded
          exact hyes (hf hloaded)
        · exact hno fun hr => hnot client rfl hr.loaded

/-! ## Loading -/

/-- There is a dispatcher, and each has its place for its number. -/
structure Numbered (d : Dispatchers) : Prop where
  pos : 0 < d.dispatchers.length
  id : ∀ (i : Nat) (dispatcher : Dispatcher), d.dispatchers[i]? = some dispatcher → dispatcher.dispatcherID = i

theorem init_eq {uiCount : Nat} (h : new.init uiCount = some self) :
    ∃ n, 0 < n ∧ self = ⟨(List.range n).map .new, fun _ => -1⟩ := by
  simp only [init] at h
  generalize hc : (if 0 = uiCount then 1 else uiCount) = n at h
  have hpos : 0 < n := by
    rw [← hc]
    split <;> omega
  split at h <;> cases h
  exact ⟨n, hpos, rfl⟩

theorem init_numbered {uiCount : Nat} (h : new.init uiCount = some self) : Numbered self := by
  obtain ⟨n, hpos, rfl⟩ := init_eq h
  refine ⟨?_, fun i dispatcher hi => ?_⟩
  · rwa [List.length_map, List.length_range]
  · simp only [List.getElem?_map, Option.map_eq_some_iff] at hi
    obtain ⟨j, hj, rfl⟩ := hi
    obtain ⟨-, rfl⟩ := List.getElem?_eq_some_iff.mp hj
    exact List.getElem_range ..

theorem loadDispatcherID_lt (h : 0 < self.dispatchers.length) : self.loadDispatcherID < self.dispatchers.length := by
  rw [loadDispatcherID]
  refine List.foldlRecOn (motive := fun id => id < self.dispatchers.length) _ _ h fun id hid i hi => ?_
  rw [List.mem_range'_1] at hi
  split
  · omega
  · exact hid

/-- A dispatcher with other items. -/
theorem Numbered.set {i : Nat} (hn : Numbered self) (hi : i < self.dispatchers.length) (vect : List DispatchItem)
    (dispatchID : ClientPtr → Int) :
    Numbered ⟨self.dispatchers.set i { self.dispatchers[i] with outputvect := vect }, dispatchID⟩ := by
  refine ⟨?_, fun j d hj => ?_⟩
  · rw [List.length_set]
    exact hn.pos
  · by_cases e : i = j
    · subst e
      rw [List.getElem?_set_self hi] at hj
      cases hj
      exact hn.id i self.dispatchers[i] (List.getElem?_eq_getElem hi)
    · rw [List.getElem?_set_ne e] at hj
      exact hn.id j d hj

/-- A load that ends has put the item last in one of the vectors. -/
theorem loadObject_inside {r : Bool × Dispatchers} (h : self.loadObject (some client) value = some r) :
    ∃ vect, self.vects[self.loadDispatcherID]? = some vect ∧
      r.2.vects = self.vects.set self.loadDispatcherID (vect ++ [⟨client, value⟩]) := by
  obtain ⟨dispatcher, hget, h⟩ := Option.bind_eq_some_iff.mp h
  cases h
  refine ⟨dispatcher.outputvect, ?_, List.map_set ..⟩
  rw [getElem?_vects, hget, Option.map_some]

/-- The item is the last one of one dispatcher, which the client then remembers. -/
theorem loadObject_eq (hn : Numbered self) (client : ClientPtr) (value : ValuePtr) :
    ∃ i vect self', self.loadObject (some client) value = some (true, self') ∧ self.vects[i]? = some vect ∧
      self'.vects = self.vects.set i (vect ++ [⟨client, value⟩]) ∧
      self'.dispatchID = Function.update self.dispatchID client i ∧ Numbered self' := by
  have hlt := loadDispatcherID_lt hn.pos
  have hget := List.getElem?_eq_getElem hlt
  have hid := hn.id _ _ hget
  have hload : self.loadObject (some client) value = some (true, ⟨self.dispatchers.set self.loadDispatcherID
      (self.dispatchers[self.loadDispatcherID].loadSession client value),
      Function.update self.dispatchID client self.loadDispatcherID⟩) := by
    rw [loadObject]
    simp only [hget, Option.bind_eq_bind, Option.bind_some, hid]
  obtain ⟨vect, hi, hv⟩ := loadObject_inside hload
  exact ⟨_, vect, _, hload, hi, hv, rfl, hn.set hlt _ _⟩

theorem Numbered.step (hn : Numbered self) (c : Call) : ∃ self', self.step c = some self' ∧ Numbered self' := by
  cases c with
  | load client value =>
    cases client with
    | none => exact ⟨self, rfl, hn⟩
    | some client =>
      obtain ⟨i, vect, self', hload, -, -, -, hn'⟩ := loadObject_eq hn client value
      exact ⟨self', by rw [Dispatchers.step, hload]; rfl, hn'⟩
  | unLoad client value =>
    cases client with
    | none => exact ⟨self, rfl, hn⟩
    | some client =>
      by_cases h : self.dispatchers.length ≤ self.dispatchID client ∨ self.dispatchID client < 0
      · exact ⟨self, by rw [Dispatchers.step, unLoadObject_outside h]; rfl, hn⟩
      · have hlt : (self.dispatchID client).toNat < self.dispatchers.length := by omega
        refine ⟨_, by rw [Dispatchers.step, unLoadObject, if_neg h, List.getElem?_eq_getElem hlt]; rfl, ?_⟩
        exact hn.set hlt _ _

/-! ## Runs -/

/-- In every run each item that is loaded is unloaded as it should exactly if, whenever one is to be unloaded,
it is in the dispatcher that the client remembers; and every call has a value. -/
theorem unloads_iff (uiCount : Nat) (h : new.init uiCount = some self) (calls : List Call) :
    (∃ t, calls.foldlM step self = some t) ∧
      ((∀ x ∈ runSteps step self calls, Right x.1 x.2) ↔ ∀ x ∈ runSteps step self calls, Found x.1 x.2) := by
  refine ⟨?_, forall₂_congr fun x _ => right_iff_found x.1 x.2⟩
  obtain ⟨t, ht, -⟩ := run_inv (Q := fun _ => True) (fun s c hn _ => Numbered.step hn c) (fun _ _ => trivial)
    (init_numbered h)
  exact ⟨t, ht⟩

/-- Two dispatchers, and a client with two values of which the second is unloaded. -/
theorem unloads_iff_two :
    let d : Dispatchers := ⟨[.new 0, .new 1], fun _ => -1⟩
    let calls := [Call.load (some 1) 1, .load (some 1) 2, .unLoad (some 1) 2]
    (∃ t, calls.foldlM step d = some t) ∧
      ((∀ x ∈ runSteps step d calls, Right x.1 x.2) ↔ ∀ x ∈ runSteps step d calls, Found x.1 x.2) :=
  unloads_iff 2 rfl _

/-- The first of them: the second load has gone to the other dispatcher. -/
theorem not_unloads_two : ¬∀ x ∈ runSteps step ⟨[.new 0, .new 1], fun _ => -1⟩
    [Call.load (some 1) 1, .load (some 1) 2, .unLoad (some 1) 1], Right x.1 x.2 := by
  intro h
  have hlast : Right ⟨[⟨0, [⟨1, 1⟩]⟩, ⟨1, [⟨1, 2⟩]⟩], Function.update (Function.update (fun _ => -1) 1 0) 1 1⟩
      (.unLoad (some 1) 1) := h _ (.tail _ (.tail _ (.head _)))
  obtain ⟨-, vect, hv, hx⟩ := (right_iff_found _ _).mp hlast ⟨[⟨1, 1⟩], .head _, .head _⟩
  have hvect : vect = [⟨1, 2⟩] := (Option.some_inj.mp hv).symm
  rw [hvect] at hx
  exact absurd hx (by decide)

/-! ## Clients with one value -/

/-- Every item is in the dispatcher that its client remembers. -/
def Together (self : Dispatchers) : Prop :=
  ∀ (i : Nat) vect, self.vects[i]? = some vect → ∀ x ∈ vect, self.dispatchID x.client = i

/-- A client is loaded only while none of its items is. -/
def Fresh (self : Dispatchers) : Call → Prop
  | .load (some client) _ => ∀ x, self.Loaded x → x.client ≠ client
  | _ => True

theorem init_together {uiCount : Nat} (h : new.init uiCount = some self) : Together self := by
  obtain ⟨n, -, rfl⟩ := init_eq h
  intro i vect hi x hx
  simp only [vects, List.map_map, List.getElem?_map, Option.map_eq_some_iff] at hi
  obtain ⟨j, -, rfl⟩ := hi
  cases hx

theorem Together.found (ht : Together self) (c : Call) : Found self c := by
  cases c with
  | load client value => trivial
  | unLoad client value =>
    cases client with
    | none => trivial
    | some client =>
      rintro ⟨vect, hv, hx⟩
      obtain ⟨i, hi⟩ := List.mem_iff_getElem?.mp hv
      have hid : self.dispatchID client = i := ht i vect hi _ hx
      refine ⟨by dsimp only; omega, vect, ?_, hx⟩
      dsimp only
      rw [hid, Int.toNat_natCast, hi]

theorem Together.removed {vect : List DispatchItem} {i : Nat} (ht : Together self) (hi : self.vects[i]? = some vect)
    (hid : self'.dispatchID = self.dispatchID) (hv : self'.vects = self.vects.set i (vect.erase x)) :
    Together self' := by
  intro j w hj y hy
  rw [hid]
  rw [hv, List.getElem?_set] at hj
  split at hj
  · rename_i e
    subst e
    split at hj <;> cases hj
    exact ht i vect hi y (List.mem_of_mem_erase hy)
  · exact ht j w hj y hy

theorem Together.loaded {vect : List DispatchItem} {i : Nat} (ht : Together self) (hf : Fresh self (.load client value))
    (hi : self.vects[i]? = some vect) (hid : self'.dispatchID = Function.update self.dispatchID client i)
    (hv : self'.vects = self.vects.set i (vect ++ [⟨client, value⟩])) : Together self' := by
  intro j w hj y hy
  have hother (hl : self.Loaded y) : Function.update self.dispatchID client i y.client = self.dispatchID y.client :=
    Function.update_of_ne (hf y hl) ..
  rw [hid]
  rw [hv, List.getElem?_set] at hj
  split at hj
  · rename_i e
    subst e
    split at hj <;> cases hj
    rcases List.mem_append.mp hy with hy | hy
    · rw [hother ⟨vect, List.mem_of_getElem? hi, hy⟩]
      exact ht i vect hi y hy
    · rw [List.mem_singleton.mp hy]
      exact Function.update_self ..
  · rw [hother ⟨w, List.mem_of_getElem? hj, hy⟩]
    exact ht j w hj y hy

theorem Together.step {c : Call} (hn : Numbered self) (ht : Together self) (hf : Fresh self c)
    (h : self.step c = some self') : Together self' := by
  cases c with
  | load client value =>
    cases client with
    | none =>
      cases h
      exact ht
    | some client =>
      obtain ⟨i, vect, t, hload, hi, hv, hid, -⟩ := loadObject_eq hn client value
      rw [Dispatchers.step, hload] at h
      cases h
      exact ht.loaded hf hi hid hv
  | unLoad client value =>
    cases client with
    | none =>
      cases h
      exact ht
    | some client =>
      by_cases hout : self.dispatchers.length ≤ self.dispatchID client ∨ self.dispatchID client < 0
      · rw [Dispatchers.step, unLoadObject_outside hout] at h
        cases h
        exact ht
      · obtain ⟨vect, t, hi, hun, hid, hv⟩ := unLoadObject_inside value hout
        rw [Dispatchers.step, hun] at h
        cases h
        exact ht.removed hi hid hv

/-- Where no client is loaded while it has an item, everything is unloaded as it should. -/
theorem right_of_fresh {uiCount : Nat} (h : new.init uiCount = some self) {calls : List Call}
    (hf : ∀ x ∈ runSteps step self calls, Fresh x.1 x.2) : ∀ x ∈ runSteps step self calls, Right x.1 x.2 := by
  refine runSteps_inv (I := fun s => Numbered s ∧ Together s) (C := Fresh) (fun s c s' ⟨hn, ht⟩ hfr he => ?_)
    (fun s c hs _ => (right_iff_found s c).mpr (hs.2.found c)) ⟨init_numbered h, init_together h⟩ hf
  obtain ⟨t, hstep, hn'⟩ := hn.step c
  cases hstep.symm.trans he
  exact ⟨hn', ht.step hn hfr he⟩

end Miku.ZzmCommon.Dispatchers
