import MikuServer.Impl.DispatchThreads
import MikuServer.Proof.Dispatchers

/-!
# What the dispatchers' threads call

While a thread holds the lock of its dispatcher, nobody changes its vector
(`step_items`). So each turn calls the items that are loaded when it begins, each
once and in their order (`turn_calls`), and a client is not called any more, nor
in the middle of a call, from the moment that it is unloaded on
(`silent_after_unload`).
-/

namespace Miku.ZzmCommon.DispatchThreads

open Dispatchers

variable {s s' : DispatchThreads} {e : DispatchEvent} {i : Nat} {x : DispatchItem}

theorem items_eq (s : DispatchThreads) (i : Nat) : s.items i = (s.dispatchers.vects[i]?).getD [] := by
  rw [items, getElem?_vects]

theorem mem_items (h : x ∈ s.items i) : s.dispatchers.Loaded x := by
  rw [items_eq] at h
  rcases hi : s.dispatchers.vects[i]? with _ | vect <;> rw [hi] at h
  · cases h
  · exact ⟨vect, List.mem_of_getElem? hi, h⟩

/-- Only the vector whose lock is free is changed, by the item that is loaded or by one less. -/
theorem loadObject_items {client : Option ClientPtr} {value : ValuePtr}
    (h : s.step (.loadObject client value) = some s') : s'.place = s.place ∧ s'.called = s.called ∧
      ((client = none ∧ s' = s) ∨ ∃ c, client = some c ∧ s.place s.dispatchers.loadDispatcherID = .unlocked ∧
        ∃ vect, s.dispatchers.vects[s.dispatchers.loadDispatcherID]? = some vect ∧
          s'.dispatchers.vects = s.dispatchers.vects.set s.dispatchers.loadDispatcherID (vect ++ [⟨c, value⟩])) := by
  rw [step] at h
  split at h <;> rename_i hplace
  · obtain ⟨⟨ret, d⟩, hload, h⟩ := Option.bind_eq_some_iff.mp h
    cases h
    refine ⟨rfl, rfl, ?_⟩
    cases client with
    | none =>
      cases hload
      exact .inl ⟨rfl, rfl⟩
    | some c =>
      exact .inr ⟨c, rfl, hplace.resolve_left (Option.some_ne_none c), loadObject_inside hload⟩
  · cases h

theorem unLoadObject_items {client : Option ClientPtr} {value : ValuePtr}
    (h : s.step (.unLoadObject client value) = some s') : s'.place = s.place ∧ s'.called = s.called ∧
      (s' = s ∨ ∃ (j : Nat) (vect : List DispatchItem) (y : DispatchItem), s.place j = .unlocked ∧
        s.dispatchers.vects[j]? = some vect ∧ s'.dispatchers.vects = s.dispatchers.vects.set j (vect.erase y)) := by
  rw [step] at h
  split at h <;> rename_i hplace
  · obtain ⟨⟨ret, d⟩, hun, h⟩ := Option.bind_eq_some_iff.mp h
    cases h
    refine ⟨rfl, rfl, ?_⟩
    cases client with
    | none =>
      cases hun
      exact .inl rfl
    | some c =>
      by_cases hout : s.dispatchers.dispatchers.length ≤ s.dispatchers.dispatchID c ∨ s.dispatchers.dispatchID c < 0
      · rw [unLoadObject_outside hout] at hun
        cases hun
        exact .inl rfl
      · obtain ⟨vect, t, hi, hun', -, hv⟩ := unLoadObject_inside value hout
        cases hun'.symm.trans hun
        exact .inr ⟨_, vect, ⟨c, value⟩, hplace _ (if_neg hout), hi, hv⟩
  · cases h

/-- What a step makes of the vectors. -/
theorem step_dispatchers (h : s.step e = some s') : s'.dispatchers = s.dispatchers ∨
    (∃ c value vect, e = .loadObject (some c) value ∧ s.place s.dispatchers.loadDispatcherID = .unlocked ∧
      s.dispatchers.vects[s.dispatchers.loadDispatcherID]? = some vect ∧
      s'.dispatchers.vects = s.dispatchers.vects.set s.dispatchers.loadDispatcherID (vect ++ [⟨c, value⟩])) ∨
    ∃ (j : Nat) (vect : List DispatchItem) (y : DispatchItem), s.place j = .unlocked ∧
      s.dispatchers.vects[j]? = some vect ∧ s'.dispatchers.vects = s.dispatchers.vects.set j (vect.erase y) := by
  cases e with
  | loadObject client value =>
    obtain ⟨-, -, ⟨-, rfl⟩ | ⟨c, rfl, hplace, vect, hv⟩⟩ := loadObject_items h
    · exact .inl rfl
    · exact .inr (.inl ⟨c, value, vect, rfl, hplace, hv⟩)
  | unLoadObject client value =>
    obtain ⟨-, -, rfl | hv⟩ := unLoadObject_items h
    · exact .inl rfl
    · exact .inr (.inr hv)
  | lock j =>
    rw [step] at h
    split at h <;> cases h
    exact .inl rfl
  | checkBusiness j =>
    rw [step] at h
    split at h
    · obtain ⟨item, -, rfl⟩ := Option.map_eq_some_iff.mp h
      exact .inl rfl
    · cases h
  | checked j =>
    rw [step] at h
    split at h <;> cases h
    exact .inl rfl
  | unlock j =>
    rw [step] at h
    split at h <;> cases h
    exact .inl rfl

/-- As long as a thread holds its lock, its vector stays. -/
theorem step_items (h : s.step e = some s') (hp : s.place i ≠ .unlocked) : s'.items i = s.items i := by
  have hset {j : Nat} {w : List DispatchItem} (hj : s.place j = .unlocked)
      (hv : s'.dispatchers.vects = s.dispatchers.vects.set j w) : s'.items i = s.items i := by
    have hne : j ≠ i := by
      rintro rfl
      exact hp hj
    rw [items_eq, items_eq, hv, List.getElem?_set_ne hne]
  rcases step_dispatchers h with hd | ⟨c, value, vect, -, hplace, -, hv⟩ | ⟨j, vect, y, hplace, -, hv⟩
  · rw [items, items, hd]
  · exact hset hplace hv
  · exact hset hplace hv

/-- What a step makes of the thread of a dispatcher. -/
inductive Moves (s s' : DispatchThreads) (i : Nat) : DispatchEvent → Prop
  | stays {e : DispatchEvent} : s'.place i = s.place i → s'.called i = s.called i → e ≠ .unlock i → Moves s s' i e
  | lock : s.place i = .unlocked → s'.place i = .items 0 → s'.called i = s.called i → Moves s s' i (.lock i)
  | call {iter : Nat} {item : DispatchItem} : s.place i = .items iter → (s.items i)[iter]? = some item →
      s'.place i = .business iter item → s'.called i = s.called i ++ [item] → Moves s s' i (.checkBusiness i)
  | back {iter : Nat} {item : DispatchItem} : s.place i = .business iter item → s'.place i = .items (iter + 1) →
      s'.called i = s.called i → Moves s s' i (.checked i)
  | unlock : s.place i = .items (s.items i).length → s'.place i = .unlocked → s'.called i = s.called i →
      Moves s s' i (.unlock i)

theorem step_moves (h : s.step e = some s') (i : Nat) : Moves s s' i e := by
  have hother (j : Nat) (hne : j ≠ i) (p : CheckPlace) : (s.setPlace j p).place i = s.place i :=
    Function.update_of_ne (Ne.symm hne) ..
  cases e with
  | loadObject client value =>
    obtain ⟨h1, h2, -⟩ := loadObject_items h
    exact .stays (congrFun h1 i) (congrFun h2 i) nofun
  | unLoadObject client value =>
    obtain ⟨h1, h2, -⟩ := unLoadObject_items h
    exact .stays (congrFun h1 i) (congrFun h2 i) nofun
  | lock j =>
    rw [step] at h
    split at h <;> rename_i hj <;> cases h
    by_cases e : j = i
    · subst e
      exact .lock hj.2 (Function.update_self ..) rfl
    · exact .stays (hother j e _) rfl nofun
  | checkBusiness j =>
    rw [step] at h
    split at h <;> rename_i hj
    · obtain ⟨item, hitem, rfl⟩ := Option.map_eq_some_iff.mp h
      by_cases e : j = i
      · subst e
        exact .call hj hitem (Function.update_self ..) (Function.update_self ..)
      · exact .stays (hother j e _) (Function.update_of_ne (Ne.symm e) ..) nofun
    · cases h
  | checked j =>
    rw [step] at h
    split at h <;> rename_i hj
    · cases h
      by_cases e : j = i
      · subst e
        exact .back hj (Function.update_self ..) rfl
      · exact .stays (hother j e _) rfl nofun
    · cases h
  | unlock j =>
    rw [step] at h
    split at h <;> rename_i hj <;> cases h
    by_cases e : j = i
    · subst e
      exact .unlock hj (Function.update_self ..) rfl
    · refine .stays (hother j e _) rfl fun h => e ?_
      cases h
      rfl

/-! ## A turn -/

/-- In the middle of a turn over `items` that began after the calls `before`. -/
structure InTurn (items before : List DispatchItem) (i : Nat) (s : DispatchThreads) : Prop where
  same : s.items i = items
  place : (∃ iter, s.place i = .items iter ∧ iter ≤ items.length ∧ s.called i = before ++ items.take iter) ∨
    ∃ iter item, s.place i = .business iter item ∧ items[iter]? = some item ∧
      s.called i = before ++ items.take (iter + 1)

theorem InTurn.step {items before : List DispatchItem} (hi : InTurn items before i s) (he : e ≠ .unlock i)
    (h : s.step e = some s') : InTurn items before i s' := by
  have hlocked : s.place i ≠ .unlocked := by
    rcases hi.place with ⟨iter, hp, -⟩ | ⟨iter, item, hp, -⟩ <;> rw [hp] <;> nofun
  refine ⟨(step_items h hlocked).trans hi.same, ?_⟩
  cases step_moves h i with
  | stays hp hc =>
    rw [hp, hc]
    exact hi.place
  | lock hp => exact absurd hp hlocked
  | @call iter item hp hitem hp' hc =>
    rw [hi.same] at hitem
    rcases hi.place with ⟨iter', hp'', hle, hcalled⟩ | ⟨iter', item', hp'', -⟩
    · cases hp.symm.trans hp''
      refine .inr ⟨iter, item, hp', hitem, ?_⟩
      rw [hc, hcalled, List.append_assoc, List.take_add_one, hitem, Option.toList_some]
    · cases hp.symm.trans hp''
  | @back iter item hp hp' hc =>
    rcases hi.place with ⟨iter', hp'', -⟩ | ⟨iter', item', hp'', hitem, hcalled⟩
    · cases hp.symm.trans hp''
    · cases hp.symm.trans hp''
      refine .inl ⟨iter + 1, hp', (List.getElem?_eq_some_iff.mp hitem).1, hc.trans hcalled⟩
  | unlock => exact absurd rfl he

/-- A turn of a thread, whatever the other threads and the callers do meanwhile: it calls the items of its dispatcher,
each once and in their order, and there are the same items when it ends. -/
theorem turn_calls {s₁ s₂ s₃ : DispatchThreads} {es : List DispatchEvent} (hlock : s.step (.lock i) = some s₁)
    (hes : ∀ e ∈ es, e ≠ .unlock i) (hrun : es.foldlM step s₁ = some s₂) (hunlock : s₂.step (.unlock i) = some s₃) :
    s₃.called i = s.called i ++ s.items i ∧ s₃.items i = s.items i := by
  have hbegin : InTurn (s.items i) (s.called i) i s₁ := by
    rw [step] at hlock
    split at hlock <;> cases hlock
    exact ⟨rfl, .inl ⟨0, Function.update_self .., Nat.zero_le _, (List.append_nil _).symm⟩⟩
  have hend : InTurn (s.items i) (s.called i) i s₂ :=
    foldlM_inv_of_steps (C := fun _ e => e ≠ .unlock i) (fun _ _ _ hi he h => hi.step he h) hbegin
      (fun x hx => hes x.2 (snd_mem_of_runSteps hx)) hrun
  rw [step] at hunlock
  split at hunlock <;> rename_i hp <;> cases hunlock
  refine ⟨?_, hend.same⟩
  rcases hend.place with ⟨iter, hp', -, hcalled⟩ | ⟨iter, item, hp', -⟩
  · cases hp.symm.trans hp'
    rw [hend.same, List.take_length] at hcalled
    exact hcalled
  · cases hp.symm.trans hp'

/-- The thread of a dispatcher with two items. -/
theorem turn_calls_two : ∃ s s₁ s₂ s₃ : DispatchThreads,
    [.loadObject (some 1) 5, .loadObject (some 2) 5].foldlM step (start ⟨[.new 0], fun _ => -1⟩) = some s ∧
    s.step (.lock 0) = some s₁ ∧
    [.checkBusiness 0, .checked 0, .checkBusiness 0, .checked 0].foldlM step s₁ = some s₂ ∧
    s₂.step (.unlock 0) = some s₃ ∧ s.items 0 = [⟨1, 5⟩, ⟨2, 5⟩] ∧
    s₃.called 0 = s.called 0 ++ s.items 0 ∧ s₃.items 0 = s.items 0 := by
  refine ⟨_, _, _, _, rfl, rfl, rfl, rfl, rfl, ?_⟩
  exact turn_calls rfl (by decide : ∀ e ∈ [.checkBusiness 0, .checked 0, .checkBusiness 0, .checked 0],
    e ≠ DispatchEvent.unlock 0) rfl rfl

/-! ## After unloading -/

/-- A call that is going on is of an item that is loaded. -/
def Calls (s : DispatchThreads) : Prop :=
  ∀ i iter item, s.place i = .business iter item → (s.items i)[iter]? = some item

theorem Calls.step (hs : s.Calls) (h : s.step e = some s') : s'.Calls := by
  intro i iter item hp
  cases step_moves h i with
  | stays hp' =>
    rw [hp'] at hp
    rw [step_items h (by rw [hp]; nofun)]
    exact hs i iter item hp
  | lock _ hp' => cases hp.symm.trans hp'
  | call hp' hitem hp'' =>
    cases hp.symm.trans hp''
    rw [step_items h (by rw [hp']; nofun)]
    exact hitem
  | back _ hp' => cases hp.symm.trans hp'
  | unlock _ hp' => cases hp.symm.trans hp'

/-- Nothing but a load makes an item loaded. -/
theorem loaded_of_step (h : s.step e = some s') (hx : s'.dispatchers.Loaded x)
    (he : e ≠ .loadObject (some x.client) x.value) : s.dispatchers.Loaded x := by
  have hset {j : Nat} {vect w : List DispatchItem} (hj : s.dispatchers.vects[j]? = some vect)
      (hv : s'.dispatchers.vects = s.dispatchers.vects.set j w) (hw : x ∈ w → x ∈ vect) : s.dispatchers.Loaded x := by
    obtain ⟨u, hu, hxu⟩ := hx
    rw [hv] at hu
    rcases List.mem_or_eq_of_mem_set hu with hu | rfl
    · exact ⟨u, hu, hxu⟩
    · exact ⟨vect, List.mem_of_getElem? hj, hw hxu⟩
  rcases step_dispatchers h with hd | ⟨c, value, vect, rfl, -, hj, hv⟩ | ⟨j, vect, y, -, hj, hv⟩
  · rwa [hd] at hx
  · refine hset hj hv fun hw => (List.mem_append.mp hw).resolve_right fun hlast => he ?_
    cases List.mem_singleton.mp hlast
    rfl
  · exact hset hj hv List.mem_of_mem_erase

theorem calls_run {d : Dispatchers} {es : List DispatchEvent} (h : es.foldlM step (start d) = some s) : s.Calls :=
  foldlM_inv (fun _ _ _ hs h => Calls.step hs h) (fun _ _ _ h => by cases h) h

/-- No call of an item that is not loaded is begun. -/
theorem count_called (hx : ¬s.dispatchers.Loaded x) (h : s.step e = some s') (i : Nat) :
    (s'.called i).count x = (s.called i).count x := by
  cases step_moves h i with
  | stays _ hc => rw [hc]
  | lock _ _ hc => rw [hc]
  | @call iter item _ hitem _ hc =>
    have hne : item ≠ x := by
      rintro rfl
      exact hx (mem_items (List.mem_of_getElem? hitem))
    rw [hc, List.count_append, List.count_singleton, if_neg (by simpa using hne), Nat.add_zero]
  | back _ _ hc => rw [hc]
  | unlock _ _ hc => rw [hc]

/-- From the moment that an item is unloaded on, until it is loaded again: no thread is in a call of it, and none
calls it. -/
theorem silent_after_unload {d : Dispatchers} {es es' : List DispatchEvent} {t : DispatchThreads}
    (hs : es.foldlM step (start d) = some s) (hx : ¬s.dispatchers.Loaded x) (ht : es'.foldlM step s = some t)
    (hes : ∀ e ∈ es', e ≠ .loadObject (some x.client) x.value) (i : Nat) :
    (t.called i).count x = (s.called i).count x ∧ ∀ iter, t.place i ≠ .business iter x := by
  obtain ⟨hcalls, hnot, hcount⟩ : t.Calls ∧ ¬t.dispatchers.Loaded x ∧ (t.called i).count x = (s.called i).count x := by
    refine foldlM_inv_of_steps (C := fun _ e => e ≠ .loadObject (some x.client) x.value)
      (I := fun t => t.Calls ∧ ¬t.dispatchers.Loaded x ∧ (t.called i).count x = (s.called i).count x) ?_
      ⟨calls_run hs, hx, rfl⟩ (fun y hy => hes y.2 (snd_mem_of_runSteps hy)) ht
    rintro u e u' ⟨h1, h2, h3⟩ he h
    exact ⟨h1.step h, fun hl => h2 (loaded_of_step h hl he), (count_called h2 h i).trans h3⟩
  refine ⟨hcount, fun iter hp => hnot ?_⟩
  exact mem_items (List.mem_of_getElem? (hcalls i iter x hp))

/-- A client is loaded, called and unloaded. -/
def oneTurn : List DispatchEvent :=
  [.loadObject (some 1) 5, .lock 0, .checkBusiness 0, .checked 0, .unlock 0, .unLoadObject (some 1) 5]

/-- The thread goes on. -/
theorem silent_after_unload_one : ∃ s t : DispatchThreads,
    oneTurn.foldlM step (start ⟨[.new 0], fun _ => -1⟩) = some s ∧ ¬s.dispatchers.Loaded ⟨1, 5⟩ ∧
    [.lock 0, .unlock 0].foldlM step s = some t ∧ s.called 0 = [⟨1, 5⟩] ∧
    (t.called 0).count ⟨1, 5⟩ = (s.called 0).count ⟨1, 5⟩ ∧ ∀ iter, t.place 0 ≠ .business iter ⟨1, 5⟩ := by
  have hnot : ¬Loaded ⟨[.new 0], Function.update (fun _ => -1) 1 0⟩ ⟨1, 5⟩ := by
    rintro ⟨vect, hv, hx⟩
    obtain rfl := List.mem_singleton.mp hv
    cases hx
  have hs : oneTurn.foldlM step (start ⟨[.new 0], fun _ => -1⟩) = some _ := rfl
  refine ⟨_, _, rfl, hnot, rfl, rfl, ?_⟩
  exact silent_after_unload hs hnot rfl (by decide : ∀ e ∈ [.lock 0, .unlock 0],
    e ≠ DispatchEvent.loadObject (some 1) 5) 0

end Miku.ZzmCommon.DispatchThreads
