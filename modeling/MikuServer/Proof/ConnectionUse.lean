import MikuServer.Proof.ConnectionThreads

/-!
# Reading from users and writing to them

A thread of a `RoomServerProcessor` writes to the `user_sock` that the object
has at the time. This is the socket that was accepted with the packet's key as
long as this socket is open (`delivered_iff`). A worker may have data of a
connection as soon as `bufferevent_enable` is called, and the object is
registered after that (`registered_iff`).
-/

namespace Miku.Common.Connections

variable {ι : Type} {t t' : Connections ι} {x : ConnectionEvent ι}

/-- Every write for a key went to the connection that was accepted with it. -/
def Delivered (t : Connections ι) : Prop := ∀ w ∈ t.written, w.2 = .connection w.1

/-- The connection that was accepted with the key is open. -/
def IsOpen (t : Connections ι) (h : Int) : Prop := ∃ s, t.files s = some (.connection h)

/-- At a write the connection of the key is still open, or the descriptor in the object is not. -/
def WriteAllowed (t : Connections ι) : ConnectionEvent ι → Prop
  | .write i => ∀ h p, t.reader i = some (h, p) → IsOpen t h ∨ t.files (t.u p).userSock = none
  | _ => True

/-- What is written for the key of a connection that is open goes to it. -/
theorem Inv.file_of_reader (hi : Inv t) {i : ι} {h : Int} {p : UserPtr} (hr : t.reader i = some (h, p))
    (ho : IsOpen t h) : t.files (t.u p).userSock = some (.connection h) := by
  obtain ⟨s, hs⟩ := ho
  obtain ⟨hopen, hkey⟩ := hi.found (.inr ⟨i, hr⟩) hs
  rw [(hi.opened hopen).1, hkey]

/-- An object whose reading is enabled is registered, but for the one whose `AddUserInfo` is to come. -/
theorem Inv.registered_of_reading (hi : Inv t) {p : UserPtr} (hr : (t.u p).reading = true) :
    Registered t p ↔ t.accepting ≠ .enabled p := by
  refine ⟨fun hreg ha => ?_, fun hn => (hi.registered hr).resolve_left hn⟩
  have hkey : (t.u p).hashKey = t.base := (hi.at_enabled ha).1 (.inl (.inl hr))
  have hlt := (hi.foundKey (.inl hreg.1)).2 (by rw [ha]; trivial)
  omega

variable [DecidableEq ι]

theorem written_step (h : t.step x = some t') (hx : ∀ i, x ≠ .write i) : t'.written = t.written := by
  cases x with
  | accept s uip uport =>
    obtain ⟨-, h⟩ := Option.ite_none_right_eq_some.mp h
    rw [accept] at h
    split at h
    · cases h
    · split at h
      · obtain ⟨server, -, h⟩ := Option.bind_eq_some_iff.mp h
        cases h
        rfl
      · split at h <;> cases h <;> rfl
  | acceptAction =>
    have h : t.acceptAction = some t' := h
    rw [acceptAction] at h
    split at h
    · cases h
    · split at h <;> cases h <;> rfl
    · obtain ⟨_, -, h⟩ := Option.bind_eq_some_iff.mp h
      cases h
      rfl
    all_goals
      cases h
      rfl
  | dealWithReadData p =>
    obtain ⟨-, h⟩ := Option.ite_none_right_eq_some.mp h
    cases h
    rfl
  | errorRead p =>
    obtain ⟨-, h⟩ := Option.ite_none_right_eq_some.mp h
    cases h
    rw [errorRead]
    dsimp only
    split <;> rfl
  | releaseUserInfo p =>
    obtain ⟨-, h⟩ := Option.ite_none_right_eq_some.mp h
    cases h
    rfl
  | readAction h' =>
    cases h
    rfl
  | lookUp i h' =>
    obtain ⟨-, h⟩ := Option.ite_none_right_eq_some.mp h
    cases h
    rfl
  | write i => exact absurd rfl (hx i)

theorem delivered_write (hi : Inv t) {i : ι} {h : Int} {p : UserPtr} (hr : t.reader i = some (h, p)) :
    Delivered (t.write i h p) ↔ Delivered t ∧ (IsOpen t h ∨ t.files (t.u p).userSock = none) := by
  have hwritten : (t.write i h p).written =
      t.written ++ ((t.files (t.u p).userSock).map (h, ·)).toList := rfl
  simp only [Delivered, hwritten, List.forall_mem_append]
  refine and_congr_right fun _ => ⟨fun hw => ?_, fun hw w hm => ?_⟩
  · refine or_iff_not_imp_right.mpr fun hf => ?_
    obtain ⟨f, hf⟩ := Option.ne_none_iff_exists'.mp hf
    have hw : f = .connection h := hw (h, f) (by rw [hf]; exact List.mem_cons_self)
    exact ⟨_, hw ▸ hf⟩
  · rcases hw with ho | hn
    · rw [hi.file_of_reader hr ho] at hm
      rw [List.mem_singleton.mp hm]
    · rw [hn] at hm
      cases hm

theorem delivered_step (hi : Inv t) (h : t.step x = some t') : Delivered t' ↔ Delivered t ∧ WriteAllowed t x := by
  by_cases hx : ∃ i, x = .write i
  · obtain ⟨i, rfl⟩ := hx
    rw [step] at h
    split at h <;> rename_i hr
    · cases h
    · cases h
      rw [delivered_write hi hr]
      simp [WriteAllowed, hr]
  · have hallowed : WriteAllowed t x := by
      cases x
      case write i => exact absurd ⟨i, rfl⟩ hx
      all_goals trivial
    rw [Delivered, Delivered, written_step h fun i he => hx ⟨i, he⟩, and_iff_left hallowed]

/-- In a run of the gate every write goes to the connection that was accepted with its key exactly if
each comes while this connection is open, or finds a descriptor that is not. -/
theorem delivered_iff {countWorker : Int} {n : Nat} {files : Int → Bool} {xs : List (ConnectionEvent ι)}
    (ht : xs.foldlM step (start .gate countWorker n files) = some t) :
    Delivered t ↔ ∀ x ∈ runSteps step (start .gate countWorker n files) xs, WriteAllowed x.1 x.2 := by
  have hstart : Delivered (start .gate countWorker n files : Connections ι) := fun _ hw => absurd hw List.not_mem_nil
  have hrun := foldlM_iff_steps (fun _ _ _ hi h => inv_step hi h) (fun _ _ _ hi h => delivered_step hi h)
    (inv_start .gate countWorker n files) ht
  rw [hrun, iff_true_intro hstart, true_and]

/-- The descriptors of a process that has started. -/
def stdio (s : Int) : Bool := 0 ≤ s && s ≤ 2

/-- A user comes on the descriptor `s`. -/
def comes (s : Int) : List (ConnectionEvent ι) :=
  [.accept s 0 0, .acceptAction, .acceptAction, .acceptAction, .acceptAction, .acceptAction]

/-- A packet for a user that is there. -/
theorem delivered_one : ∃ t, t ∈ (comes 5 ++ [.lookUp 0 1, .write 0] : List (ConnectionEvent ℕ)).foldlM step
    (start .gate 4 1 stdio) ∧ t.written = [(1, .connection 1)] ∧ Delivered t := by
  obtain ⟨t, ht, hw⟩ : ∃ t, (comes 5 ++ [.lookUp 0 1, .write 0] : List (ConnectionEvent ℕ)).foldlM step
      (start .gate 4 1 stdio) = some t ∧ t.written = [(1, .connection 1)] := ⟨_, rfl, rfl⟩
  refine ⟨t, ht, hw, (delivered_iff ht).mpr ?_⟩
  show ∀ x ∈ runSteps step _ [.accept 5 0 0, .acceptAction, .acceptAction, .acceptAction, .acceptAction, .acceptAction,
    .lookUp 0 1, .write 0], _
  rw [runSteps_cons rfl, runSteps_cons rfl, runSteps_cons rfl, runSteps_cons rfl, runSteps_cons rfl, runSteps_cons rfl,
    runSteps_cons rfl, runSteps_last]
  simp only [List.forall_mem_cons]
  refine ⟨trivial, trivial, trivial, trivial, trivial, trivial, trivial, fun h p hr => .inl ⟨5, ?_⟩,
    List.forall_mem_nil _⟩
  cases hr
  rfl

/-- The user leaves between the two steps, and the next one gets its object. -/
theorem delivered_to_next : ∃ t, t ∈ (comes 5 ++ [.lookUp 0 1, .errorRead 0, .releaseUserInfo 0] ++ comes 5 ++
      [.write 0] : List (ConnectionEvent ℕ)).foldlM step (start .gate 4 1 stdio) ∧
    t.written = [(1, .connection 2)] ∧ ¬ Delivered t :=
  ⟨_, rfl, rfl, fun h => absurd (h _ List.mem_cons_self) (by decide)⟩

/-! ## Reading -/

/-- In every run of each of the servers, the objects are registered whenever `DealWithReadData` runs
exactly if it never runs between `bufferevent_enable` and `AddUserInfo`. -/
theorem registered_iff {of : Server} {countWorker : Int} {n : Nat} {files : Int → Bool} {xs : List (ConnectionEvent ι)}
    (ht : xs.foldlM step (start of countWorker n files) = some t) :
    (∀ x ∈ runSteps step (start of countWorker n files) xs, ∀ p, x.2 = .dealWithReadData p → Registered x.1 p) ↔
      ∀ x ∈ runSteps step (start of countWorker n files) xs, ∀ p, x.2 = .dealWithReadData p → x.1.accepting ≠ .enabled p := by
  have hsteps := runSteps_of_inv (fun _ _ _ hi h => inv_step hi h)
    (D := fun (s : Connections ι) o => ∀ p, o = .dealWithReadData p → (Registered s p ↔ s.accepting ≠ .enabled p))
    (fun s o s' hi h p he => ?_) (inv_start of countWorker n files) ht
  · exact forall₂_congr fun x hx => forall₂_congr fun p he => hsteps x hx p he
  · subst he
    obtain ⟨hr, -⟩ := Option.ite_none_right_eq_some.mp h
    exact hi.registered_of_reading hr

/-- Data that comes after the user is registered. -/
theorem registered_one : ∃ t, t ∈ (comes 5 ++ [.dealWithReadData 0] : List (ConnectionEvent ℕ)).foldlM step
      (start .room 4 1 stdio) ∧
    ∀ x ∈ runSteps step (start .room 4 1 stdio) (comes 5 ++ [.dealWithReadData 0] : List (ConnectionEvent ℕ)),
      ∀ p, x.2 = .dealWithReadData p → Registered x.1 p := by
  refine ⟨_, rfl, (registered_iff rfl).mpr ?_⟩
  rw [runSteps_append (rfl : (comes 5).foldlM step (start .room 4 1 stdio) = some _), runSteps_last]
  simp only [List.forall_mem_append, List.forall_mem_cons]
  refine ⟨fun x hx p he => ?_, fun p _ => nofun, List.forall_mem_nil _⟩
  have hmem := snd_mem_of_runSteps hx
  rw [he] at hmem
  simp [comes] at hmem

/-- A user for whom reading is enabled. -/
def comesEarly : List (ConnectionEvent ℕ) := [.accept 5 0 0, .acceptAction, .acceptAction, .acceptAction]

/-- Data that comes as soon as reading is enabled. -/
theorem not_registered_early :
    ∃ t, t ∈ (comesEarly ++ [ConnectionEvent.dealWithReadData 0]).foldlM step (start .gate 4 1 stdio) ∧ ∃ x ∈ runSteps step (start .gate 4 1 stdio) (comesEarly ++ [ConnectionEvent.dealWithReadData 0]),
      x.2 = .dealWithReadData 0 ∧ ¬ Registered x.1 0 ∧ (x.1.u 0).server = false := by
  obtain ⟨t, ht, hr, ha, hs⟩ : ∃ t, comesEarly.foldlM step (start .gate 4 1 stdio) = some t ∧ (t.u 0).reading = true ∧
      t.accepting = .enabled 0 ∧ (t.u 0).server = false := ⟨_, rfl, rfl, rfl, rfl⟩
  have hi : Inv t := foldlM_inv (fun _ _ _ hi h => inv_step hi h) (inv_start .gate 4 1 stdio) ht
  refine ⟨t, ?_, (t, .dealWithReadData 0), mem_runSteps_append ht _ [], rfl, ?_, hs⟩
  · have hr : (t.server.users 0).reading = true := hr
    rw [List.foldlM_append, ht]
    show (step t (.dealWithReadData 0)).bind some = some t
    rw [step, if_pos hr]
    rfl
  · rw [hi.registered_of_reading hr]
    exact not_not_intro ha

end Miku.Common.Connections
