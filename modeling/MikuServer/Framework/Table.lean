import MikuServer.Framework.Loop
import MikuServer.Framework.StdMap

/-!
# Containers

A container (`Table`) keeps its entries in a `std::map`, which a lookup reads with
`operator[]`. It states of each operation what it does to the map; the operation has
no value where it does not return. A run of calls keeps, beside the state, the keys
that were added and not yet removed.

A call is `Right` if there are no more entries than such keys after it, and if it
changes nothing where it is a lookup. It is `Present` if what it looks for is there.
`right_iff` says that the calls of a run are all right exactly when what they look
for is always there.
-/

namespace Miku

/-- The keys that are left when one is removed, or all of them. -/
def remaining : Option Int → Finset Int → Finset Int
  | none, _ => ∅
  | some k, keys => keys.erase k

structure Table where
  State : Type
  Entry : Type
  Value : Type
  Removal : Type
  start : State
  entries : State → StdMap (Option Entry)
  lookup : State → Int → Option State
  add : State → Int → Value → Option State
  /-- Whether a value is taken at all. -/
  takes : Value → Bool
  remove : State → Removal → Option State
  /-- The key that is removed, if not all of them are. -/
  key : State → Removal → Option Int
  /-- Whether the removal finds what it looks for; it does where it looks for nothing. -/
  finds : State → Removal → Prop
  /-- What all states of the container satisfy. -/
  Ok : State → Prop
  ok_start : Ok start
  entries_start : entries start = .empty
  lookup_entries {s : State} (k : Int) : Ok s →
    ∃ s', lookup s k = some s' ∧ Ok s' ∧ entries s' = (entries s).subscript k none
  /-- Looking up a key that is there changes nothing. -/
  lookup_self {s : State} {k : Int} : Ok s → k ∈ (entries s).keys → lookup s k = some s
  add_keys {s s' : State} {k : Int} {v : Value} : Ok s → add s k v = some s' →
    Ok s' ∧ (entries s').keys = if takes v then insert k (entries s).keys else (entries s).keys
  remove_keys {s s' : State} {x : Removal} : Ok s → finds s x → remove s x = some s' →
    Ok s' ∧ (entries s').keys = remaining (key s x) (entries s).keys
  /-- A removal that does not find its key leaves an entry under it. -/
  remove_missed {s : State} {x : Removal} : Ok s → ¬finds s x →
    ∃ k s', key s x = some k ∧ remove s x = some s' ∧ (entries s').keys = insert k (entries s).keys

namespace Table

variable {t : Table}

inductive Call (t : Table)
  | lookup (k : Int)
  | add (k : Int) (v : t.Value)
  | remove (x : t.Removal)

/-- The container, and the keys that were added and not yet removed. -/
abbrev Run (t : Table) : Type := t.State × Finset Int

def begin (t : Table) : t.Run := (t.start, ∅)

def step (t : Table) (s : t.Run) : t.Call → Option t.Run
  | .lookup k => (t.lookup s.1 k).map (·, s.2)
  | .add k v => (t.add s.1 k v).map (·, if t.takes v then insert k s.2 else s.2)
  | .remove x => (t.remove s.1 x).map (·, remaining (t.key s.1 x) s.2)

def Right (t : Table) (s : t.Run) (c : t.Call) : Prop :=
  ∀ s', t.step s c = some s' → (t.entries s'.1).size ≤ s'.2.card ∧ ∀ k, c = .lookup k → s'.1 = s.1

def Present (t : Table) (s : t.Run) : t.Call → Prop
  | .lookup k => k ∈ (t.entries s.1).keys
  | .add _ _ => True
  | .remove x => t.finds s.1 x

/-- The entries are those of the keys that were added and not yet removed. -/
structure Tight (s : t.Run) : Prop where
  ok : t.Ok s.1
  keys : (t.entries s.1).keys = s.2

theorem begin_tight (t : Table) : Tight t.begin := by
  refine ⟨t.ok_start, ?_⟩
  show (t.entries t.start).keys = ∅
  rw [t.entries_start, StdMap.keys_empty]

variable {s s' : t.Run} {c : t.Call}

theorem Tight.size (h : Tight s) : (t.entries s.1).size = s.2.card := by
  rw [← h.keys, StdMap.card_keys]

/-- A call that finds what it looks for keeps the entries those of the keys, and a lookup the state. -/
theorem Tight.step (h : Tight s) (hc : t.Present s c) (hs : t.step s c = some s') :
    Tight s' ∧ ∀ k, c = .lookup k → s'.1 = s.1 := by
  cases c with
  | lookup k =>
    rw [Table.step, t.lookup_self h.ok hc] at hs
    cases hs
    exact ⟨h, fun _ _ => rfl⟩
  | add k v =>
    obtain ⟨s₁, h1, rfl⟩ := Option.map_eq_some_iff.mp hs
    obtain ⟨hok, hk⟩ := t.add_keys h.ok h1
    rw [h.keys] at hk
    exact ⟨⟨hok, hk⟩, nofun⟩
  | remove x =>
    obtain ⟨s₁, h1, rfl⟩ := Option.map_eq_some_iff.mp hs
    obtain ⟨hok, hk⟩ := t.remove_keys h.ok hc h1
    rw [h.keys] at hk
    exact ⟨⟨hok, hk⟩, nofun⟩

/-- A lookup that does not find its key makes an entry. -/
theorem Tight.mem_of_lookup {k : Int} (h : Tight s) (hr : t.Right s (.lookup k)) : k ∈ (t.entries s.1).keys := by
  obtain ⟨s₁, h1, -, h2⟩ := t.lookup_entries k h.ok
  have hstep : t.step s (.lookup k) = some (s₁, s.2) := by rw [Table.step, h1, Option.map_some]
  have hself : s₁ = s.1 := (hr _ hstep).2 k rfl
  rw [← hself, h2, StdMap.keys_subscript]
  exact Finset.mem_insert_self ..

/-- A removal that does not find its key leaves one entry more than keys. -/
theorem Tight.finds_of_remove {x : t.Removal} (h : Tight s) (hr : t.Right s (.remove x)) : t.finds s.1 x := by
  by_contra hf
  obtain ⟨k, s₁, hk, h1, h2⟩ := t.remove_missed h.ok hf
  have hstep : t.step s (.remove x) = some (s₁, s.2.erase k) := by rw [Table.step, h1, hk, Option.map_some, remaining]
  have hle : (t.entries s₁).size ≤ (s.2.erase k).card := (hr _ hstep).1
  have hlt : (s.2.erase k).card < (insert k s.2).card := Finset.card_lt_card (Finset.erase_ssubset_insert s.2 k)
  rw [← StdMap.card_keys, h2, h.keys] at hle
  omega

theorem Tight.right_iff (h : Tight s) : t.Right s c ↔ t.Present s c := by
  refine ⟨fun hr => ?_, fun hc s' hs => ?_⟩
  · cases c with
    | lookup k => exact h.mem_of_lookup hr
    | add k v => trivial
    | remove x => exact h.finds_of_remove hr
  · obtain ⟨ht, hself⟩ := h.step hc hs
    exact ⟨Nat.le_of_eq ht.size, hself⟩

/-- The calls of a run are right exactly when what they look for is always there. -/
theorem right_iff (t : Table) (calls : List t.Call) :
    (∀ x ∈ runSteps t.step t.begin calls, t.Right x.1 x.2) ↔ ∀ x ∈ runSteps t.step t.begin calls, t.Present x.1 x.2 := by
  constructor
  · exact runSteps_inv (I := Tight) (C := t.Right) (fun s c s' h hr hs => (h.step (h.right_iff.mp hr) hs).1)
      (fun s c h => h.right_iff.mp) t.begin_tight
  · exact runSteps_inv (I := Tight) (C := t.Present) (fun s c s' h hc hs => (h.step hc hs).1)
      (fun s c h => h.right_iff.mpr) t.begin_tight

/-- A lookup in the container that was just made is not right. -/
theorem not_right_lookup (t : Table) (k : Int) : ¬t.Right t.begin (.lookup k) := by
  intro hr
  have hk : k ∈ (t.entries t.begin.1).keys := t.begin_tight.mem_of_lookup hr
  rw [t.begin_tight.keys] at hk
  exact Finset.notMem_empty k hk

/-- Lookups leave an entry under every key. -/
theorem foldlM_lookup (ks : List Int) (h : t.Ok s.1) : ∃ s₁, (ks.map Call.lookup).foldlM t.step s = some (s₁, s.2) ∧
    (t.entries s₁).keys = (t.entries s.1).keys ∪ ks.toFinset := by
  induction ks generalizing s with
  | nil => exact ⟨s.1, rfl, by rw [List.toFinset_nil, Finset.union_empty]⟩
  | cons k ks ih =>
    obtain ⟨s₁, h1, hok, h2⟩ := t.lookup_entries k h
    obtain ⟨s₂, e1, e2⟩ := ih (s := (s₁, s.2)) hok
    refine ⟨s₂, ?_, ?_⟩
    · rw [List.map_cons, List.foldlM_cons, Table.step, h1]
      exact e1
    · rw [e2, h2, StdMap.keys_subscript, List.toFinset_cons, Finset.insert_union, Finset.union_insert]

end Table

end Miku
