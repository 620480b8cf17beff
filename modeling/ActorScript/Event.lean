/-
  The events a state can handle, and a table with one optional entry per event.

  There are six events and no others, so `EventMap` has a field for each: two tables with the
  same entries are equal, and `toList` gives the entries in the order of `Event.all`.
-/

namespace ActorScript

/-- What can happen to an actor. -/
inductive Event
  | spawn
  | actionPressed
  | characterEnteredTile
  | characterTouchEvent
  | loop
  | enterState
deriving DecidableEq, Repr, Inhabited

namespace Event

/-- All events, in the order in which handlers are visited. -/
def all : List Event :=
  [spawn, actionPressed, characterEnteredTile, characterTouchEvent, loop, enterState]

/-- The word that scripts use for an event. -/
def name : Event → String
  | spawn => "spawn"
  | actionPressed => "actionPressed"
  | characterEnteredTile => "characterEnteredTile"
  | characterTouchEvent => "characterTouchEvent"
  | loop => "loop"
  | enterState => "enterState"

/-- The event with this name, if there is one. -/
def ofName? (name : String) : Option Event := all.find? (·.name == name)

@[simp] theorem ofName?_name (e : Event) : ofName? e.name = some e := by
  cases e <;> decide

theorem name_of_ofName? {s : String} {e : Event} (h : ofName? s = some e) : e.name = s := by
  simpa using List.find?_some h

theorem mem_all (e : Event) : e ∈ all := by cases e <;> decide

end Event

/-- At most one entry for each event. -/
structure EventMap (α : Type) where
  spawn : Option α := none
  actionPressed : Option α := none
  characterEnteredTile : Option α := none
  characterTouchEvent : Option α := none
  loop : Option α := none
  enterState : Option α := none
deriving DecidableEq, Repr

namespace EventMap

variable {α β : Type}

/-- The table without entries. -/
def empty : EventMap α := {}

instance : Inhabited (EventMap α) := ⟨empty⟩

/-- The entry for an event. -/
def get? (m : EventMap α) : Event → Option α
  | .spawn => m.spawn
  | .actionPressed => m.actionPressed
  | .characterEnteredTile => m.characterEnteredTile
  | .characterTouchEvent => m.characterTouchEvent
  | .loop => m.loop
  | .enterState => m.enterState

/-- The table with `a` as the entry for an event, whatever it held before. -/
def insert (m : EventMap α) (e : Event) (a : α) : EventMap α :=
  match e with
  | .spawn => { m with spawn := some a }
  | .actionPressed => { m with actionPressed := some a }
  | .characterEnteredTile => { m with characterEnteredTile := some a }
  | .characterTouchEvent => { m with characterTouchEvent := some a }
  | .loop => { m with loop := some a }
  | .enterState => { m with enterState := some a }

/-- Whether an event has an entry. -/
def contains (m : EventMap α) (e : Event) : Bool := (m.get? e).isSome

/-- The table with `f` applied to every entry. -/
def map (f : Event → α → β) (m : EventMap α) : EventMap β where
  spawn := m.spawn.map (f .spawn)
  actionPressed := m.actionPressed.map (f .actionPressed)
  characterEnteredTile := m.characterEnteredTile.map (f .characterEnteredTile)
  characterTouchEvent := m.characterTouchEvent.map (f .characterTouchEvent)
  loop := m.loop.map (f .loop)
  enterState := m.enterState.map (f .enterState)

/-- The entries in the order of `Event.all`. -/
def toList (m : EventMap α) : List (Event × α) :=
  Event.all.filterMap fun e => (m.get? e).map (e, ·)

/-- The events that have an entry, in the order of `Event.all`. -/
def events (m : EventMap α) : List Event := Event.all.filter m.contains

@[simp] theorem get?_empty (e : Event) : (empty : EventMap α).get? e = none := by
  cases e <;> rfl

@[simp] theorem get?_insert_self (m : EventMap α) (e : Event) (a : α) :
    (m.insert e a).get? e = some a := by
  cases e <;> rfl

theorem get?_insert_ne (m : EventMap α) {e f : Event} (a : α) (h : f ≠ e) :
    (m.insert e a).get? f = m.get? f := by
  cases e <;> cases f <;> first | rfl | exact absurd rfl h

theorem get?_insert (m : EventMap α) (e f : Event) (a : α) :
    (m.insert e a).get? f = if f = e then some a else m.get? f := by
  by_cases h : f = e
  · subst h; simp
  · rw [if_neg h, get?_insert_ne m a h]

@[simp] theorem get?_map (f : Event → α → β) (m : EventMap α) (e : Event) :
    (m.map f).get? e = (m.get? e).map (f e) := by
  cases e <;> rfl

/-- Two tables that answer every look-up alike are equal. -/
theorem ext_get? {m n : EventMap α} (h : ∀ e, m.get? e = n.get? e) : m = n := by
  obtain ⟨a, b, c, d, e, f⟩ := m
  obtain ⟨a', b', c', d', e', f'⟩ := n
  have h₁ : a = a' := h .spawn
  have h₂ : b = b' := h .actionPressed
  have h₃ : c = c' := h .characterEnteredTile
  have h₄ : d = d' := h .characterTouchEvent
  have h₅ : e = e' := h .loop
  have h₆ : f = f' := h .enterState
  subst h₁ h₂ h₃ h₄ h₅ h₆
  rfl

theorem mem_events {m : EventMap α} {e : Event} : e ∈ m.events ↔ (m.get? e).isSome := by
  simp [events, contains, Event.mem_all]

theorem mem_toList {m : EventMap α} {e : Event} {a : α} :
    (e, a) ∈ m.toList ↔ m.get? e = some a := by
  simp [toList, Event.mem_all]

theorem nodup_events (m : EventMap α) : m.events.Nodup :=
  List.Pairwise.filter _ (by decide)

end EventMap

end ActorScript
