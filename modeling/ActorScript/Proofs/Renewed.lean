/-
  Machines and actors that start anew.

  Despawning leaves a machine its script, its actor and its limits, and everything else is as in a
  new one, but for the generation, which has counted the switches of the past.  The count itself
  never shows (`Counterpart`), so a machine that has been despawned cannot be told from a new one,
  whatever it has been through, and neither can an actor that has been despawned from one that has
  just been loaded and has the same body (`despawn_renews`).

  For actors this takes an invariant: the machine of an actor that is not on the map is a new one
  but for the count (`Actor.Rested`).
-/
import Mathlib
import ActorScript.Proofs.ActorCall
import ActorScript.Proofs.Counterpart

namespace ActorScript

variable {σ : Type}

/-- The host is not told how many switches there have been. -/
def Host.Uncounted (host : Host σ) : Prop :=
  ∀ step g s, host.observe { step with generation := g } s = host.observe step s

/-- A host that does not see the count does the same for every count. -/
theorem Host.Uncounted.relatedFor {host : Host σ} (h : host.Uncounted) (i : Identity) (k : Nat) :
    host.RelatedFor i k Eq host where
  callFunction _ _ := Action.related_eq _
  callValue _ _ := Action.related_eq _
  read slot _ _ _ hst := congrArg (host.read slot) hst
  write _ _ _ := Action.related_eq _
  observe step s _ hst := hst ▸ (h step (step.generation + k) s).symm

/-! ## Machines -/

namespace Machine

/-- Everything about a machine but the count of its switches. -/
def visible (m : Machine) : Machine := { m with generation := 0 }

/-- The new machine for the same script, with the same actor and the same limits. -/
def anew (m : Machine) : Machine where
  script := m.script
  identity := m.identity
  options := m.options
  locals := .initial m.script

@[simp] theorem visible_later (m : Machine) (k : Nat) : (m.later k).visible = m.visible := rfl

@[simp] theorem anew_later (m : Machine) (k : Nat) : (m.later k).anew = m.anew := rfl

@[simp] theorem anew_anew (m : Machine) : m.anew.anew = m.anew := rfl

/-- A machine that was just made is as it would be made anew. -/
theorem anew_of_create {script : Script} {identity : Identity} {options : MachineOptions}
    {m : Machine} (h : create script identity options = .ok m) : m.anew = m := by
  rw [create_eq_ok h]
  rfl

/-- Nothing that happens to a machine changes what it would be made anew from. -/
theorem SameRun.anew {m m' : Machine} (h : m.SameRun m') : m'.anew = m.anew := by
  rw [Machine.anew, Machine.anew, h.script, h.identity, h.options]

/-- **Despawning** makes the machine a new one, but for the count. -/
theorem despawn_eq (m : Machine) : m.despawn = m.anew.later (m.generation + 1) := by
  rw [later]
  show _ = ({ m.anew with generation := 0 + (m.generation + 1) } : Machine)
  rw [Nat.zero_add]
  rfl

end Machine

/-- What shows of a call: its result, the machine after it, and what has become of the host. -/
def Call.shown (c : Call) (m : Machine) : Except Error Unit × Machine × c.σ :=
  let (r, m', s) := c.operation.perform c.host (m, c.state)
  (r, m'.visible, s)

namespace Machine

/-- Two machines that cannot be told apart: they look the same, and whatever is done with both of
    them, with any hosts that are not told the count, every call shows the same.  A host may keep a
    record of what it is asked to do in its state, and what it answers may depend on that. -/
def Indistinct (m m' : Machine) : Prop :=
  m.visible = m'.visible ∧
    ∀ (cs : List Call) (c : Call), (∀ d ∈ cs ++ [c], d.host.Uncounted) →
      c.shown (m.after cs) = c.shown (m'.after cs)

/-- One call, after more switches. -/
theorem perform_later {c : Call} (hc : c.host.Uncounted) (m : Machine) (k : Nat) :
    c.operation.perform c.host (m.later k, c.state) =
      ((c.operation.perform c.host (m, c.state)).1,
        (c.operation.perform c.host (m, c.state)).2.1.later k,
        (c.operation.perform c.host (m, c.state)).2.2) := by
  obtain ⟨s, hs, h⟩ :=
    (perform_counterpart (hc.relatedFor m.identity k) c.operation (Eq.refl c.state)).exists_eq
  rw [h, hs]

/-- **One call** does the same to a machine that has gone through more switches. -/
theorem next_later {c : Call} (hc : c.host.Uncounted) (m : Machine) (k : Nat) :
    (m.later k).next c = (m.next c).later k := by
  rw [next, next, perform_later hc]

/-- **A history** does the same to it. -/
theorem after_later {cs : List Call} (hcs : ∀ c ∈ cs, c.host.Uncounted) (m : Machine) (k : Nat) :
    (m.later k).after cs = (m.after cs).later k := by
  induction cs generalizing m with
  | nil => rfl
  | cons c cs ih =>
    rw [after, after, next_later (hcs c List.mem_cons_self)]
    exact ih (fun d hd => hcs d (List.mem_cons_of_mem _ hd)) _

/-- **The count never shows.** -/
theorem indistinct_later (m : Machine) (k : Nat) : (m.later k).Indistinct m := by
  refine ⟨rfl, fun cs c hcs => ?_⟩
  rw [after_later (fun d hd => hcs d (List.mem_append_left _ hd)), Call.shown, Call.shown,
    perform_later (hcs c (List.mem_append_right _ List.mem_cons_self))]
  rfl

/-- Whatever a new machine has been through, despawning it gives back the new machine. -/
theorem indistinct_despawn_after {script : Script} {identity : Identity}
    {options : MachineOptions} {m : Machine} (h : create script identity options = .ok m)
    (cs : List Call) : (m.after cs).despawn.Indistinct m := by
  have h0 : m.switchDepth = 0 := by rw [create_eq_ok h]
  have hnew : (m.after cs).anew = m := (sameRun_after h0 cs).anew.trans (anew_of_create h)
  rw [despawn_eq, hnew]
  exact indistinct_later m _

end Machine

/-! ## Actors -/

/-- The saved values after a call. -/
def ActorCall.storeAfter (c : ActorCall) (a : Actor) : SaveStore :=
  match c.operation with
  | .spawn => (Actor.spawn c.around (a, c.store)).2.2
  | .trigger event => (Actor.trigger c.around event (a, c.store)).2.2
  | .update dt => (Actor.update c.around dt (a, c.store)).2.2
  | .load .. | .despawn | .drain => c.store

namespace Actor

/-- Everything about an actor but the count of switches of its machine. -/
def visible (a : Actor) : Actor := { a with machine := a.machine.map Machine.visible }

/-- The actor, if its machine had gone through `k` switches more. -/
def later (a : Actor) (k : Nat) : Actor := { a with machine := a.machine.map (·.later k) }

@[simp] theorem later_zero (a : Actor) : a.later 0 = a := by
  cases hm : a.machine with
  | none => rw [later, hm, Option.map_none, ← hm]
  | some m => rw [later, hm, Option.map_some, Machine.later_zero, ← hm]

@[simp] theorem visible_later (a : Actor) (k : Nat) : (a.later k).visible = a.visible := by
  rw [visible, visible]
  show ({ a with machine := (a.machine.map (·.later k)).map Machine.visible } : Actor) = _
  rw [Option.map_map]
  rfl

end Actor

/-- What shows of a call: its result, the actor after it, which has the commands for the game, and
    the saved values. -/
def ActorCall.shown (c : ActorCall) (a : Actor) : Except Error Unit × Actor × SaveStore :=
  ((c.perform a).1, (c.perform a).2.visible, c.storeAfter a)

namespace Actor

/-- Two actors that cannot be told apart: they look the same, and whatever is done with both of
    them, every call shows the same. -/
def Indistinct (a b : Actor) : Prop :=
  a.visible = b.visible ∧
    ∀ (cs : List ActorCall) (c : ActorCall), c.shown (a.after cs) = c.shown (b.after cs)

variable (around : Builtin.Surroundings)

/-- The host of an actor never sees the count. -/
theorem uncounted_host : (host around).Uncounted := fun _ _ _ => rfl

/-- The operation does not notice how many switches the actor's machine has gone through. -/
def Unaware (op : Action (Actor × SaveStore) Unit) : Prop :=
  ∀ a s k, op (a.later k, s) = ((op (a, s)).1, (op (a, s)).2.1.later k, (op (a, s)).2.2)

/-- What is done with the machine does not depend on its count. -/
theorem unaware_withMachine (op : Operation) :
    Unaware (withMachine (op.perform (host around))) := by
  intro a s k
  cases hm : a.machine with
  | none =>
    have hm' : (a.later k).machine = none := by rw [later, hm, Option.map_none]
    simp only [withMachine, hm, hm']
  | some m =>
    have hm' : (a.later k).machine = some (m.later k) := by rw [later, hm, Option.map_some]
    have hop := Machine.perform_later (c := ⟨host around, (a.body, s), op⟩) (uncounted_host around)
      m k
    have hbody : (a.later k).body = a.body := rfl
    simp only [withMachine, hm, hm', hbody, hop]
    rfl

/-- Whether an actor is on the map has nothing to do with the count either. -/
theorem Unaware.onMap {op : Action (Actor × SaveStore) Unit} (h : Unaware op) :
    Unaware fun x => if x.1.spawned then op x else (.ok (), x) := by
  intro a s k
  have hspawned : (a.later k).spawned = a.spawned := rfl
  simp only [hspawned]
  split
  · exact h a s k
  · rfl

theorem unaware_trigger (e : Event) : Unaware (trigger around e) :=
  (unaware_withMachine around (.trigger e)).onMap

theorem unaware_update (dt : UInt64) : Unaware (update around dt) :=
  (unaware_withMachine around (.newFrame dt)).onMap

theorem unaware_spawn : Unaware (spawn around) := by
  intro a s k
  have hspawned : (a.later k).spawned = a.spawned := rfl
  rw [spawn, spawn, hspawned]
  split
  · rfl
  · exact unaware_withMachine around .activate { a with spawned := true } s k

theorem despawn_later (a : Actor) (k : Nat) : (a.later k).despawn = a.despawn.later k := by
  have hspawned : (a.later k).spawned = a.spawned := rfl
  rw [despawn, despawn, hspawned]
  split
  · have hmap : (a.machine.map (·.later k)).map Machine.despawn =
        (a.machine.map Machine.despawn).map (·.later k) := by
      rw [Option.map_map, Option.map_map]
      congr 1
      funext m
      exact m.despawn_later k
    show ({ a with spawned := false, machine := (a.machine.map (·.later k)).map Machine.despawn } :
      Actor) = _
    rw [hmap]
    rfl
  · rfl

/-- Fetching the script does not look at the machine that the actor has. -/
theorem load_machine (mapName : String) (options : MachineOptions) (d : Disk) (a : Actor)
    (cache : ScriptCache) (m : Option Machine) :
    (∃ r cache', load mapName options d (a, cache) = (r, a, cache') ∧
      load mapName options d ({ a with machine := m }, cache) =
        (r, { a with machine := m }, cache')) ∨
    ∃ script m' cache', Machine.create script ⟨mapName, a.name⟩ options = .ok m' ∧
      load mapName options d (a, cache) = (.ok (), { a with machine := some m' }, cache') ∧
      load mapName options d ({ a with machine := m }, cache) =
        (.ok (), { a with machine := some m' }, cache') := by
  rw [load, load]
  cases a.script with
  | none => exact .inl ⟨_, _, rfl, rfl⟩
  | some scriptName =>
    simp only
    rcases ScriptCache.load d ⟨mapName, scriptName⟩ cache with ⟨e | script, c⟩
    · exact .inl ⟨_, _, rfl, rfl⟩
    · simp only
      cases hm : Machine.create script ⟨mapName, a.name⟩ options with
      | error e => exact .inl ⟨_, _, rfl, rfl⟩
      | ok m' => exact .inr ⟨script, m', c, hm, rfl, rfl⟩

/-- **Every call** does the same to an actor whose machine has gone through more switches. -/
theorem perform_later (c : ActorCall) (a : Actor) (k : Nat) :
    (∃ l, c.perform (a.later k) = ((c.perform a).1, (c.perform a).2.later l)) ∧
      c.storeAfter (a.later k) = c.storeAfter a := by
  obtain ⟨around, store, op⟩ := c
  cases op with
  | load mapName options d cache =>
    refine ⟨?_, rfl⟩
    simp only [ActorCall.perform]
    rcases load_machine mapName options d a cache (a.machine.map (·.later k)) with
      ⟨r, cache', h, h'⟩ | ⟨_, m', cache', -, h, h'⟩
    · exact ⟨k, by rw [later, h, h', later]⟩
    · -- a machine that has just been loaded has not gone through any switch
      exact ⟨0, by rw [later, h, h', later_zero]⟩
  | spawn =>
    simp only [ActorCall.perform, ActorCall.storeAfter, unaware_spawn around a store k]
    exact ⟨⟨k, rfl⟩, trivial⟩
  | despawn =>
    simp only [ActorCall.perform, despawn_later]
    exact ⟨⟨k, rfl⟩, rfl⟩
  | trigger e =>
    simp only [ActorCall.perform, ActorCall.storeAfter, unaware_trigger around e a store k]
    exact ⟨⟨k, rfl⟩, trivial⟩
  | update dt =>
    simp only [ActorCall.perform, ActorCall.storeAfter, unaware_update around dt a store k]
    exact ⟨⟨k, rfl⟩, trivial⟩
  | drain => exact ⟨⟨k, rfl⟩, rfl⟩

/-- **A history** does the same to it. -/
theorem after_later (cs : List ActorCall) (a : Actor) (k : Nat) :
    ∃ l, (a.later k).after cs = (a.after cs).later l := by
  induction cs generalizing a k with
  | nil => exact ⟨k, rfl⟩
  | cons c cs ih =>
    obtain ⟨⟨l, hl⟩, -⟩ := perform_later c a k
    rw [after, after, hl]
    exact ih _ l

theorem indistinct_later (a : Actor) (k : Nat) : (a.later k).Indistinct a := by
  refine ⟨visible_later a k, fun cs c => ?_⟩
  obtain ⟨l, hl⟩ := after_later cs a k
  obtain ⟨⟨l', hl'⟩, hstore⟩ := perform_later c (a.after cs) l
  rw [hl, ActorCall.shown, ActorCall.shown, hl', hstore, visible_later]

/-! ## Actors that are not on the map -/

/-- The actor is on the map, or its machine, if it has one, is a new one but for the count. -/
def Rested (a : Actor) : Prop :=
  a.spawned = false → ∀ m, a.machine = some m → ∃ k, m = m.anew.later k

variable {a : Actor}

/-- An actor keeps what it is called and the name of its script. -/
structure SameActor (a b : Actor) : Prop where
  name : b.name = a.name
  label : b.label = a.label
  script : b.script = a.script

theorem SameActor.refl (a : Actor) : SameActor a a := ⟨rfl, rfl, rfl⟩

/-- Any number of calls leave it the same actor. -/
theorem SameActor.trans {a b c : Actor} (h : SameActor a b) (h' : SameActor b c) :
    SameActor a c :=
  ⟨h'.name.trans h.name, h'.label.trans h.label, h'.script.trans h.script⟩

/-- An operation of the machine leaves the actor on the map or off it. -/
theorem sameActor_withMachine (op : Action (Machine × Body × SaveStore) Unit) (a : Actor)
    (s : SaveStore) : SameActor a (withMachine op (a, s)).2.1 ∧
      (withMachine op (a, s)).2.1.spawned = a.spawned := by
  rw [withMachine]
  cases hm : a.machine with
  | none => exact ⟨.refl a, rfl⟩
  | some m => exact ⟨⟨rfl, rfl, rfl⟩, rfl⟩

theorem rested_of_spawned (h : a.spawned = true) : a.Rested :=
  fun hoff => absurd (h.symm.trans hoff) Bool.true_eq_false.mp

/-- What the machine does matters only while the actor is on the map. -/
theorem rested_onMap (op : Action (Machine × Body × SaveStore) Unit) (s : SaveStore)
    (h : a.Rested) : SameActor a (if a.spawned then withMachine op (a, s) else (.ok (), a, s)).2.1 ∧
      (if a.spawned then withMachine op (a, s) else (.ok (), a, s)).2.1.Rested := by
  obtain ⟨hsame, hspawned⟩ := sameActor_withMachine op a s
  split
  · rename_i hon
    exact ⟨hsame, rested_of_spawned (hspawned.trans hon)⟩
  · exact ⟨.refl a, h⟩

/-- An actor that is taken off the map rests. -/
theorem rested_despawn (h : a.Rested) : a.despawn.Rested := by
  rw [despawn]
  split
  · rintro - m hm
    obtain ⟨m₀, -, rfl⟩ := Option.map_eq_some_iff.mp hm
    refine ⟨m₀.generation + 1, ?_⟩
    rw [Machine.despawn_eq, Machine.anew_later, Machine.anew_anew]
  · exact h

theorem sameActor_despawn (a : Actor) : SameActor a a.despawn := by
  rw [despawn]
  split
  · exact ⟨rfl, rfl, rfl⟩
  · exact .refl a

/-- **One call** leaves the actor the same, and rested if it is not on the map. -/
theorem rested_perform (c : ActorCall) (h : a.Rested) :
    SameActor a (c.perform a).2 ∧ (c.perform a).2.Rested := by
  obtain ⟨around, store, op⟩ := c
  cases op with
  | load mapName options d cache =>
    simp only [ActorCall.perform]
    rcases load_machine mapName options d a cache a.machine with
      ⟨r, cache', hload, -⟩ | ⟨_, m', cache', hm', hload, -⟩
    · rw [hload]
      exact ⟨.refl a, h⟩
    · rw [hload]
      refine ⟨⟨rfl, rfl, rfl⟩, fun _ m hm => ⟨0, ?_⟩⟩
      cases hm
      rw [Machine.anew_of_create hm', Machine.later_zero]
  | spawn =>
    simp only [ActorCall.perform, Actor.spawn]
    split
    · exact ⟨.refl a, h⟩
    · -- whether the activation fails or not, the actor is on the map from now on
      obtain ⟨hsame, hspawned⟩ := sameActor_withMachine (Machine.activate (host around))
        { a with spawned := true } store
      have hstart : SameActor a { a with spawned := true } := ⟨rfl, rfl, rfl⟩
      exact ⟨hstart.trans hsame, rested_of_spawned hspawned⟩
  | despawn => exact ⟨sameActor_despawn a, rested_despawn h⟩
  | trigger e => exact rested_onMap (Machine.trigger (host around) e) store h
  | update dt => exact rested_onMap (Machine.newFrame (host around) dt) store h
  | drain => exact ⟨⟨rfl, rfl, rfl⟩, h⟩

/-- **An actor that is not on the map rests**, whatever has happened to it. -/
theorem rested_after (cs : List ActorCall) (h : a.Rested) :
    SameActor a (a.after cs) ∧ (a.after cs).Rested := by
  induction cs generalizing a with
  | nil => exact ⟨.refl a, h⟩
  | cons c cs ih =>
    obtain ⟨hsame, hrested⟩ := rested_perform c h
    obtain ⟨hsame', hrested'⟩ := ih hrested
    exact ⟨hsame.trans hsame', hrested'⟩

theorem rested_ofSpec (spec : ActorSpec) : (ofSpec spec).Rested := by
  rintro - m hm
  have hnone : (ofSpec spec).machine = none := rfl
  exact absurd (hnone.symm.trans hm) (Option.some_ne_none m).symm

/-- A despawned actor is not on the map, and its machine is a new one but for the count. -/
theorem despawn_spec (h : a.Rested) :
    ∃ k, a.despawn = { a with spawned := false, machine := a.machine.map (·.anew.later k) } := by
  rw [despawn]
  split
  · cases hm : a.machine with
    | none => exact ⟨0, rfl⟩
    | some m => exact ⟨m.generation + 1, by rw [Option.map_some, Option.map_some, m.despawn_eq]⟩
  · rename_i hoff
    have hoff : a.spawned = false := Bool.eq_false_iff.mpr hoff
    cases hm : a.machine with
    | none =>
      refine ⟨0, ?_⟩
      rw [Option.map_none, ← hoff, ← hm]
    | some m =>
      obtain ⟨k, hk⟩ := h hoff m hm
      refine ⟨k, ?_⟩
      rw [Option.map_some, ← hk, ← hoff, ← hm]

/-- An actor that has just been loaded is not on the map, and its machine is a new one. -/
theorem load_spec {spec : ActorSpec} {mapName : String} {options : MachineOptions} {d : Disk}
    {cache cache' : ScriptCache} {b : Actor}
    (h : load mapName options d (ofSpec spec, cache) = (.ok (), b, cache')) :
    SameActor (ofSpec spec) b ∧ b.spawned = false ∧ b.machine.map Machine.anew = b.machine := by
  rcases load_machine mapName options d (ofSpec spec) cache none with
    ⟨r, c, hload, -⟩ | ⟨_, m', c, hm', hload, -⟩
  · cases hload.symm.trans h
    exact ⟨.refl _, rfl, rfl⟩
  · cases hload.symm.trans h
    exact ⟨⟨rfl, rfl, rfl⟩, rfl, congrArg some (Machine.anew_of_create hm')⟩

end Actor

/-- **Despawning starts anew.**  A machine that is despawned after any history cannot be told from
    the machine it was at the beginning.  An actor that is despawned after any history cannot be
    told from an actor placed alike that has just been loaded and given the same body, if what is
    loaded is the same: both have no machine, or machines for the same script with the same
    limits. -/
theorem despawn_renews :
    (∀ script identity options m, Machine.create script identity options = .ok m →
      ∀ cs : List Call, (m.after cs).despawn.Indistinct m) ∧
    ∀ spec (cs : List ActorCall) a mapName options d cache b cache',
      a = (Actor.ofSpec spec).after cs →
      Actor.load mapName options d (.ofSpec spec, cache) = (.ok (), b, cache') →
      b.machine.map Machine.anew = a.machine.map Machine.anew →
      a.despawn.Indistinct { b with body := a.body } := by
  refine ⟨fun _ _ _ m h cs => Machine.indistinct_despawn_after h cs, ?_⟩
  rintro spec cs a mapName options d cache b cache' rfl hload hsame
  obtain ⟨ha, hrested⟩ := Actor.rested_after cs (Actor.rested_ofSpec spec)
  obtain ⟨hb, hoff, hnew⟩ := Actor.load_spec hload
  obtain ⟨k, hk⟩ := Actor.despawn_spec hrested
  generalize (Actor.ofSpec spec).after cs = a at *
  -- both are the actor that has just been loaded with the body of the other one, but for the count
  have hlater : a.despawn = Actor.later { b with body := a.body } k := by
    have hmachine : a.machine.map (·.anew.later k) = b.machine.map (·.later k) := by
      rw [← hnew, hsame, Option.map_map]
      rfl
    rw [hk, hmachine, Actor.later]
    cases a
    cases b
    cases ha.name
    cases ha.label
    cases ha.script
    cases hb.name
    cases hb.label
    cases hb.script
    cases hoff
    rfl
  rw [hlater]
  exact Actor.indistinct_later _ k

/-! A machine that has failed inside of two switches. -/

/-- A script that fails in the state that its first state leads to. -/
def wornOut : Script where
  vars := [
    { name := "worn", persisted := false, initial := some (.bool false), location := ⟨1, 1⟩ }]
  states := [
    { name := "New", condition := .unary .not (.symbol "worn"), handlers := { loop := some 0 },
      location := ⟨2, 1⟩ },
    { name := "Old", condition := .literal (.bool true), handlers := { loop := some 1 },
      location := ⟨3, 1⟩ }]
  blocks := [
    [.call "setOrientation" [.literal (.string "LEFT")] ⟨4, 1⟩,
      .assign (.symbol "worn") (.literal (.bool true)) ⟨4, 31⟩],
    [.call "repair" [] ⟨5, 1⟩]]

/-- An actor with this script. -/
def cart : ActorSpec := { name := some "Cart", script := some "worn" }

/-- A cache that holds the script. -/
def wornCache : ScriptCache := { root := "", parsed := [(⟨"town", "worn"⟩, wornOut)] }

/-- The new machine of the cart. -/
def cartMachine : Machine :=
  { script := wornOut, identity := ⟨"town", cart.name⟩, options := {}, locals := .initial wornOut }

/-- The machine is activated while the cart is at the beginning of the map. -/
def setOff : Call :=
  ⟨Actor.host { strings := {} }, ({ position := ⟨0, 0⟩, orientation := .down }, {}), .activate⟩

/-- The cart is loaded and put on the map. -/
def driven : Actor := (Actor.ofSpec cart).after [
  ⟨{ strings := {} }, {}, .load "town" {} {} wornCache⟩, ⟨{ strings := {} }, {}, .spawn⟩]

/-- Both fail on the way, and start anew all the same. -/
theorem despawn_renews_cart :
    (cartMachine.next setOff).current = some 1 ∧ (cartMachine.next setOff).generation = 2 ∧
      (cartMachine.after [setOff]).despawn.Indistinct cartMachine ∧
      driven.body.commands = [.setOrientation .left] ∧
      driven.despawn.Indistinct
        { Actor.ofSpec cart with machine := some cartMachine, body := driven.body } := by
  refine ⟨by cbv, by cbv, ?_, by cbv, ?_⟩
  · exact despawn_renews.1 wornOut ⟨"town", cart.name⟩ {} cartMachine rfl [setOff]
  · have hload : Actor.load "town" {} {} (.ofSpec cart, wornCache) =
        (.ok (), { Actor.ofSpec cart with machine := some cartMachine }, wornCache) := rfl
    have hsame : some cartMachine.anew = driven.machine.map Machine.anew := by cbv
    exact despawn_renews.2 cart _ driven "town" {} {} wornCache _ _ rfl hload hsame

end ActorScript
