/-
  Whose saved values are whose.

  The saved values of all actors lie in one store.  An entry belongs to an actor if some name is
  saved under its key, and as a register takes any text as its name, these are all keys that start
  with `map.actor.` (`Identity.stem`).  Nothing keeps dots out of the names of maps and actors, so
  an entry may belong to two actors at once: exactly if the stem of one starts with the stem of the
  other (`apart_iff`).  Names without dots exclude that (`apart_of_dotless`).

  What a machine writes belongs to its actor.  To show it, the machine is given a host that ignores
  all other writes (`Host.confine`).  The machine does not notice (`perform_confine`), and what this
  host does leaves the entries of others as they are.  So an actor is isolated from another one if
  they share no entry, and if they share one, a script that declares a saved variable is enough to
  overwrite it.
-/
import Mathlib
import ActorScript.Proofs.Asked
import ActorScript.Proofs.Counterpart
import ActorScript.Actor

namespace ActorScript

variable {σ α : Type}

/-! ## Keys -/

namespace Identity

/-- What the keys of an actor start with. -/
def stem (mapName actor : String) : String := mapName ++ "." ++ actor ++ "."

/-- The entry belongs to the actor: some name is saved under this key. -/
def Owns (i : Identity) (key : String) : Prop := ∃ name, i.savedKey name = .ok key

/-- No entry belongs to both actors. -/
def Apart (i j : Identity) : Prop := ∀ key, i.Owns key → ¬ j.Owns key

variable {m a m' a' : String}

theorem savedKey_eq (m a name : String) : savedKey ⟨m, some a⟩ name = .ok (stem m a ++ name) := rfl

theorem owns_iff {key : String} :
    (⟨m, some a⟩ : Identity).Owns key ↔ (stem m a).toList <+: key.toList := by
  constructor
  · rintro ⟨name, h⟩
    rw [savedKey_eq] at h
    cases h
    rw [String.toList_append]
    exact List.prefix_append _ _
  · rintro ⟨rest, h⟩
    refine ⟨String.ofList rest, ?_⟩
    rw [savedKey_eq, ← String.ofList_toList (s := key), ← h, String.ofList_append,
      String.ofList_toList]

instance (i : Identity) (key : String) : Decidable (i.Owns key) :=
  match i with
  | ⟨_, some _⟩ => decidable_of_iff _ owns_iff.symm
  | ⟨_, none⟩ => isFalse fun ⟨_, h⟩ => nomatch h

/-- **Two actors share an entry** exactly if the stem of one starts with the stem of the other. -/
theorem apart_iff : Apart ⟨m, some a⟩ ⟨m', some a'⟩ ↔
    ¬ (stem m a).toList <+: (stem m' a').toList ∧ ¬ (stem m' a').toList <+: (stem m a).toList := by
  constructor
  · intro h
    have hown : ∀ m a, (⟨m, some a⟩ : Identity).Owns (stem m a) :=
      fun m a => owns_iff.mpr (List.prefix_refl _)
    exact ⟨fun hp => h _ (owns_iff.mpr hp) (hown m' a'), fun hp => h _ (hown m a) (owns_iff.mpr hp)⟩
  · rintro ⟨h₁, h₂⟩ key hi hj
    rcases List.prefix_or_prefix_of_prefix (owns_iff.mp hi) (owns_iff.mp hj) with hp | hp
    · exact h₁ hp
    · exact h₂ hp

theorem apart_iff_savedKey_ne :
    Apart ⟨m, some a⟩ ⟨m', some a'⟩ ↔
      ∀ v w, savedKey ⟨m, some a⟩ v ≠ savedKey ⟨m', some a'⟩ w := by
  constructor
  · intro h v w heq
    exact h _ ⟨v, savedKey_eq m a v⟩ ⟨w, heq.symm.trans (savedKey_eq m a v)⟩
  · rintro h key ⟨v, hv⟩ ⟨w, hw⟩
    exact h v w (hv.trans hw.symm)

/-- Where the first dot stands is no matter of what follows. -/
theorem eq_of_append_dot {xs ys s t : List Char} (hx : '.' ∉ xs) (hy : '.' ∉ ys)
    (h : xs ++ '.' :: s = ys ++ '.' :: t) : xs = ys ∧ s = t := by
  induction xs generalizing ys with
  | nil =>
    cases ys with
    | nil => exact ⟨rfl, (List.cons.inj h).2⟩
    | cons y ys => exact absurd ((List.cons.inj h).1 ▸ List.mem_cons_self) hy
  | cons x xs ih =>
    cases ys with
    | nil => exact absurd ((List.cons.inj h).1 ▸ List.mem_cons_self) hx
    | cons y ys =>
      simp only [List.cons_append, List.cons.injEq] at h
      obtain ⟨rfl, h⟩ := h
      obtain ⟨rfl, hst⟩ := ih (fun hd => hx (List.mem_cons_of_mem _ hd))
        (fun hd => hy (List.mem_cons_of_mem _ hd)) h
      exact ⟨rfl, hst⟩

/-- Names without dots can be read off a key that starts with them. -/
theorem eq_of_stem_prefix (hm : '.' ∉ m.toList) (ha : '.' ∉ a.toList) (hm' : '.' ∉ m'.toList)
    (ha' : '.' ∉ a'.toList) (h : (stem m a).toList <+: (stem m' a').toList) : m = m' ∧ a = a' := by
  obtain ⟨rest, h⟩ := h
  have hdot : ".".toList = ['.'] := rfl
  simp only [stem, String.toList_append, hdot, List.append_assoc, List.singleton_append] at h
  obtain ⟨hmap, h⟩ := eq_of_append_dot hm hm' h
  obtain ⟨hactor, -⟩ := eq_of_append_dot ha ha' h
  exact ⟨String.toList_inj.mp hmap, String.toList_inj.mp hactor⟩

/-- On one map it takes no more than actors' names without dots. -/
theorem eq_of_stem_prefix_of_map (ha : '.' ∉ a.toList) (ha' : '.' ∉ a'.toList)
    (h : (stem m a).toList <+: (stem m a').toList) : a = a' := by
  obtain ⟨rest, h⟩ := h
  have hdot : ".".toList = ['.'] := rfl
  simp only [stem, String.toList_append, hdot, List.append_assoc, List.singleton_append] at h
  obtain ⟨-, h⟩ := List.cons.inj (List.append_cancel_left h)
  obtain ⟨hactor, -⟩ := eq_of_append_dot ha ha' h
  exact String.toList_inj.mp hactor

/-- **Names without dots** keep different actors apart. -/
theorem apart_of_dotless (hm : '.' ∉ m.toList) (ha : '.' ∉ a.toList) (hm' : '.' ∉ m'.toList)
    (ha' : '.' ∉ a'.toList) (hne : (⟨m, some a⟩ : Identity) ≠ ⟨m', some a'⟩) :
    Apart ⟨m, some a⟩ ⟨m', some a'⟩ := by
  refine apart_iff.mpr ⟨fun h => hne ?_, fun h => hne ?_⟩
  · obtain ⟨rfl, rfl⟩ := eq_of_stem_prefix hm ha hm' ha' h
    rfl
  · obtain ⟨rfl, rfl⟩ := eq_of_stem_prefix hm' ha' hm ha h
    rfl

/-- Different actors of one map are kept apart by names without dots, whatever the map is called. -/
theorem apart_of_map (ha : '.' ∉ a.toList) (ha' : '.' ∉ a'.toList) (hne : a ≠ a') :
    Apart ⟨m, some a⟩ ⟨m, some a'⟩ :=
  apart_iff.mpr ⟨fun h => hne (eq_of_stem_prefix_of_map ha ha' h),
    fun h => hne (eq_of_stem_prefix_of_map ha' ha h).symm⟩

end Identity

/-! ## Hosts -/

/-- What is saved under the key is `v`. -/
def Host.Saves (host : Host σ) (key : String) (v : Value) (s : σ) : Prop :=
  host.read (.saved key) s = v

/-- The saved values of the host are entries of a store: a write changes the one that it is for, and
    nothing else changes any. -/
structure Host.KeepsEntries (host : Host σ) : Prop where
  callFunction : ∀ f vs key v, (host.callFunction f vs).Keeps (host.Saves key v)
  callValue : ∀ f vs key v, (host.callValue f vs).Keeps (host.Saves key v)
  observe : ∀ step key v s, host.Saves key v s → host.Saves key v (host.observe step s)
  parameter : ∀ name w key v, (host.write (.parameter name) w).Keeps (host.Saves key v)
  saved : ∀ key' w key v, key' ≠ key → (host.write (.saved key') w).Keeps (host.Saves key v)

/-- **The host of an actor** keeps the saved values in the store that all actors share. -/
theorem Actor.keepsEntries_host (around : Builtin.Surroundings) :
    (Actor.host around).KeepsEntries where
  callFunction _ _ _ _ _ hs := hs
  callValue _ _ _ _ _ hs := hs
  observe _ _ _ _ hs := hs
  parameter _ _ _ _ _ hs := hs
  saved key' w key v hne x hx := by
    have hget : (x.2.set key' w).get? key = x.2.get? key := by
      rw [SaveStore.get?_set, if_neg hne]
    show ((x.2.set key' w).get? key).getD .absent = v
    rw [hget]
    exact hx

/-- The host, but writes of entries that do not belong to the actor are ignored. -/
def Host.confine (host : Host σ) (i : Identity) : Host σ :=
  { host with
    write := fun slot v =>
      match slot with
      | .parameter name => host.write (.parameter name) v
      | .saved key => if i.Owns key then host.write (.saved key) v else pure () }

variable {host : Host σ} {i : Identity}

/-- A confined host leaves the entries of others as they are. -/
theorem Host.KeepsEntries.serves_confine (h : host.KeepsEntries) {key : String}
    (hkey : ¬ i.Owns key) (script : Script) (v : Value) :
    (host.confine i).Serves script (host.Saves key v) fun _ => True where
  others _ _ := trivial
  callValue f _ vs := Action.keeps_iff_ensures.mp (h.callValue f vs key v)
  callFunction f _ vs := Action.keeps_iff_ensures.mp (h.callFunction f vs key v)
  observe step s hs := h.observe step key v s hs
  write slot w := by
    cases slot with
    | parameter name => exact Action.keeps_iff_ensures.mp (h.parameter name w key v)
    | saved key' =>
      show (if i.Owns key' then host.write (.saved key') w else pure ()).Ensures _ _
      split
      · rename_i hown
        have hne : key' ≠ key := fun he => hkey (he ▸ hown)
        exact Action.keeps_iff_ensures.mp (h.saved key' w key v hne)
      · exact Action.ensures_pure _

/-! ## Machines do not notice -/

theorem Host.write_confine {name key : String} (h : i.savedKey name = .ok key) (v : Value) :
    (host.confine i).write (.saved key) v = host.write (.saved key) v := if_pos ⟨name, h⟩

/-- The actor can reach no entries but its own, and those are not confined. -/
theorem Host.relatedFor_confine (host : Host σ) (i : Identity) :
    (host.confine i).RelatedFor i 0 Eq host where
  callFunction _ _ := Action.related_eq _
  callValue _ _ := Action.related_eq _
  read slot _ _ _ hst := congrArg (host.read slot) hst
  write slot hslot v := by
    cases hslot with
    | parameter name => exact Action.related_eq (host.write (.parameter name) v)
    | saved hkey =>
      rw [Host.write_confine hkey]
      exact Action.related_eq _
  observe step _ _ hst := congrArg (host.observe step) hst

namespace Machine

/-- **A machine does not notice** that its host ignores writes of entries of others. -/
theorem perform_confine (host : Host σ) (op : Operation) (m : Machine) (s : σ) :
    op.perform (host.confine m.identity) (m, s) = op.perform host (m, s) := by
  obtain ⟨s', hs', heq⟩ :=
    (perform_counterpart (host.relatedFor_confine m.identity) op (Eq.refl s)).exists_eq
  rw [later_zero, later_zero] at heq
  rw [heq, ← hs']

/-- No operation changes an entry that does not belong to the machine's actor. -/
theorem read_perform_of_not_owns (h : host.KeepsEntries) {m : Machine} {key : String}
    (hkey : ¬ m.identity.Owns key) (op : Operation) (s : σ) :
    host.read (.saved key) (op.perform host (m, s)).2.2 = host.read (.saved key) s := by
  have hserves := h.serves_confine hkey m.script (host.read (.saved key) s)
  have hkept := (perform_ensures hserves op s rfl).1
  rw [perform_confine] at hkept
  exact hkept

end Machine

/-! ## Isolation -/

namespace Identity

/-- No operation of a machine of the actor `i` changes what is saved in an entry of the actor `j`,
    whatever the machine runs and whatever state it is in. -/
def Isolated (i j : Identity) : Prop :=
  ∀ (σ : Type) (host : Host σ), host.KeepsEntries → ∀ m : Machine, m.identity = i →
    ∀ (op : Operation) (s : σ) (key : String), j.Owns key →
      host.read (.saved key) (op.perform host (m, s)).2.2 = host.read (.saved key) s

/-- A script with one saved variable, and no states. -/
def claimant (name : String) : Script where
  vars := [⟨name, true, some (.bool true), .start⟩]

/-- A machine for that script. -/
def claimantMachine (i : Identity) (name : String) : Machine where
  script := claimant name
  identity := i
  options := {}
  locals := .initial (claimant name)

/-- Its first operation stores the default of the variable. -/
theorem read_activate_claimant {i : Identity} {name key : String} (h : i.savedKey name = .ok key)
    (around : Builtin.Surroundings) (b : Body) :
    (Actor.host around).read (.saved key)
      (Machine.activate (Actor.host around) (claimantMachine i name, b, {})).2.2 = .bool true := by
  have hseed : Machine.seedSaved i (Actor.host around) (claimant name).vars (b, {}) =
      (.ok (), b, SaveStore.set {} key (.bool true)) := by
    simp only [claimant, Machine.seedSaved, h, if_true]
    rfl
  have hchoose : Machine.choose (claimant name) i (Actor.host around)
      (.initial (claimant name), b, SaveStore.set {} key (.bool true)) =
      (.error (.noActiveState i.displayName), .initial (claimant name), b,
        SaveStore.set {} key (.bool true)) := rfl
  have hrun : (Machine.activate (Actor.host around) (claimantMachine i name, b, {})).2.2 =
      (b, SaveStore.set {} key (.bool true)) := by
    rw [Machine.activate_eq]
    simp only [claimantMachine, hseed, Machine.select, hchoose]
  rw [hrun]
  show ((SaveStore.set {} key (.bool true)).get? key).getD .absent = .bool true
  rw [SaveStore.get?_set, if_pos rfl]
  rfl

theorem apart_of_isolated {i j : Identity} (h : i.Isolated j) : i.Apart j := by
  rintro key ⟨name, hname⟩ hj
  let around : Builtin.Surroundings := { strings := {} }
  let b : Body := { position := ⟨0, 0⟩, orientation := .down }
  have hkept := h _ (Actor.host around) (Actor.keepsEntries_host around)
    (claimantMachine i name) rfl .activate (b, {}) key hj
  have hwritten := read_activate_claimant hname around b
  rw [show (Actor.host around).read (.saved key) (b, {}) = .absent from rfl] at hkept
  exact absurd (hwritten.symm.trans hkept) (by decide)

theorem isolated_of_apart {i j : Identity} (h : i.Apart j) : i.Isolated j := by
  intro σ host hhost m hm op s key hj
  subst hm
  exact Machine.read_perform_of_not_owns hhost (fun hi => h key hi hj) op s

/-- **Isolation of saved values.**  For two actors with names the following are the same: no
    operation of a machine of the first changes what is saved in an entry of the second; no names
    give both the same key; the stem of neither starts with the stem of the other. -/
theorem isolated_tfae (mapName actor mapName' actor' : String) : List.TFAE [
    Isolated ⟨mapName, some actor⟩ ⟨mapName', some actor'⟩,
    ∀ v w, savedKey ⟨mapName, some actor⟩ v ≠ savedKey ⟨mapName', some actor'⟩ w,
    ¬ (stem mapName actor).toList <+: (stem mapName' actor').toList ∧
      ¬ (stem mapName' actor').toList <+: (stem mapName actor).toList] := by
  tfae_have 1 → 2 := fun h => apart_iff_savedKey_ne.mp (apart_of_isolated h)
  tfae_have 2 → 3 := fun h => apart_iff.mp (apart_iff_savedKey_ne.mpr h)
  tfae_have 3 → 1 := fun h => isolated_of_apart (apart_iff.mpr h)
  tfae_finish

end Identity

/-! Two actors of one map, of whose names one goes on behind the other and a dot. -/

/-- The text of a script that saves a value under a name of its own choosing. -/
def trespass : String :=
  "state Closed(!savedVariables[\"x.gold\"]) \x7b event actionPressed() \x7b" ++
    " savedVariables[\"x.gold\"] = 7; \x7d \x7d state Open(true) \x7b \x7d"

/-- What the actor `Bob.x` finds saved as its `gold`, if nothing was saved before the machine of
    `Bob` did these things without a failure. -/
def goldAfter (ops : List Operation) : Except Error Value := do
  let m ← Machine.create (← Script.parse trespass) ⟨"town", some "Bob"⟩ {}
  let host := Actor.host { strings := {} }
  let (r, _, s) :=
    Operation.performAll host ops (m, { position := ⟨0, 0⟩, orientation := .down }, {})
  r
  return host.read (.saved (← Identity.savedKey ⟨"town", some "Bob.x"⟩ "gold")) s

/-- **Two actors that are not isolated**: they differ and have names, and yet what the machine of
    the one does changes what is saved for the other. -/
theorem not_isolated_bob :
    (⟨"town", some "Bob"⟩ : Identity) ≠ ⟨"town", some "Bob.x"⟩ ∧
      goldAfter [.activate] = .ok .absent ∧
      goldAfter [.activate, .trigger .actionPressed] = .ok (.int 7) ∧
      ¬ Identity.Isolated ⟨"town", some "Bob"⟩ ⟨"town", some "Bob.x"⟩ := by
  refine ⟨by decide, by cbv, by cbv, fun h => ?_⟩
  have hkey : Identity.savedKey ⟨"town", some "Bob"⟩ "x.gold" =
      Identity.savedKey ⟨"town", some "Bob.x"⟩ "gold" := by cbv
  exact Identity.apart_iff_savedKey_ne.mp (Identity.apart_of_isolated h) _ _ hkey

end ActorScript
