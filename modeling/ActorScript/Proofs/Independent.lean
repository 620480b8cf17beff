/-
  Actors that share a session.

  All actors of a session work on one save store.  What one of them does depends on the store only
  through the actor's own entries, and all it does to the store is a list of writes of these
  (`Actor.KeepsTo`), however it ends.  So actors that share no entry do not notice each other: when
  a session lets all of them act, each comes out as if it had acted alone, and their order makes no
  difference to what becomes of them and of the store (`Session.Independent`).

  That no entry is shared follows from names without dots, and from the fact that the machine of an
  actor belongs to that actor and to the map of the session, which holds through every history
  (`Session.Placed`).
-/
import ActorScript.Proofs.Isolation
import ActorScript.Proofs.SessionCall

namespace ActorScript

/-! ## Writes -/

namespace SaveStore

/-- Saves several values, one after the other. -/
def setAll (s : SaveStore) (ws : List (String × Value)) : SaveStore :=
  ws.foldl (fun s w => s.set w.1 w.2) s

theorem setAll_append (s : SaveStore) (ws ws' : List (String × Value)) :
    s.setAll (ws ++ ws') = (s.setAll ws).setAll ws' := List.foldl_append

theorem get?_setAll_congr {s t : SaveStore} {key : String} (h : s.get? key = t.get? key)
    (ws : List (String × Value)) : (s.setAll ws).get? key = (t.setAll ws).get? key := by
  induction ws generalizing s t with
  | nil => exact h
  | cons w ws ih =>
    refine ih ?_
    rw [get?_set, get?_set, h]

theorem get?_setAll_of_ne {key : String} {ws : List (String × Value)} (h : ∀ w ∈ ws, w.1 ≠ key)
    (s : SaveStore) : (s.setAll ws).get? key = s.get? key := by
  induction ws generalizing s with
  | nil => rfl
  | cons w ws ih =>
    obtain ⟨hw, hws⟩ := List.forall_mem_cons.mp h
    refine (ih hws (s.set w.1 w.2)).trans ?_
    rw [get?_set, if_neg hw]

/-- A write is a change exactly if something else was there. -/
theorem file_set (s : SaveStore) (key : String) (v : Value) :
    (s.set key v).file =
      if s.get? key = some v then s.file else s.file.map fun f => { f with dirty := true } := by
  rw [set]
  split <;> rfl

theorem ext_get? {s t : SaveStore} (h : ∀ key, s.get? key = t.get? key) (hfile : s.file = t.file) :
    s = t := by
  cases s
  cases t
  cases hfile
  cases Dict.ext_get? h
  rfl

/-- Writes of different entries commute. -/
theorem set_comm {k k' : String} (hne : k ≠ k') (v v' : Value) (s : SaveStore) :
    (s.set k v).set k' v' = (s.set k' v').set k v := by
  refine ext_get? (fun key => ?_) ?_
  · simp only [get?_set]
    split
    · rename_i h'
      rw [if_neg fun h => hne (h.trans h'.symm)]
    · rfl
  · simp only [file_set, get?_set, if_neg hne, if_neg hne.symm]
    split <;> split <;> simp only [Option.map_map, Function.comp_def]

theorem set_setAll_comm {k : String} {ws : List (String × Value)} (h : ∀ w ∈ ws, w.1 ≠ k)
    (v : Value) (s : SaveStore) : (s.set k v).setAll ws = (s.setAll ws).set k v := by
  induction ws generalizing s with
  | nil => rfl
  | cons w ws ih =>
    obtain ⟨hw, hws⟩ := List.forall_mem_cons.mp h
    show ((s.set k v).set w.1 w.2).setAll ws = _
    rw [set_comm hw.symm]
    exact ih hws _

theorem setAll_comm {ws ws' : List (String × Value)} (h : ∀ w ∈ ws, ∀ w' ∈ ws', w.1 ≠ w'.1)
    (s : SaveStore) : (s.setAll ws).setAll ws' = (s.setAll ws').setAll ws := by
  induction ws' generalizing s with
  | nil => rfl
  | cons w' ws' ih =>
    have hw' : ∀ w ∈ ws, w.1 ≠ w'.1 := fun w hw => h w hw w' List.mem_cons_self
    show ((s.setAll ws).set w'.1 w'.2).setAll ws' = ((s.set w'.1 w'.2).setAll ws').setAll ws
    rw [← set_setAll_comm hw']
    exact ih (fun w hw v hv => h w hw v (List.mem_cons_of_mem _ hv)) _

/-- The same is saved under all keys of the actor. -/
def AgreeFor (i : Identity) (s t : SaveStore) : Prop := ∀ key, i.Owns key → s.get? key = t.get? key

theorem AgreeFor.setAll {i : Identity} {s t : SaveStore} (h : AgreeFor i s t)
    (ws : List (String × Value)) : AgreeFor i (s.setAll ws) (t.setAll ws) :=
  fun key hkey => get?_setAll_congr (h key hkey) ws

end SaveStore

/-- Only entries of the actor are written. -/
def Identity.OwnsAll (i : Identity) (ws : List (String × Value)) : Prop := ∀ w ∈ ws, i.Owns w.1

theorem Identity.Apart.symm {i j : Identity} (h : i.Apart j) : j.Apart i :=
  fun key hj hi => h key hi hj

open SaveStore (AgreeFor)

theorem Identity.OwnsAll.agreeFor {i j : Identity} {ws : List (String × Value)} (h : i.OwnsAll ws)
    (hij : i.Apart j) (s : SaveStore) : AgreeFor j s (s.setAll ws) := by
  intro key hkey
  refine (SaveStore.get?_setAll_of_ne (fun w hw he => ?_) s).symm
  exact hij w.1 (h w hw) (he ▸ hkey)

/-! ## What one actor does -/

namespace Actor

/-- Of the store, the operation looks only at the actor's own entries, and it only writes these. -/
def KeepsTo (i : Identity) (op : Action (Actor × SaveStore) Unit) (a : Actor) : Prop :=
  ∀ s t, AgreeFor i s t → ∃ r a' ws, i.OwnsAll ws ∧
    op (a, s) = (r, a', s.setAll ws) ∧ op (a, t) = (r, a', t.setAll ws)

/-- The bodies are the same, and the stores have been changed by the same writes of the actor's
    own entries. -/
def SameWrites (i : Identity) (s₀ t₀ : SaveStore) (x y : Body × SaveStore) : Prop :=
  x.1 = y.1 ∧ ∃ ws, i.OwnsAll ws ∧ x.2 = s₀.setAll ws ∧ y.2 = t₀.setAll ws

variable {i j : Identity} {a b : Actor} {mapName : String}

/-- **The host of an actor** takes from the store and does to it the same, if the actor's own
    entries are the same. -/
theorem relatedFor_host (around : Builtin.Surroundings) {s₀ t₀ : SaveStore}
    (h : AgreeFor i s₀ t₀) :
    (host around).RelatedFor i 0 (SameWrites i s₀ t₀) (host around) where
  callFunction f vs := by
    rintro ⟨b, s⟩ ⟨_, t⟩ ⟨rfl, hwrites⟩
    exact ⟨rfl, rfl, hwrites⟩
  callValue f vs := by
    rintro ⟨b, s⟩ ⟨_, t⟩ ⟨rfl, hwrites⟩
    exact ⟨rfl, rfl, hwrites⟩
  read slot hslot := by
    rintro ⟨b, _⟩ ⟨_, _⟩ ⟨rfl, ws, hws, rfl, rfl⟩
    cases hslot with
    | parameter key => rfl
    | @saved name key hkey => exact congrArg (·.getD .absent) (h.setAll ws key ⟨name, hkey⟩)
  write slot hslot v := by
    rintro ⟨b, _⟩ ⟨_, _⟩ ⟨rfl, ws, hws, rfl, rfl⟩
    cases hslot with
    | parameter key => exact ⟨rfl, rfl, ws, hws, rfl, rfl⟩
    | @saved name key hkey =>
      refine ⟨rfl, rfl, ws ++ [(key, v)], ?_, ?_, ?_⟩
      · intro w hw
        rcases List.mem_append.mp hw with hw | hw
        · exact hws w hw
        · cases List.mem_singleton.mp hw
          exact ⟨name, hkey⟩
      · exact (s₀.setAll_append ws [(key, v)]).symm
      · exact (t₀.setAll_append ws [(key, v)]).symm
  observe _ _ _ hst := hst

/-- **What its machine does** keeps an actor to its own entries. -/
theorem keepsTo_withMachine (ha : a.PlacedOn mapName) (around : Builtin.Surroundings)
    (op : Operation) :
    KeepsTo (a.identity mapName) (withMachine (op.perform (host around))) a := by
  intro s t hst
  cases hm : a.machine with
  | none =>
    refine ⟨.ok (), a, [], fun w hw => (List.not_mem_nil hw).elim, ?_, ?_⟩
    · simp only [withMachine, hm]
      rfl
    · simp only [withMachine, hm]
      rfl
  | some m =>
    have hrelated : (host around).RelatedFor m.identity 0
        (SameWrites (a.identity mapName) s t) (host around) := by
      rw [ha m hm]
      exact relatedFor_host around hst
    have hstart : SameWrites (a.identity mapName) s t (a.body, s) (a.body, t) :=
      ⟨rfl, [], fun w hw => (List.not_mem_nil hw).elim, rfl, rfl⟩
    obtain ⟨⟨body, t'⟩, ⟨hbody, ws, hws, hs', ht'⟩, hop⟩ :=
      (Machine.perform_counterpart hrelated op hstart).exists_eq
    rw [Machine.later_zero, Machine.later_zero] at hop
    rcases hrun : op.perform (host around) (m, a.body, s) with ⟨r, m', body', s'⟩
    rw [hrun] at hbody hs' hop
    obtain rfl : body' = body := hbody
    obtain rfl : s' = s.setAll ws := hs'
    obtain rfl : t' = t.setAll ws := ht'
    refine ⟨r, { a with machine := some m', body := body' }, ws, hws, ?_, ?_⟩
    · simp only [withMachine, hm, hrun]
    · simp only [withMachine, hm, hop]

theorem keepsTo_ok (i : Identity) (a : Actor) : KeepsTo i (fun x => (.ok (), x)) a :=
  fun _ _ _ => ⟨.ok (), a, [], fun _ hw => (List.not_mem_nil hw).elim, rfl, rfl⟩

theorem keepsTo_spawn (ha : a.PlacedOn mapName) (around : Builtin.Surroundings) :
    KeepsTo (a.identity mapName) (spawn around) a := by
  intro s t hst
  simp only [spawn]
  split
  · exact keepsTo_ok _ a s t hst
  · have hon : PlacedOn mapName { a with spawned := true } := ha
    exact keepsTo_withMachine hon around .activate s t hst

theorem keepsTo_update (ha : a.PlacedOn mapName) (around : Builtin.Surroundings) (dt : UInt64) :
    KeepsTo (a.identity mapName) (update around dt) a := by
  intro s t hst
  simp only [update]
  split
  · exact keepsTo_withMachine ha around (.newFrame dt) s t hst
  · exact keepsTo_ok _ a s t hst

namespace KeepsTo

variable {op : Action (Actor × SaveStore) Unit} {s t : SaveStore}

/-- If the actor's own entries are the same, so is what the operation does. -/
theorem congr (h : KeepsTo i op a) (hst : AgreeFor i s t) :
    (op (a, t)).1 = (op (a, s)).1 ∧ (op (a, t)).2.1 = (op (a, s)).2.1 ∧
      AgreeFor i (op (a, s)).2.2 (op (a, t)).2.2 := by
  obtain ⟨r, a', ws, -, hs, ht⟩ := h s t hst
  rw [hs, ht]
  exact ⟨rfl, rfl, hst.setAll ws⟩

/-- Entries that are not the actor's own stay as they are. -/
theorem frame (h : KeepsTo i op a) {key : String} (hkey : ¬ i.Owns key) :
    (op (a, s)).2.2.get? key = s.get? key := by
  obtain ⟨r, a', ws, hws, hs, -⟩ := h s s fun _ _ => rfl
  rw [hs]
  exact SaveStore.get?_setAll_of_ne (fun w hw (he : w.1 = key) => hkey (he ▸ hws w hw)) s

/-- The entries of another actor stay as they are. -/
theorem agreeFor (h : KeepsTo i op a) (hij : i.Apart j) (s : SaveStore) :
    AgreeFor j s (op (a, s)).2.2 :=
  fun key hkey => (h.frame fun hi => hij key hi hkey).symm

/-- Which of two actors comes first makes no difference to the store. -/
theorem comm (ha : KeepsTo i op a) (hb : KeepsTo j op b) (hij : i.Apart j) (s : SaveStore) :
    (op (b, (op (a, s)).2.2)).2.2 = (op (a, (op (b, s)).2.2)).2.2 := by
  obtain ⟨_, _, ws, hws, has, hat⟩ := ha s _ (hb.agreeFor hij.symm s)
  obtain ⟨_, _, ws', hws', hbs, hbt⟩ := hb s _ (ha.agreeFor hij s)
  rw [hat, hbt, has, hbs]
  exact SaveStore.setAll_comm (fun w hw w' hw' (he : w.1 = w'.1) =>
    hij w.1 (hws w hw) (he ▸ hws' w' hw')) s

end KeepsTo

end Actor

/-! ## What all actors do -/

namespace Session

open Actor (KeepsTo)

/-- The first failure of several results. -/
def firstError : List (Except Error Unit) → Except Error Unit
  | [] => .ok ()
  | .error e :: _ => .error e
  | .ok () :: rest => firstError rest

section ForEach

variable {op : Action (Actor × SaveStore) Unit} {mapName : String}

/-- No two of the actors share an entry. -/
def ApartOn (mapName : String) (actors : List Actor) : Prop :=
  actors.Pairwise fun a b => (a.identity mapName).Apart (b.identity mapName)

/-- The store goes from hand to hand. -/
theorem forEach_store (op : Action (Actor × SaveStore) Unit) (actors : List Actor) (s : SaveStore) :
    (forEach op actors s).2.2 = actors.foldl (fun s a => (op (a, s)).2.2) s := by
  induction actors generalizing s with
  | nil => rfl
  | cons a rest ih =>
    rw [forEach]
    exact ih _

/-- Entries that belong to none of the actors stay as they are. -/
theorem forEach_frame {actors : List Actor}
    (hops : ∀ a ∈ actors, KeepsTo (a.identity mapName) op a) {key : String}
    (hkey : ∀ a ∈ actors, ¬ (a.identity mapName).Owns key) (s : SaveStore) :
    (forEach op actors s).2.2.get? key = s.get? key := by
  rw [forEach_store]
  refine List.foldlRecOn actors _ (motive := fun t : SaveStore => t.get? key = s.get? key) rfl
    fun t ht a ha => ?_
  rw [(hops a ha).frame (hkey a ha)]
  exact ht

/-- **Every actor acts as if it were alone**: from the store of the beginning it gets the same
    result, comes out the same, and leaves the same in its own entries. -/
theorem forEach_spec {actors : List Actor} (hops : ∀ a ∈ actors, KeepsTo (a.identity mapName) op a)
    (hapart : ApartOn mapName actors) (s : SaveStore) :
    (forEach op actors s).1 = firstError (actors.map fun a => (op (a, s)).1) ∧
      (forEach op actors s).2.1 = actors.map (fun a => (op (a, s)).2.1) ∧
      ∀ a ∈ actors, AgreeFor (a.identity mapName) (op (a, s)).2.2 (forEach op actors s).2.2 := by
  induction actors generalizing s with
  | nil => exact ⟨rfl, rfl, fun a ha => (List.not_mem_nil ha).elim⟩
  | cons a rest ih =>
    obtain ⟨hfirst, hrest⟩ := List.pairwise_cons.mp hapart
    obtain ⟨hop, hkept⟩ := List.forall_mem_cons.mp hops
    obtain ⟨hresult, hactors, hentries⟩ := ih hkept hrest (op (a, s)).2.2
    -- the others find their own entries as they were before the first one
    have hsame : ∀ b ∈ rest, (op (b, (op (a, s)).2.2)).1 = (op (b, s)).1 ∧
        (op (b, (op (a, s)).2.2)).2.1 = (op (b, s)).2.1 ∧
        AgreeFor (b.identity mapName) (op (b, s)).2.2 (op (b, (op (a, s)).2.2)).2.2 :=
      fun b hb => (hkept b hb).congr (hop.agreeFor (hfirst b hb) s)
    have hresults : rest.map (fun b => (op (b, (op (a, s)).2.2)).1) =
        rest.map fun b => (op (b, s)).1 := List.map_congr_left fun b hb => (hsame b hb).1
    have hcomes : rest.map (fun b => (op (b, (op (a, s)).2.2)).2.1) =
        rest.map fun b => (op (b, s)).2.1 := List.map_congr_left fun b hb => (hsame b hb).2.1
    rw [hresults] at hresult
    rw [hcomes] at hactors
    refine ⟨?result, ?actors, ?entries⟩
    case result =>
      rw [List.map_cons, forEach]
      simp only [hresult]
      cases (op (a, s)).1 with
      | error e => rfl
      | ok u => rfl
    case actors =>
      rw [List.map_cons, forEach]
      simp only [hactors]
    case entries =>
      rintro b hb key hkey
      rcases List.mem_cons.mp hb with rfl | hb
      · -- and they leave those of the first one as they find them
        have hothers : ∀ c ∈ rest, ¬ (c.identity mapName).Owns key :=
          fun c hc hc' => hfirst c hc key hkey hc'
        exact (forEach_frame hkept hothers (op (b, s)).2.2).symm
      · exact ((hsame b hb).2.2 key hkey).trans (hentries b hb key hkey)

/-- **The order of the actors** makes no difference to the store. -/
theorem forEach_store_perm {actors actors' : List Actor} (hperm : actors'.Perm actors)
    (hops : ∀ a ∈ actors, KeepsTo (a.identity mapName) op a) (hapart : ApartOn mapName actors)
    (s : SaveStore) : (forEach op actors' s).2.2 = (forEach op actors s).2.2 := by
  rw [forEach_store, forEach_store]
  refine hperm.foldl_eq' (fun a ha b hb t => ?_) s
  by_cases hab : a = b
  · rw [hab]
  · have hsymm : Std.Symm fun a b : Actor => (a.identity mapName).Apart (b.identity mapName) :=
      ⟨fun _ _ h => h.symm⟩
    have ha := hperm.mem_iff.mp ha
    have hb := hperm.mem_iff.mp hb
    exact (hops a ha).comm (hops b hb) (hapart.forall ha hb hab) t

end ForEach

/-! ## Independence -/

/-- The names of the actors that have one. -/
def names (s : Session) : List String := s.actors.filterMap (·.name)

/-- Whatever `all` does with the session, it does with each actor what `one` does with this actor
    alone. -/
structure Independent (all : Action Session Unit) (one : Nat → Action Session Unit)
    (s : Session) : Prop where
  /-- Each actor comes out as if only this one had been concerned. -/
  actor : ∀ i : Nat, (all s).2.actors[i]? = (one i s).2.actors[i]?
  /-- So does everything saved under a key of the actor. -/
  entry : ∀ (i : Nat) a key, s.actors[i]? = some a → (a.identity s.mapName).Owns key →
    (all s).2.store.get? key = (one i s).2.store.get? key
  /-- What is saved under other keys stays as it is. -/
  others : ∀ key, (∀ a ∈ s.actors, ¬ (a.identity s.mapName).Owns key) →
    (all s).2.store.get? key = s.store.get? key
  /-- Of the failures that the actors have by themselves, the first is reported. -/
  result : (all s).1 = firstError (s.actors.mapIdx fun i _ => (one i s).1)
  /-- In another order, the same becomes of the store, and the same of every actor, which also has
      the same result. -/
  order : ∀ actors : List Actor, actors.Perm s.actors →
    (all { s with actors }).2.store = (all s).2.store ∧
      ∀ i j : Nat, actors[i]? = s.actors[j]? →
        (all { s with actors }).2.actors[i]? = (all s).2.actors[j]? ∧
          (one i { s with actors }).1 = (one j s).1

variable {op : Builtin.Surroundings → Action (Actor × SaveStore) Unit}

theorem withActor_of_some {i : Nat} {s : Session} {a : Actor} (h : s.actors[i]? = some a) :
    (withActor op i s).1 = (op s.surroundings (a, s.store)).1 ∧
      (withActor op i s).2.actors[i]? = some (op s.surroundings (a, s.store)).2.1 ∧
      (withActor op i s).2.store = (op s.surroundings (a, s.store)).2.2 := by
  have hi : i < s.actors.length := (List.getElem?_eq_some_iff.mp h).1
  simp only [withActor, h]
  exact ⟨trivial, List.getElem?_set_self hi, trivial⟩

theorem withActor_of_none {i : Nat} {s : Session} (h : s.actors[i]? = none) :
    withActor op i s = (.ok (), s) := by
  simp only [withActor, h]

/-- The results that the actors have by themselves. -/
theorem mapIdx_withActor (s : Session) : (s.actors.mapIdx fun i _ => (withActor op i s).1) =
      s.actors.map fun a => (op s.surroundings (a, s.store)).1 := by
  refine List.ext_getElem? fun i => ?_
  rw [List.getElem?_mapIdx, List.getElem?_map]
  cases hi : s.actors[i]? with
  | none => rfl
  | some a => exact congrArg some (withActor_of_some hi).1

theorem apartOn_of_names {s : Session} (hnodup : s.names.Nodup)
    (hdots : ∀ name ∈ s.names, '.' ∉ name.toList) : ApartOn s.mapName s.actors := by
  have hpairs := List.pairwise_filterMap.mp hnodup
  refine hpairs.imp_of_mem fun {a b} ha hb hne => ?_
  rintro key ⟨v, hv⟩ ⟨w, hw⟩
  cases hna : a.name with
  | none =>
    rw [Actor.identity, hna] at hv
    cases hv
  | some x =>
    cases hnb : b.name with
    | none =>
      rw [Actor.identity, hnb] at hw
      cases hw
    | some y =>
      have hx := hdots x (List.mem_filterMap.mpr ⟨a, ha, hna⟩)
      have hy := hdots y (List.mem_filterMap.mpr ⟨b, hb, hnb⟩)
      rw [Actor.identity, hna] at hv
      rw [Actor.identity, hnb] at hw
      exact Identity.apart_of_map hx hy (hne x hna y hnb) key ⟨v, hv⟩ ⟨w, hw⟩

/-- **Actors that keep to their own entries**, and share none, are independent. -/
theorem independent_of_keepsTo {s : Session} (hapart : ApartOn s.mapName s.actors)
    (hops : ∀ a ∈ s.actors, Actor.KeepsTo (a.identity s.mapName) (op s.surroundings) a) :
    s.Independent (withAll op) (withActor op) := by
  obtain ⟨hresult, hactors, hentries⟩ := forEach_spec hops hapart s.store
  refine ⟨?actor, ?entry, ?others, ?result, ?order⟩
  case actor =>
    intro i
    show (forEach _ _ _).2.1[i]? = _
    rw [hactors, List.getElem?_map]
    cases hi : s.actors[i]? with
    | none =>
      rw [withActor_of_none hi, hi]
      rfl
    | some a => exact (withActor_of_some hi).2.1.symm
  case entry =>
    intro i a key hi hkey
    rw [(withActor_of_some hi).2.2]
    exact (hentries a (List.mem_of_getElem? hi) key hkey).symm
  case others =>
    intro key hkey
    exact forEach_frame hops hkey s.store
  case result =>
    rw [mapIdx_withActor]
    exact hresult
  case order =>
    intro actors hperm
    refine ⟨forEach_store_perm hperm hops hapart s.store, fun i j hij => ⟨?_, ?_⟩⟩
    · obtain ⟨-, hactors', -⟩ := forEach_spec (fun a ha => hops a (hperm.mem_iff.mp ha))
        (hperm.symm.pairwise hapart fun h => h.symm) s.store
      show (forEach (op s.surroundings) actors s.store).2.1[i]? =
        (forEach (op s.surroundings) s.actors s.store).2.1[j]?
      rw [hactors, hactors', List.getElem?_map, List.getElem?_map, hij]
    · cases hj : s.actors[j]? with
      | none => rw [withActor_of_none hj, withActor_of_none (s := { s with actors }) (hij.trans hj)]
      | some a =>
        rw [(withActor_of_some hj).1, (withActor_of_some (s := { s with actors }) (hij.trans hj)).1]
        rfl

/-- **The actors of a session do not influence one another.**  After any history of a session, if
    the names of its actors are different and have no dots, putting all actors on the map and
    letting a frame pass for all of them are independent operations.

    The saved values are those of a store of this library, in memory or in a file, which takes every
    value; a store that could refuse one is not considered. -/
theorem independent_after {start : Session} (hstart : start.actors = [])
    (ops : List SessionOperation) (hnodup : (start.after ops).names.Nodup)
    (hdots : ∀ name ∈ (start.after ops).names, '.' ∉ name.toList) :
    (start.after ops).Independent spawnAll (withActor Actor.spawn) ∧
      ∀ dt, (start.after ops).Independent (tick dt)
        (withActor fun around => Actor.update around dt) := by
  have hempty : start.Placed := by
    rw [Placed, hstart]
    exact fun a ha => (List.not_mem_nil ha).elim
  have hplaced := placed_after hempty ops
  have hapart := apartOn_of_names hnodup hdots
  exact ⟨independent_of_keepsTo hapart fun a ha => Actor.keepsTo_spawn (hplaced a ha) _,
    fun dt => independent_of_keepsTo hapart fun a ha => Actor.keepsTo_update (hplaced a ha) _ dt⟩

/-! Two actors that save something, one of which fails. -/

/-- A script that saves a default and then calls a function. -/
def tally (function : String) : Script where
  vars := [{ name := "seen", persisted := true, initial := some (.int 1), location := ⟨1, 1⟩ }]
  states := [
    { name := "S", condition := .literal (.bool true), handlers := { spawn := some 0 },
      location := ⟨2, 1⟩ }]
  blocks := [[.call function [] ⟨3, 1⟩]]

/-- A map on which nothing is yet. -/
def emptyTown : Session := { mapName := "town", cache := { root := "" } }

/-- The scripts are put in place, and two actors are added. -/
def gather : List SessionOperation := [
  .setCache { root := "", parsed := [
    (⟨"town", "stumble"⟩, tally "stumble"), (⟨"town", "lock"⟩, tally "lockInputs")] },
  .add {} { name := some "Anna", script := some "stumble" },
  .add {} { name := some "Bob", script := some "lock" }]

theorem independent_gathered :
    (emptyTown.after gather).names = ["Anna", "Bob"] ∧
      (spawnAll (emptyTown.after gather)).1 = .error (.unknownFunction "stumble") ∧
      (spawnAll (emptyTown.after gather)).2.store.get? "town.Anna.seen" = some (.int 1) ∧
      (spawnAll (emptyTown.after gather)).2.store.get? "town.Bob.seen" = some (.int 1) ∧
      (emptyTown.after gather).Independent spawnAll (withActor Actor.spawn) ∧
      (emptyTown.after gather).Independent (tick 16)
        (withActor fun around => Actor.update around 16) := by
  have hnames : (emptyTown.after gather).names = ["Anna", "Bob"] := by cbv
  have hstart : emptyTown.actors = [] := rfl
  obtain ⟨hspawn, htick⟩ := independent_after hstart gather
    (by rw [hnames]; decide) (by rw [hnames]; decide)
  exact ⟨hnames, by cbv, by cbv, by cbv, hspawn, htick 16⟩

end Session

end ActorScript
