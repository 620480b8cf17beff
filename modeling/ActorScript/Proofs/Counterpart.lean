/-
  The same operation on a counterpart.

  The generation counts switches, and a machine uses the count for one purpose only: to notice that
  it has gone up.  So a machine that has gone through more switches before does the same as one
  that has gone through fewer, and if the hosts of the two are related, so is what they do to them
  (`perform_counterpart`).  Of the hosts this needs only what a machine of the actor can reach:
  parameters, functions, and the actor's own entries of the save store.

  It is the free theorem of `Related` for whole operations, by induction over cues and switches.
-/
import ActorScript.Proofs.Operation
import ActorScript.Proofs.Recorder

namespace ActorScript

variable {σ τ : Type} {R : σ → τ → Prop}

namespace Machine

/-! ## Machines that have gone through more switches -/

section Later

variable (m : Machine) (k : Nat)

/-- Entering a state counts one switch more, on top of whatever was counted before. -/
theorem inside_later (i : Nat) (st : State) :
    (m.later k).inside i st = (m.inside i st).later k := by
  have hgen : m.generation + k + 1 = m.generation + 1 + k := by omega
  show ({ m.inside i st with generation := m.generation + k + 1 } : Machine) = _
  rw [hgen]
  rfl

/-- A despawn counts one switch more, too. -/
theorem despawn_later : (m.later k).despawn = m.despawn.later k := by
  have hgen : m.generation + k + 1 = m.generation + 1 + k := by omega
  show ({ m.despawn with generation := m.generation + k + 1 } : Machine) = _
  rw [hgen]
  rfl

/-- An abort compares the count with the one its handler began with; both have gone up by the same.
    -/
theorem abort_later (e : Event) (g : Nat) :
    (m.later k).abort e (g + k) = (m.abort e g).later k := by
  by_cases hg : m.generation = g
  · have hg' : (m.later k).generation = g + k := congrArg (· + k) hg
    rw [abort, abort, if_pos hg, if_pos hg']
    rfl
  · have hg' : (m.later k).generation ≠ g + k := fun h => hg (Nat.add_right_cancel h)
    rw [abort, abort, if_neg hg, if_neg hg']

end Later

/-! ## Outcomes that match -/

/-- The same result, the machine that has gone through `k` switches more, and related hosts. -/
structure Counterpart {ρ : Type} (k : Nat) (R : σ → τ → Prop) (x : ρ × Machine × σ)
    (y : ρ × Machine × τ) : Prop where
  result : y.1 = x.1
  machine : y.2.1 = x.2.1.later k
  host : R x.2.2 y.2.2

variable {host : Host σ} {host' : Host τ} {i : Identity} {k : Nat}

/-- A counterpart is given by its parts. -/
theorem Counterpart.exists_eq {ρ : Type} {x : ρ × Machine × σ} {y : ρ × Machine × τ}
    (h : Counterpart k R x y) : ∃ t, R x.2.2 t ∧ y = (x.1, x.2.1.later k, t) :=
  ⟨y.2.2, h.host, Prod.ext h.result (Prod.ext h.machine rfl)⟩

/-- **Cues and switches** of a counterpart lead to a counterpart. -/
theorem counterpart_enter_cue (h : host.RelatedFor i k R host') (n : Nat) :
    (∀ j m s t, m.identity = i → R s t →
      Counterpart k R (enter host n j (m, s)) (enter host' n j (m.later k, t))) ∧
    ∀ c e m s t, m.identity = i → R s t →
      Counterpart k R (cue host (enter host n) c e (m, s))
        (cue host' (enter host' n) c e (m.later k, t)) := by
  -- a turn of the counterpart ends like the turn itself
  have turned : ∀ {c : Cue} {e : Event} {m : Machine} {s s' : σ} {t : τ} {hd h' : Handler}
      {l : Locals} {rest : Except Error Rest}, m.identity = i → R s t →
      m.turn host c e hd s = (rest, h', l, s') →
        ∃ t', R s' t' ∧ (m.later k).turn host' c e hd t = (rest, h', l, t') := by
    intro c e m s s' t hd h' l rest hm hst ht
    subst hm
    obtain ⟨hrest, hh', hl, hst'⟩ := turn_related h c e hd hst
    rw [ht] at hrest hh' hl hst'
    exact ⟨_, hst', Prod.ext hrest.symm (Prod.ext hh'.symm (Prod.ext hl.symm rfl))⟩
  -- the induction is on the run of the first machine, so the state of the other host varies
  suffices hall :
      (∀ j m s, ∀ t, m.identity = i → R s t →
        Counterpart k R (enter host n j (m, s)) (enter host' n j (m.later k, t))) ∧
      ∀ c e m s, ∀ t, m.identity = i → R s t →
        Counterpart k R (cue host (enter host n) c e (m, s))
          (cue host' (enter host' n) c e (m.later k, t)) from hall
  refine machine_induct host
    (fun n j m s r => ∀ t, m.identity = i → R s t →
      Counterpart k R r (enter host' n j (m.later k, t)))
    (fun n c e m s r => ∀ t, m.identity = i → R s t →
      Counterpart k R r (cue host' (enter host' n) c e (m.later k, t)))
    ?overflow ?dangling ?once ?twice ?absent ?failed ?settled ?waiting ?leaving n
  case overflow =>
    intro j m s t hm hst
    exact ⟨rfl, rfl, hst⟩
  case dangling =>
    intro n j m s hnone t hm hst
    rw [enter_dangling host' n j (m.later k) t hnone]
    exact ⟨rfl, rfl, hst⟩
  case once =>
    intro n j m s st r m' s' hstate h₁ hone hloop t hm hst
    obtain ⟨t', hst', h₁'⟩ := (hloop t hm hst).exists_eq
    rw [← inside_later] at h₁'
    -- if `loop` has led to another state, the counterpart sees the same in its own count
    have hone' : r = .ok () → (m'.later k).generation ≠ ((m.later k).inside j st).generation := by
      intro hr hg
      rw [inside_later] at hg
      exact hone hr (Nat.add_right_cancel hg)
    rw [enter_once host' n j (m.later k) t hstate h₁' hone']
    exact ⟨rfl, rfl, hst'⟩
  case twice =>
    intro n j m s st m₁ s₁ r m' s' hstate h₁ hg hloop h₂ hentered t hm hst
    obtain ⟨t₁, hst₁, h₁'⟩ := (hloop t hm hst).exists_eq
    have hrun := ((sameRun_enter_cue host n).2 .run .loop (m.inside j st) s).1.identity
    rw [h₁] at hrun
    obtain ⟨t', hst', h₂'⟩ := (hentered t₁ (hrun.trans hm) hst₁).exists_eq
    rw [← inside_later] at h₁'
    have hg' : (m₁.later k).generation = ((m.later k).inside j st).generation := by
      rw [inside_later]
      exact congrArg (· + k) hg
    rw [enter_twice host' n j (m.later k) t hstate h₁' hg' h₂']
    exact ⟨rfl, rfl, hst'⟩
  case absent =>
    intro n c e m s hn t hm hst
    rw [cue_of_none host' (m := m.later k) hn]
    exact ⟨rfl, rfl, hst⟩
  case failed =>
    intro n c e m s hd err h' l s' hh ht t hm hst
    obtain ⟨t', hst', ht'⟩ := turned hm hst ht
    rw [cue_of_some host' (m := m.later k) hh, ht']
    exact ⟨rfl, rfl, hst'⟩
  case settled =>
    intro n c e m s hd h' l s' hh ht t hm hst
    obtain ⟨t', hst', ht'⟩ := turned hm hst ht
    rw [cue_of_some host' (m := m.later k) hh, ht']
    exact ⟨rfl, rfl, hst'⟩
  case waiting =>
    intro n c e m s hd ms h' l s' hh ht t hm hst
    obtain ⟨t', hst', ht'⟩ := turned hm hst ht
    rw [cue_of_some host' (m := m.later k) hh, ht']
    exact ⟨rfl, rfl, hst'⟩
  case leaving =>
    intro n c e m s hd j h' l s' hh ht hent t hm hst
    obtain ⟨t', hst', ht'⟩ := turned hm hst ht
    rw [cue_of_some host' (m := m.later k) hh, ht']
    exact hent t' hm hst'

/-! ## Operations -/

variable {s : σ} {t : τ} {m : Machine}

/-- A cue of the machine itself, with the switches it leads to. -/
theorem counterpart_cue (h : host.RelatedFor m.identity k R host') (c : Cue) (e : Event)
    (hst : R s t) :
    Counterpart k R (cue host (switchTo host) c e (m, s))
      (cue host' (switchTo host') c e (m.later k, t)) := by
  rw [cue_switchTo, cue_switchTo]
  exact (counterpart_enter_cue h _).2 c e m s t rfl hst

/-- A round of cues ends at the same event for both, since it ends when the count goes up. -/
theorem counterpart_cueAll (h : host.RelatedFor i k R host') (c : Cue) (g : Nat) (es : List Event)
    (first : Option Error) (m : Machine) (s : σ) (t : τ) (hm : m.identity = i) (hst : R s t) :
    Counterpart k R (cueAll host c g es first (m, s))
      (cueAll host' c (g + k) es first (m.later k, t)) := by
  induction es generalizing first m s t with
  | nil => exact ⟨rfl, rfl, hst⟩
  | cons e es ih =>
    by_cases hg : m.generation = g
    · have hg' : (m.later k).generation = g + k := congrArg (· + k) hg
      have hrun := (sameRun_cue host c e m s).identity
      obtain ⟨t', hst', hcue⟩ := (counterpart_cue (hm ▸ h) c e hst).exists_eq
      rw [cueAll, cueAll, if_pos hg, if_pos hg', hcue]
      rcases hr : cue host (switchTo host) c e (m, s) with ⟨err | ⟨⟨⟩⟩, m', s'⟩
      · rw [hr] at hrun hst'
        simp only [abort_later]
        exact ih _ _ s' t' (((sameRun_abort m' e g).identity.trans hrun).trans hm) hst'
      · rw [hr] at hrun hst'
        exact ih first m' s' t' (hrun.trans hm) hst'
    · have hg' : (m.later k).generation ≠ g + k := fun he => hg (Nat.add_right_cancel he)
      rw [cueAll_of_left host c (e :: es) first s hg, cueAll_of_left host' c (e :: es) first t hg']
      exact ⟨rfl, rfl, hst⟩

/-- Both choose the same state: a choice reads registers and functions, and no count. -/
theorem counterpart_select (h : host.RelatedFor m.identity k R host') (hst : R s t) :
    Counterpart k R (select host (m, s)) (select host' (m.later k, t)) := by
  have hchoose := choose_related h m.script (m.locals, s) (m.locals, t) ⟨rfl, hst⟩
  have hscript : choose (m.later k).script (m.later k).identity host' ((m.later k).locals, t) =
      choose m.script m.identity host' (m.locals, t) := rfl
  rw [select, select, hscript]
  rcases hc : choose m.script m.identity host (m.locals, s) with ⟨r, l, s'⟩
  rcases hc' : choose m.script m.identity host' (m.locals, t) with ⟨r', l', t'⟩
  rw [hc, hc'] at hchoose
  obtain ⟨hres, hl, hst'⟩ := hchoose
  obtain rfl : r = r' := hres
  obtain rfl : l = l' := hl
  cases r with
  | error err => exact ⟨rfl, rfl, hst'⟩
  | ok j =>
    have hcurrent : (m.later k).current = m.current := rfl
    simp only [hcurrent]
    split
    · exact ⟨rfl, rfl, hst'⟩
    · exact (counterpart_enter_cue h _).1 j { m with locals := l } s' t' rfl hst'

/-- A trigger finds both active, or neither. -/
theorem counterpart_trigger (h : host.RelatedFor m.identity k R host') (e : Event) (hst : R s t) :
    Counterpart k R (trigger host e (m, s)) (trigger host' e (m.later k, t)) := by
  have hactive : (m.later k).isActive = m.isActive := rfl
  rw [trigger, trigger, hactive]
  split
  · exact counterpart_cue h .run e hst
  · exact ⟨rfl, rfl, hst⟩

/-- Both are seeded alike, since seeding reads and writes only entries of the actor. -/
theorem counterpart_activate (h : host.RelatedFor m.identity k R host') (hst : R s t) :
    Counterpart k R (activate host (m, s)) (activate host' (m.later k, t)) := by
  have hseed := seedSaved_related h m.script.vars s t hst
  have hsame : seedSaved (m.later k).identity host' (m.later k).script.vars t =
      seedSaved m.identity host' m.script.vars t := rfl
  rw [activate_eq, activate_eq, hsame]
  rcases hr : seedSaved m.identity host m.script.vars s with ⟨r, s₁⟩
  rcases hr' : seedSaved m.identity host' m.script.vars t with ⟨r', t₁⟩
  rw [hr, hr'] at hseed
  obtain ⟨hres, hst₁⟩ := hseed
  obtain rfl : r = r' := hres
  rcases r with err | ⟨⟨⟩⟩
  · exact ⟨rfl, rfl, hst₁⟩
  · have hrun := (sameRun_select host m s₁).identity
    obtain ⟨t₂, hst₂, hselect⟩ := (counterpart_select h hst₁).exists_eq
    simp only [hselect]
    rcases hr₂ : select host (m, s₁) with ⟨err | ⟨⟨⟩⟩, m₂, s₂⟩
    · rw [hr₂] at hst₂
      exact ⟨rfl, rfl, hst₂⟩
    · rw [hr₂] at hst₂ hrun
      exact counterpart_trigger (hrun.symm ▸ h) .spawn hst₂

/-- **A frame** of the counterpart has the same timers fire, and goes on to them in the same cases.
    -/
theorem counterpart_newFrame (h : host.RelatedFor m.identity k R host') (dt : UInt64)
    (hst : R s t) :
    Counterpart k R (newFrame host dt (m, s)) (newFrame host' dt (m.later k, t)) := by
  by_cases hact : m.isActive = true
  · have hrun := (sameRun_cueAll host .newFrame m.generation m.handlers.events none
      { m with timers := [] } s).identity
    obtain ⟨t₁, hst₁, hbegin'⟩ := (counterpart_cueAll h .newFrame m.generation m.handlers.events
      none { m with timers := [] } s t rfl hst).exists_eq
    rcases hbegin : cueAll host .newFrame m.generation m.handlers.events none
      ({ m with timers := [] }, s) with ⟨first, m₁, s₁⟩
    rw [hbegin] at hrun hst₁ hbegin'
    rw [newFrame_active host dt m s hact hbegin,
      newFrame_active host' dt (m.later k) t hact hbegin']
    by_cases hg : m₁.generation = m.generation
    · have hg' : (m₁.later k).generation = (m.later k).generation := congrArg (· + k) hg
      rw [if_pos hg, if_pos hg']
      obtain ⟨t', hst', hresume⟩ := (counterpart_cueAll h .resume m.generation (m.fired dt) first
        { m₁ with timers := m.unfired dt ++ m₁.timers } s₁ t₁ hrun hst₁).exists_eq
      have hresume' : cueAll host' .resume (m.later k).generation ((m.later k).fired dt) first
          ({ m₁.later k with timers := (m.later k).unfired dt ++ (m₁.later k).timers }, t₁) = _ :=
        hresume
      rw [hresume']
      exact ⟨rfl, rfl, hst'⟩
    · have hg' : (m₁.later k).generation ≠ (m.later k).generation :=
        fun he => hg (Nat.add_right_cancel he)
      rw [if_neg hg, if_neg hg']
      exact ⟨rfl, rfl, hst₁⟩
  · rw [newFrame_inactive host dt m s hact, newFrame_inactive host' dt (m.later k) t hact]
    exact ⟨rfl, rfl, hst⟩

/-- **Every operation** does the same to a counterpart, and what it does to related hosts is
    related. -/
theorem perform_counterpart (h : host.RelatedFor m.identity k R host') (op : Operation)
    (hst : R s t) : Counterpart k R (op.perform host (m, s)) (op.perform host' (m.later k, t)) := by
  cases op with
  | activate => exact counterpart_activate h hst
  | trigger e => exact counterpart_trigger h e hst
  | newFrame dt => exact counterpart_newFrame h dt hst
  | select => exact counterpart_select h hst
  | despawn => exact ⟨rfl, despawn_later m k, hst⟩

/-- **Watching disturbs nothing**: result, machine and host come out as they do without a record. -/
theorem perform_recording (host : Host σ) (r : Recorder τ) (op : Operation) (m : Machine) (s : σ)
    (log : τ) :
    ∃ log', op.perform (host.recording r) (m, log, s) =
      ((op.perform host (m, s)).1, (op.perform host (m, s)).2.1, log',
        (op.perform host (m, s)).2.2) := by
  obtain ⟨⟨log', s'⟩, hs', heq⟩ := (perform_counterpart (t := (log, s))
    ((host.recording_related r).relatedFor m.identity) op rfl).exists_eq
  obtain rfl : s' = (op.perform host (m, s)).2.2 := hs'
  exact ⟨log', heq⟩

end Machine

end ActorScript
