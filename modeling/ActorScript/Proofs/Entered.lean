/-
  Nothing of a left state runs on.

  The generation tells the turns of an operation apart: it never falls from one turn to the next,
  and it rises behind a turn that leads to another state (`Leads`).  So whatever is executed behind
  a switch is executed in turns of a later generation, and in none of these is anything resumed or
  continued: each of them starts a handler that is as it was made when its state was entered
  (`Turn.FromStart`), namely one for `loop` or `enterState` or, in an activation, the one for
  `spawn` after the choice of the state.  `entered_of_mem_turns` puts this together.
-/
import ActorScript.Proofs.Steps

namespace ActorScript

variable {σ : Type}

namespace Machine

/-! ## Handlers that have not been started -/

/-- The handler for an event, if there is one, is as it was made when the state was entered. -/
def Unstarted (m : Machine) (e : Event) : Prop :=
  ∀ h, m.handlers.get? e = some h → ∃ i st entry, m.current = some i ∧
    m.script.states[i]? = some st ∧ st.handlers.get? e = some entry ∧
    h = { event := e, entry, budget := m.options.budget }

variable {host : Host σ} {m : Machine} {n i : Nat} {c : Cue} {e f : Event} {s : σ} {st : State}

theorem unstarted_inside (hst : m.script.states[i]? = some st) (e : Event) :
    (m.inside i st).Unstarted e := by
  intro h hh
  rw [get?_inside] at hh
  obtain ⟨entry, hentry, rfl⟩ := Option.map_eq_some_iff.mp hh
  exact ⟨i, st, entry, rfl, hst, hentry, rfl⟩

/-- As long as the state stays the same, a cue touches no handler but that for its event. -/
theorem Unstarted.cue (host : Host σ) (n : Nat) (c : Cue) (s : σ) (hu : m.Unstarted f) (hne : f ≠ e)
    (hg : (Machine.cue host (enter host n) c e (m, s)).2.1.generation = m.generation) :
    (Machine.cue host (enter host n) c e (m, s)).2.1.Unstarted f := by
  cases hh : m.handlers.get? e with
  | none =>
    rw [cue_of_none host hh]
    exact hu
  | some h =>
    rcases ht : m.turn host c e h s with ⟨rest, h', l, s'⟩
    rw [cue_of_stay host hh ht hg]
    intro h₂ hh₂
    rw [get?_stayed, if_neg hne] at hh₂
    rcases rest with err | (_ | ms | j)
    all_goals exact hu h₂ hh₂

/-- **Where a state has been entered**, only its handlers for `loop` and `enterState` have been
    started. -/
theorem unstarted_enter_cue (host : Host σ) (n : Nat) :
    (∀ i m s, m.generation < (enter host n i (m, s)).2.1.generation →
      ∀ f, f ≠ .loop → f ≠ .enterState → (enter host n i (m, s)).2.1.Unstarted f) ∧
    ∀ c e m s, m.generation < (Machine.cue host (enter host n) c e (m, s)).2.1.generation →
      ∀ f, f ≠ .loop → f ≠ .enterState →
        (Machine.cue host (enter host n) c e (m, s)).2.1.Unstarted f := by
  refine machine_induct host
    (fun n i m s r => m.generation < r.2.1.generation →
      ∀ f, f ≠ .loop → f ≠ .enterState → r.2.1.Unstarted f)
    (fun n c e m s r => m.generation < r.2.1.generation →
      ∀ f, f ≠ .loop → f ≠ .enterState → r.2.1.Unstarted f)
    ?overflow ?dangling ?once ?twice ?absent ?failed ?settled ?waiting ?leaving n
  case overflow =>
    intro i m s hlt
    exact absurd hlt (Nat.lt_irrefl _)
  case dangling =>
    intro n i m s hst hlt
    exact absurd hlt (Nat.lt_irrefl _)
  case once =>
    intro n i m s st r m' s' hst h₁ hone hloop _ f hl he
    have hle := ((sameRun_enter_cue host n).2 .run .loop (m.inside i st) s).2
    have hstay := (unstarted_inside hst f).cue host n .run s hl
    rw [h₁] at hle hstay
    rcases Nat.eq_or_lt_of_le hle with hg | hlt
    · exact hstay hg.symm
    · exact hloop hlt f hl he
  case twice =>
    intro n i m s st m₁ s₁ r m' s' hst h₁ hg hloop h₂ hentered _ f hl he
    have hu := (unstarted_inside hst f).cue host n .run s hl
    rw [h₁] at hu
    have hle := ((sameRun_enter_cue host n).2 .run .enterState m₁ s₁).2
    have hstay := (hu hg).cue host n .run s₁ he
    rw [h₂] at hle hstay
    rcases Nat.eq_or_lt_of_le hle with hg' | hlt
    · exact hstay hg'.symm
    · exact hentered hlt f hl he
  case absent =>
    intro n c e m s hn hlt
    exact absurd hlt (Nat.lt_irrefl _)
  case failed =>
    intro n c e m s h err h' l s' hh ht hlt
    exact absurd hlt (Nat.lt_irrefl _)
  case settled =>
    intro n c e m s h h' l s' hh ht hlt
    exact absurd hlt (Nat.lt_irrefl _)
  case waiting =>
    intro n c e m s h ms h' l s' hh ht hlt
    exact absurd hlt (Nat.lt_irrefl _)
  case leaving =>
    intro n c e m s h i h' l s' hh ht hent hlt
    exact hent hlt

/-! ## Turns that start a handler -/

/-- The turn starts a handler that has not done anything yet: it is told to run, and the first of
    its statements is executed first. -/
structure Turn.FromStart (host : Host σ) (t : Turn σ) : Prop where
  cue : t.cue = .run
  unstarted : t.machine.Unstarted t.event
  first : ∀ h, t.machine.handlers.get? t.event = some h →
    ∀ step ∈ (Turn.steps host t).head?, step.position = ⟨h.entry, 0⟩

/-- A handler that is as it was made has nothing to go on with, so it starts with its first
    statement. -/
theorem fromStart_of_unstarted (host : Host σ) (n : Nat) (s : σ) (hu : m.Unstarted e) :
    Turn.FromStart host ⟨n, .run, e, m, s⟩ := by
  refine ⟨rfl, hu, fun h hh step hstep => ?_⟩
  have hh' : m.handlers.get? e = some h := hh
  cases hw : h.woken m.script .run with
  | none =>
    rw [steps_of_not_woken hh' hw] at hstep
    cases hstep
  | some h₁ =>
    rcases ht : m.turn host .run e h s with ⟨rest, h', x⟩
    have hfirst := (executed_of_woken (n := n) hh' hw ht).first step hstep
    -- the stack of the started handler holds the beginning of its block and nothing else
    have hstack : h₁.stack = [⟨h.entry, 0⟩] := by
      obtain ⟨i, st, entry, -, -, -, rfl⟩ := hu h hh'
      rw [Handler.woken, Handler.started] at hw
      split at hw
      · cases hw
      · cases hw
        rfl
    rw [hstack, upcoming?] at hfirst
    split at hfirst
    · exact (Option.some.inj hfirst).symm
    · cases hfirst

/-! ## Turns and generations -/

/-- The turn ends with another state to enter, and the switch is allowed. -/
def Turn.Switches (host : Host σ) (t : Turn σ) : Prop :=
  ∃ n i h l s, t.allowed = n + 1 ∧ t.Ends host (.ok (.switch i), h, l, s)

/-- Turns that lead from generation `a` to generation `b`: the generation never falls, it rises
    behind each turn that leads to another state, and `Q` holds of the turns behind generation
    `g`. -/
structure Leads (host : Host σ) (Q : Turn σ → Prop) (g a : Nat) (ts : List (Turn σ)) (b : Nat) :
    Prop where
  le : a ≤ b
  ordered : ts.Pairwise fun t t' => t.machine.generation ≤ t'.machine.generation ∧
    (t.Switches host → t.machine.generation < t'.machine.generation)
  bounds : ∀ t ∈ ts, a ≤ t.machine.generation ∧ t.machine.generation ≤ b ∧
    (t.Switches host → t.machine.generation < b)
  behind : ∀ t ∈ ts, g < t.machine.generation → Q t

namespace Leads

variable {Q : Turn σ → Prop} {g a a' b b' : Nat} {t : Turn σ} {ts ts' : List (Turn σ)}

theorem nil (h : a ≤ b) : Leads host Q g a [] b :=
  ⟨h, .nil, by simp, by simp⟩

/-- A turn that does not lead to another state. -/
theorem single (hn : ¬ t.Switches host) (hq : g < t.machine.generation → Q t) :
    Leads host Q g t.machine.generation [t] t.machine.generation where
  le := Nat.le_refl _
  ordered := List.pairwise_singleton _ t
  bounds t' ht' := by
    obtain rfl := List.mem_singleton.mp ht'
    exact ⟨Nat.le_refl _, Nat.le_refl _, fun h => absurd h hn⟩
  behind t' ht' := by
    obtain rfl := List.mem_singleton.mp ht'
    exact hq

/-- A turn that leads to another state, and the turns behind it. -/
theorem cons (h : Leads host Q g (t.machine.generation + 1) ts b)
    (hq : g < t.machine.generation → Q t) : Leads host Q g t.machine.generation (t :: ts) b where
  le := Nat.le_of_succ_le h.le
  ordered := by
    refine List.pairwise_cons.mpr ⟨fun t' ht' => ?_, h.ordered⟩
    have hlt := (h.bounds t' ht').1
    exact ⟨Nat.le_of_succ_le hlt, fun _ => hlt⟩
  bounds t' ht' := by
    rcases List.mem_cons.mp ht' with rfl | ht'
    · exact ⟨Nat.le_refl _, Nat.le_of_succ_le h.le, fun _ => h.le⟩
    · obtain ⟨hlt, hrest⟩ := h.bounds t' ht'
      exact ⟨Nat.le_of_succ_le hlt, hrest⟩
  behind t' ht' := by
    rcases List.mem_cons.mp ht' with rfl | ht'
    · exact hq
    · exact h.behind t' ht'

theorem append (h : Leads host Q g a ts b) (h' : Leads host Q g b ts' b') :
    Leads host Q g a (ts ++ ts') b' where
  le := Nat.le_trans h.le h'.le
  ordered := by
    refine List.pairwise_append.mpr ⟨h.ordered, h'.ordered, fun t ht t' ht' => ?_⟩
    obtain ⟨-, hle, hlt⟩ := h.bounds t ht
    have hle' := (h'.bounds t' ht').1
    exact ⟨Nat.le_trans hle hle', fun hsw => Nat.lt_of_lt_of_le (hlt hsw) hle'⟩
  bounds t ht := by
    have hle := h.le
    have hle' := h'.le
    rcases List.mem_append.mp ht with ht | ht
    · obtain ⟨h₁, h₂, h₃⟩ := h.bounds t ht
      exact ⟨h₁, Nat.le_trans h₂ hle', fun hsw => Nat.lt_of_lt_of_le (h₃ hsw) hle'⟩
    · obtain ⟨h₁, h₂, h₃⟩ := h'.bounds t ht
      exact ⟨Nat.le_trans hle h₁, h₂, h₃⟩
  behind t ht := by
    rcases List.mem_append.mp ht with ht | ht
    · exact h.behind t ht
    · exact h'.behind t ht

/-- It does no harm to begin earlier. -/
theorem of_le (h : Leads host Q g a ts b) (hle : a' ≤ a) : Leads host Q g a' ts b where
  le := Nat.le_trans hle h.le
  ordered := h.ordered
  bounds t ht := by
    obtain ⟨h₁, h₂⟩ := h.bounds t ht
    exact ⟨Nat.le_trans hle h₁, h₂⟩
  behind := h.behind

end Leads

/-- A turn that ends otherwise than with a state to enter does not lead to one. -/
theorem not_switches {h h' : Handler} {rest : Except Error Rest} {x : Locals × σ}
    (hh : m.handlers.get? e = some h) (ht : m.turn host c e h s = (rest, h', x))
    (hrest : ∀ i, rest ≠ .ok (.switch i)) : ¬ Turn.Switches host ⟨n, c, e, m, s⟩ := by
  rintro ⟨k, j, h₂, l, s₂, -, h₀, hh₀, ht₀⟩
  cases hh.symm.trans hh₀
  have heq : (rest, h', x) = (.ok (.switch j), h₂, l, s₂) := ht.symm.trans ht₀
  exact hrest j (congrArg Prod.fst heq)

/-- If a turn that ends with a state to enter is not followed by a switch, none was allowed. -/
theorem not_switches_of_stay {h h' : Handler} {l : Locals} {s' : σ}
    (ht : m.turn host c e h s = (.ok (.switch i), h', l, s'))
    (hg : (enter host n i (m.record e h' l, s')).2.1.generation = m.generation) :
    ¬ Turn.Switches host ⟨n, c, e, m, s⟩ := by
  rintro ⟨k, j, h₂, l₂, s₂, hn, -⟩
  obtain rfl : n = k + 1 := hn
  obtain ⟨-, y, hchoose⟩ := chosen_of_turn_switch host ht
  obtain ⟨st, hst⟩ := exists_of_choose host hchoose
  exact absurd hg (Nat.ne_of_gt (generation_lt_enter (m := m.record e h' l) host k s' hst))

section Leading

variable (host) {Q : Turn σ → Prop} {g : Nat}

/-- **The turns of a switch** belong to later generations, and those that come with it start the
    handlers for `loop` and `enterState`. -/
theorem leads_enter_cue (hQ : ∀ t, t.FromStart host → t.event = .loop ∨ t.event = .enterState → Q t)
    (n : Nat) :
    (∀ i m s, g ≤ m.generation →
      (entryTurns host n i (m, s) = [] ∧ (enter host n i (m, s)).2.1.generation = m.generation) ∨
        Leads host Q g (m.generation + 1) (entryTurns host n i (m, s))
          (enter host n i (m, s)).2.1.generation) ∧
    ∀ c e m s, g ≤ m.generation → (g < m.generation → Q ⟨n, c, e, m, s⟩) →
      Leads host Q g m.generation (cueTurns host n c e (m, s))
        (Machine.cue host (enter host n) c e (m, s)).2.1.generation := by
  refine turns_induct host
    (fun n i m s r ts => g ≤ m.generation → (ts = [] ∧ r.2.1.generation = m.generation) ∨
      Leads host Q g (m.generation + 1) ts r.2.1.generation)
    (fun n c e m s r ts => g ≤ m.generation → (g < m.generation → Q ⟨n, c, e, m, s⟩) →
      Leads host Q g m.generation ts r.2.1.generation)
    ?overflow ?dangling ?once ?twice ?absent ?failed ?settled ?waiting ?leaving n
  case overflow =>
    intro i m s hle
    exact .inl ⟨rfl, rfl⟩
  case dangling =>
    intro n i m s hst hle
    exact .inl ⟨rfl, rfl⟩
  case once =>
    intro n i m s st r m' s' ts hst hone h₁ hloop hle
    have hstart := fromStart_of_unstarted host n s (unstarted_inside hst .loop)
    exact .inr (hloop (Nat.le_succ_of_le hle) fun _ => hQ _ hstart (.inl rfl))
  case twice =>
    intro n i m s st m₁ s₁ r m' s' ts₁ ts₂ hst hg h₁ hloop h₂ hentered hle
    have hstart := fromStart_of_unstarted host n s (unstarted_inside hst .loop)
    have hfirst := hloop (Nat.le_succ_of_le hle) fun _ => hQ _ hstart (.inl rfl)
    -- the first handler has left the second one alone
    have hu : m₁.Unstarted .enterState := by
      have hstay := (unstarted_inside hst .enterState).cue host n .run s (e := .loop) (by decide)
      rw [h₁] at hstay
      exact hstay hg
    have hstart₂ := fromStart_of_unstarted host n s₁ hu
    have hsecond := hentered (hg ▸ Nat.le_succ_of_le hle) fun _ => hQ _ hstart₂ (.inr rfl)
    exact .inr (hfirst.append hsecond)
  case absent =>
    intro n c e m s hn hle hq
    exact .nil (Nat.le_refl _)
  case failed =>
    intro n c e m s h err h' l s' hh ht hle hq
    exact .single (not_switches hh ht (by simp)) hq
  case settled =>
    intro n c e m s h h' l s' hh ht hle hq
    exact .single (not_switches hh ht (by simp)) hq
  case waiting =>
    intro n c e m s h ms h' l s' hh ht hle hq
    exact .single (not_switches hh ht (by simp)) hq
  case leaving =>
    intro n c e m s h i h' l s' hh ht hent hle hq
    rcases hent hle with ⟨hnil, hsame⟩ | hleads
    · rw [hnil, hsame]
      exact .single (not_switches_of_stay ht hsame) hq
    · exact Leads.cons (t := ⟨n, c, e, m, s⟩) hleads hq

theorem leads_cue (hQ : ∀ t, t.FromStart host → t.event = .loop ∨ t.event = .enterState → Q t)
    (c : Cue) (e : Event) (m : Machine) (s : σ) (hg : g ≤ m.generation)
    (hq : g < m.generation → Q (outermost c e (m, s))) :
    Leads host Q g m.generation
      (cueTurns host (m.options.maxDepth - m.switchDepth) c e (m, s))
      (Machine.cue host (switchTo host) c e (m, s)).2.1.generation := by
  rw [cue_switchTo]
  exact (leads_enter_cue host hQ _).2 c e m s hg hq

theorem leads_round (hQ : ∀ t, t.FromStart host → t.event = .loop ∨ t.event = .enterState → Q t)
    (c : Cue) (es : List Event) (first : Option Error) (s : σ) (hg : m.generation = g) :
    Leads host Q g g (roundTurns host c g es (m, s))
      (cueAll host c g es first (m, s)).2.1.generation := by
  induction es generalizing first m s with
  | nil => exact .nil (Nat.le_of_eq hg.symm)
  | cons e es ih =>
    obtain ⟨first', hcons⟩ := cueAll_cons host c e es first s hg
    have hcue := leads_cue host hQ c e m s (Nat.le_of_eq hg.symm)
      fun hlt => absurd hlt (Nat.not_lt_of_le (Nat.le_of_eq hg))
    rw [← generation_cueOnce host c g e (m, s), hg] at hcue
    rw [hcons, roundTurns, if_pos hg]
    rcases hx : cueOnce host c g e (m, s) with ⟨m', s'⟩
    rw [hx] at hcue
    by_cases hsame : m'.generation = g
    · have hrest := ih first' s' hsame
      have hcue' : Leads host Q g g _ m'.generation := hcue
      rw [hsame] at hcue'
      exact hcue'.append hrest
    · rw [roundTurns_of_left host c es s' hsame, cueAll_of_left host c es first' s' hsame,
        List.append_nil]
      exact hcue

/-! ## Operations -/

theorem leads_select (hQ : ∀ t, t.FromStart host → t.event = .loop ∨ t.event = .enterState → Q t)
    (m : Machine) (s : σ) :
    Leads host Q m.generation m.generation (selectTurns host (m, s))
      (select host (m, s)).2.1.generation := by
  rw [selectTurns, select]
  rcases choose m.script m.identity host (m.locals, s) with ⟨err | i, l, s'⟩
  · exact .nil (Nat.le_refl _)
  · simp only
    split
    · exact .nil (Nat.le_refl _)
    · rcases (leads_enter_cue host hQ (g := m.generation) (m.options.maxDepth - m.switchDepth)).1 i
        { m with locals := l } s' (Nat.le_refl _) with ⟨hnil, hsame⟩ | hleads
      · rw [hnil]
        exact .nil (Nat.le_of_eq hsame.symm)
      · exact hleads.of_le (Nat.le_succ _)

theorem leads_trigger (hQ : ∀ t, t.FromStart host → t.event = .loop ∨ t.event = .enterState → Q t)
    (e : Event) (m : Machine) (s : σ) (hg : g ≤ m.generation)
    (hq : g < m.generation → Q (outermost .run e (m, s))) :
    Leads host Q g m.generation (triggerTurns host e (m, s))
      (trigger host e (m, s)).2.1.generation := by
  rw [triggerTurns, trigger]
  split
  · exact leads_cue host hQ .run e m s hg hq
  · exact .nil (Nat.le_refl _)

theorem leads_newFrame (hQ : ∀ t, t.FromStart host → t.event = .loop ∨ t.event = .enterState → Q t)
    (dt : UInt64) (m : Machine) (s : σ) :
    Leads host Q m.generation m.generation (frameTurns host dt (m, s))
      (newFrame host dt (m, s)).2.1.generation := by
  by_cases hact : m.isActive = true
  · have hbegin := leads_round host hQ .newFrame m.handlers.events none s
      (m := { m with timers := [] }) (g := m.generation) rfl
    rcases h₁ : cueAll host .newFrame m.generation m.handlers.events none
      ({ m with timers := [] }, s) with ⟨first, m₁, s₁⟩
    rw [h₁] at hbegin
    rw [newFrame_active host dt m s hact h₁]
    simp only [frameTurns, hact, if_true, h₁]
    split
    · rename_i hg
      have hbegin' : Leads host Q m.generation m.generation _ m₁.generation := hbegin
      have hmid : (m.midFrame m₁ dt).generation = m.generation := hg
      rw [hg] at hbegin'
      exact hbegin'.append (leads_round host hQ .resume (m.fired dt) first s₁ hmid)
    · rw [List.append_nil]
      exact hbegin
  · rw [newFrame_inactive host dt m s hact]
    simp only [frameTurns, hact]
    exact .nil (Nat.le_refl _)

/-- A state that has been entered by a selection has a handler for `spawn` that has not done
    anything yet. -/
theorem unstarted_select (m : Machine) (s : σ)
    (hlt : m.generation < (select host (m, s)).2.1.generation) :
    (select host (m, s)).2.1.Unstarted .spawn := by
  rw [select] at hlt ⊢
  rcases hc : choose m.script m.identity host (m.locals, s) with ⟨err | i, l, s'⟩
  · rw [hc] at hlt
    exact absurd hlt (Nat.lt_irrefl _)
  · rw [hc] at hlt
    simp only at hlt ⊢
    split at hlt
    · exact absurd hlt (Nat.lt_irrefl _)
    · rename_i hne
      rw [if_neg hne]
      exact (unstarted_enter_cue host _).1 i { m with locals := l } s' hlt .spawn (by decide)
        (by decide)

theorem leads_activate (hQ : ∀ t, t.FromStart host → t.event = .loop ∨ t.event = .enterState → Q t)
    (m : Machine) (s : σ)
    (hspawn : ∀ s₁ m₂ s₂, seedSaved m.identity host m.script.vars s = (.ok (), s₁) →
      select host (m, s₁) = (.ok (), m₂, s₂) →
      (outermost .run .spawn (m₂, s₂)).FromStart host → Q (outermost .run .spawn (m₂, s₂))) :
    Leads host Q m.generation m.generation (activateTurns host (m, s))
      (activate host (m, s)).2.1.generation := by
  rw [activateTurns, activate_eq]
  rcases hseed : seedSaved m.identity host m.script.vars s with ⟨err | ⟨⟨⟩⟩, s₁⟩
  · exact .nil (Nat.le_refl _)
  · have hselect := leads_select host hQ m s₁
    have hunstarted := unstarted_select host m s₁
    simp only
    rcases hr : select host (m, s₁) with ⟨err | ⟨⟨⟩⟩, m₂, s₂⟩
    · rw [hr] at hselect
      rw [List.append_nil]
      exact hselect
    · rw [hr] at hselect hunstarted
      refine hselect.append (leads_trigger host hQ .spawn m₂ s₂ hselect.le fun hlt => ?_)
      exact hspawn s₁ m₂ s₂ hseed hr (fromStart_of_unstarted host _ s₂ (hunstarted hlt))

end Leading

/-- As long as the generation is the same, the machine is in the same state. -/
theorem lasts_current (host : Host σ) (m : Machine) : Lasts host fun m' =>
    m.generation ≤ m'.generation ∧ (m'.generation = m.generation → m'.current = m.current) where
  turn hm _ _ := hm
  timers _ hm := hm
  locals _ hm := hm
  inside {m' i st} hm _ := by
    have hgen : (m'.inside i st).generation = m'.generation + 1 := rfl
    refine ⟨by omega, fun hsame => ?_⟩
    omega
  outside hm := hm
  abort {m'} e g hm := by
    rw [abort]
    split
    · exact hm
    · exact hm

/-- The statements of a turn are those of its handler in its state. -/
theorem marks_of_mem_steps {t : Turn σ} {step : Step} (hstep : step ∈ Turn.steps host t) :
    step.generation = t.machine.generation ∧ step.state = t.machine.current ∧
      step.event = t.event := by
  obtain ⟨n, c, e, m, s⟩ := t
  cases hh : m.handlers.get? e with
  | none =>
    simp only [Turn.steps, hh] at hstep
    cases hstep
  | some h =>
    cases hw : h.woken m.script c with
    | none =>
      rw [steps_of_not_woken hh hw] at hstep
      cases hstep
    | some h₁ =>
      rcases ht : m.turn host c e h s with ⟨rest, h', x⟩
      exact (executed_of_woken (n := n) hh hw ht).marks step hstep

end Machine

open Machine

/-- A turn that may come behind a switch of state in a call: it starts the handler for `loop` or
    `enterState`, or in an activation that for `spawn` when the state has been chosen. -/
def Call.Opens (c : Call) (m : Machine) (t : Turn c.σ) : Prop :=
  t.FromStart c.host ∧ (t.event = .loop ∨ t.event = .enterState ∨
    c.operation = .activate ∧ t.event = .spawn ∧
      ∃ s₁, seedSaved m.identity c.host m.script.vars c.state = (.ok (), s₁) ∧
        select c.host (m, s₁) = (.ok (), t.machine, t.state))

namespace Machine

/-- All turns of a call lead from the generation of the machine before to that after it. -/
theorem leads_turns (m : Machine) (c : Call) :
    Leads c.host (c.Opens m) m.generation m.generation (c.turns m) (m.next c).generation := by
  have hQ : ∀ t, t.FromStart c.host → t.event = .loop ∨ t.event = .enterState → c.Opens m t := by
    intro t hstart hevent
    rcases hevent with hl | he
    · exact ⟨hstart, .inl hl⟩
    · exact ⟨hstart, .inr (.inl he)⟩
  obtain ⟨host, s, op⟩ := c
  cases op with
  | activate =>
    exact leads_activate host hQ m s fun s₁ m₂ s₂ hseed hselect hstart =>
      ⟨hstart, .inr (.inr ⟨rfl, rfl, s₁, hseed, hselect⟩)⟩
  | trigger e =>
    exact leads_trigger host hQ e m s (Nat.le_refl _) fun hlt => absurd hlt (Nat.lt_irrefl _)
  | newFrame dt => exact leads_newFrame host hQ dt m s
  | select => exact leads_select host hQ m s
  | despawn => exact .nil (Nat.le_succ _)

/-- **Nothing of a left state runs on**, whatever the machine, the script and the host.  A call
    executes its statements in turns, each statement for the handler and in the state of its turn.
    Behind a turn that leads to another state all turns belong to a later generation.  And a turn
    is either one in the state in which the call has begun, or it belongs to a state that the call
    has entered, and starts one of its handlers. -/
theorem entered_of_mem_turns (m : Machine) (c : Call) :
    c.steps m = (c.turns m).flatMap (Turn.steps c.host) ∧
      (∀ t ∈ c.turns m, ∀ step ∈ Turn.steps c.host t,
        step.generation = t.machine.generation ∧ step.state = t.machine.current ∧
          step.event = t.event) ∧
      (c.turns m).Pairwise (fun t t' => t.machine.generation ≤ t'.machine.generation ∧
        (t.Switches c.host → t.machine.generation < t'.machine.generation)) ∧
      ∀ t ∈ c.turns m,
        (t.machine.generation = m.generation ∧ t.machine.current = m.current) ∨
          (m.generation < t.machine.generation ∧ c.Opens m t) := by
  have hleads := leads_turns m c
  refine ⟨steps_eq_flatMap_turns c m, fun t _ step hstep => marks_of_mem_steps hstep,
    hleads.ordered, fun t ht => ?_⟩
  have hcurrent := ((lasts_current c.host m).perform c.operation c.state
    ⟨Nat.le_refl _, fun _ => rfl⟩).1 t ht
  rcases Nat.eq_or_lt_of_le hcurrent.1 with hsame | hlt
  · exact .inl ⟨hsame.symm, hcurrent.2 hsame.symm⟩
  · exact .inr ⟨hlt, hleads.behind t ht hlt⟩

end Machine

end ActorScript
