/-
  How much an operation can execute.

  A handler that has been woken executes at most what is left of its budget (`length_steps_le`),
  whatever blocks the script has and however often its requests for a new choice of state let it
  go on.  A state that is entered adds at most two turns, and each switch uses up one of those that
  are allowed (`length_turns_le`).  In a frame a handler whose timer runs out has been idle when
  the frame began, so every event counts once, and only one of the cues can lead to switches, since
  the frame ends with it (`length_round_le`).

  Together this bounds the statements of every operation by `Operation.maxSteps`.
-/
import Mathlib
import ActorScript.Proofs.Steps

namespace ActorScript

variable {σ : Type}

/-! ## Handlers -/

namespace Handler

variable {script : Script} {ctx : Context σ} {h : Handler} {s : σ}

/-- How many statements a handler has executed at most when the budget of the frame is spent. -/
def reach (h : Handler) : Nat := h.executed + (h.budget - h.usedBudget)

/-- **A stretch of execution** stays within reach, and a handler that has not failed has none of it
    back. -/
theorem executed_execute_le (script : Script) (ctx : Context σ) (h : Handler) (s : σ) :
    (execute script ctx h s).2.1.executed ≤ h.reach ∧
      ((∃ o, (execute script ctx h s).1 = .ok o) →
        (execute script ctx h s).2.1.reach ≤ h.reach) := by
  fun_induction execute script ctx h s with
  | case1 h s hs => exact ⟨Nat.le_add_right _ _, fun _ => Nat.le_refl _⟩
  | case2 h s p rest hs hp ih => exact ih
  | case3 h s p rest hs st hp hb => exact ⟨Nat.le_add_right _ _, fun _ => Nat.le_refl _⟩
  | case4 h s p rest hs st hp hb e s' hv =>
    constructor
    · show h.executed + 1 ≤ h.reach
      rw [reach]
      omega
    · rintro ⟨o, ho⟩
      cases ho
  | case5 h s p rest hs st hp hb s' hv ih =>
    have hreach : h.count.advance.reach = h.reach := by
      simp only [reach, executed_advance, budget_advance, usedBudget_advance, executed_count,
        budget_count, usedBudget_count]
      omega
    rwa [hreach] at ih
  | case6 h s p rest hs st hp hb b s' hv ih =>
    have hreach : (h.count.advance.enter b).reach = h.reach := by
      simp only [reach, executed_enter, budget_enter, usedBudget_enter, executed_advance,
        budget_advance, usedBudget_advance, executed_count, budget_count, usedBudget_count]
      omega
    rwa [hreach] at ih
  | case7 h s p rest hs st hp hb ms s' hv =>
    refine ⟨?_, fun _ => ?_⟩
    · show h.executed + 1 ≤ h.reach
      rw [reach]
      omega
    · show h.executed + 1 + (h.budget - (h.usedBudget + 1)) ≤ h.reach
      rw [reach]
      omega
  | case8 h s p rest hs st hp hb s' hv =>
    have hreach : h.count.advance.reach = h.reach := by
      simp only [reach, executed_advance, budget_advance, usedBudget_advance, executed_count,
        budget_count, usedBudget_count]
      omega
    exact ⟨hreach ▸ Nat.le_add_right _ _, fun _ => Nat.le_of_eq hreach⟩

/-- Requests for a new choice of state do not bring anything of the budget back. -/
theorem executed_conclude_le (script : Script) (ctx : Context σ) (choose : Action σ Nat)
    (current : Option Nat) {k : Nat} (x : Except Error Outcome × Handler × σ)
    (hx : x.2.1.executed ≤ k) (hreach : (∃ o, x.1 = .ok o) → x.2.1.reach ≤ k) :
    (conclude script ctx choose current x).2.1.executed ≤ k := by
  refine conclude_keeps (P := fun h => h.executed ≤ k) (R := fun h => h.reach ≤ k)
    (fun h s hx hreach => ?_) choose current x hx fun hr => hreach ⟨_, hr⟩
  rcases proceed_idle_or_execute script ctx h s with hp | hp
  · rw [hp]
    exact ⟨hx, fun _ => hreach⟩
  · obtain ⟨hle, hle'⟩ := executed_execute_le script ctx h s
    rw [hp]
    exact ⟨Nat.le_trans hle hreach, fun ho => Nat.le_trans (hle' ⟨_, ho⟩) hreach⟩

end Handler

namespace Machine

variable {host : Host σ} {m : Machine} {c : Cue} {e : Event} {h h' : Handler} {n : Nat} {s : σ}

/-! ## Turns -/

/-- **A turn** executes at most as many statements as the handler's budget allows in a frame. -/
theorem length_steps_le (hh : m.handlers.get? e = some h) :
    (Turn.steps host ⟨n, c, e, m, s⟩).length ≤ h.budget := by
  cases hw : h.woken m.script c with
  | none =>
    rw [steps_of_not_woken hh hw]
    exact Nat.zero_le _
  | some h₁ =>
    rcases ht : m.turn host c e h s with ⟨rest, h', x⟩
    have hex := executed_of_woken (n := n) hh hw ht
    have hle : h'.executed ≤ h₁.reach := by
      have hrun := Handler.executed_execute_le m.script (m.contextFor host e) h₁ (m.locals, s)
      have := Handler.executed_conclude_le m.script (m.contextFor host e)
        (choose m.script m.identity host) m.current _ hrun.1 hrun.2
      rw [turn, Handler.settle_eq, Handler.obey_eq, hw] at ht
      rwa [ht] at this
    have hcount := hex.count
    have hbudget := (Handler.sameHandler_woken hw).2.2
    rw [Handler.reach] at hle
    omega

/-- All handlers have the budget that the options give them. -/
structure Budgeted (o : MachineOptions) (m : Machine) : Prop where
  options : m.options = o
  handlers : ∀ e h, m.handlers.get? e = some h → h.budget = o.budget

variable {o : MachineOptions}

theorem lasts_budgeted (host : Host σ) (o : MachineOptions) : Lasts host (Budgeted o) where
  turn {c e m s h rest h' l s'} hm hh ht := by
    refine ⟨hm.options, fun f h₂ hget => ?_⟩
    rw [get?_record] at hget
    split at hget
    · cases hget
      exact (sameHandler_turn host ht).2.2.trans (hm.handlers e h hh)
    · exact hm.handlers f h₂ hget
  timers ts hm := ⟨hm.options, hm.handlers⟩
  locals l hm := ⟨hm.options, hm.handlers⟩
  inside {m i st} hm hst := by
    refine ⟨hm.options, fun e h hget => ?_⟩
    rw [get?_inside] at hget
    obtain ⟨entry, -, rfl⟩ := Option.map_eq_some_iff.mp hget
    exact congrArg MachineOptions.budget hm.options
  outside hm := ⟨hm.options, hm.handlers⟩
  abort {m} e g hm := by
    rw [Machine.abort]
    split
    · refine ⟨hm.options, fun f h₂ hget => ?_⟩
      cases hh : m.handlers.get? e with
      | none =>
        simp only [hh] at hget
        exact hm.handlers f h₂ hget
      | some h =>
        simp only [hh] at hget
        have hget' : (m.handlers.insert e h.reset).get? f = some h₂ := hget
        rw [EventMap.get?_insert] at hget'
        split at hget'
        · cases hget'
          exact hm.handlers e h hh
        · exact hm.handlers f h₂ hget'
    · exact hm

theorem Budgeted.next (hm : Budgeted o m) (c : Call) : Budgeted o (m.next c) := by
  obtain ⟨host, s, op⟩ := c
  by_cases hop : op = .despawn
  · subst hop
    refine ⟨hm.options, fun e h hget => ?_⟩
    have hnone : m.despawn.handlers.get? e = none := EventMap.get?_empty e
    cases hnone.symm.trans hget
  · exact ((lasts_budgeted host o).perform op s hm).2 hop

/-! ## How many turns there are -/

/-- **The turns of a cue or a switch** while `n` more switches are allowed: at most two for every
    state that is entered, and none of them if the machine has not left its state. -/
theorem length_turns_le (host : Host σ) (n : Nat) :
    (∀ i m s, (entryTurns host n i (m, s)).length ≤ 2 * n ∧
      ((enter host n i (m, s)).2.1.generation = m.generation →
        (entryTurns host n i (m, s)).length = 0)) ∧
    ∀ c e m s, (cueTurns host n c e (m, s)).length ≤ 2 * n + 1 ∧
      ((cue host (enter host n) c e (m, s)).2.1.generation = m.generation →
        (cueTurns host n c e (m, s)).length ≤ 1) := by
  refine turns_induct host
    (fun n i m s r ts => ts.length ≤ 2 * n ∧ (r.2.1.generation = m.generation → ts.length = 0))
    (fun n c e m s r ts => ts.length ≤ 2 * n + 1 ∧
      (r.2.1.generation = m.generation → ts.length ≤ 1))
    ?overflow ?dangling ?once ?twice ?absent ?failed ?settled ?waiting ?leaving n
  case overflow =>
    intro i m s
    exact ⟨Nat.zero_le _, fun _ => rfl⟩
  case dangling =>
    intro n i m s hst
    exact ⟨Nat.zero_le _, fun _ => rfl⟩
  case once =>
    intro n i m s st r m' s' ts hst hone h₁ hloop
    have hlt : m.generation < m'.generation := by
      have := ((sameRun_enter_cue host n).2 .run .loop (m.inside i st) s).2
      rw [h₁] at this
      exact this
    have hle := hloop.1
    refine ⟨by omega, fun hsame => ?_⟩
    have hsame' : m'.generation = m.generation := hsame
    omega
  case twice =>
    intro n i m s st m₁ s₁ r m' s' ts₁ ts₂ hst hg h₁ hloop h₂ hentered
    have hinside : (m.inside i st).generation = m.generation + 1 := rfl
    have hlt : m.generation < m'.generation := by
      have := ((sameRun_enter_cue host n).2 .run .enterState m₁ s₁).2
      rw [h₂, hg, hinside] at this
      exact this
    -- the first turn has led to no other one
    have hone : ts₁.length ≤ 1 := hloop.2 hg
    have htwo := hentered.1
    rw [List.length_append]
    refine ⟨by omega, fun hsame => ?_⟩
    have hsame' : m'.generation = m.generation := hsame
    omega
  case absent =>
    intro n c e m s hn
    exact ⟨Nat.zero_le _, fun _ => Nat.zero_le _⟩
  case failed =>
    intro n c e m s h err h' l s' hh ht
    exact ⟨Nat.le_add_left _ _, fun _ => Nat.le_refl _⟩
  case settled =>
    intro n c e m s h h' l s' hh ht
    exact ⟨Nat.le_add_left _ _, fun _ => Nat.le_refl _⟩
  case waiting =>
    intro n c e m s h ms h' l s' hh ht
    exact ⟨Nat.le_add_left _ _, fun _ => Nat.le_refl _⟩
  case leaving =>
    intro n c e m s h i h' l s' hh ht hent
    rw [List.length_cons]
    refine ⟨by omega, fun hsame => ?_⟩
    have := hent.2 hsame
    omega

/-- How many statements are executed in some turns. -/
def effort (host : Host σ) (ts : List (Turn σ)) : Nat := (ts.flatMap (Turn.steps host)).length

theorem effort_append (ts ts' : List (Turn σ)) :
    effort host (ts ++ ts') = effort host ts + effort host ts' := by
  rw [effort, List.flatMap_append, List.length_append]
  rfl

theorem effort_le (host : Host σ) {ts : List (Turn σ)} (hts : ∀ t ∈ ts, Budgeted o t.machine) :
    effort host ts ≤ ts.length * o.budget := by
  induction ts with
  | nil => exact Nat.zero_le _
  | cons t ts ih =>
    have hrest := ih fun t ht => hts t (List.mem_cons_of_mem _ ht)
    have hone : (Turn.steps host t).length ≤ o.budget := by
      cases hh : t.machine.handlers.get? t.event with
      | none =>
        simp only [Turn.steps, hh]
        exact Nat.zero_le _
      | some h =>
        rw [← (hts t List.mem_cons_self).handlers t.event h hh]
        exact length_steps_le hh
    rw [List.length_cons, Nat.succ_mul]
    rw [effort] at hrest ⊢
    rw [List.flatMap_cons, List.length_append]
    omega

/-! ## Cues in a frame -/

/-- While a timer of a handler lies aside, no cue wakes the handler. -/
theorem not_woken_of_pending {pending : List Event} (hs : Sound (due c [e] ++ pending) m)
    (hh : m.handlers.get? e = some h) (he : e ∈ pending) : h.woken m.script c = none := by
  obtain ⟨-, p, hp⟩ := hs.coherent e h hh
  cases hw : h.woken m.script c with
  | none => rfl
  | some h₁ =>
    have hcount := hs.count_of_wakes hh hp (Handler.phase_woken hp hw).1
    have hpos := List.count_pos_iff.mpr (List.mem_append_left (m.timers.map (·.event)) he)
    omega

/-- A cue to a handler of which a timer lies aside has no effort and leads nowhere. -/
theorem effort_cue_of_pending {pending : List Event} (host : Host σ)
    (hs : Sound (due c [e] ++ pending) m) (he : e ∈ pending) (n : Nat) (s : σ) :
    effort host (cueTurns host n c e (m, s)) = 0 ∧
      (cue host (enter host n) c e (m, s)).2.1.generation = m.generation := by
  cases hh : m.handlers.get? e with
  | none =>
    rw [cueTurns_of_none host hh, cue_of_none host hh]
    exact ⟨rfl, rfl⟩
  | some h =>
    have hw := not_woken_of_pending hs hh he
    have ht := turn_of_not_woken host e s hw
    rw [cueTurns_of_stay host hh ht (by simp), cue_of_some host hh, ht, effort,
      List.flatMap_singleton, steps_of_not_woken hh hw]
    exact ⟨rfl, rfl⟩

/-- **The effort of a cue**: that of one turn, and that of the switches it leads to if the machine
    leaves its state. -/
theorem effort_cue_le (host : Host σ) (c : Cue) (e : Event) (hm : Budgeted o m) (n : Nat) (s : σ) :
    effort host (cueTurns host n c e (m, s)) ≤ o.budget + 2 * n * o.budget ∧
      ((cue host (enter host n) c e (m, s)).2.1.generation = m.generation →
        effort host (cueTurns host n c e (m, s)) ≤ o.budget) := by
  have hts := (((lasts_budgeted host o).enter_cue n).2 c e m s hm).1
  have heffort := effort_le host hts
  obtain ⟨hall, hstay⟩ := (length_turns_le host n).2 c e m s
  constructor
  · calc effort host (cueTurns host n c e (m, s))
        ≤ (cueTurns host n c e (m, s)).length * o.budget := heffort
      _ ≤ (2 * n + 1) * o.budget := Nat.mul_le_mul_right _ hall
      _ = o.budget + 2 * n * o.budget := by rw [Nat.succ_mul, Nat.add_comm]
  · intro hsame
    calc effort host (cueTurns host n c e (m, s))
        ≤ (cueTurns host n c e (m, s)).length * o.budget := heffort
      _ ≤ 1 * o.budget := Nat.mul_le_mul_right _ (hstay hsame)
      _ = o.budget := Nat.one_mul _

/-- **The effort of a round of cues**: that of one turn for every handler of which no timer lies
    aside, and once that of the switches if the machine leaves its state. -/
theorem effort_round_le {pending : List Event} {g : Nat} (host : Host σ) (c : Cue)
    (es : List Event) (first : Option Error) (s : σ) (hm : Budgeted o m)
    (hs : Sound (due c es ++ pending) m) (h0 : m.switchDepth = 0) (hg : m.generation = g) :
    effort host (roundTurns host c g es (m, s)) ≤
        (es.filter (· ∉ pending)).length * o.budget + 2 * o.maxDepth * o.budget ∧
      ((cueAll host c g es first (m, s)).2.1.generation = g →
        effort host (roundTurns host c g es (m, s)) ≤
          (es.filter (· ∉ pending)).length * o.budget) := by
  induction es generalizing first m s with
  | nil => exact ⟨Nat.zero_le _, fun _ => Nat.zero_le _⟩
  | cons e es ih =>
    rw [due_cons, List.append_assoc] at hs
    obtain ⟨first', hcons⟩ := cueAll_cons host c e es first s hg
    have hdepth : m.options.maxDepth - m.switchDepth = o.maxDepth := by
      rw [h0, hm.options]
      rfl
    have hrun := sameRun_cueOnce host c e s hg
    have hgen := generation_cueOnce host c g e (m, s)
    have hgoes := sound_cueOnce host s hs hg
    have hm' := (lasts_budgeted host o).cueOnce c g e s hm
    obtain ⟨hall, hstay⟩ := effort_cue_le host c e hm o.maxDepth s
    rw [cue_switchTo, hdepth] at hgen
    rw [hcons, roundTurns, if_pos hg, effort_append, hdepth]
    rcases hx : cueOnce host c g e (m, s) with ⟨m', s'⟩
    rw [hx] at hrun hgen hgoes hm'
    by_cases hsame : m'.generation = g
    · -- the machine is still in its state, and the first cue has been a single turn
      have hs' : Sound (due c es ++ pending) m' := by
        rcases hgoes with ⟨-, hs'⟩ | ⟨hlt, -⟩
        · exact hs'
        · exact absurd (hsame.trans hg.symm) (Nat.ne_of_gt hlt)
      have hbudget : Budgeted o m' := hm'
      obtain ⟨hrest, hrest'⟩ := ih first' s' hbudget hs' (hrun.switchDepth.trans h0) hsame
      have hown := hstay (hgen.symm.trans (hsame.trans hg.symm))
      by_cases he : e ∈ pending
      · have hzero := (effort_cue_of_pending host hs (List.mem_append_right _ he) o.maxDepth s).1
        rw [List.filter_cons_of_neg (by simpa using he), hzero, Nat.zero_add]
        exact ⟨hrest, hrest'⟩
      · rw [List.filter_cons_of_pos (by simpa using he), List.length_cons, Nat.succ_mul]
        refine ⟨by omega, fun hend => ?_⟩
        have := hrest' hend
        omega
    · -- the machine has left its state, which ends the round
      have he : e ∉ pending := by
        intro he
        have := (effort_cue_of_pending host hs (List.mem_append_right _ he) o.maxDepth s).2
        exact hsame (hgen.trans (this.trans hg))
      rw [List.filter_cons_of_pos (by simpa using he), List.length_cons, Nat.succ_mul,
        roundTurns_of_left host c es s' hsame, cueAll_of_left host c es first' s' hsame]
      refine ⟨?_, fun hend => absurd hend hsame⟩
      rw [show effort host [] = 0 from rfl]
      omega

/-! ## Operations -/

theorem effort_select_le (host : Host σ) (s : σ) (hm : Budgeted o m) (h0 : m.switchDepth = 0) :
    effort host (selectTurns host (m, s)) ≤ 2 * o.maxDepth * o.budget := by
  have hts := ((lasts_budgeted host o).select s hm).1
  have hlength : (selectTurns host (m, s)).length ≤ 2 * o.maxDepth := by
    have hdepth : m.options.maxDepth - m.switchDepth = o.maxDepth := by
      rw [h0, hm.options]
      rfl
    rw [selectTurns]
    rcases choose m.script m.identity host (m.locals, s) with ⟨err | i, l, s'⟩
    · exact Nat.zero_le _
    · simp only [hdepth]
      split
      · exact Nat.zero_le _
      · exact ((length_turns_le host o.maxDepth).1 i { m with locals := l } s').1
  exact Nat.le_trans (effort_le host hts) (Nat.mul_le_mul_right _ hlength)

theorem effort_trigger_le (host : Host σ) (e : Event) (s : σ) (hm : Budgeted o m)
    (h0 : m.switchDepth = 0) :
    effort host (triggerTurns host e (m, s)) ≤ o.budget + 2 * o.maxDepth * o.budget := by
  rw [triggerTurns]
  split
  · simp only [h0, Nat.sub_zero, hm.options]
    exact (effort_cue_le host .run e hm o.maxDepth s).1
  · exact Nat.zero_le _

theorem effort_activate_le (host : Host σ) (s : σ) (hm : Budgeted o m) (h0 : m.switchDepth = 0) :
    effort host (activateTurns host (m, s)) ≤ o.budget + 4 * o.maxDepth * o.budget := by
  have hfour : 4 * o.maxDepth * o.budget =
      2 * o.maxDepth * o.budget + 2 * o.maxDepth * o.budget := by
    rw [← Nat.add_mul]
    congr 1
    omega
  rw [activateTurns]
  rcases seedSaved m.identity host m.script.vars s with ⟨err | ⟨⟨⟩⟩, s₁⟩
  · exact Nat.zero_le _
  · have hselect := effort_select_le host s₁ hm h0
    have hm₂ := ((lasts_budgeted host o).select s₁ hm).2
    have hrun := sameRun_select host m s₁
    simp only [effort_append]
    rcases hr : select host (m, s₁) with ⟨err | ⟨⟨⟩⟩, m₂, s₂⟩
    · rw [show effort host ([] : List (Turn σ)) = 0 from rfl]
      omega
    · rw [hr] at hm₂ hrun
      have hbudget : Budgeted o m₂ := hm₂
      have htrigger := effort_trigger_le host .spawn s₂ hbudget (hrun.switchDepth.trans h0)
      simp only
      omega

/-- **In a frame every event counts once**: a handler whose timer runs out has been idle when the
    frame began. -/
theorem length_awake_add_fired_le (hs : Sound [] m) (dt : UInt64) :
    (m.handlers.events.filter (· ∉ m.timers.map (·.event))).length + (m.fired dt).length ≤ 6 := by
  have hfired : (m.fired dt).length ≤
      (Event.all.filter (· ∈ m.timers.map (·.event))).length := by
    refine ((hs.nodup_fired dt).subperm fun e he => ?_).length_le
    rw [List.mem_filter]
    exact ⟨Event.mem_all e, by simpa using (fired_sublist m dt).subset he⟩
  have hawake : (m.handlers.events.filter (· ∉ m.timers.map (·.event))).length ≤
      (Event.all.filter (· ∉ m.timers.map (·.event))).length := by
    have hall : m.handlers.events.Sublist Event.all := List.filter_sublist
    exact (hall.filter _).length_le
  have hsplit := List.length_eq_length_filter_add (l := Event.all)
    (fun e => decide (e ∈ m.timers.map (·.event)))
  have hsix : Event.all.length = 6 := rfl
  simp only [← decide_not] at hsplit
  omega

theorem effort_newFrame_le (host : Host σ) (dt : UInt64) (s : σ) (hm : Budgeted o m)
    (hs : Sound [] m) (h0 : m.switchDepth = 0) :
    effort host (frameTurns host dt (m, s)) ≤ 6 * o.budget + 2 * o.maxDepth * o.budget := by
  by_cases hact : m.isActive = true
  · have hbudget : Budgeted o { m with timers := [] } := (lasts_budgeted host o).timers [] hm
    have hframe := sound_cueAll host .newFrame m.handlers.events none { m with timers := [] } s
      rfl hs.bare
    have hm₁ := ((lasts_budgeted host o).round .newFrame m.generation m.handlers.events none s
      hbudget).2
    have hrun := sameRun_cueAll host .newFrame m.generation m.handlers.events none
      { m with timers := [] } s
    have hstart : ({ m with timers := [] } : Machine).generation = m.generation := rfl
    obtain ⟨hbegin, hbegin'⟩ := effort_round_le host .newFrame m.handlers.events none s hbudget
      hs.bare h0 hstart
    have hsix := Nat.mul_le_mul_right o.budget (length_awake_add_fired_le hs dt)
    rw [Nat.add_mul] at hsix
    rcases h₁ : cueAll host .newFrame m.generation m.handlers.events none
      ({ m with timers := [] }, s) with ⟨first, m₁, s₁⟩
    rw [h₁] at hframe hm₁ hrun hbegin'
    simp only [frameTurns, hact, if_true, h₁, effort_append]
    split
    · rename_i hg
      have hs₁ : Sound (m.timers.map (·.event)) m₁ := by
        rcases hframe with ⟨-, hs₁⟩ | ⟨hlt, -⟩
        · exact hs₁
        · exact absurd hg (Nat.ne_of_gt hlt)
      have hmid : Budgeted o (m.midFrame m₁ dt) := (lasts_budgeted host o).timers _ hm₁
      have hdue : Sound (due .resume (m.fired dt) ++ []) (m.midFrame m₁ dt) := hs₁.midFrame dt
      have hresume := (effort_round_le host .resume (m.fired dt) first s₁ hmid hdue
        (hrun.switchDepth.trans h0) hg).1
      have hfilter : (m.fired dt).filter (· ∉ ([] : List Event)) = m.fired dt := by simp
      rw [hfilter] at hresume
      have hfirst := hbegin' hg
      omega
    · rw [show effort host ([] : List (Turn σ)) = 0 from rfl]
      omega
  · simp only [frameTurns, hact]
    exact Nat.zero_le _

end Machine

/-- **How many statements an operation may execute**, given the limits a machine runs under. -/
def Operation.maxSteps (o : MachineOptions) : Operation → Nat
  | .activate => o.budget + 4 * o.maxDepth * o.budget
  | .trigger _ => o.budget + 2 * o.maxDepth * o.budget
  | .newFrame _ => 6 * o.budget + 2 * o.maxDepth * o.budget
  | .select => 2 * o.maxDepth * o.budget
  | .despawn => 0

namespace Machine

variable {m : Machine} {o : MachineOptions}

theorem length_steps_le_maxSteps (hm : Budgeted o m) (hs : Sound [] m) (h0 : m.switchDepth = 0)
    (c : Call) : (c.steps m).length ≤ c.operation.maxSteps o := by
  rw [steps_eq_flatMap_turns]
  obtain ⟨host, s, op⟩ := c
  cases op with
  | activate => exact effort_activate_le host s hm h0
  | trigger e => exact effort_trigger_le host e s hm h0
  | newFrame dt => exact effort_newFrame_le host dt s hm hs h0
  | select => exact effort_select_le host s hm h0
  | despawn => exact Nat.le_refl _

/-- **The work of every operation is bounded**, whatever the script, the history of the machine and
    the host: watched by a host that keeps a list of all statements, the operation comes to the end
    it also has without being watched, and the list is no longer than the limits allow. -/
theorem steps_bounded {script : Script} {identity : Identity} {options : MachineOptions}
    (h : create script identity options = .ok m) (cs : List Call) (c : Call) :
    c.operation.perform c.host.logged (m.after cs, [], c.state) =
        withLog (c.steps (m.after cs)) (c.operation.perform c.host (m.after cs, c.state)) ∧
      (c.steps (m.after cs)).length ≤ c.operation.maxSteps options := by
  obtain ⟨hs, h0⟩ := sound_of_create h
  have hbudget : Budgeted options m := by
    rw [create_eq_ok h]
    refine ⟨rfl, fun e hd hget => ?_⟩
    rw [EventMap.get?_empty] at hget
    cases hget
  have hsound : Sound [] (m.after cs) :=
    after_induct (P := fun m' => Sound [] m') (fun m' c hs' => hs'.next c) hs cs
  have hafter : Budgeted options (m.after cs) :=
    after_induct (P := fun m' => Budgeted options m') (fun m' c hm' => hm'.next c) hbudget cs
  refine ⟨?_, length_steps_le_maxSteps hafter hsound ((sameRun_after h0 cs).switchDepth.trans h0) c⟩
  rw [steps_eq_flatMap_turns, perform_logged]
  rfl

/-- A script whose two states lead to each other, each after two statements for `loop` and two for
    `enterState`. -/
def seesaw : Script where
  vars := [{ name := "n", persisted := false, initial := some (.int 0), location := ⟨1, 1⟩ }]
  states := [
    { name := "Up", condition := .binary .equal (.symbol "n") (.literal (.int 0)),
      handlers := { loop := some 0, enterState := some 1 }, location := ⟨2, 1⟩ },
    { name := "Down", condition := .literal (.bool true),
      handlers := { loop := some 0, enterState := some 2 }, location := ⟨3, 1⟩ }]
  blocks := [
    [.call "print" [] ⟨4, 1⟩, .call "print" [] ⟨4, 9⟩],
    [.call "print" [] ⟨5, 1⟩, .assign (.symbol "n") (.literal (.int 1)) ⟨5, 9⟩],
    [.call "print" [] ⟨6, 1⟩, .assign (.symbol "n") (.literal (.int 0)) ⟨6, 9⟩]]

/-- Choosing a state of the seesaw. -/
def tilt : Call :=
  ⟨Recording.recordingHost [], { parameters := .empty, saved := .empty }, .select⟩

/-- With two statements a frame and two switches the seesaw executes as much as is allowed. -/
theorem steps_bounded_seesaw : ∃ m, create seesaw ⟨"town", some "Bob"⟩ ⟨2, 2⟩ = .ok m ∧
    (tilt.steps m).length = 8 ∧ (tilt.steps m).length ≤ 2 * 2 * 2 := by
  have h : create seesaw ⟨"town", some "Bob"⟩ ⟨2, 2⟩ = .ok
      { script := seesaw, identity := ⟨"town", some "Bob"⟩, options := ⟨2, 2⟩,
        locals := .initial seesaw } := rfl
  exact ⟨_, h, by cbv, (steps_bounded h [] tilt).2⟩

end Machine

end ActorScript
